import JvmLint.Model.Class

/-!
# Building classes

Short forms for classes, methods and instructions made by hand.
-/

namespace JvmLint

namespace Class

def plain (name : String) : Class := { name, access := ⟨0x0021⟩, super := Name.object }

def interface (name : String) (parents : List String) : Class :=
  { name, access := ⟨0x0601⟩, super := Name.object, interfaces := parents }

def makeAbstract (c : Class) : Class := { c with access := ⟨c.access.bits ||| 0x0400⟩ }

end Class

namespace Method

def plain (name desc : String) (body : List Instruction) : Method := { name, desc, access := ⟨0x0001⟩, body }

def static (name desc : String) (body : List Instruction) : Method := { name, desc, access := ⟨0x0009⟩, body }

/-- A public method without a body. -/
def abstract (name desc : String) : Method := { name, desc, access := ⟨0x0401⟩ }

/-- A constructor that first calls the one of the superclass. -/
def constructor (super desc : String) (body : List Instruction) : Method :=
  plain Name.constructor desc
    (.real { op := .aload } :: .real { op := .invokespecial, owner := super, name := Name.constructor, desc := "()V" } :: body)

end Method

end JvmLint
