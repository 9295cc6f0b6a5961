import JvmLint.Model.Access
import JvmLint.Model.Instruction
import JvmLint.Model.Name
import JvmLint.Total

/-!
# Classes

The contents of one class file, as far as the analyses look at them.
-/

namespace JvmLint

structure LocalVariable where
  name : String
  desc : String
  slot : Int
  start : Label
  stop : Label
deriving DecidableEq, Repr, Inhabited

/-- An entry of the exception table. A handler without a type catches everything. -/
structure TryCatch where
  start : Label
  stop : Label
  handler : Label
  type : String
deriving DecidableEq, Repr, Inhabited

structure Field where
  name : String
  desc : String
  access : Access
deriving DecidableEq, Repr, Inhabited

structure Method where
  name : String
  desc : String
  access : Access
  body : List Instruction := []
  locals : List LocalVariable := []
  handlers : List TryCatch := []
  exceptions : List String := []
deriving DecidableEq, Repr, Inhabited

structure Class where
  name : String
  access : Access
  /-- The superclass; empty at the root of the hierarchy. -/
  super : String
  interfaces : List String := []
  fields : List Field := []
  methods : List Method := []
  sourceFile : String := ""
  /-- The file or archive entry the class was read from. -/
  origin : String := ""
  major : UInt16 := 0
deriving DecidableEq, Repr, Inhabited

namespace Field

def type (f : Field) : Except DescriptorDefect ValueType := Descriptor.field f.desc.toList

end Field

namespace Method

def isConstructor (m : Method) : Bool := m.name == Name.constructor

def isInitializer (m : Method) : Bool := m.name == Name.initializer

def hasBody (m : Method) : Bool := !m.access.isAbstract && !m.access.isNative && !m.body.isEmpty

def signature (m : Method) : String := m.name ++ m.desc

def type (m : Method) : Except DescriptorDefect MethodType := Descriptor.method m.desc.toList

/-- The real instructions, without the markers. -/
def operations (m : Method) : List Operation := m.body.filterMap (·.real?)

theorem mem_operations {m : Method} {o : Operation} : o ∈ m.operations ↔ .real o ∈ m.body := by
  unfold operations
  rw [List.mem_filterMap]
  constructor
  · intro ⟨i, hi, ho⟩
    cases i with
    | real o' =>
      cases ho
      exact hi
    | _ => cases ho
  · intro h
    exact ⟨_, h, rfl⟩

def opcodes (m : Method) : List Opcode := m.operations.map (·.op)

/-- The line number of the first line marker, or 0. -/
def firstLine (m : Method) : Int :=
  (m.body.findSome? fun | .line n => some n | _ => none).getD 0

/-- The line number that holds after a stretch of instructions that began at `line`. -/
def lineAfter (line : Int) (body : List Instruction) : Int :=
  body.foldl (fun | _, .line n => n | line, _ => line) line

/-- The line number in effect at the instruction with index `i`, or 0. -/
def lineAt (m : Method) (i : Int) : Int := lineAfter 0 (m.body.take (i + 1).toNat)

def labelIndex? (m : Method) (l : Label) : Option Nat := m.body.findIdx? (· == .label l)

def localName? (m : Method) (slot : Int) : Option String :=
  (m.locals.find? (·.slot == slot)).map (·.name)

def branchUnits (m : Method) : Nat :=
  total (m.operations.map fun o =>
    match o.role with
    | .switch => o.targets.length
    | .conditionalBranch => 1
    | _ => 0)

end Method

namespace Class

def isInterface (c : Class) : Bool := c.access.isInterface

def isAbstract (c : Class) : Bool := c.access.isAbstract

/-- Neither abstract nor an interface. -/
def isConcrete (c : Class) : Bool := !c.isAbstract && !c.isInterface

/-- Whether the class extends something other than the root class. -/
def hasSuper (c : Class) : Bool := c.super != "" && c.super != Name.object

def simpleName (c : Class) : String := Name.simple c.name

def displayName (c : Class) : String := Name.dotted c.name

def method? (c : Class) (name desc : String) : Option Method :=
  c.methods.find? fun m => m.name == name && m.desc == desc

def field? (c : Class) (name : String) : Option Field := c.fields.find? (·.name == name)

def constructors (c : Class) : List Method := c.methods.filter (·.isConstructor)

end Class

end JvmLint
