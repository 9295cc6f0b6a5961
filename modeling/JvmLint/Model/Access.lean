/-!
# Access flags

The flag word shared by classes, fields and methods.
-/

namespace JvmLint

structure Access where
  bits : UInt16
deriving DecidableEq, Repr, Inhabited

namespace Access

def has (a : Access) (mask : UInt16) : Bool := a.bits &&& mask != 0

def isPublic (a : Access) : Bool := a.has 0x0001
def isPrivate (a : Access) : Bool := a.has 0x0002
def isProtected (a : Access) : Bool := a.has 0x0004
def isStatic (a : Access) : Bool := a.has 0x0008
def isFinal (a : Access) : Bool := a.has 0x0010
def isNative (a : Access) : Bool := a.has 0x0100
def isInterface (a : Access) : Bool := a.has 0x0200
def isAbstract (a : Access) : Bool := a.has 0x0400
def isSynthetic (a : Access) : Bool := a.has 0x1000

/-- The flags of a public class: public, with modern `invokespecial` treatment. -/
def publicClass : Access := ⟨0x0021⟩

/-- The keywords that apply to classes and members alike; only the widest visibility shows. -/
def text (a : Access) : String :=
  let visibility :=
    if a.isPublic then ["public"]
    else if a.isProtected then ["protected"]
    else if a.isPrivate then ["private"]
    else []
  let modifiers := [(a.isStatic, "static"), (a.isAbstract, "abstract"), (a.isFinal, "final"), (a.isInterface, "interface")]
  " ".intercalate (visibility ++ (modifiers.filter (·.1)).map (·.2))

def flags (a : Access) : List String :=
  ([(a.isPublic, "public"), (a.isPrivate, "private"), (a.isProtected, "protected"), (a.isStatic, "static"),
    (a.isFinal, "final"), (a.isAbstract, "abstract"), (a.isInterface, "interface"), (a.isNative, "native"),
    (a.isSynthetic, "synthetic")].filter (·.1)).map (·.2)

end Access

end JvmLint
