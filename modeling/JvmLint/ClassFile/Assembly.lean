import JvmLint.Model.Access

/-!
# Assembling class files

Writes minimal class files: a pool of texts and class names, members, and bare code. Texts are
shared in the pool; every mention of a class makes a constant of its own.
-/

namespace JvmLint.ClassFile

def be2 (n : Nat) : List UInt8 := [UInt8.ofNat (n / 0x100), UInt8.ofNat n]

def be4 (n : Nat) : List UInt8 := be2 (n / 0x10000) ++ be2 n

def utf8Bytes (s : String) : List UInt8 := s.toList.flatMap String.utf8EncodeChar

namespace Assembly

/-- A field or method to write. Without code a method gets no code attribute. -/
structure Member where
  access : Access
  name : String
  desc : String
  code : Option (List UInt8) := none
deriving DecidableEq, Repr, Inhabited

structure Pool where
  bytes : List UInt8 := []
  next : Nat := 1
  texts : List (String × Nat) := []
deriving DecidableEq, Repr, Inhabited

def Pool.push (p : Pool) (constant : List UInt8) : Pool :=
  { p with bytes := p.bytes ++ constant, next := p.next + 1 }

/-- The number of a text constant, which is written at its first use. -/
def utf8 (s : String) : StateM Pool Nat := do
  let p ← get
  match p.texts.lookup s with
  | some i => return i
  | none =>
    let text := utf8Bytes s
    set { p.push (1 :: be2 text.length ++ text) with texts := (s, p.next) :: p.texts }
    return p.next

def className (name : String) : StateM Pool Nat := do
  let text ← utf8 name
  let p ← get
  set (p.push (7 :: be2 text))
  return p.next

/-- Room for four stack entries and four locals, the code, and no tables. -/
def codeAttribute (code : List UInt8) : List UInt8 :=
  be4 (12 + code.length) ++ be2 4 ++ be2 4 ++ be4 code.length ++ code ++ be2 0 ++ be2 0

def member (m : Member) : StateM Pool (List UInt8) := do
  let name ← utf8 m.name
  let desc ← utf8 m.desc
  let head := be2 m.access.bits.toNat ++ be2 name ++ be2 desc
  match m.code with
  | none => return head ++ be2 0
  | some code => return head ++ be2 1 ++ be2 (← utf8 "Code") ++ codeAttribute code

def members (ms : List Member) : StateM Pool (List UInt8) := do
  return be2 ms.length ++ (← ms.mapM member).flatten

end Assembly

structure Assembly where
  name : String
  super : String
  access : Access := .publicClass
  interfaces : List String := []
  fields : List Assembly.Member := []
  methods : List Assembly.Member := []
deriving DecidableEq, Repr, Inhabited

namespace Assembly

def returnFalse : List UInt8 := [0x03, 0xac]

def returnVoid : List UInt8 := [0xb1]

def body (a : Assembly) : StateM Pool (List UInt8) := do
  let this ← className a.name
  let super ← if a.super = "" then pure 0 else className a.super
  let interfaces ← a.interfaces.mapM className
  let fields ← members a.fields
  let methods ← members a.methods
  return be2 a.access.bits.toNat ++ be2 this ++ be2 super ++
    be2 interfaces.length ++ interfaces.flatMap be2 ++ fields ++ methods ++ be2 0

def bytes (a : Assembly) : List UInt8 :=
  let (body, pool) := a.body.run {}
  be4 0xCAFEBABE ++ be2 0 ++ be2 61 ++ be2 pool.next ++ pool.bytes ++ body

end Assembly

end JvmLint.ClassFile
