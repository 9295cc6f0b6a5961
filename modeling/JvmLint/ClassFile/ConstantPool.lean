import JvmLint.ClassFile.Cursor
import JvmLint.ClassFile.ModifiedUtf8

/-!
# Constant pools

Constants are numbered from 1 and refer to each other by number. Those that no analysis looks at
keep only their tag.
-/

namespace JvmLint.ClassFile

inductive Constant where
  /-- Number 0, and the number after an eight-byte constant. -/
  | unused
  | utf8 (text : String)
  | class (name : Nat)
  /-- A field, method or interface method of a class; `tag` tells which. -/
  | member (tag owner nameAndType : Nat)
  | nameAndType (name desc : Nat)
  | invokeDynamic (nameAndType : Nat)
  | other (tag : Nat)
deriving DecidableEq, Repr, Inhabited

def Constant.tag : Constant → Nat
  | unused => 0
  | utf8 _ => 1
  | .class _ => 7
  | member tag _ _ => tag
  | nameAndType _ _ => 12
  | invokeDynamic _ => 18
  | other tag => tag

structure ConstantPool where
  constants : Array Constant
deriving DecidableEq, Repr, Inhabited

namespace ConstantPool

def isDouble (tag : Nat) : Bool := tag == 5 || tag == 6

def scanConstant (number : Nat) (tag : Nat) : Scan Constant := do
  if tag == 1 then return .utf8 (ModifiedUtf8.decode (← Scan.bytes (← Scan.u2)))
  else if tag == 3 || tag == 4 then Scan.skip 4; return .other tag
  else if isDouble tag then Scan.skip 8; return .other tag
  else if tag == 7 then return .class (← Scan.u2)
  else if tag == 8 || tag == 16 || tag == 19 || tag == 20 then Scan.skip 2; return .other tag
  else if tag == 9 || tag == 10 || tag == 11 then return .member tag (← Scan.u2) (← Scan.u2)
  else if tag == 12 then return .nameAndType (← Scan.u2) (← Scan.u2)
  else if tag == 17 then Scan.skip 2; Scan.skip 2; return .other tag
  else if tag == 18 then Scan.skip 2; return .invokeDynamic (← Scan.u2)
  else if tag == 15 then Scan.skip 1; Scan.skip 2; return .other tag
  else Scan.fail (.unknownTag (UInt8.ofNat tag) number); return .other tag

/-- The constants from number `number` on, while `left` numbers are still to be given out and nothing
has failed. An eight-byte constant may take its second number from beyond the end. -/
def scanFrom (number : Nat) : Nat → Scan (List Constant)
  | 0 => pure []
  | 1 => Scan.unlessFailed [] do return [← scanConstant number (← Scan.u1)]
  | left + 2 => Scan.unlessFailed [] do
    let tag ← Scan.u1
    let c ← scanConstant number tag
    if isDouble tag then return c :: .unused :: (← scanFrom (number + 2) left)
    else return c :: (← scanFrom (number + 1) (left + 1))

def scan : Scan ConstantPool := do
  let count ← Scan.u2
  if count = 0 then
    Scan.fail .emptyPool
    return { constants := #[] }
  else return { constants := (.unused :: (← scanFrom 1 (count - 1))).toArray }

/-- The constant with a number; number 0 is none. -/
def get (p : ConstantPool) (i : Nat) : Except Defect Constant :=
  match p.constants[i]? with
  | some c => if i = 0 then .error (.indexOutOfRange i) else .ok c
  | none => .error (.indexOutOfRange i)

def utf8 (p : ConstantPool) (i : Nat) : Except Defect String := do
  match ← p.get i with
  | .utf8 text => .ok text
  | c => .error (.wrongTag i c.tag 1)

def className (p : ConstantPool) (i : Nat) : Except Defect String := do
  match ← p.get i with
  | .class name => p.utf8 name
  | c => .error (.wrongTag i c.tag 7)

def nameAndType (p : ConstantPool) (i : Nat) : Except Defect (String × String) := do
  match ← p.get i with
  | .nameAndType name desc => return (← p.utf8 name, ← p.utf8 desc)
  | c => .error (.wrongTag i c.tag 12)

def member (p : ConstantPool) (i : Nat) : Except Defect (String × String × String) := do
  match ← p.get i with
  | .member _ owner nameAndType => return (← p.className owner, ← p.nameAndType nameAndType)
  | _ => .error (.notMember i)

def dynamic (p : ConstantPool) (i : Nat) : Except Defect (String × String) := do
  match ← p.get i with
  | .invokeDynamic nameAndType => p.nameAndType nameAndType
  | c => .error (.wrongTag i c.tag 18)

end ConstantPool

/-- Looks a constant up; the failure is not tied to a position. -/
def Scan.constant {α : Type} (found : Except Defect α) : Scan α :=
  match found with
  | .ok a => pure a
  | .error d => Scan.reject d

end JvmLint.ClassFile
