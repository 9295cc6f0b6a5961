import JvmLint.Bytecode.Opcode
import JvmLint.Fault

/-!
# Reading big-endian data

A tape of bytes that keeps the first failure, scans that move it, and the defects a class file can
have. A read past the end does not stop a scan: it gives zero, as does every read after it, until
the scan checks its tape.
-/

namespace JvmLint.ClassFile

inductive Defect where
  | endOfData (need have_ : Nat)
  | badMagic
  | emptyPool
  | unknownTag (tag : UInt8) (index : Nat)
  | indexOutOfRange (index : Nat)
  | wrongTag (index found expected : Nat)
  | notMember (index : Nat)
  | switchRange (low high : Int)
  | pairCount (n : Int)
  | wideOperand (op : Opcode)
  | unknownOpcode (op : Opcode)
deriving DecidableEq, Repr, Inhabited

def Defect.message : Defect → String
  | endOfData need have_ =>
    "unexpected end of data: need " ++ toString need ++ " bytes, have " ++ toString have_
  | badMagic => "bad magic number"
  | emptyPool => "constant pool count is zero"
  | unknownTag tag index =>
    "unknown constant pool tag " ++ toString tag.toNat ++ " at index " ++ toString index
  | indexOutOfRange index => "constant pool index " ++ toString index ++ " out of range"
  | wrongTag index found expected =>
    "constant " ++ toString index ++ " has tag " ++ toString found ++ ", expected " ++ toString expected
  | notMember index => "constant " ++ toString index ++ " is not a member reference"
  | switchRange low high => "invalid tableswitch range " ++ toString low ++ ".." ++ toString high
  | pairCount n => "invalid lookupswitch pair count " ++ toString n
  | wideOperand op => "invalid wide operand " ++ op.text
  | unknownOpcode op => "unknown opcode 0x" ++ String.ofList (Text.hexDigits 2 op.byte.toNat)

structure Malformed where
  defect : Defect
  details : Details := []
deriving DecidableEq, Repr, Inhabited

def Malformed.at (e : Malformed) (key value : String) : Malformed :=
  { e with details := e.details.set key value }

def Malformed.fault (e : Malformed) : Fault :=
  .coded { code := .malformedClass, message := e.defect.message, details := e.details }

/-- Unread bytes, and how many were read before them. -/
structure Cursor where
  rest : List UInt8
  pos : Nat := 0
deriving DecidableEq, Repr, Inhabited

def wordOf (bytes : List UInt8) : Nat := bytes.foldl (fun n b => 256 * n + b.toNat) 0

/-- A cursor that keeps the first failure. Once there is one, reads give zeros and move nothing. -/
structure Tape extends Cursor where
  fault : Option Malformed := none
deriving DecidableEq, Repr, Inhabited

namespace Tape

/-- Keeps a failure at the present position, unless there is one already. -/
def fail (d : Defect) (t : Tape) : Tape :=
  match t.fault with
  | some _ => t
  | none => { t with fault := some { defect := d, details := [("offset", toString t.pos)] } }

/-- Whether the next `n` bytes can be read. If they are not there, that is a failure. -/
def need (n : Nat) (t : Tape) : Bool × Tape :=
  match t.fault with
  | some _ => (false, t)
  | none =>
    if (t.rest.take n).length = n then (true, t) else (false, t.fail (.endOfData n t.rest.length))

def bytes (n : Nat) (t : Tape) : List UInt8 × Tape :=
  match t.need n with
  | (true, t) => (t.rest.take n, { t with rest := t.rest.drop n, pos := t.pos + n })
  | (false, t) => ([], t)

theorem bytes_of_fault {n : Nat} {t : Tape} {e : Malformed} (h : t.fault = some e) : t.bytes n = ([], t) := by
  simp [bytes, need, h]

theorem bytes_of_le {n : Nat} {t : Tape} (h : t.fault = none) (hn : n ≤ t.rest.length) :
    t.bytes n = (t.rest.take n, { t with rest := t.rest.drop n, pos := t.pos + n }) := by
  simp [bytes, need, h, hn]

theorem bytes_of_lt {n : Nat} {t : Tape} (h : t.fault = none) (hn : t.rest.length < n) :
    t.bytes n = ([], t.fail (.endOfData n t.rest.length)) := by
  have hmin : ¬ min n t.rest.length = n := by omega
  simp [bytes, need, h, hmin]

def word (n : Nat) (t : Tape) : Nat × Tape :=
  let (taken, t) := t.bytes n
  (wordOf taken, t)

def i4 (t : Tape) : Int32 × Tape :=
  let (n, t) := t.word 4
  (n.toUInt32.toInt32, t)

/-- How many more reads there can be: each moves the tape or is the one that fails. -/
def room (t : Tape) : Nat := if t.fault = none then t.rest.length + 1 else 0

theorem room_i4 {t : Tape} (h : t.fault = none) : t.i4.2.room < t.room := by
  by_cases hn : 4 ≤ t.rest.length
  · simp only [i4, word, bytes_of_le h hn, room, h, if_true, List.length_drop]
    omega
  · simp [i4, word, bytes_of_lt h (Nat.lt_of_not_le hn), room, fail, h]

/-- The entries of a jump table from number `i` up to number `high`. The number is a word of 32 bits,
so one more than the largest is the smallest. -/
def cases (i high : Int32) (t : Tape) : List Int32 × Tape :=
  if h : i ≤ high ∧ t.fault = none then
    let more := cases (i + 1) high t.i4.2
    (t.i4.1 :: more.1, more.2)
  else ([], t)
termination_by t.room
decreasing_by exact room_i4 h.2

end Tape

/-- Moves a tape. What it throws is returned at once; what the tape keeps shows only when checked. -/
abbrev Scan := StateT Tape (Except Malformed)

namespace Scan

def bytes (n : Nat) : Scan (List UInt8) := fun t => .ok (t.bytes n)

def skip (n : Nat) : Scan Unit := do let _ ← bytes n

def word (n : Nat) : Scan Nat := fun t => .ok (t.word n)

def u1 : Scan Nat := word 1

def u2 : Scan Nat := word 2

def u4 : Scan Nat := word 4

def i2 : Scan Int16 := return (← u2).toUInt16.toInt16

def i4 : Scan Int32 := fun t => .ok t.i4

def cases (low high : Int32) : Scan (List Int32) := fun t => .ok (t.cases low high)

def fail (d : Defect) : Scan Unit := fun t => .ok ((), t.fail d)

/-- Runs a scan and then throws the failure that the tape keeps, with something noted. -/
def checkedAs {α : Type} (note : Malformed → Malformed) (s : Scan α) : Scan α := do
  let a ← s
  match (← get).fault with
  | some e => throw (note e)
  | none => return a

/-- Runs a scan and then throws the failure that the tape keeps. -/
def checked {α : Type} (s : Scan α) : Scan α := checkedAs id s

/-- Runs a scan unless something has failed. -/
def unlessFailed {α : Type} (otherwise : α) (s : Scan α) : Scan α := do
  if (← get).fault.isSome then return otherwise else s

/-- Whether nothing more can be read. -/
def done : Scan Bool := fun t => .ok (t.fault.isSome || t.rest.isEmpty, t)

def position : Scan Nat := fun t => .ok (t.pos, t)

/-- A tape of the next `n` bytes alone, with the failure there is. -/
def sub (n : Nat) : Scan Tape := fun t =>
  let (data, t) := t.bytes n
  .ok ({ rest := data, fault := t.fault }, t)

def within {α : Type} (body : Tape) (s : Scan α) : Scan α := fun t =>
  match s body with
  | .ok (a, _) => .ok (a, t)
  | .error e => .error e

def noting {α : Type} (key value : String) (s : Scan α) : Scan α := fun t =>
  match s t with
  | .ok a => .ok a
  | .error e => .error (e.at key value)

/-- A failure that is not tied to a position. -/
def reject {α : Type} (d : Defect) : Scan α := fun _ => .error { defect := d }

/-- Scans `n` things, whether or not there is a failure. -/
def times {α : Type} : Nat → Scan α → Scan (List α)
  | 0, _ => pure []
  | n + 1, s => do
    let a ← s
    return a :: (← times n s)

/-- Scans `n` things, up to the first failure. -/
def each {α : Type} : Nat → Scan α → Scan (List α)
  | 0, _ => pure []
  | n + 1, s => unlessFailed [] do
    let a ← s
    return a :: (← each n s)

def counted {α : Type} (s : Scan α) : Scan (List α) := do each (← u2) s

/-- Applies a scan `n` times to what it gave before, up to the first failure. -/
def iterate {α : Type} (step : α → Scan α) : Nat → α → Scan α
  | 0, a => pure a
  | n + 1, a => unlessFailed a do iterate step n (← step a)

end Scan

end JvmLint.ClassFile
