import JvmLint.Check.Basic

/-!
# Duplicated methods

Two methods of a class are alike as far as their opcodes have a long common subsequence.
-/

namespace JvmLint

/-- Two rows of the table of common subsequence lengths, with an entry for each prefix of the second
sequence. -/
structure LcsRows where
  /-- The last row that is complete. -/
  above : Array Nat
  /-- The row before that one, which is overwritten with the next. -/
  below : Array Nat

namespace LcsRows
variable {α : Type} [DecidableEq α]

def start (width : Nat) : LcsRows := { above := Array.replicate (width + 1) 0, below := Array.replicate (width + 1) 0 }

/-- Writes the entry behind `j`, for an element `x` of the first sequence and the element `y` at `j`. -/
def write (rows : LcsRows) (x y : α) (j : Nat) : LcsRows :=
  let up := rows.above.getD (j + 1) 0
  let left := rows.below.getD j 0
  let here := if x = y then rows.above.getD j 0 + 1 else if left ≤ up then up else left
  { rows with below := rows.below.setIfInBounds (j + 1) here }

def fill (rows : LcsRows) (x : α) (j : Nat) : List α → LcsRows
  | [] => rows
  | y :: ys => (rows.write x y j).fill x (j + 1) ys

def swap (rows : LcsRows) : LcsRows := { above := rows.below, below := rows.above }

/-- The rows with one more element of the first sequence. -/
def next (ys : List α) (rows : LcsRows) (x : α) : LcsRows := (rows.fill x 0 ys).swap

end LcsRows

def lcsLength {α : Type} [DecidableEq α] (xs ys : List α) : Nat :=
  (xs.foldl (LcsRows.next ys) (.start ys.length)).above.getD ys.length 0

def similarity (a b : List Opcode) : Float :=
  if a.isEmpty || b.isEmpty then 0
  else Float.ofNat (lcsLength a b) / Float.ofNat (max a.length b.length)

structure DuplicationOptions where
  /-- Only pairs more alike than this are reported. -/
  threshold : Float
  /-- Methods with fewer instructions are left out. -/
  minInstructions : Int

namespace DuplicationOptions

def builtIn : DuplicationOptions := { threshold := 0.8, minInstructions := 5 }

def sane (o : DuplicationOptions) : DuplicationOptions :=
  { threshold := if o.threshold ≤ 0 || o.threshold > 1 then builtIn.threshold else o.threshold
    minInstructions := if o.minInstructions ≤ 0 then builtIn.minInstructions else o.minInstructions }

end DuplicationOptions

def pairs {α : Type} : List α → List (α × α)
  | [] => []
  | a :: rest => rest.map (a, ·) ++ pairs rest

namespace Duplication

def info : CheckInfo :=
  ⟨"Duplication", .principle, "Methods in the same class whose instruction sequences are nearly identical."⟩

def percent (s : Float) : String := toString (s * 100).round.toUInt64

def remarks (o : DuplicationOptions) (c : Class) : List Remark :=
  let candidates := (c.methods.filter fun m => !m.isConstructor && !m.isInitializer).map fun m => (m, m.opcodes)
  let long := candidates.filter fun (_, ops) => o.minInstructions ≤ ops.length
  (pairs long).filterMap fun ((a, aOps), (b, bOps)) =>
    let s := similarity aOps bOps
    if s ≤ o.threshold then none
    else some {
      location := methodLocation c a a.firstLine
      message := "Methods '" ++ a.name ++ "' and '" ++ b.name ++ "' have high code duplication (" ++
        percent s ++ "% similar)" }

def check (o : DuplicationOptions) : Check := info.localCheck (remarks o.sane)

end Duplication

end JvmLint
