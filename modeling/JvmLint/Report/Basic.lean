import JvmLint.Check.Basic
import JvmLint.Time.Timestamp

/-!
# Reports

What there is to say about one analysis, and its totals.
-/

namespace JvmLint

/-- An input that could not be loaded. -/
structure LoadFailure where
  path : String
  error : String
deriving DecidableEq, Repr, Inhabited

structure Report where
  project : String := ""
  version : String := ""
  generatedAt : Timestamp := .zero
  classes : Int := 0
  /-- The names of the checks that ran. -/
  checks : List String := []
  findings : List Finding := []
  loadFailures : List LoadFailure := []
  duration : Int := 0
  /-- Descriptions of the checks that ran, if they are known. -/
  rules : List CheckInfo := []
deriving DecidableEq, Repr, Inhabited

structure CheckCount where
  name : String
  category : Category
  count : Nat
deriving DecidableEq, Repr, Inhabited

/-- More findings come first, then smaller names. -/
def CheckCount.before (a b : CheckCount) : Bool :=
  if a.count = b.count then a.name ≤ b.name else b.count < a.count

/-- Counts in the making. The entry of a check is found through its place. -/
structure Tally where
  places : List (String × Nat) := []
  entries : List CheckCount := []
deriving DecidableEq, Repr, Inhabited

namespace Tally

/-- A new entry, of the category of the finding, that counts nothing yet. -/
def enter (t : Tally) (f : Finding) : Tally :=
  { places := (f.checkName, t.entries.length) :: t.places
    entries := t.entries ++ [{ name := f.checkName, category := f.category, count := 0 }] }

def increment (t : Tally) (i : Nat) : Tally :=
  { t with entries := t.entries.modify i fun c => { c with count := c.count + 1 } }

def add (t : Tally) (f : Finding) : Tally :=
  match t.places.lookup f.checkName with
  | some i => t.increment i
  | none => (t.enter f).increment t.entries.length

end Tally

/-- The number of findings of each check that has some, with the category of its first finding. -/
def checkCounts (fs : List Finding) : List CheckCount :=
  (fs.foldl Tally.add {}).entries.mergeSort CheckCount.before

/-- The rules to list: those that are known, or one for each check that reported or ran. -/
def Report.ruleEntries (r : Report) : List CheckInfo :=
  if r.rules.isEmpty then
    let reported := (dedup (r.findings.map (·.checkName))).map fun n =>
      ({ name := n, category := ((r.findings.find? (·.checkName == n)).map (·.category)).getD ⟨""⟩, description := "" } : CheckInfo)
    let ran := (dedup r.checks).filter fun n => !reported.any (·.name == n)
    reported ++ ran.map fun n => { name := n, category := ⟨""⟩, description := "" }
  else r.rules

end JvmLint
