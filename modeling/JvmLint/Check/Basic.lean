import JvmLint.Architecture.Policy
import JvmLint.Check.Finding
import JvmLint.Check.Lookup

/-!
# Checks

A check looks at one class at a time and may ask for others. Some checks want the whole analyzed
set classified before any class is looked at.
-/

namespace JvmLint

structure Surroundings where
  /-- The layers of the analyzed set, if it was classified. -/
  layers : Option Layers := none
  /-- At most so many different names are mentioned by the classes that can be looked up, so a walk
  over names met once each ends within it. -/
  reach : Nat := 0
deriving DecidableEq, Repr, Inhabited

structure CheckInfo where
  name : String
  category : Category
  description : String
deriving DecidableEq, Repr, Inhabited

structure Check extends CheckInfo where
  /-- Classifies a set of classes, for checks that need it. -/
  classify : Option (List Class → Layers) := none
  /-- The findings in a class; none at all if the check broke down. -/
  run : Class → Surroundings → Lookup (Option (List Finding))

/-- Runs a check on a class. A check that breaks down has no findings. -/
def Check.findings (k : Check) (c : Class) (around : Surroundings) : Lookup (List Finding) :=
  (fun found => found.getD []) <$> k.run c around

/-- What there is to report, before the check's name is on it. -/
structure Remark where
  location : String
  message : String
deriving DecidableEq, Repr, Inhabited

namespace CheckInfo

def finding (i : CheckInfo) (r : Remark) : Finding :=
  { checkName := i.name, category := i.category, location := r.location, message := r.message }

def check (i : CheckInfo) (remarks : Class → Surroundings → Lookup (List Remark)) : Check :=
  { i with run := fun c around => (fun rs => some (rs.map i.finding)) <$> remarks c around }

/-- A check that needs no class but the one it looks at. -/
def localCheck (i : CheckInfo) (remarks : Class → List Remark) : Check :=
  i.check fun c _ => .done (remarks c)

end CheckInfo

end JvmLint
