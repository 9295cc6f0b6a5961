import JvmLint.Check.Registry
import JvmLint.Resolver

/-!
# Analysis

Runs selected checks over a set of classes. Checks that need the set classified get that done before
any class is looked at. Findings come in the order of the classes, then of the checks.
-/

namespace JvmLint

/-- The classification of the whole set; where two checks classify a class, the later one counts. -/
def classification (classes : List Class) (selected : List Check) : Option Layers :=
  selected.foldl (fun layers k =>
    match k.classify with
    | none => layers
    | some classify => some (classify classes ++ layers.getD [])) none

def analyze (reach : Nat) (classes : List Class) (selected : List Check) : Lookup (List Finding) := do
  let around : Surroundings := { layers := classification classes selected, reach }
  let found ← classes.mapM fun c => selected.mapM fun k => k.findings c around
  return found.flatten.flatten

/-- How often each element occurs, in the order of first occurrence. -/
def tally {α : Type} [BEq α] (l : List α) : List (α × Nat) := (dedup l).map fun a => (a, l.count a)

structure Analysis where
  findings : List Finding := []
  classes : Nat := 0
  /-- The names of the checks that ran. -/
  checks : List String := []
deriving DecidableEq, Repr, Inhabited

def Analysis.counts (a : Analysis) : List (String × Nat) := tally (a.findings.map (·.checkName))

/-- Analyzes with a source and the memory of a resolver. Missing classes count but are not looked at.
A cancelled analysis fails as soon as there is a class to look at. -/
def Analysis.run (source : Source) (reach : Nat) (classes : List (Option Class)) (selected : List Check)
    (cancelled : Bool) (r : Resolver) : Except Fault (Analysis × Resolver) :=
  let present := classes.filterMap id
  if cancelled && !present.isEmpty then .error ((Fault.plain "context canceled").label "analyze")
  else
    let (findings, r) := r.answer source (analyze reach present selected)
    .ok ({ findings, classes := classes.length, checks := selected.map (·.name) }, r)

end JvmLint
