import JvmLint.App.Run
import JvmLint.History.Trend

/-!
# Past runs

The newest runs of a project with their trend, or one run of any project.
-/

namespace JvmLint

/-- Past runs, newest first, and the findings of the first of them by check. -/
structure Past where
  runs : List Run := []
  counts : List CheckCount := []
  /-- The trend of all the runs; a single run that was asked for has none. -/
  trend : Option Trend := none
deriving DecidableEq, Repr, Inhabited

namespace App

def pastRun (h : History) (m : Machine) (id : String) : Except Fault Past := do
  match ← h.load m id with
  | none =>
    let missing := (StoreDefect.runNotFound id).fault
    .error ((missing.wrap .notFound "run not found").addDetail "run_id" id)
  | some r => return { runs := [r], counts := ← h.counts m r.id }

def pastRuns (h : History) (m : Machine) (key : String) (limit : Int) : Except Fault Past := do
  let runs ← h.list m key limit
  match runs with
  | [] => return {}
  | newest :: _ => return { runs, counts := ← h.counts m newest.id, trend := some (← Trend.ofRuns key runs) }

/-- Looks at the past: at a single run if its id is given. -/
def past (a : App) (m : Machine) (cancelled : Bool) (limit : Int) (id : String) : Except Fault Past × App × Machine :=
  if cancelled then (.error cancelledFault, a, m)
  else
    match a.openHistory m with
    | .error e => (.error e, a, m)
    | .ok (h, a, m) => (if id = "" then pastRuns h m a.settings.projectKey limit else pastRun h m id, a, m)

end App

end JvmLint
