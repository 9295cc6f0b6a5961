import JvmLint.Check.Finding
import JvmLint.Time.Timestamp

/-!
# Runs and trends

A run is one saved analysis. The trend of a project lines its runs up in time.
-/

namespace JvmLint

structure Run where
  id : String := ""
  project : String := ""
  timestamp : Timestamp := .zero
  classes : Int := 0
  findingCount : Int := 0
  loadFailures : Int := 0
  duration : Int := 0
  /-- The names of the checks that ran, separated by commas. -/
  checks : String := ""
  findings : List Finding := []
deriving DecidableEq, Repr, Inhabited

structure TrendPoint where
  run : Run
  /-- How many findings more than the run before. -/
  delta : Int
deriving DecidableEq, Repr, Inhabited

/-- Findings per class; 0 if there are no classes. -/
def TrendPoint.perClass (p : TrendPoint) : Float :=
  if 0 < p.run.classes then Float.ofInt p.run.findingCount / Float.ofInt p.run.classes else 0

structure Trend where
  project : String
  points : List TrendPoint
deriving DecidableEq, Repr, Inhabited

namespace Trend

def wrap (n : Int) : Int := n.bmod 0x10000000000000000

/-- Points for runs in order of time, after a run with so many findings. -/
def pointsAfter (before : Int) : List Run → List TrendPoint
  | [] => []
  | r :: rs => { run := r, delta := wrap (r.findingCount - before) } :: pointsAfter r.findingCount rs

/-- Lines runs up, oldest first; of runs of the same time the first given comes first. -/
def ofRuns (project : String) (runs : List Run) : Except Fault Trend :=
  match runs.mergeSort fun a b => a.timestamp.nanos ≤ b.timestamp.nanos with
  | [] => .error (.plain ("no runs recorded for project " ++ Text.quote project))
  | first :: rest => .ok { project, points := pointsAfter first.findingCount (first :: rest) }

end Trend

end JvmLint
