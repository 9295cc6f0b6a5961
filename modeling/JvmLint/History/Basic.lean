import JvmLint.Analysis
import JvmLint.History.Store
import JvmLint.Machine

/-!
# Histories

A history keeps the runs of projects. The one that lasts is a store; others may stand in for it.
-/

namespace JvmLint

structure Outcome where
  analysis : Analysis := {}
  loadFailures : Nat := 0
  duration : Duration := 0
deriving DecidableEq, Repr, Inhabited

structure History where
  /-- Saves the outcome of an analysis as a new run of a project. -/
  record : Machine → String → Outcome → Except Fault (Run × Machine)
  /-- The newest runs of a project. -/
  list : Machine → String → Int → Except Fault (List Run)
  /-- The run of an id, if there is one. -/
  load : Machine → String → Except Fault (Option Run)
  /-- The findings of a run by check. -/
  counts : Machine → String → Except Fault (List CheckCount)
  /-- Keeps the newest runs of a project and says how many went. -/
  prune : Machine → String → Int → Except Fault (Nat × Machine)

namespace History

def newRun (project : String) (now : Timestamp) (o : Outcome) : Run :=
  { project, timestamp := now.utc, classes := o.analysis.classes, loadFailures := o.loadFailures, duration := o.duration
    checks := ",".intercalate o.analysis.checks, findings := o.analysis.findings }

def ofStore (s : Store) : History where
  record m project o :=
    let (now, m) := m.clock
    let (id, m) := m.freshId
    match s.save m.files false id now (newRun project now o) with
    | .ok (r, f) => .ok (r, { m with files := f })
    | .error d => .error d.fault
  list m project limit := (s.list m.files project limit).mapError (·.fault)
  load m id :=
    match s.load m.files id with
    | .ok r => .ok (some r)
    | .error (.runNotFound _) => .ok none
    | .error d => .error d.fault
  counts m id := (s.counts m.files id).mapError (·.fault)
  prune m project keep :=
    match s.prune m.files false project keep with
    | .ok (n, f) => .ok (n, { m with files := f })
    | .error d => .error d.fault

end History

end JvmLint
