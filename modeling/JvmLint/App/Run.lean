import JvmLint.App.Basic
import JvmLint.Classpath

/-!
# Runs

A run finds the inputs, loads and analyzes their classes, and saves the outcome if that is wanted.
-/

namespace JvmLint

/-- What to analyze. What is left empty is taken from the configuration. -/
structure RunRequest where
  paths : List String := []
  classpath : List String := []
  includes : List String := []
  excludes : List String := []
  save : Bool := false
deriving DecidableEq, Repr, Inhabited

structure RunResult where
  analysis : Analysis := {}
  loadFailures : List LoadFailure := []
  resolver : Resolver := {}
  duration : Duration := 0
  /-- The id of the run, if it was saved. -/
  runId : Option String := none
deriving DecidableEq, Repr, Inhabited

/-- The first list, or the second one if it is empty. -/
def orElseList {α : Type} (l rest : List α) : List α := if l.isEmpty then rest else l

/-- Asked to stop before it began. -/
def cancelledFault : Fault := .plain "context canceled"

namespace Settings

/-- Looks classes up among those analyzed, then in the classpath. Entries that do not exist are left
out; a classpath that cannot be opened is left out as a whole. -/
def source (f : Files) (classes : List Class) (classpath : List String) : Source :=
  let own := (ClassSet.ofList classes).source
  match Classpath.open_ f (classpath.filter f.exists_) with
  | .ok entries => Source.chain [own, Classpath.source f entries]
  | .error _ => own

/-- More supertypes than classes in these files can have. A byte of an archive stands for at most
1032 bytes. -/
def reach (f : Files) (classes : List Class) : Nat := reachOf classes + (f.size + 1) * 2048

/-- Analyzes what is asked for and saves nothing. -/
def examine [GlobLibrary] (s : Settings) (f : Files) (req : RunRequest) : Except Fault RunResult := do
  let paths := orElseList req.paths s.config.inputs
  if paths.isEmpty then .error (.new .validation "no inputs: pass paths or set inputs in the config")
  let includes := orElseList req.includes s.config.analysis.includes
  let excludes := orElseList req.excludes s.config.analysis.excludes
  let selected ← (s.registry.select includes excludes).mapError fun d => d.fault.wrap .validation "select checks"
  let found := discover f paths s.excludeFiles
  let loaded ← (s.loader f found.inputs).mapError fun e => e.addDetail "operation" "load"
  let source := source f loaded.classes (orElseList req.classpath s.config.classpath)
  let (analysis, resolver) ← (Analysis.run source (reach f loaded.classes) (loaded.classes.map some) selected false {}).mapError
    fun e => e.addDetail "operation" "analyze"
  return { analysis, loadFailures := found.failures ++ loaded.failures, resolver }

end Settings

namespace App

/-- Saves a result and forgets the oldest runs. -/
def saveRun (a : App) (m : Machine) (r : RunResult) : Except Fault RunResult × App × Machine :=
  match a.openHistory m with
  | .error e => (.error e, a, m)
  | .ok (h, a, m) =>
    let key := a.settings.projectKey
    match h.record m key { analysis := r.analysis, loadFailures := r.loadFailures.length, duration := r.duration } with
    | .error e => (.error ((e.wrap .internal "save run").addDetail "operation" "history"), a, m)
    | .ok (run, m) =>
      let keep := a.settings.config.db.retention
      let m := if 0 < keep then (((h.prune m key keep).toOption).map (·.2)).getD m else m
      (.ok { r with runId := some run.id }, a, m)

def run [GlobLibrary] (a : App) (m : Machine) (cancelled : Bool) (req : RunRequest) :
    Except Fault RunResult × App × Machine :=
  if cancelled then (.error cancelledFault, a, m)
  else
    let (start, m) := m.clock
    match a.settings.examine m.files req with
    | .error e => (.error e, a, m)
    | .ok r =>
      let r := { r with duration := m.now.nanos - start.nanos }
      if req.save || a.settings.config.db.enabled then a.saveRun m r else (.ok r, a, m)

/-- Runs for somebody who may have no application. -/
def runFor [GlobLibrary] (a : Option App) (m : Machine) (cancelled : Bool) (req : RunRequest) :
    Except Fault RunResult × Option App × Machine :=
  match a with
  | none => (.error (if cancelled then cancelledFault else .new .internal "app is required"), none, m)
  | some a =>
    let (r, a, m) := a.run m cancelled req
    (r, some a, m)

end App

end JvmLint
