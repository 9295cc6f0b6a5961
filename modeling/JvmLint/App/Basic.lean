import JvmLint.Config.Options
import JvmLint.Config.Paths
import JvmLint.History.Basic
import JvmLint.Input.Load

/-!
# The application

What the commands share: settings made from a configuration, and a history that is opened when it is
first needed.
-/

namespace JvmLint

abbrev ClassLoader := Files → List Input → Except Fault Loaded

structure Settings where
  config : Config
  paths : ResolvedPaths
  registry : Registry
  excludeFiles : List Pattern
  loader : ClassLoader

namespace Settings

def loaderOf [GlobLibrary] (c : Config) : Except Fault ClassLoader := do
  let l ← Loader.ofPatterns c.exclude.classes
  return fun f inputs => .ok (l.load f inputs)

/-- What holds before the first configuration, with a loader that may be given. -/
def initial (given : Option ClassLoader) : Settings :=
  { config := {}, paths := default, registry := { checks := [] }, excludeFiles := []
    loader := given.getD fun _ _ => .ok {} }

def projectKey (s : Settings) : String := s.config.projectKey s.paths

end Settings

structure App where
  settings : Settings
  /-- A loader that no configuration replaces. -/
  loader : Option ClassLoader := none
  /-- A history that stands in for the store. -/
  history : Option History := none
  /-- The store, once it is open. -/
  store : Option Store := none
  /-- The file that is watched for a new configuration; empty for none. -/
  configPath : String := ""

namespace App

/-- Steps that may fail and may change the application. What a step has changed stays changed if a later one
fails. -/
abbrev Changing := ExceptT Fault (StateM App)

/-- A step that only makes something. -/
def make {α : Type} (x : Except Fault α) : Changing α := liftM x

/-- Takes a configuration over. The system tells the working directory, or why it cannot. -/
def takeOver [GlobLibrary] (f : Files) (workingDir : Except Fault String) (c : Config) : Changing Unit := do
  let dir ← make (workingDir.mapError fun e => e.label "get working directory")
  let paths ← make (c.resolvePaths f dir)
  let options ← make (c.checkOptions.mapError fun e => e.wrap .validation "check options")
  let registry ← make ((Registry.builtIn options).mapError fun e => e.wrap .validation "check registry")
  let excludeFiles ← make ((Pattern.compileAll c.exclude.files).mapError fun d => d.fault.wrap .validation "exclude.files")
  if (← get).loader.isNone then
    let loader ← make (Settings.loaderOf c)
    modify fun a => { a with settings := { a.settings with loader } }
  modify fun a => { a with settings := { a.settings with config := c, paths, registry, excludeFiles } }

/-- How taking a configuration over ends, and the application after it. -/
def takenOver [GlobLibrary] (a : App) (f : Files) (c : Config) : Except Fault Unit × App :=
  (takeOver f (.ok f.workingDir) c).run a

def reconfigure [GlobLibrary] (a : App) (f : Files) (c : Config) : Except Fault App :=
  match a.takenOver f c with
  | (.ok (), a) => .ok a
  | (.error e, _) => .error e

def new [GlobLibrary] (loader : Option ClassLoader) (history : Option History) (f : Files)
    (c : Option Config) : Except Fault App :=
  match c with
  | none => .error (.new .validation "config is required")
  | some c => reconfigure { settings := .initial loader, loader, history } f c

/-- The history in use, if one is. -/
def openHistory? (a : App) : Option History := a.history <|> a.store.map History.ofStore

/-- The history, which is opened if it is not yet. -/
def openHistory (a : App) (m : Machine) : Except Fault (History × App × Machine) :=
  match a.openHistory? with
  | some h => .ok (h, a, m)
  | none =>
    let path := a.settings.paths.db
    match Store.open_ m.files path with
    | .ok (s, f) => .ok (History.ofStore s, { a with store := some s }, { m with files := f })
    | .error e =>
      let what := if isCorrupt e then "history database is corrupt" else "open history"
      .error ((e.wrap .internal what).addDetail "path" path)

def close (a : App) : App := { a with store := none }

end App

end JvmLint
