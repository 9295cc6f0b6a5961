import JvmLint.App.Run
import JvmLint.Watch.ConfigFile
import JvmLint.Watch.Watcher

/-!
# Watch sessions

A session analyzes once and again whenever inputs or the configuration change. Every start comes with a
token; once that is given up, a waiter stops the session that runs then.
-/

namespace JvmLint

structure Update where
  result : Except Fault RunResult
  changed : List String

structure Session where
  app : App
  machine : Machine := {}
  running : Bool := false
  request : RunRequest := {}
  /-- The token of the latest start. -/
  token : Option Nat := none
  watcher : Option Watcher := none
  /-- The token of the start that the watcher is from. -/
  holder : Option Nat := none
  configWatcher : Option ConfigWatcher := none
  /-- Tokens that somebody waits for. -/
  waiters : List Nat := []
  /-- Tokens given up. -/
  givenUp : List Nat := []
  /-- What was told, oldest first. -/
  updates : List Update := []

namespace Session

/-- Analyzes and tells the outcome, unless the token is given up. -/
def analyze [GlobLibrary] (s : Session) (changed : List String) : Session :=
  match s.token with
  | none => s
  | some t =>
    if s.givenUp.contains t then s
    else
      let (result, app, machine) := s.app.run s.machine false s.request
      { s with app, machine, updates := s.updates ++ [{ result, changed }] }

/-- Watches the configuration file, if there is one in a directory that exists. -/
def watchConfig (s : Session) : Option ConfigWatcher :=
  if s.app.configPath = "" then none else (ConfigWatcher.start s.machine.files s.app.configPath).toOption

/-- A start takes the session for itself, if nobody has it. -/
def claim (s : Session) (token : Nat) (req : RunRequest) : Except Fault Session :=
  if s.running then .error (.new .validation "watch already running")
  else .ok { s with running := true, token := some token, request := req }

def prepare [GlobLibrary] (s : Session) (req : RunRequest) : Except Fault Watcher × Session :=
  let config := s.app.settings.config
  let roots := orElseList req.paths config.inputs
  if roots.isEmpty then (.error (.new .validation "no inputs to watch"), s)
  else
    let roots := uniqueRoots s.machine.files roots
    let s := s.analyze []
    match (do (← Watcher.ofPatterns true config.exclude.files []).watch s.machine.files roots) with
    | .error e => (.error e, s)
    | .ok w => (.ok { w with batching := .limited config.watch.maxRate config.watch.burst }, s)

def quit (s : Session) : Session := { s with running := false }

def attach (s : Session) (token : Nat) (w : Watcher) : Session :=
  { s with watcher := some w, holder := some token, configWatcher := s.watchConfig, waiters := s.waiters ++ [token] }

def stop (s : Session) : Session := { s with watcher := none, holder := none, configWatcher := none, running := false }

def giveUp (s : Session) (token : Nat) : Session := { s with givenUp := token :: s.givenUp }

/-- A waiter whose token was given up stops whatever session runs. -/
def awake (s : Session) (token : Nat) : Session :=
  if s.waiters.contains token && s.givenUp.contains token then { s.stop with waiters := s.waiters.erase token } else s

def settle (s : Session) : Session := s.waiters.foldl awake s

/-- Analyzes and begins to watch. The analysis takes long enough for waiters to go off, when the session is already
taken. -/
def start [GlobLibrary] (s : Session) (token : Nat) (req : RunRequest) : Except Fault Unit × Session :=
  match s.claim token req with
  | .error e => (.error e, s)
  | .ok s =>
    match s.settle.prepare req with
    | (.error e, s) => (.error e, s.quit)
    | (.ok w, s) => (.ok (), s.attach token w)

def close (s : Session) : Session := { s.stop with app := s.app.close }

/-- Takes a new configuration over and analyzes again, unless it is refused. -/
def reload [GlobLibrary] (s : Session) (c : Config) : Session :=
  match s.app.takenOver s.machine.files c with
  | (.ok (), app) => { s with app }.analyze [app.configPath]
  | (.error _, app) => { s with app }

def deliver [GlobLibrary] (s : Session) : Session :=
  match s.watcher with
  | none => s
  | some w =>
    let (batches, batching) := w.batching.flush.drain
    batches.foldl analyze { s with watcher := some { w with batching } }

def change [GlobLibrary] (s : Session) (c : FileChange) : Session :=
  let f := s.machine.files
  let watcher := s.watcher.map fun w => w.observe f c
  let config := s.configWatcher.map fun w => w.observe f c
  let s := { s with watcher, configWatcher := config.map Prod.snd, machine := { s.machine with files := c.apply f } }
  let s := s.deliver
  match config with
  | some (true, w) =>
    match ConfigWatcher.reload s.machine w.path with
    | some c => s.reload c
    | none => s
  | _ => s

end Session

end JvmLint
