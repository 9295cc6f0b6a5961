import JvmLint.App.Report
import JvmLint.Cli.Command
import JvmLint.Logging

/-!
# The console

What a command works on: the machine, and two streams of text.
-/

namespace JvmLint

structure Console where
  machine : Machine := {}
  stdout : String := ""
  stderr : String := ""
deriving Repr, Inhabited

inductive Exit where
  | fault (f : Fault)
  /-- With an exit code of its own. -/
  | code (n : Nat) (message : String)
deriving DecidableEq, Repr, Inhabited

abbrev CommandM := ExceptT Exit (StateM Console)

namespace CommandM

def say (s : String) : CommandM Unit := modify fun c => { c with stdout := c.stdout ++ s }

def complain (s : String) : CommandM Unit := modify fun c => { c with stderr := c.stderr ++ s }

def machine : CommandM Machine := return (← get).machine

def setMachine (m : Machine) : CommandM Unit := modify fun c => { c with machine := m }

def orFail {α : Type} : Except Fault α → CommandM α
  | .ok a => pure a
  | .error e => throw (.fault e)

def configureLogging (a : Arguments) : CommandM Unit := do
  let (_, warning, m) := Logging.configure (← machine) (a.switch "ui") (a.switch "verbose")
  setMachine m
  complain warning

/-- The application for the configuration that the flags name. The usual file may be missing. -/
def openApp [GlobLibrary] (a : Arguments) : CommandM App := do
  let m ← machine
  let path := a.text "config" "classlint.toml"
  let config ← orFail ((Config.loadOrDefault m.files m.env path (a.isSet "config")).mapError fun e =>
    e.fault.label ("load config " ++ Text.quote path))
  let app ← orFail (App.new none none m.files (some config))
  return { app with configPath := if m.files.exists_ path then path else "" }

def runRequest (a : Arguments) : RunRequest :=
  { paths := a.rest, classpath := a.list "classpath", includes := a.list "checks", excludes := a.list "exclude-checks"
    save := a.switch "save" }

/-- Standard output is no terminal, so nothing is coloured. -/
def reportRequest (a : Arguments) : ReportRequest := { format := a.text "format" "", output := a.text "output" "" }

def report (app : App) (a : Arguments) (r : RunResult) : CommandM (Option String) := do
  let (delivery, m) ← orFail (app.writeReport (← machine) (reportRequest a) r)
  setMachine m
  match delivery with
  | .printed text => do
    say text
    return none
  | .stored path => return some path

end CommandM

end JvmLint
