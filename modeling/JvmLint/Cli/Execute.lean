import JvmLint.App.Past
import JvmLint.Cli.Complete
import JvmLint.Cli.Console
import JvmLint.Report.TrendText
import JvmLint.Text.Columns
import JvmLint.Watch.Session

/-!
# Running commands
-/

namespace JvmLint

open CommandM

namespace Command

def runRun [GlobLibrary] (a : Arguments) : CommandM Unit := do
  configureLogging a
  let app ← openApp a
  let (r, app, m) := app.run (← machine) false (runRequest a)
  setMachine m
  let r ← orFail r
  if !a.switch "ui" then
    if let some path ← report app a r then complain ("report written to " ++ path ++ "\n")
  let n := r.analysis.findings.length
  if a.switch "fail-on-findings" && 0 < n then throw (.code 3 (toString n ++ " findings"))

/-- Shows the updates that came since the last time. -/
def showUpdates (a : Arguments) (s : Session) : CommandM Session := do
  setMachine s.machine
  for u in s.updates do
    match u.result with
    | .error e => complain ("analysis failed: " ++ e.text ++ "\n")
    | .ok r =>
      let (now, m) := (← machine).clock
      setMachine m
      say ("--- " ++ now.clock ++ ": " ++ toString r.analysis.classes ++ " classes, " ++
        toString r.analysis.findings.length ++ " findings\n")
      -- A report that cannot be written is only logged.
      match s.app.writeReport m (reportRequest a) r with
      | .ok (.printed text, m) => do
        setMachine m
        say text
      | .ok (.stored _, m) => setMachine m
      | .error _ => pure ()
  return { s with updates := [], machine := ← machine }

def startWatch [GlobLibrary] (a : Arguments) : CommandM Session := do
  configureLogging a
  let s : Session := { app := ← openApp a, machine := ← machine }
  let (started, s) := s.start 0 (runRequest a)
  let s ← showUpdates a s
  orFail started
  return s

/-- Goes on watching after something happened to the files. -/
def continueWatch [GlobLibrary] (a : Arguments) (s : Session) (c : FileChange) : CommandM Session :=
  showUpdates a (s.change c)

def runWatch [GlobLibrary] (a : Arguments) (changes : List FileChange) : CommandM Unit := do
  let s ← startWatch a
  let s ← changes.foldlM (continueWatch a) s
  setMachine s.machine

def runChecks [GlobLibrary] (a : Arguments) : CommandM Unit := do
  configureLogging a
  let category := a.text "category" ""
  let wanted ← if category = "" then pure none else some <$> orFail (Category.parse category)
  let app ← openApp a
  let entries := app.settings.registry.entries.filter fun e => wanted.all (· == e.category)
  say (Columns.align (entries.map fun e =>
    [e.name, e.category.name] ++ if a.switch "long" then [e.description] else []))

def runRow (r : Run) : List String :=
  [r.id, r.timestamp.utc.dateTimeText, toString r.classes, toString r.findingCount, toString r.loadFailures,
    Duration.text (Duration.roundMillis r.duration)]

/-- Writes a text to a file; directories that are missing are made. -/
def store (what path text : String) : CommandM Unit := do
  let m ← machine
  let dir := Path.dir path
  let written : Except OsFault Files := do
    let f ← if dir = "." then pure m.files else m.files.mkdirAll dir
    f.write path (.bytes text.toUTF8.toList)
  let f ← orFail (written.mapError fun e => e.fault.label ("write trend " ++ what ++ " " ++ Text.quote path))
  setMachine { m with files := f }

def runHistory [GlobLibrary] (a : Arguments) : CommandM Unit := do
  configureLogging a
  let app ← openApp a
  let (past, app, m) := app.past (← machine) false (a.number "limit" 20) (a.text "run" "")
  setMachine m
  let past ← orFail past
  match past.runs with
  | [] => say ("No saved runs for " ++ app.settings.projectKey ++ ".\n")
  | newest :: _ =>
    say (Columns.align (["RUN", "TIMESTAMP", "CLASSES", "FINDINGS", "FAILURES", "DURATION"] :: past.runs.map runRow))
    if !past.counts.isEmpty then
      say ("\nFindings by check (run " ++ newest.id ++ "):\n")
      say (Columns.align (past.counts.map fun c => ["  " ++ c.name, c.category.name, toString c.count]))
    let tsv := a.text "tsv" ""
    let json := a.text "json" ""
    match past.trend with
    | none =>
      if tsv != "" || json != "" then throw (.fault (.plain "trend export is not available for a single run"))
    | some trend =>
      if tsv != "" then store "TSV" tsv trend.tsv
      if json != "" then store "JSON" json (← orFail (trend.json.mapError fun e => e.label "render trend JSON"))

def runComplete (args : List String) : CommandM Unit := do
  if args.isEmpty then throw (.fault (.plain "requires at least 1 arg(s), only received 0"))
  let ended (directive : String) : CommandM Unit := complain ("Completion ended with directive: " ++ directive ++ "\n")
  match completions args with
  | some choices => do
    say (String.join (choices.map (· ++ "\n")) ++ ":4\n")
    ended "ShellCompDirectiveNoFileComp"
  | none => do
    say ":0\n"
    ended "ShellCompDirectiveDefault"

def flagRow (f : Flag) : List String :=
  let letter := match f.short with
    | some c => "-" ++ String.ofList [c] ++ ", "
    | none => "    "
  let value := match f.kind with
    | .text => " string"
    | .switch => ""
    | .number => " int"
    | .list => " strings"
  ["  " ++ letter ++ "--" ++ f.name ++ value, f.usage]

def helpText (c : Command) : String :=
  let commands := if c = top then
      "\nAvailable Commands:\n" ++ Columns.align ((suggested ++ [help]).map fun c => ["  " ++ c.name, c.summary])
    else ""
  c.summary ++ "\n\nUsage:\n  " ++ c.path ++ (if c = top then " [command]" else " [flags]") ++ "\n" ++ commands ++
    "\nFlags:\n" ++ Columns.align ((c.flags ++ [c.helpFlag]).map flagRow)

/-- Runs a command. While it watches, some changes happen. -/
def run_ [GlobLibrary] (c : Command) (args : List String) (changes : List FileChange) : CommandM Unit := do
  if c = complete then runComplete args
  else
    let a ← orFail ((c.read args).mapError fun d => .plain d.message)
    if a.switch "help" || c = top || c = help || c = completion then say c.helpText
    else
      orFail ((c.check a).mapError fun d => .plain d.message)
      match c with
      | run => runRun a
      | watch => runWatch a changes
      | checks => runChecks a
      | history => runHistory a
      | _ => say (programName ++ " " ++ programVersion ++ "\n")

def ending : Except Exit Unit → Nat × String
  | .ok _ => (0, "")
  | .error (.fault e) => (1, "error: " ++ e.text ++ "\n")
  | .error (.code n message) => (n, if message = "" then "" else message ++ "\n")

def execute [GlobLibrary] (m : Machine) (args : List String) (changes : List FileChange) : Nat × Console :=
  let program : CommandM Unit := do
    let (c, args) ← orFail ((find args).mapError fun d => .plain d.message)
    c.run_ args changes
  let (result, console) := (program.run { machine := m })
  let (code, message) := ending result
  (code, { console with stderr := console.stderr ++ message })

end Command

end JvmLint
