import JvmLint.History.Trend
import JvmLint.Report.Basic
import JvmLint.Time.Duration

/-!
# The tables of a history

Runs and their findings in two keyed tables. Timestamps are kept as texts of one width, so that
their order as texts is their order in time. Somebody else may have dropped a table or put other
things into it.
-/

namespace JvmLint

inductive Count where
  | number (n : Int)
  | text (s : String)
deriving DecidableEq, Repr, Inhabited

structure RunRow where
  id : String
  project : String
  timestamp : String
  classes : Count
  findingCount : Int
  loadFailures : Int
  durationMillis : Int
  checks : String
deriving DecidableEq, Repr, Inhabited

structure FindingRow where
  run : String
  seq : Nat
  finding : Finding
deriving DecidableEq, Repr, Inhabited

structure Tables where
  runs : Option (List RunRow) := some []
  findings : Option (List FindingRow) := some []
  /-- The versions of the schema that were applied. -/
  versions : List Int := [1, 2]
deriving DecidableEq, Repr, Inhabited

inductive SqlDefect where
  | closed
  | locked
  | noTable (name : String)
  | duplicateRun
deriving DecidableEq, Repr, Inhabited

def SqlDefect.message : SqlDefect → String
  | closed => "sql: database is closed"
  | locked => "database is locked (5) (SQLITE_BUSY)"
  | noTable name => "SQL logic error: no such table: " ++ name ++ " (1)"
  | duplicateRun => "constraint failed: UNIQUE constraint failed: runs.run_id (1555)"

inductive RowDefect where
  | query (d : SqlDefect)
  | badCount (text : String)
  | badTime (text : String)
deriving DecidableEq, Repr, Inhabited

def timeLayout : String := "2006-01-02T15:04:05.999999999Z07:00"

/-- Where a text stops being a timestamp: what is left and what was expected there. -/
def timeMismatch (s : String) : String × String :=
  let year := s.toList.take 4
  if year.length = 4 && year.all Char.isDigit then (String.ofList (s.toList.drop 4), "-") else (s, "2006")

def RowDefect.message : RowDefect → String
  | query d => "scan run row: " ++ d.message
  | badCount text =>
    "scan run row: sql: Scan error on column index 3, name \"class_count\": converting driver.Value type string (" ++
      Text.quote text ++ ") to a int: invalid syntax"
  | badTime text =>
    let (rest, expected) := timeMismatch text
    "parse run timestamp " ++ Text.quote text ++ ": parsing time " ++ Text.quote text ++ " as " ++ Text.quote timeLayout ++
      ": cannot parse " ++ Text.quote rest ++ " as " ++ Text.quote expected

/-- A timestamp as it is stored: in UTC, with nine places. -/
def Timestamp.stored (t : Timestamp) : String :=
  let f := t.utc.fields
  dateText f ++ "T" ++ clockText f ++ "." ++ padded 9 f.nanosecond ++ "Z"

def RunRow.ofRun (r : Run) : RunRow :=
  { id := r.id, project := r.project, timestamp := r.timestamp.stored, classes := .number r.classes
    findingCount := r.findingCount, loadFailures := r.loadFailures, durationMillis := Duration.toMillis r.duration
    checks := r.checks }

def RunRow.toRun (r : RunRow) : Except RowDefect Run :=
  match r.classes with
  | .text s => .error (.badCount s)
  | .number n =>
    match Timestamp.parse? r.timestamp with
    | none => .error (.badTime r.timestamp)
    | some t => .ok {
        id := r.id, project := r.project, timestamp := t.utc, classes := n, findingCount := r.findingCount
        loadFailures := r.loadFailures, duration := r.durationMillis * Duration.millisecond, checks := r.checks }

/-- Newer runs come first, then smaller ids. -/
def RunRow.before (a b : RunRow) : Bool :=
  if a.timestamp = b.timestamp then a.id ≤ b.id else b.timestamp < a.timestamp

namespace Tables

def runTable (t : Tables) : Except SqlDefect (List RunRow) :=
  match t.runs with
  | some rows => .ok rows
  | none => .error (.noTable "runs")

def findingTable (t : Tables) : Except SqlDefect (List FindingRow) :=
  match t.findings with
  | some rows => .ok rows
  | none => .error (.noTable "findings")

def findingRows (r : Run) : List FindingRow := r.findings.zipIdx.map fun (f, i) => { run := r.id, seq := i, finding := f }

/-- Adds a run with its findings. Without findings their table is not touched. -/
def insert (t : Tables) (locked : Bool) (r : Run) : Except SqlDefect Tables := do
  let runs ← t.runTable
  if locked then .error .locked
  else if runs.any (·.id == r.id) then .error .duplicateRun
  else
    let t := { t with runs := some (runs ++ [.ofRun r]) }
    if r.findings.isEmpty then return t
    else return { t with findings := some ((← t.findingTable) ++ findingRows r) }

def runsOf (t : Tables) (project : String) : Except SqlDefect (List RunRow) := do
  return ((← t.runTable).filter (·.project == project)).mergeSort RunRow.before

/-- As many of a list as a limit says; a negative limit takes all. -/
def limited {α : Type} (limit : Int) (l : List α) : List α := if limit < 0 then l else l.take limit.toNat

def findingsOf (t : Tables) (run : String) : Except SqlDefect (List Finding) := do
  let rows := ((← t.findingTable).filter (·.run == run)).mergeSort fun a b => a.seq ≤ b.seq
  return rows.map (·.finding)

/-- The order of totals: more come first, then smaller names. -/
def countBefore (a b : CheckCount) : Bool :=
  if a.count = b.count then
    if a.name = b.name then a.category.name ≤ b.category.name else a.name < b.name
  else b.count < a.count

def countsOf (t : Tables) (run : String) : Except SqlDefect (List CheckCount) := do
  let keys := (← t.findingsOf run).map fun f => (f.checkName, f.category)
  return ((dedup keys).map fun k =>
    ({ name := k.1, category := k.2, count := keys.count k } : CheckCount)).mergeSort countBefore

/-- Deletes all but the newest runs of a project, and the findings that belong to them. -/
def prune (t : Tables) (locked : Bool) (project : String) (keep : Int) : Except SqlDefect (Nat × Tables) := do
  let rows ← t.runTable
  if locked then .error .locked
  else
    let kept := (limited keep (← t.runsOf project)).map (·.id)
    let isGone (r : RunRow) : Bool := r.project == project && !kept.contains r.id
    let gone := (rows.filter isGone).map (·.id)
    return (gone.length, { t with
      runs := some (rows.filter (!isGone ·))
      findings := t.findings.map fun fs => fs.filter fun f => !gone.contains f.run })

def version (t : Tables) : Int := t.versions.foldl max 0

end Tables

end JvmLint
