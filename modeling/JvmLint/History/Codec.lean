import JvmLint.History.Tables
import JvmLint.Text.Number

/-!
# Histories as text

A line for each row, its cells separated by tabs. Tabs, line feeds and backslashes in a cell are written
with a backslash in front.
-/

namespace JvmLint.Tables

def escape : List Char → List Char
  | [] => []
  | '\t' :: rest => '\\' :: 't' :: escape rest
  | '\n' :: rest => '\\' :: 'n' :: escape rest
  | '\\' :: rest => '\\' :: '\\' :: escape rest
  | c :: rest => c :: escape rest

def unescape : List Char → List Char
  | [] => []
  | '\\' :: 't' :: rest => '\t' :: unescape rest
  | '\\' :: 'n' :: rest => '\n' :: unescape rest
  | '\\' :: c :: rest => c :: unescape rest
  | c :: rest => c :: unescape rest

def encodeRow (cells : List String) : String :=
  "\t".intercalate (cells.map fun c => String.ofList (escape c.toList)) ++ "\n"

def decodeRow (line : String) : List String := (Text.splitOn line '\t').map fun c => String.ofList (unescape c.toList)

/-- The first line of every history. -/
def heading : String := "classlint history"

def runCells (r : RunRow) : List String :=
  let classes := match r.classes with
    | .number n => toString n
    | .text s => s
  ["run", r.id, r.project, r.timestamp, classes, toString r.findingCount, toString r.loadFailures, toString r.durationMillis, r.checks]

def findingCells (r : FindingRow) : List String :=
  ["finding", r.run, toString r.seq, r.finding.checkName, r.finding.category.name, r.finding.location, r.finding.message]

def encode (t : Tables) : String :=
  heading ++ "\n" ++ String.join (((t.runs.getD []).map runCells ++ (t.findings.getD []).map findingCells).map encodeRow)

/-- Adds the row of a line. A line that says nothing is passed over. -/
def addRow (t : Tables) (cells : List String) : Tables :=
  let number (s : String) : Int := (Text.int? s).getD 0
  match cells with
  | ["run", id, project, timestamp, classes, found, failed, millis, checks] =>
    let row : RunRow :=
      { id, project, timestamp, classes := ((Text.int? classes).map Count.number).getD (.text classes), findingCount := number found
        loadFailures := number failed, durationMillis := number millis, checks }
    { t with runs := t.runs.map (· ++ [row]) }
  | ["finding", run, seq, checkName, category, location, message] =>
    let row : FindingRow := { run, seq := (number seq).toNat, finding := { checkName, category := ⟨category⟩, location, message } }
    { t with findings := t.findings.map (· ++ [row]) }
  | _ => t

def decode? (s : String) : Option Tables :=
  match Text.splitOn s '\n' with
  | first :: rows => if first = heading then some ((rows.map decodeRow).foldl addRow {}) else none
  | [] => none

end JvmLint.Tables
