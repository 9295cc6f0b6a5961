import JvmLint.Files.Basic

/-!
# History stores

A store is a file with the tables of a history. It is opened, used and closed; somebody else may hold
a lock on it.
-/

namespace JvmLint

/-- An open or closed store: its path as given, and where its file is. -/
structure Store where
  path : String
  place : Place
  closed : Bool := false
deriving DecidableEq, Repr, Inhabited

inductive StoreDefect where
  | query (op : String) (d : SqlDefect)
  /-- A row cannot be read, maybe while doing something. -/
  | row (op : Option String) (d : RowDefect)
  | runNotFound (id : String)
deriving DecidableEq, Repr, Inhabited

def StoreDefect.message : StoreDefect → String
  | query op d => op ++ ": " ++ d.message
  | row (some op) d => op ++ ": " ++ d.message
  | row none d => d.message
  | runNotFound id => "run not found: " ++ id

def StoreDefect.fault (d : StoreDefect) : Fault := .plain d.message

/-- Whether a message tells that a file is no history. -/
def isCorrupt (f : Fault) : Bool :=
  let text := Text.lower f.text
  Text.contains text "malformed" || Text.contains text "not a database"

namespace Store

/-- The tables of a file that is opened: an empty file is a new history. -/
def tablesOf? : FileNode → Option Tables
  | .file (.history t) => some t
  | .file (.bytes []) => some {}
  | _ => none

/-- Brings the schema up to date. Only a history that somebody tampered with is not. -/
def migrate (t : Tables) : Except Fault Tables :=
  if 2 < t.version then
    .error (.plain ("schema version " ++ toString t.version ++ " is newer than supported version 2"))
  else if t.version = 2 then .ok t
  else
    let what := if t.runs.isSome then "duplicate column name: duration_ms" else "no such table: runs"
    .error (.plain ("apply migration 2: SQL logic error: " ++ what ++ " (1)"))

/-- Opens the store in a file, which is made if it is missing. -/
def openFile (f : Files) (path : String) : Except Fault (Store × Files) :=
  let quoted := Text.quote path
  let ping (what : String) : Except Fault (Store × Files) :=
    .error (.plain ("ping sqlite history " ++ quoted ++ ": " ++ what))
  match f.locate true path with
  | .error _ => ping "unable to open database file: out of memory (14)"
  | .ok place =>
    match tablesOf? ((f.node? place).getD (.file (.bytes []))) with
    | none => ping "file is not a database (26)"
    | some t => do
      let t ← (migrate t).mapError fun e => e.label ("initialize sqlite schema " ++ quoted)
      return ({ path, place }, f.put place (.file (.history t)))

/-- Opens the store at a path; the directories above it are made if they are missing. -/
def open_ (f : Files) (raw : String) : Except Fault (Store × Files) := do
  let path := Text.trim raw
  if path = "" then .error (.plain "history path must not be empty")
  else if f.isDir path then .error (.plain ("history path " ++ Text.quote path ++ " is a directory, expected file"))
  else
    let dir := Path.dir path
    let f ← if dir = "." then pure f else
      (f.mkdirAll dir).mapError fun e => e.fault.label ("create history directory " ++ Text.quote dir)
    openFile f path

def tables (s : Store) (f : Files) : Except SqlDefect Tables :=
  if s.closed then .error .closed
  else
    match f.node? s.place with
    | some (.file (.history t)) => .ok t
    | _ => .ok {}

/-- A run as it is stored: with a project, an id and a time in UTC, and the number of its findings. -/
def complete (fresh : String) (now : Timestamp) (r : Run) : Run :=
  let project := Text.trim r.project
  { r with
    project := if project = "" then "default" else project
    id := if r.id = "" then fresh else r.id
    timestamp := (if r.timestamp.isZero then now else r.timestamp).utc
    findingCount := r.findings.length }

def save (s : Store) (f : Files) (locked : Bool) (fresh : String) (now : Timestamp) (r : Run) :
    Except StoreDefect (Run × Files) :=
  let r := complete fresh now r
  match (do (← s.tables f).insert locked r) with
  | .ok t => .ok (r, f.put s.place (.file (.history t)))
  | .error d => .error (.query "save run" d)

/-- The runs of a project, newest first; all of them unless the limit is positive. -/
def list (s : Store) (f : Files) (project : String) (limit : Int) : Except StoreDefect (List Run) :=
  match (do (← s.tables f).runsOf project) with
  | .error d => .error (.query "list runs" d)
  | .ok rows =>
    (Tables.limited (if 0 < limit then limit else -1) rows).mapM fun r => r.toRun.mapError (.row none)

def findings (s : Store) (f : Files) (id : String) : Except StoreDefect (List Finding) :=
  (do (← s.tables f).findingsOf id : Except SqlDefect _).mapError (.query "load findings")

def load (s : Store) (f : Files) (id : String) : Except StoreDefect Run := do
  match (do (← s.tables f).runTable : Except SqlDefect _) with
  | .error d => .error (.row (some "load run") (.query d))
  | .ok rows =>
    match rows.find? (·.id == id) with
    | none => .error (.runNotFound id)
    | some row =>
      let r ← row.toRun.mapError (.row (some "load run"))
      return { r with findings := ← s.findings f id }

def counts (s : Store) (f : Files) (id : String) : Except StoreDefect (List CheckCount) :=
  (do (← s.tables f).countsOf id : Except SqlDefect _).mapError (.query "count findings")

def prune (s : Store) (f : Files) (locked : Bool) (project : String) (keep : Int) : Except StoreDefect (Nat × Files) :=
  match (do (← s.tables f).prune locked project keep) with
  | .error d => .error (.query "prune runs" d)
  | .ok (n, t) => .ok (n, f.put s.place (.file (.history t)))

end Store

end JvmLint
