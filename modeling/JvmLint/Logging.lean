import JvmLint.Machine
import JvmLint.Text.Blank

/-!
# Logging

Log lines go to standard error, or to a file when the terminal is taken.
-/

namespace JvmLint

inductive LogLevel where
  | debug | info | warning
deriving DecidableEq, Repr, Inhabited

def LogLevel.text : LogLevel → String
  | debug => "DEBUG"
  | info => "INFO"
  | warning => "WARN"

structure LogEntry where
  level : LogLevel
  message : String
  details : List (String × String) := []
deriving DecidableEq, Repr, Inhabited

namespace LogEntry

def needsQuotes (s : String) : Bool :=
  s = "" || s.toList.any fun c =>
    if c.toNat < 0x80 then c = ' ' || c = '=' || c = '"' || c.toNat < 0x20
    else c.toNat == 0xfffd || Text.isBlank c || !Text.isPrintable c

def value (s : String) : String := if needsQuotes s then Text.quote s else s

def timeText (t : Timestamp) : String :=
  let f := t.fields
  Timestamp.dateText f ++ "T" ++ Timestamp.clockText f ++ "." ++ Timestamp.padded 3 (f.nanosecond / 1000000) ++
    Timestamp.offsetText t.offset

def line (e : LogEntry) (t : Timestamp) : String :=
  let parts := [("time", timeText t), ("level", e.level.text), ("msg", e.message)] ++ e.details
  " ".intercalate (parts.map fun (k, v) => k ++ "=" ++ value v) ++ "\n"

end LogEntry

/-- Where log lines go: to a file, or to standard error. -/
structure Logging where
  file : Option String := none
  verbose : Bool := false
deriving DecidableEq, Repr, Inhabited

namespace Logging

def path (env : Environment) : String :=
  let below (dir way : String) : String := Path.join dir (way ++ "classlint/classlint.log")
  match env.lookup "XDG_STATE_HOME", env.lookup "HOME" with
  | some state, home => if state = "" then atHome home below else below state ""
  | none, home => atHome home below
where
  atHome (home : Option String) (below : String → String → String) : String :=
    match home with
    | some home => if home = "" then "classlint.log" else below home ".local/state/"
    | none => "classlint.log"

def openFile (f : Files) (path : String) : Except String Files := do
  let f ← (f.mkdirAll (Path.dir path)).mapError fun e => "failed to create log dir for " ++ path ++ ": " ++ e.text
  match f.lstat path with
  | .ok (_, .link _) => .error ("refusing to write logs to symlink path " ++ path)
  | _ =>
    let old := ((f.content path).toOption).getD (.bytes [])
    (f.write path old).mapError fun e => "failed to open log file " ++ path ++ ": " ++ e.text

/-- Sets logging up. What goes wrong is a warning on standard error. -/
def configure (m : Machine) (ui verbose : Bool) : Logging × String × Machine :=
  if !ui then ({ verbose }, "", m)
  else
    let path := path m.env
    match openFile m.files path with
    | .ok f => ({ file := some path, verbose }, "", { m with files := f })
    | .error e => ({ verbose }, "warning: " ++ e ++ "\n", m)

/-- Logs an entry. What goes to standard error is returned. -/
def log (l : Logging) (m : Machine) (e : LogEntry) : String × Machine :=
  if e.level = .debug && !l.verbose then ("", m)
  else
    let (now, m) := m.clock
    match l.file with
    | none => (e.line now, m)
    | some path =>
      let old := ((m.files.read path).toOption).getD []
      match m.files.write path (.bytes (old ++ (e.line now).toUTF8.toList)) with
      | .ok f => ("", { m with files := f })
      | .error _ => ("", m)

end Logging

end JvmLint
