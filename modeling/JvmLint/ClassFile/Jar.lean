import JvmLint.Archive.Format
import JvmLint.Archive.Inflate
import JvmLint.ClassFile.Parse
import JvmLint.Files.Basic

/-!
# Classes in files and jars
-/

namespace JvmLint

def Files.parseClass (f : Files) (path : String) : Except Fault Class :=
  match f.read path with
  | .error e => .error ((e.fault.wrap .notFound "read class file").addDetail "path" path)
  | .ok data =>
    match ClassFile.parse data with
    | .error e => .error (e.fault.addDetail "path" path)
    | .ok c => .ok { c with origin := path }

namespace ArchiveEntry

/-- What is wrong with the bytes that came out of an entry, and with what stopped them, if anything is. -/
def mismatch? (e : ArchiveEntry) (data : List UInt8) (stopped : Option ArchiveDefect) : Option ArchiveDefect :=
  if e.size < data.length then some .notArchive
  else if stopped.isSome then stopped
  else if data.length < e.size then some .cutOff
  else
    let sound := Crc32.sum data == e.crc
    match e.trailer with
    | none => if e.crc != 0 && !sound then some .badSum else none
    | some bytes =>
      let own := if Archive.trailerMark.isPrefixOf bytes then bytes.drop 4 else bytes
      if own.length < 12 then some .cutOff
      else if Archive.field 0 4 own != e.crc.toNat || !sound then some .badSum else none

def unpack (e : ArchiveEntry) : Except Fault (List UInt8) :=
  let refuse (what : String) (d : ArchiveDefect) : Except Fault (List UInt8) :=
    .error ((Fault.plain d.message).wrap .malformedClass what)
  let finish (data : List UInt8) (stopped : Option ArchiveDefect) : Except Fault (List UInt8) :=
    match e.mismatch? data stopped with
    | some d => refuse "read jar entry" d
    | none => .ok data
  match e.lost with
  | some d => refuse "open jar entry" d
  | none =>
    if e.method = 0 then finish e.packed none
    else if e.method = 8 then
      let (data, stopped) := Inflate.inflate e.packed
      finish data stopped
    else refuse "open jar entry" .unknownMethod

end ArchiveEntry

/-- A jar: its classes by internal name, sorted. The names stay known after it is closed. -/
structure Jar where
  path : String
  classes : List (String × ArchiveEntry)
  closed : Bool := false
deriving DecidableEq, Repr, Inhabited

namespace Jar

/-- The internal name of the class that an entry holds, if it counts. -/
def className? (e : ArchiveEntry) : Option String :=
  if e.isDirectory then none
  else
    match Text.dropEnd? e.name ".class" with
    | some name => if name = "module-info" || Text.startsWith name "META-INF/" then none else some name
    | none => none

/-- The classes among entries. Of entries of the same name the last counts. -/
def classesOf (entries : List ArchiveEntry) : List (String × ArchiveEntry) :=
  let named := entries.filterMap fun e => (className? e).map fun name => (name, e)
  let last := named.foldl (fun (out : List (String × ArchiveEntry)) (name, e) => out.filter (·.1 != name) ++ [(name, e)]) []
  last.mergeSort fun a b => a.1 ≤ b.1

def open_ (f : Files) (path : String) : Except Fault Jar :=
  let refuse (cause : Fault) : Except Fault Jar := .error ((cause.wrap .malformedClass "open jar").addDetail "path" path)
  match f.read path with
  | .error e => refuse e.fault
  | .ok bytes =>
    match Archive.decode path bytes with
    | .error d => refuse (.plain d.message)
    | .ok entries => .ok { path, classes := classesOf entries }

def names (j : Jar) : List String := j.classes.map (·.1)

def has (j : Jar) (name : String) : Bool := j.classes.any (·.1 == name)

def close (j : Jar) : Jar := { j with closed := true }

def unpack (j : Jar) (e : ArchiveEntry) : Except Fault (List UInt8) :=
  if j.closed then .error ((Fault.plain ("read " ++ j.path ++ ": file already closed")).wrap .malformedClass "open jar entry")
  else e.unpack

def load (j : Jar) (name : String) : Except Fault Class :=
  match j.classes.lookup name with
  | none => .error ((Fault.new .notFound "class not in jar").addDetail "class" name)
  | some e =>
    match j.unpack e with
    | .error f => .error (f.addDetail "path" j.path)
    | .ok data =>
      let place := j.path ++ "!" ++ e.name
      match ClassFile.parse data with
      | .error d => .error (d.fault.addDetail "path" place)
      | .ok c => .ok { c with origin := place }

end Jar

end JvmLint
