import JvmLint.Fault
import JvmLint.History.Tables
import JvmLint.Path
import JvmLint.Total

/-!
# Files

A tree of directories, files and symbolic links, as a list of places. Paths are followed through
links as the operating system does it; a walk through a directory does not follow links.
-/

namespace JvmLint

inductive Errno where
  | noEntry | notDirectory | isDirectory | fileExists | linkLoop | nameTooLong | notEmpty
deriving DecidableEq, Repr, Inhabited

def Errno.text : Errno → String
  | noEntry => "no such file or directory"
  | notDirectory => "not a directory"
  | isDirectory => "is a directory"
  | fileExists => "file exists"
  | linkLoop => "too many levels of symbolic links"
  | nameTooLong => "file name too long"
  | notEmpty => "directory not empty"

structure OsFault where
  op : String
  /-- The path, or two of them. -/
  path : String
  errno : Errno
deriving DecidableEq, Repr, Inhabited

def OsFault.text (f : OsFault) : String := f.op ++ " " ++ f.path ++ ": " ++ f.errno.text

def OsFault.fault (f : OsFault) : Fault := .plain f.text

inductive Content where
  | bytes (b : List UInt8)
  | history (t : Tables)
deriving DecidableEq, Repr, Inhabited

/-- The bytes that a history shows to those who read it as a file. -/
def historyMagic : List UInt8 := "SQLite format 3\x00".toUTF8.toList

def Content.toBytes : Content → List UInt8
  | bytes b => b
  | history _ => historyMagic

inductive FileNode where
  | dir
  | file (c : Content)
  | link (target : String)
deriving DecidableEq, Repr, Inhabited

abbrev Place := List String

structure Files where
  nodes : List (Place × FileNode) := []
  cwd : Place := []
deriving DecidableEq, Repr, Inhabited

namespace Files

def node? (f : Files) (p : Place) : Option FileNode := if p.isEmpty then some .dir else f.nodes.lookup p

def put (f : Files) (p : Place) (n : FileNode) : Files :=
  if f.nodes.any (·.1 == p) then { f with nodes := f.nodes.map fun (q, m) => if q = p then (q, n) else (q, m) }
  else { f with nodes := f.nodes ++ [(p, n)] }

def drop (f : Files) (p : Place) : Files := { f with nodes := f.nodes.filter fun (q, _) => !p.isPrefixOf q }

/-- The names in a path. A slash at its end asks for a directory, as a dot does. -/
def namesOf (s : String) : List String :=
  let names := (Text.splitOn s '/').filter (· != "")
  if Text.endsWith s "/" then names ++ ["."] else names

/-- Follows names from a place, through at most so many links. The last name may be missing. -/
def follow (f : Files) (last : Bool) (links : Nat) (at_ : Place) (names : List String) : Except Errno Place :=
  match names with
  | [] => .ok at_
  | name :: rest =>
    if name = "." then follow f last links at_ rest
    else if name = ".." then follow f last links at_.dropLast rest
    else if 255 < name.utf8ByteSize then .error .nameTooLong
    else
      let here := at_ ++ [name]
      match f.node? here with
      | none => if rest.isEmpty then .ok here else .error .noEntry
      | some .dir => follow f last links here rest
      | some (.file _) => if rest.isEmpty then .ok here else .error .notDirectory
      | some (.link target) =>
        if rest.isEmpty && !last then .ok here
        else
          match links with
          | 0 => .error .linkLoop
          | links + 1 => follow f last links (if Path.isAbsolute target then [] else at_) (namesOf target ++ rest)
termination_by (links, names.length)

def pathLimit : Nat := 4096

/-- The place that a path leads to, also when nothing is there. `last` says whether a link at its end
is followed. -/
def locate (f : Files) (last : Bool) (path : String) : Except Errno Place :=
  if path = "" then .error .noEntry
  else if pathLimit ≤ path.utf8ByteSize then .error .nameTooLong
  else f.follow last 40 (if Path.isAbsolute path then [] else f.cwd) (namesOf path)

def find (f : Files) (last : Bool) (path : String) : Except Errno (Place × FileNode) := do
  let p ← f.locate last path
  match f.node? p with
  | some n => return (p, n)
  | none => .error .noEntry

def stat (f : Files) (path : String) : Except OsFault FileNode :=
  match f.find true path with
  | .ok (_, n) => .ok n
  | .error e => .error ⟨"stat", path, e⟩

def lstat (f : Files) (path : String) : Except OsFault (Place × FileNode) :=
  (f.find false path).mapError fun e => ⟨"lstat", path, e⟩

def exists_ (f : Files) (path : String) : Bool := (f.stat path).toOption.isSome

def isDir (f : Files) (path : String) : Bool := (f.stat path).toOption == some .dir

def content (f : Files) (path : String) : Except OsFault Content :=
  match f.find true path with
  | .ok (_, .file c) => .ok c
  | .ok _ => .error ⟨"read", path, .isDirectory⟩
  | .error e => .error ⟨"open", path, e⟩

def read (f : Files) (path : String) : Except OsFault (List UInt8) := (f.content path).map Content.toBytes

/-- The content of a file as text. Bytes that are no text count as none. -/
def readText (f : Files) (path : String) : Except OsFault String :=
  (f.read path).map fun b => (String.fromUTF8? (ByteArray.mk b.toArray)).getD ""

def workingDir (f : Files) : String := "/" ++ "/".intercalate f.cwd

def absolute (f : Files) (path : String) : String := Path.absolute f.workingDir path

def write (f : Files) (path : String) (c : Content) : Except OsFault Files :=
  let refuse (e : Errno) : Except OsFault Files := .error ⟨"open", path, e⟩
  match f.locate true path with
  | .error e => refuse e
  | .ok p =>
    match f.node? p with
    | some .dir => refuse .isDirectory
    | _ => if Text.endsWith path "/" then refuse .isDirectory else .ok (f.put p (.file c))

def mkdir (f : Files) (path : String) : Except OsFault Files :=
  let refuse (e : Errno) : Except OsFault Files := .error ⟨"mkdir", path, e⟩
  match f.locate false (Text.trimEnd path (· == '/')) with
  | .error e => refuse e
  | .ok p =>
    match f.node? p with
    | some _ => refuse .fileExists
    | none => .ok (f.put p .dir)

def parentPaths (path : String) : List String :=
  let cs := (path.toList.reverse.dropWhile (· == '/')).reverse
  (List.range (cs.length + 1)).filterMap fun n =>
    let front := cs.take n
    if n = cs.length then some path
    else if n ≠ 0 && (cs.drop n).head? == some '/' then some (String.ofList front) else none

/-- Makes a directory and those above it that are missing. What is in the way is named. -/
def mkdirAll (f : Files) (path : String) : Except OsFault Files :=
  (parentPaths path).foldlM (fun f p =>
    match f.stat p with
    | .ok .dir => .ok f
    | .ok _ => .error ⟨"mkdir", p, .notDirectory⟩
    | .error _ => f.mkdir p) f

/-- The order of a walk: by name in each directory, a directory before what is in it. -/
def placeBefore : Place → Place → Bool
  | [], _ => true
  | _ :: _, [] => false
  | a :: as, b :: bs => if a = b then placeBefore as bs else a < b

/-- Everything below a place, by the way from there, in the order of a walk. -/
def below (f : Files) (p : Place) : List (Place × FileNode) :=
  let inside := f.nodes.filterMap fun (q, n) => if p.isPrefixOf q && p != q then some (q.drop p.length, n) else none
  inside.mergeSort fun a b => placeBefore a.1 b.1

def list (f : Files) (p : Place) : List String :=
  ((f.below p).filter (·.1.length == 1)).filterMap (·.1.head?)

def listDir (f : Files) (path : String) : List String :=
  match f.find true path with
  | .ok (p, .dir) => f.list p
  | _ => []

/-- Removes what a path leads to, links not followed. -/
def remove (f : Files) (path : String) : Files :=
  match f.find false path with
  | .ok (p, _) => f.drop p
  | .error _ => f

/-- Makes a link; what is missing above it is made too. -/
def addLink (f : Files) (path target : String) : Files :=
  let f := ((f.mkdirAll (Path.dir path)).toOption).getD f
  match f.locate false path with
  | .ok p => f.put p (.link target)
  | .error _ => f

/-- Makes a file; what is missing above it is made too. -/
def addFile (f : Files) (path : String) (c : Content) : Files :=
  let f := ((f.mkdirAll (Path.dir path)).toOption).getD f
  ((f.write path c).toOption).getD f

/-- Makes a directory; what is missing above it is made too. -/
def addDir (f : Files) (path : String) : Files := ((f.mkdirAll path).toOption).getD f

def size (f : Files) : Nat :=
  total (f.nodes.map fun (_, n) => match n with
    | .file (.bytes b) => b.length + 1
    | _ => 1)

end Files

end JvmLint
