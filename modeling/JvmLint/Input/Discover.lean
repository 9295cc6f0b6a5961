import JvmLint.Files.Basic
import JvmLint.Pattern
import JvmLint.Text.Letters

/-!
# Discovery

The class files and jars that roots stand for: the root itself, or what is found in a directory.
-/

namespace JvmLint

inductive InputKind where
  | classFile | jar
deriving DecidableEq, Repr, Inhabited

def InputKind.text : InputKind → String
  | classFile => "class"
  | jar => "jar"

structure Input where
  path : String
  kind : InputKind
deriving DecidableEq, Repr, Inhabited

def inputKind? (path : String) : Option InputKind :=
  let ending := Text.lower (Path.extension path)
  if ending = ".class" then some .classFile else if ending = ".jar" then some .jar else none

def isExcludedFile [GlobLibrary] (patterns : List Pattern) (path : String) : Bool :=
  Pattern.anyCovers patterns path || Pattern.anyCovers patterns (Path.base path)

namespace Files

def pathBelow (root : String) (way : Place) : String := Path.join root ("/".intercalate way)

/-- Whether a directory on the way is hidden. The last name counts only for directories. -/
def isHidden (way : Place) (n : FileNode) : Bool :=
  (if n = .dir then way else way.dropLast).any (Text.startsWith · ".")

/-- Why a directory cannot be read by a path, if it cannot. -/
def readFault? (path : String) : Option OsFault :=
  if pathLimit ≤ path.utf8ByteSize then some ⟨"open", path, .nameTooLong⟩ else none

/-- Whether the directories on a way can be read, each by the path that a walk has for it. -/
def isOpen (root : String) : Place → Bool
  | [] => true
  | [_] => true
  | name :: way => (readFault? (Path.join root name)).isNone && isOpen (Path.join root name) way

inductive Met where
  | file (path : String)
  /-- A directory that cannot be read. -/
  | refused (path : String) (e : OsFault)
deriving DecidableEq, Repr, Inhabited

/-- Everything below a root that is no directory, and the directories that cannot be read. Hidden directories are left
out. A link is not followed. -/
def walkBelow (f : Files) (root : String) : List Met :=
  match f.find false root with
  | .ok (p, .dir) => (f.below p).filterMap fun (way, n) =>
      if isHidden way n || !isOpen root way then none
      else if n = .dir then (readFault? (pathBelow root way)).map (.refused (pathBelow root way))
      else some (.file (pathBelow root way))
  | .ok _ => [.file root]
  | .error e => [.refused root ⟨"lstat", root, e⟩]

end Files

structure Discovered where
  inputs : List Input := []
  failures : List LoadFailure := []
deriving DecidableEq, Repr, Inhabited

namespace Discovered

/-- Adds a file, unless it is no input, excluded, or there already. -/
def add [GlobLibrary] (f : Files) (exclude : List Pattern) (d : Discovered) (path : String) : Discovered :=
  match inputKind? path with
  | none => d
  | some kind =>
    if isExcludedFile exclude path || d.inputs.any fun i => f.absolute i.path == f.absolute path then d
    else { d with inputs := d.inputs ++ [{ path, kind }] }

def fail (d : Discovered) (path error : String) : Discovered :=
  { d with failures := d.failures ++ [{ path, error }] }

def meet [GlobLibrary] (f : Files) (exclude : List Pattern) (d : Discovered) : Files.Met → Discovered
  | .file path => d.add f exclude path
  | .refused path e => d.fail path e.text

def addRoot [GlobLibrary] (f : Files) (exclude : List Pattern) (d : Discovered) (raw : String) : Discovered :=
  let root := Text.trim raw
  if root = "" then d
  else
    match f.stat root with
    | .error e => d.fail root e.text
    | .ok .dir => (f.walkBelow root).foldl (meet f exclude) d
    | .ok _ => if (inputKind? root).isNone then d.fail root "not a .class file or jar" else d.add f exclude root

end Discovered

/-- The inputs that roots stand for, each once, and the roots that stand for none, with the directories that could not be
read. -/
def discover [GlobLibrary] (f : Files) (roots : List String) (exclude : List Pattern) : Discovered :=
  roots.foldl (Discovered.addRoot f exclude) {}

end JvmLint
