import JvmLint.Config.Load
import JvmLint.Files.Basic

/-!
# Where things are

The project root, the state directory and the files in it, from a configuration and a working
directory.
-/

namespace JvmLint

/-- A path as seen from a base directory; a blank one is the base. -/
def resolveRelative (base value : String) : String :=
  let raw := Text.trim value
  if raw = "" then Path.clean base
  else if Path.isAbsolute raw then Path.clean raw
  else Path.clean (Path.join base raw)

/-- A report path as seen from a directory; an empty one stays empty. -/
def resolveOutput (path root : String) : String :=
  if path = "" then "" else if Path.isAbsolute path then Path.clean path else Path.join root path

def uniqueRoots (f : Files) (paths : List String) : List String :=
  (dedup (paths.map fun p => f.absolute (Path.clean p))).mergeSort fun a b => a ≤ b

def projectMarkers : List String := ["classlint.toml", "pom.xml", "build.gradle", "build.gradle.kts", ".git"]

def ancestors (path : String) : List String :=
  let c := Path.Clean.of path
  (List.range (c.segments.length + 1)).map fun n =>
    ({ c with segments := c.segments.take (c.segments.length - n) } : Path.Clean).text

/-- The nearest marked directory from one of the candidates up, or the working directory. -/
def detectRoot (f : Files) (candidates : List String) : String :=
  let starts := (candidates.filter fun c => Text.trim c != "").map fun c =>
    let path := f.absolute c
    if f.exists_ path && !f.isDir path then Path.dir path else path
  let isMarked (dir : String) : Bool := projectMarkers.any fun m => f.exists_ (Path.join dir m)
  match starts.findSome? fun s => (ancestors s).find? isMarked with
  | some dir => Path.clean dir
  | none => f.workingDir

structure ResolvedPaths where
  projectRoot : String
  stateDir : String
  db : String
  log : String
  /-- Empty when the report goes to standard output. -/
  output : String
deriving DecidableEq, Repr, Inhabited

namespace Config

def resolvePaths (c : Config) (f : Files) (cwd : String) : Except Fault ResolvedPaths :=
  if Text.trim cwd = "" then .error (.plain "cwd must not be empty")
  else
    let given := Text.trim c.paths.projectRoot
    let root := if given = "" then detectRoot f (c.inputs ++ [cwd]) else resolveRelative cwd given
    let stateDir := resolveRelative root c.paths.stateDir
    let output := Text.trim c.output.path
    .ok {
      projectRoot := Path.clean root
      stateDir := Path.clean stateDir
      db := resolveRelative stateDir c.db.path
      log := Path.join stateDir "classlint.log"
      output := if output = "" then "" else resolveRelative root output }

def projectKey (c : Config) (p : ResolvedPaths) : String :=
  if c.project = "" then Path.base p.projectRoot else c.project

def load [GlobLibrary] (f : Files) (env : Environment) (path : String) : Except ConfigFault Config :=
  match f.read path with
  | .error e => .error (.file e.fault)
  | .ok bytes =>
    match String.fromUTF8? (ByteArray.mk bytes.toArray) with
    | some text => ofText env text
    | none => .error .unreadable

/-- Loads a configuration file; one that is missing and was not asked for counts as empty. -/
def loadOrDefault [GlobLibrary] (f : Files) (env : Environment) (path : String) (explicit : Bool) :
    Except ConfigFault Config :=
  match f.stat path with
  | .ok _ => load f env path
  | .error e => if explicit || e.errno != .noEntry then .error (.file e.fault) else prepare env {}

end Config

end JvmLint
