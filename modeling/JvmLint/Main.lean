import JvmLint.Cli.Execute
import JvmLint.History.Codec
import JvmLint.Pattern.GlobTree
import Std.Time.DateTime.Timestamp

/-!
# The program

Takes note of the files that a command line can be about, runs the command on them, prints what it says
and stores what it changed.
-/

namespace JvmLint.Program

def variableNames : List String := ["XDG_STATE_HOME", "HOME"] ++ Config.variableNames

def readEnvironment : IO Environment :=
  variableNames.filterMapM fun name => do return (← IO.getEnv name).map fun value => (name, value)

def contentOf (bytes : ByteArray) : Content :=
  match (String.fromUTF8? bytes).bind Tables.decode? with
  | some t => .history t
  | none => .bytes bytes.toList

def bytesOf : Content → ByteArray
  | .bytes b => ⟨b.toArray⟩
  | .history t => t.encode.toUTF8

/-- Takes note of what is at a path and below it. Hidden directories are not entered. Only inputs and files
that are asked for are read. -/
partial def noteBelow (wanted : List String) (f : Files) (path : String) : IO Files := do
  try
    let p := (← IO.currentDir) / path
    let place := Files.namesOf path
    match (← p.symlinkMetadata).type with
    | .dir =>
      let f := f.put place .dir
      if Text.startsWith (Path.base path) "." && !wanted.contains path then return f
      (← p.readDir).foldlM (fun f e => noteBelow wanted f (Path.join path e.fileName)) f
    | .symlink =>
      let target := (← IO.FS.realPath p).toString
      let f := f.put place (.link target)
      if ← p.isDir then return f else noteBelow (target :: wanted) (f.addDir (Path.dir target)) target
    | _ =>
      let content ← if (inputKind? path).isSome || wanted.contains path then contentOf <$> IO.FS.readBinFile p else pure (.bytes [])
      return f.put place (.file content)
  catch _ => return f

def note (f : Files) (paths : List String) : IO Files :=
  paths.foldlM (fun f (path : String) => do
    if ← ((← IO.currentDir) / path).pathExists then noteBelow paths (f.addDir (Path.dir path)) path else return f) f

def noteMarkers (f : Files) (dir : String) : IO Files :=
  ((ancestors dir).flatMap fun d => projectMarkers.map (Path.join d)).foldlM (fun f (path : String) => do
    if ← ((← IO.currentDir) / path).pathExists then return f.put (Files.namesOf path) (.file (.bytes [])) else return f) f

def mentioned (args : List String) : List String :=
  args.flatMap fun a => (a :: Text.splitOn a '=' ++ Text.splitOn a ',').filter fun s => s != "" && !Text.startsWith s "-"

def configured (f : Files) (c : Config) : List String :=
  let resolved := match c.resolvePaths f f.workingDir with
    | .ok r => [r.db, r.output]
    | .error _ => []
  (c.inputs ++ c.classpath ++ resolved).filter (· != "")

def noteFiles (env : Environment) (args : List String) : IO Files := do
  let cwd := (← IO.currentDir).toString
  let empty : Files := { cwd := Files.namesOf cwd }
  let names := "classlint.toml" :: mentioned args
  let f ← noteMarkers (← note (empty.addDir cwd) (cwd :: names.map (Path.absolute cwd))) cwd
  let config := names.findSome? fun n => (Config.load f env n).toOption
  note f ((configured f (config.getD Config.builtIn)).map (Path.absolute cwd))

def readMachine (args : List String) : IO Machine := do
  let env ← readEnvironment
  let now ← Std.Time.Timestamp.now
  let seed := (← IO.getRandomBytes 15).toList.foldl (fun n b => n * 256 + b.toNat) 0
  return { files := ← noteFiles env args, env, now := { nanos := now.toNanosecondsSinceUnixEpoch.val }, seed }

def store (before after : Files) : IO Unit := do
  let cwd ← IO.currentDir
  let pathOf (p : Place) : String := "/" ++ "/".intercalate p
  for (p, n) in after.nodes do
    if before.node? p != some n then
      match n with
      | .dir => IO.FS.createDirAll (cwd / pathOf p)
      | .file c => IO.FS.writeBinFile (cwd / pathOf p) (bytesOf c)
      | .link _ => pure ()
  for (p, n) in before.nodes do
    if (after.node? p).isNone && n != .dir then IO.FS.removeFile (cwd / pathOf p)

def show_ (before : Files) (c : Console) : IO Unit := do
  let out ← IO.getStdout
  out.putStr c.stdout
  out.flush
  (← IO.getStderr).putStr c.stderr
  store before c.machine.files

def changesBetween (before after : Files) : List FileChange :=
  let pathOf (p : Place) : String := "/" ++ "/".intercalate p
  let gone := before.nodes.filterMap fun (p, n) =>
    if (after.node? p).isNone && n != .dir then some (FileChange.remove (pathOf p)) else none
  let new := after.nodes.filterMap fun (p, n) =>
    if before.node? p != some n then some (FileChange.put (pathOf p) n []) else none
  gone ++ new

partial def watchOn (args : List String) (a : Arguments) (s : Session) : IO Unit := do
  IO.sleep 500
  let m ← readMachine args
  let changes := changesBetween s.machine.files m.files
  let s := { s with machine := { s.machine with now := m.now } }
  let (r, console) := (changes.foldlM (Command.continueWatch a) s : CommandM Session).run { machine := s.machine }
  match r with
  | .ok s => do
    show_ m.files console
    watchOn args a s
  | .error _ => return

def watchArguments? (args : List String) : Option Arguments :=
  match Command.find args with
  | .ok (.watch, rest) =>
    match Command.watch.read rest with
    | .ok a => if a.switch "help" || (Command.watch.check a).toOption.isNone then none else some a
    | .error _ => none
  | _ => none

def run (args : List String) : IO UInt32 := do
  let m ← readMachine args
  match watchArguments? args with
  | some a =>
    let (r, console) := (Command.startWatch a : CommandM Session).run { machine := m }
    let (code, message) := Command.ending (r.map fun _ => ())
    show_ m.files { console with stderr := console.stderr ++ message }
    if let .ok s := r then watchOn args a s
    return UInt32.ofNat code
  | none =>
    let (code, console) := Command.execute m args []
    show_ m.files console
    return UInt32.ofNat code

end JvmLint.Program

def main (args : List String) : IO UInt32 := JvmLint.Program.run args
