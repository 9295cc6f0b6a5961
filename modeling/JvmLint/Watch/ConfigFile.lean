import JvmLint.Config.Paths
import JvmLint.Machine
import JvmLint.Watch.Change

/-!
# Watching the configuration

Editors replace a file when they save it, so its directory is watched.
-/

namespace JvmLint

structure ConfigWatcher where
  path : String
  dirs : WatchedDirs := []
deriving DecidableEq, Repr, Inhabited

namespace ConfigWatcher

def start (f : Files) (path : String) : Except Fault ConfigWatcher :=
  let dir := Path.dir path
  match f.find true dir with
  | .ok (p, _) => .ok { path, dirs := [(p, dir)] }
  | .error e => .error (.plain e.text)

/-- The new configuration; none if the file cannot be used. -/
def reload [GlobLibrary] (m : Machine) (path : String) : Option Config := (Config.load m.files m.env path).toOption

def concerns (w : ConfigWatcher) (e : FileEvent) : Bool :=
  e.kind == .created && Path.clean e.path == Path.clean w.path

def observe (w : ConfigWatcher) (f : Files) (c : FileChange) : Bool × ConfigWatcher :=
  let (events, dirs) := c.tell f w.dirs
  (events.any w.concerns, { w with dirs })

end ConfigWatcher

end JvmLint
