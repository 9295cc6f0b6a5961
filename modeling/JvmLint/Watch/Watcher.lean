import JvmLint.Watch.Batching
import JvmLint.Watch.Change
import JvmLint.Watch.Contents
import JvmLint.Watch.Filter

/-!
# Watchers

A watcher follows directories and gathers what changed in them.
-/

namespace JvmLint

namespace Files

/-- A root and everything below it in the order of a walk, with paths. Directories below the root may be
left out, with all that is in them. -/
def walk (f : Files) (leaveOut : String → Bool) (root : String) : Except OsFault (List (String × Place × FileNode)) := do
  let (p, n) ← f.lstat root
  let inside := if n = .dir then f.below p else []
  let kept := inside.filter fun (way, n) => !(if n = .dir then way else way.dropLast).any leaveOut
  return (root, p, n) :: kept.map fun (way, n) => (pathBelow root way, p ++ way, n)

end Files

structure Watcher where
  filter : WatchFilter := {}
  contents : Contents := {}
  batching : Batching TokenBucket := {}
  dirs : WatchedDirs := []
deriving DecidableEq, Repr, Inhabited

namespace Watcher

/-- A watcher for patterns to exclude. There has to be somebody to tell. -/
def ofPatterns [GlobLibrary] (isHeard : Bool) (excludeFiles excludeDirs : List String) : Except Fault Watcher := do
  if !isHeard then .error (.plain "invalid argument")
  let excludeDirs ← (Pattern.compileAll excludeDirs).mapError (·.fault)
  let excludeFiles ← (Pattern.compileAll excludeFiles).mapError (·.fault)
  return { filter := { excludeFiles, excludeDirs } }

def remember (w : Watcher) (f : Files) (path : String) : Watcher := { w with contents := w.contents.remember f path }

def forget (w : Watcher) (path : String) : Watcher := { w with contents := w.contents.forget path }

def schedule (w : Watcher) (path : String) : Watcher := { w with batching := w.batching.schedule path }

def changed (w : Watcher) (f : Files) (path : String) : Bool × Watcher :=
  let (changed, contents) := w.contents.changed f path
  (changed, { w with contents })

/-- Schedules a file if it changed. -/
def check (w : Watcher) (f : Files) (path : String) : Watcher :=
  let (changed, w) := w.changed f path
  if changed then w.schedule path else w

/-- Watches the directories of a tree that are not excluded. With `seed`, its files count as seen. -/
def watchTree [GlobLibrary] (w : Watcher) (f : Files) (seed : Bool) (root : String) : Except OsFault Watcher := do
  let found ← f.walk w.filter.excludesDir root
  return found.foldl (fun w (path, p, n) =>
    if n = .dir then { w with dirs := w.dirs.add p (Path.clean path) }
    else if seed && !w.filter.excludesFile path then w.remember f path else w) w

/-- Schedules the files of a tree that changed, in whatever directory of it they are. -/
def enqueueTree [GlobLibrary] (w : Watcher) (f : Files) (root : String) : Watcher :=
  match f.walk (fun _ => false) root with
  | .error _ => w
  | .ok found => found.foldl (fun w (path, _, n) => if n = .dir || w.filter.excludesFile path then w else w.check f path) w

/-- Watches a root. One that is a file is watched through its directory. -/
def watchRoot [GlobLibrary] (w : Watcher) (f : Files) (path : String) : Except Fault Watcher :=
  match f.stat path with
  | .error e => .error e.fault
  | .ok .dir => (w.watchTree f true path).mapError (·.fault)
  | .ok _ =>
    let w := w.remember f path
    let dir := Path.dir path
    match f.locate true dir with
    | .ok p => .ok { w with dirs := w.dirs.add p dir }
    | .error e => .error (.plain e.text)

def watch [GlobLibrary] (w : Watcher) (f : Files) (roots : List String) : Except Fault Watcher :=
  roots.foldlM (fun w r => w.watchRoot f r) w

/-- Takes up an event. A new directory is watched and its files are scheduled. -/
def handle [GlobLibrary] (f : Files) (w : Watcher) (e : FileEvent) : Watcher :=
  if e.kind = .created && f.isDir e.path then
    if w.filter.excludesDir e.path then w
    else
      match w.watchTree f false e.path with
      | .ok w => w.enqueueTree f e.path
      | .error _ => w
  else if w.filter.excludesFile e.path then w
  else if e.kind = .created then w.check f e.path
  else (w.forget e.path).schedule e.path

def observe [GlobLibrary] (w : Watcher) (f : Files) (c : FileChange) : Watcher :=
  let (events, dirs) := c.tell f w.dirs
  events.foldl (handle (c.apply f)) { w with dirs }

end Watcher

end JvmLint
