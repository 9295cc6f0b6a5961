import JvmLint.Files.Basic

/-!
# Changes to files

A change happens at once. Those who watch a directory are told what happened to the names in it, by
the path they watch it under.
-/

namespace JvmLint

inductive FileEventKind where
  | created | removed | renamed
deriving DecidableEq, Repr, Inhabited

structure FileEvent where
  kind : FileEventKind
  path : String
deriving DecidableEq, Repr, Inhabited

inductive FileChange where
  /-- A file, or a directory with all that is in it, is moved in from elsewhere. -/
  | put (path : String) (node : FileNode) (inside : List (Place × FileNode))
  | move (path target : String)
  | remove (path : String)
deriving DecidableEq, Repr, Inhabited

abbrev WatchedDirs := List (Place × String)

namespace WatchedDirs

def add (dirs : WatchedDirs) (p : Place) (path : String) : WatchedDirs := (p, path) :: dirs.filter (·.1 != p)

def tell (dirs : WatchedDirs) (kind : FileEventKind) (p : Place) : List FileEvent :=
  match dirs.lookup p.dropLast, p.getLast? with
  | some dir, some name => [{ kind, path := dir ++ "/" ++ name }]
  | _, _ => []

/-- What those who watch a directory are told when it goes itself. -/
def tellSelf (dirs : WatchedDirs) (kind : FileEventKind) (p : Place) : List FileEvent :=
  match dirs.lookup p with
  | some path => [{ kind, path }]
  | none => []

/-- The directories that are still watched after one went with all that was in it. -/
def without (dirs : WatchedDirs) (p : Place) : WatchedDirs := dirs.filter fun (q, _) => !p.isPrefixOf q

/-- A directory that moved is not watched any more; those in it are, under their old paths. -/
def moved (dirs : WatchedDirs) (p q : Place) : WatchedDirs :=
  (dirs.filter (·.1 != p)).map fun (r, path) => if p.isPrefixOf r then (q ++ r.drop p.length, path) else (r, path)

end WatchedDirs

namespace FileChange

/-- Files moved to a place; what was there before is gone. -/
def plant (f : Files) (p : Place) (node : FileNode) (inside : List (Place × FileNode)) : Files :=
  inside.foldl (fun f (way, n) => f.put (p ++ way) n) ((f.drop p).put p node)

def apply (f : Files) : FileChange → Files
  | put path node inside =>
    match f.locate false path with
    | .ok p => plant f p node inside
    | .error _ => f
  | move path target =>
    match f.find false path, f.locate false target with
    | .ok (p, node), .ok q => plant (f.drop p) q node (f.below p)
    | _, _ => f
  | remove path => f.remove path

def tell (f : Files) (dirs : WatchedDirs) : FileChange → List FileEvent × WatchedDirs
  | put path _ _ =>
    match f.locate false path with
    | .ok p => (dirs.tell .created p, dirs.without p)
    | .error _ => ([], dirs)
  | move path target =>
    match f.find false path, f.locate false target with
    | .ok (p, _), .ok q =>
      (dirs.tell .renamed p ++ dirs.tell .created q ++ dirs.tellSelf .renamed p, dirs.moved p q)
    | _, _ => ([], dirs)
  | remove path =>
    match f.find false path with
    | .ok (p, _) =>
      let gone := (f.below p).map (fun (way, _) => p ++ way) ++ [p]
      (gone.flatMap fun q => dirs.tell .removed q ++ dirs.tellSelf .removed q, dirs.without p)
    | .error _ => ([], dirs)

end FileChange

end JvmLint
