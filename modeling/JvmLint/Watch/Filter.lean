import JvmLint.Input.Discover

/-!
# What to watch

Changes of class files and jars matter, unless their path or name is excluded. Excluded directories
are not entered.
-/

namespace JvmLint

structure WatchFilter where
  excludeFiles : List Pattern := []
  /-- Patterns for the names of directories. -/
  excludeDirs : List Pattern := []
deriving DecidableEq, Repr, Inhabited

namespace WatchFilter

def excludesDir [GlobLibrary] (w : WatchFilter) (path : String) : Bool :=
  Pattern.anyCovers w.excludeDirs (Path.base path)

def excludesFile [GlobLibrary] (w : WatchFilter) (path : String) : Bool :=
  (inputKind? path).isNone || isExcludedFile w.excludeFiles path

end WatchFilter

end JvmLint
