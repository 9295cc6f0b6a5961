import JvmLint.Files.Basic
import JvmLint.XxHash

/-!
# Contents seen before

The fingerprints of files, by path. A file that was rewritten with the same bytes has not changed.
-/

namespace JvmLint

structure Contents where
  sums : List (String × UInt64) := []
deriving DecidableEq, Repr, Inhabited

namespace Contents

def set (c : Contents) (path : String) (sum : UInt64) : Contents :=
  { sums := (path, sum) :: c.sums.filter (·.1 != path) }

/-- Forgets a file, so that it counts as changed when it comes back. -/
def forget (c : Contents) (path : String) : Contents := { sums := c.sums.filter (·.1 != path) }

def note (c : Contents) (path : String) (bytes : List UInt8) : Bool × Contents :=
  let sum := XxHash.sum bytes
  if c.sums.lookup path = some sum then (false, c) else (true, c.set path sum)

/-- Whether a file changed since it was last seen. One that cannot be read counts as changed. -/
def changed (c : Contents) (f : Files) (path : String) : Bool × Contents :=
  match f.read path with
  | .ok bytes => c.note path bytes
  | .error _ => (true, c)

/-- Takes a file as seen, if it can be read. -/
def remember (c : Contents) (f : Files) (path : String) : Contents :=
  match f.read path with
  | .ok bytes => c.set path (XxHash.sum bytes)
  | .error _ => c

end Contents

end JvmLint
