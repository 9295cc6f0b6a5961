import JvmLint.Config.Prepare
import JvmLint.Files.Basic
import JvmLint.Uuid

/-!
# The machine

What a program finds around it: files, environment variables, a clock and numbers nobody has drawn
before.
-/

namespace JvmLint

structure Machine where
  files : Files := {}
  env : Environment := []
  now : Timestamp := .zero
  /-- The next number to make an id of. -/
  seed : Nat := 0
deriving Repr, Inhabited

namespace Machine

def clock (m : Machine) : Timestamp × Machine :=
  (m.now, { m with now := { m.now with nanos := m.now.nanos + Duration.millisecond } })

/-- An id that was not given out before. -/
def freshId (m : Machine) : String × Machine := (Uuid.text m.seed, { m with seed := m.seed + 1 })

end Machine

end JvmLint
