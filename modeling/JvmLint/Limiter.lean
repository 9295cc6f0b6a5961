import JvmLint.Fault

/-!
# Rate limits

How often something may happen is left to a component of its own. The one that is used is a token bucket as it stands
within one instant, when nothing is refilled. A keyed family of limiters forgets those that were not used for a while.
-/

namespace JvmLint

/-- What is asked of a component that limits how often something happens. -/
class RateLimiter (σ : Type) where
  /-- So many events a second, and at most so many at once. -/
  new : (rate : Float) → (burst : Int) → σ
  /-- How many events may happen at once. -/
  burst : σ → Int
  /-- Whether so many events may happen now. -/
  allow : σ → Int → Bool × σ
  /-- Waits until so many events may happen, unless they never may or the one who waits gives up. -/
  wait : σ → Int → (cancelled : Bool) → Except Fault Unit × σ
  /-- Time passes, until so many events may happen. -/
  elapse : σ → Int → σ

/-- Nothing changes how many events may happen at once, and who waits for no more than that gets through. -/
class LawfulRateLimiter (σ : Type) [RateLimiter σ] : Prop where
  burst_new (rate : Float) (burst : Int) : RateLimiter.burst (RateLimiter.new rate burst : σ) = burst
  burst_allow (l : σ) (n : Int) : RateLimiter.burst (RateLimiter.allow l n).2 = RateLimiter.burst l
  burst_wait (l : σ) (n : Int) (cancelled : Bool) :
    RateLimiter.burst (RateLimiter.wait l n cancelled).2 = RateLimiter.burst l
  burst_elapse (l : σ) (n : Int) : RateLimiter.burst (RateLimiter.elapse l n) = RateLimiter.burst l
  wait_ok (l : σ) (n : Int) : n ≤ RateLimiter.burst l → (RateLimiter.wait l n false).1 = .ok ()

structure TokenBucket where
  burst : Int
  tokens : Int
deriving DecidableEq, Repr, Inhabited

namespace TokenBucket

/-- Takes tokens if there are enough. -/
def allow (b : TokenBucket) (n : Int) : Bool × TokenBucket :=
  let tokens := min b.tokens b.burst - n
  if n ≤ b.burst && 0 ≤ tokens then (true, { b with tokens }) else (false, b)

/-- Takes tokens that are there, unless the one who waits has given up. -/
def wait (b : TokenBucket) (n : Int) (cancelled : Bool) : Except Fault Unit × TokenBucket :=
  if b.burst < n then
    (.error (.plain ("rate: Wait(n=" ++ toString n ++ ") exceeds limiter's burst " ++ toString b.burst)), b)
  else if cancelled then (.error (.plain "context canceled"), b)
  else (.ok (), (b.allow n).2)

instance : RateLimiter TokenBucket where
  new _ burst := { burst, tokens := burst }
  burst := TokenBucket.burst
  allow := allow
  wait := wait
  elapse b tokens := { b with tokens }

theorem burst_allow (b : TokenBucket) (n : Int) : (b.allow n).2.burst = b.burst := by
  unfold allow
  dsimp only
  split <;> rfl

theorem burst_wait (b : TokenBucket) (n : Int) (cancelled : Bool) : (b.wait n cancelled).2.burst = b.burst := by
  unfold wait
  split
  · rfl
  · split
    · rfl
    · exact b.burst_allow n

instance : LawfulRateLimiter TokenBucket where
  burst_new _ _ := rfl
  burst_allow := burst_allow
  burst_wait := burst_wait
  burst_elapse _ _ := rfl
  wait_ok b n h := by
    have hburst : ¬ b.burst < n := Int.not_lt.2 h
    simp [RateLimiter.wait, wait, hburst]

end TokenBucket

def newLimiter {σ : Type} [RateLimiter σ] (rate : Float) (burst : Int) : σ := RateLimiter.new rate (max burst 1)

/-- One limiter a key, with the time in nanoseconds of its last use. -/
structure Limiters (σ : Type) where
  rate : Float
  burst : Int
  ttl : Int
  entries : List (String × σ × Int) := []
deriving Repr, Inhabited

namespace Limiters
variable {σ : Type} [RateLimiter σ]

/-- The limiter of a key, a new one if the key is new. -/
def get (l : Limiters σ) (key : String) : σ := ((l.entries.lookup key).map (·.1)).getD (newLimiter l.rate l.burst)

def set (l : Limiters σ) (key : String) (limiter : σ) (now : Int) : Limiters σ :=
  { l with entries := (key, limiter, now) :: l.entries.filter (·.1 != key) }

def allow (l : Limiters σ) (key : String) (n now : Int) : Bool × Limiters σ :=
  let (ok, limiter) := RateLimiter.allow (l.get key) n
  (ok, l.set key limiter now)

def wait (l : Limiters σ) (key : String) (n : Int) (cancelled : Bool) (now : Int) : Except Fault Unit × Limiters σ :=
  let (r, limiter) := RateLimiter.wait (l.get key) n cancelled
  (r, l.set key limiter now)

def size (l : Limiters σ) : Nat := l.entries.length

/-- Forgets the keys that were not used for longer than allowed. -/
def sweep (l : Limiters σ) (now : Int) : Limiters σ :=
  { l with entries := l.entries.filter fun (_, _, used) => now - used ≤ l.ttl }

end Limiters

end JvmLint
