import JvmLint.Limiter

/-!
# Batching

Changes that follow each other closely are delivered together. Each change sets a timer anew; when it
expires, a flush collects what is pending. A flush that collected something waits for its turn, then for
the rate limit, and hands its batch over. An expiration that has begun is not called back by setting the
timer.
-/

namespace JvmLint

def insertSorted (s : String) : List String → List String
  | [] => [s]
  | t :: ts => if s = t then t :: ts else if s < t then s :: t :: ts else t :: insertSorted s ts

structure Batching (σ : Type) where
  /-- What changed since the last collection: sorted, each path once. -/
  pending : List String := []
  /-- Whether the timer is set. -/
  armed : Bool := false
  /-- Flushes that are yet to collect. -/
  flushes : Nat := 0
  /-- Batches that are yet to get their turn. -/
  waiting : List (List String) := []
  /-- The batch whose turn it is, while the rate limit holds it back. -/
  turn : Option (List String) := none
  /-- The batch that is being handed over. -/
  current : Option (List String) := none
  /-- Batches handed over. -/
  delivered : List (List String) := []
  /-- The rate limit, if there is one. -/
  limiter : Option σ := none
  closed : Bool := false
deriving DecidableEq, Repr, Inhabited

namespace Batching
variable {σ : Type} [RateLimiter σ]

/-- Batching with a rate limit, unless the rate is zero. -/
def limited (maxRate : Float) (burst : Int) : Batching σ :=
  { limiter := if 0 < maxRate then some (newLimiter maxRate burst) else none }

def schedule (b : Batching σ) (path : String) : Batching σ :=
  { b with pending := insertSorted path b.pending, armed := true }

def expire (b : Batching σ) : Batching σ := if b.armed then { b with armed := false, flushes := b.flushes + 1 } else b

/-- A flush takes what is pending; one that finds nothing is over. -/
def collect (b : Batching σ) : Batching σ :=
  match b.flushes with
  | 0 => b
  | n + 1 =>
    if b.pending.isEmpty then { b with flushes := n }
    else { b with flushes := n, pending := [], waiting := b.waiting ++ [b.pending] }

/-- A waiting flush gets its turn if nobody else has it. Turns are given in any order. -/
def begin (b : Batching σ) (i : Nat) : Batching σ :=
  match b.turn, b.current, b.waiting[i]? with
  | none, none, some batch => { b with turn := some batch, waiting := b.waiting.eraseIdx i }
  | _, _, _ => b

def takeToken (b : Batching σ) : Except Fault Unit × Batching σ :=
  match b.limiter with
  | none => (.ok (), b)
  | some t =>
    match RateLimiter.allow t 1 with
    | (true, t) => (.ok (), { b with limiter := some t })
    | (false, t) =>
      let (passed, t) := RateLimiter.wait t 1 b.closed
      (passed, { b with limiter := some t })

/-- The batch whose turn it is passes the rate limit and begins to be handed over. If the wait is broken off, the
batch is dropped. -/
def pass (b : Batching σ) : Batching σ :=
  match b.turn with
  | none => b
  | some batch =>
    match b.takeToken with
    | (.ok (), b) => { b with turn := none, current := some batch }
    | (.error _, b) => { b with turn := none }

def finish (b : Batching σ) : Batching σ :=
  match b.current with
  | some batch => { b with current := none, delivered := b.delivered ++ [batch] }
  | none => b

def close (b : Batching σ) : Batching σ := { b with armed := false, closed := true }

def flush (b : Batching σ) : Batching σ := ({ b with flushes := b.flushes + 1 }.collect.begin 0).pass.finish

def drain (b : Batching σ) : List (List String) × Batching σ := (b.delivered, { b with delivered := [] })

end Batching

end JvmLint
