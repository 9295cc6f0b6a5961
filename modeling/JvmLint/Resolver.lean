import JvmLint.Check.Lookup
import JvmLint.Source

/-!
# Resolver

Looks each name up in a source once and remembers the outcome, also that there is no such class. A
class that cannot be loaded is absent; why does not matter to those who ask.
-/

namespace JvmLint

/-- What a resolver remembers, and how often it was asked. -/
structure Resolver where
  cache : List (String × Option Class) := []
  /-- Answers from memory. -/
  hits : Nat := 0
  /-- Classes loaded. -/
  loads : Nat := 0
  /-- Names found to have no class. -/
  absent : Nat := 0
deriving DecidableEq, Repr, Inhabited

namespace Resolver

def cached (r : Resolver) : Nat := r.cache.length

/-- The class that a source has under a name, if it can be loaded. -/
def load? (source : Source) (name : String) : Option Class := ((source name).toOption).join

def resolve (source : Source) (name : String) (r : Resolver) : Option Class × Resolver :=
  if name = "" then (none, r)
  else
    match r.cache.lookup name with
    | some found => (found, { r with hits := r.hits + 1 })
    | none =>
      match load? source name with
      | some c => (some c, { r with cache := (name, some c) :: r.cache, loads := r.loads + 1 })
      | none => (none, { r with cache := (name, none) :: r.cache, absent := r.absent + 1 })

def answer {α : Type} (r : Resolver) (source : Source) (l : Lookup α) : α × Resolver :=
  l.runState (resolve source) r

end Resolver

end JvmLint
