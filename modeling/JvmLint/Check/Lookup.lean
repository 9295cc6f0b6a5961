import JvmLint.Model.Class

/-!
# Looking classes up

A computation that may ask for classes by name, kept apart from who answers. Run against a function
it is a plain value; run against a resolver with a memory it also leaves the memory behind.
-/

namespace JvmLint

inductive Lookup (α : Type) where
  | done (a : α)
  | ask (name : String) (next : Option Class → Lookup α)

namespace Lookup

def bind {α β : Type} : Lookup α → (α → Lookup β) → Lookup β
  | done a, f => f a
  | ask name next, f => ask name fun answer => (next answer).bind f

instance : Monad Lookup where
  pure := done
  bind := bind

/-- Asks for a class. No class has the empty name, so nobody is asked for it. -/
def find (name : String) : Lookup (Option Class) := if name = "" then done none else ask name done

/-- The outcome with answers from a function. -/
def run {α : Type} (answer : String → Option Class) : Lookup α → α
  | done a => a
  | ask name next => (next (answer name)).run answer

/-- The outcome with answers that may depend on, and change, a state. -/
def runState {α σ : Type} (answer : String → σ → Option Class × σ) : Lookup α → σ → α × σ
  | done a, s => (a, s)
  | ask name next, s =>
    let (found, s) := answer name s
    (next found).runState answer s

end Lookup

end JvmLint
