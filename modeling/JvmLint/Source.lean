import JvmLint.Fault
import JvmLint.Model.Class
import JvmLint.Total

/-!
# Class sources

A source answers a name with a class, with no class, or with a fault. Only the fault "not found"
lets a chain of sources go on to the next one.
-/

namespace JvmLint

abbrev Source := String → Except Fault (Option Class)

/-- No source has the class. -/
def classNotFound (name : String) : Fault := (Fault.new .notFound "class not found").addDetail "class" name

structure ClassSet where
  classes : List Class := []
deriving DecidableEq, Repr, Inhabited

namespace ClassSet

def find? (s : ClassSet) (name : String) : Option Class := s.classes.find? (·.name == name)

/-- Adds classes. The first of a name stays. -/
def add (s : ClassSet) (more : List Class) : ClassSet :=
  more.foldl (fun s c => if (s.find? c.name).isSome then s else { classes := s.classes ++ [c] }) s

def ofList (classes : List Class) : ClassSet := ({} : ClassSet).add classes

def source (s : ClassSet) : Source := fun name =>
  match s.find? name with
  | some c => .ok (some c)
  | none => .error (classNotFound name)

end ClassSet

namespace Source

/-- Asks one source after the other. -/
def chain : List Source → Source
  | [], name => .error (classNotFound name)
  | s :: rest, name =>
    match s name with
    | .ok c => .ok c
    | .error e => if e.hasCode .notFound then chain rest name else .error e

end Source

def reachOf (classes : List Class) : Nat := total (classes.map fun c => c.interfaces.length + 1)

end JvmLint
