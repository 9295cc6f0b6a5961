import JvmLint.Check.Basic

/-!
# Hierarchies

Walks up superclasses and interfaces. A class that cannot be found ends a superclass walk and is a
leaf among interfaces. Every walk ends, also when classes inherit from each other in a circle.
-/

namespace JvmLint

/-- The classes found from `name` upwards, up to the root class, a name met before or a class that
cannot be found; at most `fuel` of them. -/
def chainFrom : Nat → List String → String → Lookup (List Class)
  | 0, _, _ => pure []
  | fuel + 1, seen, name =>
    if name = "" || name = Name.object || seen.contains name then pure []
    else do
      match ← Lookup.find name with
      | none => return []
      | some c => return c :: (← chainFrom fuel (name :: seen) c.super)

def Class.ancestors (c : Class) (around : Surroundings) : Lookup (List Class) :=
  chainFrom (around.reach + 2) [c.name] c.super

/-- What is known so far of the interfaces that interfaces extend. An entry is put in before it is
complete, so that a circle of interfaces finds it. -/
abbrev Extended := List (String × List String)

namespace Extended

def get (known : Extended) (name : String) : List String := (known.lookup name).getD []

def has (known : Extended) (name : String) : Bool := (known.lookup name).isSome

/-- Adds to an entry, which is made if there is none. -/
def add (known : Extended) (name : String) (more : List String) : Extended :=
  (name, more.foldl (fun l a => l.insert a) (known.get name)) :: known.filter (·.1 != name)

end Extended

/-- Completes the entry of an interface. Parents already in the entry are not looked into again. -/
def expand : Nat → Extended → String → Lookup Extended
  | 0, known, _ => pure known
  | fuel + 1, known, name =>
    if known.has name then pure known
    else do
      let known := known.add name []
      match ← Lookup.find name with
      | none => return known
      | some interface => interface.interfaces.foldlM (fun known parent =>
          if (known.get name).contains parent then pure known
          else do
            let known ← expand fuel (known.add name [parent]) parent
            return known.add name (known.get parent)) known

def inherited (fuel : Nat) (known : Extended) (chain : List Class) : Lookup (List String × Extended) :=
  chain.foldlM (fun (out, known) c =>
    c.interfaces.foldlM (fun (out, known) i => do
      let known ← expand fuel known i
      return (i :: known.get i ++ out, known)) (out, known)) ([], known)

end JvmLint
