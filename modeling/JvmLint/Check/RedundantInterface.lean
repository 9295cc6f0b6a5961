import JvmLint.Check.Hierarchy

/-!
# Redundant interfaces

An interface need not be declared if it is declared twice, if another declared interface extends
it, or if the superclass provides it.
-/

namespace JvmLint.RedundantInterface

def info : CheckInfo :=
  ⟨"RedundantInterface", .pattern,
    "Interfaces declared explicitly although another interface or the superclass already provides them."⟩

def repeated : List String → List String
  | [] => []
  | a :: rest => if rest.contains a then a :: repeated rest else repeated rest

def extendedByOther (fuel : Nat) (direct : List String) (known : Extended) : Lookup (List String × Extended) :=
  direct.foldlM (fun (out, known) a =>
    direct.foldlM (fun (out, known) b => do
      if a = b then return (out, known)
      else
        let known ← expand fuel known b
        return (if (known.get b).contains a then a :: out else out, known)) (out, known)) ([], known)

def fromSuper (fuel : Nat) (c : Class) (known : Extended) : Lookup (List String) := do
  if c.hasSuper then
    let (out, _) ← inherited fuel known (← chainFrom fuel [] c.super)
    return out
  else return []

def message (c : Class) (interface : String) : String :=
  "Redundant interface: '" ++ Name.simple interface ++ "' is explicitly implemented by '" ++ c.simpleName ++
    "' even though it is already implied (via another interface or superclass)."

/-- The declared interfaces that are not needed, in order, repetitions included. -/
def redundant (c : Class) (around : Surroundings) : Lookup (List String) := do
  let fuel := around.reach + c.interfaces.length + 2
  let (extended, known) ← extendedByOther fuel c.interfaces []
  let provided ← fromSuper fuel c known
  let implied := repeated c.interfaces ++ extended ++ provided
  return c.interfaces.filter implied.contains

def remarks (c : Class) (around : Surroundings) : Lookup (List Remark) := do
  if c.interfaces.isEmpty then return []
  else
    let names ← redundant c around
    return (dedup (names.map (message c))).map fun m => { location := c.displayName, message := m }

def check : Check := info.check remarks

end JvmLint.RedundantInterface
