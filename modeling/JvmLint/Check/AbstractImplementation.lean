import JvmLint.Check.Hierarchy

/-!
# Missing implementations

A concrete class below an abstract one has to have every abstract method implemented somewhere
below the declaration nearest to it.
-/

namespace JvmLint.AbstractImplementation

def info : CheckInfo :=
  ⟨"AbstractImplementation", .style,
    "Concrete classes missing implementations of abstract methods inherited from abstract superclasses."⟩

structure Declared where
  method : Method
  owner : String
deriving DecidableEq, Repr, Inhabited

def declarations (chain : List Class) : List Declared :=
  chain.flatMap fun c => c.methods.map fun m => { method := m, owner := c.name }

/-- The first abstract declaration of each signature. -/
def required (ds : List Declared) : List Declared :=
  ((ds.filter (·.method.access.isAbstract)).foldl (fun (out : List Declared) d =>
    if out.any (·.method.signature == d.method.signature) then out else d :: out) []).reverse

/-- The signatures implemented above a class: concrete, visible, and not abstract again nearer by. -/
def implementedAbove (seen : List String) : List Declared → List String
  | [] => []
  | d :: ds =>
    let sig := d.method.signature
    if d.method.access.isAbstract then implementedAbove (sig :: seen) ds
    else if !d.method.access.isPrivate && !seen.contains sig then sig :: implementedAbove seen ds
    else implementedAbove seen ds

def missing (c : Class) (chain : List Class) : List Declared :=
  let ds := declarations chain
  let implemented := (c.methods.filter (!·.access.isAbstract)).map (·.signature) ++ implementedAbove [] ds
  (required ds).filter fun d => !implemented.contains d.method.signature

def remark (c : Class) (d : Declared) : Remark :=
  { location := c.displayName
    message := "Class " ++ c.simpleName ++ " does not implement abstract method '" ++ d.method.signature ++
      "' from " ++ Name.simple d.owner }

def remarks (c : Class) (around : Surroundings) : Lookup (List Remark) := do
  if !c.isConcrete || !c.hasSuper then return []
  else
    let chain ← c.ancestors around
    match chain with
    | [] => return []
    | parent :: _ =>
      if parent.name == c.super && parent.isAbstract then return (missing c chain).map (remark c) else return []

def check : Check := info.check remarks

end JvmLint.AbstractImplementation
