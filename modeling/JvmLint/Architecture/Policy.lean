import JvmLint.Architecture.Layer
import JvmLint.Model.Class

/-!
# References between layers

The references of a class to other classes whose layers are known, and which of them the layering
forbids.
-/

namespace JvmLint

abbrev Layers := List (String × Layer)

def Classifier.classifyAll [GlobLibrary] (c : Classifier) (classes : List Class) : Layers :=
  classes.map fun k => (k.name, c.classify k.name)

inductive RefKind where
  | field | call
deriving DecidableEq, Repr, Inhabited

def RefKind.text : RefKind → String
  | field => "field"
  | call => "call"

structure LayerEdge where
  source : String
  target : String
  sourceLayer : Layer
  targetLayer : Layer
  kind : RefKind
  /-- The field, or the method that is called. -/
  via : String
  /-- The method that makes the call. -/
  method : String := ""
deriving DecidableEq, Repr, Inhabited

namespace LayerEdge

def origin (e : LayerEdge) : String :=
  match e.kind with
  | .field => "field: " ++ e.via
  | .call => "method " ++ e.method ++ " calls: " ++ e.via

/-- What is wrong with the reference, if it is forbidden. -/
def describe (e : LayerEdge) : String :=
  let target := Name.dotted e.target
  if e.sourceLayer = .presentation && e.targetLayer = .data then
    "Presentation layer class references Data layer class directly: " ++ target
  else if e.targetLayer = .unknown then
    e.sourceLayer.title ++ " layer class references unknown layer class: " ++ target
  else e.sourceLayer.title ++ " layer class references " ++ e.targetLayer.title ++ " layer class: " ++ target

end LayerEdge

def Class.fieldRefs (c : Class) : List (String × Field) :=
  c.fields.filterMap fun f =>
    match f.type with
    | .ok t => some (t.referenced?.getD "", f)
    | .error _ => none

def Class.callRefs (c : Class) : List (String × Method × String) :=
  c.methods.flatMap fun m => m.operations.filterMap fun o =>
    if o.role = .methodCall && o.owner != "" then
      some ((ValueType.ofOwner o.owner).referenced?.getD "", m, o.name)
    else none

/-- Keeps the first of equal elements. -/
def dedup {α : Type} [BEq α] (l : List α) : List α :=
  (l.foldl (fun seen a => if seen.contains a then seen else a :: seen) []).reverse

/-- The references of a class to other classes of the set, each once, in declaration order. -/
def Class.links (c : Class) (layers : Layers) : List LayerEdge :=
  let edge (target : String) (kind : RefKind) (via method : String) : Option LayerEdge :=
    if target = c.name then none
    else (layers.lookup target).map fun l =>
      { source := c.name, target, sourceLayer := (layers.lookup c.name).getD ⟨""⟩, targetLayer := l, kind, via, method }
  dedup (c.fieldRefs.filterMap (fun (t, f) => edge t .field f.name "") ++
    c.callRefs.filterMap fun (t, m, callee) => edge t .call callee m.name)

inductive LayerPolicy where
  | builtIn
  | rules (rs : List LayerRule)
deriving DecidableEq, Repr, Inhabited

namespace LayerPolicy

def ofRules (rs : List LayerRule) : LayerPolicy := if rs.isEmpty then .builtIn else .rules rs

def forbidden : List (Layer × Layer) :=
  [(.presentation, .data), (.presentation, .unknown), (.data, .presentation), (.data, .domain), (.domain, .presentation)]

/-- The name of the rule that forbids a reference, if one does. A layer may always refer to itself;
of several rules for a layer the last holds, and a layer without a rule is free. -/
def forbids? (p : LayerPolicy) (source target : Layer) : Option String :=
  if source = target then none
  else
    match p with
    | builtIn => if forbidden.contains (source, target) then some "three-layer" else none
    | rules rs =>
      match rs.reverse.find? (·.layer == source) with
      | some r => if r.allow.contains target then none else some r.name
      | none => none

def violations (p : LayerPolicy) (edges : List LayerEdge) : List LayerEdge :=
  edges.filter fun e => (p.forbids? e.sourceLayer e.targetLayer).isSome

end LayerPolicy

end JvmLint
