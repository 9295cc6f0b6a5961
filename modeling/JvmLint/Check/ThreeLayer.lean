import JvmLint.Check.Basic

/-!
# Three-layer architecture

References that cross the layers in a forbidden direction. The layers come from the classified set;
without one, the class and whatever it refers to that can be found are classified instead.
-/

namespace JvmLint.ThreeLayer

def info : CheckInfo :=
  ⟨"ThreeLayerArchitecture", .pattern,
    "References between presentation, domain and data classes that cross the layering in a forbidden direction."⟩

def neighbourhood (c : Class) : Lookup (List Class) := do
  let names := dedup (c.fieldRefs.map (·.1) ++ c.callRefs.map (·.1))
  let found ← (names.filter fun n => n != "" && n != c.name).mapM Lookup.find
  return c :: found.filterMap id

def remarks [GlobLibrary] (k : Classifier) (p : LayerPolicy) (c : Class) (around : Surroundings) :
    Lookup (List Remark) := do
  let layers ← match around.layers with
    | some layers => pure layers
    | none => k.classifyAll <$> neighbourhood c
  if (layers.lookup c.name).isNone then return []
  else return (p.violations (c.links layers)).map fun e =>
    { location := c.displayName ++ " (" ++ e.origin ++ ")", message := e.describe }

def check [GlobLibrary] (m : ArchitectureModel) : Except Fault Check := do
  let k ← Classifier.ofModel m
  return { info.check (remarks k (.ofRules m.rules)) with classify := some k.classifyAll }

end JvmLint.ThreeLayer
