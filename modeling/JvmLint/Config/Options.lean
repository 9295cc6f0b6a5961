import JvmLint.Config.Basic

/-!
# Check options of a configuration

What is not set, or set to nothing, stays built-in.
-/

namespace JvmLint.Config

def orBuiltIn (values builtIn : List String) : List String := if values.isEmpty then builtIn else values

/-- The keywords of a layer: a list that is set replaces the built-in one. -/
def keywordsFor (l : Layer) (k : Keywords) : Keywords :=
  { packages := orBuiltIn k.packages (Keywords.builtIn l).packages
    classes := orBuiltIn k.classes (Keywords.builtIn l).classes }

def layerRule (r : Rule) : Except Fault LayerRule := do
  let parse (s : String) : Except Fault Layer :=
    (Layer.parse s).mapError fun e => e.label ("architecture rule " ++ Text.quote r.name)
  return { name := r.name, layer := ← parse r.source, allow := ← r.allow.mapM parse }

def setKeywords (l : List (Layer × Keywords)) (k : Layer) (v : Keywords) : List (Layer × Keywords) :=
  l.filter (·.1 != k) ++ [(k, v)]

def architectureModel (a : Architecture) : Except Fault ArchitectureModel := do
  let keywords ← a.keywords.foldlM (fun out (name, k) => do
    let l ← (Layer.parse name).mapError fun e => e.label "architecture.keywords"
    return setKeywords out l (keywordsFor l k)) []
  let mappings ← a.layers.mapM fun l => do
    return (← (Layer.parse l.name).mapError fun e => e.label "architecture.layers", l.paths)
  return { keywords, mappings, rules := ← a.rules.mapM layerRule }

def checkOptions (c : Config) : Except Fault CheckOptions := do
  let k := c.checks
  return {
    duplication :=
      { threshold := if 0 < k.duplication.threshold then k.duplication.threshold else DuplicationOptions.builtIn.threshold
        minInstructions :=
          if 0 < k.duplication.minInstructions then k.duplication.minInstructions
          else DuplicationOptions.builtIn.minInstructions }
    strategy :=
      { minBranches := if 0 < k.strategy.minBranches then k.strategy.minBranches else StrategyOptions.builtIn.minBranches
        keywords := orBuiltIn k.strategy.keywords StrategyOptions.builtIn.keywords }
    hollywood :=
      { lowLevel := orBuiltIn k.hollywood.lowLevel HollywoodOptions.builtIn.lowLevel
        framework := orBuiltIn k.hollywood.framework HollywoodOptions.builtIn.framework
        highLevel := orBuiltIn k.hollywood.highLevel HollywoodOptions.builtIn.highLevel
        template := orBuiltIn k.hollywood.template HollywoodOptions.builtIn.template }
    architecture := ← architectureModel c.architecture }

end JvmLint.Config
