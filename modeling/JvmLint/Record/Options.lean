import JvmLint.Check.Registry
import JvmLint.Config.Paths
import JvmLint.Record.Basic

/-!
# Options and architectures as records
-/

namespace JvmLint

instance : ToRecord Layer := ⟨fun l => record l.name⟩
instance : OfRecord Layer := ⟨fun t => ⟨ofRecord t⟩⟩

instance : ToRecord Keywords := ⟨fun k => .table [entry "packages" k.packages, entry "classes" k.classes]⟩
instance : OfRecord Keywords := ⟨fun t => { packages := t.part "packages", classes := t.part "classes" }⟩

instance : ToRecord LayerRule := ⟨fun r => .table [entry "name" r.name, entry "from" r.layer, entry "allow" r.allow]⟩
instance : OfRecord LayerRule := ⟨fun t => { name := t.part "name", layer := t.part "from", allow := t.part "allow" }⟩

instance : ToRecord ArchitectureModel := ⟨fun m => .table
  [("keywords", .table (m.keywords.map fun (l, k) => entry l.name k)),
    ("mappings", .array (m.mappings.map fun (l, ps) => .table [entry "layer" l, entry "patterns" ps])),
    entry "rules" m.rules]⟩

instance : OfRecord ArchitectureModel := ⟨fun t =>
  { keywords := (t.part "keywords" : List (String × Keywords)).map fun (l, k) => (⟨l⟩, k)
    mappings := (t.part "mappings" : List Toml).map fun m => (m.part "layer", m.part "patterns")
    rules := t.part "rules" }⟩

instance : ToRecord CheckOptions := ⟨fun o => .table
  [("duplication", .table
      [entry "threshold" o.duplication.threshold, entry "mininstructions" o.duplication.minInstructions]),
    ("strategy", .table [entry "minbranches" o.strategy.minBranches, entry "keywords" o.strategy.keywords]),
    ("hollywood", .table
      [entry "lowlevel" o.hollywood.lowLevel, entry "framework" o.hollywood.framework,
        entry "highlevel" o.hollywood.highLevel, entry "template" o.hollywood.template]),
    entry "architecture" o.architecture]⟩

instance : OfRecord CheckOptions := ⟨fun t =>
  { duplication := { threshold := t.part "threshold", minInstructions := t.part "min_instructions" }
    strategy := { minBranches := t.part "min_branches", keywords := t.part "strategy_keywords" }
    hollywood := { lowLevel := t.part "low_level", framework := t.part "framework", highLevel := t.part "high_level"
                   template := t.part "template" }
    architecture := t.part "architecture" }⟩

instance : ToRecord ResolvedPaths := ⟨fun p => .table
  [entry "project_root" p.projectRoot, entry "state_dir" p.stateDir, entry "db" p.db, entry "log" p.log,
    entry "output" p.output]⟩

end JvmLint
