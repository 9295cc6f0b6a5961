import JvmLint.Config.Basic
import JvmLint.Toml.Value

/-!
# Configurations as tables

Reading a configuration from a table and writing it back. Fields with other names are ignored; a
field of the wrong type makes the table unreadable.
-/

namespace JvmLint.Config

open Toml (get asString asInt asFloat asBool asList asTable)

abbrev Table := List (String × Toml)

def asStrings : Toml → Option (List String) := asList asString

def asDuration : Toml → Option Duration
  | .string s => Duration.parse? s
  | v => asInt v

def asKeywords (v : Toml) : Option Keywords := do
  let t ← asTable v
  return { packages := ← get t "packages" asStrings [], classes := ← get t "classes" asStrings [] }

def asLayer (v : Toml) : Option LayerPaths := do
  let t ← asTable v
  return { name := ← get t "name" asString "", paths := ← get t "paths" asStrings [] }

def asRule (v : Toml) : Option Rule := do
  let t ← asTable v
  return { name := ← get t "name" asString "", source := ← get t "from" asString "", allow := ← get t "allow" asStrings [] }

def asKeywordTable (v : Toml) : Option (List (String × Keywords)) := do
  (← asTable v).mapM fun (k, v) => do return (k, ← asKeywords v)

/-- A nested table, empty if it is missing. -/
def section? (t : Table) (name : String) : Option Table := get t name asTable []

def readChecks (t : Table) : Option Checks := do
  let d ← section? t "duplication"
  let s ← section? t "strategy"
  let h ← section? t "hollywood"
  return {
    duplication := { threshold := ← get d "threshold" asFloat 0, minInstructions := ← get d "min_instructions" asInt 0 }
    strategy := { minBranches := ← get s "min_branches" asInt 0, keywords := ← get s "keywords" asStrings [] }
    hollywood := { lowLevel := ← get h "low_level" asStrings [], framework := ← get h "framework" asStrings [],
                   highLevel := ← get h "high_level" asStrings [], template := ← get h "template" asStrings [] } }

def ofTable (t : Table) : Option Config := do
  let p ← section? t "paths"
  let a ← section? t "analysis"
  let e ← section? t "exclude"
  let r ← section? t "architecture"
  let o ← section? t "output"
  let d ← section? t "db"
  let w ← section? t "watch"
  let b ← section? t "observability"
  return {
    version := ← get t "version" asInt 0
    project := ← get t "project" asString ""
    paths := { projectRoot := ← get p "project_root" asString "", stateDir := ← get p "state_dir" asString "" }
    inputs := ← get t "inputs" asStrings []
    classpath := ← get t "classpath" asStrings []
    analysis := { workers := ← get a "workers" asInt 0, includes := ← get a "include" asStrings [],
                  excludes := ← get a "exclude" asStrings [] }
    exclude := { classes := ← get e "classes" asStrings [], files := ← get e "files" asStrings [] }
    checks := ← readChecks (← section? t "checks")
    architecture := { keywords := ← get r "keywords" asKeywordTable [], layers := ← get r "layers" (asList asLayer) [],
                      rules := ← get r "rules" (asList asRule) [] }
    output := { format := ← get o "format" asString "", path := ← get o "path" asString "",
                injectMarker := ← get o "inject_marker" asString "" }
    db := { enabled := ← get d "enabled" asBool false, path := ← get d "path" asString "",
            busyTimeout := ← get d "busy_timeout" asDuration 0, retention := ← get d "retention" asInt 0 }
    watch := { debounce := ← get w "debounce" asDuration 0, maxRate := ← get w "max_rate" asFloat 0,
               burst := ← get w "burst" asInt 0 }
    observability := { metricsAddr := ← get b "metrics_addr" asString "",
                       otlpEndpoint := ← get b "otlp_endpoint" asString "", insecure := ← get b "insecure" asBool false } }

def ofKeywords (k : Keywords) : Toml := .table [("packages", .strings k.packages), ("classes", .strings k.classes)]

def toTable (c : Config) : Table :=
  [("version", .int c.version), ("project", .string c.project),
    ("paths", .table [("project_root", .string c.paths.projectRoot), ("state_dir", .string c.paths.stateDir)]),
    ("inputs", .strings c.inputs), ("classpath", .strings c.classpath),
    ("analysis", .table [("workers", .int c.analysis.workers), ("include", .strings c.analysis.includes),
      ("exclude", .strings c.analysis.excludes)]),
    ("exclude", .table [("classes", .strings c.exclude.classes), ("files", .strings c.exclude.files)]),
    ("checks", .table [
      ("duplication", .table [("threshold", .float c.checks.duplication.threshold),
        ("min_instructions", .int c.checks.duplication.minInstructions)]),
      ("strategy", .table [("min_branches", .int c.checks.strategy.minBranches),
        ("keywords", .strings c.checks.strategy.keywords)]),
      ("hollywood", .table [("low_level", .strings c.checks.hollywood.lowLevel),
        ("framework", .strings c.checks.hollywood.framework), ("high_level", .strings c.checks.hollywood.highLevel),
        ("template", .strings c.checks.hollywood.template)])]),
    ("architecture", .table [
      ("keywords", .table (c.architecture.keywords.map fun (k, w) => (k, ofKeywords w))),
      ("layers", .array (c.architecture.layers.map fun l => .table [("name", .string l.name), ("paths", .strings l.paths)])),
      ("rules", .array (c.architecture.rules.map fun r =>
        .table [("name", .string r.name), ("from", .string r.source), ("allow", .strings r.allow)]))]),
    ("output", .table [("format", .string c.output.format), ("path", .string c.output.path),
      ("inject_marker", .string c.output.injectMarker)]),
    ("db", .table [("enabled", .bool c.db.enabled), ("path", .string c.db.path), ("busy_timeout", .int c.db.busyTimeout),
      ("retention", .int c.db.retention)]),
    ("watch", .table [("debounce", .int c.watch.debounce), ("max_rate", .float c.watch.maxRate),
      ("burst", .int c.watch.burst)]),
    ("observability", .table [("metrics_addr", .string c.observability.metricsAddr),
      ("otlp_endpoint", .string c.observability.otlpEndpoint), ("insecure", .bool c.observability.insecure)])]

end JvmLint.Config
