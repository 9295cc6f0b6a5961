import JvmLint.Config.Basic

/-!
# Preparing a configuration

Environment variables go over what the file says; then values that are not set get their defaults,
and names are brought to one spelling.
-/

namespace JvmLint

abbrev Environment := List (String × String)

namespace Config

def override {α : Type} (env : Environment) (name : String) (read : String → Option α) (old : α) : α :=
  ((env.lookup name).bind read).getD old

def variableNames : List String := [
  "CLASSLINT_PROJECT", "CLASSLINT_PATHS_PROJECT_ROOT", "CLASSLINT_PATHS_STATE_DIR", "CLASSLINT_CLASSPATH",
  "CLASSLINT_ANALYSIS_WORKERS", "CLASSLINT_OUTPUT_FORMAT", "CLASSLINT_OUTPUT_PATH", "CLASSLINT_OUTPUT_INJECT_MARKER",
  "CLASSLINT_DB_ENABLED", "CLASSLINT_DB_PATH", "CLASSLINT_DB_BUSY_TIMEOUT", "CLASSLINT_DB_RETENTION",
  "CLASSLINT_WATCH_DEBOUNCE", "CLASSLINT_WATCH_MAX_RATE", "CLASSLINT_OBSERVABILITY_METRICS_ADDR",
  "CLASSLINT_OBSERVABILITY_OTLP_ENDPOINT", "CLASSLINT_OBSERVABILITY_INSECURE"]

def applyEnvironment (env : Environment) (c : Config) : Config :=
  let text (name old : String) : String := override env name some old
  let int (name : String) (old : Int) : Int := override env name Text.int? old
  let bool (name : String) (old : Bool) : Bool := override env name (fun s => Text.bool? (Text.lower s)) old
  let duration (name : String) (old : Duration) : Duration := override env name Duration.parse? old
  { c with
    project := text "CLASSLINT_PROJECT" c.project
    paths := { projectRoot := text "CLASSLINT_PATHS_PROJECT_ROOT" c.paths.projectRoot
               stateDir := text "CLASSLINT_PATHS_STATE_DIR" c.paths.stateDir }
    classpath := override env "CLASSLINT_CLASSPATH" (fun s => some (Registry.nonBlank (Text.splitOn s ':'))) c.classpath
    analysis := { c.analysis with workers := int "CLASSLINT_ANALYSIS_WORKERS" c.analysis.workers }
    output := { format := text "CLASSLINT_OUTPUT_FORMAT" c.output.format
                path := text "CLASSLINT_OUTPUT_PATH" c.output.path
                injectMarker := text "CLASSLINT_OUTPUT_INJECT_MARKER" c.output.injectMarker }
    db := { enabled := bool "CLASSLINT_DB_ENABLED" c.db.enabled
            path := text "CLASSLINT_DB_PATH" c.db.path
            busyTimeout := duration "CLASSLINT_DB_BUSY_TIMEOUT" c.db.busyTimeout
            retention := int "CLASSLINT_DB_RETENTION" c.db.retention }
    watch := { c.watch with
               debounce := duration "CLASSLINT_WATCH_DEBOUNCE" c.watch.debounce
               maxRate := override env "CLASSLINT_WATCH_MAX_RATE" Text.float? c.watch.maxRate }
    observability := { metricsAddr := text "CLASSLINT_OBSERVABILITY_METRICS_ADDR" c.observability.metricsAddr
                       otlpEndpoint := text "CLASSLINT_OBSERVABILITY_OTLP_ENDPOINT" c.observability.otlpEndpoint
                       insecure := bool "CLASSLINT_OBSERVABILITY_INSECURE" c.observability.insecure } }

def orDefault (value default : String) : String := if Text.trim value = "" then default else value

def orNumber (value default : Int) : Int := if value = 0 then default else value

def applyDefaults (c : Config) : Config :=
  { c with
    version := orNumber c.version 1
    paths := { c.paths with stateDir := orDefault c.paths.stateDir ".classlint" }
    checks := { c.checks with
      duplication := { threshold := if c.checks.duplication.threshold == 0 then 0.8 else c.checks.duplication.threshold
                       minInstructions := orNumber c.checks.duplication.minInstructions 5 }
      strategy := { c.checks.strategy with minBranches := orNumber c.checks.strategy.minBranches 3 } }
    output := { c.output with format := orDefault c.output.format "text" }
    db := { c.db with
      path := orDefault c.db.path "history.db"
      busyTimeout := if c.db.busyTimeout ≤ 0 then 5000000000 else c.db.busyTimeout }
    watch := { debounce := orNumber c.watch.debounce 500000000
               maxRate := if c.watch.maxRate == 0 then 1 else c.watch.maxRate
               burst := if c.watch.burst ≤ 0 then 1 else c.watch.burst } }

def layerName (s : String) : String := Text.lower (Text.trim s)

def setEntry {α : Type} (l : List (String × α)) (k : String) (v : α) : List (String × α) :=
  if l.any (·.1 == k) then l.map fun (j, w) => if j = k then (j, v) else (j, w) else l ++ [(k, v)]

def normalizeArchitecture (a : Architecture) : Architecture :=
  { keywords := a.keywords.foldl (fun out (name, kw) => setEntry out (layerName name) kw) []
    layers := a.layers.map fun l => { name := layerName l.name, paths := Registry.nonBlank l.paths }
    rules := a.rules.map fun r =>
      { name := Text.trim r.name, source := layerName r.source, allow := r.allow.map layerName } }

def normalize (c : Config) : Config :=
  { c with
    project := Text.trim c.project
    inputs := Registry.nonBlank c.inputs
    classpath := Registry.nonBlank c.classpath
    analysis := { c.analysis with
      includes := Registry.nonBlank c.analysis.includes, excludes := Registry.nonBlank c.analysis.excludes }
    exclude := { classes := Registry.nonBlank c.exclude.classes, files := Registry.nonBlank c.exclude.files }
    architecture := normalizeArchitecture c.architecture
    output := { format := Text.lower (Text.trim c.output.format), path := Text.trim c.output.path
                injectMarker := Text.trim c.output.injectMarker } }

/-- The configuration of nothing set. -/
def builtIn : Config := normalize (applyDefaults {})

end Config

end JvmLint
