import JvmLint.Config.Prepare
import JvmLint.Decimal.Shortest
import JvmLint.Report.Format

/-!
# Valid configurations
-/

namespace JvmLint

inductive ConfigDefect where
  | version (v : Int)
  | negativeWorkers (n : Int)
  | pattern (field : String) (defect : PatternDefect)
  | threshold (f : Float)
  | minInstructions (n : Int)
  | minBranches (n : Int)
  | emptyStrategyKeyword
  | keywordLayer (name : String)
  | layerUnnamed (index : Nat)
  | layerUnknown (index : Nat) (name : String)
  | layerTwice (name : String)
  | layerWithoutPaths (index : Nat) (name : String)
  | layerPattern (name : String) (defect : PatternDefect)
  | patternShared (raw owner name : String)
  | ruleUnnamed (index : Nat)
  | ruleTwice (name : String)
  | ruleSource (name layer : String)
  | ruleSourceTwice (layer previous name : String)
  | ruleTarget (name layer : String)
  | ruleTargetTwice (name layer : String)
  | format (name : String)
  | emptyDatabasePath
  | retention (n : Int)
  | debounce
  | maxRate
deriving Repr, Inhabited

namespace ConfigDefect

def numbers : Decimal.Layout := { lowest := -4, highest := 6, exponentWidth := 2 }

def message : ConfigDefect → String
  | version v => "unsupported config version " ++ toString v ++ "; supported version is 1"
  | negativeWorkers n => "analysis.workers must be >= 0, got " ++ toString n
  | pattern field defect => field ++ ": " ++ defect.message
  | threshold f => "checks.duplication.threshold must be in (0, 1], got " ++ Decimal.shortestText numbers f
  | minInstructions n => "checks.duplication.min_instructions must be >= 1, got " ++ toString n
  | minBranches n => "checks.strategy.min_branches must be >= 1, got " ++ toString n
  | emptyStrategyKeyword => "checks.strategy.keywords must not include empty values"
  | keywordLayer name => "architecture.keywords references unknown layer " ++ Text.quote name
  | layerUnnamed index => "architecture.layers[" ++ toString index ++ "].name must not be empty"
  | layerUnknown index name =>
    "architecture.layers[" ++ toString index ++ "].name must be one of presentation, domain, data, unknown; got " ++
      Text.quote name
  | layerTwice name => "duplicate architecture layer name: " ++ Text.quote name
  | layerWithoutPaths index name =>
    "architecture.layers[" ++ toString index ++ "] (" ++ name ++ ") must define at least one path pattern"
  | layerPattern name defect => "layer " ++ Text.quote name ++ ": " ++ defect.message
  | patternShared raw owner name =>
    "layer path pattern " ++ Text.quote raw ++ " is declared in both " ++ Text.quote owner ++ " and " ++ Text.quote name
  | ruleUnnamed index => "architecture.rules[" ++ toString index ++ "].name must not be empty"
  | ruleTwice name => "duplicate architecture rule name: " ++ Text.quote name
  | ruleSource name layer =>
    "architecture rule " ++ Text.quote name ++ " references unknown from layer " ++ Text.quote layer
  | ruleSourceTwice layer previous name =>
    "architecture layer " ++ Text.quote layer ++ " has multiple rules (" ++ Text.quote previous ++ ", " ++
      Text.quote name ++ "); define exactly one"
  | ruleTarget name layer =>
    "architecture rule " ++ Text.quote name ++ " references unknown allowed layer " ++ Text.quote layer
  | ruleTargetTwice name layer => "architecture rule " ++ Text.quote name ++ " repeats allowed layer " ++ Text.quote layer
  | format name =>
    "output.format must be one of: " ++ ", ".intercalate (ReportFormat.all.map (·.name)) ++ "; got " ++ Text.quote name
  | emptyDatabasePath => "db.path must not be empty"
  | retention n => "db.retention must be >= 0, got " ++ toString n
  | debounce => "watch.debounce must not be negative"
  | maxRate => "watch.max_rate must not be negative"

def fault (d : ConfigDefect) : Fault := .plain d.message

end ConfigDefect

namespace Config

abbrev Validated := Except ConfigDefect Unit

/-- Refuses with a defect if the condition holds. -/
def refuseIf (bad : Bool) (d : ConfigDefect) : Validated := if bad then .error d else .ok ()

def checkPatterns [GlobLibrary] (field : String) (raws : List String) : Validated :=
  match Pattern.compileAll raws with
  | .ok _ => .ok ()
  | .error d => .error (.pattern field d)

def validateAnalysis [GlobLibrary] (a : Analysis) : Validated := do
  refuseIf (a.workers < 0) (.negativeWorkers a.workers)
  checkPatterns "analysis.include" a.includes
  checkPatterns "analysis.exclude" a.excludes

def validateExclude [GlobLibrary] (e : Exclude) : Validated := do
  checkPatterns "exclude.classes" (e.classes.map classPattern)
  checkPatterns "exclude.files" e.files

def validateChecks (c : Checks) : Validated := do
  refuseIf (c.duplication.threshold ≤ 0 || c.duplication.threshold > 1) (.threshold c.duplication.threshold)
  refuseIf (c.duplication.minInstructions < 1) (.minInstructions c.duplication.minInstructions)
  refuseIf (c.strategy.minBranches < 1) (.minBranches c.strategy.minBranches)
  refuseIf (c.strategy.keywords.any fun k => Text.trim k == "") .emptyStrategyKeyword

def isLayerName (s : String) : Bool := Layer.all.any (·.name == s)

def validateKeywords (keywords : List (String × Keywords)) : Validated :=
  match keywords.find? fun (name, _) => !isLayerName name || name == Layer.unknown.name with
  | some (name, _) => .error (.keywordLayer name)
  | none => .ok ()

abbrev Claimed := List (String × String)

/-- Claims a pattern for a layer. -/
def claimPattern [GlobLibrary] (layer : String) (claimed : Claimed) (raw : String) : Except ConfigDefect Claimed :=
  match Pattern.compile (classPattern raw), claimed.lookup (classPattern raw) with
  | .error d, _ => .error (.layerPattern layer d)
  | .ok _, some owner => if owner = layer then .ok claimed else .error (.patternShared raw owner layer)
  | .ok _, none => .ok ((classPattern raw, layer) :: claimed)

def validateLayers [GlobLibrary] : Nat → List String → Claimed → List LayerPaths → Validated
  | _, _, _, [] => .ok ()
  | i, names, claimed, l :: ls => do
    refuseIf (l.name == "") (.layerUnnamed i)
    refuseIf (!isLayerName l.name) (.layerUnknown i l.name)
    refuseIf (names.contains l.name) (.layerTwice l.name)
    refuseIf l.paths.isEmpty (.layerWithoutPaths i l.name)
    validateLayers (i + 1) (l.name :: names) (← l.paths.foldlM (claimPattern l.name) claimed) ls

def validateAllowed (rule : String) : List String → List String → Validated
  | _, [] => .ok ()
  | seen, target :: rest => do
    refuseIf (!isLayerName target) (.ruleTarget rule target)
    refuseIf (seen.contains target) (.ruleTargetTwice rule target)
    validateAllowed rule (target :: seen) rest

def validateRules : Nat → List Rule → List Rule → Validated
  | _, _, [] => .ok ()
  | i, seen, r :: rs => do
    refuseIf (r.name == "") (.ruleUnnamed i)
    refuseIf (seen.any (·.name == r.name)) (.ruleTwice r.name)
    refuseIf (!isLayerName r.source) (.ruleSource r.name r.source)
    match seen.find? (·.source == r.source) with
    | some previous => .error (.ruleSourceTwice r.source previous.name r.name)
    | none =>
      validateAllowed r.name [] r.allow
      validateRules (i + 1) (r :: seen) rs

def validateArchitecture [GlobLibrary] (a : Architecture) : Validated := do
  validateKeywords a.keywords
  validateLayers 0 [] [] a.layers
  validateRules 0 [] a.rules

def validateDatabase (d : Database) : Validated := do
  refuseIf (d.enabled && Text.trim d.path == "") .emptyDatabasePath
  refuseIf (d.retention < 0) (.retention d.retention)

def validateWatch (w : Watch) : Validated := do
  refuseIf (w.debounce < 0) .debounce
  refuseIf (w.maxRate < 0) .maxRate

/-- Everything that is asked of a configuration, in the order in which it is reported. -/
def validate [GlobLibrary] (c : Config) : Validated := do
  refuseIf (c.version != 1) (.version c.version)
  validateAnalysis c.analysis
  validateExclude c.exclude
  validateChecks c.checks
  validateArchitecture c.architecture
  refuseIf (!ReportFormat.all.any (·.name == c.output.format)) (.format c.output.format)
  validateDatabase c.db
  validateWatch c.watch

def finish [GlobLibrary] (c : Config) : Except ConfigDefect Config := do
  let c := normalize (applyDefaults c)
  validate c
  return c

end Config

end JvmLint
