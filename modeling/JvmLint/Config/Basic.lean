import JvmLint.Check.Registry
import JvmLint.Time.Duration

/-!
# Configuration

What a configuration file can set. A value that is not set is zero, false or empty.
-/

namespace JvmLint

namespace Config

structure Paths where
  projectRoot : String := ""
  stateDir : String := ""
deriving DecidableEq, Repr, Inhabited

structure Analysis where
  workers : Int := 0
  /-- Names and globs of checks to run. -/
  includes : List String := []
  excludes : List String := []
deriving DecidableEq, Repr, Inhabited

structure Exclude where
  classes : List String := []
  files : List String := []
deriving DecidableEq, Repr, Inhabited

structure Duplication where
  threshold : Float := 0
  minInstructions : Int := 0
deriving Repr, Inhabited

structure Strategy where
  minBranches : Int := 0
  keywords : List String := []
deriving DecidableEq, Repr, Inhabited

structure Hollywood where
  lowLevel : List String := []
  framework : List String := []
  highLevel : List String := []
  template : List String := []
deriving DecidableEq, Repr, Inhabited

structure Checks where
  duplication : Duplication := {}
  strategy : Strategy := {}
  hollywood : Hollywood := {}
deriving Repr, Inhabited

structure LayerPaths where
  name : String := ""
  paths : List String := []
deriving DecidableEq, Repr, Inhabited

structure Rule where
  name : String := ""
  source : String := ""
  allow : List String := []
deriving DecidableEq, Repr, Inhabited

structure Architecture where
  /-- Keywords by layer name. -/
  keywords : List (String × Keywords) := []
  layers : List LayerPaths := []
  rules : List Rule := []
deriving DecidableEq, Repr, Inhabited

structure Output where
  format : String := ""
  /-- The report file; empty for standard output. -/
  path : String := ""
  /-- The marked block of an existing document that a markdown report goes to. -/
  injectMarker : String := ""
deriving DecidableEq, Repr, Inhabited

structure Database where
  enabled : Bool := false
  path : String := ""
  busyTimeout : Duration := 0
  /-- How many runs of a project are kept; 0 keeps all. -/
  retention : Int := 0
deriving DecidableEq, Repr, Inhabited

structure Watch where
  debounce : Duration := 0
  /-- At most so many analyses a second. -/
  maxRate : Float := 0
  burst : Int := 0
deriving Repr, Inhabited

structure Observability where
  metricsAddr : String := ""
  otlpEndpoint : String := ""
  insecure : Bool := false
deriving DecidableEq, Repr, Inhabited

end Config

structure Config where
  version : Int := 0
  project : String := ""
  paths : Config.Paths := {}
  /-- What is analyzed when the command line names nothing. -/
  inputs : List String := []
  /-- Where other classes are looked up. -/
  classpath : List String := []
  analysis : Config.Analysis := {}
  exclude : Config.Exclude := {}
  checks : Config.Checks := {}
  architecture : Config.Architecture := {}
  output : Config.Output := {}
  db : Config.Database := {}
  watch : Config.Watch := {}
  observability : Config.Observability := {}
deriving Repr, Inhabited

end JvmLint
