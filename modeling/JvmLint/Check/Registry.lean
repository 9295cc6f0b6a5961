import JvmLint.Check.AbstractImplementation
import JvmLint.Check.DataType
import JvmLint.Check.Decorator
import JvmLint.Check.Duplication
import JvmLint.Check.Hollywood
import JvmLint.Check.Members
import JvmLint.Check.RedundantInterface
import JvmLint.Check.Strategy
import JvmLint.Check.SwallowedException
import JvmLint.Check.ThreeLayer
import JvmLint.Check.Unused

/-!
# The registry

An ordered set of checks with names that differ in more than case, and the selection of checks by
name or glob.
-/

namespace JvmLint

structure CheckOptions where
  duplication : DuplicationOptions
  strategy : StrategyOptions
  hollywood : HollywoodOptions
  architecture : ArchitectureModel

def CheckOptions.builtIn : CheckOptions :=
  { duplication := .builtIn, strategy := .builtIn, hollywood := .builtIn, architecture := {} }

structure Registry where
  checks : List Check

inductive SelectDefect where
  | unknownCheck (name : String)
  | badPattern (defect : PatternDefect)
  | noMatch (pattern : String)
deriving DecidableEq, Repr, Inhabited

def SelectDefect.message : SelectDefect → String
  | unknownCheck name => "unknown check " ++ Text.quote name
  | badPattern defect => defect.message
  | noMatch pattern => "no check matches " ++ Text.quote pattern

def SelectDefect.fault (d : SelectDefect) : Fault := .plain d.message

namespace Registry

def ofChecks (checks : List Check) : Except Fault Registry :=
  let rec go : List String → List Check → Except Fault Unit
    | _, [] => .ok ()
    | seen, k :: ks =>
      if seen.contains (Text.lower k.name) then .error (.plain ("check " ++ Text.quote k.name ++ " registered twice"))
      else go (Text.lower k.name :: seen) ks
  (go [] checks).map fun _ => { checks }

def builtIn [GlobLibrary] (o : CheckOptions) : Except Fault Registry :=
  match ThreeLayer.check o.architecture with
  | .error e => .error (e.label "three-layer architecture")
  | .ok threeLayer => ofChecks [
      Duplication.check o.duplication, RedundantInterface.check, AbstractImplementation.check, Decorator.check,
      Strategy.check o.strategy, threeLayer, UnusedParameter.check, UnusedField.check, Hollywood.check o.hollywood,
      HashCodeEquals.check, SwallowedException.check, Encapsulation.check, DataType.check]

def entries (r : Registry) : List CheckInfo := r.checks.map (·.toCheckInfo)

/-- The check of a name, whatever its case and the blanks around it. -/
def lookup (r : Registry) (name : String) : Option Check :=
  r.checks.find? fun k => Text.lower k.name == Text.lower (Text.trim name)

def isGlob (s : String) : Bool := s.toList.any fun c => Pattern.isGlobChar c || c == '!'

/-- Texts without the blanks around them, empty ones left out. -/
def nonBlank (l : List String) : List String := (l.map Text.trim).filter (· != "")

def compileNames [GlobLibrary] (raws : List String) : Except SelectDefect (List Pattern) :=
  (Pattern.compileAll ((nonBlank raws).map Text.lower)).mapError .badPattern

def named (r : Registry) (names : List String) : Except SelectDefect (List String) :=
  names.mapM fun n =>
    match r.lookup n with
    | some k => .ok (Text.lower k.name)
    | none => .error (.unknownCheck n)

/-- The checks that an include names or matches, all of them if there is none, without those that an
exclude matches. An include that matches nothing is an error, so that a slip does not disable the
analysis unseen. -/
def select [GlobLibrary] (r : Registry) (includes excludes : List String) : Except SelectDefect (List Check) := do
  let includes := nonBlank includes
  let names ← r.named (includes.filter (!isGlob ·))
  let globs ← compileNames (includes.filter isGlob)
  let drop ← compileNames excludes
  match globs.find? fun p => !r.checks.any fun k => p.covers (Text.lower k.name) with
  | some p => .error (.noMatch p.text)
  | none =>
    return r.checks.filter fun k =>
      let name := Text.lower k.name
      (includes.isEmpty || names.contains name || Pattern.anyCovers globs name) && !Pattern.anyCovers drop name

end Registry

end JvmLint
