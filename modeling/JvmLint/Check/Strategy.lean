import JvmLint.Check.Basic

/-!
# Branching that a strategy object could replace
-/

namespace JvmLint

structure StrategyOptions where
  /-- So many branches flag a method. -/
  minBranches : Int
  /-- Words in a type's name that show the pattern is in use. -/
  keywords : List String
deriving DecidableEq, Repr, Inhabited

namespace StrategyOptions

def builtIn : StrategyOptions := { minBranches := 3, keywords := ["Strategy", "Behavior", "Policy", "Algorithm"] }

def sane (o : StrategyOptions) : StrategyOptions :=
  { minBranches := if o.minBranches ≤ 0 then builtIn.minBranches else o.minBranches
    keywords := if o.keywords.isEmpty then builtIn.keywords else o.keywords }

end StrategyOptions

namespace Strategy

def info : CheckInfo :=
  ⟨"StrategyPattern", .pattern, "Methods with enough conditional branches to warrant a strategy object."⟩

def hasKeyword (o : StrategyOptions) (name : String) : Bool :=
  name != "" && o.keywords.any (Text.contains name)

def usesPattern (o : StrategyOptions) (c : Class) : Bool :=
  c.fieldRefs.any (fun (t, _) => hasKeyword o t) || c.interfaces.any (hasKeyword o)

def remarks (o : StrategyOptions) (c : Class) : List Remark :=
  if usesPattern o c then []
  else c.methods.filterMap fun m =>
    if m.isConstructor || m.isInitializer || !m.hasBody || m.branchUnits < o.minBranches then none
    else some {
      location := methodLocation c m m.firstLine
      message := "Method '" ++ m.name ++ "' in class '" ++ c.simpleName ++ "' has multiple conditional branches (" ++
        toString m.branchUnits ++ "). Consider using Strategy Pattern to encapsulate varying behaviors." }

def check (o : StrategyOptions) : Check := info.localCheck (remarks o.sane)

end Strategy

end JvmLint
