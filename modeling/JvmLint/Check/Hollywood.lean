import JvmLint.Check.Basic

/-!
# Calls in the wrong direction

Implementation classes should be called by their framework and not call up into it, and a subclass
should not call the steps of a template method itself.
-/

namespace JvmLint

structure HollywoodOptions where
  lowLevel : List String
  framework : List String
  /-- Looked for at the end of a name. -/
  highLevel : List String
  /-- Looked for at the start of a name; `Template` anywhere in it. -/
  template : List String
deriving DecidableEq, Repr, Inhabited

namespace HollywoodOptions

def builtIn : HollywoodOptions :=
  { lowLevel := ["Impl", "Concrete", "Default", "Simple", "Basic"]
    framework := ["Abstract", "Base", "Framework", "Manager", "Controller", "Handler", "Template"]
    highLevel := ["Manager", "Controller", "Service", "Facade", "Coordinator"]
    template := ["Template", "Abstract", "Base"] }

def sane (o : HollywoodOptions) : HollywoodOptions :=
  let pick (l d : List String) : List String := if l.isEmpty then d else l
  { lowLevel := pick o.lowLevel builtIn.lowLevel
    framework := pick o.framework builtIn.framework
    highLevel := pick o.highLevel builtIn.highLevel
    template := pick o.template builtIn.template }

end HollywoodOptions

namespace Hollywood

def info : CheckInfo :=
  ⟨"HollywoodPrinciple", .principle,
    "Low-level classes calling up into framework or high-level classes instead of being called by them."⟩

def containsAny (s : String) (words : List String) : Bool := words.any fun w => w != "" && Text.contains s w

def endsWithAny (s : String) (words : List String) : Bool := words.any fun w => w != "" && Text.endsWith s w

def isTemplate (o : HollywoodOptions) (name : String) : Bool :=
  let simple := Name.simple name
  o.template.any fun w => (w == "Template" && Text.contains simple w) || Text.startsWith simple w

def isPlatform (owner : String) : Bool := ["java/", "javax/", "sun/", "com/sun/"].any (Text.startsWith owner)

/-- Whether an instruction calls a method, not a constructor, of another class of the program. -/
def isOutwardCall (c : Class) (o : Operation) : Bool :=
  o.role == .methodCall && o.owner != "" && o.name != Name.constructor && o.owner != c.name && !isPlatform o.owner

/-- What is wrong with an outward call, if anything is. -/
def message? (opts : HollywoodOptions) (c : Class) (m : Method) (o : Operation) : Option String :=
  let callee := Name.simple o.owner
  if containsAny c.simpleName opts.lowLevel &&
      (containsAny callee opts.framework || endsWithAny callee opts.highLevel) then
    some ("Low-level class '" ++ c.simpleName ++ "' calls high-level component '" ++ callee ++ "." ++ o.name ++
      "' from method '" ++ m.name ++ "'. Let the framework call into the implementation instead.")
  else if c.hasSuper && isTemplate opts c.super && o.op = .invokespecial && o.owner = c.super then
    some ("Method '" ++ m.name ++ "' in class '" ++ c.simpleName ++ "' calls template method '" ++ o.name ++
      "' of base class '" ++ callee ++ "' directly.")
  else none

/-- A call for the purpose of reporting it once: caller, owner and callee. -/
def callKey (m : Method) (o : Operation) : String := m.name ++ "\x00" ++ o.owner ++ "\x00" ++ o.name

def candidates (opts : HollywoodOptions) (c : Class) (m : Method) : Int → List Instruction → List (String × Remark)
  | _, [] => []
  | _, .line n :: is => candidates opts c m n is
  | line, .real o :: is =>
    let rest := candidates opts c m line is
    if isOutwardCall c o then
      match message? opts c m o with
      | some message => (callKey m o, { location := methodLocation c m line, message }) :: rest
      | none => rest
    else rest
  | line, _ :: is => candidates opts c m line is

/-- The first of the pairs with the same key. -/
def firstOfKey (l : List (String × Remark)) : List Remark :=
  ((l.foldl (fun (out : List (String × Remark)) r => if out.any (·.1 == r.1) then out else r :: out) []).map (·.2)).reverse

def remarks (opts : HollywoodOptions) (c : Class) : List Remark :=
  if c.isInterface || c.isAbstract then []
  else firstOfKey ((c.methods.filter fun m => !m.isConstructor && !m.isInitializer).flatMap fun m =>
    candidates opts c m 0 m.body)

def check (opts : HollywoodOptions) : Check := info.localCheck (remarks opts.sane)

end Hollywood

end JvmLint
