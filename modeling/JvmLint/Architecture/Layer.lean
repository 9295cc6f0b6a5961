import JvmLint.Model.Name
import JvmLint.Pattern
import JvmLint.Text.Letters

/-!
# Layers

Classes belong to the presentation, domain or data layer, by the most specific name pattern that
maps them, or else by keywords in their package and simple name.
-/

namespace JvmLint

structure Layer where
  name : String
deriving DecidableEq, Repr, Inhabited

namespace Layer

def presentation : Layer := ⟨"presentation"⟩
def domain : Layer := ⟨"domain"⟩
def data : Layer := ⟨"data"⟩
def unknown : Layer := ⟨"unknown"⟩

def byKeyword : List Layer := [presentation, data, domain]

def all : List Layer := [presentation, domain, data, unknown]

/-- Reads a layer's name, whatever its case and the blanks around it. -/
def parse (s : String) : Except Fault Layer :=
  match all.find? (·.name == Text.lower (Text.trim s)) with
  | some l => .ok l
  | none => .error (.plain ("unknown layer " ++ Text.quote s))

/-- The name with its first byte moved from lower to upper case. What is left of a first letter of
several bytes is no text any more. -/
def title (l : Layer) : String :=
  match l.name.toList with
  | [] => ""
  | c :: rest =>
    let bytes := String.utf8EncodeChar c
    String.ofList (Char.ofNat (bytes.headD 0 - 0x20).toNat ::
      List.replicate (bytes.length - 1) (Char.ofNat 0xfffd) ++ rest)

end Layer

/-- Words that place a class in a layer: some are looked for in its package, some in its name. -/
structure Keywords where
  packages : List String
  classes : List String
deriving DecidableEq, Repr, Inhabited

structure LayerRule where
  name : String
  layer : Layer
  allow : List Layer
deriving DecidableEq, Repr, Inhabited

structure ArchitectureModel where
  /-- Class patterns pinned to a layer ahead of keywords. -/
  mappings : List (Layer × List String) := []
  /-- Keywords in place of the built-in ones of a layer. -/
  keywords : List (Layer × Keywords) := []
  /-- Rules in place of the built-in ones, if there are any. -/
  rules : List LayerRule := []
deriving DecidableEq, Repr, Inhabited

def Keywords.builtIn (l : Layer) : Keywords :=
  if l = .presentation then
    ⟨["presentation", "controller", "view", "ui"], ["controller", "view", "frame", "panel"]⟩
  else if l = .data then
    ⟨["persistence", "repository", "dao", "data"], ["repository", "dao", "mapper", "query"]⟩
  else if l = .domain then
    ⟨["service", "business", "logic", "domain"], ["service", "manager", "processor", "handler"]⟩
  else ⟨[], []⟩

/-- Lower-case words without blanks around them, empty ones left out. -/
def lowerWords (words : List String) : List String :=
  (words.map fun w => Text.lower (Text.trim w)).filter (· != "")

/-- Places classes into layers. -/
structure Classifier where
  mappings : List (Layer × List Pattern)
  keywords : List (Layer × Keywords)
deriving DecidableEq, Repr, Inhabited

namespace Classifier

def compileMapping [GlobLibrary] (m : Layer × List String) : Except Fault (Layer × List Pattern) :=
  match Pattern.compileAll (m.2.map classPattern) with
  | .ok ps => .ok (m.1, ps)
  | .error e => .error (e.fault.label ("layer " ++ m.1.name))

def ofModel [GlobLibrary] (m : ArchitectureModel) : Except Fault Classifier := do
  return {
    mappings := ← m.mappings.mapM compileMapping
    keywords := m.keywords.map fun (l, kw) => (l, ⟨lowerWords kw.packages, lowerWords kw.classes⟩) }

def keywordsOf (c : Classifier) (l : Layer) : Keywords :=
  (c.keywords.lookup l).getD (Keywords.builtIn l)

def mentions (s : String) (words : List String) : Bool :=
  s != "" && words.any fun w => w != "" && Text.contains s w

/-- The length of the longest pattern that covers the name; 0 if none does. -/
def score [GlobLibrary] (ps : List Pattern) (name : String) : Nat :=
  ((ps.filter (·.covers name)).map (·.specificity)).foldl max 0

/-- The better of two mapped layers: the higher score, then the smaller name. -/
def better (a b : Layer × Nat) : Layer × Nat :=
  if b.2 < a.2 || (a.2 == b.2 && a.1.name ≤ b.1.name) then a else b

def mapped? [GlobLibrary] (c : Classifier) (name : String) : Option Layer :=
  match (c.mappings.map fun (l, ps) => (l, score ps name)).filter (0 < ·.2) with
  | [] => none
  | first :: rest => some (rest.foldl better first).1

def classify [GlobLibrary] (c : Classifier) (name : String) : Layer :=
  match c.mapped? name with
  | some l => l
  | none =>
    let package := Text.lower (Name.package name)
    let simple := Text.lower (Name.simple name)
    (Layer.byKeyword.find? fun l =>
      mentions package (c.keywordsOf l).packages || mentions simple (c.keywordsOf l).classes).getD .unknown

end Classifier

end JvmLint
