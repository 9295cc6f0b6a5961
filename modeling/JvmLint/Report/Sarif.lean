import JvmLint.JsonDoc
import JvmLint.Report.Basic

/-!
# Static analysis logs

Reports in the interchange format for results of static analyses, version 2.1.0. There is one rule a
check; a place with a line number becomes a logical name and a region.
-/

namespace JvmLint.Sarif

def level (c : Category) : String :=
  if c = .principle then "warning" else if c = .pattern || c = .style then "note" else "none"

def word? (digits : List Char) : Option Nat :=
  let n := digits.foldl (fun n c => 10 * n + (c.toNat - 48)) 0
  if n < Nat.pow 2 63 then some n else none

/-- Where a finding is: a name, and a line if the text ends in a colon and a number. -/
structure Place where
  name : String
  line : Option Nat
deriving DecidableEq, Repr, Inhabited

def Place.ofLocation (location : String) : Place :=
  match Text.cutLast ':' location.toList with
  | some (name, digits) =>
    if digits.isEmpty || !digits.all Char.isDigit || name.contains '\n' then { name := location, line := none }
    else { name := String.ofList name, line := (word? digits).filter (0 < ·) }
  | none => { name := location, line := none }

def Place.document (p : Place) : JsonDoc :=
  let region := match p.line with
    | some n => [("physicalLocation", JsonDoc.object [("region", .object [("startLine", .int n)])])]
    | none => []
  .object (region ++ [("logicalLocations",
    .list [.object [("fullyQualifiedName", .text p.name), ("kind", .text "member")]])])

structure Rule where
  id : String
  description : String
  level : String
deriving DecidableEq, Repr, Inhabited

/-- Declares a rule. A rule declared before keeps its place and gets the new contents. -/
def declare (rules : List Rule) (r : Rule) : List Rule :=
  if rules.any (·.id == r.id) then rules.map fun q => if q.id = r.id then r else q else rules ++ [r]

def rulesOf (entries : List CheckInfo) : List Rule :=
  entries.foldl (fun rules e => declare rules
    { id := e.name, description := if e.description = "" then e.name else e.description, level := level e.category }) []

def Rule.document (r : Rule) : JsonDoc :=
  .object [("id", .text r.id), ("shortDescription", .object [("text", .text r.description)]),
    ("defaultConfiguration", .object [("level", .text r.level)])]

/-- The position of a finding's rule; the largest word stands for none. -/
def ruleIndex (rules : List Rule) (name : String) : Nat := (rules.findIdx? (·.id == name)).getD (Nat.pow 2 64 - 1)

def result (rules : List Rule) (f : Finding) : JsonDoc :=
  .object [("ruleId", .text f.checkName), ("ruleIndex", .int (ruleIndex rules f.checkName)),
    ("level", .text (level f.category)), ("message", .object [("text", .text f.message)]),
    ("locations", .list [(Place.ofLocation f.location).document])]

def document (r : Report) : JsonDoc :=
  let rules := rulesOf r.ruleEntries
  let driver := [("informationUri", JsonDoc.text "https://github.com/classlint/classlint"), ("name", .text "classlint"),
    ("rules", .list (rules.map Rule.document))] ++ JsonDoc.unlessEmpty "version" r.version
  .object [("version", .text "2.1.0"), ("$schema", .text "https://json.schemastore.org/sarif-2.1.0.json"),
    ("runs", .list [.object [("tool", .object [("driver", .object driver)]),
      ("results", .list (r.findings.map (result rules)))]])]

def render (r : Report) : String := (document r).print

end JvmLint.Sarif
