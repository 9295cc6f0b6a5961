import JvmLint.Report.Markdown
import JvmLint.Report.Plain
import JvmLint.Report.Sarif
import JvmLint.Report.Structured
import JvmLint.Report.Tsv

/-!
# Report formats
-/

namespace JvmLint

inductive ReportFormat where
  | text | markdown | json | tsv | sarif
deriving DecidableEq, Repr, Inhabited

namespace ReportFormat

def all : List ReportFormat := [text, markdown, json, tsv, sarif]

def name : ReportFormat → String
  | text => "text"
  | markdown => "markdown"
  | json => "json"
  | tsv => "tsv"
  | sarif => "sarif"

def extension : ReportFormat → String
  | text => ".txt"
  | markdown => ".md"
  | json => ".json"
  | tsv => ".tsv"
  | sarif => ".sarif"

def unknown (s : String) : Fault := .plain ("unknown report format " ++ Text.quote s)

def ofName (s : String) : Except Fault ReportFormat :=
  match all.find? (·.name == s) with
  | some f => .ok f
  | none => .error (unknown s)

/-- Reads a format's name, whatever its case and the blanks around it. Nothing means text. -/
def parse (s : String) : Except Fault ReportFormat :=
  let name := Text.lower (Text.trim s)
  if name = "" then .ok text
  else if name = "md" then .ok markdown
  else (ofName name).mapError fun _ => unknown s

end ReportFormat

structure ReportStyle where
  /-- Colours for a terminal. -/
  color : Bool := false
  /-- Folds long tables. -/
  collapsible : Bool := false
deriving DecidableEq, Repr, Inhabited

def Report.render (f : ReportFormat) (s : ReportStyle) (r : Report) : Except Fault String :=
  match f with
  | .text => .ok (Plain.render s.color r)
  | .markdown => .ok (Markdown.render s.collapsible r)
  | .json => Structured.render r
  | .tsv => .ok (Tsv.render r)
  | .sarif => .ok (Sarif.render r)

end JvmLint
