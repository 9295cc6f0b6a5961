import JvmLint.Report.Basic

/-!
# Markdown reports

Tables of totals, findings and load failures. Long tables can be folded.
-/

namespace JvmLint.Markdown

/-- A text for a table cell: bars are escaped and line breaks become blanks. -/
def cell (s : String) : String := Text.swap (Text.replace s '|' "\\|") '\n' ' '

def row (place text : String) : String := "| " ++ "\x60" ++ place ++ "\x60" ++ " | " ++ cell text ++ " |\n"

def orElse (value fallback : String) : String := if Text.trim value = "" then fallback else value

def totals (r : Report) : String :=
  "## Executive Summary\n| Metric | Value |\n| --- | --- |\n" ++
    "| Classes Analyzed | " ++ toString r.classes ++ " |\n" ++
    "| Checks Run | " ++ toString r.checks.length ++ " |\n" ++
    "| Findings | " ++ toString r.findings.length ++ " |\n" ++
    "| Load Failures | " ++ toString r.loadFailures.length ++ " |\n\n"

def countTable (counts : List CheckCount) : String :=
  if counts.isEmpty then ""
  else "| Check | Category | Findings |\n| --- | --- | --- |\n" ++
    String.join (counts.map fun c => "| " ++ c.name ++ " | " ++ c.category.name ++ " | " ++ toString c.count ++ " |\n") ++ "\n"

def summarySection (r : Report) : String := totals r ++ countTable (checkCounts r.findings)

def summary (r : Report) : String := Text.trimEnd (summarySection r) (· == '\n')

/-- A table, folded under a caption if it is long. -/
def table (collapsible : Bool) (caption heads : String) (rows : List String) : String :=
  let body := "| " ++ heads ++ " |\n| --- | --- |\n" ++ String.join rows
  if collapsible && 10 < rows.length then
    "<details>\n<summary>" ++ caption ++ "</summary>\n\n" ++ body ++ "\n</details>\n" ++ "\n"
  else body ++ "\n"

def checkSection (collapsible : Bool) (name : String) (fs : List Finding) : String :=
  "### " ++ name ++ " (" ++ ((fs.head?.map (·.category.name)).getD "") ++ ")\n" ++
    table collapsible (toString fs.length ++ " findings") "Location | Message" (fs.map fun f => row f.location f.message)

def findingsSection (collapsible : Bool) (fs : List Finding) : String :=
  "## Findings\n" ++
    if fs.isEmpty then "No findings.\n\n"
    else String.join ((dedup (fs.map (·.checkName))).map fun n =>
      checkSection collapsible n (fs.filter (·.checkName == n)))

def failuresSection (collapsible : Bool) (fs : List LoadFailure) : String :=
  if fs.isEmpty then ""
  else "## Load Failures\n" ++
    table collapsible "Load failure details" "Input | Error" (fs.map fun f => row f.path f.error)

def render (collapsible : Bool) (r : Report) : String :=
  "---\ntitle: Class Analysis Report\nproject: " ++ orElse r.project "unknown" ++
    "\ngenerated_at: " ++ r.generatedAt.utc.secondsText ++ "\nversion: " ++ orElse r.version "unknown" ++ "\n---\n\n" ++
    "# Analysis Report\n\n" ++ summarySection r ++ findingsSection collapsible r.findings ++
    failuresSection collapsible r.loadFailures

end JvmLint.Markdown
