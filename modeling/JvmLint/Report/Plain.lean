import JvmLint.Report.Basic
import JvmLint.Time.Duration

/-!
# Plain text reports

One line a finding, then totals and load failures; in colour for terminals.
-/

namespace JvmLint.Plain

def styled (style s : String) : String := "\x1b[" ++ style ++ "m" ++ s ++ "\x1b[0m"

def padRight (width : Nat) (s : String) : String := s ++ String.ofList (List.replicate (width - s.length) ' ')

/-- Styles a text line by line. A tab takes four blanks, and the lines get the same width. -/
def styledLines (style s : String) : String :=
  let expanded := Text.replace s '\t' "    "
  let lines := (Text.splitOn expanded '\n').zipIdx
  let last := lines.length - 1
  let lines := lines.map fun (l, i) => if i = last then l else (Text.dropEnd? l "\r").getD l
  let width := (lines.map String.length).foldl max 0
  "\n".intercalate (lines.map fun l => styled style l ++ String.ofList (List.replicate (width - l.length) ' '))

/-- A heading: every character is underlined on its own. -/
def heading (color : Bool) (s : String) : String :=
  if color then
    String.join (s.toList.map fun c =>
      if Text.isBlank c then styled "4" (String.singleton c) else styled "1;4;4" (String.singleton c))
  else s

/-- The style of a category's name, if it has one. -/
def categoryStyle? (c : Category) : Option String :=
  [(Category.principle, "1;38;5;203"), (Category.pattern, "1;38;5;214"), (Category.style, "1;38;5;39")].lookup c

def findingLine (color : Bool) (f : Finding) : String :=
  let category := "[" ++ Text.upper f.category.name ++ "]"
  let category := match color, categoryStyle? f.category with
    | true, some style => styled style category
    | _, _ => category
  let location := if color then styledLines "38;5;245" f.location else f.location
  category ++ " " ++ f.checkName ++ " at " ++ location ++ ": " ++ f.message ++ "\n"

def summary (color : Bool) (r : Report) : String :=
  heading color "Summary" ++ "\n" ++
    "  classes analyzed: " ++ toString r.classes ++ "\n" ++
    "  checks run:       " ++ toString r.checks.length ++ "\n" ++
    "  findings:         " ++ toString r.findings.length ++ "\n" ++
    (if 0 < r.duration then "  duration:         " ++ Duration.text (Duration.roundMillis r.duration) ++ "\n" else "") ++
    String.join ((checkCounts r.findings).map fun c => "  " ++ padRight 24 c.name ++ " " ++ toString c.count ++ "\n")

def failures (color : Bool) (fs : List LoadFailure) : String :=
  if fs.isEmpty then ""
  else
    "\n" ++ heading color ("Load failures (" ++ toString fs.length ++ ")") ++ "\n" ++
      String.join (fs.map fun f =>
        let line := "  " ++ f.path ++ ": " ++ f.error
        (if color then styledLines "38;5;196" line else line) ++ "\n")

def render (color : Bool) (r : Report) : String :=
  String.join (r.findings.map (findingLine color)) ++ (if r.findings.isEmpty then "" else "\n") ++
    summary color r ++ failures color r.loadFailures

end JvmLint.Plain
