import JvmLint.Cli.Command
import JvmLint.Report.Format

/-!
# Completion

What a shell may offer for the last word of a command line that is being typed.
-/

namespace JvmLint.Command

def choices (c : Command) (f : Flag) : Option (List String) :=
  if (c = run || c = watch) && f.name = "format" then some (ReportFormat.all.map (·.name))
  else if c = checks && f.name = "category" then some ["pattern", "principle", "style"]
  else none

def flagCalled (c : Command) (called : String) : Option Flag :=
  (Flag.named (c.helpFlag :: c.flags) called) <|>
    match called.toList with
    | [letter] => Flag.lettered (c.helpFlag :: c.flags) letter
    | _ => none

def calledBy (s : List Char) : String :=
  match s with
  | '-' :: '-' :: name => String.ofList name
  | _ => String.ofList (s.getLast?.toList)

/-- The flag whose value the last word is. -/
def completedFlag (c : Command) (before : List String) (last : String) : Option Flag :=
  let cs := last.toList
  match cs with
  | '-' :: _ => if cs.contains '=' then c.flagCalled (calledBy (cs.takeWhile (· != '='))) else none
  | _ =>
    match before.getLast? with
    | some s =>
      if Text.startsWith s "-" && 1 < s.length && !Text.contains s "=" then
        (c.flagCalled (calledBy s.toList)).filter (·.kind != .switch)
      else none
    | none => none

/-- What may stand for the last word; none if that can be any file. -/
def completions (args : List String) : Option (List String) :=
  match find args.dropLast with
  | .ok (c, before) => (c.completedFlag before (args.getLastD "")).bind c.choices
  | .error _ => none

end JvmLint.Command
