import JvmLint.Cli.Flag
import JvmLint.Text.Letters

/-!
# Commands

The commands of the program, their flags, and which of them a command line calls.
-/

namespace JvmLint

inductive Command where
  | top | run | watch | checks | history | version | help | completion
  /-- Asked by a shell for what may come next. -/
  | complete
deriving DecidableEq, Repr, Inhabited

namespace Command

def programName : String := "classlint"

def name : Command → String
  | top => programName
  | run => "run"
  | watch => "watch"
  | checks => "checks"
  | history => "history"
  | version => "version"
  | help => "help"
  | completion => "completion"
  | complete => "__complete"

def all : List Command := [run, watch, checks, history, version, help, completion, complete]

def suggested : List Command := [run, watch, checks, history, version, completion]

def path (c : Command) : String := if c = top then programName else programName ++ " " ++ c.name

def summary : Command → String
  | top => "classlint analyzes .class files, class directories and jars for design-principle and pattern issues."
  | run => "Analyze class files, class directories and jars"
  | watch => "Re-analyze whenever class files or jars change"
  | checks => "List the available checks"
  | history => "List saved runs and per-check finding counts"
  | version => "Print version information"
  | help => "Help about any command"
  | completion => "Generate the autocompletion script for the specified shell"
  | complete => "Request shell completion choices for the specified command-line"

def sharedFlags : List Flag := [
  { name := "config", short := some 'c', kind := .text, usage := "Path to config file" },
  { name := "verbose", short := some 'v', kind := .switch, usage := "Enable verbose logging" }]

def analysisFlags : List Flag := [
  { name := "checks", kind := .list, usage := "Check names or globs to run (default: all)" },
  { name := "exclude-checks", kind := .list, usage := "Check name globs to skip" },
  { name := "classpath", kind := .list, usage := "Directories and jars used only to resolve references" },
  { name := "workers", kind := .number, usage := "Parallel analysis workers (default: number of CPUs)" },
  { name := "format", short := some 'f', kind := .text, usage := "Report format: text, markdown, json, tsv, sarif" },
  { name := "output", short := some 'o', kind := .text, usage := "Report file (\"-\" for stdout)" },
  { name := "no-color", kind := .switch, usage := "Disable styled text output" },
  { name := "ui", kind := .switch, usage := "Browse findings in the terminal UI" },
  { name := "save", kind := .switch, usage := "Record the run in the history database" }]

def ownFlags : Command → List Flag
  | run => analysisFlags ++
      [{ name := "fail-on-findings", kind := .switch, usage := "Exit with status 3 when any finding is reported" }]
  | watch => analysisFlags
  | checks => [
      { name := "long", short := some 'l', kind := .switch, usage := "Include check descriptions" },
      { name := "category", kind := .text, usage := "Only list checks in this category (pattern, principle, style)" }]
  | history => [
      { name := "limit", short := some 'n', kind := .number, usage := "Number of runs to list (0 for all)" },
      { name := "run", kind := .text, usage := "Show a single run by id" },
      { name := "tsv", kind := .text, usage := "Write the trend report as TSV to this path" },
      { name := "json", kind := .text, usage := "Write the trend report as JSON to this path" }]
  | _ => []

def flags (c : Command) : List Flag := c.ownFlags ++ sharedFlags

def helpFlag (c : Command) : Flag := { name := "help", short := some 'h', kind := .switch, usage := "help for " ++ c.name }

/-- Whether a command may be given arguments that are no flags. -/
def takesArguments (c : Command) : Bool := c = run || c = watch || c = help

def exclusive : Command → List (List String)
  | history => [["run", "json"], ["run", "tsv"]]
  | _ => []

inductive Defect where
  | flag (d : FlagDefect)
  | unknownCommand (word : String) (at_ : Command) (meant : List Command)
  | exclusiveFlags (group set : List String)
deriving DecidableEq, Repr, Inhabited

def Defect.message : Defect → String
  | flag d => d.message
  | unknownCommand word c meant =>
    "unknown command " ++ Text.quote word ++ " for " ++ Text.quote c.path ++
      if meant.isEmpty then ""
      else "\n\nDid you mean this?\n" ++ String.join (meant.map fun m => "\t" ++ m.name ++ "\n")
  | exclusiveFlags group set =>
    "if any flags in the group [" ++ " ".intercalate group ++ "] are set none of the others can be; [" ++
      " ".intercalate set ++ "] were all set"

def nextRow (c : UInt8) (row : List Nat) (t : List UInt8) : List Nat :=
  let rec go (left : Nat) : List Nat → List UInt8 → List Nat
    | diagonal :: above :: row, d :: t =>
      let here := if c = d then diagonal else min (min above left) diagonal + 1
      here :: go here (above :: row) t
    | _, _ => []
  let first := row.headD 0 + 1
  first :: go first row t

def distance (s t : String) : Nat :=
  let bytes := t.toUTF8.toList
  (s.toUTF8.toList.foldl (fun row c => nextRow c row bytes) (List.range (bytes.length + 1))).getLastD 0

def meantBy (word : String) : List Command :=
  let word := Text.lower word
  suggested.filter fun c => distance word c.name ≤ 2 || Text.startsWith c.name word

def find (args : List String) : Except Defect (Command × List String) :=
  match Flag.words sharedFlags args with
  | [] => .ok (top, args)
  | word :: _ =>
    match all.find? (·.name == word) with
    | some c => .ok (c, Flag.withoutWord sharedFlags word args)
    | none => .error (.unknownCommand word top (meantBy word))

def read (c : Command) (args : List String) : Except Defect Arguments := (Flag.read (c.helpFlag :: c.flags) args).mapError .flag

/-- Whether arguments can be used: there are none where none are taken, and no two flags that exclude each
other. -/
def check (c : Command) (a : Arguments) : Except Defect Unit :=
  match a.rest with
  | word :: _ => if c.takesArguments then groups else .error (.unknownCommand word c [])
  | [] => groups
where
  groups : Except Defect Unit :=
    c.exclusive.forM fun group =>
      let set := (group.filter a.isSet).mergeSort fun x y => x ≤ y
      if 1 < set.length then .error (.exclusiveFlags group set) else .ok ()

end Command

end JvmLint
