import JvmLint.App.Run
import JvmLint.Report.File

/-!
# Reports of runs

A report goes to standard output, to a file, or into a marked block of a document.
-/

namespace JvmLint

def programVersion : String := "dev"

/-- How to report. What is left blank is taken from the configuration. -/
structure ReportRequest where
  format : String := ""
  /-- A file, or a dash for standard output. -/
  output : String := ""
  color : Bool := false
deriving DecidableEq, Repr, Inhabited

inductive Delivery where
  | printed (text : String)
  | stored (path : String)
deriving DecidableEq, Repr, Inhabited

namespace Settings

def report (s : Settings) (now : Timestamp) (r : RunResult) : Report :=
  { project := s.projectKey, version := programVersion, generatedAt := now.utc, classes := r.analysis.classes
    checks := r.analysis.checks, findings := r.analysis.findings, loadFailures := r.loadFailures, duration := r.duration
    rules := s.registry.entries.filter fun e => r.analysis.checks.contains e.name }

/-- The file that a report goes to; empty for standard output. -/
def reportPath (s : Settings) (f : Files) (output : String) : String :=
  let out := Text.trim output
  if out = "" then s.paths.output else if out = "-" then "" else resolveOutput out f.workingDir

def storeReport (s : Settings) (f : Files) (path : String) (format : ReportFormat) (style : ReportStyle) (r : Report) :
    Except Fault Files :=
  let marker := s.config.output.injectMarker
  if marker != "" && format == .markdown && f.exists_ path then f.injectSummary path marker r
  else f.writeReport path format style r

end Settings

namespace App

def writeReport (a : App) (m : Machine) (req : ReportRequest) (r : RunResult) : Except Fault (Delivery × Machine) := do
  let s := a.settings
  let format ← ReportFormat.parse (if Text.trim req.format = "" then s.config.output.format else req.format)
  let path := s.reportPath m.files req.output
  let (now, m) := m.clock
  let report := s.report now r
  let style : ReportStyle := { color := req.color, collapsible := true }
  if path = "" then return (.printed (← report.render format style), m)
  else return (.stored path, { m with files := ← s.storeReport m.files path format style report })

end App

end JvmLint
