import JvmLint.Files.Replace
import JvmLint.Report.Format
import JvmLint.Report.Markers

/-!
# Reports in files

A report replaces its file at once, so that a report that fails leaves the old file as it was.
-/

namespace JvmLint.Files

/-- Writes a report to a file, without color. -/
def writeReport (f : Files) (path : String) (format : ReportFormat) (style : ReportStyle) (r : Report) : Except Fault Files := do
  let text ← r.render format { style with color := false }
  let f ← (f.mkdirAll (Path.dir path)).mapError fun e => e.fault.label ("create report directory for " ++ Text.quote path)
  f.replace path text

def injectSummary (f : Files) (path marker : String) (r : Report) : Except Fault Files := do
  let text ← (f.readText path).mapError fun e => e.fault.label ("read markdown file " ++ Text.quote path)
  f.replace path (← (Markers.replace text marker (Markdown.summary r)).mapError (·.fault))

end JvmLint.Files
