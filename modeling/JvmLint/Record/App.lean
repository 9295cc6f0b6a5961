import JvmLint.App.Past
import JvmLint.App.Report
import JvmLint.Record.Report

/-!
# Requests and results as records
-/

namespace JvmLint

instance : OfRecord RunRequest := ⟨fun t =>
  { paths := t.part "paths", classpath := t.part "classpath", includes := t.part "include", excludes := t.part "exclude"
    save := t.part "save" }⟩

instance : OfRecord ReportRequest := ⟨fun t => { format := t.part "format", output := t.part "output", color := t.part "color" }⟩

instance : ToRecord RunResult := ⟨fun r => .table
  [entry "findings" r.analysis.findings, entry "classes" r.analysis.classes, entry "checks" r.analysis.checks,
    entry "load_failures" r.loadFailures, entry "saved" r.runId.isSome,
    entry "resolver" (Toml.table [entry "hits" r.resolver.hits, entry "loads" r.resolver.loads, entry "absent" r.resolver.absent])]⟩

/-- Past runs without their ids and times, and how the findings went up and down. -/
instance : ToRecord Past := ⟨fun h => .table
  [entry "runs" (h.runs.map fun r => Toml.table [entry "project" r.project, entry "classes" r.classes,
      entry "finding_count" r.findingCount, entry "load_failures" r.loadFailures, entry "checks" r.checks]),
    entry "counts" h.counts, entry "trend" h.trend.isSome, entry "deltas" ((h.trend.map fun t => t.points.map (·.delta)).getD [])]⟩

end JvmLint
