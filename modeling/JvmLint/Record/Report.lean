import JvmLint.Check.Basic
import JvmLint.History.Trend
import JvmLint.Input.Discover
import JvmLint.Record.Basic
import JvmLint.Report.Format

/-!
# Findings, reports and runs as records
-/

namespace JvmLint

instance : ToRecord Category := ⟨fun c => record c.name⟩
instance : OfRecord Category := ⟨fun t => ⟨ofRecord t⟩⟩

instance : ToRecord Timestamp := ⟨fun t => record t.utc.text⟩
instance : OfRecord Timestamp := ⟨fun t => (Timestamp.parse? (ofRecord t)).getD .zero⟩

instance : ToRecord Finding := ⟨fun f => .table
  [entry "checkName" f.checkName, entry "category" f.category, entry "location" f.location, entry "message" f.message]⟩

instance : OfRecord Finding := ⟨fun t =>
  { checkName := t.part "checkName", category := t.part "category", location := t.part "location"
    message := t.part "message" }⟩

instance : ToRecord LoadFailure := ⟨fun f => .table [entry "path" f.path, entry "error" f.error]⟩
instance : OfRecord LoadFailure := ⟨fun t => { path := t.part "path", error := t.part "error" }⟩

instance : ToRecord CheckInfo := ⟨fun i => .table
  [entry "name" i.name, entry "category" i.category, entry "description" i.description]⟩

instance : OfRecord CheckInfo := ⟨fun t =>
  { name := t.part "name", category := t.part "category", description := t.part "description" }⟩

instance : ToRecord CheckCount := ⟨fun c => .table
  [entry "check_name" c.name, entry "category" c.category, entry "count" c.count]⟩

instance : ToRecord Input := ⟨fun i => .table [entry "path" i.path, entry "kind" i.kind.text]⟩

instance : OfRecord ReportStyle := ⟨fun t => { color := t.part "color", collapsible := t.part "collapsible" }⟩

instance : OfRecord Report := ⟨fun t =>
  { project := t.part "project", version := t.part "version", generatedAt := t.part "generated_at"
    classes := t.part "classes", checks := t.part "checks", findings := t.part "findings"
    loadFailures := t.part "load_failures", duration := (t.part "duration_ns" : Int), rules := t.part "rules" }⟩

instance : ToRecord Run := ⟨fun r => .table
  [entry "id" r.id, entry "project" r.project, entry "timestamp" r.timestamp, entry "classes" r.classes,
    entry "finding_count" r.findingCount, entry "load_failures" r.loadFailures, entry "duration_ns" (r.duration : Int),
    entry "checks" r.checks, entry "findings" r.findings]⟩

instance : OfRecord Run := ⟨fun t =>
  { id := t.part "id", project := t.part "project", timestamp := t.part "timestamp", classes := t.part "classes"
    findingCount := t.part "finding_count", loadFailures := t.part "load_failures"
    duration := (t.part "duration_ns" : Int), checks := t.part "checks", findings := t.part "findings" }⟩

instance : ToRecord TrendPoint := ⟨fun p => .table
  [entry "run_id" p.run.id, entry "timestamp" p.run.timestamp, entry "classes" p.run.classes,
    entry "findings" p.run.findingCount, entry "delta" p.delta, entry "per_class_bits" p.perClass]⟩

instance : ToRecord Trend := ⟨fun t => .table
  [entry "project" t.project, entry "run_count" t.points.length, entry "points" t.points]⟩

end JvmLint
