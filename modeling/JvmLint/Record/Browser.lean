import JvmLint.Browser
import JvmLint.Record.Report

/-!
# The browser as a record
-/

namespace JvmLint

instance {σ : Type} [ListWidget σ] : ToRecord (Browser σ) := ⟨fun b => .table
  [entry "mode" (if b.panel = .findings then "findings" else "checks"), entry "filter" b.filter, entry "show_trend" b.showTrend,
    entry "classes" b.classes, entry "failures" b.failures,
    entry "counts" (b.counts.map fun c => [record c.name, record c.category, record c.count]),
    entry "findings" (b.findingList.items.map fun i => [i.title, i.detail, i.title ++ i.detail]),
    entry "checks" (b.checkList.items.map fun i => [i.title, i.detail, i.check]), entry "title" b.heading, entry "help" b.help,
    entry "details" b.details, entry "overlay" b.overlay, entry "footer" b.footer]⟩

instance : OfRecord BrowserKey := ⟨fun t =>
  match (ofRecord t : String) with
  | "tab" => .tab
  | "esc" => .escape
  | "enter" => .enter
  | "up" => .up
  | "down" => .down
  | "ctrl+c" => .interrupt
  | other => .text other⟩

instance : OfRecord BrowserEvent := ⟨fun t =>
  match (t.part "do" : String), (t.part "error" : String) with
  | "result", "" => .result (t.part "classes") (t.part "findings") (t.part "failures" : List Toml).length (t.part "changed")
  | "result", e => .failure e (t.part "changed")
  | "resize", _ => .resize (t.part "w") (t.part "h")
  | _, _ => .key (t.part "key")⟩

end JvmLint
