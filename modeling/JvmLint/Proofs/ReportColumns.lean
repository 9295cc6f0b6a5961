import JvmLint.Proofs.PathLaws
import JvmLint.Report.Tsv
import Mathlib.Data.List.Forall2

/-!
# Reports read back from their columns

A field has no tab and no line end, so the tabs and line ends of a report are its own: cutting at them gives
the header, one line for each finding, and four columns in each line. A reader who does that gets the findings
back, with blanks where a field had a tab or a line end.
-/

namespace JvmLint.Tsv

/-! ## Fields -/

def isBreak (c : Char) : Bool := c = '\t' || c = '\r' || c = '\n'

/-- The second text is the first one with a blank for each tab, carriage return and line feed. -/
def Blanked (s t : String) : Prop := List.Forall₂ (fun c d => d = if isBreak c then ' ' else c) s.toList t.toList

def fields (f : Finding) : List String := [f.checkName, f.category.name, f.location, f.message]

def isClean (f : Finding) : Bool := (fields f).all fun s => s.toList.all (!isBreak ·)

theorem toList_field (s : String) : (field s).toList = s.toList.map fun c => if isBreak c then ' ' else c := by
  rw [field, Text.mapChars, String.toList_ofList]
  rfl

theorem isBreak_of_mem_field {s : String} {c : Char} (h : c ∈ (field s).toList) : isBreak c = false := by
  rw [toList_field] at h
  obtain ⟨d, -, rfl⟩ := List.mem_map.1 h
  by_cases hd : isBreak d = true
  · rw [if_pos hd]
    rfl
  · rw [if_neg hd]
    simpa using hd

theorem blanked_field (s : String) : Blanked s (field s) := by
  unfold Blanked
  rw [toList_field, List.forall₂_map_right_iff]
  exact List.forall₂_same.2 fun c _ => rfl

theorem field_eq_self {s : String} (h : ∀ c ∈ s.toList, isBreak c = false) : field s = s := by
  apply String.toList_injective
  rw [toList_field]
  refine (List.map_congr_left fun c hc => ?_).trans (List.map_id _)
  rw [h c hc]
  rfl

theorem map_field_fields {f : Finding} (h : isClean f) : (fields f).map field = fields f := by
  refine (List.map_congr_left fun s hs => ?_).trans (List.map_id _)
  apply field_eq_self
  intro c hc
  simpa using List.all_eq_true.1 (List.all_eq_true.1 h s hs) c hc

/-! ## Lines and columns -/

def line (f : Finding) : String := "\t".intercalate ((fields f).map field)

theorem row_eq (f : Finding) : row f = line f ++ "\n" := by
  simp [row, line, fields, String.append_assoc]

theorem newline_notMem_line (f : Finding) : '\n' ∉ (line f).toList := by
  have hfield : ∀ s, '\n' ∉ (field s).toList := fun s h => absurd (isBreak_of_mem_field h) (by decide)
  simp [line, fields, hfield]

theorem columns_line (f : Finding) : Text.splitOn (line f) '\t' = (fields f).map field := by
  apply Text.splitOn_intercalate_mark rfl
  · simp [fields]
  · intro s hs htab
    obtain ⟨t, -, rfl⟩ := List.mem_map.1 hs
    exact absurd (isBreak_of_mem_field htab) (by decide)

def header : String := "Check\tCategory\tLocation\tMessage"

theorem lines_render (r : Report) : Text.splitOn (render r) '\n' = header :: r.findings.map line ++ [""] := by
  have hrender : render r = String.join ((header :: r.findings.map line).map (· ++ "\n")) := by
    have hheader : header ++ "\n" = "Check\tCategory\tLocation\tMessage\n" := by decide
    have hrows : r.findings.map row = (r.findings.map line).map (· ++ "\n") := by
      rw [List.map_map]
      exact List.map_congr_left fun f _ => row_eq f
    unfold render
    rw [List.map_cons, String.join_cons, hheader, hrows]
  rw [hrender]
  apply Text.splitOn_join_mark rfl
  intro s hs
  rcases List.mem_cons.1 hs with rfl | hs
  · decide
  · obtain ⟨f, -, rfl⟩ := List.mem_map.1 hs
    exact newline_notMem_line f

/-! ## Reading -/

def finding? : List String → Option Finding
  | [checkName, category, location, message] => some { checkName, category := { name := category }, location, message }
  | _ => none

/-- The findings in the lines between the header and what follows the last line end. -/
def read? (report : String) : Option (List Finding) :=
  (Text.splitOn report '\n').tail.dropLast.mapM fun l => finding? (Text.splitOn l '\t')

theorem finding?_line {f : Finding} (h : isClean f) : finding? (Text.splitOn (line f) '\t') = some f := by
  rw [columns_line, map_field_fields h]
  rfl

theorem read?_render {r : Report} (h : ∀ f ∈ r.findings, isClean f) : read? (render r) = some r.findings := by
  rw [read?, lines_render, List.cons_append, List.tail_cons, List.dropLast_concat]
  generalize r.findings = fs at h
  induction fs with
  | nil => rfl
  | cons f fs ih =>
    rw [List.map_cons, List.mapM_cons, finding?_line (h f (by simp)), ih fun g hg => h g (by simp [hg])]
    rfl

/-- Whatever the findings are: cut at its line ends, a report is the header, one line for each finding in their
order, and nothing more; cut at its tabs, a line is the four fields of its finding, blanked; and findings whose
fields have nothing to blank are read back as they are. -/
theorem columns_of_render (r : Report) :
    ∃ lines : List String,
      Text.splitOn (render r) '\n' = "Check\tCategory\tLocation\tMessage" :: lines ++ [""] ∧
      List.Forall₂ (fun f l => List.Forall₂ Blanked (fields f) (Text.splitOn l '\t')) r.findings lines ∧
      ((∀ f ∈ r.findings, isClean f) → read? (render r) = some r.findings) := by
  refine ⟨r.findings.map line, lines_render r, ?_, read?_render⟩
  rw [List.forall₂_map_right_iff]
  apply List.forall₂_same.2
  intro f _
  rw [columns_line, List.forall₂_map_right_iff]
  exact List.forall₂_same.2 fun s _ => blanked_field s

def plainFindings : Report :=
  { findings := [⟨"IMC", .pattern, "demo.A|B.run:3", "says \"\\t\" and, so on"⟩, ⟨"", ⟨""⟩, "", ""⟩] }

theorem columns_of_render_plainFindings :
    (∀ f ∈ plainFindings.findings, isClean f) ∧ read? (render plainFindings) = some plainFindings.findings := by
  have hclean : ∀ f ∈ plainFindings.findings, isClean f := by decide
  obtain ⟨-, -, -, hread⟩ := columns_of_render plainFindings
  exact ⟨hclean, hread hclean⟩

end JvmLint.Tsv
