import JvmLint.Proofs.Dedup
import JvmLint.Proofs.PathLaws
import JvmLint.Report.Markdown

/-!
# Rows of tables

A bar ends a cell unless a backslash stands before it. A row is read as one row of two cells if it is one
line with three such bars. The text of a row is escaped and adds neither a bar nor a line feed, but the place
is written as it is: a row is in shape only if its place is plain (`inShape_row_iff`).
-/

namespace JvmLint.Markdown

/-! ## Bars -/

/-- The bars of a text that have no backslash before them; `before` is what stands before the text. -/
def bareBarsAfter (before : Char) : List Char → Nat
  | [] => 0
  | c :: s => (if c = '|' && before != '\\' then 1 else 0) + bareBarsAfter c s

def bareBars (s : String) : Nat := bareBarsAfter ' ' s.toList

theorem bareBarsAfter_append (before : Char) (a b : List Char) :
    bareBarsAfter before (a ++ b) = bareBarsAfter before a + bareBarsAfter (a.getLastD before) b := by
  induction a generalizing before with
  | nil => simp [bareBarsAfter]
  | cons c a ih => rw [List.cons_append, bareBarsAfter, bareBarsAfter, ih, List.getLastD_cons, Nat.add_assoc]

theorem bareBarsAfter_eq {before : Char} (h : before ≠ '\\') (s : String) :
    bareBarsAfter before s.toList = bareBars s := by
  unfold bareBars
  cases s.toList with
  | nil => rfl
  | cons c cs => simp [bareBarsAfter, h]

def cellChar (c : Char) : List Char := if c = '|' then ['\\', '|'] else if c = '\n' then [' '] else [c]

theorem toList_cell (s : String) : (cell s).toList = s.toList.flatMap cellChar := by
  have hchar : ∀ c, (if c = '|' then ['\\', '|'] else [c]).map (fun d => if d = '\n' then ' ' else d) = cellChar c := by
    intro c
    unfold cellChar
    by_cases hbar : c = '|'
    · simp [hbar]
    · by_cases hend : c = '\n' <;> simp [hbar, hend]
  simp only [cell, Text.swap, Text.mapChars, Text.replace, Text.replaceChar, String.toList_ofList, List.map_flatMap]
  exact congrArg (List.flatMap · s.toList) (funext hchar)

theorem bareBarsAfter_cell (before : Char) (s : List Char) : bareBarsAfter before (s.flatMap cellChar) = 0 := by
  induction s generalizing before with
  | nil => rfl
  | cons c s ih =>
    rw [List.flatMap_cons, bareBarsAfter_append, ih]
    unfold cellChar
    by_cases hbar : c = '|'
    · simp [hbar, bareBarsAfter]
    · by_cases hend : c = '\n' <;> simp [hbar, hend, bareBarsAfter]

/-! ## Rows -/

def OneLine (s : String) : Prop := '\n' ∉ s.toList ∧ '\r' ∉ s.toList

/-- One line, with the bars that two cells need. -/
def InShape (s : String) : Prop := ∃ line, s = line ++ "\n" ∧ OneLine line ∧ bareBars line = 3

def Plain (place : String) : Prop := OneLine place ∧ bareBars place = 0

theorem oneLine_append {s t : String} : OneLine (s ++ t) ↔ OneLine s ∧ OneLine t := by
  simp only [OneLine, String.toList_append, List.mem_append, not_or]
  exact and_and_and_comm

theorem oneLine_cell {s : String} : OneLine (cell s) ↔ '\r' ∉ s.toList := by
  have hchar : ∀ c, '\n' ∉ cellChar c ∧ ('\r' ∈ cellChar c ↔ c = '\r') := by
    intro c
    unfold cellChar
    by_cases hbar : c = '|'
    · simp [hbar]
    · by_cases hend : c = '\n'
      · simp [hend]
      · simp [hbar, hend, eq_comm]
  simp only [OneLine, toList_cell, List.mem_flatMap, hchar, and_false, exists_false, not_false_eq_true, true_and,
    exists_eq_right]

def rowLine (place text : String) : String := "| " ++ "\x60" ++ place ++ "\x60" ++ " | " ++ cell text ++ " |"

variable {place text doc : String}

theorem row_eq (place text : String) : row place text = rowLine place text ++ "\n" := by
  have hend : " |\n" = " |" ++ "\n" := by decide
  rw [row, rowLine, hend, ← String.append_assoc]

theorem bareBars_rowLine (place text : String) : bareBars (rowLine place text) = 3 + bareBars place := by
  have hpieces : bareBars (rowLine place text) = 1 + bareBarsAfter '\x60' place.toList + 1 + 1 := by
    simp only [bareBars, rowLine, String.toList_append, bareBarsAfter_append, toList_cell, bareBarsAfter_cell]
    simp [bareBarsAfter]
  rw [hpieces, bareBarsAfter_eq (by decide)]
  omega

theorem oneLine_rowLine : OneLine (rowLine place text) ↔ OneLine place ∧ '\r' ∉ text.toList := by
  have hmarks : OneLine "| " ∧ OneLine "\x60" ∧ OneLine " | " ∧ OneLine " |" := by simp [OneLine]
  simp only [rowLine, oneLine_append, oneLine_cell, hmarks, true_and, and_true]

theorem inShape_row_iff : InShape (row place text) ↔ Plain place ∧ '\r' ∉ text.toList := by
  have hline : InShape (row place text) ↔ OneLine (rowLine place text) ∧ bareBars (rowLine place text) = 3 := by
    refine ⟨?_, fun h => ⟨_, row_eq place text, h⟩⟩
    intro ⟨line, hrow, hline⟩
    rw [row_eq] at hrow
    have hsame : rowLine place text = line := by
      apply String.toList_injective
      simpa using congrArg String.toList hrow
    exact hsame ▸ hline
  rw [hline, oneLine_rowLine, bareBars_rowLine, Plain]
  constructor
  · intro ⟨⟨hplace, htext⟩, hbars⟩
    exact ⟨⟨hplace, by omega⟩, htext⟩
  · intro ⟨⟨hplace, hbars⟩, htext⟩
    exact ⟨⟨hplace, htext⟩, by omega⟩

/-! ## Rows in the report -/

def BeginsLine (s doc : String) : Prop := ∃ before after, doc = before ++ "\n" ++ s ++ after

variable {s t : String}

theorem BeginsLine.append_right (h : BeginsLine s doc) (t : String) : BeginsLine s (doc ++ t) := by
  obtain ⟨before, after, rfl⟩ := h
  exact ⟨before, after ++ t, String.append_assoc⟩

theorem BeginsLine.append_left (h : BeginsLine s doc) (t : String) : BeginsLine s (t ++ doc) := by
  obtain ⟨before, after, rfl⟩ := h
  exact ⟨t ++ before, after, by simp only [String.append_assoc]⟩

theorem BeginsLine.join (h : BeginsLine s t) {l : List String} (ht : t ∈ l) : BeginsLine s (String.join l) := by
  induction l with
  | nil => cases ht
  | cons u l ih =>
    rw [String.join_cons]
    rcases List.mem_cons.1 ht with rfl | ht
    · exact h.append_right _
    · exact (ih ht).append_left _

theorem beginsLine_join {rows : List String} (hrows : ∀ t ∈ rows, ∃ line, t = line ++ "\n") (hs : s ∈ rows)
    (before : String) : BeginsLine s (before ++ "\n" ++ String.join rows) := by
  induction rows generalizing before with
  | nil => cases hs
  | cons t rows ih =>
    rw [String.join_cons]
    by_cases hfirst : s = t
    · subst hfirst
      exact ⟨before, String.join rows, String.append_assoc.symm⟩
    · obtain ⟨line, rfl⟩ := hrows t (by simp)
      have hrest := ih (fun r hr => hrows r (by simp [hr])) (by simpa [hfirst] using hs) (before ++ "\n" ++ line)
      simpa only [String.append_assoc] using hrest

theorem beginsLine_table {rows : List String} (hrows : ∀ t ∈ rows, ∃ line, t = line ++ "\n") (hs : s ∈ rows)
    (collapsible : Bool) (caption heads : String) : BeginsLine s (table collapsible caption heads rows) := by
  have hbody : BeginsLine s ("| " ++ heads ++ " |\n| --- | --- |\n" ++ String.join rows) := by
    have hend : " |\n| --- | --- |\n" = " |\n| --- | --- |" ++ "\n" := by decide
    rw [hend, ← String.append_assoc]
    exact beginsLine_join hrows hs _
  unfold table
  split
  · exact ((hbody.append_left _).append_right _).append_right _
  · exact hbody.append_right _

theorem beginsLine_finding {f : Finding} {fs : List Finding} (hf : f ∈ fs) (collapsible : Bool) :
    BeginsLine (row f.location f.message) (findingsSection collapsible fs) := by
  have hrows : ∀ t ∈ (fs.filter (·.checkName == f.checkName)).map fun g => row g.location g.message,
      ∃ line, t = line ++ "\n" := by
    intro t ht
    obtain ⟨g, -, rfl⟩ := List.mem_map.1 ht
    exact ⟨_, row_eq _ _⟩
  have hown : BeginsLine (row f.location f.message)
      (checkSection collapsible f.checkName (fs.filter (·.checkName == f.checkName))) := by
    unfold checkSection
    apply BeginsLine.append_left
    apply beginsLine_table hrows
    apply List.mem_map_of_mem
    simpa using hf
  have hne : fs.isEmpty = false := by simpa using List.ne_nil_of_mem hf
  rw [findingsSection, hne]
  apply BeginsLine.append_left
  apply hown.join
  apply List.mem_map_of_mem
  exact mem_dedup.2 (List.mem_map_of_mem hf)

theorem beginsLine_failure {f : LoadFailure} {fs : List LoadFailure} (hf : f ∈ fs) (collapsible : Bool) :
    BeginsLine (row f.path f.error) (failuresSection collapsible fs) := by
  have hne : fs.isEmpty = false := by simpa using List.ne_nil_of_mem hf
  rw [failuresSection, hne]
  apply BeginsLine.append_left
  apply beginsLine_table ?_ (List.mem_map_of_mem hf)
  intro t ht
  obtain ⟨g, -, rfl⟩ := List.mem_map.1 ht
  exact ⟨_, row_eq _ _⟩

/-- What the rows tell: where a finding is and its message, which input failed to load and the error. -/
def entries (r : Report) : List (String × String) :=
  r.findings.map (fun f => (f.location, f.message)) ++ r.loadFailures.map fun f => (f.path, f.error)

theorem beginsLine_render {r : Report} (h : (place, text) ∈ entries r) (collapsible : Bool) :
    BeginsLine (row place text) (render collapsible r) := by
  unfold render
  rcases List.mem_append.1 h with h | h
  · obtain ⟨f, hf, hentry⟩ := List.mem_map.1 h
    cases hentry
    exact ((beginsLine_finding hf collapsible).append_left _).append_right _
  · obtain ⟨f, hf, hentry⟩ := List.mem_map.1 h
    cases hentry
    exact (beginsLine_failure hf collapsible).append_left _

theorem mem_lines_of_beginsLine {line : String} (h : BeginsLine (line ++ "\n") doc) (hline : '\n' ∉ line.toList) :
    line ∈ Text.splitOn doc '\n' := by
  obtain ⟨before, after, rfl⟩ := h
  have hcut : before ++ "\n" ++ (line ++ "\n") ++ after = before ++ "\n" ++ (line ++ "\n" ++ after) :=
    String.append_assoc
  rw [hcut, Text.splitOn_append_mark rfl, Text.splitOn_append_mark rfl, Text.splitOn_eq_singleton hline]
  simp

/-- Each finding and each load failure has its row in the report, at the beginning of a line. The row is in shape
if and only if its place is plain and its text has no carriage return, and then it is a line of the report. -/
theorem row_in_shape_iff (collapsible : Bool) (r : Report) (h : (place, text) ∈ entries r) :
    BeginsLine (row place text) (render collapsible r) ∧
    (InShape (row place text) ↔ Plain place ∧ '\r' ∉ text.toList) ∧
    (InShape (row place text) →
      ∃ line ∈ Text.splitOn (render collapsible r) '\n', row place text = line ++ "\n" ∧ bareBars line = 3) := by
  have hbegins := beginsLine_render h collapsible
  refine ⟨hbegins, inShape_row_iff, ?_⟩
  intro ⟨line, hrow, hone, hbars⟩
  rw [hrow] at hbegins
  exact ⟨line, mem_lines_of_beginsLine hbegins hone.1, hrow, hbars⟩

def barredText : Report :=
  { findings := [⟨"UPM", .style, "demo.A.run:3", "parameter 2 | qty\nis unused"⟩]
    loadFailures := [⟨"lib/a\\|b.jar", "not a zip | at 0"⟩] }

theorem row_in_shape_iff_barredText :
    ("demo.A.run:3", "parameter 2 | qty\nis unused") ∈ entries barredText ∧
    ∃ line ∈ Text.splitOn (render true barredText) '\n',
      row "demo.A.run:3" "parameter 2 | qty\nis unused" = line ++ "\n" ∧ bareBars line = 3 := by
  have hentry : ("demo.A.run:3", "parameter 2 | qty\nis unused") ∈ entries barredText := by simp [entries, barredText]
  have hplain : Plain "demo.A.run:3" := ⟨by simp [OneLine], by decide⟩
  obtain ⟨-, hshape, hline⟩ := row_in_shape_iff true barredText hentry
  exact ⟨hentry, hline (hshape.2 ⟨hplain, by simp⟩)⟩

def barredPlace : Report :=
  { findings := [⟨"UPM", .style, "demo.A|B.run", "parameter 2 is unused"⟩]
    loadFailures := [⟨"lib/a\nb.jar", "not a zip"⟩] }

theorem barredPlace_out_of_shape :
    (BeginsLine (row "demo.A|B.run" "parameter 2 is unused") (render false barredPlace) ∧
      ¬ InShape (row "demo.A|B.run" "parameter 2 is unused")) ∧
    BeginsLine (row "lib/a\nb.jar" "not a zip") (render false barredPlace) ∧ ¬ InShape (row "lib/a\nb.jar" "not a zip") := by
  refine ⟨⟨?_, ?_⟩, ?_, ?_⟩
  · exact beginsLine_render (by simp [entries, barredPlace]) false
  · rw [inShape_row_iff]
    intro h
    exact absurd h.1.2 (by decide)
  · exact beginsLine_render (by simp [entries, barredPlace]) false
  · rw [inShape_row_iff]
    intro h
    exact h.1.1.1 (by simp)

end JvmLint.Markdown
