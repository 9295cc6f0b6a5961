import JvmLint.Path
import Mathlib.Data.List.Basic
import Mathlib.Data.List.Induction

/-!
# Laws of paths

A path is its pieces between slashes, taken up one after another. `Clean.after` takes them up from a
path that is clean already; what `clean`, `join` and `absolute` do to each other follows from its laws.
The last piece survives all of them when it is a name.
-/

namespace JvmLint

/-! ## Pieces -/

namespace Text

theorem notMem_of_mem_pieces {sep : Char} {s piece : List Char} (h : piece ∈ s.splitOn sep) : sep ∉ piece := by
  induction s generalizing piece with
  | nil => simp_all
  | cons c s ih =>
    rw [List.splitOn_cons_eq_if_modifyHead] at h
    by_cases hc : c = sep
    · rw [if_pos (beq_iff_eq.2 hc), List.mem_cons] at h
      rcases h with rfl | h
      · simp
      · exact ih h
    · rw [if_neg (mt beq_iff_eq.1 hc)] at h
      cases hs : s.splitOn sep with
      | nil => exact absurd hs (List.splitOn_ne_nil sep s)
      | cons first pieces =>
        rw [hs] at h ih
        rcases List.mem_cons.1 h with rfl | h
        · exact List.not_mem_cons_of_ne_of_not_mem (Ne.symm hc) (ih List.mem_cons_self)
        · exact ih (List.mem_cons_of_mem _ h)

theorem splitOn_ne_nil (s : String) (sep : Char) : splitOn s sep ≠ [] := by
  simp [splitOn]

theorem notMem_of_mem_splitOn {s piece : String} {sep : Char} (h : piece ∈ splitOn s sep) : sep ∉ piece.toList := by
  obtain ⟨cs, hcs, rfl⟩ := List.mem_map.1 h
  simpa using notMem_of_mem_pieces hcs

theorem splitOn_eq_singleton {s : String} {sep : Char} (h : sep ∉ s.toList) : splitOn s sep = [s] := by
  simp [splitOn, List.splitOn_eq_singleton h]

section
variable {sep : Char} {mark : String} (hmark : mark.toList = [sep])
include hmark

theorem splitOn_append_mark (a b : String) : splitOn (a ++ mark ++ b) sep = splitOn a sep ++ splitOn b sep := by
  have hchars : (a ++ mark ++ b).toList = a.toList ++ sep :: b.toList := by simp [hmark]
  rw [splitOn, hchars, List.splitOn_append_cons_self, List.map_append, splitOn, splitOn]

theorem splitOn_intercalate_mark {pieces : List String} (hne : pieces ≠ []) (h : ∀ s ∈ pieces, sep ∉ s.toList) :
    splitOn (mark.intercalate pieces) sep = pieces := by
  have hchars : (mark.intercalate pieces).toList = [sep].intercalate (pieces.map String.toList) := by
    rw [String.toList_intercalate, hmark]
  rw [splitOn, hchars, List.splitOn_intercalate]
  · simp [Function.comp_def]
  · simpa using h
  · simpa using hne

theorem splitOn_join_mark {pieces : List String} (h : ∀ s ∈ pieces, sep ∉ s.toList) :
    splitOn (String.join (pieces.map (· ++ mark))) sep = pieces ++ [""] := by
  induction pieces with
  | nil => rfl
  | cons s pieces ih =>
    rw [List.map_cons, String.join_cons, splitOn_append_mark hmark, splitOn_eq_singleton (h s (by simp)),
      ih fun t ht => h t (by simp [ht])]
    rfl

end

theorem splitOn_append_slash (a b : String) : splitOn (a ++ "/" ++ b) '/' = splitOn a '/' ++ splitOn b '/' :=
  splitOn_append_mark rfl a b

theorem splitOn_slash_append (s : String) : splitOn ("/" ++ s) '/' = "" :: splitOn s '/' := by
  have h := splitOn_append_slash "" s
  rw [String.empty_append] at h
  rw [h]
  rfl

theorem splitOn_intercalate {names : List String} (hne : names ≠ []) (h : ∀ n ∈ names, '/' ∉ n.toList) :
    splitOn ("/".intercalate names) '/' = names :=
  splitOn_intercalate_mark rfl hne h

theorem splitOn_injective {a b : String} {sep : Char} (h : splitOn a sep = splitOn b sep) : a = b := by
  have hsplit : a.toList.splitOn sep = b.toList.splitOn sep :=
    List.map_injective_iff.2 (fun _ _ hchars => String.ofList_injective hchars) h
  calc a = String.ofList ([sep].intercalate (a.toList.splitOn sep)) := by simp [List.intercalate_splitOn]
    _ = b := by simp [hsplit, List.intercalate_splitOn]

theorem intercalate_splitOn (s : String) : "/".intercalate (splitOn s '/') = s :=
  splitOn_injective (splitOn_intercalate (splitOn_ne_nil s '/') fun _ hn => notMem_of_mem_splitOn hn)

theorem startsWith_iff {s p : String} : startsWith s p = true ↔ ∃ rest, s = p ++ rest := by
  rw [startsWith, List.isPrefixOf_iff_prefix]
  constructor
  · rintro ⟨rest, hrest⟩
    exact ⟨String.ofList rest, by rw [← String.toList_inj, String.toList_append, String.toList_ofList, hrest]⟩
  · rintro ⟨rest, hrest⟩
    rw [hrest, String.toList_append]
    exact List.prefix_append ..

theorem cutLast_eq_none {sep : Char} {s : List Char} (h : cutLast sep s = none) : sep ∉ s := by
  induction s with
  | nil => simp
  | cons c s ih =>
    rw [cutLast] at h
    cases hs : cutLast sep s with
    | some parts => simp [hs] at h
    | none =>
      have hc : c ≠ sep := by simpa [hs] using h
      exact List.not_mem_cons_of_ne_of_not_mem hc.symm (ih hs)

theorem cutLast_eq_some {sep : Char} {s before after : List Char} (h : cutLast sep s = some (before, after)) :
    s = before ++ sep :: after ∧ sep ∉ after := by
  induction s generalizing before with
  | nil => cases h
  | cons c s ih =>
    rw [cutLast] at h
    cases hs : cutLast sep s with
    | some parts =>
      obtain ⟨front, back⟩ := parts
      simp only [hs, Option.some.injEq, Prod.mk.injEq] at h
      obtain ⟨rfl, rfl⟩ := h
      obtain ⟨hsplit, hback⟩ := ih hs
      exact ⟨by rw [hsplit, List.cons_append], hback⟩
    | none =>
      simp only [hs, Option.ite_none_right_eq_some, Option.some.injEq, Prod.mk.injEq] at h
      obtain ⟨rfl, rfl, rfl⟩ := h
      exact ⟨rfl, cutLast_eq_none hs⟩

theorem cutLast_of_notMem {sep : Char} {s : List Char} (h : sep ∉ s) : cutLast sep s = none := by
  cases hcut : cutLast sep s with
  | none => rfl
  | some parts =>
    rw [(cutLast_eq_some hcut).1] at h
    exact absurd (by simp) h

theorem cutLast_append {sep : Char} {after : List Char} (h : sep ∉ after) (before : List Char) :
    cutLast sep (before ++ sep :: after) = some (before, after) := by
  induction before with
  | nil => simp [cutLast, cutLast_of_notMem h]
  | cons c before ih => rw [List.cons_append, cutLast, ih]

end Text

namespace Path

structure IsName (s : String) : Prop where
  ne_empty : s ≠ ""
  ne_dot : s ≠ "."
  ne_up : s ≠ ".."
  noSlash : '/' ∉ s.toList

theorem isName_iff {s : String} :
    IsName s ↔ (s != "" && s != "." && s != ".." && !s.toList.contains '/') = true := by
  simp only [Bool.and_eq_true, bne_iff_ne, Bool.not_eq_true', List.contains_eq_mem, decide_eq_false_iff_not]
  constructor
  · intro h
    exact ⟨⟨⟨h.ne_empty, h.ne_dot⟩, h.ne_up⟩, h.noSlash⟩
  · rintro ⟨⟨⟨hempty, hdot⟩, hup⟩, hslash⟩
    exact ⟨hempty, hdot, hup, hslash⟩

instance (s : String) : Decidable (IsName s) := decidable_of_iff' _ isName_iff

theorem piece_cases {n : String} (h : '/' ∉ n.toList) : n = "" ∨ n = "." ∨ n = ".." ∨ IsName n := by
  by_cases hempty : n = ""
  · exact .inl hempty
  by_cases hdot : n = "."
  · exact .inr (.inl hdot)
  by_cases hup : n = ".."
  · exact .inr (.inr (.inl hup))
  · exact .inr (.inr (.inr ⟨hempty, hdot, hup, h⟩))

theorem isAbsolute_append {a : String} (ha : a ≠ "") (b : String) : isAbsolute (a ++ b) = isAbsolute a := by
  obtain ⟨c, cs, hcs⟩ := List.exists_cons_of_ne_nil (mt String.toList_eq_nil_iff.1 ha)
  simp [isAbsolute, Text.startsWith, hcs, List.isPrefixOf_cons_cons]

theorem isAbsolute_of_noSlash {s : String} (h : '/' ∉ s.toList) : isAbsolute s = false := by
  cases hs : s.toList with
  | nil => simp [isAbsolute, Text.startsWith, hs]
  | cons c cs =>
    rw [hs] at h
    simp [isAbsolute, Text.startsWith, hs, List.isPrefixOf_cons_cons, List.ne_of_not_mem_cons h]

namespace Clean

/-! ## Segments that are clean -/

/-- The segments of a clean path, last first: names, and below them the steps up that a path without a
root may begin with. -/
inductive Stack (r : Bool) : List String → Prop where
  | nil : Stack r []
  | name {n : String} {done : List String} : IsName n → Stack r done → Stack r (n :: done)
  | up {done : List String} : r = false → (∀ n ∈ done, n = "..") → Stack r done → Stack r (".." :: done)

variable {r : Bool} {done : List String} {n : String}

@[simp] theorem step_empty : step r done "" = done := by simp [step]

@[simp] theorem step_dot : step r done "." = done := by simp [step]

theorem step_name (h : IsName n) : step r done n = n :: done := by
  simp [step, h.ne_empty, h.ne_dot, h.ne_up]

theorem step_up_name (h : IsName n) : step r (n :: done) ".." = done := by
  simp [step, h.ne_up]

theorem Stack.step (h : Stack r done) (hn : '/' ∉ n.toList) : Stack r (step r done n) := by
  rcases piece_cases hn with rfl | rfl | rfl | hname
  · rwa [step_empty]
  · rwa [step_dot]
  · cases h with
    | nil =>
      cases r
      · exact .up rfl (by simp) .nil
      · exact .nil
    | name hlast hbefore => rwa [step_up_name hlast]
    | up hr hups hbefore => exact .up hr (by simpa using hups) (.up hr hups hbefore)
  · rw [step_name hname]
    exact .name hname h

theorem Stack.foldl {pieces : List String} (h : Stack r done) (hpieces : ∀ n ∈ pieces, '/' ∉ n.toList) :
    Stack r (pieces.foldl (Clean.step r) done) := by
  induction pieces generalizing done with
  | nil => exact h
  | cons n pieces ih =>
    obtain ⟨hn, hrest⟩ := List.forall_mem_cons.1 hpieces
    exact ih (h.step hn) hrest

theorem Stack.mem (h : Stack r done) (hn : n ∈ done) : n ≠ "" ∧ '/' ∉ n.toList := by
  induction h with
  | nil => cases hn
  | name hname _ ih =>
    rcases List.mem_cons.1 hn with rfl | hn
    · exact ⟨hname.ne_empty, hname.noSlash⟩
    · exact ih hn
  | up _ _ _ ih =>
    rcases List.mem_cons.1 hn with rfl | hn
    · decide
    · exact ih hn

/-- Clean segments are taken up unchanged. -/
theorem Stack.foldl_reverse (h : Stack r done) : done.reverse.foldl (Clean.step r) [] = done := by
  induction h with
  | nil => rfl
  | name hname _ ih => rw [List.reverse_cons, List.foldl_concat, ih, step_name hname]
  | @up done hr hups _ ih =>
    subst hr
    rw [List.reverse_cons, List.foldl_concat, ih]
    cases done with
    | nil => rfl
    | cons last before => simp [Clean.step, hups last List.mem_cons_self]

/-- Pieces may be cleaned first and taken up then: a step up takes back the same name, or stays for the
segments that are there already. -/
theorem foldl_step_relative {pieces : List String} (hpieces : ∀ n ∈ pieces, '/' ∉ n.toList) :
    (pieces.foldl (step false) []).reverse.foldl (step r) done = pieces.foldl (step r) done := by
  induction pieces using List.reverseRecOn with
  | nil => rfl
  | append_singleton pieces n ih =>
    have hbefore : ∀ n ∈ pieces, '/' ∉ n.toList := fun m hm => hpieces m (List.mem_append_left _ hm)
    have hstack : Stack false (pieces.foldl (step false) []) := Stack.nil.foldl hbefore
    rw [List.foldl_concat, List.foldl_concat, ← ih hbefore]
    rcases piece_cases (hpieces n (by simp)) with rfl | rfl | rfl | hname
    · rw [step_empty, step_empty]
    · rw [step_dot, step_dot]
    · cases hdone : pieces.foldl (step false) [] with
      | nil => rfl
      | cons last before =>
        rw [hdone] at hstack
        cases hstack with
        | name hname _ =>
          rw [step_up_name hname, List.reverse_cons, List.foldl_concat, step_name hname, step_up_name hname]
        | up _ _ _ =>
          have hstay : step false (".." :: before) ".." = ".." :: ".." :: before := by simp [step]
          rw [hstay, List.reverse_cons, List.foldl_concat]
    · rw [step_name hname, List.reverse_cons, List.foldl_concat]

/-! ## Clean paths -/

variable {p q : Clean}

def Normal (p : Clean) : Prop := Stack p.rooted p.segments.reverse

def after (p : Clean) (s : String) : Clean :=
  { p with segments := ((Text.splitOn s '/').foldl (step p.rooted) p.segments.reverse).reverse }

theorem of_eq_after (s : String) : of s = after ⟨isAbsolute s, []⟩ s := rfl

theorem Normal.after (h : p.Normal) (s : String) : (p.after s).Normal := by
  unfold Normal Clean.after
  rw [List.reverse_reverse]
  exact Stack.foldl h fun n hn => Text.notMem_of_mem_splitOn hn

theorem normal_nil (r : Bool) : Normal ⟨r, []⟩ := .nil

theorem normal_of (s : String) : (of s).Normal := (normal_nil (isAbsolute s)).after s

theorem after_empty (p : Clean) : p.after "" = p := by
  simp [after, Text.splitOn]

theorem after_append (p : Clean) (a b : String) : p.after (a ++ "/" ++ b) = (p.after a).after b := by
  simp [after, Text.splitOn_append_slash]

theorem Normal.mem (h : p.Normal) (hn : n ∈ p.segments) : n ≠ "" ∧ '/' ∉ n.toList :=
  Stack.mem h (List.mem_reverse.2 hn)

theorem Normal.foldl_segments (h : p.Normal) : p.segments.foldl (step p.rooted) [] = p.segments.reverse := by
  simpa using Stack.foldl_reverse h

theorem of_append {a : String} (ha : a ≠ "") (b : String) : of (a ++ "/" ++ b) = (of a).after b := by
  rw [of_eq_after, of_eq_after, after_append, String.append_assoc, isAbsolute_append ha]

/-! ## Clean texts -/

theorem Normal.isAbsolute_text (h : p.Normal) : isAbsolute p.text = p.rooted := by
  obtain ⟨rooted, segments⟩ := p
  cases rooted with
  | true => simp [text, isAbsolute, Text.startsWith]
  | false =>
    cases segments with
    | nil => rfl
    | cons n rest =>
      obtain ⟨hne, hslash⟩ := h.mem (n := n) (by simp)
      have hfirst := isAbsolute_of_noSlash hslash
      cases rest with
      | nil => simp [text, hfirst]
      | cons m rest => simp [text, String.append_assoc, isAbsolute_append hne, hfirst]

theorem foldl_splitOn_intercalate {names : List String} (h : ∀ n ∈ names, '/' ∉ n.toList) :
    (Text.splitOn ("/".intercalate names) '/').foldl (step r) done = names.foldl (step r) done := by
  by_cases hne : names = []
  · subst hne
    simp [Text.splitOn]
  · rw [Text.splitOn_intercalate hne h]

theorem Normal.foldl_splitOn_text (h : p.Normal) :
    (Text.splitOn p.text '/').foldl (step r) done = p.segments.foldl (step r) done := by
  have hsegments : (Text.splitOn ("/".intercalate p.segments) '/').foldl (step r) done =
      p.segments.foldl (step r) done := foldl_splitOn_intercalate fun n hn => (h.mem hn).2
  unfold text
  by_cases hrooted : p.rooted
  · rw [if_pos hrooted, Text.splitOn_slash_append, List.foldl_cons, step_empty, hsegments]
  · rw [if_neg hrooted]
    by_cases hempty : p.segments = []
    · have hdot : Text.splitOn "." '/' = ["."] := Text.splitOn_eq_singleton (by decide)
      simp [hempty, hdot]
    · simpa [hempty] using hsegments

theorem Normal.of_text (h : p.Normal) : of p.text = p := by
  rw [of_eq_after, h.isAbsolute_text, Clean.after, h.foldl_splitOn_text, List.reverse_nil, h.foldl_segments,
    List.reverse_reverse]

theorem Normal.text_ne_empty (h : p.Normal) : p.text ≠ "" := by
  intro htext
  have hof := h.of_text
  rw [htext] at hof
  subst hof
  exact absurd htext (by decide)

theorem Normal.after_text (h : p.Normal) :
    q.after p.text = { q with segments := (p.segments.foldl (step q.rooted) q.segments.reverse).reverse } := by
  rw [Clean.after, h.foldl_splitOn_text]

end Clean

/-! ## Cleaning -/

theorem clean_text {p : Clean} (h : p.Normal) : clean p.text = p.text := by rw [clean, h.of_text]

theorem clean_clean (s : String) : clean (clean s) = clean s := clean_text (Clean.normal_of s)

theorem isAbsolute_clean (s : String) : isAbsolute (clean s) = isAbsolute s := (Clean.normal_of s).isAbsolute_text

theorem Clean.after_clean {s : String} (hs : isAbsolute s = false) (p : Clean) : p.after (clean s) = p.after s := by
  rw [clean, (normal_of s).after_text, of_eq_after, hs, after, after]
  congr 2
  exact foldl_step_relative fun n hn => Text.notMem_of_mem_splitOn hn

/-! ## Paths as seen from the root -/

section Absolute

variable {cwd s t : String}

/-- The clean path that a text stands for in a working directory. -/
def seen (cwd s : String) : Clean := (if isAbsolute s then ⟨true, []⟩ else Clean.of cwd).after s

theorem seen_normal (cwd s : String) : (seen cwd s).Normal := by
  unfold seen
  split
  · exact (Clean.normal_nil true).after s
  · exact (Clean.normal_of cwd).after s

theorem absolute_eq_text (hcwd : cwd ≠ "") (s : String) : absolute cwd s = (seen cwd s).text := by
  unfold absolute seen
  by_cases habs : isAbsolute s
  · rw [if_pos habs, if_pos habs, clean, Clean.of_eq_after, habs]
  · rw [if_neg habs, if_neg habs, join, if_neg hcwd]
    by_cases hs : s = ""
    · rw [if_pos hs, hs, Clean.after_empty, clean]
    · rw [if_neg hs, clean, Clean.of_append hcwd]

theorem clean_absolute (hcwd : cwd ≠ "") (s : String) : clean (absolute cwd s) = absolute cwd s := by
  rw [absolute_eq_text hcwd, clean_text (seen_normal cwd s)]

theorem absolute_clean (hcwd : cwd ≠ "") (s : String) : absolute cwd (clean s) = absolute cwd s := by
  by_cases habs : isAbsolute s
  · rw [absolute, absolute, isAbsolute_clean, if_pos habs, if_pos habs, clean_clean]
  · rw [absolute_eq_text hcwd, absolute_eq_text hcwd, seen, seen, isAbsolute_clean,
      Clean.after_clean (Bool.eq_false_iff.2 habs)]

theorem seen_append (hs : s ≠ "") (t : String) : seen cwd (s ++ "/" ++ t) = (seen cwd s).after t := by
  rw [seen, seen, String.append_assoc, isAbsolute_append hs, ← String.append_assoc, Clean.after_append]

/-- Going on from a path and seeing it from the root may be done in either order. -/
theorem absolute_join (hcwd : cwd ≠ "") (hs : s ≠ "") (t : String) :
    absolute cwd (join s t) = join (absolute cwd s) t := by
  have hne : absolute cwd s ≠ "" := by
    rw [absolute_eq_text hcwd]
    exact (seen_normal cwd s).text_ne_empty
  by_cases ht : t = ""
  · rw [join, join, if_neg hs, if_neg hne, if_pos ht, if_pos ht, absolute_clean hcwd, clean_absolute hcwd]
  · rw [join, join, if_neg hs, if_neg hne, if_neg ht, if_neg ht, absolute_clean hcwd, clean, Clean.of_append hne,
      absolute_eq_text hcwd, absolute_eq_text hcwd, (seen_normal cwd s).of_text, seen_append hs]

end Absolute

/-! ## Last pieces -/

def last (s : String) : String := (Text.splitOn s '/').getLastD ""

theorem splitOn_eq_last (s : String) : ∃ before, Text.splitOn s '/' = before ++ [last s] := by
  refine ⟨(Text.splitOn s '/').dropLast, ?_⟩
  rw [last, List.getLastD_eq_getLast?, List.getLast?_eq_some_getLast (Text.splitOn_ne_nil s '/'), Option.getD_some,
    List.dropLast_append_getLast]

theorem noSlash_last (s : String) : '/' ∉ (last s).toList := by
  obtain ⟨before, hsplit⟩ := splitOn_eq_last s
  exact Text.notMem_of_mem_splitOn (s := s) (by rw [hsplit]; simp)

/-- A text is its last piece, or ends in a slash and that. -/
theorem eq_last_or (s : String) : s = last s ∧ Text.cutLast '/' s.toList = none ∨
    ∃ before, s.toList = before ++ '/' :: (last s).toList ∧
      Text.cutLast '/' s.toList = some (before, (last s).toList) := by
  cases hcut : Text.cutLast '/' s.toList with
  | none =>
    left
    rw [last, Text.splitOn_eq_singleton (Text.cutLast_eq_none hcut)]
    exact ⟨rfl, rfl⟩
  | some parts =>
    obtain ⟨before, after⟩ := parts
    obtain ⟨hs, hafter⟩ := Text.cutLast_eq_some hcut
    right
    have hlast : last s = String.ofList after := by
      have htext : s = String.ofList before ++ "/" ++ String.ofList after := by
        rw [← String.toList_inj, hs]; simp
      rw [last, htext, Text.splitOn_append_slash, Text.splitOn_eq_singleton (s := String.ofList after) (by simpa using hafter)]
      simp
    rw [hlast, String.toList_ofList]
    exact ⟨before, hs, rfl⟩

theorem extension_last (s : String) : extension (last s) = extension s := by
  unfold extension
  rcases eq_last_or s with ⟨hs, _⟩ | ⟨before, _, hcut⟩
  · rw [← hs]
  · rw [Text.cutLast_of_notMem (noSlash_last s), hcut]

theorem base_eq_last {s : String} (h : last s ≠ "") : base s = last s := by
  have hchars : (last s).toList ≠ [] := mt String.toList_eq_nil_iff.1 h
  obtain ⟨front, c, hlast⟩ := (List.eq_nil_or_concat _).resolve_left hchars
  have hc : c ≠ '/' := by
    rintro rfl
    exact noSlash_last s (by simp [hlast])
  have hend : ∃ rest, s.toList = rest ++ [c] := by
    rcases eq_last_or s with ⟨hs, _⟩ | ⟨before, hs, _⟩
    · exact ⟨front, by rw [hs, hlast, List.concat_eq_append]⟩
    · exact ⟨before ++ '/' :: front, by simp [hs, hlast]⟩
  obtain ⟨rest, hrest⟩ := hend
  have htrimmed : (s.toList.reverse.dropWhile (· == '/')).reverse = s.toList := by
    simp [hrest, hc]
  have hs : s.toList ≠ [] := by simp [hrest]
  unfold base
  rw [if_neg (mt String.toList_eq_nil_iff.2 hs), htrimmed]
  rcases eq_last_or s with ⟨heq, hcut⟩ | ⟨before, _, hcut⟩
  · simp [hs, hcut, ← heq]
  · simp [hs, hcut]

theorem last_concat {p : Clean} (h : p.Normal) {names : List String} {n : String} (hp : p.segments = names ++ [n]) :
    last p.text = n := by
  have hne : p.segments ≠ [] := by simp [hp]
  have hsplit : Text.splitOn ("/".intercalate p.segments) '/' = names ++ [n] := by
    rw [Text.splitOn_intercalate hne fun m hm => (h.mem hm).2, hp]
  unfold last Clean.text
  by_cases hrooted : p.rooted
  · rw [if_pos hrooted, Text.splitOn_slash_append, hsplit, ← List.cons_append, List.getLastD_concat]
  · simp [hrooted, hne, hsplit]

/-- A name at the end stays there. -/
theorem last_after {p : Clean} {s : String} (h : p.Normal) (hs : IsName (last s)) : last (p.after s).text = last s := by
  obtain ⟨before, hsplit⟩ := splitOn_eq_last s
  have hsegments : (p.after s).segments =
      (before.foldl (Clean.step p.rooted) p.segments.reverse).reverse ++ [last s] := by
    rw [Clean.after, hsplit, List.foldl_concat, Clean.step_name hs, List.reverse_cons]
  exact last_concat (h.after s) hsegments

theorem last_absolute {cwd s : String} (hcwd : cwd ≠ "") (hs : IsName (last s)) : last (absolute cwd s) = last s := by
  rw [absolute_eq_text hcwd]
  unfold seen
  split
  · exact last_after (Clean.normal_nil true) hs
  · exact last_after (Clean.normal_of cwd) hs

/-! ## Names below a directory -/

theorem foldl_step_names {r : Bool} {done names : List String} (h : ∀ n ∈ names, IsName n) :
    names.foldl (Clean.step r) done = names.reverse ++ done := by
  induction names generalizing done with
  | nil => rfl
  | cons n names ih =>
    obtain ⟨hn, hrest⟩ := List.forall_mem_cons.1 h
    rw [List.foldl_cons, Clean.step_name hn, ih hrest, List.reverse_cons, List.append_assoc]
    rfl

theorem segments_after_names {p : Clean} {s : String} (h : ∀ n ∈ Text.splitOn s '/', IsName n) :
    (p.after s).segments = p.segments ++ Text.splitOn s '/' := by
  rw [Clean.after, foldl_step_names h]
  simp

/-- Different names below a directory are different paths. -/
theorem join_injective {d a b : String} (hd : d ≠ "") (ha : ∀ n ∈ Text.splitOn a '/', IsName n)
    (hb : ∀ n ∈ Text.splitOn b '/', IsName n) (h : join d a = join d b) : a = b := by
  have hpath : ∀ {s}, (∀ n ∈ Text.splitOn s '/', IsName n) → join d s = ((Clean.of d).after s).text := by
    intro s hs
    have hne : s ≠ "" := by
      rintro rfl
      exact (hs "" (by decide)).ne_empty rfl
    rw [join, if_neg hd, if_neg hne, clean, Clean.of_append hd]
  rw [hpath ha, hpath hb] at h
  have hnormal := fun s => (Clean.normal_of d).after s
  have hsame : (Clean.of d).after a = (Clean.of d).after b := by
    rw [← (hnormal a).of_text, h, (hnormal b).of_text]
  have hsegments := congrArg Clean.segments hsame
  rw [segments_after_names ha, segments_after_names hb, List.append_cancel_left_eq] at hsegments
  exact Text.splitOn_injective hsegments

end Path

end JvmLint
