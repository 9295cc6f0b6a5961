import JvmLint.Proofs.LayerSpellings
import Mathlib.Logic.Function.Iterate

/-!
# Normalized paths

A normalized path is its root, if it has one, and its segments with slashes between them. That one path covers another
is decided on the texts, with a slash put behind the upper one, which compares the pieces between slashes
(`hasPathPrefix_iff_pieces`); for all paths but the root these are the segments. Blanks are taken off before the path is
cleaned, and cleaning can bring other blanks to the ends; a path is normalized for good if there are none
(`normalizePath_again_iff`).
-/

namespace JvmLint

namespace Text

/-! ## Paths below a path -/

theorem mem_intercalate {names : List String} {c : Char} (hc : c ≠ '/') :
    c ∈ ("/".intercalate names).toList ↔ ∃ n ∈ names, c ∈ n.toList := by
  induction names with
  | nil => simp
  | cons n names ih =>
    cases names with
    | nil => simp
    | cons m names =>
      rw [String.intercalate_cons_cons, String.toList_append, List.mem_append, ih]
      simp [hc]

/-- A path is another or goes on behind a slash if its pieces begin with those of the other. -/
theorem eq_or_startsWith_iff {s t : String} :
    (s = t ∨ startsWith s (t ++ "/") = true) ↔ splitOn t '/' <+: splitOn s '/' := by
  constructor
  · rintro (rfl | h)
    · exact List.prefix_refl _
    · obtain ⟨rest, rfl⟩ := startsWith_iff.1 h
      rw [splitOn_append_slash]
      exact List.prefix_append ..
  · intro ⟨more, hmore⟩
    by_cases hnil : more = []
    · rw [hnil, List.append_nil] at hmore
      exact .inl (splitOn_injective hmore.symm)
    · have hpieces : ∀ n ∈ more, '/' ∉ n.toList := by
        intro n hn
        apply notMem_of_mem_splitOn (s := s)
        rw [← hmore]
        exact List.mem_append_right _ hn
      have hsplit : splitOn s '/' = splitOn (t ++ "/" ++ "/".intercalate more) '/' := by
        rw [splitOn_append_slash, splitOn_intercalate hnil hpieces, hmore]
      exact .inr (startsWith_iff.2 ⟨_, splitOn_injective hsplit⟩)

end Text

namespace Path

def segments (s : String) : List String := (Text.splitOn s '/').filter (· != "")

namespace Clean

variable {p q : Clean} {r : Bool} {done pieces : List String} {n : String}

/-- The path as names and patterns are compared by it: as its text, but empty if there is nothing to it. -/
def form (p : Clean) : String := (if p.rooted then "/" else "") ++ "/".intercalate p.segments

theorem Normal.form_eq (h : p.Normal) : p.form = if p.text = "." then "" else p.text := by
  by_cases hdot : p.text = "."
  · have hp : p = ⟨false, []⟩ := by rw [← h.of_text, hdot]; rfl
    rw [if_pos hdot, hp]
    rfl
  · rw [if_neg hdot]
    unfold text at hdot ⊢
    unfold form
    by_cases hrooted : p.rooted
    · rw [if_pos hrooted, if_pos hrooted]
    · rw [if_neg hrooted] at hdot ⊢
      rw [if_neg hrooted, String.empty_append]
      by_cases hempty : p.segments.isEmpty
      · rw [if_pos hempty] at hdot
        exact absurd rfl hdot
      · rw [if_neg hempty]

theorem Normal.of_form (h : p.Normal) : of p.form = p := by
  rw [h.form_eq]
  split
  · rename_i hdot
    rw [← h.of_text, hdot]
    rfl
  · exact h.of_text

theorem Normal.splitOn_form (h : p.Normal) : Text.splitOn p.form '/' =
    (if p.rooted then [""] else []) ++ if p.segments = [] then [""] else p.segments := by
  have hbody : Text.splitOn ("/".intercalate p.segments) '/' = if p.segments = [] then [""] else p.segments := by
    by_cases hnil : p.segments = []
    · rw [if_pos hnil, hnil]
      rfl
    · rw [if_neg hnil, Text.splitOn_intercalate hnil fun n hn => (h.mem hn).2]
  unfold form
  by_cases hrooted : p.rooted
  · rw [if_pos hrooted, if_pos hrooted, Text.splitOn_slash_append, hbody]
    rfl
  · rw [if_neg hrooted, if_neg hrooted, String.empty_append, hbody]
    rfl

theorem Normal.segments_form (h : p.Normal) : Path.segments p.form = p.segments := by
  have hnames : p.segments.filter (· != "") = p.segments :=
    List.filter_eq_self.2 fun n hn => by simpa using (h.mem hn).1
  rw [Path.segments, h.splitOn_form, List.filter_append]
  by_cases hnil : p.segments = []
  · rw [if_pos hnil, hnil]
    cases p.rooted <;> rfl
  · rw [if_neg hnil, hnames]
    cases p.rooted <;> rfl

theorem Normal.isAbsolute_form (h : p.Normal) : isAbsolute p.form = p.rooted := congrArg rooted h.of_form

theorem Normal.form_eq_root_iff (h : p.Normal) : p.form = "/" ↔ p = ⟨true, []⟩ := by
  constructor
  · intro hform
    rw [← h.of_form, hform]
    rfl
  · rintro rfl
    rfl

theorem eq_root (hform : p.form ≠ "") (hsegments : p.segments = []) : p = ⟨true, []⟩ := by
  obtain ⟨rooted, segments⟩ := p
  cases rooted with
  | true => exact congrArg (Clean.mk true) hsegments
  | false => exact absurd (congrArg "/".intercalate hsegments) hform

/-- The pieces of a path with segments are the first of another's if both have a root or none and the segments are. -/
theorem Normal.splitOn_form_prefix_iff (hp : p.Normal) (hq : q.Normal) (hne : q.segments ≠ []) :
    Text.splitOn q.form '/' <+: Text.splitOn p.form '/' ↔ p.rooted = q.rooted ∧ q.segments <+: p.segments := by
  obtain ⟨first, rest, hcons⟩ := List.exists_cons_of_ne_nil hne
  have hfirst : first ≠ "" := (hq.mem (n := first) (by simp [hcons])).1
  have hbody : q.segments <+: (if p.segments = [] then [""] else p.segments) ↔ q.segments <+: p.segments := by
    by_cases hnil : p.segments = []
    · simp [hnil, hcons, hfirst]
    · rw [if_neg hnil]
  rw [hp.splitOn_form, hq.splitOn_form, if_neg hne]
  cases hpr : p.rooted <;> cases hqr : q.rooted
  · simpa using hbody
  · -- the piece before the root is empty, and only a path without segments begins with such a piece
    by_cases hnil : p.segments = []
    · simp [hnil, hne]
    · obtain ⟨other, others, hothers⟩ := List.exists_cons_of_ne_nil hnil
      have hother : other ≠ "" := (hp.mem (n := other) (by simp [hothers])).1
      simp [hothers, hother.symm]
  · simp [hcons, hfirst]
  · simpa using hbody

/-- Only the root has two empty pieces at the front. -/
theorem Normal.splitOn_root_prefix_iff (h : p.Normal) : Text.splitOn "/" '/' <+: Text.splitOn p.form '/' ↔ p.form = "/" := by
  constructor
  · intro hpieces
    rw [h.form_eq_root_iff]
    rw [h.splitOn_form] at hpieces
    obtain ⟨rooted, segments⟩ := p
    cases segments with
    | nil =>
      cases rooted with
      | true => rfl
      | false => exact absurd hpieces (by decide)
    | cons n rest =>
      have hn : n ≠ "" := (h.mem (n := n) (by simp)).1
      have hroot : Text.splitOn "/" '/' = ["", ""] := rfl
      rw [hroot] at hpieces
      cases rooted <;> simp [hn.symm] at hpieces
  · intro hform
    exact hform.symm ▸ List.prefix_refl _

/-! ## What cleaning keeps -/

theorem mem_step {m : String} (h : n ∈ step r done m) : n = m ∨ n ∈ done := by
  unfold step at h
  grind

theorem mem_foldl_step (h : n ∈ pieces.foldl (step r) done) : n ∈ pieces ∨ n ∈ done := by
  induction pieces generalizing done with
  | nil => exact .inr h
  | cons m pieces ih =>
    rcases ih h with hn | hn
    · exact .inl (List.mem_cons_of_mem _ hn)
    · rcases mem_step hn with rfl | hdone
      · exact .inl List.mem_cons_self
      · exact .inr hdone

theorem mem_splitOn_of_mem_segments {s : String} (h : n ∈ (of s).segments) : n ∈ Text.splitOn s '/' := by
  rcases mem_foldl_step (List.mem_reverse.1 h) with hn | hn
  · exact hn
  · cases hn

def extent : List String → Nat
  | [] => 0
  | n :: l => n.length + 1 + extent l

theorem extent_reverse (l : List String) : extent l.reverse = extent l := by
  have happend : ∀ a b : List String, extent (a ++ b) = extent a + extent b := by
    intro a b
    induction a with
    | nil => simp [extent]
    | cons n a ih => simp only [List.cons_append, extent, ih]; omega
  induction l with
  | nil => rfl
  | cons n l ih => rw [List.reverse_cons, happend, ih]; simp only [extent]; omega

theorem extent_step (r : Bool) (done : List String) (n : String) : extent (step r done n) ≤ extent done + (n.length + 1) := by
  unfold step
  split
  · omega
  · split
    · split
      · split
        · simp only [extent]; omega
        · simp only [extent]; omega
      · split
        · simp [extent]
        · simp only [extent]; omega
    · simp only [extent]; omega

theorem extent_foldl_step : extent (pieces.foldl (step r) done) ≤ extent done + extent pieces := by
  induction pieces generalizing done with
  | nil => simp [extent]
  | cons n pieces ih =>
    have hstep := extent_step r done n
    have hrest := @ih (step r done n)
    rw [List.foldl_cons, extent]
    omega

theorem length_intercalate (l : List String) : ("/".intercalate l).length = extent l - 1 := by
  have hslash : "/".length = 1 := by decide
  induction l with
  | nil => rfl
  | cons n l ih =>
    cases l with
    | nil => simp [extent]
    | cons m l =>
      rw [String.intercalate_cons_cons, String.length_append, String.length_append, ih, hslash]
      simp only [extent]
      omega

theorem extent_splitOn (s : String) : extent (Text.splitOn s '/') = s.length + 1 := by
  have hlength := length_intercalate (Text.splitOn s '/')
  rw [Text.intercalate_splitOn] at hlength
  cases hpieces : Text.splitOn s '/' with
  | nil => exact absurd hpieces (Text.splitOn_ne_nil s '/')
  | cons n l =>
    rw [hpieces] at hlength
    simp only [extent] at hlength ⊢
    omega

theorem length_form_of (s : String) : (of s).form.length ≤ s.length := by
  have hkept : ∀ r t, extent ((Text.splitOn t '/').foldl (step r) []).reverse ≤ t.length + 1 := by
    intro r t
    rw [extent_reverse, ← extent_splitOn]
    exact extent_foldl_step.trans (by simp [extent])
  unfold form
  by_cases hrooted : Text.startsWith s "/" = true
  · obtain ⟨t, rfl⟩ := Text.startsWith_iff.1 hrooted
    have hsegments : (of ("/" ++ t)).segments = ((Text.splitOn t '/').foldl (step true) []).reverse := by
      rw [of, hrooted, Text.splitOn_slash_append, List.foldl_cons, step_empty]
    have hslash : "/".length = 1 := by decide
    have hextent := hkept true t
    rw [← hsegments] at hextent
    rw [show (of ("/" ++ t)).rooted = true from hrooted, if_pos rfl, String.length_append, String.length_append,
      length_intercalate, hslash]
    omega
  · have hextent : extent (of s).segments ≤ s.length + 1 := hkept (Text.startsWith s "/") s
    rw [show (of s).rooted = false from Bool.eq_false_iff.2 hrooted, if_neg Bool.false_ne_true, String.empty_append,
      length_intercalate]
    omega

end Clean

end Path

/-! ## Normalized texts -/

def cleaned (s : String) : Path.Clean := .of (Text.trim (Text.swap s '\\' '/'))

variable {s name top : String}

theorem cleaned_normal (s : String) : (cleaned s).Normal := Path.Clean.normal_of _

theorem normalizePath_eq_form (s : String) : normalizePath s = (cleaned s).form := (cleaned_normal s).form_eq.symm

theorem isAbsolute_normalizePath (s : String) : Path.isAbsolute (normalizePath s) = (cleaned s).rooted := by
  rw [normalizePath_eq_form, (cleaned_normal s).isAbsolute_form]

theorem segments_normalizePath (s : String) : Path.segments (normalizePath s) = (cleaned s).segments := by
  rw [normalizePath_eq_form, (cleaned_normal s).segments_form]

theorem hasPathPrefix_iff_pieces (htop : normalizePath top ≠ "") : hasPathPrefix name top = true ↔
    Text.splitOn (normalizePath top) '/' <+: Text.splitOn (normalizePath name) '/' := by
  rw [← Text.eq_or_startsWith_iff, hasPathPrefix]
  by_cases hname : normalizePath name = ""
  · -- nothing but the empty path is a beginning of the empty path
    have hshort : Text.startsWith "" (normalizePath top ++ "/") = false := by
      simp [Text.startsWith]
    simp [hname, hshort]
  · simp [hname, htop]

/-- Apart from the root, which covers nothing but itself, a path covers those that begin with its segments, from the
root or not as it does itself. -/
theorem hasPathPrefix_by_segments (htop : normalizePath top ≠ "") : hasPathPrefix name top = true ↔
    (Path.isAbsolute (normalizePath name) = Path.isAbsolute (normalizePath top) ∧
      Path.segments (normalizePath top) <+: Path.segments (normalizePath name)) ∧
    (normalizePath top = "/" → normalizePath name = "/") := by
  rw [hasPathPrefix_iff_pieces htop, isAbsolute_normalizePath, isAbsolute_normalizePath, segments_normalizePath,
    segments_normalizePath]
  rw [normalizePath_eq_form] at htop ⊢
  rw [normalizePath_eq_form name, (cleaned_normal top).form_eq_root_iff]
  generalize hq : cleaned top = q at htop ⊢
  have hnormal : q.Normal := hq ▸ cleaned_normal top
  by_cases hsegments : q.segments = []
  · have hroot := Path.Clean.eq_root htop hsegments
    rw [hnormal.form_eq_root_iff.2 hroot, (cleaned_normal name).splitOn_root_prefix_iff]
    constructor
    · intro hname
      have hp := (cleaned_normal name).form_eq_root_iff.1 hname
      rw [hp, hroot]
      exact ⟨⟨rfl, List.prefix_refl _⟩, fun _ => rfl⟩
    · intro ⟨_, hname⟩
      exact hname hroot
  · rw [(cleaned_normal name).splitOn_form_prefix_iff hnormal hsegments]
    refine (and_iff_left ?_).symm
    intro hroot
    rw [hroot] at hsegments
    exact absurd rfl hsegments

theorem hasPathPrefix_by_segments_neighbours :
    normalizePath "com\\acme/" ≠ "" ∧ hasPathPrefix "com/acme/Order" "com\\acme/" = true ∧
      (hasPathPrefix "com/acmeco/Order" "com\\acme/" = true ↔
        (Path.isAbsolute (normalizePath "com/acmeco/Order") = Path.isAbsolute (normalizePath "com\\acme/") ∧
          Path.segments (normalizePath "com\\acme/") <+: Path.segments (normalizePath "com/acmeco/Order")) ∧
        (normalizePath "com\\acme/" = "/" → normalizePath "com/acmeco/Order" = "/")) :=
  have htop : normalizePath "com\\acme/" ≠ "" := by decide
  ⟨htop, by decide, hasPathPrefix_by_segments htop⟩

/-- All paths with a root lie below the root, but a slash behind it is none of theirs. -/
theorem root_misses_below :
    normalizePath "/" ≠ "" ∧ Path.isAbsolute (normalizePath "/com/acme") = Path.isAbsolute (normalizePath "/") ∧
      Path.segments (normalizePath "/") <+: Path.segments (normalizePath "/com/acme") ∧
      hasPathPrefix "/com/acme" "/" = false := by
  decide

/-! ## Normalizing again -/

theorem length_normalizePath_le (s : String) : (normalizePath s).length ≤ (Text.trim s).length := by
  rw [normalizePath_eq_form, cleaned, Text.trim_swap (by decide) (by decide)]
  refine (Path.Clean.length_form_of _).trans (Nat.le_of_eq ?_)
  rw [Text.swap, Text.mapChars, String.length_ofList, List.length_map, String.length_toList]

theorem noBackslash_normalizePath (s : String) : '\\' ∉ (normalizePath s).toList := by
  intro hin
  have hsegments : '\\' ∈ ("/".intercalate (cleaned s).segments).toList := by
    rw [normalizePath_eq_form, Path.Clean.form] at hin
    split at hin <;> simpa using hin
  obtain ⟨n, hn, hchar⟩ := (Text.mem_intercalate (by decide)).1 hsegments
  have hpiece := Path.Clean.mem_splitOn_of_mem_segments hn
  have htrimmed : '\\' ∈ (Text.trim (Text.swap s '\\' '/')).toList := by
    rw [← Text.intercalate_splitOn (Text.trim _)]
    exact (Text.mem_intercalate (by decide)).2 ⟨n, hpiece, hchar⟩
  rw [Text.trim, String.toList_ofList] at htrimmed
  have hswapped := (Text.trimList_sublist _ _).subset htrimmed
  simp [Text.mem_swap] at hswapped

theorem normalizePath_normalizePath (h : Text.Trimmed (normalizePath s)) :
    normalizePath (normalizePath s) = normalizePath s := by
  have hswap : Text.swap (normalizePath s) '\\' '/' = normalizePath s :=
    Text.swap_of_notMem (noBackslash_normalizePath s)
  rw [normalizePath_eq_form (normalizePath s), cleaned, hswap, Text.trimmed_iff.1 h, normalizePath_eq_form s,
    (cleaned_normal s).of_form]

theorem length_normalizePath_lt (h : ¬ Text.Trimmed s) : (normalizePath s).length < s.length :=
  (length_normalizePath_le s).trans_lt (Text.length_trim_lt h)

theorem normalizePath_again_iff (s : String) :
    normalizePath (normalizePath s) = normalizePath s ↔ Text.Trimmed (normalizePath s) := by
  refine ⟨fun hsame => ?_, normalizePath_normalizePath⟩
  by_contra hblank
  have hlength := length_normalizePath_lt hblank
  rw [hsame] at hlength
  exact absurd hlength (Nat.lt_irrefl _)

theorem trimmed_normalizePath (h : ∀ n ∈ Text.splitOn (Text.trim (Text.swap s '\\' '/')) '/', Text.Trimmed n) :
    Text.Trimmed (normalizePath s) := by
  have hsegments : Text.Trimmed ("/".intercalate (cleaned s).segments) :=
    Text.trimmed_intercalate fun n hn => h n (Path.Clean.mem_splitOn_of_mem_segments hn)
  rw [normalizePath_eq_form, Path.Clean.form]
  split
  · exact Text.trimmed_append_slash (a := "") (by decide) hsegments
  · rwa [String.empty_append]

theorem normalizing_settles (m : Nat) (h : (normalizePath s).length ≤ m) :
    ∃ k ≤ m, normalizePath (normalizePath^[k] (normalizePath s)) = normalizePath^[k] (normalizePath s) := by
  induction m generalizing s with
  | zero =>
    have hempty : normalizePath s = "" := String.length_eq_zero_iff.1 (Nat.le_zero.1 h)
    refine ⟨0, Nat.le_refl 0, ?_⟩
    rw [Function.iterate_zero_apply, hempty]
    decide
  | succ m ih =>
    by_cases hsame : normalizePath (normalizePath s) = normalizePath s
    · refine ⟨0, Nat.zero_le _, ?_⟩
      rwa [Function.iterate_zero_apply]
    · have hshorter := length_normalizePath_lt (mt (normalizePath_again_iff s).2 hsame)
      obtain ⟨k, hk, hsettled⟩ := ih (Nat.le_of_lt_succ (hshorter.trans_le h))
      refine ⟨k + 1, Nat.succ_le_succ hk, ?_⟩
      rw [Function.iterate_succ_apply]
      exact hsettled

theorem hasPathPrefix_normalizePath (hname : Text.Trimmed (normalizePath name)) (htop : Text.Trimmed (normalizePath top)) :
    hasPathPrefix (normalizePath name) (normalizePath top) = hasPathPrefix name top := by
  simp only [hasPathPrefix, normalizePath_normalizePath hname, normalizePath_normalizePath htop]

theorem Pattern.covers_eq_hasPathPrefix [GlobLibrary] {raw : String} {p : Pattern} (hp : Pattern.compile raw = .ok p)
    (hplain : p.glob = none) (hraw : Text.Trimmed (normalizePath raw)) (hname : Text.Trimmed (normalizePath name)) :
    p.covers name = hasPathPrefix name raw := by
  rw [Pattern.covers, hplain, (Pattern.compile_normalized hp).1]
  exact hasPathPrefix_normalizePath hname hraw

/-- Normalizing a text once is enough unless it leaves a blank at an end, and as many times as the text is long are
enough in any case. As long as no blank is left a pattern without globs covers what lies below its text. -/
theorem normalized_for_good_iff [GlobLibrary] (s : String) :
    (normalizePath (normalizePath s) = normalizePath s ↔ Text.Trimmed (normalizePath s)) ∧
    ((∀ n ∈ Text.splitOn (Text.trim (Text.swap s '\\' '/')) '/', Text.Trimmed n) →
      normalizePath (normalizePath s) = normalizePath s) ∧
    (∃ k ≤ (normalizePath s).length,
      normalizePath (normalizePath^[k] (normalizePath s)) = normalizePath^[k] (normalizePath s)) ∧
    ∀ raw p, Pattern.compile raw = .ok p → p.glob = none → Text.Trimmed (normalizePath raw) →
      Text.Trimmed (normalizePath s) → p.covers s = hasPathPrefix s raw := by
  refine ⟨normalizePath_again_iff s, ?_, normalizing_settles _ (Nat.le_refl _), ?_⟩
  · intro hpieces
    exact normalizePath_normalizePath (trimmed_normalizePath hpieces)
  · intro raw p hp hplain hraw hname
    exact Pattern.covers_eq_hasPathPrefix hp hplain hraw hname

theorem normalized_for_good_iff_mixed :
    (∀ n ∈ Text.splitOn (Text.trim (Text.swap " ./com\\a b/" '\\' '/')) '/', Text.Trimmed n) ∧
      normalizePath (normalizePath " ./com\\a b/") = normalizePath " ./com\\a b/" ∧
      Pattern.compile "com/" = .ok ⟨"com", none⟩ ∧
      (⟨"com", none⟩ : Pattern).covers " ./com\\a b/" = hasPathPrefix " ./com\\a b/" "com/" := by
  have hpieces : ∀ n ∈ Text.splitOn (Text.trim (Text.swap " ./com\\a b/" '\\' '/')) '/', Text.Trimmed n := by decide
  have hcompile : Pattern.compile "com/" = .ok ⟨"com", none⟩ := by decide
  obtain ⟨-, hstable, -, hcovers⟩ := normalized_for_good_iff " ./com\\a b/"
  exact ⟨hpieces, hstable hpieces, hcompile, hcovers _ _ hcompile rfl (by decide) (by decide)⟩

/-- Cleaning drops the slash at the end and leaves a blank there, which the next trimming takes for a margin. So the
pattern covers names that are not below its text. -/
theorem blank_segment_lost :
    normalizePath (normalizePath "com/acme/ /") ≠ normalizePath "com/acme/ /" ∧
      Pattern.compile "com/acme/ /" = .ok ⟨"com/acme/ ", none⟩ ∧
      (⟨"com/acme/ ", none⟩ : Pattern).covers "com/acme/Order" = true ∧
      hasPathPrefix "com/acme/Order" "com/acme/ /" = false := by
  decide

end JvmLint
