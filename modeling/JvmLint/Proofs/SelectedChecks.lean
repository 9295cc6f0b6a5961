import JvmLint.Pattern.GlobTree
import JvmLint.Proofs.Blanks
import JvmLint.Proofs.BuiltInChecks
import JvmLint.Proofs.Outcomes

/-!
# Selected checks

A selection reads its includes in two ways: plain texts are looked up as names, all others are
compiled as patterns in lower case. Blank texts are dropped on both ways, and that a pattern matches
nothing is noticed last. What is selected can be said without any of this, text by text, so it
depends on which texts there are and not on their order or number.
-/

namespace JvmLint

namespace Registry
variable {r : Registry} {includes excludes : List String} {s : String} {k : Check}

theorem not_isBlank_of_glob {c : Char} (h : (Pattern.isGlobChar c || c == '!') = true) : Text.isBlank c = false := by
  simp only [Pattern.isGlobChar, List.contains_iff_mem, List.mem_cons, List.not_mem_nil, or_false, Bool.or_eq_true,
    beq_iff_eq] at h
  rcases h with (rfl | rfl | rfl | rfl | rfl | rfl) | rfl <;> decide

theorem isGlob_trim (s : String) : isGlob (Text.trim s) = isGlob s := by
  rw [Bool.eq_iff_iff]
  simp only [isGlob, List.any_eq_true, Text.trim, String.toList_ofList]
  constructor
  · rintro ⟨c, hc, hglob⟩
    exact ⟨c, (Text.mem_trimList (not_isBlank_of_glob hglob)).1 hc, hglob⟩
  · rintro ⟨c, hc, hglob⟩
    exact ⟨c, (Text.mem_trimList (not_isBlank_of_glob hglob)).2 hc, hglob⟩

/-! ## What a text stands for -/

def namePattern [GlobLibrary] (s : String) : Except PatternDefect Pattern :=
  Pattern.compile (Text.lower (Text.trim s))

def IsPattern [GlobLibrary] (s : String) : Prop := ∃ p, namePattern s = .ok p

def Names (s : String) (k : Check) : Prop := Text.lower k.name = Text.lower (Text.trim s)

def Matches [GlobLibrary] (s : String) (k : Check) : Prop :=
  ∃ p, namePattern s = .ok p ∧ p.covers (Text.lower k.name) = true

/-- An include asks for a check: by a pattern if it has a glob character in it, by name if not. -/
def Asks [GlobLibrary] (s : String) (k : Check) : Prop :=
  Text.trim s ≠ "" ∧ if isGlob s then Matches s k else Names s k

/-- An include asks for the check, or there is none, and no exclude matches it. -/
def Selected [GlobLibrary] (includes excludes : List String) (k : Check) : Prop :=
  ((∃ s ∈ includes, Asks s k) ∨ ∀ s ∈ includes, Text.trim s = "") ∧ ∀ s ∈ excludes, ¬ Matches s k

inductive Refuses [GlobLibrary] (r : Registry) (includes excludes : List String) : Prop where
  | unknown (s : String) (hs : s ∈ includes) (hblank : Text.trim s ≠ "") (hplain : isGlob s = false)
      (hnames : ∀ k ∈ r.checks, ¬ Names s k)
  | badInclude (s : String) (hs : s ∈ includes) (hglob : isGlob s = true) (hbad : ¬ IsPattern s)
  | badExclude (s : String) (hs : s ∈ excludes) (hblank : Text.trim s ≠ "") (hbad : ¬ IsPattern s)
  | unmatched (s : String) (hs : s ∈ includes) (hglob : isGlob s = true) (hnone : ∀ k ∈ r.checks, ¬ Matches s k)

theorem matches_iff [GlobLibrary] :
    Matches s k ↔ (namePattern s).toOption.any (fun p => p.covers (Text.lower k.name)) = true := by
  unfold Matches
  rcases outcome (namePattern s) with ⟨e, he⟩ | ⟨p, hp⟩
  · rw [he]
    constructor
    · rintro ⟨p, hp, -⟩
      cases hp
    · intro h
      cases h
  · rw [hp]
    constructor
    · rintro ⟨q, hq, hcovers⟩
      cases hq
      exact hcovers
    · exact fun hcovers => ⟨p, rfl, hcovers⟩

instance : Decidable (Names s k) := inferInstanceAs (Decidable (Text.lower k.name = Text.lower (Text.trim s)))

instance [GlobLibrary] : Decidable (Matches s k) := decidable_of_iff _ matches_iff.symm

instance [GlobLibrary] : Decidable (Asks s k) :=
  inferInstanceAs (Decidable (Text.trim s ≠ "" ∧ if isGlob s then Matches s k else Names s k))

instance [GlobLibrary] : Decidable (Selected includes excludes k) :=
  inferInstanceAs (Decidable (((∃ s ∈ includes, Asks s k) ∨ ∀ s ∈ includes, Text.trim s = "") ∧
    ∀ s ∈ excludes, ¬ Matches s k))

theorem not_isPattern_of_blank [GlobLibrary] (h : Text.trim s = "") : ¬ IsPattern s := by
  rintro ⟨p, hp⟩
  rw [namePattern, h] at hp
  cases hp

theorem not_blank_of_isGlob (h : isGlob s = true) : Text.trim s ≠ "" := by
  intro hblank
  rw [← isGlob_trim, hblank] at h
  cases h

/-! ## The steps of a selection -/

theorem mem_nonBlank {l : List String} {t : String} : t ∈ nonBlank l ↔ ∃ s ∈ l, Text.trim s = t ∧ Text.trim s ≠ "" := by
  simp only [nonBlank, List.mem_filter, List.mem_map, bne_iff_ne]
  constructor
  · rintro ⟨⟨s, hs, rfl⟩, hne⟩
    exact ⟨s, hs, rfl, hne⟩
  · rintro ⟨s, hs, rfl, hne⟩
    exact ⟨⟨s, hs, rfl⟩, hne⟩

theorem nonBlank_isEmpty {l : List String} : (nonBlank l).isEmpty = true ↔ ∀ s ∈ l, Text.trim s = "" := by
  simp [nonBlank, List.isEmpty_iff]

/-- A text that is read is a given one without the blanks around it. -/
theorem exists_mem_read {l : List String} {q : String → Bool} {P : String → Prop} :
    (∃ t ∈ (nonBlank l).filter q, P t) ↔ ∃ s ∈ l, Text.trim s ≠ "" ∧ q (Text.trim s) = true ∧ P (Text.trim s) := by
  simp only [List.mem_filter, mem_nonBlank]
  constructor
  · rintro ⟨t, ⟨⟨s, hs, rfl, hne⟩, hq⟩, hP⟩
    exact ⟨s, hs, hne, hq, hP⟩
  · rintro ⟨s, hs, hne, hq, hP⟩
    exact ⟨Text.trim s, ⟨⟨s, hs, rfl, hne⟩, hq⟩, hP⟩

theorem forall_mem_read {l : List String} {q : String → Bool} {P : String → Prop} :
    (∀ t ∈ (nonBlank l).filter q, P t) ↔ ∀ s ∈ l, Text.trim s ≠ "" → q (Text.trim s) = true → P (Text.trim s) := by
  constructor
  · intro h s hs hne hq
    exact h _ (List.mem_filter.2 ⟨mem_nonBlank.2 ⟨s, hs, rfl, hne⟩, hq⟩)
  · intro h t ht
    obtain ⟨hread, hq⟩ := List.mem_filter.1 ht
    obtain ⟨s, hs, rfl, hne⟩ := mem_nonBlank.1 hread
    exact h s hs hne hq

@[simp] theorem names_trim : Names (Text.trim s) k ↔ Names s k := by
  simp [Names]

@[simp] theorem namePattern_trim [GlobLibrary] : namePattern (Text.trim s) = namePattern s := by
  simp [namePattern]

@[simp] theorem isPattern_trim [GlobLibrary] : IsPattern (Text.trim s) ↔ IsPattern s := by
  simp [IsPattern]

@[simp] theorem matches_trim [GlobLibrary] : Matches (Text.trim s) k ↔ Matches s k := by
  simp [Matches]

theorem lookup_eq_none : r.lookup s = none ↔ ∀ k ∈ r.checks, ¬ Names s k := by
  simp [lookup, Names]

theorem names_of_lookup (h : r.lookup s = some k) : Names s k := by
  have hname := List.find?_some h
  exact beq_iff_eq.1 hname

theorem named_eq_ok {l : List String} :
    (∃ names, r.named l = .ok names) ↔ ∀ s ∈ l, ∃ k ∈ r.checks, Names s k := by
  have hknown : ∀ s, (∃ k ∈ r.checks, Names s k) ↔ ∃ k, r.lookup s = some k := by
    intro s
    rw [← Option.isSome_iff_exists, ← Option.ne_none_iff_isSome, Ne, lookup_eq_none]
    simp
  simp only [hknown]
  constructor
  · rintro ⟨names, h⟩ s hs
    obtain ⟨a, ha⟩ := ok_of_mapM h s hs
    cases hl : r.lookup s with
    | none => simp [hl] at ha
    | some k => exact ⟨k, rfl⟩
  · intro h
    refine (mapM_ok fun s hs => ?_).imp fun _ hnames => hnames.1
    obtain ⟨k, hk⟩ := h s hs
    exact ⟨Text.lower k.name, by rw [hk]⟩

theorem mem_named {l names : List String} (h : r.named l = .ok names) :
    Text.lower k.name ∈ names ↔ ∃ s ∈ l, Names s k := by
  rw [mem_of_mapM h]
  constructor
  · rintro ⟨s, hs, hstep⟩
    cases hl : r.lookup s with
    | none => simp [hl] at hstep
    | some j =>
      have hj : Names s j := names_of_lookup hl
      simp only [hl, Except.ok.injEq] at hstep
      exact ⟨s, hs, hstep.symm.trans hj⟩
  · rintro ⟨s, hs, hk⟩
    obtain ⟨a, ha⟩ := ok_of_mapM h s hs
    cases hl : r.lookup s with
    | none => simp [hl] at ha
    | some j =>
      have hj : Names s j := names_of_lookup hl
      exact ⟨s, hs, by simp only [hl]; rw [hj, hk]⟩

theorem compileNames_eq_ok [GlobLibrary] {l : List String} :
    (∃ ps, compileNames l = .ok ps) ↔ ∀ s ∈ l, Text.trim s ≠ "" → IsPattern s := by
  simp only [compileNames, mapError_eq_ok, Pattern.compileAll]
  constructor
  · rintro ⟨ps, h⟩ s hs hne
    exact ok_of_mapM h _ (List.mem_map_of_mem (mem_nonBlank.2 ⟨s, hs, rfl, hne⟩))
  · intro h
    refine (mapM_ok fun t ht => ?_).imp fun _ hps => hps.1
    obtain ⟨u, hu, rfl⟩ := List.mem_map.1 ht
    obtain ⟨s, hs, rfl, hne⟩ := mem_nonBlank.1 hu
    exact h s hs hne

theorem mem_compileNames [GlobLibrary] {l : List String} {ps : List Pattern} (h : compileNames l = .ok ps)
    {p : Pattern} :
    p ∈ ps ↔ ∃ s ∈ l, namePattern s = .ok p := by
  rw [compileNames, mapError_eq_ok] at h
  rw [mem_of_mapM h]
  constructor
  · rintro ⟨t, ht, hp⟩
    obtain ⟨u, hu, rfl⟩ := List.mem_map.1 ht
    obtain ⟨s, hs, rfl, -⟩ := mem_nonBlank.1 hu
    exact ⟨s, hs, hp⟩
  · rintro ⟨s, hs, hp⟩
    have hne : Text.trim s ≠ "" := fun hblank => not_isPattern_of_blank hblank ⟨p, hp⟩
    exact ⟨_, List.mem_map_of_mem (mem_nonBlank.2 ⟨s, hs, rfl, hne⟩), hp⟩

theorem anyCovers_compileNames [GlobLibrary] {l : List String} {ps : List Pattern} (h : compileNames l = .ok ps) :
    Pattern.anyCovers ps (Text.lower k.name) = true ↔ ∃ s ∈ l, Matches s k := by
  simp only [Pattern.anyCovers, List.any_eq_true, mem_compileNames h, Matches]
  constructor
  · rintro ⟨p, ⟨s, hs, hp⟩, hcovers⟩
    exact ⟨s, hs, p, hp, hcovers⟩
  · rintro ⟨s, hs, p, hp, hcovers⟩
    exact ⟨p, ⟨s, hs, hp⟩, hcovers⟩

/-! ## What a selection does -/

/-- A selection that succeeds takes each of its steps. -/
theorem select_eq_ok [GlobLibrary] {out : List Check} :
    r.select includes excludes = .ok out ↔
      ∃ names globs drop,
        r.named ((nonBlank includes).filter (!isGlob ·)) = .ok names ∧
        compileNames ((nonBlank includes).filter isGlob) = .ok globs ∧
        compileNames excludes = .ok drop ∧
        (∀ p ∈ globs, ∃ k ∈ r.checks, p.covers (Text.lower k.name) = true) ∧
        (r.checks.filter fun k => ((nonBlank includes).isEmpty || names.contains (Text.lower k.name) ||
          Pattern.anyCovers globs (Text.lower k.name)) && !Pattern.anyCovers drop (Text.lower k.name)) = out := by
  have hfind : ∀ globs : List Pattern, (globs.find? fun p => !r.checks.any fun k => p.covers (Text.lower k.name)) = none ↔
      ∀ p ∈ globs, ∃ k ∈ r.checks, p.covers (Text.lower k.name) = true := by
    intro globs
    simp
  constructor
  · intro h
    obtain ⟨names, hnames, h⟩ := except_bind_eq_ok.1 h
    obtain ⟨globs, hglobs, h⟩ := except_bind_eq_ok.1 h
    obtain ⟨drop, hdrop, h⟩ := except_bind_eq_ok.1 h
    refine ⟨names, globs, drop, hnames, hglobs, hdrop, ?_⟩
    split at h
    · cases h
    · rename_i hnone
      exact ⟨(hfind globs).1 hnone, Except.ok.inj h⟩
  · rintro ⟨names, globs, drop, hnames, hglobs, hdrop, hmatched, hout⟩
    refine except_bind_eq_ok.2 ⟨names, hnames, except_bind_eq_ok.2 ⟨globs, hglobs, except_bind_eq_ok.2 ⟨drop, hdrop, ?_⟩⟩⟩
    rw [(hfind globs).2 hmatched]
    exact congrArg Except.ok hout

theorem asks_iff [GlobLibrary] {names : List String} {globs : List Pattern}
    (hnames : r.named ((nonBlank includes).filter (!isGlob ·)) = .ok names)
    (hglobs : compileNames ((nonBlank includes).filter isGlob) = .ok globs) :
    Text.lower k.name ∈ names ∨ Pattern.anyCovers globs (Text.lower k.name) = true ↔ ∃ s ∈ includes, Asks s k := by
  rw [mem_named hnames, anyCovers_compileNames hglobs, exists_mem_read, exists_mem_read]
  simp only [isGlob_trim, names_trim, matches_trim, Bool.not_eq_true', Asks]
  constructor
  · rintro (⟨s, hs, hne, hplain, hk⟩ | ⟨s, hs, hne, hglob, hk⟩)
    · exact ⟨s, hs, hne, by simpa [hplain] using hk⟩
    · exact ⟨s, hs, hne, by simpa [hglob] using hk⟩
  · rintro ⟨s, hs, hne, hk⟩
    by_cases hglob : isGlob s = true
    · exact .inr ⟨s, hs, hne, hglob, by simpa [hglob] using hk⟩
    · exact .inl ⟨s, hs, hne, by simpa using hglob, by simpa [hglob] using hk⟩

theorem not_refuses_of_select [GlobLibrary] {out : List Check} (h : r.select includes excludes = .ok out) :
    ¬ r.Refuses includes excludes := by
  obtain ⟨names, globs, drop, hnames, hglobs, hdrop, hmatched, -⟩ := select_eq_ok.1 h
  intro hrefuses
  cases hrefuses with
  | unknown s hs hblank hplain hnone =>
    have hknown := forall_mem_read.1 (named_eq_ok.1 ⟨names, hnames⟩) s hs hblank (by simp [isGlob_trim, hplain])
    obtain ⟨k, hk, hname⟩ := hknown
    exact hnone k hk (names_trim.1 hname)
  | badInclude s hs hglob hbad =>
    have hread := forall_mem_read.1 (compileNames_eq_ok.1 ⟨globs, hglobs⟩) s hs (not_blank_of_isGlob hglob)
      (by simp [isGlob_trim, hglob])
    exact hbad (isPattern_trim.1 (hread (by simpa using not_blank_of_isGlob hglob)))
  | badExclude s hs hblank hbad => exact hbad (compileNames_eq_ok.1 ⟨drop, hdrop⟩ s hs hblank)
  | unmatched s hs hglob hnone =>
    have hne := not_blank_of_isGlob hglob
    have hread := forall_mem_read.1 (compileNames_eq_ok.1 ⟨globs, hglobs⟩) s hs hne (by simp [isGlob_trim, hglob])
    obtain ⟨p, hp⟩ := isPattern_trim.1 (hread (by simpa using hne))
    have hmem : p ∈ globs := by
      rw [mem_compileNames hglobs, exists_mem_read]
      exact ⟨s, hs, hne, by simp [isGlob_trim, hglob], by simpa using hp⟩
    obtain ⟨k, hk, hcovers⟩ := hmatched p hmem
    exact hnone k hk ⟨p, hp, hcovers⟩

theorem select_of_not_refuses [GlobLibrary] (h : ¬ r.Refuses includes excludes) :
    r.select includes excludes = .ok (r.checks.filter fun k => Selected includes excludes k) := by
  obtain ⟨names, hnames⟩ : ∃ names, r.named ((nonBlank includes).filter (!isGlob ·)) = .ok names := by
    refine named_eq_ok.2 (forall_mem_read.2 fun s hs hne hplain => ?_)
    by_contra hnone
    refine h (.unknown s hs hne (by simpa [isGlob_trim] using hplain) fun k hk hname => hnone ⟨k, hk, ?_⟩)
    exact names_trim.2 hname
  obtain ⟨globs, hglobs⟩ : ∃ globs, compileNames ((nonBlank includes).filter isGlob) = .ok globs := by
    refine compileNames_eq_ok.2 (forall_mem_read.2 fun s hs _ hglob _ => ?_)
    by_contra hbad
    exact h (.badInclude s hs (by simpa [isGlob_trim] using hglob) (by simpa using hbad))
  obtain ⟨drop, hdrop⟩ : ∃ drop, compileNames excludes = .ok drop := by
    refine compileNames_eq_ok.2 fun s hs hne => ?_
    by_contra hbad
    exact h (.badExclude s hs hne hbad)
  refine select_eq_ok.2 ⟨names, globs, drop, hnames, hglobs, hdrop, ?_, ?_⟩
  · intro p hp
    obtain ⟨s, hs, -, hglob, hpattern⟩ := exists_mem_read.1 ((mem_compileNames hglobs).1 hp)
    rw [namePattern_trim] at hpattern
    by_contra hnone
    refine h (.unmatched s hs (by simpa [isGlob_trim] using hglob) ?_)
    rintro k hk ⟨q, hq, hcovers⟩
    obtain rfl : p = q := Except.ok.inj (hpattern.symm.trans hq)
    exact hnone ⟨k, hk, hcovers⟩
  · refine List.filter_congr fun k _ => ?_
    rw [Bool.eq_iff_iff, decide_eq_true_iff, Selected, ← asks_iff hnames hglobs, ← nonBlank_isEmpty]
    simp only [Bool.and_eq_true, Bool.or_eq_true, List.contains_iff_mem, Bool.not_eq_true',
      ← Bool.not_eq_true, anyCovers_compileNames hdrop]
    grind

theorem select_eq_ok_iff [GlobLibrary] {out : List Check} :
    r.select includes excludes = .ok out ↔
      ¬ r.Refuses includes excludes ∧ (r.checks.filter fun k => Selected includes excludes k) = out := by
  constructor
  · intro h
    have hgood := not_refuses_of_select h
    exact ⟨hgood, Except.ok.inj ((select_of_not_refuses hgood).symm.trans h)⟩
  · rintro ⟨hgood, rfl⟩
    exact select_of_not_refuses hgood

theorem select_eq_error_iff [GlobLibrary] :
    (∃ e, r.select includes excludes = .error e) ↔ r.Refuses includes excludes := by
  constructor
  · rintro ⟨e, he⟩
    by_contra hgood
    rw [select_of_not_refuses hgood] at he
    cases he
  · intro hrefuses
    rcases outcome (r.select includes excludes) with herror | ⟨out, hout⟩
    · exact herror
    · exact absurd hrefuses (not_refuses_of_select hout)

/-! ## Other lists with the same texts -/

theorem Refuses.mono [GlobLibrary] {includes' excludes' : List String} (h : r.Refuses includes excludes)
    (hi : ∀ s ∈ includes, s ∈ includes') (he : ∀ s ∈ excludes, s ∈ excludes') : r.Refuses includes' excludes' := by
  cases h with
  | unknown s hs hblank hplain hnames => exact .unknown s (hi s hs) hblank hplain hnames
  | badInclude s hs hglob hbad => exact .badInclude s (hi s hs) hglob hbad
  | badExclude s hs hblank hbad => exact .badExclude s (he s hs) hblank hbad
  | unmatched s hs hglob hnone => exact .unmatched s (hi s hs) hglob hnone

/-- One more exclude is no reason to refuse, unless it is no pattern. -/
theorem Refuses.of_exclude [GlobLibrary] {excludes' : List String} (h : r.Refuses includes excludes')
    (hs : Text.trim s = "" ∨ IsPattern s) (he : ∀ t ∈ excludes', t = s ∨ t ∈ excludes) : r.Refuses includes excludes := by
  cases h with
  | unknown t ht hblank hplain hnames => exact .unknown t ht hblank hplain hnames
  | badInclude t ht hglob hbad => exact .badInclude t ht hglob hbad
  | unmatched t ht hglob hnone => exact .unmatched t ht hglob hnone
  | badExclude t ht hblank hbad =>
    rcases he t ht with rfl | ht
    · exact absurd hs (not_or.2 ⟨hblank, hbad⟩)
    · exact .badExclude t ht hblank hbad

theorem toOption_select [GlobLibrary] {includes' excludes' : List String} {g : List Check → List Check}
    (hrefuses : r.Refuses includes' excludes' ↔ r.Refuses includes excludes)
    (hselected : (r.checks.filter fun k => Selected includes' excludes' k) =
      g (r.checks.filter fun k => Selected includes excludes k)) :
    (r.select includes' excludes').toOption = (r.select includes excludes).toOption.map g := by
  by_cases h : r.Refuses includes excludes
  · obtain ⟨e, he⟩ := select_eq_error_iff.2 h
    obtain ⟨e', he'⟩ := select_eq_error_iff.2 (hrefuses.2 h)
    rw [he, he']
    rfl
  · rw [select_of_not_refuses h, select_of_not_refuses (mt hrefuses.1 h), hselected]
    rfl

/-! ## Registration -/

theorem nodup_of_go {seen : List String} {checks : List Check} (h : ofChecks.go seen checks = .ok ()) :
    (checks.map fun k => Text.lower k.name).Nodup ∧ ∀ k ∈ checks, Text.lower k.name ∉ seen := by
  induction checks generalizing seen with
  | nil => simp
  | cons k ks ih =>
    rw [ofChecks.go] at h
    by_cases hk : Text.lower k.name ∈ seen
    · simp [hk] at h
    · simp only [List.contains_iff_mem, hk, if_false] at h
      obtain ⟨hnodup, hnew⟩ := ih h
      refine ⟨?_, ?_⟩
      · rw [List.map_cons, List.nodup_cons]
        refine ⟨?_, hnodup⟩
        intro hmem
        obtain ⟨j, hj, hname⟩ := List.mem_map.1 hmem
        exact hnew j hj (by simp [hname])
      · intro j hj
        rcases List.mem_cons.1 hj with rfl | hj
        · exact hk
        · exact fun hmem => hnew j hj (by simp [hmem])

theorem nodup_of_ofChecks {checks : List Check} (h : ofChecks checks = .ok r) :
    r.checks = checks ∧ (checks.map fun k => Text.lower k.name).Nodup := by
  unfold ofChecks at h
  rcases outcome (ofChecks.go [] checks) with ⟨e, he⟩ | ⟨⟨⟩, hgo⟩
  · rw [he] at h
    cases h
  · rw [hgo] at h
    cases h
    exact ⟨rfl, (nodup_of_go hgo).1⟩

/-- A selection fails exactly if one of its texts gives a reason to, and gives the checks, in the order of the
registry, that its texts select if not; of a registry that was built, each check once. Lists with the same texts select
the same, and one more exclude takes the checks that it matches away and does nothing else. -/
theorem select_by_patterns [GlobLibrary] (r : Registry) (includes excludes : List String) :
    ((∃ e, r.select includes excludes = .error e) ↔ r.Refuses includes excludes) ∧
    (¬ r.Refuses includes excludes →
      r.select includes excludes = .ok (r.checks.filter fun k => Selected includes excludes k)) ∧
    (∀ checks out, ofChecks checks = .ok r → r.select includes excludes = .ok out →
      out.Sublist checks ∧ (out.map fun k => Text.lower k.name).Nodup) ∧
    (∀ includes' excludes', (∀ s, s ∈ includes' ↔ s ∈ includes) → (∀ s, s ∈ excludes' ↔ s ∈ excludes) →
      (r.select includes' excludes').toOption = (r.select includes excludes).toOption) ∧
    ∀ s excludes', Text.trim s = "" ∨ IsPattern s → (∀ t, t ∈ excludes' ↔ t = s ∨ t ∈ excludes) →
      (r.select includes excludes').toOption =
        (r.select includes excludes).toOption.map (List.filter fun k => ¬ Matches s k) := by
  refine ⟨select_eq_error_iff, select_of_not_refuses, ?_, ?_, ?_⟩
  · intro checks out hbuilt hout
    obtain ⟨rfl, hnodup⟩ := nodup_of_ofChecks hbuilt
    obtain ⟨-, rfl⟩ := select_eq_ok_iff.1 hout
    have hsub := List.filter_sublist (l := r.checks) (p := fun k => Selected includes excludes k)
    exact ⟨hsub, hnodup.sublist (hsub.map _)⟩
  · intro includes' excludes' hi he
    have hselected : ∀ k, Selected includes' excludes' k ↔ Selected includes excludes k := by
      simp only [Selected, hi, he, implies_true]
    have hsame := toOption_select (r := r) (g := id)
      ⟨fun h => h.mono (fun s hs => (hi s).1 hs) fun s hs => (he s).1 hs,
        fun h => h.mono (fun s hs => (hi s).2 hs) fun s hs => (he s).2 hs⟩
      (by simp only [hselected, id])
    rwa [Option.map_id] at hsame
  · intro s excludes' hs he
    refine toOption_select ⟨fun h => h.of_exclude hs fun t ht => (he t).1 ht,
      fun h => h.mono (fun t ht => ht) fun t ht => (he t).2 (.inr ht)⟩ ?_
    rw [List.filter_filter]
    refine List.filter_congr fun k _ => ?_
    rw [Bool.eq_iff_iff]
    simp only [Bool.and_eq_true, decide_eq_true_iff, Selected, he, forall_eq_or_imp]
    grind

def memberChecks : Registry :=
  { checks := [UnusedParameter.check, UnusedField.check, HashCodeEquals.check, Encapsulation.check] }

/-- A name with blanks around it, a pattern and a blank text; then the same texts in another order and twice, and then
one more exclude. -/
theorem select_by_patterns_members :
    ∃ out, memberChecks.select [" hashcodeequals ", "Unused*", " "] ["UnusedField"] = .ok out ∧
      out.map (·.name) = ["UnusedParameter", "HashCodeEquals"] ∧
      (out.map fun k => Text.lower k.name).Nodup ∧
      (memberChecks.select [" ", "Unused*", " hashcodeequals ", "Unused*"] ["UnusedField", "UnusedField"]).toOption =
        some out ∧
      (memberChecks.select [" hashcodeequals ", "Unused*", " "] ["*Equals", "UnusedField"]).toOption =
        some (out.filter fun k => ¬ Matches "*Equals" k) := by
  have hnames : (memberChecks.select [" hashcodeequals ", "Unused*", " "] ["UnusedField"]).toOption.map
      (List.map fun k => k.name) = some ["UnusedParameter", "HashCodeEquals"] := by decide +kernel
  have hpattern : (namePattern "*Equals").toOption.isSome = true := by decide +kernel
  rcases outcome (memberChecks.select [" hashcodeequals ", "Unused*", " "] ["UnusedField"]) with ⟨e, he⟩ | ⟨out, hout⟩
  · rw [he] at hnames
    cases hnames
  rcases outcome (namePattern "*Equals") with ⟨e, he⟩ | hequals
  · rw [he] at hpattern
    cases hpattern
  obtain ⟨-, -, honce, hsame, hmore⟩ :=
    select_by_patterns memberChecks [" hashcodeequals ", "Unused*", " "] ["UnusedField"]
  have hbuilt : ofChecks memberChecks.checks = .ok memberChecks := ofChecks_of_nodup (by decide +kernel)
  have hanother := hsame [" ", "Unused*", " hashcodeequals ", "Unused*"] ["UnusedField", "UnusedField"]
    (by grind) (by grind)
  have hfewer := hmore "*Equals" ["*Equals", "UnusedField"] (.inr hequals) (by simp)
  rw [hout] at hnames hanother hfewer
  exact ⟨out, hout, Option.some.inj hnames, (honce _ out hbuilt hout).2, hanother, hfewer⟩

end Registry

end JvmLint
