import JvmLint.Proofs.Blanks
import JvmLint.Proofs.LayerMappings
import JvmLint.Proofs.PathLaws
import Mathlib.Data.List.Pairwise

/-!
# Patterns claimed by layers

Validation keeps the class form of each pattern with the layer that claimed it, and refuses a second layer for it. What
a pattern covers is decided by the normalized form. So two layers cannot share a class form (`validateLayers_eq_ok`),
but any pattern can be claimed twice, with a slash behind it the second time.
-/

namespace JvmLint

/-! ## Spellings -/

theorem normalizePath_append_slash {s : String} (h : Text.trim s = s) (hne : s ≠ "") :
    normalizePath (s ++ "/") = normalizePath s := by
  have htrim : Text.trim (Text.swap s '\\' '/') = Text.swap s '\\' '/' := by
    rw [Text.trim_swap (by decide) (by decide), h]
  have hswap : Text.swap (s ++ "/") '\\' '/' = Text.swap s '\\' '/' ++ "/" := Text.swap_append s "/" _ _
  have hkept : Text.swap s '\\' '/' ≠ "" := by
    simpa only [Text.swap, Text.mapChars, Ne, String.ofList_eq_empty_iff, List.map_eq_nil_iff, String.toList_eq_nil_iff]
      using hne
  have hclean : Path.clean (Text.swap s '\\' '/' ++ "/") = Path.clean (Text.swap s '\\' '/') := by
    have hof := Path.Clean.of_append hkept ""
    rw [String.append_empty, Path.Clean.after_empty] at hof
    rw [Path.clean, Path.clean, hof]
  rw [normalizePath, normalizePath, hswap, Text.trim_append_slash htrim, htrim, hclean]

theorem trim_classPattern {raw : String} (h : Text.trim raw = raw) : Text.trim (classPattern raw) = classPattern raw := by
  unfold classPattern
  split
  · exact h
  · rw [Text.trim_swap (by decide) (by decide), h]

theorem classPattern_append_slash (s : String) : classPattern (s ++ "/") = s ++ "/" := by
  have hslash : (s ++ "/").toList.contains '/' = true := by simp
  rw [classPattern, if_pos hslash]

theorem append_slash_ne (s : String) : s ≠ s ++ "/" := by
  intro h
  have hlength := congrArg String.length h
  rw [String.length_append] at hlength
  exact absurd hlength (by simp)

namespace Pattern

variable {raw raw' : String} {p p' : Pattern}

/-- What a pattern is compiled to depends on the normalized form alone. -/
theorem compile_normalized [GlobLibrary] (h : compile raw = .ok p) :
    p.text = normalizePath raw ∧ ∀ raw', normalizePath raw' = normalizePath raw → compile raw' = .ok p := by
  unfold compile at h ⊢
  generalize normalizePath raw = text at h ⊢
  by_cases hempty : text = ""
  · simp [hempty] at h
  by_cases hglob : text.toList.any isGlobChar = true
  · cases hcompiled : Glob.compile text with
    | error e => simp [hempty, hglob, hcompiled] at h
    | ok g =>
      simp only [hempty, hglob, hcompiled, if_true, if_false, Except.ok.injEq] at h
      subst h
      exact ⟨rfl, fun raw' hraw' => by simp [hraw', hempty, hglob, hcompiled]⟩
  · simp only [hempty, hglob, Bool.false_eq_true, if_false, Except.ok.injEq] at h
    subst h
    exact ⟨rfl, fun raw' hraw' => by simp [hraw', hempty, hglob]⟩

theorem eq_iff_normalizePath_eq [GlobLibrary] (h : compile raw = .ok p) (h' : compile raw' = .ok p') :
    p = p' ↔ normalizePath raw = normalizePath raw' := by
  obtain ⟨htext, -⟩ := compile_normalized h
  obtain ⟨htext', hall⟩ := compile_normalized h'
  constructor
  · intro heq
    rw [← htext, ← htext', heq]
  · intro heq
    rw [hall raw heq] at h
    exact (Except.ok.inj h).symm

theorem compile_append_slash [GlobLibrary] {s : String} (htrim : Text.trim s = s) (h : compile s = .ok p) :
    compile (s ++ "/") = .ok p := by
  have hne : s ≠ "" := by
    rintro rfl
    cases h
  exact (compile_normalized h).2 _ (normalizePath_append_slash htrim hne)

end Pattern

namespace Config

/-! ## Claims -/

variable {layer raw key : String} {raws names : List String} {claimed claimed' : Claimed} {ls : List LayerPaths}

def Free (layer : String) (claimed : Claimed) (raw : String) : Prop :=
  ∀ owner, claimed.lookup (classPattern raw) = some owner → owner = layer

theorem claimPattern_isOk_iff [GlobLibrary] : (∃ claimed', claimPattern layer claimed raw = .ok claimed') ↔
    (∃ p, Pattern.compile (classPattern raw) = .ok p) ∧ Free layer claimed raw := by
  unfold claimPattern Free
  cases hp : Pattern.compile (classPattern raw) with
  | error d => simp
  | ok p =>
    cases hlookup : claimed.lookup (classPattern raw) with
    | none => simp
    | some owner =>
      by_cases howner : owner = layer
      · simp [howner]
      · simp [howner]

theorem lookup_claimPattern [GlobLibrary] (h : claimPattern layer claimed raw = .ok claimed') (key : String) :
    claimed'.lookup key = (claimed.lookup key).or (if key = classPattern raw then some layer else none) := by
  unfold claimPattern at h
  cases hp : Pattern.compile (classPattern raw) with
  | error d => simp [hp] at h
  | ok p =>
    cases hlookup : claimed.lookup (classPattern raw) with
    | none =>
      simp only [hp, hlookup, Except.ok.injEq] at h
      subst h
      by_cases hkey : key = classPattern raw
      · simp [hkey, hlookup]
      · simp [List.lookup_cons, beq_false_of_ne hkey, hkey]
    | some owner =>
      by_cases howner : owner = layer
      · simp only [hp, hlookup, howner, if_true, Except.ok.injEq] at h
        subst h
        by_cases hkey : key = classPattern raw
        · simp [hkey, hlookup, howner]
        · simp [hkey]
      · simp [hp, hlookup, howner] at h

theorem lookup_claimAll [GlobLibrary] (h : raws.foldlM (claimPattern layer) claimed = .ok claimed') (key : String) :
    claimed'.lookup key = (claimed.lookup key).or (if key ∈ raws.map classPattern then some layer else none) := by
  induction raws generalizing claimed with
  | nil =>
    cases h
    simp
  | cons raw raws ih =>
    rw [List.foldlM_cons] at h
    obtain ⟨between, hstep, hrest⟩ := except_bind_eq_ok.1 h
    rw [ih hrest, lookup_claimPattern hstep, Option.or_assoc]
    by_cases hkey : key = classPattern raw
    · simp [hkey]
    · simp [hkey]

theorem claimAll_isOk_iff [GlobLibrary] : (∃ claimed', raws.foldlM (claimPattern layer) claimed = .ok claimed') ↔
    Compiles raws ∧ ∀ raw ∈ raws, Free layer claimed raw := by
  induction raws generalizing claimed with
  | nil => simpa [Compiles] using ⟨claimed, rfl⟩
  | cons raw raws ih =>
    -- what the layer has claimed itself stays free for it
    have hfree : ∀ {between}, claimPattern layer claimed raw = .ok between →
        ∀ raw', Free layer between raw' ↔ Free layer claimed raw' := by
      intro between hstep raw'
      unfold Free
      rw [lookup_claimPattern hstep]
      cases hlookup : claimed.lookup (classPattern raw') with
      | some owner => simp
      | none => simp [eq_comm]
    rw [List.foldlM_cons]
    constructor
    · rintro ⟨claimed', h⟩
      obtain ⟨between, hstep, hrest⟩ := except_bind_eq_ok.1 h
      obtain ⟨hfirst, hown⟩ := claimPattern_isOk_iff.1 ⟨between, hstep⟩
      obtain ⟨hcompiles, hrests⟩ := ih.1 ⟨claimed', hrest⟩
      exact ⟨List.forall_mem_cons.2 ⟨hfirst, hcompiles⟩,
        List.forall_mem_cons.2 ⟨hown, fun raw' hraw' => (hfree hstep raw').1 (hrests raw' hraw')⟩⟩
    · rintro ⟨hcompiles, hfrees⟩
      obtain ⟨hfirst, hcompiles⟩ := List.forall_mem_cons.1 hcompiles
      obtain ⟨hown, hfrees⟩ := List.forall_mem_cons.1 hfrees
      obtain ⟨between, hstep⟩ := claimPattern_isOk_iff.2 ⟨hfirst, hown⟩
      obtain ⟨claimed', hrest⟩ := ih.2 ⟨hcompiles, fun raw' hraw' => (hfree hstep raw').2 (hfrees raw' hraw')⟩
      exact ⟨claimed', except_bind_eq_ok.2 ⟨between, hstep, hrest⟩⟩

def Apart (l l' : LayerPaths) : Prop := ∀ raw ∈ l.paths, ∀ raw' ∈ l'.paths, classPattern raw ≠ classPattern raw'

instance : Std.Symm Apart := ⟨fun _ _ h raw hraw raw' hraw' => (h raw' hraw' raw hraw).symm⟩

theorem free_claimAll_iff [GlobLibrary] {l l' : LayerPaths}
    (h : l.paths.foldlM (claimPattern l.name) claimed = .ok claimed')
    (hne : l.name ≠ l'.name) :
    (∀ raw ∈ l'.paths, Free l'.name claimed' raw) ↔ (∀ raw ∈ l'.paths, Free l'.name claimed raw) ∧ Apart l l' := by
  have hown := (claimAll_isOk_iff.1 ⟨_, h⟩).2
  constructor
  · intro hfree
    constructor
    · intro raw' hraw' owner howner
      exact hfree raw' hraw' owner (by rw [lookup_claimAll h, howner, Option.some_or])
    · intro raw hraw raw' hraw' hsame
      -- whoever had the class form before, it is claimed by the first layer now
      have hclaimed : claimed'.lookup (classPattern raw') = some l.name := by
        have hmem : classPattern raw' ∈ l.paths.map classPattern := hsame ▸ List.mem_map_of_mem hraw
        rw [lookup_claimAll h, if_pos hmem]
        cases hlookup : claimed.lookup (classPattern raw') with
        | none => rfl
        | some owner => rw [hown raw hraw owner (hsame ▸ hlookup), Option.some_or]
      exact hne (hfree raw' hraw' _ hclaimed)
  · rintro ⟨hfree, hapart⟩ raw' hraw' owner howner
    have hnew : classPattern raw' ∉ l.paths.map classPattern := by
      intro hmem
      obtain ⟨raw, hraw, hsame⟩ := List.mem_map.1 hmem
      exact hapart raw hraw raw' hraw' hsame
    rw [lookup_claimAll h, if_neg hnew, Option.or_none] at howner
    exact hfree raw' hraw' owner howner

theorem refuseIf_bind_eq_ok {bad : Bool} {d : ConfigDefect} {rest : Validated} :
    (refuseIf bad d >>= fun _ => rest) = .ok () ↔ bad = false ∧ rest = .ok () := by
  rw [except_bind_eq_ok]
  constructor
  · rintro ⟨⟨⟩, hgood, hrest⟩
    exact ⟨refuseIf_eq_ok.1 hgood, hrest⟩
  · rintro ⟨hgood, hrest⟩
    exact ⟨(), refuseIf_eq_ok.2 hgood, hrest⟩

def WellFormed [GlobLibrary] (l : LayerPaths) : Prop := isLayerName l.name = true ∧ l.paths ≠ [] ∧ Compiles l.paths

theorem validateLayers_eq_ok [GlobLibrary] {i : Nat} : validateLayers i names claimed ls = .ok () ↔
    (∀ l ∈ ls, WellFormed l) ∧ (ls.map (·.name)).Nodup ∧ ls.Pairwise Apart ∧
    (∀ l ∈ ls, l.name ∉ names) ∧ ∀ l ∈ ls, ∀ raw ∈ l.paths, Free l.name claimed raw := by
  induction ls generalizing i names claimed with
  | nil => simp [validateLayers]
  | cons l ls ih =>
    rw [validateLayers]
    simp only [refuseIf_bind_eq_ok]
    simp only [except_bind_eq_ok]
    constructor
    · rintro ⟨-, hname, hnew, hpaths, claimed', hclaim, hrest⟩
      obtain ⟨hwell, hnodup, happart, hfresh, hfree⟩ := ih.1 hrest
      obtain ⟨hcompiles, hown⟩ := claimAll_isOk_iff.1 ⟨_, hclaim⟩
      have hne : ∀ l' ∈ ls, l.name ≠ l'.name := fun l' hl' heq => hfresh l' hl' (by simp [heq])
      have hfirst := fun l' hl' => (free_claimAll_iff hclaim (hne l' hl')).1 (hfree l' hl')
      refine ⟨List.forall_mem_cons.2 ⟨⟨by simpa using hname, by simpa using hpaths, hcompiles⟩, hwell⟩, ?_,
        List.pairwise_cons.2 ⟨fun l' hl' => (hfirst l' hl').2, happart⟩,
        List.forall_mem_cons.2 ⟨by simpa using hnew, fun l' hl' hmem => hfresh l' hl' (by simp [hmem])⟩,
        List.forall_mem_cons.2 ⟨hown, fun l' hl' => (hfirst l' hl').1⟩⟩
      rw [List.map_cons, List.nodup_cons, List.mem_map]
      exact ⟨fun ⟨l', hl', heq⟩ => hne l' hl' heq.symm, hnodup⟩
    · rintro ⟨hwell, hnodup, happart, hfresh, hfree⟩
      obtain ⟨⟨hname, hpaths, hcompiles⟩, hwell⟩ := List.forall_mem_cons.1 hwell
      obtain ⟨hfirst, happart⟩ := List.pairwise_cons.1 happart
      obtain ⟨hnew, hfresh⟩ := List.forall_mem_cons.1 hfresh
      obtain ⟨hown, hfree⟩ := List.forall_mem_cons.1 hfree
      rw [List.map_cons, List.nodup_cons, List.mem_map] at hnodup
      obtain ⟨hother, hnodup⟩ := hnodup
      have hne : ∀ l' ∈ ls, l'.name ≠ l.name := fun l' hl' heq => hother ⟨l', hl', heq⟩
      have hnamed : l.name ≠ "" := by
        intro hempty
        rw [hempty] at hname
        exact absurd hname (by decide)
      obtain ⟨claimed', hclaim⟩ := claimAll_isOk_iff.2 ⟨hcompiles, hown⟩
      refine ⟨by simpa using hnamed, by simpa using hname, by simpa using hnew, by simpa using hpaths, claimed', hclaim,
        ih.2 ⟨hwell, hnodup, happart, ?_, ?_⟩⟩
      · intro l' hl' hmem
        rcases List.mem_cons.1 hmem with heq | hmem
        · exact hne l' hl' heq
        · exact hfresh l' hl' hmem
      · intro l' hl'
        exact (free_claimAll_iff hclaim (hne l' hl').symm).2 ⟨hfree l' hl', hfirst l' hl'⟩

theorem validateArchitecture_eq_ok [GlobLibrary] {a : Architecture} : validateArchitecture a = .ok () ↔
    validateKeywords a.keywords = .ok () ∧ validateRules 0 [] a.rules = .ok () ∧
    (∀ l ∈ a.layers, WellFormed l) ∧ (a.layers.map (·.name)).Nodup ∧ a.layers.Pairwise Apart := by
  have hlayers : validateLayers 0 [] [] a.layers = .ok () ↔
      (∀ l ∈ a.layers, WellFormed l) ∧ (a.layers.map (·.name)).Nodup ∧ a.layers.Pairwise Apart := by
    rw [validateLayers_eq_ok]
    simp [Free]
  rw [← hlayers, validateArchitecture]
  simp only [except_bind_eq_ok]
  constructor
  · rintro ⟨⟨⟩, hkeywords, ⟨⟩, hlayers, hrules⟩
    exact ⟨hkeywords, hrules, hlayers⟩
  · rintro ⟨hkeywords, hrules, hlayers⟩
    exact ⟨(), hkeywords, (), hlayers, hrules⟩

/-- Layers are kept apart by the class form of their patterns: an architecture is accepted if its layers are known and
declared once, their patterns compile, and no class form is declared for two of them. So patterns of two accepted layers
are the same exactly if their class forms, which differ, are normalized to one text, and every pattern can be declared
for a second layer, with a slash behind it. -/
theorem patterns_claimed_by_class_form [GlobLibrary] (a : Architecture) :
    (validateArchitecture a = .ok () ↔
      validateKeywords a.keywords = .ok () ∧ validateRules 0 [] a.rules = .ok () ∧
      (∀ l ∈ a.layers, WellFormed l) ∧ (a.layers.map (·.name)).Nodup ∧ a.layers.Pairwise Apart) ∧
    (validateArchitecture a = .ok () → ∀ l ∈ a.layers, ∀ l' ∈ a.layers, l.name ≠ l'.name →
      ∀ raw ∈ l.paths, ∀ raw' ∈ l'.paths, ∃ p p', Pattern.compile (classPattern raw) = .ok p ∧
        Pattern.compile (classPattern raw') = .ok p' ∧ classPattern raw ≠ classPattern raw' ∧
        (p = p' ↔ normalizePath (classPattern raw) = normalizePath (classPattern raw'))) ∧
    (validateArchitecture a = .ok () → ∀ raw p name name', Text.trim raw = raw →
      Pattern.compile (classPattern raw) = .ok p → isLayerName name = true → isLayerName name' = true → name ≠ name' →
      Pattern.compile (classPattern (classPattern raw ++ "/")) = .ok p ∧
      validateArchitecture { a with layers := [⟨name, [raw]⟩, ⟨name', [classPattern raw ++ "/"]⟩] } = .ok ()) := by
  refine ⟨validateArchitecture_eq_ok, ?_, ?_⟩
  · intro h l hl l' hl' hne raw hraw raw' hraw'
    obtain ⟨-, -, hwell, -, hapart⟩ := validateArchitecture_eq_ok.1 h
    obtain ⟨p, hp⟩ := (hwell l hl).2.2 raw hraw
    obtain ⟨p', hp'⟩ := (hwell l' hl').2.2 raw' hraw'
    have hforms := hapart.forall hl hl' (fun heq => hne (congrArg _ heq)) raw hraw raw' hraw'
    exact ⟨p, p', hp, hp', hforms, Pattern.eq_iff_normalizePath_eq hp hp'⟩
  · intro h raw p name name' htrim hp hname hname' hne
    obtain ⟨hkeywords, hrules, -⟩ := validateArchitecture_eq_ok.1 h
    have hslash : Pattern.compile (classPattern (classPattern raw ++ "/")) = .ok p := by
      rw [classPattern_append_slash]
      exact Pattern.compile_append_slash (trim_classPattern htrim) hp
    refine ⟨hslash, validateArchitecture_eq_ok.2 ⟨hkeywords, hrules, ?_, ?_, ?_⟩⟩
    · simp [WellFormed, Compiles, hname, hname', hp, hslash]
    · simpa using hne
    · simp [Apart, classPattern_append_slash, append_slash_ne]

def sharedWeb : Architecture :=
  { layers := [⟨"presentation", ["com.acme.web"]⟩, ⟨"domain", ["com/acme/web/"]⟩] }

theorem patterns_claimed_by_class_form_sharedWeb : validateArchitecture sharedWeb = .ok () ∧
    ∃ p, Pattern.compile (classPattern "com.acme.web") = .ok p ∧
      Pattern.compile (classPattern "com/acme/web/") = .ok p := by
  have hslash : classPattern "com.acme.web" ++ "/" = "com/acme/web/" := by decide
  have hp : Pattern.compile (classPattern "com.acme.web") = .ok ⟨"com/acme/web", none⟩ := rfl
  obtain ⟨htwice, haccepted⟩ := (patterns_claimed_by_class_form {}).2.2 rfl "com.acme.web" _ "presentation" "domain"
    (by decide) hp (by decide) (by decide) (by decide)
  rw [hslash] at htwice haccepted
  exact ⟨haccepted, _, hp, htwice⟩

/-- Both layers have the pattern, and the presentation layer gets none of the classes. -/
theorem sharedWeb_accepted : validateArchitecture sharedWeb = .ok () ∧
    Pattern.compile (classPattern "com.acme.web") = Pattern.compile (classPattern "com/acme/web/") ∧
    ((architectureModel sharedWeb).toOption.bind fun m => (Classifier.ofModel m).toOption.map
      (·.classify "com/acme/web/Page")) = some .domain := by
  have hdotted : Pattern.compile (classPattern "com.acme.web") = .ok ⟨"com/acme/web", none⟩ := rfl
  have hslashed : Pattern.compile (classPattern "com/acme/web/") = .ok ⟨"com/acme/web", none⟩ := rfl
  refine ⟨rfl, hdotted.trans hslashed.symm, ?_⟩
  decide +kernel

end Config

end JvmLint
