import JvmLint.Proofs.AcceptedConfigs

/-!
# Layers by the best pattern

A class that patterns are mapped for belongs to the layer of the longest one, and to the layer
with the smallest name if several have one as long. Which this is depends on nothing but which
patterns stand for which layer, so mappings can be reordered, merged and split at will.
-/

namespace JvmLint

/-! ## Mappings -/

def Pins (mappings : List (Layer × List String)) (l : Layer) (raw : String) : Prop :=
  ∃ raws, (l, raws) ∈ mappings ∧ raw ∈ raws

def Reaches [GlobLibrary] (mappings : List (Layer × List String)) (name : String) (l : Layer) (length : Nat) : Prop :=
  ∃ raw p, Pins mappings l raw ∧ Pattern.compile (classPattern raw) = .ok p ∧ p.covers name = true ∧
    p.specificity = length

/-- A longest of the patterns that cover the name is for the layer, and no layer with a smaller name has one as
long. -/
def IsBest [GlobLibrary] (mappings : List (Layer × List String)) (name : String) (l : Layer) : Prop :=
  ∃ length, Reaches mappings name l length ∧
    ∀ l' length', Reaches mappings name l' length' → length' < length ∨ length' = length ∧ l.name ≤ l'.name

/-- The same patterns for the same layers, written down in another way. -/
inductive Rearranged : List (Layer × List String) → List (Layer × List String) → Prop
  | order {ms ms'} : ms.Perm ms' → Rearranged ms ms'
  | patterns {before after l raws raws'} : raws.Perm raws' →
    Rearranged (before ++ (l, raws) :: after) (before ++ (l, raws') :: after)
  | repeated {before after l raws raw} : raw ∈ raws →
    Rearranged (before ++ (l, raws) :: after) (before ++ (l, raw :: raws) :: after)
  | split {before after l raws raws'} :
    Rearranged (before ++ (l, raws ++ raws') :: after) (before ++ (l, raws) :: (l, raws') :: after)
  | symm {ms ms'} : Rearranged ms ms' → Rearranged ms' ms
  | trans {ms ms' ms''} : Rearranged ms ms' → Rearranged ms' ms'' → Rearranged ms ms''

variable {ms ms' : List (Layer × List String)} {l : Layer} {raw name : String}

theorem pins_append : Pins (ms ++ ms') l raw ↔ Pins ms l raw ∨ Pins ms' l raw := by
  simp only [Pins, List.mem_append, or_and_right, exists_or]

theorem pins_cons {k : Layer} {raws : List String} :
    Pins ((k, raws) :: ms) l raw ↔ l = k ∧ raw ∈ raws ∨ Pins ms l raw := by
  unfold Pins
  constructor
  · rintro ⟨raws', hmem, hraw⟩
    rcases List.mem_cons.1 hmem with heq | hmem
    · cases heq
      exact .inl ⟨rfl, hraw⟩
    · exact .inr ⟨raws', hmem, hraw⟩
  · rintro (⟨rfl, hraw⟩ | ⟨raws', hmem, hraw⟩)
    · exact ⟨raws, by simp, hraw⟩
    · exact ⟨raws', by simp [hmem], hraw⟩

theorem Rearranged.pins (h : Rearranged ms ms') : Pins ms l raw ↔ Pins ms' l raw := by
  induction h with
  | order hperm => simp only [Pins, hperm.mem_iff]
  | patterns hperm => simp only [pins_append, pins_cons, hperm.mem_iff]
  | @repeated before after k raws raw' hmem =>
    have hsame : raw ∈ raw' :: raws ↔ raw ∈ raws := by
      rw [List.mem_cons, or_iff_right_of_imp]
      intro heq
      exact heq ▸ hmem
    simp only [pins_append, pins_cons, hsame]
  | split => simp only [pins_append, pins_cons, List.mem_append, and_or_left, or_assoc]
  | symm _ ih => exact ih.symm
  | trans _ _ ih ih' => exact ih.trans ih'

theorem Rearranged.reaches [GlobLibrary] (h : Rearranged ms ms') {length : Nat} :
    Reaches ms name l length ↔ Reaches ms' name l length := by
  simp only [Reaches, h.pins]

theorem Rearranged.compiles [GlobLibrary] (h : Rearranged ms ms') (hms : ∀ mapping ∈ ms, Config.Compiles mapping.2) :
    ∀ mapping ∈ ms', Config.Compiles mapping.2 := by
  intro mapping hmapping raw hraw
  obtain ⟨raws, hraws, hmem⟩ := h.pins.2 ⟨mapping.2, hmapping, hraw⟩
  exact hms _ hraws raw hmem

theorem Layer.eq_of_name {k : Layer} (h : l.name = k.name) : l = k := by
  cases l
  cases k
  exact congrArg Layer.mk h

/-! ## Patterns -/

theorem Pattern.text_ne_empty [GlobLibrary] {p : Pattern} (h : Pattern.compile raw = .ok p) : p.text ≠ "" := by
  unfold Pattern.compile at h
  generalize normalizePath raw = text at h
  by_cases hempty : text = ""
  · simp [hempty] at h
  · simp only [hempty, if_false] at h
    by_cases hglob : text.toList.any isGlobChar = true
    · cases hcompiled : Glob.compile text with
      | error e => simp [hglob, hcompiled] at h
      | ok g =>
        simp only [hglob, hcompiled, if_true, Except.ok.injEq] at h
        simpa [← h] using hempty
    · simp only [hglob, Bool.false_eq_true, if_false, Except.ok.injEq] at h
      simpa [← h] using hempty

theorem Pattern.specificity_pos [GlobLibrary] {p : Pattern} (h : Pattern.compile raw = .ok p) :
    0 < p.specificity := by
  rw [Pattern.specificity, Nat.pos_iff_ne_zero, Ne, String.utf8ByteSize_eq_zero_iff]
  exact Pattern.text_ne_empty h

namespace Classifier

variable {ps : List Pattern} {p : Pattern}

theorem foldl_max_le {ns : List Nat} {n bound : Nat} : ns.foldl max n ≤ bound ↔ n ≤ bound ∧ ∀ i ∈ ns, i ≤ bound := by
  induction ns generalizing n with
  | nil => simp
  | cons i ns ih => rw [List.foldl_cons, ih, Nat.max_le, List.forall_mem_cons, and_assoc]

theorem foldl_max_mem (ns : List Nat) (n : Nat) : ns.foldl max n = n ∨ ns.foldl max n ∈ ns := by
  induction ns generalizing n with
  | nil => exact .inl rfl
  | cons i ns ih =>
    rw [List.foldl_cons]
    rcases ih (max n i) with h | h
    · rw [h]
      by_cases hle : n ≤ i
      · simp [Nat.max_eq_right hle]
      · simp [Nat.max_eq_left (Nat.le_of_not_le hle)]
    · exact .inr (List.mem_cons_of_mem _ h)

theorem specificity_le_score [GlobLibrary] (hp : p ∈ ps) (hcovers : p.covers name = true) :
    p.specificity ≤ score ps name := by
  refine (foldl_max_le.1 (Nat.le_refl (score ps name))).2 _ ?_
  exact List.mem_map.2 ⟨p, List.mem_filter.2 ⟨hp, hcovers⟩, rfl⟩

theorem exists_of_score_pos [GlobLibrary] (h : 0 < score ps name) :
    ∃ p ∈ ps, p.covers name = true ∧ p.specificity = score ps name := by
  rcases foldl_max_mem ((ps.filter (·.covers name)).map (·.specificity)) 0 with hzero | hmem
  · exact absurd hzero (Nat.ne_of_gt h)
  · obtain ⟨p, hp, hscore⟩ := List.mem_map.1 hmem
    obtain ⟨hp, hcovers⟩ := List.mem_filter.1 hp
    exact ⟨p, hp, hcovers, hscore⟩

/-! ## Candidates -/

def candidates [GlobLibrary] (c : Classifier) (name : String) : List (Layer × Nat) :=
  (c.mappings.map fun m => (m.1, score m.2 name)).filter (0 < ·.2)

/-- The first candidate is at least as good: a longer pattern or one as long and a name that is not greater. -/
def Ahead (a b : Layer × Nat) : Prop := b.2 < a.2 ∨ b.2 = a.2 ∧ a.1.name ≤ b.1.name

theorem ahead_refl (a : Layer × Nat) : Ahead a a := .inr ⟨rfl, String.le_refl _⟩

theorem Ahead.trans {a b d : Layer × Nat} (hab : Ahead a b) (hbd : Ahead b d) : Ahead a d := by
  rcases hab with hlt | ⟨heq, hle⟩
  · rcases hbd with hlt' | ⟨heq', _⟩ <;> exact .inl (by omega)
  · rcases hbd with hlt' | ⟨heq', hle'⟩
    · exact .inl (by omega)
    · exact .inr ⟨by omega, String.le_trans hle hle'⟩

theorem Ahead.antisymm {a b : Layer × Nat} (hab : Ahead a b) (hba : Ahead b a) : a.1 = b.1 := by
  rcases hab with hlt | ⟨_, hle⟩
  · rcases hba with hlt' | ⟨heq, _⟩ <;> omega
  · rcases hba with hlt' | ⟨_, hle'⟩
    · omega
    · exact Layer.eq_of_name (String.le_antisymm hle hle')

theorem isBest_unique [GlobLibrary] {k : Layer} (hl : IsBest ms name l) (hk : IsBest ms name k) : l = k := by
  obtain ⟨i, hi, hbest⟩ := hl
  obtain ⟨j, hj, hbest'⟩ := hk
  have hahead : Ahead (l, i) (k, j) := hbest k j hj
  exact hahead.antisymm (hbest' l i hi)

theorem better_cases (a b : Layer × Nat) : better a b = a ∧ Ahead a b ∨ better a b = b ∧ Ahead b a := by
  unfold better
  split
  · rename_i h
    refine .inl ⟨rfl, ?_⟩
    simp only [Bool.or_eq_true, decide_eq_true_eq, Bool.and_eq_true, beq_iff_eq] at h
    rcases h with hlt | ⟨heq, hle⟩
    · exact .inl hlt
    · exact .inr ⟨heq.symm, hle⟩
  · rename_i h
    refine .inr ⟨rfl, ?_⟩
    simp only [Bool.or_eq_true, decide_eq_true_eq, Bool.and_eq_true, beq_iff_eq, not_or, not_and] at h
    by_cases heq : a.2 = b.2
    · exact .inr ⟨heq, (String.le_total _ _).resolve_left (h.2 heq)⟩
    · exact .inl (by omega)

theorem foldl_better (a : Layer × Nat) (rest : List (Layer × Nat)) :
    rest.foldl better a ∈ a :: rest ∧ ∀ b ∈ a :: rest, Ahead (rest.foldl better a) b := by
  induction rest generalizing a with
  | nil => simp [ahead_refl]
  | cons b rest ih =>
    obtain ⟨hmem, hahead⟩ := ih (better a b)
    have hfirst := hahead (better a b) (by simp)
    have hrest : ∀ x ∈ rest, Ahead (rest.foldl better (better a b)) x :=
      fun x hx => hahead x (List.mem_cons_of_mem _ hx)
    rw [List.foldl_cons]
    simp only [List.forall_mem_cons]
    rcases better_cases a b with ⟨heq, hab⟩ | ⟨heq, hba⟩
    · rw [heq] at hmem hfirst hrest ⊢
      exact ⟨by grind, hfirst, hfirst.trans hab, hrest⟩
    · rw [heq] at hmem hfirst hrest ⊢
      exact ⟨by grind, hfirst.trans hba, hfirst, hrest⟩

theorem mapped?_cases [GlobLibrary] (c : Classifier) (name : String) :
    candidates c name = [] ∧ c.mapped? name = none ∨
      ∃ a ∈ candidates c name, c.mapped? name = some a.1 ∧ ∀ b ∈ candidates c name, Ahead a b := by
  unfold mapped?
  split
  · rename_i hempty
    exact .inl ⟨hempty, rfl⟩
  · rename_i a rest hsome
    have hcandidates : candidates c name = a :: rest := hsome
    obtain ⟨hmem, hahead⟩ := foldl_better a rest
    rw [hcandidates]
    exact .inr ⟨_, hmem, rfl, hahead⟩

/-! ## Compiled mappings -/

theorem compileMapping_eq_ok [GlobLibrary] {m : Layer × List String} {compiled : Layer × List Pattern} :
    compileMapping m = .ok compiled ↔ m.1 = compiled.1 ∧ Pattern.compileAll (m.2.map classPattern) = .ok compiled.2 := by
  unfold compileMapping
  cases Pattern.compileAll (m.2.map classPattern) with
  | error e => simp
  | ok ps => simp [Prod.ext_iff]

section
variable [GlobLibrary] {m : ArchitectureModel} {c : Classifier} (hc : ofModel m = .ok c)
include hc

theorem mapM_of_ofModel : m.mappings.mapM compileMapping = .ok c.mappings ∧
    c.keywords = m.keywords.map fun k => (k.1, ⟨lowerWords k.2.packages, lowerWords k.2.classes⟩) := by
  obtain ⟨mappings, hmappings, hpure⟩ := except_bind_eq_ok.1 hc
  cases hpure
  exact ⟨hmappings, rfl⟩

theorem reaches_of_candidate {a : Layer × Nat} (h : a ∈ candidates c name) : Reaches m.mappings name a.1 a.2 := by
  obtain ⟨hmem, hpos⟩ := List.mem_filter.1 h
  obtain ⟨mapping, hmapping, rfl⟩ := List.mem_map.1 hmem
  obtain ⟨p, hp, hcovers, hscore⟩ := exists_of_score_pos (by simpa using hpos)
  obtain ⟨source, hsource, hcompiled⟩ := (mem_of_mapM (mapM_of_ofModel hc).1 mapping).1 hmapping
  obtain ⟨hlayer, hpatterns⟩ := compileMapping_eq_ok.1 hcompiled
  obtain ⟨path, hpath, hcompile⟩ := (mem_of_mapM hpatterns p).1 hp
  obtain ⟨raw, hraw, rfl⟩ := List.mem_map.1 hpath
  exact ⟨raw, p, ⟨source.2, hlayer ▸ hsource, hraw⟩, hcompile, hcovers, hscore⟩

theorem candidate_of_reaches {length : Nat} (h : Reaches m.mappings name l length) :
    ∃ n, length ≤ n ∧ (l, n) ∈ candidates c name := by
  obtain ⟨raw, p, ⟨raws, hraws, hraw⟩, hcompile, hcovers, rfl⟩ := h
  obtain ⟨mapping, hcompiled⟩ := ok_of_mapM (mapM_of_ofModel hc).1 _ hraws
  have hmapping := (mem_of_mapM (mapM_of_ofModel hc).1 mapping).2 ⟨_, hraws, hcompiled⟩
  obtain ⟨hlayer, hpatterns⟩ := compileMapping_eq_ok.1 hcompiled
  have hp : p ∈ mapping.2 := (mem_of_mapM hpatterns p).2 ⟨_, List.mem_map_of_mem hraw, hcompile⟩
  have hle := specificity_le_score hp hcovers
  have hpos := Pattern.specificity_pos hcompile
  refine ⟨score mapping.2 name, hle, List.mem_filter.2 ⟨List.mem_map.2 ⟨mapping, hmapping, ?_⟩, ?_⟩⟩
  · rw [← hlayer]
  · simpa using Nat.lt_of_lt_of_le hpos hle

/-! ## Classification -/

theorem isBest_of_ahead {a : Layer × Nat} (ha : a ∈ candidates c name) (hahead : ∀ b ∈ candidates c name, Ahead a b) :
    IsBest m.mappings name a.1 := by
  refine ⟨a.2, reaches_of_candidate hc ha, ?_⟩
  intro l' length' h
  obtain ⟨n, hle, hcandidate⟩ := candidate_of_reaches hc h
  rcases hahead _ hcandidate with hlt | ⟨heq, hname⟩
  · exact .inl (Nat.lt_of_le_of_lt hle hlt)
  · rcases Nat.lt_or_eq_of_le hle with hlt | hsame
    · exact .inl (heq ▸ hlt)
    · exact .inr ⟨hsame.trans heq, hname⟩

theorem classify_of_reached (h : ∃ l length, Reaches m.mappings name l length) : IsBest m.mappings name (c.classify name) := by
  rcases mapped?_cases c name with ⟨hempty, _⟩ | ⟨a, ha, hmapped, hahead⟩
  · obtain ⟨l, length, hreaches⟩ := h
    obtain ⟨n, _, hcandidate⟩ := candidate_of_reaches hc hreaches
    simp [hempty] at hcandidate
  · have hclassify : c.classify name = a.1 := by simp [classify, hmapped]
    rw [hclassify]
    exact isBest_of_ahead hc ha hahead

theorem classify_of_unreached (h : ¬ ∃ l length, Reaches m.mappings name l length) :
    c.classify name = classify { c with mappings := [] } name := by
  rcases mapped?_cases c name with ⟨_, hmapped⟩ | ⟨a, ha, _⟩
  · have hnone : mapped? { c with mappings := [] } name = none := rfl
    simp only [classify, hmapped, hnone]
    rfl
  · exact absurd ⟨a.1, a.2, reaches_of_candidate hc ha⟩ h

end

theorem classify_congr [GlobLibrary] {m m' : ArchitectureModel} {c c' : Classifier} (hc : ofModel m = .ok c)
    (hc' : ofModel m' = .ok c')
    (hkeywords : m.keywords = m'.keywords)
    (hsame : ∀ l length, Reaches m.mappings name l length ↔ Reaches m'.mappings name l length) :
    c.classify name = c'.classify name := by
  by_cases hreached : ∃ l length, Reaches m.mappings name l length
  · have hbest := classify_of_reached hc hreached
    have hbest' := classify_of_reached hc' (by simpa only [hsame] using hreached)
    simp only [IsBest, ← hsame] at hbest'
    exact isBest_unique hbest hbest'
  · have hfallback : ({ c with mappings := [] } : Classifier) = { c' with mappings := [] } := by
      rw [(mapM_of_ofModel hc).2, (mapM_of_ofModel hc').2, hkeywords]
    rw [classify_of_unreached hc hreached, hfallback]
    exact (classify_of_unreached hc' (by simpa only [hsame] using hreached)).symm

/-! ## Sorted candidates -/

def ComesBefore (a b : Layer × Nat) : Prop := if a.2 = b.2 then a.1.name < b.1.name else b.2 < a.2

theorem ahead_iff {a b : Layer × Nat} : ¬ ComesBefore b a ↔ Ahead a b := by
  unfold ComesBefore Ahead
  by_cases heq : b.2 = a.2
  · simp only [heq, if_true, String.not_lt, Nat.lt_irrefl, true_and, false_or]
  · simp only [heq, if_false, false_and, or_false]
    omega

/-- However a sort leaves candidates that it cannot tell apart, the same layer comes first. -/
theorem head?_sorted [GlobLibrary] {c : Classifier} {sorted : List (Layer × Nat)}
    (hperm : sorted.Perm (candidates c name))
    (hsorted : sorted.Pairwise fun a b => ¬ ComesBefore b a) :
    sorted.head?.map (·.1) = c.mapped? name := by
  rcases mapped?_cases c name with ⟨hempty, hmapped⟩ | ⟨best, hbest, hmapped, hahead⟩
  · rw [hempty] at hperm
    rw [hperm.eq_nil, hmapped]
    rfl
  · cases sorted with
    | nil => exact absurd (hperm.mem_iff.2 hbest) (by simp)
    | cons a rest =>
      have hfirst : Ahead a best := by
        rcases List.mem_cons.1 (hperm.mem_iff.2 hbest) with rfl | hrest
        · exact ahead_refl best
        · exact ahead_iff.1 (List.rel_of_pairwise_cons hsorted hrest)
      have hsame : a.1 = best.1 := hfirst.antisymm (hahead a (hperm.mem_iff.1 (by simp)))
      simp [hmapped, hsame]

/-- Patterns that compile make a classifier. A name that some of them cover is in the layer of a longest one, in that
with the smallest name if there are several, and in no other; a name that none covers is classified as if nothing were
mapped. A sort of the candidates, stable or not, comes to the same layer, and writing the mappings down in
another way changes no classification. -/
theorem classify_by_best_pattern [GlobLibrary] {m : ArchitectureModel}
    (h : ∀ mapping ∈ m.mappings, Config.Compiles mapping.2) :
    ∃ c, ofModel m = .ok c ∧
      (∀ name, (∃ l length, Reaches m.mappings name l length) →
        ∀ l, c.classify name = l ↔ IsBest m.mappings name l) ∧
      (∀ name, (¬ ∃ l length, Reaches m.mappings name l length) →
        c.classify name = classify { c with mappings := [] } name) ∧
      (∀ name (sorted : List (Layer × Nat)), sorted.Perm (candidates c name) →
        sorted.Pairwise (fun a b => ¬ ComesBefore b a) →
        sorted.head?.map (·.1) = c.mapped? name) ∧
      ∀ mappings, Rearranged m.mappings mappings →
        ∃ c', ofModel { m with mappings } = .ok c' ∧ ∀ name, c'.classify name = c.classify name := by
  obtain ⟨c, hc⟩ := Config.classifier_of_compiles h
  refine ⟨c, hc, ?_, fun name => classify_of_unreached hc, fun name sorted => head?_sorted, ?_⟩
  · intro name hreached l
    have hbest := classify_of_reached hc hreached
    exact ⟨fun heq => heq ▸ hbest, fun hl => isBest_unique hbest hl⟩
  · intro mappings hmappings
    obtain ⟨c', hc'⟩ := Config.classifier_of_compiles (m := { m with mappings }) (hmappings.compiles h)
    exact ⟨c', hc', fun name => classify_congr hc' hc rfl fun _ _ => hmappings.symm.reaches⟩

def storeModel : ArchitectureModel :=
  { mappings := [(.presentation, ["com.acme.store.**"]), (.domain, ["com.acme.**", "com.acme.store.Orders"]),
      (.data, ["com/acme/store/**"])] }

theorem classify_by_best_pattern_store :
    (∀ mapping ∈ storeModel.mappings, Config.Compiles mapping.2) ∧
    ∃ c, ofModel storeModel = .ok c ∧ c.classify "com/acme/store/Line" = .data ∧
      IsBest storeModel.mappings "com/acme/store/Line" .data ∧
      ∃ c', ofModel { storeModel with mappings := storeModel.mappings.reverse } = .ok c' ∧
        c'.classify "com/acme/store/Line" = .data := by
  have hgood : ∀ mapping ∈ storeModel.mappings, ∀ raw ∈ mapping.2,
      (Pattern.compile (classPattern raw)).toOption.isSome = true := by decide +kernel
  have hcompiles : ∀ mapping ∈ storeModel.mappings, Config.Compiles mapping.2 := by
    intro mapping hmapping raw hraw
    have hsome := hgood mapping hmapping raw hraw
    rcases outcome (Pattern.compile (classPattern raw)) with ⟨e, herror⟩ | hok
    · rw [herror] at hsome
      cases hsome
    · exact hok
  have hcovers : (Pattern.compile (classPattern "com/acme/store/**")).toOption.any (·.covers "com/acme/store/Line") = true := by
    decide +kernel
  have hdata : (ofModel storeModel).toOption.any (·.classify "com/acme/store/Line" == .data) = true := by decide +kernel
  obtain ⟨c, hc, hbest, _, _, hrearranged⟩ := classify_by_best_pattern hcompiles
  rw [hc] at hdata
  have hclassify : c.classify "com/acme/store/Line" = .data := beq_iff_eq.1 hdata
  obtain ⟨p, hp⟩ := hcompiles (.data, ["com/acme/store/**"]) (by decide) "com/acme/store/**" (by decide)
  rw [hp] at hcovers
  have hreached : ∃ l length, Reaches storeModel.mappings "com/acme/store/Line" l length :=
    ⟨.data, _, _, p, ⟨["com/acme/store/**"], by decide, List.mem_singleton.2 rfl⟩, hp, hcovers, rfl⟩
  obtain ⟨c', hc', hsame⟩ := hrearranged _ (.order (List.reverse_perm _).symm)
  exact ⟨hcompiles, c, hc, hclassify, (hbest _ hreached _).1 hclassify, c', hc', (hsame _).trans hclassify⟩

end Classifier

end JvmLint
