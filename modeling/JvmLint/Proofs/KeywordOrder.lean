import JvmLint.Proofs.AcceptedConfigs
import Mathlib.Data.List.Induction
import Mathlib.Data.List.Nodup
import Mathlib.Data.List.Perm.Basic

/-!
# Keywords in any order

A table has no order of its own, and keys of a table that are different may be one key in the spelling that is compared.
Of such entries the last one wins (`Table.Sets.mem_fill`), so the order in which the table is gone through decides among
them, and among nothing else.
-/

namespace JvmLint

/-! ## Tables filled in order -/

namespace Table

variable {α κ ν : Type} [DecidableEq κ] {key : α → κ} {val : α → ν} {t t' : List α} {i j x : α}

def Wins (key : α → κ) (t : List α) (j : α) : Prop := t.reverse.find? (fun i => key i = key j) = some j

theorem wins_concat : Wins key (t ++ [x]) j ↔ j = x ∨ key j ≠ key x ∧ Wins key t j := by
  unfold Wins
  rw [List.reverse_concat, List.find?_cons]
  by_cases hkey : key x = key j
  · simp [hkey, eq_comm]
  · have hne : j ≠ x := fun h => hkey (congrArg key h.symm)
    simp [hkey, hne, Ne.symm hkey]

theorem Wins.mem (h : Wins key t j) : j ∈ t := List.mem_reverse.1 (List.mem_of_find?_eq_some h)

theorem Wins.unique (hi : Wins key t i) (hj : Wins key t j) (h : key i = key j) : i = j := by
  unfold Wins at hi hj
  rw [h, hj] at hi
  exact (Option.some.inj hi).symm

theorem exists_wins (key : α → κ) (h : j ∈ t) : ∃ i, Wins key t i ∧ key i = key j := by
  have hsome : (t.reverse.find? (fun i => key i = key j)).isSome := by
    rw [List.find?_isSome]
    exact ⟨j, List.mem_reverse.2 h, by simp⟩
  obtain ⟨i, hi⟩ := Option.isSome_iff_exists.1 hsome
  have hkey : key i = key j := by simpa using List.find?_some hi
  exact ⟨i, by rw [Wins, hkey, hi], hkey⟩

/-- In some order it is the last one. -/
theorem exists_perm_wins (key : α → κ) (h : j ∈ t) : ∃ t', t'.Perm t ∧ Wins key t' j := by
  obtain ⟨before, after, rfl⟩ := List.append_of_mem h
  refine ⟨before ++ after ++ [j], ?_, wins_concat.2 (.inl rfl)⟩
  rw [List.append_assoc]
  exact (List.perm_append_singleton j after).append_left before

omit [DecidableEq κ] in
theorem eq_of_key {l : List (κ × ν)} (h : (l.map (·.1)).Nodup) {k k' : κ} {v v' : ν} (hv : (k, v) ∈ l)
    (hv' : (k', v') ∈ l) (hkey : k = k') : v = v' :=
  congrArg Prod.snd (List.inj_on_of_nodup_map h hv hv' hkey)

structure Sets (put : List (κ × ν) → κ → ν → List (κ × ν)) : Prop where
  mem : ∀ l k v e, e ∈ put l k v ↔ e = (k, v) ∨ e.1 ≠ k ∧ e ∈ l
  nodup : ∀ l k v, (l.map (·.1)).Nodup → ((put l k v).map (·.1)).Nodup

def fill (put : List (κ × ν) → κ → ν → List (κ × ν)) (key : α → κ) (val : α → ν) (t : List α) : List (κ × ν) :=
  t.foldl (fun out j => put out (key j) (val j)) []

def Agree (key : α → κ) (val : α → ν) (t : List α) : Prop := ∀ i ∈ t, ∀ j ∈ t, key i = key j → val i = val j

variable {put : List (κ × ν) → κ → ν → List (κ × ν)} {e : κ × ν}

omit [DecidableEq κ] in
theorem Agree.perm (h : Agree key val t) (ht : t'.Perm t) : Agree key val t' :=
  fun i hi j hj => h i (ht.subset hi) j (ht.subset hj)

omit [DecidableEq κ] in
theorem fill_concat : fill put key val (t ++ [x]) = put (fill put key val t) (key x) (val x) := by
  simp [fill]

section
variable (h : Sets put)
include h

theorem Sets.mem_fill : e ∈ fill put key val t ↔ ∃ j, Wins key t j ∧ e = (key j, val j) := by
  induction t using List.reverseRecOn with
  | nil => simp [fill, Wins]
  | append_singleton t x ih =>
    rw [fill_concat, h.mem, ih]
    constructor
    · rintro (rfl | ⟨hkey, j, hj, rfl⟩)
      · exact ⟨x, wins_concat.2 (.inl rfl), rfl⟩
      · exact ⟨j, wins_concat.2 (.inr ⟨hkey, hj⟩), rfl⟩
    · rintro ⟨j, hj, rfl⟩
      rcases wins_concat.1 hj with rfl | ⟨hkey, hj⟩
      · exact .inl rfl
      · exact .inr ⟨hkey, j, hj, rfl⟩

omit [DecidableEq κ] in
theorem Sets.nodup_keys_fill : ((fill put key val t).map (·.1)).Nodup := by
  induction t using List.reverseRecOn with
  | nil => simp [fill]
  | append_singleton t x ih =>
    rw [fill_concat]
    exact h.nodup _ _ _ ih

theorem Sets.mem_fill_of_agree (hagree : Agree key val t) : e ∈ fill put key val t ↔ ∃ j ∈ t, e = (key j, val j) := by
  rw [h.mem_fill]
  constructor
  · rintro ⟨j, hj, rfl⟩
    exact ⟨j, hj.mem, rfl⟩
  · rintro ⟨j, hj, rfl⟩
    obtain ⟨i, hi, hkey⟩ := exists_wins key hj
    exact ⟨i, hi, by rw [hkey, hagree i hi.mem j hj hkey]⟩

theorem Sets.mem_keys_fill {k : κ} : k ∈ (fill put key val t).map (·.1) ↔ ∃ j ∈ t, key j = k := by
  simp only [List.mem_map, h.mem_fill]
  constructor
  · rintro ⟨_, ⟨j, hj, rfl⟩, rfl⟩
    exact ⟨j, hj.mem, rfl⟩
  · rintro ⟨j, hj, rfl⟩
    obtain ⟨i, hi, hkey⟩ := exists_wins key hj
    exact ⟨_, ⟨i, hi, rfl⟩, hkey⟩

end

end Table

/-! ## The two tables -/

def ArchitectureModel.Same (m m' : ArchitectureModel) : Prop :=
  m'.mappings = m.mappings ∧ m'.rules = m.rules ∧ m'.keywords.Perm m.keywords

theorem Layer.parse_eq_ok {s : String} {l : Layer} :
    Layer.parse s = .ok l ↔ Config.isLayerName (Config.layerName s) = true ∧ l = ⟨Config.layerName s⟩ := by
  have hspelling : Text.lower (Text.trim s) = Config.layerName s := rfl
  rw [Layer.parse, Config.isLayerName, hspelling]
  cases hfind : all.find? (·.name == Config.layerName s) with
  | none =>
    have hnone : all.any (·.name == Config.layerName s) = false := by
      rw [List.any_eq_false]
      exact List.find?_eq_none.1 hfind
    simp [hnone]
  | some k =>
    have hany : all.any (·.name == Config.layerName s) = true :=
      List.any_eq_true.2 ⟨k, List.mem_of_find?_eq_some hfind, List.find?_some (p := fun l : Layer => l.name == _) hfind⟩
    obtain ⟨name⟩ := k
    have hname : name = Config.layerName s := by simpa using List.find?_some hfind
    simp [hany, hname, eq_comm]

namespace Config

open Table

theorem sets_setEntry {α : Type} : Sets (@setEntry α) where
  mem l k v e := by
    obtain ⟨j, w⟩ := e
    unfold setEntry
    split
    · rename_i hany
      obtain ⟨⟨k', w'⟩, hold, hkey⟩ := List.any_eq_true.1 hany
      rw [List.mem_map]
      constructor
      · rintro ⟨⟨j', w''⟩, hmem, heq⟩
        by_cases hj : j' = k
        · simp only [hj, if_true, Prod.mk.injEq] at heq
          exact .inl (by rw [heq.1, heq.2])
        · simp only [hj, if_false, Prod.mk.injEq] at heq
          rw [← heq.1, ← heq.2]
          exact .inr ⟨hj, hmem⟩
      · rintro (heq | ⟨hj, hmem⟩)
        · have hk : k' = k := by simpa using hkey
          exact ⟨(k', w'), hold, by simp [heq, hk]⟩
        · exact ⟨(j, w), hmem, if_neg hj⟩
    · rename_i hany
      have hfresh : (j, w) ∈ l → j ≠ k := fun hmem heq => hany (List.any_eq_true.2 ⟨_, hmem, by simp [heq]⟩)
      rw [List.mem_append, List.mem_singleton, or_comm, and_iff_right_of_imp hfresh]
  nodup l k v h := by
    unfold setEntry
    split
    · -- the keys stay where they are
      refine (congrArg List.Nodup ?_).mp h
      rw [List.map_map]
      refine List.map_congr_left fun e _ => ?_
      by_cases hkey : e.1 = k
      · simp [hkey]
      · simp [hkey]
    · rename_i hany
      rw [List.map_append, List.map_singleton, ← List.concat_eq_append, List.nodup_concat]
      exact ⟨by simpa using hany, h⟩

theorem sets_setKeywords : Sets setKeywords where
  mem l k v e := by
    rw [setKeywords, List.mem_append, List.mem_filter, List.mem_singleton, or_comm, and_comm (a := e ∈ l), bne_iff_ne]
  nodup l k v h := by
    rw [setKeywords, List.map_append, List.map_singleton, ← List.concat_eq_append, List.nodup_concat]
    exact ⟨by simp, h.sublist (List.filter_sublist.map _)⟩

def withKeywords (c : Config) (t : List (String × Keywords)) : Config :=
  { c with architecture := { c.architecture with keywords := t } }

def spelled (t : List (String × Keywords)) : List (String × Keywords) :=
  fill setEntry (fun j => layerName j.1) (fun j => j.2) t

theorem normalize_withKeywords (c : Config) (t : List (String × Keywords)) :
    normalize (c.withKeywords t) = (normalize c).withKeywords (spelled t) := rfl

def layerOf (s : String) : Layer := ⟨layerName s⟩

def layered (t : List (String × Keywords)) : List (Layer × Keywords) :=
  fill setKeywords (fun j => layerOf j.1) (fun j => keywordsFor (layerOf j.1) j.2) t

theorem nodup_keys_layered (t : List (String × Keywords)) : ((layered t).map (·.1)).Nodup :=
  sets_setKeywords.nodup_keys_fill

theorem mem_layered_of_wins {t : List (String × Keywords)} {j : String × Keywords}
    (h : Wins (fun j => layerOf j.1) t j) : (layerOf j.1, keywordsFor (layerOf j.1) j.2) ∈ layered t :=
  sets_setKeywords.mem_fill.2 ⟨j, h, rfl⟩

def takeKeywords (out : List (Layer × Keywords)) (j : String × Keywords) : Except Fault (List (Layer × Keywords)) := do
  let l ← (Layer.parse j.1).mapError fun e => e.label "architecture.keywords"
  return setKeywords out l (keywordsFor l j.2)

theorem foldlM_takeKeywords {t : List (String × Keywords)} {start out : List (Layer × Keywords)} :
    t.foldlM takeKeywords start = .ok out ↔ (∀ j ∈ t, isLayerName (layerName j.1) = true) ∧
      out = t.foldl (fun out j => setKeywords out (layerOf j.1) (keywordsFor (layerOf j.1) j.2)) start := by
  induction t generalizing start with
  | nil =>
    constructor
    · intro h
      cases h
      exact ⟨by simp, rfl⟩
    · rintro ⟨-, rfl⟩
      rfl
  | cons j t ih =>
    rw [List.foldlM_cons, List.forall_mem_cons, List.foldl_cons, and_assoc, ← ih, except_bind_eq_ok]
    constructor
    · rintro ⟨between, hstep, hrest⟩
      obtain ⟨l, hl, hbetween⟩ := except_bind_eq_ok.1 hstep
      obtain ⟨hname, rfl⟩ := Layer.parse_eq_ok.1 (mapError_eq_ok.1 hl)
      cases hbetween
      exact ⟨hname, hrest⟩
    · rintro ⟨hname, hrest⟩
      exact ⟨_, except_bind_eq_ok.2 ⟨layerOf j.1, mapError_eq_ok.2 (Layer.parse_eq_ok.2 ⟨hname, rfl⟩), rfl⟩, hrest⟩

theorem architectureModel_eq_ok {a : Architecture} {m : ArchitectureModel} : architectureModel a = .ok m ↔
    (∀ j ∈ a.keywords, isLayerName (layerName j.1) = true) ∧ m.keywords = layered a.keywords ∧
    architectureModel { a with keywords := [] } = .ok { m with keywords := [] } := by
  constructor
  · intro h
    obtain ⟨keywords, hkeywords, h⟩ := except_bind_eq_ok.1 h
    obtain ⟨mappings, hmappings, h⟩ := except_bind_eq_ok.1 h
    obtain ⟨rules, hrules, hm⟩ := except_bind_eq_ok.1 h
    obtain ⟨hnames, hfilled⟩ := foldlM_takeKeywords.1 hkeywords
    cases hm
    exact ⟨hnames, hfilled, except_bind_eq_ok.2 ⟨[], rfl, except_bind_eq_ok.2 ⟨mappings, hmappings,
      except_bind_eq_ok.2 ⟨rules, hrules, rfl⟩⟩⟩⟩
  · rintro ⟨hnames, hfilled, h⟩
    obtain ⟨keywords, -, h⟩ := except_bind_eq_ok.1 h
    obtain ⟨mappings, hmappings, h⟩ := except_bind_eq_ok.1 h
    obtain ⟨rules, hrules, hm⟩ := except_bind_eq_ok.1 h
    obtain ⟨ms, ks, rs⟩ := m
    cases hm
    exact except_bind_eq_ok.2 ⟨_, foldlM_takeKeywords.2 ⟨hnames, hfilled⟩, except_bind_eq_ok.2 ⟨_, hmappings,
      except_bind_eq_ok.2 ⟨_, hrules, rfl⟩⟩⟩

theorem keywords_of_model {a : Architecture} {m : ArchitectureModel} (h : architectureModel a = .ok m) :
    m.keywords = layered a.keywords := (architectureModel_eq_ok.1 h).2.1

theorem exists_architectureModel_iff {a : Architecture} : (∃ m, architectureModel a = .ok m) ↔
    (∀ name ∈ a.keywords.map (·.1), isLayerName (layerName name) = true) ∧
      ∃ m, architectureModel { a with keywords := [] } = .ok m := by
  rw [List.forall_mem_map]
  constructor
  · rintro ⟨m, h⟩
    obtain ⟨hnames, -, hrest⟩ := architectureModel_eq_ok.1 h
    exact ⟨hnames, _, hrest⟩
  · rintro ⟨hnames, m, h⟩
    obtain ⟨-, -, hrest⟩ := architectureModel_eq_ok.1 h
    exact ⟨{ m with keywords := layered a.keywords }, architectureModel_eq_ok.2 ⟨hnames, rfl, hrest⟩⟩

theorem validate_withKeywords [GlobLibrary] {c : Config} {t : List (String × Keywords)} :
    validate (c.withKeywords t) = .ok () ↔
    validateKeywords t = .ok () ∧ validate (c.withKeywords []) = .ok () := by
  simp only [validate, validateArchitecture, except_bind_eq_ok]
  constructor
  · rintro ⟨⟨⟩, hversion, ⟨⟩, hanalysis, ⟨⟩, hexclude, ⟨⟩, hchecks, ⟨⟩, ⟨⟨⟩, hkeywords, hdeclared⟩, hrest⟩
    exact ⟨hkeywords, (), hversion, (), hanalysis, (), hexclude, (), hchecks, (), ⟨(), rfl, hdeclared⟩, hrest⟩
  · rintro ⟨hkeywords, ⟨⟩, hversion, ⟨⟩, hanalysis, ⟨⟩, hexclude, ⟨⟩, hchecks, ⟨⟩, ⟨⟨⟩, -, hdeclared⟩, hrest⟩
    exact ⟨(), hversion, (), hanalysis, (), hexclude, (), hchecks, (), ⟨(), hkeywords, hdeclared⟩, hrest⟩

theorem validateKeywords_eq_ok {t : List (String × Keywords)} : validateKeywords t = .ok () ↔
    ∀ name ∈ t.map (·.1), isLayerName name = true ∧ name ≠ Layer.unknown.name := by
  unfold validateKeywords
  split
  · rename_i name k hfind
    have hbad := List.find?_some hfind
    have hmem : name ∈ t.map (·.1) := List.mem_map_of_mem (List.mem_of_find?_eq_some hfind)
    simp only [reduceCtorEq, false_iff]
    intro h
    obtain ⟨hname, hne⟩ := h name hmem
    simp [hname, hne] at hbad
  · rename_i hfind
    simpa using hfind

/-! ## Every order -/

/-- What normalizing can come to, whatever the order of the table before and behind it. -/
def NormalForm (c n : Config) : Prop :=
  ∃ t u, t.Perm c.architecture.keywords ∧ u.Perm (normalize (c.withKeywords t)).architecture.keywords ∧
    n = (normalize (c.withKeywords t)).withKeywords u

def Same (n n' : Config) : Prop :=
  n' = n.withKeywords n'.architecture.keywords ∧ n'.architecture.keywords.Perm n.architecture.keywords

variable {c n n' : Config} {m m' : ArchitectureModel} {i j : String × Keywords}

theorem normalForm_iff : NormalForm c n ↔ n = (normalize c).withKeywords n.architecture.keywords ∧
    ∃ t, t.Perm c.architecture.keywords ∧ n.architecture.keywords.Perm (spelled t) := by
  simp only [NormalForm, normalize_withKeywords]
  constructor
  · rintro ⟨t, u, ht, hu, rfl⟩
    exact ⟨rfl, t, ht, hu⟩
  · rintro ⟨hn, t, ht, hu⟩
    exact ⟨t, _, ht, hu, hn⟩

theorem NormalForm.eq_withKeywords (h : NormalForm c n) (h' : NormalForm c n') :
    n' = n.withKeywords n'.architecture.keywords := by
  obtain ⟨hn, -⟩ := normalForm_iff.1 h
  obtain ⟨hn', -⟩ := normalForm_iff.1 h'
  rw [hn, hn']
  rfl

theorem NormalForm.withKeywords_nil (h : NormalForm c n) (h' : NormalForm c n') :
    n'.withKeywords [] = n.withKeywords [] := by
  rw [h.eq_withKeywords h']
  rfl

theorem NormalForm.mem (h : NormalForm c n) (hj : j ∈ n.architecture.keywords) :
    ∃ i ∈ c.architecture.keywords, j = (layerName i.1, i.2) := by
  obtain ⟨-, t, ht, hu⟩ := normalForm_iff.1 h
  obtain ⟨i, hi, rfl⟩ := sets_setEntry.mem_fill.1 (hu.subset hj)
  exact ⟨i, ht.subset hi.mem, rfl⟩

theorem NormalForm.mem_keys (h : NormalForm c n) {name : String} :
    name ∈ n.architecture.keywords.map (·.1) ↔ ∃ i ∈ c.architecture.keywords, layerName i.1 = name := by
  obtain ⟨-, t, ht, hu⟩ := normalForm_iff.1 h
  rw [(hu.map _).mem_iff]
  refine sets_setEntry.mem_keys_fill.trans ?_
  simp only [ht.mem_iff]

theorem NormalForm.nodup_keys (h : NormalForm c n) : (n.architecture.keywords.map (·.1)).Nodup := by
  obtain ⟨-, t, ht, hu⟩ := normalForm_iff.1 h
  exact (hu.map _).nodup_iff.2 sets_setEntry.nodup_keys_fill

theorem NormalForm.keys_perm (h : NormalForm c n) (h' : NormalForm c n') :
    (n'.architecture.keywords.map (·.1)).Perm (n.architecture.keywords.map (·.1)) := by
  rw [List.perm_ext_iff_of_nodup h'.nodup_keys h.nodup_keys]
  intro name
  rw [h.mem_keys, h'.mem_keys]

/-- Any entry of the table can be the one that counts. -/
theorem exists_normalForm (hi : i ∈ c.architecture.keywords) :
    ∃ n, NormalForm c n ∧ Wins (fun j => layerOf j.1) n.architecture.keywords (layerName i.1, i.2) := by
  obtain ⟨t, ht, hwins⟩ := exists_perm_wins (fun j : String × Keywords => layerName j.1) hi
  have hmem : (layerName i.1, i.2) ∈ spelled t := sets_setEntry.mem_fill.2 ⟨i, hwins, rfl⟩
  obtain ⟨u, hu, hlast⟩ := exists_perm_wins (fun j : String × Keywords => layerOf j.1) hmem
  exact ⟨(normalize c).withKeywords u, normalForm_iff.2 ⟨rfl, t, ht, hu⟩, hlast⟩

theorem NormalForm.accepted_iff [GlobLibrary] (h : NormalForm c n) (h' : NormalForm c n') :
    validate n = .ok () ↔ validate n' = .ok () := by
  refine (validate_withKeywords (c := n)).trans (Iff.trans ?_ (validate_withKeywords (c := n')).symm)
  simp only [validateKeywords_eq_ok, (h.keys_perm h').mem_iff, h.withKeywords_nil h']

theorem NormalForm.modelled_iff (h : NormalForm c n) (h' : NormalForm c n') :
    (∃ m, architectureModel n.architecture = .ok m) ↔ ∃ m, architectureModel n'.architecture = .ok m := by
  have hrest : { n'.architecture with keywords := [] } = { n.architecture with keywords := [] } :=
    congrArg architecture (h.withKeywords_nil h')
  rw [exists_architectureModel_iff, exists_architectureModel_iff (a := n'.architecture), hrest]
  simp only [(h.keys_perm h').mem_iff]

theorem NormalForm.mem_iff (h : NormalForm c n)
    (hagree : Agree (fun i => layerName i.1) (fun i => i.2) c.architecture.keywords) :
    j ∈ n.architecture.keywords ↔ ∃ i ∈ c.architecture.keywords, j = (layerName i.1, i.2) := by
  obtain ⟨-, t, ht, hu⟩ := normalForm_iff.1 h
  rw [hu.mem_iff]
  refine (sets_setEntry.mem_fill_of_agree (hagree.perm ht)).trans ?_
  simp only [ht.mem_iff]

theorem same_iff_agree : (∀ n n', NormalForm c n → NormalForm c n' → n.Same n') ↔
    Agree (fun i => layerName i.1) (fun i => i.2) c.architecture.keywords := by
  constructor
  · intro h i hi j hj hkey
    obtain ⟨n, hn, hwins⟩ := exists_normalForm hi
    obtain ⟨n', hn', hwins'⟩ := exists_normalForm hj
    have hmem : (layerName i.1, i.2) ∈ n'.architecture.keywords := (h n n' hn hn').2.mem_iff.2 hwins.mem
    exact eq_of_key hn'.nodup_keys hmem hwins'.mem hkey
  · intro hagree n n' hn hn'
    refine ⟨hn.eq_withKeywords hn', ?_⟩
    rw [List.perm_ext_iff_of_nodup hn'.nodup_keys.of_map hn.nodup_keys.of_map]
    intro e
    rw [hn.mem_iff hagree, hn'.mem_iff hagree]

theorem NormalForm.rest_of_model (h : NormalForm c n) (h' : NormalForm c n')
    (hm : architectureModel n.architecture = .ok m) (hm' : architectureModel n'.architecture = .ok m') :
    m'.mappings = m.mappings ∧ m'.rules = m.rules := by
  obtain ⟨-, -, hrest⟩ := architectureModel_eq_ok.1 hm
  obtain ⟨-, -, hrest'⟩ := architectureModel_eq_ok.1 hm'
  have hsame : { n'.architecture with keywords := [] } = { n.architecture with keywords := [] } :=
    congrArg architecture (h.withKeywords_nil h')
  rw [hsame, hrest] at hrest'
  obtain ⟨hmappings, -, hrules⟩ := ArchitectureModel.mk.inj (Except.ok.inj hrest')
  exact ⟨hmappings.symm, hrules.symm⟩

/-- The entries of each layer come to the same keywords. -/
def LayersAgree (c : Config) : Prop :=
  Agree (fun i => layerOf (layerName i.1)) (fun i => keywordsFor (layerOf (layerName i.1)) i.2) c.architecture.keywords

theorem NormalForm.mem_layered_iff (h : NormalForm c n) (hagree : c.LayersAgree) {e : Layer × Keywords} :
    e ∈ layered n.architecture.keywords ↔ ∃ i ∈ c.architecture.keywords,
      e = (layerOf (layerName i.1), keywordsFor (layerOf (layerName i.1)) i.2) := by
  have hagree' : Agree (fun j => layerOf j.1) (fun j => keywordsFor (layerOf j.1) j.2) n.architecture.keywords := by
    intro j hj k hk hkey
    obtain ⟨i, hi, rfl⟩ := h.mem hj
    obtain ⟨i', hi', rfl⟩ := h.mem hk
    exact hagree i hi i' hi' hkey
  refine (sets_setKeywords.mem_fill_of_agree hagree').trans ?_
  constructor
  · rintro ⟨j, hj, rfl⟩
    obtain ⟨i, hi, rfl⟩ := h.mem hj
    exact ⟨i, hi, rfl⟩
  · rintro ⟨i, hi, rfl⟩
    -- what stands for the key of `i` may be another entry of its layer
    obtain ⟨j, hj, hkey⟩ := List.mem_map.1 (h.mem_keys.2 ⟨i, hi, rfl⟩)
    obtain ⟨k, hk, rfl⟩ := h.mem hj
    have hlayer : layerOf (layerName k.1) = layerOf (layerName i.1) := congrArg layerOf hkey
    exact ⟨_, hj, Prod.ext hlayer.symm (hagree i hi k hk hlayer.symm)⟩

theorem models_same_iff_agree (h : NormalForm c n) (hm : ∃ m, architectureModel n.architecture = .ok m) :
    (∀ n n' m m', NormalForm c n → NormalForm c n' → architectureModel n.architecture = .ok m →
      architectureModel n'.architecture = .ok m' → m.Same m') ↔ c.LayersAgree := by
  constructor
  · intro hsame i hi j hj hkey
    obtain ⟨n₁, hn₁, hwins₁⟩ := exists_normalForm hi
    obtain ⟨n₂, hn₂, hwins₂⟩ := exists_normalForm hj
    obtain ⟨m₁, hm₁⟩ := (h.modelled_iff hn₁).1 hm
    obtain ⟨m₂, hm₂⟩ := (h.modelled_iff hn₂).1 hm
    have hperm := (hsame n₁ n₂ m₁ m₂ hn₁ hn₂ hm₁ hm₂).2.2
    rw [keywords_of_model hm₁, keywords_of_model hm₂] at hperm
    have hmem₁ := mem_layered_of_wins hwins₁
    have hmem₂ := mem_layered_of_wins hwins₂
    dsimp only at hmem₁ hmem₂ hkey ⊢
    exact eq_of_key (nodup_keys_layered _) (hperm.mem_iff.2 hmem₁) hmem₂ hkey
  · intro hagree n₁ n₂ m₁ m₂ hn₁ hn₂ hm₁ hm₂
    obtain ⟨hmappings, hrules⟩ := hn₁.rest_of_model hn₂ hm₁ hm₂
    refine ⟨hmappings, hrules, ?_⟩
    rw [keywords_of_model hm₁, keywords_of_model hm₂]
    rw [List.perm_ext_iff_of_nodup (nodup_keys_layered _).of_map (nodup_keys_layered _).of_map]
    intro e
    rw [hn₁.mem_layered_iff hagree, hn₂.mem_layered_iff hagree]

/-- The order in which a table of keywords is gone through decides nothing but which of several entries for one key
counts: all else, the keys, whether the outcome is accepted and whether a model can be built from it are the same in
every order. The outcome is the same in every order exactly if the entries for each key agree, and so is the model
exactly if the entries for each layer come to the same keywords. -/
theorem order_decides_among_entries [GlobLibrary] (c : Config) :
    (∀ n n', NormalForm c n → NormalForm c n' →
      n' = n.withKeywords n'.architecture.keywords ∧
      (n'.architecture.keywords.map (·.1)).Perm (n.architecture.keywords.map (·.1)) ∧
      (validate n = .ok () ↔ validate n' = .ok ()) ∧
      ((∃ m, architectureModel n.architecture = .ok m) ↔ ∃ m, architectureModel n'.architecture = .ok m)) ∧
    ((∀ n n', NormalForm c n → NormalForm c n' → n.Same n') ↔
      Agree (fun i => layerName i.1) (fun i => i.2) c.architecture.keywords) ∧
    ∀ n₀ m₀, NormalForm c n₀ → architectureModel n₀.architecture = .ok m₀ →
      ((∀ n n' m m', NormalForm c n → NormalForm c n' → architectureModel n.architecture = .ok m →
        architectureModel n'.architecture = .ok m' → m.Same m') ↔ c.LayersAgree) := by
  refine ⟨fun n n' hn hn' => ?_, same_iff_agree, fun n₀ m₀ hn₀ hm₀ => models_same_iff_agree hn₀ ⟨m₀, hm₀⟩⟩
  exact ⟨hn.eq_withKeywords hn', hn.keys_perm hn', hn.accepted_iff hn', hn.modelled_iff hn'⟩

def spelledTwice : Config :=
  { architecture := { keywords := [("Data", ⟨["dao"], []⟩), (" data", ⟨["dao"], []⟩), ("domain", ⟨[], []⟩)] } }

theorem order_decides_among_entries_spelledTwice :
    (∀ n n', NormalForm spelledTwice n → NormalForm spelledTwice n' → n.Same n') ∧
    ∀ n n' m m', NormalForm spelledTwice n → NormalForm spelledTwice n' → architectureModel n.architecture = .ok m →
      architectureModel n'.architecture = .ok m' → m.Same m' := by
  obtain ⟨-, hsame, hmodels⟩ := order_decides_among_entries spelledTwice
  have hnormal : NormalForm spelledTwice (normalize spelledTwice) := ⟨_, _, .refl _, .refl _, rfl⟩
  have hmodel : architectureModel (normalize spelledTwice).architecture = .ok
      { keywords := [(.data, ⟨["dao"], (Keywords.builtIn .data).classes⟩), (.domain, Keywords.builtIn .domain)] } := rfl
  constructor
  · refine hsame.2 ?_
    unfold Agree
    decide +kernel
  · refine (hmodels _ _ hnormal hmodel).2 ?_
    unfold LayersAgree Agree
    decide +kernel

def splitKeywords : Config :=
  applyDefaults { architecture := { keywords := [("Data", ⟨["store"], []⟩), ("data", ⟨["vault"], []⟩)] } }

/-- The last spelling gone through counts, in the settings and in the model. -/
theorem splitKeywords_by_order : ∃ n n' m m', NormalForm splitKeywords n ∧ NormalForm splitKeywords n' ∧
    validate n = .ok () ∧ validate n' = .ok () ∧ architectureModel n.architecture = .ok m ∧
    architectureModel n'.architecture = .ok m' ∧ ¬ n.Same n' ∧ ¬ m.Same m' := by
  have hmodel : architectureModel (normalize splitKeywords).architecture = .ok
      { keywords := [(.data, ⟨["vault"], (Keywords.builtIn .data).classes⟩)] } := rfl
  have hmodel' : architectureModel (normalize (splitKeywords.withKeywords
      splitKeywords.architecture.keywords.reverse)).architecture = .ok
      { keywords := [(.data, ⟨["store"], (Keywords.builtIn .data).classes⟩)] } := rfl
  refine ⟨_, _, _, _, ⟨_, _, .refl _, .refl _, rfl⟩, ⟨_, _, List.reverse_perm _, .refl _, rfl⟩, rfl, rfl, hmodel, hmodel',
    ?_, ?_⟩
  · rintro ⟨-, hperm⟩
    have hone : [("data", (⟨["store"], []⟩ : Keywords))].Perm [("data", ⟨["vault"], []⟩)] := hperm
    exact absurd hone (by decide)
  · rintro ⟨-, -, hperm⟩
    exact absurd hperm (by decide)

end Config

end JvmLint
