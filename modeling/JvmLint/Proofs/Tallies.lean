import JvmLint.Proofs.ProjectKeys
import JvmLint.Proofs.ShownFindings
import Mathlib.Algebra.BigOperators.Group.List.Lemmas

/-!
# Tallies

The number of findings of each check is told in reports, in the browser and by a history. `IsTally` says what
such a list has to be. There is one such list for findings of which each check has one category
(`IsTally.unique`), it is the same for the findings in another order, and all who tell it meet it. A history
counts rows: they are those of the run's findings for as long as the run is there.
-/

namespace JvmLint

def OneCategory (fs : List Finding) : Prop :=
  ∀ f ∈ fs, ∀ g ∈ fs, f.checkName = g.checkName → f.category = g.category

instance (fs : List Finding) : Decidable (OneCategory fs) :=
  inferInstanceAs (Decidable (∀ f ∈ fs, ∀ g ∈ fs, f.checkName = g.checkName → f.category = g.category))

def CheckCount.Above (a b : CheckCount) : Prop := b.count < a.count ∨ a.count = b.count ∧ a.name < b.name

/-- Each check with findings once, with their number and category; most findings first, then by name. -/
structure IsTally (fs : List Finding) (cs : List CheckCount) : Prop where
  names : ∀ n, n ∈ cs.map (·.name) ↔ n ∈ fs.map (·.checkName)
  once : (cs.map (·.name)).Nodup
  count : ∀ c ∈ cs, c.count = (fs.map (·.checkName)).count c.name
  category : ∀ c ∈ cs, ∀ f ∈ fs, f.checkName = c.name → f.category = c.category
  order : cs.Pairwise CheckCount.Above

/-! ## One tally -/

namespace IsTally
variable {fs fs' : List Finding} {cs cs' : List CheckCount}

theorem mem_of_mem (h : IsTally fs cs) (h' : IsTally fs cs') {c : CheckCount} (hc : c ∈ cs) : c ∈ cs' := by
  have hname : c.name ∈ fs.map (·.checkName) := (h.names _).1 (List.mem_map_of_mem hc)
  obtain ⟨f, hf, hfc⟩ := List.mem_map.1 hname
  obtain ⟨c', hc', hsame⟩ := List.mem_map.1 ((h'.names _).2 hname)
  have hcount : c'.count = c.count := by rw [h'.count c' hc', h.count c hc, hsame]
  have hcategory : c'.category = c.category :=
    (h'.category c' hc' f hf (hfc.trans hsame.symm)).symm.trans (h.category c hc f hf hfc)
  have heq : c' = c := by
    cases c
    cases c'
    simp_all
  exact heq ▸ hc'

theorem unique (h : IsTally fs cs) (h' : IsTally fs cs') : cs = cs' := by
  have hperm : cs.Perm cs' := by
    rw [List.perm_ext_iff_of_nodup (List.Nodup.of_map _ h.once) (List.Nodup.of_map _ h'.once)]
    exact fun c => ⟨h.mem_of_mem h', h'.mem_of_mem h⟩
  refine hperm.eq_of_pairwise ?_ h.order h'.order
  intro a b _ _ hab hba
  rcases hab with hab | ⟨hab, hlt⟩
  · rcases hba with hba | ⟨hba, -⟩ <;> omega
  · rcases hba with hba | ⟨-, hlt'⟩
    · omega
    · exact absurd hlt' (String.lt_asymm hlt)

theorem perm (h : IsTally fs cs) (hperm : fs.Perm fs') : IsTally fs' cs := by
  have hnames : (fs.map (·.checkName)).Perm (fs'.map (·.checkName)) := hperm.map _
  refine ⟨?_, h.once, ?_, ?_, h.order⟩
  · intro n
    rw [h.names, hnames.mem_iff]
  · intro c hc
    rw [h.count c hc, hnames.count_eq]
  · intro c hc f hf
    exact h.category c hc f (hperm.mem_iff.2 hf)

theorem sum_count (h : IsTally fs cs) : (cs.map (·.count)).sum = fs.length := by
  have hcounts : cs.map (·.count) = (cs.map (·.name)).map fun n => (fs.map (·.checkName)).count n := by
    rw [List.map_map]
    exact List.map_congr_left h.count
  have hnames : (cs.map (·.name)).Perm (fs.map (·.checkName)).dedup := by
    rw [List.perm_ext_iff_of_nodup h.once (List.nodup_dedup _)]
    intro n
    rw [h.names, List.mem_dedup]
  calc (cs.map (·.count)).sum
      = ((fs.map (·.checkName)).dedup.map fun n => (fs.map (·.checkName)).count n).sum := by
        rw [hcounts, (hnames.map _).sum_eq]
    _ = fs.length := by rw [List.sum_map_count_dedup_eq_length, List.length_map]

end IsTally

/-! ## Sorted counts -/

theorem mergeSort_congr {α : Type} {le le' : α → α → Bool} {l : List α} (h : ∀ a ∈ l, ∀ b ∈ l, le a b = le' a b) :
    l.mergeSort le = l.mergeSort le' := by
  simpa using List.map_mergeSort (f := id) h

namespace CheckCount
variable {a b c : CheckCount}

theorem before_iff : a.before b ↔ b.count < a.count ∨ a.count = b.count ∧ a.name ≤ b.name := by
  unfold before
  by_cases h : a.count = b.count
  · simp [h]
  · simp [h]

theorem before_trans (a b c : CheckCount) (hab : a.before b) (hbc : b.before c) : a.before c := by
  rw [before_iff] at hab hbc ⊢
  rcases hab with hab | ⟨hab, hname⟩
  · left
    rcases hbc with hbc | ⟨hbc, -⟩ <;> omega
  · rcases hbc with hbc | ⟨hbc, hname'⟩
    · left
      omega
    · exact .inr ⟨hab.trans hbc, String.le_trans hname hname'⟩

theorem before_total (a b : CheckCount) : (a.before b || b.before a) = true := by
  rw [Bool.or_eq_true, before_iff, before_iff]
  rcases Nat.lt_trichotomy a.count b.count with hlt | heq | hlt
  · exact .inr (.inl hlt)
  · rcases String.le_total a.name b.name with hname | hname
    · exact .inl (.inr ⟨heq, hname⟩)
    · exact .inr (.inr ⟨heq.symm, hname⟩)
  · exact .inl (.inl hlt)

theorem above_of_before (h : a.before b) (hname : a.name ≠ b.name) : a.Above b := by
  rcases before_iff.1 h with hlt | ⟨heq, hle⟩
  · exact .inl hlt
  · exact .inr ⟨heq, String.not_le.1 fun hge => hname (String.le_antisymm hle hge)⟩

end CheckCount

/-- Sorting puts the entries of a tally in order. -/
theorem isTally_mergeSort {fs : List Finding} {cs : List CheckCount}
    (names : ∀ n, n ∈ cs.map (·.name) ↔ n ∈ fs.map (·.checkName)) (once : (cs.map (·.name)).Nodup)
    (count : ∀ c ∈ cs, c.count = (fs.map (·.checkName)).count c.name)
    (category : ∀ c ∈ cs, ∀ f ∈ fs, f.checkName = c.name → f.category = c.category) :
    IsTally fs (cs.mergeSort CheckCount.before) := by
  have hperm := List.mergeSort_perm cs CheckCount.before
  have honce : ((cs.mergeSort CheckCount.before).map (·.name)).Nodup := (hperm.map _).nodup_iff.2 once
  have hsorted := List.pairwise_mergeSort CheckCount.before_trans CheckCount.before_total cs
  refine ⟨?_, honce, ?_, ?_, ?_⟩
  · intro n
    rw [(hperm.map _).mem_iff, names]
  · intro c hc
    exact count c (hperm.mem_iff.1 hc)
  · intro c hc
    exact category c (hperm.mem_iff.1 hc)
  · exact (hsorted.and (List.pairwise_map.1 honce)).imp fun h => CheckCount.above_of_before h.1 h.2

/-! ## In reports -/

theorem category_entryOf {fs : List Finding} (h : OneCategory fs) {f : Finding} (hf : f ∈ fs) :
    (entryOf fs f.checkName).category = f.category := by
  have hown : f ∈ fs.filter (·.checkName == f.checkName) := by simpa using hf
  cases hfirst : (fs.filter (·.checkName == f.checkName)).head? with
  | none => exact absurd (List.head?_eq_none_iff.1 hfirst) (List.ne_nil_of_mem hown)
  | some g =>
    obtain ⟨hg, hname⟩ := List.mem_filter.1 (List.mem_of_head? hfirst)
    simp only [entryOf, hfirst]
    exact h g hg f hf (eq_of_beq hname)

theorem isTally_checkCounts {fs : List Finding} (h : OneCategory fs) : IsTally fs (checkCounts fs) := by
  have hnames : ((dedup (fs.map (·.checkName))).map (entryOf fs)).map (·.name) = dedup (fs.map (·.checkName)) := by
    rw [List.map_map]
    exact List.map_id _
  rw [checkCounts_eq]
  apply isTally_mergeSort
  · intro n
    rw [hnames, mem_dedup]
  · rw [hnames]
    exact nodup_dedup _
  · intro c hc
    obtain ⟨n, -, rfl⟩ := List.mem_map.1 hc
    rw [List.count, List.countP_map, List.countP_eq_length_filter]
    rfl
  · intro c hc f hf hname
    obtain ⟨n, -, rfl⟩ := List.mem_map.1 hc
    subst hname
    exact (category_entryOf h hf).symm

/-! ## In a history -/

def keyEntry (keys : List (String × Category)) (k : String × Category) : CheckCount :=
  { name := k.1, category := k.2, count := keys.count k }

def keysOf (fs : List Finding) : List (String × Category) := fs.map fun f => (f.checkName, f.category)

theorem OneCategory.eq_of_fst {fs : List Finding} (h : OneCategory fs) {j k : String × Category} (hj : j ∈ keysOf fs)
    (hk : k ∈ keysOf fs) (hname : j.1 = k.1) : j = k := by
  obtain ⟨f, hf, rfl⟩ := List.mem_map.1 hj
  obtain ⟨g, hg, rfl⟩ := List.mem_map.1 hk
  exact Prod.ext hname (h f hf g hg hname)

theorem count_keysOf {fs : List Finding} (h : OneCategory fs) {k : String × Category} (hk : k ∈ keysOf fs) :
    (keysOf fs).count k = (fs.map (·.checkName)).count k.1 := by
  have hnames : fs.map (·.checkName) = (keysOf fs).map Prod.fst := by
    rw [keysOf, List.map_map]
    rfl
  rw [hnames, List.count, List.count, List.countP_map]
  apply List.countP_congr
  intro j hj
  simp only [beq_iff_eq, Function.comp_apply]
  exact ⟨congrArg Prod.fst, h.eq_of_fst hj hk⟩

/-- Without two entries of one name, a history sorts as reports do. -/
theorem countBefore_eq {a b : CheckCount} (h : a.name = b.name → a = b) : Tables.countBefore a b = a.before b := by
  unfold Tables.countBefore CheckCount.before
  by_cases hcount : a.count = b.count
  · by_cases hname : a.name = b.name
    · obtain rfl := h hname
      simp
    · have hlt : a.name < b.name ↔ a.name ≤ b.name :=
        ⟨fun hlt => String.not_lt.1 (String.lt_asymm hlt), fun hle => String.not_le.1 fun hge => hname (String.le_antisymm hle hge)⟩
      simp [hcount, hname, hlt]
  · simp [hcount]

theorem isTally_keys {fs : List Finding} (h : OneCategory fs) :
    IsTally fs (((dedup (keysOf fs)).map (keyEntry (keysOf fs))).mergeSort Tables.countBefore) := by
  have hentry : ∀ c ∈ (dedup (keysOf fs)).map (keyEntry (keysOf fs)), ∃ k ∈ keysOf fs, keyEntry (keysOf fs) k = c := by
    intro c hc
    obtain ⟨k, hk, rfl⟩ := List.mem_map.1 hc
    exact ⟨k, mem_dedup.1 hk, rfl⟩
  have hsort : ∀ a ∈ (dedup (keysOf fs)).map (keyEntry (keysOf fs)), ∀ b ∈ (dedup (keysOf fs)).map (keyEntry (keysOf fs)),
      Tables.countBefore a b = a.before b := by
    intro a ha b hb
    obtain ⟨j, hj, rfl⟩ := hentry a ha
    obtain ⟨k, hk, rfl⟩ := hentry b hb
    apply countBefore_eq
    intro hname
    rw [h.eq_of_fst hj hk hname]
  have hnames : ((dedup (keysOf fs)).map (keyEntry (keysOf fs))).map (·.name) = (dedup (keysOf fs)).map Prod.fst := by
    rw [List.map_map]
    rfl
  rw [mergeSort_congr hsort]
  apply isTally_mergeSort
  · intro n
    simp [mem_dedup, keysOf, keyEntry]
  · rw [hnames]
    apply List.Nodup.map_on ?_ (nodup_dedup _)
    intro j hj k hk
    exact h.eq_of_fst (mem_dedup.1 hj) (mem_dedup.1 hk)
  · intro c hc
    obtain ⟨k, hk, rfl⟩ := hentry c hc
    exact count_keysOf h hk
  · intro c hc f hf hname
    obtain ⟨k, hk, rfl⟩ := hentry c hc
    obtain ⟨g, hg, rfl⟩ := List.mem_map.1 hk
    exact h f hf g hg hname

/-! ## The rows of a run -/

namespace Store
variable {s : Store} {f : Files} {rows rows' : List RunRow} {fs fs' : List FindingRow} {vs : List Int}

/-- What a step may do to the tables of a store: nothing, add a run with its findings under a new id, or take
away the runs that go, with their findings. -/
inductive Change (rows : List RunRow) (fs : List FindingRow) : List RunRow → List FindingRow → Prop
  | none : Change rows fs rows fs
  | added {r : Run} (hnew : ∀ x ∈ rows, x.id ≠ r.id) : Change rows fs (rows ++ [.ofRun r]) (fs ++ Tables.findingRows r)
  | pruned (project : String) (keep : Int) :
    Change rows fs (rows.filter (!Tables.isGone rows project keep ·))
      (fs.filter fun x => !(Tables.gone rows project keep).contains x.run)

theorem Holds.change (h : s.Holds f ⟨some rows, some fs, vs⟩) (st : StoreStep) :
    ∃ rows' fs', s.Holds (st.files s f) ⟨some rows', some fs', vs⟩ ∧ Change rows fs rows' fs' := by
  cases st with
  | save locked fresh now r =>
    cases hsave : s.save f locked fresh now r with
    | error d =>
      simp only [StoreStep.files, hsave]
      exact ⟨rows, fs, h, .none⟩
    | ok saved =>
      obtain ⟨hnew, hholds⟩ := holds_of_save h hsave
      simp only [StoreStep.files, hsave]
      exact ⟨_, _, hholds, .added hnew⟩
  | prune locked project keep =>
    simp only [StoreStep.files, h.prune, Tables.prune_eq]
    cases locked with
    | true => exact ⟨rows, fs, h, .none⟩
    | false => exact ⟨_, _, h.put _, .pruned project keep⟩

/-- What the keys of the tables stand for: no two runs have the same id, and each finding has its run. -/
structure Linked (rows : List RunRow) (fs : List FindingRow) : Prop where
  distinct : (rows.map (·.id)).Nodup
  owned : ∀ x ∈ fs, ∃ row ∈ rows, row.id = x.run

theorem Linked.change (h : Linked rows fs) (hchange : Change rows fs rows' fs') : Linked rows' fs' := by
  cases hchange with
  | none => exact h
  | @added r hnew =>
    refine ⟨nodup_snoc h.distinct hnew, ?_⟩
    intro x hx
    rcases List.mem_append.1 hx with hx | hx
    · obtain ⟨row, hrow, hid⟩ := h.owned x hx
      exact ⟨row, by simp [hrow], hid⟩
    · exact ⟨.ofRun r, by simp, (Tables.run_of_mem_findingRows hx).symm⟩
  | pruned project keep =>
    refine ⟨h.distinct.sublist (List.filter_sublist.map _), ?_⟩
    intro x hx
    obtain ⟨hx, hstays⟩ := List.mem_filter.1 hx
    obtain ⟨row, hrow, hid⟩ := h.owned x hx
    rw [← hid, Tables.contains_gone h.distinct hrow] at hstays
    exact ⟨row, List.mem_filter.2 ⟨hrow, hstays⟩, hid⟩

/-- The rows that a run's findings had at first are those it has after a change, if the run is still there. -/
theorem Linked.filter_change (h : Linked rows fs) (hchange : Change rows fs rows' fs') {id : String}
    (hbefore : ∃ row ∈ rows, row.id = id) (hafter : ∃ row ∈ rows', row.id = id) :
    fs'.filter (·.run == id) = fs.filter (·.run == id) := by
  cases hchange with
  | none => rfl
  | @added r hnew =>
    obtain ⟨row, hrow, rfl⟩ := hbefore
    have hother : (Tables.findingRows r).filter (·.run == row.id) = [] := by
      simpa [Ne.symm (hnew row hrow)] using Tables.filter_findingRows (· == row.id) [r]
    rw [List.filter_append, hother, List.append_nil]
  | pruned project keep =>
    obtain ⟨row, hrow, rfl⟩ := hafter
    obtain ⟨hrow, hstays⟩ := List.mem_filter.1 hrow
    have hkept : (!(Tables.gone rows project keep).contains row.id) = true := by
      rw [Tables.contains_gone h.distinct hrow]
      exact hstays
    rw [List.filter_filter]
    apply List.filter_congr
    intro x _
    by_cases hx : x.run = row.id
    · simp only [hx, beq_self_eq_true, Bool.true_and, hkept]
    · simp [hx]

def Has (s : Store) (f : Files) (id : String) : Prop :=
  ∃ rows fs vs, s.Holds f ⟨some rows, some fs, vs⟩ ∧ ∃ row ∈ rows, row.id = id

theorem Has.exists_row {id : String} (h : s.Has f id) (hholds : s.Holds f ⟨some rows, some fs, vs⟩) :
    ∃ row ∈ rows, row.id = id := by
  obtain ⟨rows', fs', vs', hholds', hrow⟩ := h
  have hsame := hholds'.tables.symm.trans hholds.tables
  cases hsame
  exact hrow

theorem linked_after (hholds : s.Holds f ⟨some rows, some fs, vs⟩) (hlinked : Linked rows fs) (sts : List StoreStep) :
    ∃ rows' fs', s.Holds (s.after f sts) ⟨some rows', some fs', vs⟩ ∧ Linked rows' fs' := by
  induction sts generalizing f rows fs with
  | nil => exact ⟨rows, fs, hholds, hlinked⟩
  | cons st sts ih =>
    obtain ⟨rows', fs', hholds', hchange⟩ := hholds.change st
    exact ih hholds' (hlinked.change hchange)

theorem filter_after (hholds : s.Holds f ⟨some rows, some fs, vs⟩) (hlinked : Linked rows fs) {id : String}
    {sts : List StoreStep} (hthere : ∀ front, front <+: sts → s.Has (s.after f front) id) :
    ∃ rows' fs', s.Holds (s.after f sts) ⟨some rows', some fs', vs⟩ ∧
      fs'.filter (·.run == id) = fs.filter (·.run == id) := by
  induction sts generalizing f rows fs with
  | nil => exact ⟨rows, fs, hholds, rfl⟩
  | cons st sts ih =>
    obtain ⟨rows', fs', hholds', hchange⟩ := hholds.change st
    have hbefore := (hthere [] (by simp)).exists_row hholds
    have hafter := (hthere [st] (by simp)).exists_row hholds'
    obtain ⟨rows'', fs'', hholds'', hfilter⟩ := ih hholds' (hlinked.change hchange) fun front hfront =>
      hthere (st :: front) (by simpa using hfront)
    exact ⟨rows'', fs'', hholds'', hfilter.trans (hlinked.filter_change hchange hbefore hafter)⟩

theorem counts_of_rows (hholds : s.Holds f ⟨some rows, some fs, vs⟩) {r : Run}
    (hrows : fs.filter (·.run == r.id) = Tables.findingRows r) :
    s.counts f r.id = .ok (((dedup (keysOf r.findings)).map (keyEntry (keysOf r.findings))).mergeSort Tables.countBefore) := by
  have hfindings : (⟨some rows, some fs, vs⟩ : Tables).findingsOf r.id = .ok r.findings := by
    simp only [Tables.findingsOf, Tables.findingTable, bind, Except.bind, hrows, Tables.findings_of_rows]
    rfl
  simp only [Store.counts, hholds.tables, bind, Except.bind, Tables.countsOf, hfindings]
  rfl

theorem id_of_save {locked : Bool} {fresh : String} {now : Timestamp} {r saved : Run} {f' : Files}
    (hsave : s.save f locked fresh now r = .ok (saved, f')) : saved.id = (r.kept fresh now).id := by
  unfold Store.save at hsave
  simp only at hsave
  split at hsave
  · cases hsave
    rfl
  · cases hsave

theorem has_of_save (hholds : s.Holds f ⟨some rows, some fs, vs⟩) {locked : Bool} {fresh : String} {now : Timestamp}
    {r saved : Run} {f' : Files} (hsave : s.save f locked fresh now r = .ok (saved, f')) : s.Has f' saved.id := by
  obtain ⟨-, hsaved⟩ := holds_of_save hholds hsave
  exact ⟨_, _, _, hsaved, .ofRun (r.kept fresh now), by simp, (id_of_save hsave).symm⟩

theorem Has.save {id : String} (h : s.Has f id) (locked : Bool) (fresh : String) (now : Timestamp) (r : Run) :
    s.Has ((StoreStep.save locked fresh now r).files s f) id := by
  cases hsave : s.save f locked fresh now r with
  | error d =>
    simp only [StoreStep.files, hsave]
    exact h
  | ok saved =>
    obtain ⟨rows, fs, vs, hholds, row, hrow, hid⟩ := h
    obtain ⟨-, hsaved⟩ := holds_of_save hholds hsave
    simp only [StoreStep.files, hsave]
    exact ⟨_, _, _, hsaved, row, by simp [hrow], hid⟩

theorem Linked.filter_added (h : Linked rows fs) {r : Run} (hnew : ∀ x ∈ rows, x.id ≠ r.id) :
    (fs ++ Tables.findingRows r).filter (·.run == r.id) = Tables.findingRows r := by
  have hnone : fs.filter (·.run == r.id) = [] := by
    rw [List.filter_eq_nil_iff]
    intro x hx
    obtain ⟨row, hrow, hid⟩ := h.owned x hx
    simpa [← hid] using hnew row hrow
  have hall : (Tables.findingRows r).filter (·.run == r.id) = Tables.findingRows r := by
    simpa using Tables.filter_findingRows (· == r.id) [r]
  rw [List.filter_append, hnone, hall, List.nil_append]

/-- The counts of a run are those of the findings it was saved with, for as long as it is there. -/
theorem counts_after_save (hholds : s.Holds f ⟨some rows, some fs, vs⟩) (hlinked : Linked rows fs) {locked : Bool}
    {fresh : String} {now : Timestamp} {r saved : Run} {f' : Files}
    (hsave : s.save f locked fresh now r = .ok (saved, f')) {later : List StoreStep}
    (hthere : ∀ front, front <+: later → s.Has (s.after f' front) saved.id) :
    s.counts (s.after f' later) saved.id =
      .ok (((dedup (keysOf r.findings)).map (keyEntry (keysOf r.findings))).mergeSort Tables.countBefore) := by
  obtain ⟨hnew, hsaved⟩ := holds_of_save hholds hsave
  obtain ⟨rows', fs', hholds', hfilter⟩ := filter_after hsaved (hlinked.change (.added hnew)) hthere
  rw [id_of_save hsave] at hfilter ⊢
  exact counts_of_rows hholds' (hfilter.trans (hlinked.filter_added hnew))

end Store

/-! ## All three -/

theorem Browser.counts_passOn {σ : Type} [ListWidget σ] (b : Browser σ) (e : BrowserEvent) :
    (b.passOn e).1.counts = b.counts := by
  unfold passOn
  by_cases hpanel : b.panel = .checks
  · simp only [hpanel, if_true]
  · simp only [hpanel, if_false]

/-- If each check has findings of one category only, then what a report tells about the checks, what a browser
tells after a run with these findings, and what a history that was new once tells about a run that was saved with
them, for as long as it has that run, are one list. It has each check that found something once, with the number of
its findings, most of them first and then by name; the numbers add up to that of all findings; and the order of the
findings does not matter. -/
theorem tallies_agree {σ : Type} [ListWidget σ] {s : Store} {f f₀ f₁ : Files} {raw : String}
    (hopen : Store.open_ f raw = .ok (s, f₀)) (hnew : s.tables f₀ = .ok {}) {earlier later : List StoreStep}
    {locked : Bool} {fresh : String} {now : Timestamp} {r saved : Run}
    (hsave : s.save (s.after f₀ earlier) locked fresh now r = .ok (saved, f₁))
    (hthere : ∀ front, front <+: later → s.Has (s.after f₁ front) saved.id) (hone : OneCategory r.findings)
    (b : Browser σ) (moment : Timestamp) (classes : Int) (failures : Nat) (changed : List String) :
    let tally := checkCounts r.findings
    (b.update moment (.result classes r.findings failures changed)).1.counts = tally ∧
    s.counts (s.after f₁ later) saved.id = .ok tally ∧
    IsTally r.findings tally ∧
    (tally.map (·.count)).sum = r.findings.length ∧
    ∀ fs, fs.Perm r.findings → checkCounts fs = tally := by
  intro tally
  have htally : IsTally r.findings tally := isTally_checkCounts hone
  have hstart : s.Holds f₀ ⟨some [], some [], [1, 2]⟩ := (Store.keeps_of_open hopen hnew).holds
  obtain ⟨rows, fs, hholds, hlinked⟩ := Store.linked_after hstart ⟨List.nodup_nil, by simp⟩ earlier
  refine ⟨Browser.counts_passOn _ _, ?_, htally, htally.sum_count, ?_⟩
  · rw [Store.counts_after_save hholds hlinked hsave hthere]
    exact congrArg Except.ok ((isTally_keys hone).unique htally)
  · intro fs hperm
    have hone' : OneCategory fs := fun x hx y hy => hone x (hperm.mem_iff.1 hx) y (hperm.mem_iff.1 hy)
    exact ((isTally_checkCounts hone').perm hperm).unique htally

def tiedFindings : List Finding := [
  ⟨"IMC", .pattern, "demo.A", "first"⟩, ⟨"IMC", .pattern, "demo.B", "first"⟩, ⟨"LPC", .style, "demo.A", "second"⟩,
  ⟨"LPC", .style, "demo.B", "second"⟩, ⟨"ABC", .style, "demo.A", "third"⟩]

def shuffledFindings : List Finding := [
  ⟨"LPC", .style, "demo.B", "second"⟩, ⟨"ABC", .style, "demo.A", "third"⟩, ⟨"IMC", .pattern, "demo.B", "first"⟩,
  ⟨"LPC", .style, "demo.A", "second"⟩, ⟨"IMC", .pattern, "demo.A", "first"⟩]

def tiedTally : List CheckCount := [⟨"IMC", .pattern, 2⟩, ⟨"LPC", .style, 2⟩, ⟨"ABC", .style, 1⟩]

def talliedRun : Run := { id := "t", project := "lead", timestamp := { nanos := 1704067200000000000 }, findings := tiedFindings }

def laterRun : StoreStep := .save false "" .zero
  { id := "u", project := "lead", timestamp := { nanos := 1704067200000000001 }, findings := [⟨"IMC", .style, "demo.C", "first"⟩] }

theorem tallies_agree_tiedFindings :
    OneCategory tiedFindings ∧ checkCounts shuffledFindings = tiedTally ∧
    ∃ saved f₁, Store.newStore.save Store.newFiles false "" .zero talliedRun = .ok (saved, f₁) ∧
      Store.newStore.counts (Store.newStore.after f₁ [laterRun]) saved.id = .ok tiedTally := by
  have hone : OneCategory tiedFindings := by decide
  have htally : checkCounts tiedFindings = tiedTally := List.mergeSort_of_pairwise (by decide)
  have hsaved : ∃ saved f₁, Store.newStore.save (Store.newStore.after Store.newFiles []) false "" .zero talliedRun =
      .ok (saved, f₁) := ⟨_, _, rfl⟩
  obtain ⟨saved, f₁, hsave⟩ := hsaved
  have hthere : ∀ front, front <+: [laterRun] → Store.newStore.Has (Store.newStore.after f₁ front) saved.id := by
    have hstart : Store.newStore.Holds Store.newFiles ⟨some [], some [], [1, 2]⟩ := ⟨rfl, rfl⟩
    have hfirst : Store.newStore.Has f₁ saved.id := Store.has_of_save hstart hsave
    intro front hfront
    rcases List.prefix_cons_iff.1 hfront with rfl | ⟨rest, rfl, hrest⟩
    · exact hfirst
    · rw [List.prefix_nil.1 hrest]
      exact hfirst.save _ _ _ _
  obtain ⟨-, hcounts, -, -, hperm⟩ := tallies_agree Store.open_new rfl hsave hthere hone
    (Browser.start none .zero : Browser Pager) .zero 2 0 []
  rw [show talliedRun.findings = tiedFindings from rfl, htally] at hcounts hperm
  exact ⟨hone, hperm shuffledFindings (by decide), saved, f₁, hsave, hcounts⟩

end JvmLint
