import JvmLint.Proofs.ByteOrder
import JvmLint.Proofs.ProjectKeys

/-!
# Newest first

The runs of a project are listed by the texts of their timestamps, and those texts are ordered byte by
byte as the instants are. Pruning sorts on its own, and yet it takes away just those runs that a listing
of the same length leaves out.
-/

namespace JvmLint

theorem mem_take_iff_not_mem_drop {α : Type} {l : List α} (h : l.Nodup) {a : α} (ha : a ∈ l) (n : Nat) :
    a ∈ l.take n ↔ a ∉ l.drop n := by
  constructor
  · intro htake hdrop
    exact List.disjoint_take_drop h (le_refl n) htake hdrop
  · intro hnot
    rw [← List.take_append_drop n l, List.mem_append] at ha
    exact ha.resolve_right hnot

theorem countP_mem_drop {α : Type} [DecidableEq α] {l : List α} (h : l.Nodup) (n : Nat) :
    (l.countP fun a => decide (a ∈ l.drop n)) = (l.drop n).length := by
  have hfront : ((l.take n).countP fun a => decide (a ∈ l.drop n)) = 0 := by
    rw [List.countP_eq_zero]
    intro a ha
    simpa using (mem_take_iff_not_mem_drop h (List.mem_of_mem_take ha) n).1 ha
  have hrest : ((l.drop n).countP fun a => decide (a ∈ l.drop n)) = (l.drop n).length := by
    rw [List.countP_eq_length]
    intro a ha
    simpa using ha
  calc (l.countP fun a => decide (a ∈ l.drop n))
      = (l.take n ++ l.drop n).countP fun a => decide (a ∈ l.drop n) := by rw [List.take_append_drop]
    _ = (l.drop n).length := by rw [List.countP_append, hfront, hrest, Nat.zero_add]

theorem Run.newer_asymm (a b : Run) (h : a.newer b) : b.newer a = false := by
  simp only [newer, Bool.or_eq_true, Bool.and_eq_true, decide_eq_true_eq, beq_iff_eq] at h
  simp only [newer, Bool.or_eq_false_iff, Bool.and_eq_false_iff, decide_eq_false_iff_not, beq_eq_false_iff_ne]
  rcases h with hlt | ⟨heq, hid⟩
  · omega
  · exact ⟨by omega, .inr (String.lt_asymm hid)⟩

/-- There is one way to put runs in order. -/
theorem eq_of_newer {l l' : List Run} (h : l.Pairwise fun a b => a.newer b) (h' : l'.Pairwise fun a b => a.newer b)
    (hperm : l.Perm l') : l = l' := by
  refine hperm.eq_of_pairwise ?_ h h'
  intro a b _ _ hab hba
  rw [Run.newer_asymm a b hab] at hba
  cases hba

def newestFirst (rs : List Run) (key : String) : List Run :=
  (rs.filter (·.project == key)).mergeSort fun a b => (RunRow.ofRun a).before (.ofRun b)

section
variable {rs : List Run} {key : String} {r : Run}

theorem perm_newestFirst (rs : List Run) (key : String) : (newestFirst rs key).Perm (rs.filter (·.project == key)) :=
  List.mergeSort_perm _ _

theorem mem_newestFirst : r ∈ newestFirst rs key ↔ r ∈ rs ∧ r.project = key := by
  rw [(perm_newestFirst rs key).mem_iff]
  simp

theorem runsOf_ofRuns (rs : List Run) (key : String) :
    (Tables.ofRuns rs).runsOf key = .ok ((newestFirst rs key).map .ofRun) := by
  have hrows : ((rs.map RunRow.ofRun).filter (·.project == key)).mergeSort RunRow.before =
      (newestFirst rs key).map RunRow.ofRun := by
    rw [List.filter_map, newestFirst, List.map_mergeSort (f := RunRow.ofRun) (s := RunRow.before) fun a _ b _ => rfl]
    rfl
  rw [← hrows]
  rfl

end

/-- As many runs as a limit says; all of them unless it is positive. -/
def cutTo (limit : Int) (rs : List Run) : List Run := if 0 < limit then rs.take limit.toNat else rs

theorem limited_eq_cutTo (limit : Int) (rs : List Run) :
    Tables.limited (if 0 < limit then limit else -1) (rs.map RunRow.ofRun) = (cutTo limit rs).map .ofRun := by
  unfold Tables.limited cutTo
  by_cases h : 0 < limit
  · simp only [h, if_true, if_neg (show ¬ limit < 0 by omega), List.map_take]
  · simp only [h, if_false]
    rfl

namespace Store

variable {s : Store} {f f' : Files} {rs : List Run} {key : String} {keep : Int} {r : Run}

theorem Keeps.nodup_ids (h : s.Keeps f rs) (key : String) : ((newestFirst rs key).map (·.id)).Nodup := by
  rw [((perm_newestFirst rs key).map _).nodup_iff]
  exact h.distinct.sublist (List.filter_sublist.map _)

theorem Keeps.nodup_newestFirst (h : s.Keeps f rs) (key : String) : (newestFirst rs key).Nodup :=
  List.Nodup.of_map _ (h.nodup_ids key)

theorem Keeps.pairwise_newestFirst (h : s.Keeps f rs) (key : String) :
    (newestFirst rs key).Pairwise fun a b => a.newer b := by
  have hbefore : (newestFirst rs key).Pairwise fun a b => (RunRow.ofRun a).before (.ofRun b) := by
    apply List.pairwise_mergeSort
    · intro a b c
      exact RunRow.before_trans _ _ _
    · intro a b
      exact RunRow.before_total _ _
  refine (hbefore.and (List.pairwise_map.1 (h.nodup_ids key))).imp_of_mem ?_
  intro a b ha hb hab
  have hnewer := RunRow.newer_of_before hab.1 hab.2
  rwa [Run.newer_ofRun (h.settled a (mem_newestFirst.1 ha).1).storable (h.settled b (mem_newestFirst.1 hb).1).storable]
    at hnewer

/-! ## Listing -/

theorem Keeps.list (h : s.Keeps f rs) (key : String) (limit : Int) :
    s.list f key limit = .ok ((cutTo limit (newestFirst rs key)).map Run.listed) := by
  have hmem : ∀ r ∈ cutTo limit (newestFirst rs key), r ∈ rs := by
    intro r hr
    unfold cutTo at hr
    split at hr
    · exact (mem_newestFirst.1 (List.mem_of_mem_take hr)).1
    · exact (mem_newestFirst.1 hr).1
  have hread : ((cutTo limit (newestFirst rs key)).map RunRow.ofRun).mapM
      (fun row => row.toRun.mapError (StoreDefect.row none)) = .ok ((cutTo limit (newestFirst rs key)).map Run.listed) := by
    rw [List.mapM_map]
    apply mapM_eq_map
    intro r hr
    rw [Function.comp_apply, mapError_eq_ok]
    exact Run.toRun_ofRun (h.settled r (hmem r hr))
  simp only [Store.list, h.holds.tables, bind, Except.bind, runsOf_ofRuns, limited_eq_cutTo]
  exact hread

theorem Keeps.findings (h : s.Keeps f rs) (hr : r ∈ rs) : s.findings f r.id = .ok r.findings := by
  simp only [Store.findings, h.holds.tables, bind, Except.bind, Tables.findingsOf_ofRuns h.distinct hr]
  rfl

/-! ## Pruning -/

/-- A run survives unless a listing of as many runs as are kept leaves it out. -/
theorem Keeps.survives_iff (h : s.Keeps f rs) (hr : r ∈ rs) (key : String) (hkeep : 1 ≤ keep) :
    StoreStep.survives rs key keep r ↔ r ∉ (newestFirst rs key).drop keep.toNat := by
  by_cases hproject : r.project = key
  · have hall : r ∈ newestFirst rs key := mem_newestFirst.2 ⟨hr, hproject⟩
    have hcount : (newestFirst rs key).countP (·.newer r) = rs.countP fun x => x.project == key && x.newer r := by
      rw [(perm_newestFirst rs key).countP_eq, List.countP_filter]
      simp only [Bool.and_comm]
    have htake := mem_take_iff_countP (h.pairwise_newestFirst key) Run.newer_asymm hall keep.toNat
    rw [← mem_take_iff_not_mem_drop (h.nodup_newestFirst key) hall, htake, hcount]
    simp only [StoreStep.survives, hproject, bne_self_eq_false, Bool.false_or, Bool.or_eq_true, decide_eq_true_eq]
    omega
  · have hother : r ∉ (newestFirst rs key).drop keep.toNat := by
      intro hmem
      exact hproject (mem_newestFirst.1 (List.mem_of_mem_drop hmem)).2
    simp [StoreStep.survives, hproject, hother]

def left (rs : List Run) (key : String) (keep : Int) : List Run :=
  rs.filter fun r => decide (r ∉ (newestFirst rs key).drop keep.toNat)

theorem Keeps.prune (h : s.Keeps f rs) (key : String) (hkeep : 1 ≤ keep) :
    ∃ f', s.prune f false key keep = .ok (((newestFirst rs key).drop keep.toNat).length, f') ∧
      s.Keeps f' (left rs key keep) := by
  have hsurvives : ∀ r ∈ rs, StoreStep.survives rs key keep r = decide (r ∉ (newestFirst rs key).drop keep.toNat) := by
    intro r hr
    rw [Bool.eq_iff_iff, decide_eq_true_iff]
    exact h.survives_iff hr key hkeep
  have hleft : rs.filter (StoreStep.survives rs key keep) = left rs key keep := List.filter_congr hsurvives
  have hcount : (rs.countP fun r => !StoreStep.survives rs key keep r) = ((newestFirst rs key).drop keep.toNat).length := by
    have hgone : ∀ r ∈ rs, (!StoreStep.survives rs key keep r) =
        (decide (r ∈ (newestFirst rs key).drop keep.toNat) && r.project == key) := by
      intro r hr
      rw [hsurvives r hr, Bool.eq_iff_iff]
      simp only [decide_not, Bool.not_not, decide_eq_true_eq, Bool.and_eq_true, beq_iff_eq]
      exact ⟨fun hmem => ⟨hmem, (mem_newestFirst.1 (List.mem_of_mem_drop hmem)).2⟩, And.left⟩
    rw [List.countP_congr fun r hr => by rw [hgone r hr], ← List.countP_filter, ← (perm_newestFirst rs key).countP_eq]
    exact countP_mem_drop (h.nodup_newestFirst key) _
  refine ⟨f.put s.place (.file (.history (.ofRuns (left rs key keep)))), ?_, ?_⟩
  · rw [h.holds.prune, h.prune_ofRuns, hcount, hleft]
  · refine ⟨h.holds.put _, h.distinct.sublist (List.filter_sublist.map _), ?_⟩
    intro r hr
    exact h.settled r (List.mem_filter.1 hr).1

theorem newestFirst_left_other {other : String} (hother : other ≠ key) (keep : Int) :
    newestFirst (left rs key keep) other = newestFirst rs other := by
  unfold newestFirst left
  rw [List.filter_filter]
  congr 1
  refine List.filter_congr fun r _ => ?_
  by_cases hproject : r.project = other
  · have hnot : r ∉ (newestFirst rs key).drop keep.toNat := by
      intro hmem
      exact hother (hproject.symm.trans (mem_newestFirst.1 (List.mem_of_mem_drop hmem)).2)
    simpa [hproject] using hnot
  · simp [hproject]

theorem Keeps.newestFirst_left (h : s.Keeps f rs) (h' : s.Keeps f' (left rs key keep)) :
    newestFirst (left rs key keep) key = (newestFirst rs key).take keep.toNat := by
  have hnodup := h.nodup_newestFirst key
  have htaken : ((newestFirst rs key).take keep.toNat).Sublist (newestFirst rs key) := List.take_sublist _ _
  apply eq_of_newer (h'.pairwise_newestFirst key) ((h.pairwise_newestFirst key).sublist htaken)
  rw [List.perm_ext_iff_of_nodup (h'.nodup_newestFirst key) (hnodup.sublist htaken)]
  intro r
  constructor
  · intro hr
    obtain ⟨hleft, hproject⟩ := mem_newestFirst.1 hr
    simp only [left, List.mem_filter, decide_eq_true_eq] at hleft
    exact (mem_take_iff_not_mem_drop hnodup (mem_newestFirst.2 ⟨hleft.1, hproject⟩) _).2 hleft.2
  · intro hr
    have hall := List.mem_of_mem_take hr
    obtain ⟨hmem, hproject⟩ := mem_newestFirst.1 hall
    have hnot := (mem_take_iff_not_mem_drop hnodup hall _).1 hr
    exact mem_newestFirst.2 ⟨List.mem_filter.2 ⟨hmem, decide_eq_true hnot⟩, hproject⟩

/-- Whatever was saved and pruned before: the texts of the times are ordered byte by byte as the instants are,
the runs of a project are listed newest first and those of one instant by their ids, and pruning takes away,
with their findings, the runs that a listing of as many as are kept leaves out, and no others. -/
theorem listed_by_time {f₀ : Files} {raw : String} (hopen : open_ f raw = .ok (s, f₀)) (hnew : s.tables f₀ = .ok {})
    {sts : List StoreStep} (htimes : ∀ st ∈ sts, st.Timed) (key : String) :
    let rs := StoreStep.ledgerOf sts
    let f₁ := s.after f₀ sts
    s.tables f₁ = .ok (.ofRuns rs) ∧
    (∀ a ∈ rs, ∀ b ∈ rs, Text.bytes (RunRow.ofRun a).timestamp < Text.bytes (RunRow.ofRun b).timestamp ↔
      a.timestamp.nanos < b.timestamp.nanos) ∧
    ∃ all : List Run, all.Perm (rs.filter (·.project == key)) ∧ (all.Pairwise fun a b => a.newer b) ∧
      (∀ limit, s.list f₁ key limit = .ok ((if 0 < limit then all.take limit.toNat else all).map Run.listed)) ∧
      ∀ keep, 1 ≤ keep → ∃ f₂, s.prune f₁ false key keep = .ok ((all.drop keep.toNat).length, f₂) ∧
        s.tables f₂ = .ok (.ofRuns (rs.filter fun r => decide (r ∉ all.drop keep.toNat))) ∧
        s.list f₂ key 0 = s.list f₁ key keep ∧
        (∀ other, other ≠ key → ∀ limit, s.list f₂ other limit = s.list f₁ other limit) ∧
        ∀ r ∈ rs, r.project ≠ key → s.load f₂ r.id = s.load f₁ r.id ∧ s.findings f₂ r.id = s.findings f₁ r.id := by
  intro rs f₁
  have hkeeps : s.Keeps f₁ rs := (keeps_of_open hopen hnew).after htimes
  refine ⟨hkeeps.holds.tables, ?_, newestFirst rs key, perm_newestFirst rs key, hkeeps.pairwise_newestFirst key,
    hkeeps.list key, ?_⟩
  · intro a ha b hb
    rw [Text.bytes_lt_iff]
    exact Timestamp.stored_lt_iff (hkeeps.settled a ha).storable (hkeeps.settled b hb).storable
  · intro keep hkeep
    obtain ⟨f₂, hprune, hleft⟩ := hkeeps.prune key hkeep
    refine ⟨f₂, hprune, hleft.holds.tables, ?_, ?_, ?_⟩
    · rw [hleft.list, hkeeps.list, hkeeps.newestFirst_left hleft]
      simp only [cutTo, if_pos (show 0 < keep by omega)]
      rfl
    · intro other hother limit
      rw [hleft.list, hkeeps.list, newestFirst_left_other hother]
    · intro r hr hproject
      have hstays : r ∈ left rs key keep := by
        refine List.mem_filter.2 ⟨hr, decide_eq_true fun hmem => ?_⟩
        exact hproject (mem_newestFirst.1 (List.mem_of_mem_drop hmem)).2
      exact ⟨(hleft.load hstays).trans (hkeeps.load hr).symm, (hleft.findings hstays).trans (hkeeps.findings hr).symm⟩

/-- Two runs of one instant, told in two zones, a third one that is a hundredth of a second older, and a run of
another project. -/
def tiedRuns : List StoreStep := [
  .save false "" .zero { id := "b", project := "lead", timestamp := { nanos := 1704067200100000000 } },
  .save false "" .zero { id := "c", project := "lead", timestamp := { nanos := 1704067200090000000 } },
  .save false "" .zero { id := "x", project := "other", timestamp := { nanos := 1704067200000000000 } },
  .save false "" .zero { id := "a", project := "lead", timestamp := { nanos := 1704067200100000000, offset := 60 } }]

def tiedRun (id : String) (nanos : Int) : Run := { id, project := "lead", timestamp := { nanos } }

theorem listed_by_time_tiedRuns :
    open_ {} "runs.db" = .ok (newStore, newFiles) ∧ newStore.tables newFiles = .ok {} ∧ (∀ st ∈ tiedRuns, st.Timed) ∧
    newStore.list (newStore.after newFiles tiedRuns) "lead" 2 =
      .ok [tiedRun "a" 1704067200100000000, tiedRun "b" 1704067200100000000] ∧
    ∃ f₂, newStore.prune (newStore.after newFiles tiedRuns) false "lead" 2 = .ok (1, f₂) ∧
      newStore.list f₂ "other" 0 = newStore.list (newStore.after newFiles tiedRuns) "other" 0 := by
  have htimes : ∀ st ∈ tiedRuns, st.Timed := by decide
  obtain ⟨-, -, all, hperm, hsorted, hlist, hprune⟩ := listed_by_time open_new rfl htimes "lead"
  have hall : all = [tiedRun "a" 1704067200100000000, tiedRun "b" 1704067200100000000, tiedRun "c" 1704067200090000000] := by
    apply eq_of_newer hsorted (by decide)
    exact hperm.trans (by decide)
  subst hall
  obtain ⟨f₂, hpruned, -, -, hother, -⟩ := hprune 2 (by decide)
  exact ⟨open_new, rfl, htimes, hlist 2, f₂, hpruned, hother "other" (by decide) 0⟩

end Store

end JvmLint
