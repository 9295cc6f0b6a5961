import JvmLint.History.Trend
import JvmLint.Proofs.Dedup
import Mathlib.Algebra.Ring.Int.Defs
import Mathlib.Data.List.Nodup

/-!
# Trends as time lines

A trend has the runs in the order of their times, and each point tells how many findings came to those of the
point before. Up to any point these differences add up to what came to the findings of the first one. They are
words of 64 bits, and so are their sums; nothing is lost as long as no count is negative.
-/

namespace JvmLint.Trend

/-! ## Differences -/

def IsWord (n : Int) : Prop := -0x8000000000000000 ≤ n ∧ n < 0x8000000000000000

instance (n : Int) : Decidable (IsWord n) :=
  inferInstanceAs (Decidable (-0x8000000000000000 ≤ n ∧ n < 0x8000000000000000))

theorem wrap_eq_self {n : Int} (h : IsWord n) : wrap n = n := by
  unfold IsWord at h
  unfold wrap
  apply Int.bmod_eq_of_le <;> omega

theorem wrap_step (b c x : Int) : wrap (b + (wrap (c - b) + x)) = wrap (c + x) := by
  unfold wrap
  rw [← Int.add_assoc, ← Int.bmod_add_bmod, Int.add_bmod_bmod, Int.bmod_add_bmod]
  congr 1
  omega

theorem step_of_not_neg {b c : Int} (hb : 0 ≤ b ∧ IsWord b) (hc : 0 ≤ c ∧ IsWord c) (x : Int) :
    b + (wrap (c - b) + x) = c + x := by
  have hword : IsWord (c - b) := by
    unfold IsWord at *
    omega
  rw [wrap_eq_self hword]
  omega

/-- What the differences up to a point add up to, as far as `g` tells numbers apart. -/
theorem telescope {g : Int → Int} {ok : Int → Prop}
    (hstep : ∀ b c x, ok b → ok c → g (b + (wrap (c - b) + x)) = g (c + x)) {before : Int} (hbefore : ok before)
    {runs : List Run} (hruns : ∀ r ∈ runs, ok r.findingCount) {i : Nat} {p : TrendPoint}
    (hp : (pointsAfter before runs)[i]? = some p) :
    g p.run.findingCount = g (before + (((pointsAfter before runs).take (i + 1)).map (·.delta)).sum) := by
  induction runs generalizing before i with
  | nil => cases hp
  | cons r runs ih =>
    have hr : ok r.findingCount := hruns r (by simp)
    rw [pointsAfter, List.take_succ_cons, List.map_cons, List.sum_cons, hstep _ _ _ hbefore hr]
    cases i with
    | zero =>
      cases hp
      simp
    | succ i => exact ih hr (fun x hx => hruns x (by simp [hx])) hp

theorem map_run_pointsAfter (before : Int) (runs : List Run) : (pointsAfter before runs).map (·.run) = runs := by
  induction runs generalizing before with
  | nil => rfl
  | cons r runs ih => rw [pointsAfter, List.map_cons, ih]

/-! ## Order -/

def notLater (a b : Run) : Bool := a.timestamp.nanos ≤ b.timestamp.nanos

theorem notLater_trans (a b c : Run) (hab : notLater a b) (hbc : notLater b c) : notLater a c := by
  simp only [notLater, decide_eq_true_eq] at *
  omega

theorem notLater_total (a b : Run) : (notLater a b || notLater b a) = true := by
  simp only [notLater, Bool.or_eq_true, decide_eq_true_eq]
  omega

theorem runs_at_mergeSort (runs : List Run) (nanos : Int) :
    (runs.mergeSort notLater).filter (·.timestamp.nanos == nanos) = runs.filter (·.timestamp.nanos == nanos) := by
  refine filter_mergeSort notLater_trans notLater_total (fun a b ha hb => ?_) runs
  simp only [beq_iff_eq] at ha hb
  simp [notLater, ha, hb]

theorem mergeSort_eq_of_perm {runs runs' : List Run} (hdistinct : (runs.map (·.timestamp.nanos)).Nodup)
    (hperm : runs'.Perm runs) : runs'.mergeSort notLater = runs.mergeSort notLater := by
  have hperm' := (List.mergeSort_perm runs' notLater).trans (hperm.trans (List.mergeSort_perm runs notLater).symm)
  refine hperm'.eq_of_pairwise ?_ (List.pairwise_mergeSort notLater_trans notLater_total runs')
    (List.pairwise_mergeSort notLater_trans notLater_total runs)
  intro a b ha hb hab hba
  apply List.inj_on_of_nodup_map hdistinct
  · exact hperm.mem_iff.1 (List.mem_mergeSort.1 ha)
  · exact List.mem_mergeSort.1 hb
  · simp only [notLater, decide_eq_true_eq] at hab hba
    omega

/-! ## Trends -/

theorem ofRuns_eq {runs rest : List Run} {first : Run} (h : runs.mergeSort notLater = first :: rest) (project : String) :
    ofRuns project runs = .ok { project, points := pointsAfter first.findingCount (first :: rest) } := by
  have hsorted : runs.mergeSort (fun a b => a.timestamp.nanos ≤ b.timestamp.nanos) = first :: rest := h
  simp only [ofRuns, hsorted]

theorem exists_first {runs : List Run} (hne : runs ≠ []) : ∃ first rest, runs.mergeSort notLater = first :: rest := by
  apply List.exists_cons_of_ne_nil
  intro hnil
  exact hne (List.perm_nil.1 (hnil ▸ (List.mergeSort_perm runs notLater).symm))

/-- The trend of runs whose counts are words is a time line: the points are the runs, oldest first, and runs of one
time in the order they are given in. The first difference is 0. The count of each point is that of the first one and
the differences up to it, added as words are, and added as numbers if no count is negative. If no two times are the
same, then the order in which the runs are given does not matter. -/
theorem time_line_of_runs (project : String) {runs : List Run} (hne : runs ≠ [])
    (hwords : ∀ r ∈ runs, IsWord r.findingCount) :
    ∃ t first, ofRuns project runs = .ok t ∧ t.project = project ∧
      (t.points.map (·.run)).Perm runs ∧
      (t.points.Pairwise fun p q => p.run.timestamp.nanos ≤ q.run.timestamp.nanos) ∧
      (∀ nanos, (t.points.map (·.run)).filter (·.timestamp.nanos == nanos) = runs.filter (·.timestamp.nanos == nanos)) ∧
      t.points.head? = some first ∧ first.delta = 0 ∧
      (∀ i p, t.points[i]? = some p →
        p.run.findingCount = wrap (first.run.findingCount + ((t.points.take (i + 1)).map (·.delta)).sum)) ∧
      ((∀ r ∈ runs, 0 ≤ r.findingCount) → ∀ i p, t.points[i]? = some p →
        p.run.findingCount = first.run.findingCount + ((t.points.take (i + 1)).map (·.delta)).sum) ∧
      ((runs.map (·.timestamp.nanos)).Nodup → ∀ runs', runs'.Perm runs → ofRuns project runs' = .ok t) := by
  obtain ⟨first, rest, hsorted⟩ := exists_first hne
  have hruns := map_run_pointsAfter first.findingCount (first :: rest)
  have hmem : ∀ r ∈ first :: rest, r ∈ runs := by
    intro r hr
    rw [← hsorted] at hr
    exact List.mem_mergeSort.1 hr
  have hfirst : first ∈ runs := hmem first (by simp)
  have hzero : wrap (first.findingCount - first.findingCount) = 0 := by
    rw [Int.sub_self]
    exact wrap_eq_self (by decide)
  refine ⟨_, ⟨first, wrap (first.findingCount - first.findingCount)⟩, ofRuns_eq hsorted project, rfl, ?_, ?_, ?_, rfl, hzero,
    ?_, ?_, ?_⟩
  · rw [hruns, ← hsorted]
    exact List.mergeSort_perm runs notLater
  · have horder := List.pairwise_mergeSort notLater_trans notLater_total runs
    rw [hsorted, ← hruns, List.pairwise_map] at horder
    exact horder.imp fun h => by simpa [notLater] using h
  · intro nanos
    rw [hruns, ← hsorted, runs_at_mergeSort]
  · intro i p hp
    have hsum := telescope (g := wrap) (fun b c x _ _ => wrap_step b c x) (hwords first hfirst)
      (fun r hr => hwords r (hmem r hr)) hp
    have hp' : p.run ∈ first :: rest := hruns ▸ List.mem_map_of_mem (List.mem_of_getElem? hp)
    rwa [wrap_eq_self (hwords _ (hmem _ hp'))] at hsum
  · intro hcounts i p hp
    have hok : ∀ r ∈ runs, 0 ≤ r.findingCount ∧ IsWord r.findingCount := fun r hr => ⟨hcounts r hr, hwords r hr⟩
    exact telescope (g := id) (fun b c x hb hc => step_of_not_neg hb hc x) (hok first hfirst)
      (fun r hr => hok r (hmem r hr)) hp
  · intro hdistinct runs' hperm
    exact ofRuns_eq ((mergeSort_eq_of_perm hdistinct hperm).trans hsorted) project

def threeRuns : List Run := [
  { id := "a", timestamp := { nanos := 0, offset := 60 }, classes := 8, findingCount := 6 },
  { id := "b", timestamp := { nanos := 1 }, findingCount := 0 },
  { id := "c", timestamp := { nanos := 2 }, classes := 10, findingCount := 4 }]

theorem time_line_of_runs_threeRuns :
    threeRuns ≠ [] ∧ (∀ r ∈ threeRuns, IsWord r.findingCount) ∧
    ∃ t, ofRuns "shop" threeRuns.reverse = .ok t ∧ t.points.map (·.run) = threeRuns ∧ t.points.map (·.delta) = [0, -6, 4] := by
  have hwords : ∀ r ∈ threeRuns, IsWord r.findingCount := by decide
  have hsorted : threeRuns.mergeSort notLater = threeRuns := List.mergeSort_of_pairwise (by decide)
  obtain ⟨t, -, ht, -, -, -, -, -, -, -, -, hothers⟩ := time_line_of_runs "shop" (by decide) hwords
  have hpoints : t.points = pointsAfter 6 threeRuns := by
    rw [ofRuns_eq hsorted] at ht
    cases ht
    rfl
  refine ⟨by decide, hwords, t, hothers (by decide) _ (List.reverse_perm _), ?_, ?_⟩
  · rw [hpoints, map_run_pointsAfter]
  · rw [hpoints]
    simp only [pointsAfter, threeRuns, List.map_cons, List.map_nil]
    rw [wrap_eq_self (by decide), wrap_eq_self (by decide), wrap_eq_self (by decide)]
    rfl

end JvmLint.Trend
