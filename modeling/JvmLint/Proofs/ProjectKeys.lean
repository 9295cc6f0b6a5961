import JvmLint.Proofs.KeptRuns
import JvmLint.Proofs.Outcomes
import Mathlib.Data.List.Perm.Subperm

/-!
# Project keys

A run is saved under its trimmed project, or under `default` if nothing is left, but listed and pruned
under the key as given. So it is found again under its own project exactly if trimming does not change
that. Pruning limits what is listed under every key.
-/

namespace JvmLint

theorem storedKey_eq_self_iff {key : String} : storedKey key = key ↔ key ≠ "" ∧ Text.trim key = key := by
  unfold storedKey
  by_cases h : Text.trim key = ""
  · rw [if_pos h]
    constructor
    · intro hkey
      rw [← hkey] at h
      exact absurd h (by decide)
    · intro hkey
      exact absurd (hkey.2.symm.trans h) hkey.1
  · rw [if_neg h]
    constructor
    · intro hkey
      exact ⟨fun hempty => h (hkey.trans hempty), hkey⟩
    · exact fun hkey => hkey.2

/-! ## Reading rows -/

theorem RunRow.id_of_toRun {x : RunRow} {r : Run} (h : x.toRun = .ok r) : r.id = x.id := by
  unfold toRun at h
  split at h
  · cases h
  split at h
  · cases h
  cases h
  rfl

namespace Store

variable {s : Store} {f : Files} {rows : List RunRow} {fs : List FindingRow} {vs : List Int}

def Readable (s : Store) (f : Files) : Prop :=
  ∃ rows fs vs, s.Holds f ⟨some rows, some fs, vs⟩ ∧ (rows.map (·.id)).Nodup ∧ ∀ x ∈ rows, ∃ r, x.toRun = .ok r

theorem list_all (h : s.Holds f ⟨some rows, some fs, vs⟩) (hread : ∀ x ∈ rows, ∃ r, x.toRun = .ok r) (key : String) :
    ∃ runs, s.list f key 0 = .ok runs ∧ runs.length = rows.countP (·.project == key) ∧
      ∀ r, r ∈ runs ↔ ∃ x ∈ rows, x.project = key ∧ x.toRun = .ok r := by
  have hsorted : ∀ x, x ∈ (rows.filter (·.project == key)).mergeSort RunRow.before ↔ x ∈ rows ∧ x.project = key := by
    intro x
    simp
  have hall : ∀ x ∈ (rows.filter (·.project == key)).mergeSort RunRow.before,
      ∃ r, x.toRun.mapError (StoreDefect.row none) = .ok r := by
    intro x hx
    obtain ⟨r, hr⟩ := hread x ((hsorted x).1 hx).1
    exact ⟨r, mapError_eq_ok.2 hr⟩
  obtain ⟨runs, hruns, hlength, hmem⟩ := mapM_ok hall
  refine ⟨runs, ?_, ?_, ?_⟩
  · simp only [Store.list, h.tables, bind, Except.bind, Tables.runsOf, Tables.runTable, pure, Except.pure]
    exact hruns
  · rw [hlength, List.length_mergeSort, List.countP_eq_length_filter]
  · intro r
    simp only [hmem, hsorted, mapError_eq_ok, and_assoc]

/-! ## Saving and pruning -/

theorem holds_of_save (h : s.Holds f ⟨some rows, some fs, vs⟩) {locked : Bool} {fresh : String} {now : Timestamp}
    {r saved : Run} {f' : Files} (hsave : s.save f locked fresh now r = .ok (saved, f')) :
    (∀ x ∈ rows, x.id ≠ (r.kept fresh now).id) ∧
      s.Holds f' ⟨some (rows ++ [.ofRun (r.kept fresh now)]), some (fs ++ Tables.findingRows (r.kept fresh now)), vs⟩ := by
  rw [h.save, insert_complete] at hsave
  by_cases hlocked : locked = true
  · simp [hlocked] at hsave
  by_cases hknown : rows.any (·.id == (r.kept fresh now).id) = true
  · simp [hlocked, hknown] at hsave
  simp only [hlocked, hknown, Bool.false_eq_true, if_false, Except.ok.injEq, Prod.mk.injEq] at hsave
  obtain ⟨-, rfl⟩ := hsave
  refine ⟨?_, h.put _⟩
  simpa using hknown

/-- Of the rows of a project, as many are left as are to be kept, at most. -/
theorem countP_left (hdistinct : (rows.map (·.id)).Nodup) (key : String) {keep : Int} (hkeep : 1 ≤ keep) :
    ((rows.filter (!Tables.isGone rows key keep ·)).countP (·.project == key) : Int) ≤ keep := by
  have hsub : (((rows.filter (!Tables.isGone rows key keep ·)).filter (·.project == key)).map (·.id)).Subperm
      ((Tables.newest rows key keep).map (·.id)) := by
    apply List.subperm_of_subset
    · exact hdistinct.sublist ((List.filter_sublist.trans List.filter_sublist).map _)
    · intro id hid
      obtain ⟨x, hx, rfl⟩ := List.mem_map.1 hid
      simp only [List.mem_filter, Tables.isGone, Bool.not_and, Bool.not_not, beq_iff_eq] at hx
      obtain ⟨⟨-, hleft⟩, hproject⟩ := hx
      simpa [hproject] using hleft
  have hlength := hsub.length_le
  have hnewest : (Tables.newest rows key keep).length ≤ keep.toNat := by
    rw [Tables.newest, Tables.limited, if_neg (by omega)]
    exact List.length_take_le _ _
  rw [List.length_map, List.length_map, ← List.countP_eq_length_filter] at hlength
  omega

theorem Readable.save (hread : s.Readable f) {locked : Bool} {fresh : String} {now : Timestamp} {r saved : Run} {f' : Files}
    (hsave : s.save f locked fresh now r = .ok (saved, f')) (htime : (r.kept fresh now).timestamp.Storable) :
    s.Readable f' ∧ ∀ key, ∃ runs, s.list f' key 0 = .ok runs ∧
      ((r.kept fresh now).listed ∈ runs ↔ storedKey r.project = key) := by
  obtain ⟨rows, fs, vs, hholds, hdistinct, hrows⟩ := hread
  obtain ⟨hnew, hholds'⟩ := holds_of_save hholds hsave
  have hown : (RunRow.ofRun (r.kept fresh now)).toRun = .ok (r.kept fresh now).listed :=
    Run.toRun_ofRun (Run.settled_kept htime)
  have hkeyOf : (RunRow.ofRun (r.kept fresh now)).project = storedKey r.project := by
    simp only [RunRow.ofRun, Run.kept]
  have hrows' : ∀ x ∈ rows ++ [.ofRun (r.kept fresh now)], ∃ y, x.toRun = .ok y := by
    intro x hx
    rcases List.mem_append.1 hx with hx | hx
    · exact hrows x hx
    · rw [List.mem_singleton.1 hx]
      exact ⟨_, hown⟩
  have hdistinct' : ((rows ++ [RunRow.ofRun (r.kept fresh now)]).map (·.id)).Nodup := nodup_snoc hdistinct hnew
  refine ⟨⟨_, _, _, hholds', hdistinct', hrows'⟩, ?_⟩
  intro key
  obtain ⟨runs, hruns, -, hmem⟩ := list_all hholds' hrows' key
  refine ⟨runs, hruns, ?_⟩
  rw [hmem]
  constructor
  · intro hfound
    obtain ⟨x, hx, hproject, hrun⟩ := hfound
    rcases List.mem_append.1 hx with hx | hx
    · exact absurd (RunRow.id_of_toRun hrun).symm (hnew x hx)
    · rwa [List.mem_singleton.1 hx, hkeyOf] at hproject
  · intro hkey
    exact ⟨RunRow.ofRun (r.kept fresh now), by simp, hkeyOf.trans hkey, hown⟩

theorem Readable.prune (hread : s.Readable f) (key : String) {keep : Int} (hkeep : 1 ≤ keep) :
    ∃ n f' runs, s.prune f false key keep = .ok (n, f') ∧ s.Readable f' ∧ s.list f' key 0 = .ok runs ∧
      runs.length ≤ keep := by
  obtain ⟨rows, fs, vs, hholds, hdistinct, hrows⟩ := hread
  have hprune := hholds.prune false key keep
  rw [Tables.prune_eq] at hprune
  simp only [Bool.false_eq_true, if_false] at hprune
  have hrows' : ∀ x ∈ rows.filter (!Tables.isGone rows key keep ·), ∃ y, x.toRun = .ok y := by
    intro x hx
    exact hrows x (List.mem_filter.1 hx).1
  have hdistinct' : ((rows.filter (!Tables.isGone rows key keep ·)).map (·.id)).Nodup :=
    hdistinct.sublist (List.filter_sublist.map _)
  obtain ⟨runs, hruns, hlength, -⟩ := list_all (hholds.put _) hrows' key
  refine ⟨_, _, runs, hprune, ⟨_, _, _, hholds.put _, hdistinct', hrows'⟩, hruns, ?_⟩
  rw [hlength]
  exact countP_left hdistinct key hkeep

/-- A run that was saved is listed under the key it is stored with, and under its own project if that is not
empty and has no blanks around it, but not otherwise. Pruning leaves no more runs under a key than are to be
kept. -/
theorem Readable.listed_under_own_key_iff (hread : s.Readable f) :
    (∀ locked fresh now r saved f', s.save f locked fresh now r = .ok (saved, f') →
      (r.kept fresh now).timestamp.Storable → s.Readable f' ∧
      (∃ runs, s.list f' (storedKey r.project) 0 = .ok runs ∧ (r.kept fresh now).listed ∈ runs) ∧
      ∃ runs, s.list f' r.project 0 = .ok runs ∧
        ((r.kept fresh now).listed ∈ runs ↔ r.project ≠ "" ∧ Text.trim r.project = r.project)) ∧
    ∀ key keep, 1 ≤ keep → ∃ n f' runs, s.prune f false key keep = .ok (n, f') ∧ s.Readable f' ∧
      s.list f' key 0 = .ok runs ∧ runs.length ≤ keep := by
  constructor
  · intro locked fresh now r saved f' hsave htime
    obtain ⟨hread', hlist⟩ := hread.save hsave htime
    obtain ⟨runs, hruns, hmem⟩ := hlist (storedKey r.project)
    refine ⟨hread', ⟨runs, hruns, hmem.2 rfl⟩, ?_⟩
    rw [← storedKey_eq_self_iff]
    exact hlist r.project
  · intro key keep hkeep
    exact hread.prune key hkeep

def leadFiles : Files := { nodes := [(["runs.db"], .file (.history (.ofRuns [lastRun])))] }

theorem readable_leadFiles : newStore.Readable leadFiles := by
  have hsettled : lastRun.Settled := ⟨by decide, rfl, by decide⟩
  refine ⟨_, _, _, ⟨rfl, rfl⟩, by simp, ?_⟩
  intro x hx
  rw [List.mem_singleton.1 hx]
  exact ⟨_, Run.toRun_ofRun hsettled⟩

def leadRun (project : String) : Run := { id := "r1", project, timestamp := { nanos := 1704067200000000000 } }

theorem listed_under_own_key_iff_lead :
    newStore.Readable leadFiles ∧ ∃ saved f' runs,
      newStore.save leadFiles false "" .zero (leadRun "lead") = .ok (saved, f') ∧
      newStore.list f' "lead" 0 = .ok runs ∧ ((leadRun "lead").kept "" .zero).listed ∈ runs := by
  refine ⟨readable_leadFiles, ?_⟩
  obtain ⟨hsave, -⟩ := readable_leadFiles.listed_under_own_key_iff
  obtain ⟨-, -, runs, hruns, hmem⟩ := hsave false "" .zero (leadRun "lead") _ _ rfl (by decide)
  exact ⟨_, _, runs, rfl, hruns, hmem.2 (by decide)⟩

/-- With a blank before its project a run is not found under it. -/
theorem blank_key_not_listed :
    ∃ saved f', newStore.save newFiles false "" .zero (leadRun " lead") = .ok (saved, f') ∧
      newStore.list f' " lead" 0 = .ok [] := by
  have hlist : ∀ f', newStore.tables f' = .ok { runs := some [RunRow.ofRun (complete "" .zero (leadRun " lead"))] } →
      newStore.list f' " lead" 0 = .ok [] := by
    intro f' htables
    have hnone : [RunRow.ofRun (complete "" .zero (leadRun " lead"))].filter (·.project == " lead") = [] := by decide
    simp only [Store.list, htables, bind, Except.bind, Tables.runsOf, Tables.runTable, hnone, List.mergeSort_nil]
    rfl
  exact ⟨_, _, rfl, hlist _ rfl⟩

end Store

end JvmLint
