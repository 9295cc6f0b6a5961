import JvmLint.Proofs.Dedup
import JvmLint.Report.Basic
import Mathlib.Data.List.Basic

/-!
# Counted findings

Findings are counted one after the other: the place of a check tells which entry to increment, and a check without
a place gets a new entry at the end. Between two findings there is one entry for each check that was seen, in the
order in which they were first seen (`Counted`). Incrementing at a place is incrementing the entry of the check
because no other check has that place.
-/

namespace JvmLint

def entryOf (fs : List Finding) (n : String) : CheckCount :=
  let own := fs.filter (·.checkName == n)
  { name := n, category := (own.head?.map (·.category)).getD ⟨""⟩, count := own.length }

section
variable {fs : List Finding} {f : Finding} {n : String}

theorem entryOf_concat_of_ne (h : f.checkName ≠ n) : entryOf (fs ++ [f]) n = entryOf fs n := by
  have hown : (fs ++ [f]).filter (·.checkName == n) = fs.filter (·.checkName == n) := by simp [h]
  simp only [entryOf, hown]

theorem entryOf_concat_of_mem (h : n ∈ fs.map (·.checkName)) (hf : f.checkName = n) :
    entryOf (fs ++ [f]) n = { entryOf fs n with count := (entryOf fs n).count + 1 } := by
  have hown : (fs ++ [f]).filter (·.checkName == n) = fs.filter (·.checkName == n) ++ [f] := by simp [hf]
  obtain ⟨g, hg, hname⟩ := List.mem_map.1 h
  have hne : fs.filter (·.checkName == n) ≠ [] := List.ne_nil_of_mem (List.mem_filter.2 ⟨hg, beq_iff_eq.2 hname⟩)
  simp only [entryOf, hown, List.head?_append_of_ne_nil _ hne, List.length_append, List.length_singleton]

theorem entryOf_concat_of_notMem (h : f.checkName ∉ fs.map (·.checkName)) :
    entryOf (fs ++ [f]) f.checkName = { name := f.checkName, category := f.category, count := 1 } := by
  have hnone : fs.filter (·.checkName == f.checkName) = [] :=
    List.filter_eq_nil_iff.2 fun g hg hname => h (List.mem_map.2 ⟨g, hg, eq_of_beq hname⟩)
  simp [entryOf, hnone]

end

namespace Tally
variable {fs : List Finding} {t : Tally} {f : Finding}

structure Counted (fs : List Finding) (t : Tally) : Prop where
  entries : t.entries = (dedup (fs.map (·.checkName))).map (entryOf fs)
  places : ∀ n i, t.places.lookup n = some i ↔ (dedup (fs.map (·.checkName)))[i]? = some n

theorem Counted.lookup_eq_none (h : Counted fs t) {n : String} :
    t.places.lookup n = none ↔ n ∉ fs.map (·.checkName) := by
  rw [← mem_dedup, List.mem_iff_getElem?, Option.eq_none_iff_forall_ne_some]
  simp only [ne_eq, h.places, not_exists]

theorem Counted.increment (h : Counted fs t) {i : Nat} (hi : t.places.lookup f.checkName = some i) :
    Counted (fs ++ [f]) (t.increment i) := by
  have hplace := (h.places _ _).1 hi
  have hmem : f.checkName ∈ fs.map (·.checkName) := mem_dedup.1 (List.mem_of_getElem? hplace)
  have hnames : dedup ((fs ++ [f]).map (·.checkName)) = dedup (fs.map (·.checkName)) := by
    rw [List.map_append, List.map_singleton, dedup_concat, if_pos hmem]
  refine ⟨?_, by rw [hnames]; exact h.places⟩
  rw [hnames, Tally.increment, h.entries]
  apply List.ext_getElem?
  intro j
  rw [List.getElem?_modify, List.getElem?_map, List.getElem?_map]
  cases hj : (dedup (fs.map (·.checkName)))[j]? with
  | none => rfl
  | some n =>
    -- the names have no repetitions, so the check has this place and no other
    have hsame : i = j ↔ f.checkName = n := by
      constructor
      · rintro rfl
        exact Option.some.inj (hplace.symm.trans hj)
      · rintro rfl
        exact (List.getElem?_inj (List.getElem?_eq_some_iff.1 hplace).1 (nodup_dedup _)).1 (hplace.trans hj.symm)
    by_cases hn : f.checkName = n
    · simp [hsame.2 hn, entryOf_concat_of_mem (hn ▸ hmem) hn]
    · simp [mt hsame.1 hn, entryOf_concat_of_ne hn]

theorem Counted.enter (h : Counted fs t) (hnew : f.checkName ∉ fs.map (·.checkName)) :
    Counted (fs ++ [f]) ((t.enter f).increment t.entries.length) := by
  have hnames : dedup ((fs ++ [f]).map (·.checkName)) = dedup (fs.map (·.checkName)) ++ [f.checkName] := by
    rw [List.map_append, List.map_singleton, dedup_concat, if_neg hnew]
  have hlength : t.entries.length = (dedup (fs.map (·.checkName))).length := by rw [h.entries, List.length_map]
  constructor
  · have hold : (dedup (fs.map (·.checkName))).map (entryOf (fs ++ [f])) = t.entries := by
      rw [h.entries]
      refine List.map_congr_left fun n hn => entryOf_concat_of_ne ?_
      rintro rfl
      exact hnew (mem_dedup.1 hn)
    rw [hnames, List.map_append, hold, List.map_singleton, entryOf_concat_of_notMem hnew]
    simp [Tally.increment, Tally.enter, List.modify_eq_take_drop]
  · intro n i
    have hconcat : (dedup (fs.map (·.checkName)) ++ [f.checkName])[i]? = some n ↔
        t.places.lookup n = some i ∨ i = t.entries.length ∧ f.checkName = n := by
      rw [h.places, hlength]
      grind
    rw [hnames, hconcat, Tally.increment, Tally.enter, List.lookup_cons]
    by_cases hn : f.checkName = n
    · subst hn
      simp [h.lookup_eq_none.2 hnew, eq_comm]
    · simp [hn, beq_eq_false_iff_ne.2 (Ne.symm hn)]

theorem Counted.add (h : Counted fs t) (f : Finding) : Counted (fs ++ [f]) (t.add f) := by
  unfold Tally.add
  cases hlookup : t.places.lookup f.checkName with
  | none => exact h.enter (h.lookup_eq_none.1 hlookup)
  | some i => exact h.increment hlookup

theorem counted (fs : List Finding) : Counted fs (fs.foldl Tally.add {}) := by
  induction fs using List.reverseRecOn with
  | nil => exact ⟨rfl, fun n i => by simp [dedup]⟩
  | append_singleton fs f ih =>
    rw [List.foldl_concat]
    exact ih.add f

end Tally

theorem checkCounts_eq (fs : List Finding) :
    checkCounts fs = ((dedup (fs.map (·.checkName))).map (entryOf fs)).mergeSort CheckCount.before := by
  rw [checkCounts, (Tally.counted fs).entries]

end JvmLint
