import JvmLint.Architecture.Policy
import Mathlib.Data.List.Induction

/-!
# Each once

Lists of names and paths are made free of repetitions before they are used; nothing is lost by it, and the
order is that of the first occurrences. In other lists an element is left out if one with the same key came
before it, or an entry takes the place of the one with its key.
-/

namespace JvmLint

section
variable {α : Type} [BEq α] [LawfulBEq α]

theorem mem_foldl_seen (l seen : List α) (a : α) :
    a ∈ l.foldl (fun seen a => if seen.contains a then seen else a :: seen) seen ↔ a ∈ seen ∨ a ∈ l := by
  induction l generalizing seen with
  | nil => simp
  | cons b l ih =>
    rw [List.foldl_cons, ih]
    by_cases hb : b ∈ seen
    · have hseen : a = b → a ∈ seen := fun h => h ▸ hb
      simp only [List.contains_iff_mem, hb, if_true, List.mem_cons]
      grind
    · simp only [List.contains_iff_mem, hb, if_false, List.mem_cons]
      grind

theorem mem_dedup {l : List α} {a : α} : a ∈ dedup l ↔ a ∈ l := by
  rw [dedup, List.mem_reverse, mem_foldl_seen]
  simp

structure FirstsOf (l out : List α) : Prop where
  mem : ∀ a, a ∈ out ↔ a ∈ l
  order : out.Pairwise fun a b => l.idxOf a < l.idxOf b

theorem dedup_concat (l : List α) (a : α) : dedup (l ++ [a]) = if a ∈ l then dedup l else dedup l ++ [a] := by
  have hseen := mem_foldl_seen l [] a
  unfold dedup
  rw [List.foldl_append, List.foldl_cons, List.foldl_nil]
  generalize l.foldl (fun seen a => if seen.contains a then seen else a :: seen) [] = seen at *
  by_cases ha : a ∈ l
  · have hin : a ∈ seen := hseen.2 (.inr ha)
    simp [hin, ha]
  · have hout : a ∉ seen := by simpa [ha] using hseen
    simp [hout, ha]

theorem firstsOf_dedup (l : List α) : FirstsOf l (dedup l) := by
  refine ⟨fun a => mem_dedup, ?_⟩
  induction l using List.reverseRecOn with
  | nil => exact .nil
  | append_singleton l a ih =>
    have hold : (dedup l).Pairwise fun x y => (l ++ [a]).idxOf x < (l ++ [a]).idxOf y := by
      refine ih.imp_of_mem fun hx hy hxy => ?_
      rwa [List.idxOf_append, List.idxOf_append, if_pos (mem_dedup.1 hx), if_pos (mem_dedup.1 hy)]
    rw [dedup_concat]
    by_cases ha : a ∈ l
    · rwa [if_pos ha]
    · rw [if_neg ha, List.pairwise_append]
      refine ⟨hold, by simp, ?_⟩
      intro x hx y hy
      have hlt : l.idxOf x < l.length := List.idxOf_lt_length_of_mem (mem_dedup.1 hx)
      rw [List.mem_singleton.1 hy, List.idxOf_append, List.idxOf_append, if_pos (mem_dedup.1 hx), if_neg ha]
      omega

theorem nodup_dedup (l : List α) : (dedup l).Nodup :=
  (firstsOf_dedup l).order.imp fun hlt heq => by simp [heq] at hlt

end

/-! ## Sorting -/

/-- Sorting keeps the order of elements that the order does not tell apart. -/
theorem filter_mergeSort {α : Type} {le : α → α → Bool} (htrans : ∀ a b c, le a b → le b c → le a c)
    (htotal : ∀ a b, (le a b || le b a) = true) {p : α → Bool} (hsame : ∀ a b, p a → p b → le a b) (l : List α) :
    (l.mergeSort le).filter p = l.filter p := by
  have hpair : (l.filter p).Pairwise fun a b => le a b := by
    rw [List.pairwise_iff_forall_sublist]
    intro a b hab
    exact hsame a b (List.mem_filter.1 (hab.subset (by simp))).2 (List.mem_filter.1 (hab.subset (by simp))).2
  -- these elements are in order as they are given, so sorting keeps them as a sublist
  have hsub := (List.sublist_mergeSort htrans htotal hpair List.filter_sublist).filter p
  rw [List.filter_filter] at hsub
  simp only [Bool.and_self] at hsub
  exact (hsub.eq_of_length ((List.mergeSort_perm l le).filter _).length_eq.symm).symm

/-! ## Entries by key -/

section
variable {κ ν : Type} [BEq κ] [LawfulBEq κ] {entries : List (κ × ν)} {key k : κ}

theorem lookup_filter_self : (entries.filter (·.1 != key)).lookup key = none := by
  induction entries with
  | nil => rfl
  | cons e entries ih =>
    obtain ⟨k, v⟩ := e
    by_cases hk : k = key
    · simp [hk, ih]
    · have hne : (key == k) = false := by simpa using Ne.symm hk
      simp [hk, List.lookup_cons, hne, ih]

theorem lookup_filter_of_ne (h : k ≠ key) : (entries.filter (·.1 != key)).lookup k = entries.lookup k := by
  induction entries with
  | nil => rfl
  | cons e entries ih =>
    obtain ⟨k', v⟩ := e
    by_cases hkey : k' = key
    · subst hkey
      have hk : (k == k') = false := by simpa using h
      simp [List.lookup_cons, hk, ih]
    · simp [hkey, List.lookup_cons, ih]

end

/-! ## The first of each key -/

variable {α κ : Type} {key : α → κ}

def keepFirst (same : α → α → Bool) (l : List α) : List α :=
  (l.foldl (fun (out : List α) a => if out.any (same · a) then out else a :: out) []).reverse

section
variable {same : α → α → Bool} (hsame : ∀ a b, same a b = true ↔ key a = key b)
include hsame

theorem key_mem_foldl_keep {l out : List α} {k : κ} :
    (∃ b ∈ l.foldl (fun (out : List α) a => if out.any (same · a) then out else a :: out) out, key b = k) ↔
      (∃ b ∈ out, key b = k) ∨ ∃ b ∈ l, key b = k := by
  induction l generalizing out with
  | nil => simp
  | cons a l ih =>
    rw [List.foldl_cons, ih]
    by_cases hany : out.any (same · a) = true
    · obtain ⟨b, hb, hba⟩ := List.any_eq_true.1 hany
      have hkey : key b = key a := (hsame b a).1 hba
      simp only [if_pos hany, List.mem_cons]
      grind
    · simp only [if_neg hany, List.mem_cons]
      grind

theorem keepFirst_concat (l : List α) (a : α) :
    keepFirst same (l ++ [a]) = if l.any (same · a) then keepFirst same l else keepFirst same l ++ [a] := by
  unfold keepFirst
  rw [List.foldl_append, List.foldl_cons, List.foldl_nil]
  have hany : (l.foldl (fun (out : List α) a => if out.any (same · a) then out else a :: out) []).any (same · a) =
      l.any (same · a) := by
    rw [Bool.eq_iff_iff, List.any_eq_true, List.any_eq_true]
    simp only [hsame]
    rw [key_mem_foldl_keep hsame]
    simp
  rw [hany]
  by_cases h : l.any (same · a) = true
  · rw [if_pos h, if_pos h]
  · rw [if_neg h, if_neg h, List.reverse_cons]

end

/-- Of the elements with the same key, the first one, in the order of the list. -/
structure FirstsBy [BEq α] [DecidableEq κ] (key : α → κ) (l out : List α) : Prop where
  mem : ∀ a, a ∈ out ↔ l.find? (fun b => key b = key a) = some a
  order : out.Pairwise fun a b => l.idxOf a < l.idxOf b

variable [BEq α] [DecidableEq κ]

theorem FirstsBy.subset {l out : List α} (h : FirstsBy key l out) {a : α} (ha : a ∈ out) : a ∈ l :=
  List.mem_of_find?_eq_some ((h.mem a).1 ha)

variable [LawfulBEq α]

theorem FirstsBy.concat {l out : List α} (h : FirstsBy key l out) {a : α} (hnew : ∀ b ∈ l, key b ≠ key a) :
    FirstsBy key (l ++ [a]) (out ++ [a]) := by
  have habsent : l.find? (fun b => key b = key a) = none := by simpa using hnew
  have ha : a ∉ l := fun hmem => hnew a hmem rfl
  constructor
  · intro b
    rw [List.mem_append, List.mem_singleton, h.mem b, List.find?_append]
    by_cases hab : b = a
    · simp [hab, habsent]
    · by_cases hkey : key a = key b
      · simp [← hkey, habsent, hab, Ne.symm hab]
      · simp [hkey, hab]
  · rw [List.pairwise_append]
    refine ⟨h.order.imp_of_mem fun hx hy hxy => ?_, by simp, ?_⟩
    · rwa [List.idxOf_append, List.idxOf_append, if_pos (h.subset hx), if_pos (h.subset hy)]
    · intro x hx y hy
      have hlt : l.idxOf x < l.length := List.idxOf_lt_length_of_mem (h.subset hx)
      rw [List.mem_singleton.1 hy, List.idxOf_append, List.idxOf_append, if_pos (h.subset hx), if_neg ha]
      omega

theorem FirstsBy.skip {l out : List α} (h : FirstsBy key l out) {a : α} (hold : ∃ b ∈ l, key b = key a) :
    FirstsBy key (l ++ [a]) out := by
  constructor
  · intro b
    rw [h.mem b, List.find?_append]
    by_cases hkey : key a = key b
    · cases hfind : l.find? (fun x => key x = key b) with
      | some c => simp
      | none =>
        obtain ⟨c, hc, hca⟩ := hold
        exact absurd (hca.trans hkey) (by simpa using List.find?_eq_none.1 hfind c hc)
    · simp [hkey]
  · refine h.order.imp_of_mem fun hx hy hxy => ?_
    rwa [List.idxOf_append, List.idxOf_append, if_pos (h.subset hx), if_pos (h.subset hy)]

theorem firstsBy_keepFirst {same : α → α → Bool} (hsame : ∀ a b, same a b = true ↔ key a = key b) (l : List α) :
    FirstsBy key l (keepFirst same l) := by
  induction l using List.reverseRecOn with
  | nil => exact ⟨fun a => by simp [keepFirst], .nil⟩
  | append_singleton l a ih =>
    rw [keepFirst_concat hsame]
    by_cases hany : l.any (same · a) = true
    · obtain ⟨b, hb, hba⟩ := List.any_eq_true.1 hany
      rw [if_pos hany]
      exact ih.skip ⟨b, hb, (hsame b a).1 hba⟩
    · rw [if_neg hany]
      exact ih.concat fun b hb hkey => hany (List.any_eq_true.2 ⟨b, hb, (hsame b a).2 hkey⟩)

end JvmLint
