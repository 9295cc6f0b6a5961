import JvmLint.Check.Duplication
import Mathlib.Order.Bounds.Basic

/-!
# Common subsequences

The table of common subsequence lengths is kept to two rows that change places.
An entry is right as soon as it is written: the entries before it are of the new
row, and the stale ones behind it, which are two rows old, are not read. Only the
first entry of a row is never written; it stays 0. So the last entry is the length of
a longest common subsequence.
-/

namespace JvmLint

variable {α : Type}

/-- A subsequence either leaves out the last element or ends with it. -/
theorem sublist_concat {s xs : List α} {x : α} :
    s.Sublist (xs ++ [x]) ↔ s.Sublist xs ∨ ∃ t, s = t ++ [x] ∧ t.Sublist xs := by
  rw [List.sublist_append_iff]
  constructor
  · intro ⟨t, l, hs, ht, hl⟩
    rcases List.sublist_cons_iff.1 hl with hl | ⟨r, hr, hnil⟩
    · have heq : s = t := by simpa [List.sublist_nil.1 hl] using hs
      exact .inl (heq ▸ ht)
    · exact .inr ⟨t, by simp [hs, hr, List.sublist_nil.1 hnil], ht⟩
  · intro hs
    rcases hs with hs | ⟨t, hs, ht⟩
    · exact ⟨s, [], by simp, hs, by simp⟩
    · exact ⟨t, [x], hs, ht, .refl _⟩

def IsLongest (xs ys : List α) (n : Nat) : Prop :=
  IsGreatest {n | ∃ s : List α, s.Sublist xs ∧ s.Sublist ys ∧ s.length = n} n

namespace IsLongest
variable {xs ys : List α} {x y : α} {n up left : Nat}

theorem bound (h : IsLongest xs ys n) {s : List α} (hx : s.Sublist xs) (hy : s.Sublist ys) : s.length ≤ n :=
  h.2 ⟨s, hx, hy, rfl⟩

theorem symm (h : IsLongest xs ys n) : IsLongest ys xs n := by
  obtain ⟨⟨s, hx, hy, hlen⟩, hbound⟩ := h
  refine ⟨⟨s, hy, hx, hlen⟩, ?_⟩
  intro m ⟨t, hty, htx, htlen⟩
  exact hbound ⟨t, htx, hty, htlen⟩

theorem nil_right (xs : List α) : IsLongest xs [] 0 := by
  refine ⟨⟨[], List.nil_sublist _, List.nil_sublist _, rfl⟩, ?_⟩
  intro n ⟨s, _, hs, hlen⟩
  rw [← hlen, List.sublist_nil.1 hs]
  exact Nat.le_refl 0

/-- Two last elements that are the same are matched with each other. -/
theorem match_last (h : IsLongest xs ys n) : IsLongest (xs ++ [x]) (ys ++ [x]) (n + 1) := by
  obtain ⟨s, hx, hy, hlen⟩ := h.1
  refine ⟨⟨s ++ [x], hx.append_right [x], hy.append_right [x], by simp [hlen]⟩, ?_⟩
  intro m ⟨t, htx, hty, htlen⟩
  -- without its last element, a common subsequence is one of the shorter sequences
  have hshort : ∀ {zs : List α}, t.Sublist (zs ++ [x]) → t.dropLast.Sublist zs := by
    intro zs ht
    rcases sublist_concat.1 ht with ht | ⟨u, rfl, hu⟩
    · exact (List.dropLast_sublist t).trans ht
    · simpa using hu
  have hbound := h.bound (hshort htx) (hshort hty)
  rw [List.length_dropLast] at hbound
  omega

/-- Of two last elements that differ, one is left out. -/
theorem skip_last (hne : x ≠ y) (hup : IsLongest xs (ys ++ [y]) up) (hleft : IsLongest (xs ++ [x]) ys left) :
    IsLongest (xs ++ [x]) (ys ++ [y]) (if left ≤ up then up else left) := by
  constructor
  · by_cases hle : left ≤ up
    · obtain ⟨s, hx, hy, hlen⟩ := hup.1
      exact ⟨s, hx.trans (List.sublist_append_left _ _), hy, by rw [if_pos hle, hlen]⟩
    · obtain ⟨s, hx, hy, hlen⟩ := hleft.1
      exact ⟨s, hx, hy.trans (List.sublist_append_left _ _), by rw [if_neg hle, hlen]⟩
  · intro m ⟨t, htx, hty, htlen⟩
    have hlonger : t.length ≤ up ∨ t.length ≤ left := by
      rcases sublist_concat.1 htx with hx | ⟨u, rfl, _⟩
      · exact .inl (hup.bound hx hty)
      · rcases sublist_concat.1 hty with hy | ⟨v, huv, _⟩
        · exact .inr (hleft.bound htx hy)
        · exact absurd (by simpa using congrArg List.getLast? huv) hne
    by_cases hle : left ≤ up
    · rw [if_pos hle]
      omega
    · rw [if_neg hle]
      omega

end IsLongest

/-! ## The rows -/

structure RightUpTo (xs ys : List α) (row : Array Nat) (j : Nat) : Prop where
  size : row.size = ys.length + 1
  entry : ∀ k ≤ j, IsLongest xs (ys.take k) (row.getD k 0)

/-- Whatever sequence a row was for, its first entry is right for any other. -/
theorem RightUpTo.restart {xs ys : List α} {row : Array Nat} {j : Nat} (h : RightUpTo xs ys row j) (zs : List α) :
    RightUpTo zs ys row 0 := by
  refine ⟨h.size, fun k hk => ?_⟩
  have hfirst : IsLongest xs [] (row.getD 0 0) := h.entry 0 (Nat.zero_le _)
  rw [Nat.le_zero.1 hk, hfirst.unique (IsLongest.nil_right xs)]
  exact IsLongest.nil_right zs

namespace LcsRows
variable {xs ys : List α} {rows : LcsRows}

structure Right (xs ys : List α) (rows : LcsRows) : Prop where
  above : RightUpTo xs ys rows.above ys.length
  below : RightUpTo xs ys rows.below 0

theorem right_start (ys : List α) : (start ys.length).Right [] ys := by
  have hzero : RightUpTo [] ys (Array.replicate (ys.length + 1) 0) ys.length := by
    refine ⟨Array.size_replicate, fun k hk => ?_⟩
    have hentry : (Array.replicate (ys.length + 1) 0).getD k 0 = 0 := by simp [Array.getD]
    rw [hentry]
    exact (IsLongest.nil_right _).symm
  exact ⟨hzero, hzero.restart []⟩

variable [DecidableEq α]

theorem below_write {x y : α} {j : Nat} {before rest : List α} (hys : ys = before ++ y :: rest) (hj : before.length = j)
    (habove : RightUpTo xs ys rows.above ys.length) (hbelow : RightUpTo (xs ++ [x]) ys rows.below j) :
    RightUpTo (xs ++ [x]) ys (rows.write x y j).below (j + 1) := by
  have hlen : j + 1 ≤ ys.length := by simp [hys, ← hj]
  have hbefore : ys.take j = before := by simp [hys, ← hj]
  have hupto : ys.take (j + 1) = before ++ [y] := by simp [hys, ← hj, List.take_append, List.take_of_length_le]
  have hdiag : IsLongest xs before (rows.above.getD j 0) := hbefore ▸ habove.entry j (by omega)
  have hup : IsLongest xs (before ++ [y]) (rows.above.getD (j + 1) 0) := hupto ▸ habove.entry (j + 1) hlen
  have hleft : IsLongest (xs ++ [x]) before (rows.below.getD j 0) := hbefore ▸ hbelow.entry j (Nat.le_refl j)
  refine ⟨by simp [write, hbelow.size], fun k hk => ?_⟩
  by_cases hlast : k = j + 1
  · subst hlast
    have hsize : j + 1 < rows.below.size := by rw [hbelow.size]; omega
    rw [hupto]
    simp only [write, Array.getD_eq_getD_getElem?, Array.getElem?_setIfInBounds_self_of_lt hsize, Option.getD_some]
    by_cases hxy : x = y
    · subst hxy
      simpa [Array.getD_eq_getD_getElem?] using hdiag.match_last
    · simpa [hxy, Array.getD_eq_getD_getElem?] using IsLongest.skip_last hxy hup hleft
  · have hkept : (rows.write x y j).below.getD k 0 = rows.below.getD k 0 := by
      simp [write, Array.getD_eq_getD_getElem?, Array.getElem?_setIfInBounds_ne (Ne.symm hlast)]
    rw [hkept]
    exact hbelow.entry k (by omega)

/-- The lower row becomes right from left to right; the upper one is only read. -/
theorem right_fill {x : α} {j : Nat} {before rest : List α} (hys : ys = before ++ rest) (hj : before.length = j)
    (habove : RightUpTo xs ys rows.above ys.length) (hbelow : RightUpTo (xs ++ [x]) ys rows.below j) :
    RightUpTo xs ys (rows.fill x j rest).above ys.length ∧
      RightUpTo (xs ++ [x]) ys (rows.fill x j rest).below ys.length := by
  induction rest generalizing rows j before with
  | nil =>
    have hend : ys.length = j := by simp [hys, hj]
    rw [fill]
    exact ⟨habove, hend ▸ hbelow⟩
  | cons y rest ih =>
    have hnext : ys = (before ++ [y]) ++ rest := by simp [hys]
    exact ih hnext (by simp [hj]) habove (below_write hys hj habove hbelow)

theorem Right.next (h : rows.Right xs ys) (x : α) : (rows.next ys x).Right (xs ++ [x]) ys := by
  obtain ⟨habove, hbelow⟩ := right_fill (List.nil_append ys).symm rfl h.above (h.below.restart (xs ++ [x]))
  exact ⟨hbelow, habove.restart (xs ++ [x])⟩

theorem Right.foldl (h : rows.Right xs ys) (zs : List α) : (zs.foldl (LcsRows.next ys) rows).Right (xs ++ zs) ys := by
  induction zs generalizing xs rows with
  | nil => simpa using h
  | cons z zs ih => simpa using ih (h.next z)

end LcsRows

/-! ## The length -/

theorem isLongest_lcsLength [DecidableEq α] (xs ys : List α) : IsLongest xs ys (lcsLength xs ys) := by
  have hrows := ((LcsRows.right_start ys).foldl xs).above.entry ys.length (Nat.le_refl _)
  rwa [List.nil_append, List.take_length] at hrows

/-- The last entry of the table is the greatest length of a common subsequence. So it does not matter which
sequence comes first, neither is exceeded, a sequence is wholly common with itself, and sequences without a
common element have nothing in common. -/
theorem lcsLength_isGreatest [DecidableEq α] (xs ys : List α) :
    IsGreatest {n | ∃ s : List α, s.Sublist xs ∧ s.Sublist ys ∧ s.length = n} (lcsLength xs ys) ∧
    lcsLength ys xs = lcsLength xs ys ∧
    lcsLength xs ys ≤ min xs.length ys.length ∧
    lcsLength xs xs = xs.length ∧
    ((∀ a ∈ xs, a ∉ ys) → lcsLength xs ys = 0) := by
  have hlongest := isLongest_lcsLength xs ys
  obtain ⟨s, hx, hy, hlen⟩ := hlongest.1
  refine ⟨hlongest, ?_, ?_, ?_, ?_⟩
  · exact (isLongest_lcsLength ys xs).unique hlongest.symm
  · rw [← hlen]
    exact Nat.le_min.2 ⟨hx.length_le, hy.length_le⟩
  · have hself := isLongest_lcsLength xs xs
    obtain ⟨t, ht, _, htlen⟩ := hself.1
    apply Nat.le_antisymm
    · rw [← htlen]
      exact ht.length_le
    · exact hself.bound (.refl xs) (.refl xs)
  · intro hdisjoint
    have hnil : s = [] := List.eq_nil_iff_forall_not_mem.2 fun a ha => hdisjoint a (hx.subset ha) (hy.subset ha)
    rw [← hlen, hnil, List.length_nil]

/-- A counter that is increased, and a constant that is put away. -/
theorem lcsLength_isGreatest_counter :
    (∀ op ∈ [Opcode.mk 21, ⟨4⟩, ⟨96⟩, ⟨172⟩], op ∉ [Opcode.mk 3, ⟨54⟩, ⟨177⟩]) ∧
    lcsLength [Opcode.mk 21, ⟨4⟩, ⟨96⟩, ⟨172⟩] [⟨3⟩, ⟨54⟩, ⟨177⟩] = 0 ∧
    lcsLength [Opcode.mk 21, ⟨4⟩, ⟨96⟩, ⟨172⟩] [⟨21⟩, ⟨4⟩, ⟨96⟩, ⟨172⟩] = 4 := by
  have hnone : ∀ op ∈ [Opcode.mk 21, ⟨4⟩, ⟨96⟩, ⟨172⟩], op ∉ [Opcode.mk 3, ⟨54⟩, ⟨177⟩] := by decide
  exact ⟨hnone, (lcsLength_isGreatest _ _).2.2.2.2 hnone, (lcsLength_isGreatest _ []).2.2.2.1⟩

end JvmLint
