import JvmLint.Text.Blank
import JvmLint.Text.Search
import Mathlib.Data.List.DropRight
import Mathlib.Data.List.Induction

/-!
# Blanks around texts

Trimming takes nothing off but blanks, and what it leaves has none at its ends. A text that has none is left as it is,
and putting such texts together with slashes gives another one.
-/

namespace JvmLint.Text

/-! ## Trimmed lists -/

section
variable {α : Type} {p : α → Bool} {s : List α} {a : α}

theorem mem_dropWhile (ha : p a = false) : a ∈ s.dropWhile p ↔ a ∈ s := by
  constructor
  · exact fun h => (List.dropWhile_sublist p).subset h
  · intro h
    rw [← List.takeWhile_append_dropWhile (p := p) (l := s), List.mem_append] at h
    rcases h with h | h
    · rw [List.mem_takeWhile_imp h] at ha
      cases ha
    · exact h

theorem mem_trimList (ha : p a = false) : a ∈ trimList p s ↔ a ∈ s := by
  rw [trimList, List.mem_reverse, mem_dropWhile ha, List.mem_reverse, mem_dropWhile ha]

theorem trimList_trimList : trimList p (trimList p s) = trimList p s := by
  have hback : trimList p s = (s.dropWhile p).rdropWhile p := rfl
  -- the front of the outcome is the front of what the first pass left, which is no blank
  have hfront : (trimList p s).dropWhile p = trimList p s := by
    obtain ⟨rest, hrest⟩ := List.rdropWhile_prefix p (s.dropWhile p)
    rw [hback]
    cases hu : (s.dropWhile p).rdropWhile p with
    | nil => rfl
    | cons a u =>
      rw [hu] at hrest
      have ha := List.head?_dropWhile_not p s
      rw [← hrest] at ha
      exact List.dropWhile_cons_of_neg (by simpa using ha)
  calc trimList p (trimList p s) = ((trimList p s).dropWhile p).rdropWhile p := rfl
    _ = trimList p s := by rw [hfront, hback, List.rdropWhile_idempotent]

theorem trimList_sublist (p : α → Bool) (s : List α) : List.Sublist (trimList p s) s :=
  (List.rdropWhile_prefix p (s.dropWhile p)).sublist.trans (List.dropWhile_sublist p)

theorem trimList_eq_self_iff :
    trimList p s = s ↔ (∀ a ∈ s.head?, p a = false) ∧ ∀ a ∈ s.getLast?, p a = false := by
  have hfront : s.dropWhile p = s ↔ ∀ a ∈ s.head?, p a = false := by
    cases s with
    | nil => simp
    | cons a s => simp [List.dropWhile_eq_self_iff]
  have hback : s.rdropWhile p = s ↔ ∀ a ∈ s.getLast?, p a = false := by
    rw [List.rdropWhile_eq_self_iff]
    cases s using List.reverseRecOn with
    | nil => simp
    | append_singleton s a => simp
  rw [← hfront, ← hback]
  constructor
  · intro htrim
    change (s.dropWhile p).rdropWhile p = s at htrim
    have hshort := (List.rdropWhile_prefix p (s.dropWhile p)).length_le
    rw [htrim] at hshort
    have hdrop : s.dropWhile p = s :=
      (List.dropWhile_sublist p).eq_of_length (Nat.le_antisymm (List.dropWhile_sublist p).length_le hshort)
    exact ⟨hdrop, by rwa [hdrop] at htrim⟩
  · intro ⟨hdrop, hrdrop⟩
    change (s.dropWhile p).rdropWhile p = s
    rw [hdrop, hrdrop]

end

theorem trimList_map {α β : Type} {p : β → Bool} {q : α → Bool} {g : α → β} (h : ∀ a, p (g a) = q a) (s : List α) :
    trimList p (s.map g) = (trimList q s).map g := by
  have hsame : p ∘ g = q := funext h
  simp only [trimList, List.dropWhile_map, ← List.map_reverse, hsame]

/-! ## Trimmed texts -/

@[simp] theorem trim_trim (s : String) : trim (trim s) = trim s := by
  simp [trim, trimList_trimList]

def Trimmed (s : String) : Prop :=
  (∀ c ∈ s.toList.head?, isBlank c = false) ∧ ∀ c ∈ s.toList.getLast?, isBlank c = false

theorem trimmed_iff {s : String} : Trimmed s ↔ trim s = s := by
  rw [Trimmed, ← trimList_eq_self_iff, trim, ← String.toList_inj, String.toList_ofList]

instance (s : String) : Decidable (Trimmed s) := decidable_of_iff _ trimmed_iff.symm

theorem length_trim_lt {s : String} (h : ¬ Trimmed s) : (trim s).length < s.length := by
  have hsublist := trimList_sublist isBlank s.toList
  rw [trim, String.length_ofList, ← String.length_toList]
  refine Nat.lt_of_le_of_ne hsublist.length_le fun hlength => h ?_
  exact trimList_eq_self_iff.1 (hsublist.eq_of_length hlength)

theorem trimmed_append_slash {a b : String} (ha : Trimmed a) (hb : Trimmed b) : Trimmed (a ++ "/" ++ b) := by
  have hslash : isBlank '/' = false := by decide
  have htext : (a ++ "/" ++ b).toList = a.toList ++ '/' :: b.toList := by simp
  unfold Trimmed at ha hb ⊢
  rw [htext]
  constructor
  · cases ha' : a.toList with
    | nil => simpa using hslash
    | cons c cs => simpa [ha'] using ha.1
  · cases hb' : b.toList using List.reverseRecOn with
    | nil => simpa using hslash
    | append_singleton cs c => simpa [hb', List.getLast?_cons] using hb.2

theorem trim_append_slash {s : String} (h : trim s = s) : trim (s ++ "/") = s ++ "/" := by
  have hends : Trimmed (s ++ "/" ++ "") := trimmed_append_slash (trimmed_iff.2 h) (by decide)
  rw [String.append_empty] at hends
  exact trimmed_iff.1 hends

theorem trimmed_intercalate {names : List String} (h : ∀ n ∈ names, Trimmed n) : Trimmed ("/".intercalate names) := by
  induction names with
  | nil => decide
  | cons n names ih =>
    obtain ⟨hn, hrest⟩ := List.forall_mem_cons.1 h
    cases names with
    | nil => rwa [String.intercalate_singleton]
    | cons m names =>
      rw [String.intercalate_cons_cons]
      exact trimmed_append_slash hn (ih hrest)

/-! ## Swapped characters -/

theorem swap_append (s t : String) (old new : Char) : swap (s ++ t) old new = swap s old new ++ swap t old new := by
  simp [swap, mapChars, String.ofList_append]

theorem trim_swap {old new : Char} (hold : isBlank old = false) (hnew : isBlank new = false) (s : String) :
    trim (swap s old new) = swap (trim s) old new := by
  have hsame : ∀ c, isBlank (if c = old then new else c) = isBlank c := by
    intro c
    by_cases hc : c = old
    · simp [hc, hold, hnew]
    · simp [hc]
  simp only [trim, swap, mapChars, String.toList_ofList, trimList_map hsame]

theorem swap_of_notMem {s : String} {old new : Char} (h : old ∉ s.toList) : swap s old new = s := by
  have hkept : s.toList.map (fun c => if c = old then new else c) = s.toList := by
    conv_rhs => rw [← List.map_id s.toList]
    refine List.map_congr_left fun c hc => if_neg ?_
    rintro rfl
    exact h hc
  rw [swap, mapChars, hkept, String.ofList_toList]

theorem mem_swap {s : String} {old new c : Char} :
    c ∈ (swap s old new).toList ↔ c = new ∧ old ∈ s.toList ∨ c ≠ old ∧ c ∈ s.toList := by
  rw [swap, mapChars, String.toList_ofList, List.mem_map]
  constructor
  · rintro ⟨d, hd, rfl⟩
    by_cases hold : d = old
    · exact .inl ⟨if_pos hold, hold ▸ hd⟩
    · rw [if_neg hold]
      exact .inr ⟨hold, hd⟩
  · rintro (⟨rfl, hold⟩ | ⟨hne, hc⟩)
    · exact ⟨old, hold, if_pos rfl⟩
    · exact ⟨c, hc, if_neg hne⟩

end JvmLint.Text
