import Mathlib.Data.List.Forall2

/-!
# Lists with elements put in

`Padded R P xs ys`: the list `ys` comes from `xs` by putting in any number of
elements that satisfy `P`, anywhere, while the elements of `xs` stay in order and
change by `R` at most. What does not look at elements of `P` gives the same
answer on both lists.
-/

namespace JvmLint

inductive Padded {α β : Type} (R : α → β → Prop) (P : β → Prop) : List α → List β → Prop
  | nil : Padded R P [] []
  | keep {x : α} {y : β} {xs : List α} {ys : List β} : R x y → Padded R P xs ys → Padded R P (x :: xs) (y :: ys)
  | insert {y : β} {xs : List α} {ys : List β} : P y → Padded R P xs ys → Padded R P xs (y :: ys)

section
variable {α β : Type} {R : α → β → Prop} {P : β → Prop} {xs : List α} {ys : List β}

theorem Padded.of_forall₂ (h : List.Forall₂ R xs ys) : Padded R P xs ys := by
  induction h with
  | nil => exact .nil
  | cons hxy _ ih => exact .keep hxy ih

theorem padded_refl (xs : List β) : Padded Eq P xs xs := Padded.of_forall₂ (List.forall₂_refl xs)

theorem Padded.append {xs' : List α} {ys' : List β} (h : Padded R P xs ys) (h' : Padded R P xs' ys') :
    Padded R P (xs ++ xs') (ys ++ ys') := by
  induction h with
  | nil => exact h'
  | keep hxy _ ih => exact .keep hxy ih
  | insert hy _ ih => exact .insert hy ih

theorem padded_insert {y : β} (h : P y) (pre post : List β) : Padded Eq P (pre ++ post) (pre ++ y :: post) :=
  (padded_refl pre).append (.insert h (padded_refl post))

/-- Where nothing can be put in, elements only change. -/
theorem Padded.forall₂ (h : Padded R (fun _ => False) xs ys) : List.Forall₂ R xs ys := by
  induction h with
  | nil => exact .nil
  | keep hxy _ ih => exact .cons hxy ih
  | insert hy => exact hy.elim

end

section
variable {α β : Type} {P : α → Prop} {xs ys : List α}

theorem Padded.flatMap_eq {g : α → List β} (hg : ∀ y, P y → g y = []) (h : Padded Eq P xs ys) :
    ys.flatMap g = xs.flatMap g := by
  induction h with
  | nil => rfl
  | keep hxy _ ih => rw [hxy, List.flatMap_cons, List.flatMap_cons, ih]
  | insert hy _ ih => rw [List.flatMap_cons, hg _ hy, ih, List.nil_append]

theorem Padded.filterMap_eq {g : α → Option β} (hg : ∀ y, P y → g y = none) (h : Padded Eq P xs ys) :
    ys.filterMap g = xs.filterMap g := by
  simp only [List.filterMap_eq_flatMap_toList]
  exact h.flatMap_eq fun y hy => by rw [hg y hy, Option.toList_none]

theorem Padded.findSome?_eq {g : α → Option β} (hg : ∀ y, P y → g y = none) (h : Padded Eq P xs ys) :
    ys.findSome? g = xs.findSome? g := by
  rw [← List.head?_filterMap, ← List.head?_filterMap, h.filterMap_eq hg]

theorem Padded.takeWhile {p : α → Bool} (hp : ∀ y, P y → p y = true) (h : Padded Eq P xs ys) :
    Padded Eq P (xs.takeWhile p) (ys.takeWhile p) := by
  induction h with
  | nil => exact .nil
  | @keep x y xs ys hxy _ ih =>
    subst hxy
    by_cases hx : p x = true
    · simp only [List.takeWhile_cons, hx, if_true]
      exact .keep rfl ih
    · simp only [List.takeWhile_cons, hx]
      exact .nil
  | @insert y xs ys hy _ ih =>
    simp only [List.takeWhile_cons, hp y hy, if_true]
    exact .insert hy ih

/-- An element that is never put in is in both lists or in neither, and its first place splits them
alike. -/
theorem Padded.split {a : α} (ha : ¬ P a) (h : Padded Eq P xs ys) :
    (a ∉ xs ∧ a ∉ ys) ∨ ∃ pre post pre' post', xs = pre ++ a :: post ∧ a ∉ pre ∧ ys = pre' ++ a :: post' ∧ a ∉ pre' ∧
      Padded Eq P pre pre' ∧ Padded Eq P post post' := by
  induction h with
  | nil => simp
  | @keep x y xs ys hxy htail ih =>
    subst hxy
    by_cases hx : a = x
    · subst hx
      exact .inr ⟨[], xs, [], ys, rfl, by simp, rfl, by simp, .nil, htail⟩
    · rcases ih with ⟨hxs, hys⟩ | ⟨pre, post, pre', post', rfl, hpre, rfl, hpre', hp, hq⟩
      · exact .inl ⟨by simp [hx, hxs], by simp [hx, hys]⟩
      · exact .inr ⟨x :: pre, post, x :: pre', post', rfl, by simp [hx, hpre], rfl, by simp [hx, hpre'],
          .keep rfl hp, hq⟩
  | @insert y xs ys hy _ ih =>
    have hne : a ≠ y := fun heq => ha (heq ▸ hy)
    rcases ih with ⟨hxs, hys⟩ | ⟨pre, post, pre', post', rfl, hpre, rfl, hpre', hp, hq⟩
    · exact .inl ⟨hxs, by simp [hne, hys]⟩
    · exact .inr ⟨pre, post, y :: pre', post', rfl, hpre, rfl, by simp [hne, hpre'], .insert hy hp, hq⟩

end

end JvmLint
