import Mathlib.Data.List.Basic

/-!
# Results that may be errors

What is known of a sequence of steps that succeeds as a whole, and when one does.
-/

namespace JvmLint

theorem outcome {α ε : Type} (x : Except ε α) : (∃ e, x = .error e) ∨ ∃ a, x = .ok a := by
  cases x with
  | error e => exact .inl ⟨e, rfl⟩
  | ok a => exact .inr ⟨a, rfl⟩

theorem except_bind_eq_ok {α β ε : Type} {x : Except ε α} {g : α → Except ε β} {b : β} :
    x >>= g = .ok b ↔ ∃ a, x = .ok a ∧ g a = .ok b := by
  constructor
  · intro h
    cases x with
    | error e => cases h
    | ok a => exact ⟨a, rfl, h⟩
  · intro h
    obtain ⟨a, rfl, hb⟩ := h
    exact hb

theorem mapM_ok {α β ε : Type} {f : α → Except ε β} {l : List α} (h : ∀ a ∈ l, ∃ b, f a = .ok b) :
    ∃ bs, l.mapM f = .ok bs ∧ bs.length = l.length ∧ ∀ b, b ∈ bs ↔ ∃ a ∈ l, f a = .ok b := by
  induction l with
  | nil => exact ⟨[], rfl, rfl, by simp⟩
  | cons a l ih =>
    obtain ⟨b, hb⟩ := h a (by simp)
    obtain ⟨bs, hbs, hlength, hmem⟩ := ih fun c hc => h c (by simp [hc])
    refine ⟨b :: bs, ?_, by simp [hlength], ?_⟩
    · rw [List.mapM_cons, hb, hbs]
      rfl
    · intro c
      simp [hmem, hb, eq_comm]

theorem mem_of_mapM {α β ε : Type} {f : α → Except ε β} {l : List α} {bs : List β} (h : l.mapM f = .ok bs) (b : β) :
    b ∈ bs ↔ ∃ a ∈ l, f a = .ok b := by
  induction l generalizing bs with
  | nil =>
    cases h
    simp
  | cons a l ih =>
    rw [List.mapM_cons] at h
    obtain ⟨c, hc, hrest⟩ := except_bind_eq_ok.1 h
    obtain ⟨cs, hcs, hbs⟩ := except_bind_eq_ok.1 hrest
    cases hbs
    simp [ih hcs, hc, eq_comm]

theorem ok_of_mapM {α β ε : Type} {f : α → Except ε β} {l : List α} {bs : List β} (h : l.mapM f = .ok bs) :
    ∀ a ∈ l, ∃ b, f a = .ok b := by
  induction l generalizing bs with
  | nil => simp
  | cons a l ih =>
    rw [List.mapM_cons] at h
    obtain ⟨c, hc, hrest⟩ := except_bind_eq_ok.1 h
    obtain ⟨cs, hcs, -⟩ := except_bind_eq_ok.1 hrest
    intro x hx
    rcases List.mem_cons.1 hx with rfl | hx
    · exact ⟨c, hc⟩
    · exact ih hcs x hx

theorem mapError_eq_ok {α ε δ : Type} {x : Except ε α} {g : ε → δ} {a : α} : x.mapError g = .ok a ↔ x = .ok a := by
  cases x with
  | error e => simp [Except.mapError]
  | ok b => simp [Except.mapError]

theorem mapError_of_error {α ε δ : Type} {x : Except ε α} {g : ε → δ} {e : ε} (h : x = .error e) :
    x.mapError g = .error (g e) := by
  rw [h]
  rfl

theorem mapM_eq_map {α β ε : Type} {g : α → Except ε β} {k : α → β} {l : List α} (h : ∀ a ∈ l, g a = .ok (k a)) :
    l.mapM g = .ok (l.map k) := by
  induction l with
  | nil => rfl
  | cons a l ih =>
    rw [List.mapM_cons, h a (by simp), ih fun b hb => h b (by simp [hb])]
    rfl

theorem foldlM_ok {α β ε : Type} {g : β → α → Except ε β} {l : List α} (h : ∀ b, ∀ a ∈ l, ∃ c, g b a = .ok c) (b : β) :
    ∃ c, l.foldlM g b = .ok c := by
  induction l generalizing b with
  | nil => exact ⟨b, rfl⟩
  | cons a l ih =>
    obtain ⟨c, hc⟩ := h b a (by simp)
    obtain ⟨d, hd⟩ := ih (fun b' a' ha' => h b' a' (by simp [ha'])) c
    refine ⟨d, ?_⟩
    rw [List.foldlM_cons]
    exact except_bind_eq_ok.2 ⟨c, hc, hd⟩

theorem step_of_foldlM {α β ε : Type} {g : β → α → Except ε β} {l : List α} {b c : β} (h : l.foldlM g b = .ok c) :
    ∀ a ∈ l, ∃ b' c', g b' a = .ok c' := by
  induction l generalizing b with
  | nil => simp
  | cons a l ih =>
    rw [List.foldlM_cons] at h
    obtain ⟨c', hstep, hrest⟩ := except_bind_eq_ok.1 h
    intro x hx
    rcases List.mem_cons.1 hx with rfl | hx
    · exact ⟨b, c', hstep⟩
    · exact ih hrest x hx

end JvmLint
