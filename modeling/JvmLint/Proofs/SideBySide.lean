import JvmLint.Proofs.Padding
import JvmLint.Proofs.Reading

/-!
# Two readings side by side

`Alike R r enc s enc'`: reading `enc` with `r` and `enc'` with `s` ends alike,
whatever follows and wherever the two stand. Either both take their bytes and
give values related by `R`, or both fail with the same defect. A reader that is
alike with itself on some bytes does not depend on its surroundings there.
-/

namespace JvmLint.ClassFile

def Alike {α β : Type} (R : α → β → Prop) (r : Reader α) (enc : List UInt8) (s : Reader β) (enc' : List UInt8) : Prop :=
  ∀ pos pos' tail tail',
    (∃ a b, R a b ∧ r { rest := enc ++ tail, pos } = .ok (a, { rest := tail, pos := pos + enc.length }) ∧
      s { rest := enc' ++ tail', pos := pos' } = .ok (b, { rest := tail', pos := pos' + enc'.length })) ∨
    ∃ e, r { rest := enc ++ tail, pos } = .error e ∧ s { rest := enc' ++ tail', pos := pos' } = .error e

section
variable {α β γ δ : Type} {R : α → β → Prop} {S : γ → δ → Prop} {r : Reader α} {s : Reader β}

/-! ## Sequences -/

theorem alike_of_takes {enc enc' : List UInt8} {a : α} {b : β} (hr : ∀ pos, Takes r pos enc a)
    (hs : ∀ pos, Takes s pos enc' b) (h : R a b) : Alike R r enc s enc' :=
  fun pos pos' tail tail' => .inl ⟨a, b, h, hr pos tail, hs pos' tail'⟩

theorem Alike.bind {f : α → Reader γ} {g : β → Reader δ} {e₁ e₂ e₁' e₂' : List UInt8}
    (h : Alike R r e₁ s e₁') (hf : ∀ a b, R a b → Alike S (f a) e₂ (g b) e₂') :
    Alike S (r >>= f) (e₁ ++ e₂) (s >>= g) (e₁' ++ e₂') := by
  intro pos pos' tail tail'
  rw [List.append_assoc, List.append_assoc, List.length_append, List.length_append, ← Nat.add_assoc, ← Nat.add_assoc]
  rcases h pos pos' (e₂ ++ tail) (e₂' ++ tail') with ⟨a, b, hab, hr, hs⟩ | ⟨e, hr, hs⟩
  · rw [bind_ok hr, bind_ok hs]
    exact hf a b hab _ _ tail tail'
  · exact .inr ⟨e, bind_error hr, bind_error hs⟩

theorem alike_pure {a : α} {b : β} (h : R a b) : Alike R (pure a) [] (pure b) [] :=
  alike_of_takes (takes_pure a) (takes_pure b) h

theorem Alike.mono {enc enc' : List UInt8} {T : α → β → Prop} (h : Alike R r enc s enc') (hT : ∀ a b, R a b → T a b) :
    Alike T r enc s enc' := by
  intro pos pos' tail tail'
  rcases h pos pos' tail tail' with ⟨a, b, hab, hr, hs⟩ | herror
  · exact .inl ⟨a, b, hT a b hab, hr, hs⟩
  · exact .inr herror

theorem Alike.bind_end {f : α → Reader γ} {g : β → Reader δ} {enc enc' : List UInt8} (h : Alike R r enc s enc')
    (hf : ∀ a b, R a b → Alike S (f a) [] (g b) []) : Alike S (r >>= f) enc (s >>= g) enc' := by
  have hbind := h.bind hf
  rwa [List.append_nil, List.append_nil] at hbind

theorem Alike.bind_still {f : α → Reader γ} {g : β → Reader δ} {enc enc' : List UInt8} (h : Alike R r [] s [])
    (hf : ∀ a b, R a b → Alike S (f a) enc (g b) enc') : Alike S (r >>= f) enc (s >>= g) enc' :=
  h.bind hf

theorem Alike.bind_pure {s : Reader α} {enc enc' : List UInt8} (h : Alike Eq r enc s enc') (f : α → γ) :
    Alike Eq (r >>= fun a => pure (f a)) enc (s >>= fun a => pure (f a)) enc' := by
  refine h.bind_end ?_
  rintro a _ rfl
  exact alike_pure rfl

/-- Both sides read what is known. -/
theorem alike_bind_takes {f : α → Reader γ} {g : β → Reader δ} {e₁ e₂ e₁' e₂' : List UInt8} {a : α} {b : β}
    (hr : ∀ pos, Takes r pos e₁ a) (hs : ∀ pos, Takes s pos e₁' b) (h : Alike S (f a) e₂ (g b) e₂') :
    Alike S (r >>= f) (e₁ ++ e₂) (s >>= g) (e₁' ++ e₂') := by
  refine (alike_of_takes (R := fun x y => x = a ∧ y = b) hr hs ⟨rfl, rfl⟩).bind ?_
  rintro _ _ ⟨rfl, rfl⟩
  exact h

theorem alike_bind_same {f g : α → Reader γ} {e₁ e₂ e₂' : List UInt8} {T : γ → γ → Prop} {a : α}
    (hr : ∀ pos, Takes r pos e₁ a) (h : Alike T (f a) e₂ (g a) e₂') :
    Alike T (r >>= f) (e₁ ++ e₂) (r >>= g) (e₁ ++ e₂') :=
  alike_bind_takes hr hr h

theorem alike_bind_last {f g : α → Reader γ} {enc : List UInt8} {T : γ → γ → Prop} {a : α}
    (hr : ∀ pos, Takes r pos enc a) (h : Alike T (f a) [] (g a) []) : Alike T (r >>= f) enc (r >>= g) enc := by
  have hbind := alike_bind_same hr h
  rwa [List.append_nil] at hbind

/-- One side reads something known that the other does not have. -/
theorem Alike.bind_right {g : β → Reader δ} {l : Reader γ} {enc e₁' e₂' : List UInt8} {b : β}
    (hs : ∀ pos, Takes s pos e₁' b) (h : Alike S l enc (g b) e₂') : Alike S l enc (s >>= g) (e₁' ++ e₂') := by
  intro pos pos' tail tail'
  rw [List.append_assoc, List.length_append, ← Nat.add_assoc, bind_ok (hs pos' (e₂' ++ tail'))]
  exact h _ _ tail tail'

theorem Alike.noting {enc enc' : List UInt8} (h : Alike R r enc s enc') (key value : String) :
    Alike R (Reader.noting key value r) enc (Reader.noting key value s) enc' := by
  intro pos pos' tail tail'
  rcases h pos pos' tail tail' with ⟨a, b, hab, hr, hs⟩ | ⟨e, hr, hs⟩
  · exact .inl ⟨a, b, hab, noting_eq_ok.mpr hr, noting_eq_ok.mpr hs⟩
  · exact .inr ⟨e.at key value, by simp [Reader.noting, hr], by simp [Reader.noting, hs]⟩

theorem Alike.within {data data' : List UInt8} (h : Alike R r data s data') :
    Alike R (Reader.within r data) [] (Reader.within s data') [] := by
  intro pos pos' tail tail'
  have hstart := h 0 0 [] []
  rw [List.append_nil, List.append_nil] at hstart
  rcases hstart with ⟨a, b, hab, hr, hs⟩ | ⟨e, hr, hs⟩
  · exact .inl ⟨a, b, hab, takes_within hr pos tail, takes_within hs pos' tail'⟩
  · exact .inr ⟨e, by simp [Reader.within, hr], by simp [Reader.within, hs]⟩

end

/-! ## Readers that do not look around -/

section
variable {α : Type}

/-- What is read within bytes of its own, whether or not it fits there. -/
theorem alike_within_self (r : Reader α) (data : List UInt8) :
    Alike Eq (Reader.within r data) [] (Reader.within r data) [] := by
  cases h : r { rest := data } with
  | ok found => exact alike_of_takes (takes_within h) (takes_within h) rfl
  | error e =>
    exact fun pos pos' tail tail' => .inr ⟨e, by simp [Reader.within, h], by simp [Reader.within, h]⟩

theorem alike_constant (found : Except Defect α) : Alike Eq (Reader.constant found) [] (Reader.constant found) [] := by
  cases found with
  | ok a => exact alike_pure rfl
  | error d => exact fun pos pos' tail tail' => .inr ⟨_, rfl, rfl⟩

/-- An outcome that was settled before. -/
theorem alike_outcome (found : Except Malformed α) :
    Alike Eq (fun c => found.map (·, c)) [] (fun c => found.map (·, c)) [] := by
  cases found with
  | ok a => exact fun pos pos' tail tail' => .inl ⟨a, a, rfl, rfl, rfl⟩
  | error e => exact fun pos pos' tail tail' => .inr ⟨e, rfl, rfl⟩

end

/-! ## Lists -/

section
variable {α β ξ υ : Type} {R : ξ → υ → Prop} {P : υ → Prop} {encode : ξ → List UInt8} {encode' : υ → List UInt8}

/-- Reading item by item where one side has more items: what the others are read as is the same. -/
theorem alike_times {r : Reader α} {Q : α → Prop} {xs : List ξ} {ys : List υ} (h : Padded R P xs ys)
    (hkeep : ∀ x ∈ xs, ∀ y ∈ ys, R x y → Alike Eq r (encode x) r (encode' y))
    (hinsert : ∀ y ∈ ys, P y → ∃ b, Q b ∧ ∀ pos, Takes r pos (encode' y) b) :
    Alike (Padded Eq Q) (Reader.times xs.length r) (xs.flatMap encode) (Reader.times ys.length r)
      (ys.flatMap encode') := by
  induction h with
  | nil => exact alike_pure .nil
  | @keep x y xs ys hxy _ ih =>
    have hrest := ih (fun a ha b hb => hkeep a (by simp [ha]) b (by simp [hb])) fun b hb => hinsert b (by simp [hb])
    rw [List.flatMap_cons, List.flatMap_cons]
    refine (hkeep x (by simp) y (by simp) hxy).bind fun a b hab => hrest.bind_end fun as bs hpad => ?_
    exact alike_pure (.keep hab hpad)
  | @insert y xs ys hy _ ih =>
    have hrest := ih (fun a ha b hb => hkeep a ha b (by simp [hb])) fun b hb => hinsert b (by simp [hb])
    obtain ⟨b, hb, ht⟩ := hinsert y (by simp) hy
    rw [List.flatMap_cons]
    refine Alike.bind_right ht ?_
    intro pos pos' tail tail'
    rcases hrest pos pos' tail tail' with ⟨as, bs, hpad, hr, hs⟩ | ⟨e, hr, hs⟩
    · exact .inl ⟨as, b :: bs, .insert hb hpad, hr, bind_ok hs⟩
    · exact .inr ⟨e, hr, bind_error hs⟩

theorem alike_counted {r : Reader α} {Q : α → Prop} {xs : List ξ} {ys : List υ} (h : Padded R P xs ys)
    (hx : xs.length < 0x10000) (hy : ys.length < 0x10000)
    (hkeep : ∀ x ∈ xs, ∀ y ∈ ys, R x y → Alike Eq r (encode x) r (encode' y))
    (hinsert : ∀ y ∈ ys, P y → ∃ b, Q b ∧ ∀ pos, Takes r pos (encode' y) b) :
    Alike (Padded Eq Q) (counted r) (be2 xs.length ++ xs.flatMap encode) (counted r)
      (be2 ys.length ++ ys.flatMap encode') :=
  alike_bind_takes (takes_u2 hx) (takes_u2 hy) (alike_times h hkeep hinsert)

/-- Items that correspond one to one are read as the same list. -/
theorem alike_times_eq {r : Reader α} {xs : List ξ} {ys : List υ} (h : List.Forall₂ R xs ys)
    (hkeep : ∀ x ∈ xs, ∀ y ∈ ys, R x y → Alike Eq r (encode x) r (encode' y)) :
    Alike Eq (Reader.times xs.length r) (xs.flatMap encode) (Reader.times ys.length r) (ys.flatMap encode') := by
  have hpad : Padded R (fun _ => False) xs ys := .of_forall₂ h
  have halike := alike_times (Q := fun _ : α => False) hpad hkeep fun _ _ hfalse => hfalse.elim
  exact halike.mono fun as bs hab => List.forall₂_eq_eq_eq ▸ hab.forall₂

theorem alike_counted_eq {r : Reader α} {xs : List ξ} {ys : List υ} (h : List.Forall₂ R xs ys)
    (hx : xs.length < 0x10000) (hkeep : ∀ x ∈ xs, ∀ y ∈ ys, R x y → Alike Eq r (encode x) r (encode' y)) :
    Alike Eq (counted r) (be2 xs.length ++ xs.flatMap encode) (counted r) (be2 ys.length ++ ys.flatMap encode') :=
  alike_bind_takes (takes_u2 hx) (takes_u2 (h.length_eq ▸ hx)) (alike_times_eq h hkeep)

/-- Taking up item after item where one side has more items, each of which changes nothing. -/
theorem alike_iterate {step : β → Reader β} {xs : List ξ} {ys : List υ} (h : Padded R P xs ys)
    (hkeep : ∀ x ∈ xs, ∀ y ∈ ys, R x y → ∀ b, Alike Eq (step b) (encode x) (step b) (encode' y))
    (hinsert : ∀ y ∈ ys, P y → ∀ b pos, Takes (step b) pos (encode' y) b) (b : β) :
    Alike Eq (iterate step xs.length b) (xs.flatMap encode) (iterate step ys.length b) (ys.flatMap encode') := by
  induction h generalizing b with
  | nil => exact alike_pure rfl
  | @keep x y xs ys hxy _ ih =>
    rw [List.flatMap_cons, List.flatMap_cons]
    refine (hkeep x (by simp) y (by simp) hxy b).bind ?_
    rintro c _ rfl
    exact ih (fun a ha b hb => hkeep a (by simp [ha]) b (by simp [hb])) (fun b hb => hinsert b (by simp [hb])) c
  | @insert y xs ys hy _ ih =>
    rw [List.flatMap_cons]
    refine Alike.bind_right (hinsert y (by simp) hy b) ?_
    exact ih (fun a ha b hb => hkeep a ha b (by simp [hb])) (fun b hb => hinsert b (by simp [hb])) b

end

end JvmLint.ClassFile
