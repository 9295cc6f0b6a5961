import JvmLint.Check.Lookup

/-!
# Laws of lookups

Lookups form a monad, and running one against a function is a map of monads to
plain values. A memory whose answers are those of a function leaves the outcome
as it is. How many classes a lookup asks for is bounded step by step: what it
asks for is paid from a store, and what is left of that depends on the outcome.
-/

namespace JvmLint

namespace Lookup
variable {α β : Type}

instance : LawfulMonad Lookup := LawfulMonad.mk' Lookup
  (fun l => by
    induction l with
    | done a => rfl
    | ask name next ih => exact congrArg (ask name) (funext ih))
  (fun _ _ => rfl)
  (fun l f g => by
    induction l with
    | done a => rfl
    | ask name next ih => exact congrArg (ask name) (funext ih))

variable (answer : String → Option Class)

@[simp] theorem run_pure (a : α) : (pure a : Lookup α).run answer = a := rfl

@[simp] theorem run_bind (l : Lookup α) (f : α → Lookup β) :
    (l >>= f).run answer = (f (l.run answer)).run answer := by
  induction l with
  | done a => rfl
  | ask name next ih => exact ih (answer name)

@[simp] theorem run_map (f : α → β) (l : Lookup α) : (f <$> l).run answer = f (l.run answer) := by
  rw [map_eq_pure_bind, run_bind, run_pure]

@[simp] theorem run_mapM (f : α → Lookup β) (as : List α) :
    (as.mapM f).run answer = as.map fun a => (f a).run answer := by
  induction as with
  | nil => rfl
  | cons a as ih => simp [List.mapM_cons, ih]

@[simp] theorem run_foldlM (f : β → α → Lookup β) (as : List α) (b : β) :
    (as.foldlM f b).run answer = as.foldl (fun b a => (f b a).run answer) b := by
  induction as generalizing b with
  | nil => rfl
  | cons a as ih => simp [List.foldlM_cons, ih]

/-! ## Questions -/

def asked : Lookup α → List String
  | done _ => []
  | ask name next => name :: (next (answer name)).asked

@[simp] theorem asked_bind (l : Lookup α) (f : α → Lookup β) :
    (l >>= f).asked answer = l.asked answer ++ (f (l.run answer)).asked answer := by
  induction l with
  | done a => rfl
  | ask name next ih => exact congrArg (name :: ·) (ih (answer name))

@[simp] theorem asked_pure (a : α) : (pure a : Lookup α).asked answer = [] := rfl

@[simp] theorem asked_map (f : α → β) (l : Lookup α) : (f <$> l).asked answer = l.asked answer := by
  rw [map_eq_pure_bind, asked_bind, asked_pure, List.append_nil]

/-- The questions are paid from a store of `n`, and `left` tells what is there afterwards. -/
def Spends (l : Lookup α) (left : α → Nat) (n : Nat) : Prop := (l.asked answer).length + left (l.run answer) ≤ n

variable {answer} {left : α → Nat} {n : Nat}

theorem spends_pure {a : α} (h : left a ≤ n) : Spends answer (pure a) left n := by
  unfold Spends
  rw [asked_pure, run_pure, List.length_nil, Nat.zero_add]
  exact h

theorem Spends.mono {l : Lookup α} {m : Nat} (h : Spends answer l left n) (hm : n ≤ m) : Spends answer l left m :=
  Nat.le_trans h hm

/-- What a lookup does not need stays over. -/
theorem Spends.keep {l : Lookup α} (h : Spends answer l left n) (m : Nat) :
    Spends answer l (fun a => left a + m) (n + m) := by
  unfold Spends at *
  dsimp only
  omega

theorem Spends.bind {l : Lookup α} {f : α → Lookup β} {left' : β → Nat} (hl : Spends answer l left n)
    (hf : Spends answer (f (l.run answer)) left' (left (l.run answer))) : Spends answer (l >>= f) left' n := by
  unfold Spends at *
  rw [asked_bind, run_bind, List.length_append]
  omega

theorem spends_find (name : String) : Spends answer (find name) (fun _ => n) (n + 1) := by
  unfold Spends find
  by_cases h : name = ""
  · simp [h, asked]
  · simp [h, asked, Nat.add_comm]

theorem spends_foldlM {f : β → α → Lookup β} {as : List α} {left : β → Nat} {b : β}
    (h : ∀ b, ∀ a ∈ as, Spends answer (f b a) left (left b)) : Spends answer (as.foldlM f b) left (left b) := by
  induction as generalizing b with
  | nil => exact spends_pure (Nat.le_refl _)
  | cons a as ih =>
    rw [List.foldlM_cons]
    exact (h b a (by simp)).bind (ih fun b x hx => h b x (by simp [hx]))

/-! ## What holds whatever the answers are -/

def Always (P : α → Prop) : Lookup α → Prop
  | done a => P a
  | ask _ next => ∀ found, (next found).Always P

theorem Always.imp {P Q : α → Prop} {l : Lookup α} (hl : l.Always P) (h : ∀ a, P a → Q a) : l.Always Q := by
  induction l with
  | done a => exact h a hl
  | ask name next ih => exact fun found => ih found (hl found)

theorem Always.bind {P : α → Prop} {Q : β → Prop} {l : Lookup α} {f : α → Lookup β} (hl : l.Always P)
    (hf : ∀ a, P a → (f a).Always Q) : (l >>= f).Always Q := by
  induction l with
  | done a => exact hf a hl
  | ask name next ih => exact fun found => ih found (hl found)

theorem Always.map {P : β → Prop} {l : Lookup α} {f : α → β} (h : l.Always fun a => P (f a)) :
    (f <$> l).Always P := by
  rw [map_eq_pure_bind]
  exact h.bind fun _ ha => ha

theorem always_of_forall {P : α → Prop} (h : ∀ a, P a) (l : Lookup α) : l.Always P := by
  induction l with
  | done a => exact h a
  | ask name next ih => exact ih

theorem always_mapM {P : β → Prop} {f : α → Lookup β} {as : List α} (h : ∀ a ∈ as, (f a).Always P) :
    (as.mapM f).Always fun bs => ∀ b ∈ bs, P b := by
  induction as with
  | nil => exact fun _ hb => absurd hb (by simp)
  | cons a as ih =>
    rw [List.mapM_cons]
    refine (h a (by simp)).bind fun b hb => (ih fun x hx => h x (by simp [hx])).bind fun bs hbs => ?_
    exact List.forall_mem_cons.mpr ⟨hb, hbs⟩

theorem Always.runState {σ : Type} {P : α → Prop} {l : Lookup α} (h : l.Always P)
    (reply : String → σ → Option Class × σ) (s : σ) : P (l.runState reply s).1 := by
  induction l generalizing s with
  | done a => exact h
  | ask name next ih => exact ih _ (h _) _

/-- A state that always leads to the answers of a function stays out of the outcome. -/
theorem runState_eq_run {σ : Type} {reply : String → σ → Option Class × σ} {answer : String → Option Class}
    {I : σ → Prop} (hreply : ∀ name s, I s → (reply name s).1 = answer name ∧ I (reply name s).2)
    (l : Lookup α) {s : σ} (hs : I s) :
    (l.runState reply s).1 = l.run answer ∧ I (l.runState reply s).2 := by
  induction l generalizing s with
  | done a => exact ⟨rfl, hs⟩
  | ask name next ih =>
    obtain ⟨hfound, hnext⟩ := hreply name s hs
    have hrest := ih (reply name s).1 hnext
    rw [hfound] at hrest
    simpa only [runState, run, hfound] using hrest

end Lookup

end JvmLint
