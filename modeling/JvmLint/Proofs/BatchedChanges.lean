import JvmLint.Watch.Batching
import Mathlib.Data.List.Perm.Basic
import Mathlib.Data.String.Basic

/-!
# Batched changes

Changes, the timer, and any number of flushes come between each other in any order. What is pending always
has a timer or a flush that will collect it, and what was collected is on its way until it is handed over. So
no change is lost, however an expiration races with the next change. All that is assumed of the rate limit is
that a wait for one event comes to its end.
-/

namespace JvmLint

theorem mem_insertSorted {s path : String} {l : List String} : path ∈ insertSorted s l ↔ path = s ∨ path ∈ l := by
  induction l with
  | nil => simp [insertSorted]
  | cons t ts ih =>
    unfold insertSorted
    by_cases heq : s = t
    · subst heq
      simp
    · by_cases hlt : s < t
      · simp [heq, hlt]
      · simp [heq, hlt, ih]
        tauto

theorem pairwise_insertSorted {s : String} {l : List String} (h : l.Pairwise (· < ·)) :
    (insertSorted s l).Pairwise (· < ·) := by
  induction l with
  | nil => simp [insertSorted]
  | cons t ts ih =>
    obtain ⟨hhead, htail⟩ := List.pairwise_cons.1 h
    unfold insertSorted
    by_cases heq : s = t
    · simpa [heq] using h
    · by_cases hlt : s < t
      · simp only [heq, hlt, if_true, if_false]
        apply List.pairwise_cons.2
        refine ⟨fun u hu => ?_, h⟩
        rcases List.mem_cons.1 hu with rfl | hu
        · exact hlt
        · exact hlt.trans (hhead u hu)
      · simp only [heq, hlt, if_false]
        apply List.pairwise_cons.2
        refine ⟨fun u hu => ?_, ih htail⟩
        rcases mem_insertSorted.1 hu with rfl | hu
        · exact lt_of_le_of_ne (not_lt.1 hlt) (Ne.symm heq)
        · exact hhead u hu

/-! ## Steps and what they bring about -/

inductive BatchStep where
  | schedule (path : String)
  | expire
  | collect
  | begin (i : Nat)
  /-- Time passes, until the limiter would let so many through. -/
  | elapse (n : Int)
  | pass
  | finish
  | close
deriving DecidableEq, Repr

inductive BatchEvent where
  | scheduled (path : String)
  | collected (batch : List String)
  /-- A batch begins to be handed over. -/
  | called (batch : List String)
  | returned (batch : List String)
deriving DecidableEq, Repr

namespace BatchStep
variable {σ : Type} [RateLimiter σ]

def apply (b : Batching σ) : BatchStep → Batching σ
  | schedule path => b.schedule path
  | expire => b.expire
  | collect => b.collect
  | begin i => b.begin i
  | elapse n => { b with limiter := b.limiter.map fun t => RateLimiter.elapse t n }
  | pass => b.pass
  | finish => b.finish
  | close => b.close

def events (b : Batching σ) : BatchStep → List BatchEvent
  | schedule path => [.scheduled path]
  | collect => (b.collect.waiting.drop b.waiting.length).map .collected
  | pass => if b.turn.isSome then b.pass.current.toList.map .called else []
  | finish => (b.finish.delivered.drop b.delivered.length).map .returned
  | _ => []

def isOwn : BatchStep → Bool
  | schedule _ | close => false
  | _ => true

end BatchStep

namespace Batching
variable {σ : Type} [RateLimiter σ]

def run (b : Batching σ) (steps : List BatchStep) : Batching σ := steps.foldl BatchStep.apply b

def log (b : Batching σ) : List BatchStep → List BatchEvent
  | [] => []
  | s :: steps => s.events b ++ (s.apply b).log steps

def inFlight (b : Batching σ) : List (List String) := b.turn.toList ++ b.waiting

def Due (b : Batching σ) : Prop := b.pending = [] ∨ b.armed = true ∨ 0 < b.flushes

structure Open (b : Batching σ) : Prop where
  closed : b.closed = false
  burst : ∀ t, b.limiter = some t → 1 ≤ RateLimiter.burst t

end Batching

open BatchEvent

inductive Moves {σ : Type} (b : Batching σ) : List BatchEvent → Batching σ → Prop where
  | quiet {b' : Batching σ} (pending : b'.pending = b.pending) (waiting : b'.waiting = b.waiting) (turn : b'.turn = b.turn)
    (current : b'.current = b.current) (due : b.Due → b'.Due) : Moves b [] b'
  | schedule (path : String) : Moves b [scheduled path] (b.schedule path)
  | collect (n : Nat) (pending : b.pending ≠ []) :
    Moves b [collected b.pending] { b with flushes := n, pending := [], waiting := b.waiting ++ [b.pending] }
  | begin {i : Nat} {batch : List String} (turn : b.turn = none) (current : b.current = none)
    (waiting : b.waiting[i]? = some batch) : Moves b [] { b with turn := some batch, waiting := b.waiting.eraseIdx i }
  | call {batch : List String} (limiter : Option σ) (turn : b.turn = some batch) :
    Moves b [called batch] { b with turn := none, current := some batch, limiter }
  | finish {batch : List String} (current : b.current = some batch) :
    Moves b [returned batch] { b with current := none, delivered := b.delivered ++ [batch] }

namespace Batching
variable {σ : Type} {b : Batching σ}

theorem collect_of_pending (hflushes : 0 < b.flushes) (hpending : b.pending ≠ []) :
    b.collect = { b with flushes := b.flushes - 1, pending := [], waiting := b.waiting ++ [b.pending] } := by
  unfold collect
  split
  · omega
  · rename_i n hn
    simp [hn, hpending]

theorem collect_of_empty (h : b.pending = []) : ∃ n, b.collect = { b with flushes := n } := by
  unfold collect
  split
  · exact ⟨b.flushes, rfl⟩
  · rename_i n hn
    exact ⟨n, by simp [h]⟩

theorem collect_of_idle (h : ¬ 0 < b.flushes) : b.collect = b := by
  have hzero : b.flushes = 0 := by omega
  simp [collect, hzero]

theorem begin_of_waiting {i : Nat} {batch : List String} (hturn : b.turn = none) (hcurrent : b.current = none)
    (hi : b.waiting[i]? = some batch) : b.begin i = { b with turn := some batch, waiting := b.waiting.eraseIdx i } := by
  simp [begin, hturn, hcurrent, hi]

theorem finish_of_current {batch : List String} (h : b.current = some batch) :
    b.finish = { b with current := none, delivered := b.delivered ++ [batch] } := by
  simp [finish, h]

variable [RateLimiter σ]

theorem pass_of_none (h : b.turn = none) : b.pass = b := by
  simp [Batching.pass, h]

variable [LawfulRateLimiter σ]

theorem Open.takeToken (h : b.Open) :
    ∃ limiter, b.takeToken = (.ok (), { b with limiter }) ∧ ∀ t, limiter = some t → 1 ≤ RateLimiter.burst t := by
  unfold Batching.takeToken
  split
  · exact ⟨b.limiter, rfl, h.burst⟩
  · rename_i t hlimiter
    have hburst : 1 ≤ RateLimiter.burst (RateLimiter.allow t 1).2 := by
      rw [LawfulRateLimiter.burst_allow]
      exact h.burst t hlimiter
    split
    · rename_i t' hallow
      rw [hallow] at hburst
      exact ⟨some t', rfl, by simpa using hburst⟩
    · rename_i t' hallow
      rw [hallow] at hburst
      have hpassed : (RateLimiter.wait t' 1 b.closed).1 = .ok () := by
        rw [h.closed]
        exact LawfulRateLimiter.wait_ok t' 1 hburst
      rw [← LawfulRateLimiter.burst_wait t' 1 b.closed] at hburst
      exact ⟨some (RateLimiter.wait t' 1 b.closed).2, by rw [← hpassed], by simpa using hburst⟩

theorem Open.pass (h : b.Open) {batch : List String} (hturn : b.turn = some batch) :
    ∃ limiter, b.pass = { b with turn := none, current := some batch, limiter } ∧
      ∀ t, limiter = some t → 1 ≤ RateLimiter.burst t := by
  obtain ⟨limiter, htoken, hburst⟩ := h.takeToken
  refine ⟨limiter, ?_, hburst⟩
  unfold Batching.pass
  simp [hturn, htoken]

theorem Open.step (h : b.Open) {s : BatchStep} (hs : s ≠ .close) : (s.apply b).Open := by
  cases s with
  | schedule path => exact ⟨h.closed, h.burst⟩
  | expire =>
    simp only [BatchStep.apply, expire]
    split
    · exact ⟨h.closed, h.burst⟩
    · exact h
  | collect =>
    simp only [BatchStep.apply, collect]
    split
    · exact h
    · split
      · exact ⟨h.closed, h.burst⟩
      · exact ⟨h.closed, h.burst⟩
  | begin i =>
    simp only [BatchStep.apply, begin]
    split
    · exact ⟨h.closed, h.burst⟩
    · exact h
  | elapse n =>
    refine ⟨h.closed, fun t ht => ?_⟩
    obtain ⟨t', ht', rfl⟩ := Option.map_eq_some_iff.1 ht
    rw [LawfulRateLimiter.burst_elapse]
    exact h.burst t' ht'
  | pass =>
    simp only [BatchStep.apply]
    cases hturn : b.turn with
    | none => rwa [pass_of_none hturn]
    | some batch =>
      obtain ⟨limiter, hpass, hburst⟩ := h.pass hturn
      rw [hpass]
      exact ⟨h.closed, hburst⟩
  | finish =>
    simp only [BatchStep.apply, finish]
    split
    · exact ⟨h.closed, h.burst⟩
    · exact h
  | close => exact absurd rfl hs

theorem Open.moves (h : b.Open) {s : BatchStep} (hs : s ≠ .close) : Moves b (s.events b) (s.apply b) := by
  cases s with
  | schedule path => exact .schedule path
  | expire =>
    simp only [BatchStep.events, BatchStep.apply, expire]
    split
    · exact .quiet rfl rfl rfl rfl fun _ => .inr (.inr (Nat.succ_pos _))
    · exact .quiet rfl rfl rfl rfl id
  | collect =>
    simp only [BatchStep.events, BatchStep.apply]
    by_cases hflushes : 0 < b.flushes
    · by_cases hpending : b.pending = []
      · obtain ⟨n, hcollect⟩ := collect_of_empty hpending
        simp only [hcollect, List.drop_length, List.map_nil]
        exact .quiet rfl rfl rfl rfl fun _ => .inl hpending
      · rw [collect_of_pending hflushes hpending]
        simpa using Moves.collect (b.flushes - 1) hpending
    · rw [collect_of_idle hflushes, List.drop_length]
      exact .quiet rfl rfl rfl rfl id
  | begin i =>
    simp only [BatchStep.events, BatchStep.apply, Batching.begin]
    split
    · exact .begin ‹_› ‹_› ‹_›
    · exact .quiet rfl rfl rfl rfl id
  | elapse n => exact .quiet rfl rfl rfl rfl id
  | pass =>
    simp only [BatchStep.events, BatchStep.apply]
    cases hturn : b.turn with
    | none =>
      rw [pass_of_none hturn]
      exact .quiet rfl rfl rfl rfl id
    | some batch =>
      obtain ⟨limiter, hpass, -⟩ := h.pass hturn
      rw [hpass]
      exact .call limiter hturn
  | finish =>
    simp only [BatchStep.events, BatchStep.apply]
    cases hcurrent : b.current with
    | none =>
      have hsame : b.finish = b := by simp [finish, hcurrent]
      rw [hsame, List.drop_length]
      exact .quiet rfl rfl rfl rfl id
    | some batch =>
      rw [finish_of_current hcurrent]
      simpa using Moves.finish hcurrent
  | close => exact absurd rfl hs

end Batching

/-! ## What the log accounts for -/

def fresh (log : List BatchEvent) : List String :=
  log.foldl (fun paths e => match e with
    | scheduled path => paths ++ [path]
    | collected _ => []
    | _ => paths) []

section

variable {log l₁ l₂ : List BatchEvent} {e x : BatchEvent} {path : String} {batch : List String}

@[simp] theorem fresh_scheduled : fresh (log ++ [scheduled path]) = fresh log ++ [path] := by simp [fresh]

@[simp] theorem fresh_collected : fresh (log ++ [collected batch]) = [] := by simp [fresh]

@[simp] theorem fresh_called : fresh (log ++ [called batch]) = fresh log := by simp [fresh]

@[simp] theorem fresh_returned : fresh (log ++ [returned batch]) = fresh log := by simp [fresh]

theorem concat_eq_split (h : log ++ [e] = l₁ ++ x :: l₂) :
    (l₂ = [] ∧ x = e ∧ l₁ = log) ∨ ∃ l₃, l₂ = l₃ ++ [e] ∧ log = l₁ ++ x :: l₃ := by
  rcases List.eq_nil_or_concat l₂ with rfl | ⟨l₃, y, rfl⟩
  · obtain ⟨rfl, hx⟩ := List.append_inj' h rfl
    simp at hx
    exact .inl ⟨rfl, hx.symm, rfl⟩
  · rw [List.concat_eq_append, ← List.cons_append, ← List.append_assoc] at h
    obtain ⟨hlog, hy⟩ := List.append_inj' h rfl
    simp at hy
    exact .inr ⟨l₃, by simp [hy], hlog⟩

theorem split_of_ne (h : log ++ [e] = l₁ ++ x :: l₂) (hne : x ≠ e) : ∃ l₃, l₂ = l₃ ++ [e] ∧ log = l₁ ++ x :: l₃ := by
  rcases concat_eq_split h with ⟨-, heq, -⟩ | hsplit
  · exact absurd heq hne
  · exact hsplit

/-- A scheduled path is scheduled since the last collection, or there is a first collection after it. -/
theorem fresh_or_collected (h : path ∈ fresh l₁) (l₂ : List BatchEvent) :
    path ∈ fresh (l₁ ++ l₂) ∨ ∃ l₃ batch l₄, l₂ = l₃ ++ collected batch :: l₄ ∧ path ∈ fresh (l₁ ++ l₃) := by
  induction l₂ generalizing l₁ with
  | nil => exact .inl (by simpa using h)
  | cons e l₂ ih =>
    by_cases hcollected : ∃ batch, e = collected batch
    · obtain ⟨batch, rfl⟩ := hcollected
      exact .inr ⟨[], batch, l₂, rfl, by simpa using h⟩
    · have hkept : path ∈ fresh (l₁ ++ [e]) := by
        cases e with
        | collected batch => exact absurd ⟨batch, rfl⟩ hcollected
        | _ => simp [h]
      rcases ih hkept with hfresh | ⟨l₃, batch, l₄, rfl, hfresh⟩
      · exact .inl (by simpa using hfresh)
      · exact .inr ⟨e :: l₃, batch, l₄, rfl, by simpa using hfresh⟩

end

def collectedBatches (log : List BatchEvent) : List (List String) :=
  log.filterMap fun e => match e with
    | collected batch => some batch
    | _ => none

def calledBatches (log : List BatchEvent) : List (List String) :=
  log.filterMap fun e => match e with
    | called batch => some batch
    | _ => none

/-- What is pending is what was scheduled since the last collection, and so was every batch when it was
collected. -/
structure Gathers {σ : Type} (log : List BatchEvent) (b : Batching σ) : Prop where
  sorted : b.pending.Pairwise (· < ·)
  due : b.Due
  pending : ∀ path, path ∈ b.pending ↔ path ∈ fresh log
  batches : ∀ l₁ batch l₂, log = l₁ ++ collected batch :: l₂ →
    batch ≠ [] ∧ batch.Pairwise (· < ·) ∧ ∀ path, path ∈ batch ↔ path ∈ fresh l₁

/-- Each collected batch is handed over once, or on its way. -/
structure Carries {σ : Type} (log : List BatchEvent) (b : Batching σ) : Prop where
  handed : ∀ l₁ batch l₂, log = l₁ ++ collected batch :: l₂ → called batch ∈ l₂ ∨ batch ∈ b.inFlight
  once : (collectedBatches log).Perm (calledBatches log ++ b.inFlight)

structure Serves {σ : Type} (log : List BatchEvent) (b : Batching σ) : Prop where
  alone : b.turn = none ∨ b.current = none
  returns : ∀ l₁ batch l₂, log = l₁ ++ called batch :: l₂ → returned batch ∈ l₂ ∨ b.current = some batch
  serial : ∀ l₁ first l₂ second l₃, log = l₁ ++ called first :: (l₂ ++ called second :: l₃) → returned first ∈ l₂

section

variable {log es : List BatchEvent} {σ : Type} {b b' : Batching σ}

/-- An event that is no collection adds no batch. -/
theorem Gathers.batches_append (h : Gathers log b) {e : BatchEvent} (he : ∀ batch, collected batch ≠ e) :
    ∀ l₁ batch l₂, log ++ [e] = l₁ ++ collected batch :: l₂ →
      batch ≠ [] ∧ batch.Pairwise (· < ·) ∧ ∀ path, path ∈ batch ↔ path ∈ fresh l₁ := by
  intro l₁ batch l₂ hsplit
  obtain ⟨l₃, -, hlog⟩ := split_of_ne hsplit (he batch)
  exact h.batches l₁ batch l₃ hlog

theorem Gathers.move (h : Gathers log b) (hm : Moves b es b') : Gathers (log ++ es) b' := by
  cases hm with
  | quiet hpending hwaiting hturn hcurrent hdue =>
    rw [List.append_nil]
    exact ⟨hpending ▸ h.sorted, hdue h.due, hpending ▸ h.pending, h.batches⟩
  | schedule path =>
    refine ⟨pairwise_insertSorted h.sorted, .inr (.inl rfl), fun p => ?_, h.batches_append (by simp)⟩
    simp only [Batching.schedule, mem_insertSorted, h.pending, fresh_scheduled, List.mem_append, List.mem_singleton]
    exact or_comm
  | collect n hpending =>
    refine ⟨List.Pairwise.nil, .inl rfl, by simp, fun l₁ batch l₂ hsplit => ?_⟩
    rcases concat_eq_split hsplit with ⟨-, hbatch, rfl⟩ | ⟨l₃, -, hlog⟩
    · cases hbatch
      exact ⟨hpending, h.sorted, h.pending⟩
    · exact h.batches l₁ batch l₃ hlog
  | begin hturn hcurrent hwaiting =>
    rw [List.append_nil]
    exact ⟨h.sorted, h.due, h.pending, h.batches⟩
  | call limiter hturn => exact ⟨h.sorted, h.due, by simpa using h.pending, h.batches_append (by simp)⟩
  | finish hcurrent => exact ⟨h.sorted, h.due, by simpa using h.pending, h.batches_append (by simp)⟩

theorem inFlight_of_turn {batch : List String} (h : b.turn = some batch) : b.inFlight = batch :: b.waiting := by
  simp [Batching.inFlight, h]

theorem inFlight_of_none (h : b.turn = none) : b.inFlight = b.waiting := by
  simp [Batching.inFlight, h]

/-- An event that is no collection leaves the batches where they are or hands them over. -/
theorem Carries.handed_append (h : Carries log b) {e : BatchEvent} (he : ∀ batch, collected batch ≠ e)
    (hkept : ∀ batch ∈ b.inFlight, called batch = e ∨ batch ∈ b'.inFlight) :
    ∀ l₁ batch l₂, log ++ [e] = l₁ ++ collected batch :: l₂ → called batch ∈ l₂ ∨ batch ∈ b'.inFlight := by
  intro l₁ batch l₂ hsplit
  obtain ⟨l₃, rfl, hlog⟩ := split_of_ne hsplit (he batch)
  rcases h.handed l₁ batch l₃ hlog with hcalled | hflight
  · exact .inl (by simp [hcalled])
  · rcases hkept batch hflight with hevent | hflight'
    · exact .inl (by simp [hevent])
    · exact .inr hflight'

theorem Carries.move (h : Carries log b) (hm : Moves b es b') : Carries (log ++ es) b' := by
  cases hm with
  | quiet hpending hwaiting hturn hcurrent hdue =>
    have hflight : b'.inFlight = b.inFlight := by simp only [Batching.inFlight, hturn, hwaiting]
    rw [List.append_nil]
    exact ⟨hflight ▸ h.handed, hflight ▸ h.once⟩
  | schedule path =>
    refine ⟨h.handed_append (by simp) fun batch hbatch => .inr hbatch, ?_⟩
    simpa [collectedBatches, calledBatches, Batching.inFlight, Batching.schedule] using h.once
  | collect n hpending =>
    constructor
    · intro l₁ batch l₂ hsplit
      rcases concat_eq_split hsplit with ⟨-, hbatch, -⟩ | ⟨l₃, rfl, hlog⟩
      · cases hbatch
        exact .inr (by simp [Batching.inFlight])
      · rcases h.handed l₁ batch l₃ hlog with hcalled | hflight
        · exact .inl (by simp [hcalled])
        · rcases List.mem_append.1 hflight with hturn | hwaiting
          · exact .inr (List.mem_append_left _ hturn)
          · exact .inr (List.mem_append_right _ (List.mem_append_left _ hwaiting))
    · have honce := h.once.append_right [b.pending]
      simpa [collectedBatches, calledBatches, Batching.inFlight] using honce
  | @begin i batch hturn hcurrent hwaiting =>
    obtain ⟨hi, rfl⟩ := List.getElem?_eq_some_iff.1 hwaiting
    have hflight : b.inFlight.Perm (b.waiting[i] :: b.waiting.eraseIdx i) := by
      rw [inFlight_of_none hturn]
      exact (List.getElem_cons_eraseIdx_perm hi).symm
    rw [List.append_nil]
    refine ⟨fun l₁ batch l₂ hlog => ?_, h.once.trans (hflight.append_left _)⟩
    exact (h.handed l₁ batch l₂ hlog).imp_right hflight.mem_iff.1
  | call limiter hturn =>
    have hflight := inFlight_of_turn hturn
    constructor
    · refine h.handed_append (by simp) fun batch hbatch => ?_
      rw [hflight] at hbatch
      rcases List.mem_cons.1 hbatch with rfl | hwaiting
      · exact .inl rfl
      · exact .inr hwaiting
    · have honce := h.once
      rw [hflight] at honce
      simpa [collectedBatches, calledBatches, Batching.inFlight] using honce
  | finish hcurrent =>
    refine ⟨h.handed_append (by simp) fun batch hbatch => .inr hbatch, ?_⟩
    simpa [collectedBatches, calledBatches, Batching.inFlight] using h.once

/-- An event that is no call begins nothing. -/
theorem Serves.serial_append (h : Serves log b) {e : BatchEvent} (he : ∀ batch, called batch ≠ e) :
    ∀ l₁ first l₂ second l₃, log ++ [e] = l₁ ++ called first :: (l₂ ++ called second :: l₃) → returned first ∈ l₂ := by
  intro l₁ first l₂ second l₃ hsplit
  rw [← List.cons_append, ← List.append_assoc] at hsplit
  obtain ⟨l₄, -, hlog⟩ := split_of_ne hsplit (he second)
  apply h.serial l₁ first l₂ second l₄
  simpa using hlog

theorem Serves.returns_append (h : Serves log b) {e : BatchEvent} (he : ∀ batch, called batch ≠ e) :
    ∀ l₁ batch l₂, log ++ [e] = l₁ ++ called batch :: l₂ →
      returned batch ∈ l₂ ∨ b.current = some batch ∧ e ∈ l₂ := by
  intro l₁ batch l₂ hsplit
  obtain ⟨l₃, rfl, hlog⟩ := split_of_ne hsplit (he batch)
  rcases h.returns l₁ batch l₃ hlog with hreturned | hcurrent
  · exact .inl (by simp [hreturned])
  · exact .inr ⟨hcurrent, by simp⟩

theorem Serves.move (h : Serves log b) (hm : Moves b es b') : Serves (log ++ es) b' := by
  cases hm with
  | quiet hpending hwaiting hturn hcurrent hdue =>
    rw [List.append_nil]
    exact ⟨by rw [hturn, hcurrent]; exact h.alone, hcurrent ▸ h.returns, h.serial⟩
  | schedule path =>
    refine ⟨h.alone, fun l₁ batch l₂ hsplit => ?_, h.serial_append (by simp)⟩
    exact (h.returns_append (by simp) l₁ batch l₂ hsplit).imp_right And.left
  | collect n hpending =>
    refine ⟨h.alone, fun l₁ batch l₂ hsplit => ?_, h.serial_append (by simp)⟩
    exact (h.returns_append (by simp) l₁ batch l₂ hsplit).imp_right And.left
  | begin hturn hcurrent hwaiting =>
    rw [List.append_nil]
    exact ⟨.inr hcurrent, h.returns, h.serial⟩
  | @call batch limiter hturn =>
    -- whoever has the turn keeps others from being handed over
    have hcurrent : b.current = none := by
      rcases h.alone with hnone | hnone
      · simp [hturn] at hnone
      · exact hnone
    have hreturned : ∀ l₁ first l₂, log = l₁ ++ called first :: l₂ → returned first ∈ l₂ := by
      intro l₁ first l₂ hlog
      simpa [hcurrent] using h.returns l₁ first l₂ hlog
    refine ⟨.inl rfl, fun l₁ first l₂ hsplit => ?_, fun l₁ first l₂ second l₃ hsplit => ?_⟩
    · rcases concat_eq_split hsplit with ⟨-, hfirst, -⟩ | ⟨l₃, rfl, hlog⟩
      · cases hfirst
        exact .inr rfl
      · exact .inl (List.mem_append_left _ (hreturned l₁ first l₃ hlog))
    · rw [← List.cons_append, ← List.append_assoc] at hsplit
      rcases concat_eq_split hsplit with ⟨-, -, hlog⟩ | ⟨l₄, -, hlog⟩
      · exact hreturned l₁ first l₂ hlog.symm
      · apply h.serial l₁ first l₂ second l₄
        simpa using hlog
  | finish hcurrent =>
    refine ⟨.inr rfl, fun l₁ batch l₂ hsplit => ?_, h.serial_append (by simp)⟩
    rcases h.returns_append (by simp) l₁ batch l₂ hsplit with hreturned | ⟨hbatch, hmem⟩
    · exact .inl hreturned
    · rw [hcurrent] at hbatch
      cases hbatch
      exact .inl hmem

end

/-! ## Whole runs -/

structure Follows {σ : Type} [RateLimiter σ] (log : List BatchEvent) (b : Batching σ) : Prop where
  isOpen : b.Open
  gathers : Gathers log b
  carries : Carries log b
  serves : Serves log b

namespace Follows
variable {σ : Type} [RateLimiter σ] {log l₁ l₂ : List BatchEvent} {b : Batching σ} {steps : List BatchStep} {path : String}

/-- A scheduled path was collected since and is handed over or on its way, or it is pending and will be
collected. -/
theorem scheduled (h : Follows log b) (hlog : log = l₁ ++ scheduled path :: l₂) :
    (∃ l₃ batch l₄, l₂ = l₃ ++ collected batch :: l₄ ∧ path ∈ batch ∧ (called batch ∈ l₄ ∨ batch ∈ b.inFlight)) ∨
    (path ∈ b.pending ∧ (b.armed = true ∨ 0 < b.flushes)) := by
  have hsplit : log = (l₁ ++ [BatchEvent.scheduled path]) ++ l₂ := by simpa using hlog
  have hfresh : path ∈ fresh (l₁ ++ [BatchEvent.scheduled path]) := by simp
  rcases fresh_or_collected hfresh l₂ with hpending | ⟨l₃, batch, l₄, rfl, hcollected⟩
  · rw [← hsplit] at hpending
    have hmem := (h.gathers.pending path).2 hpending
    refine .inr ⟨hmem, ?_⟩
    rcases h.gathers.due with hempty | hdue
    · simp [hempty] at hmem
    · exact hdue
  · have hbatch : log = (l₁ ++ [BatchEvent.scheduled path] ++ l₃) ++ collected batch :: l₄ := by simp [hsplit]
    refine .inl ⟨l₃, batch, l₄, rfl, ?_, h.carries.handed _ batch l₄ hbatch⟩
    exact ((h.gathers.batches _ batch l₄ hbatch).2.2 path).2 hcollected

variable [LawfulRateLimiter σ]

theorem limited (maxRate : Float) (burst : Int) : Follows [] (.limited maxRate burst : Batching σ) where
  isOpen := by
    refine ⟨rfl, fun t ht => ?_⟩
    simp only [Batching.limited] at ht
    split at ht
    · cases ht
      rw [newLimiter, LawfulRateLimiter.burst_new]
      exact le_max_right burst 1
    · cases ht
  gathers := ⟨List.Pairwise.nil, .inl rfl, by simp [fresh, Batching.limited], by simp⟩
  carries := ⟨by simp, by simp [collectedBatches, calledBatches, Batching.inFlight, Batching.limited]⟩
  serves := ⟨.inl rfl, by simp, by simp⟩

theorem step (h : Follows log b) {s : BatchStep} (hs : s ≠ .close) : Follows (log ++ s.events b) (s.apply b) :=
  have hmoves := h.isOpen.moves hs
  ⟨h.isOpen.step hs, h.gathers.move hmoves, h.carries.move hmoves, h.serves.move hmoves⟩

theorem run (h : Follows log b) (hsteps : .close ∉ steps) : Follows (log ++ b.log steps) (b.run steps) := by
  induction steps generalizing log b with
  | nil => simpa [Batching.log, Batching.run] using h
  | cons s steps ih =>
    obtain ⟨hs, hrest⟩ := not_or.1 (List.mem_cons.not.1 hsteps)
    rw [Batching.log, ← List.append_assoc]
    exact ih (h.step (Ne.symm hs)) hrest

end Follows

/-! ## Coming to rest -/

namespace Batching
variable {σ : Type}

structure AtRest (b : Batching σ) : Prop where
  pending : b.pending = []
  inFlight : b.inFlight = []
  current : b.current = none

def load (b : Batching σ) : Nat :=
  (if b.pending = [] then 0 else if b.flushes = 0 then 5 else 4) + 3 * b.waiting.length + 2 * b.turn.toList.length +
    b.current.toList.length

end Batching

namespace Follows
variable {σ : Type} [RateLimiter σ] [LawfulRateLimiter σ] {log : List BatchEvent} {b : Batching σ}

theorem advances (h : Follows log b) (hbusy : ¬ b.AtRest) :
    ∃ s : BatchStep, s.isOwn = true ∧ (s.apply b).load < b.load := by
  cases hcurrent : b.current with
  | some batch =>
    refine ⟨.finish, rfl, ?_⟩
    simp only [BatchStep.apply, Batching.finish_of_current hcurrent]
    simp [Batching.load, hcurrent]
  | none =>
  cases hturn : b.turn with
  | some batch =>
    obtain ⟨limiter, hpass, -⟩ := h.isOpen.pass hturn
    refine ⟨.pass, rfl, ?_⟩
    simp only [BatchStep.apply, hpass]
    simp [Batching.load, hcurrent, hturn]
  | none =>
  cases hwaiting : b.waiting with
  | cons batch rest =>
    refine ⟨.begin 0, rfl, ?_⟩
    have hfirst : b.waiting[0]? = some batch := by simp [hwaiting]
    have hbegin := Batching.begin_of_waiting hturn hcurrent hfirst
    simp only [BatchStep.apply, hbegin]
    simp [Batching.load, hcurrent, hturn, hwaiting]
    omega
  | nil =>
  have hpending : b.pending ≠ [] := fun hempty =>
    hbusy ⟨hempty, by simp [Batching.inFlight, hturn, hwaiting], hcurrent⟩
  by_cases hflushes : 0 < b.flushes
  · refine ⟨.collect, rfl, ?_⟩
    simp only [BatchStep.apply, Batching.collect_of_pending hflushes hpending]
    have hsome : b.flushes ≠ 0 := by omega
    simp [Batching.load, hcurrent, hturn, hwaiting, hpending, hsome]
  · refine ⟨.expire, rfl, ?_⟩
    have hnone : b.flushes = 0 := by omega
    have harmed : b.armed = true := by
      rcases h.gathers.due with hempty | harmed | hsome
      · exact absurd hempty hpending
      · exact harmed
      · exact absurd hsome hflushes
    simp [BatchStep.apply, Batching.expire, harmed, Batching.load, hpending, hnone]

/-- What is under way can always be brought to its end. -/
theorem settles (h : Follows log b) : ∃ more : List BatchStep, (∀ s ∈ more, s.isOwn = true) ∧ (b.run more).AtRest := by
  induction hload : b.load using Nat.strong_induction_on generalizing log b with
  | _ n ih =>
    by_cases hrest : b.AtRest
    · exact ⟨[], by simp, hrest⟩
    · obtain ⟨s, hown, hless⟩ := h.advances hrest
      have hs : s ≠ .close := by
        rintro rfl
        cases hown
      obtain ⟨more, hmore, hend⟩ := ih _ (hload ▸ hless) (h.step hs) rfl
      refine ⟨s :: more, ?_, hend⟩
      intro x hx
      rcases List.mem_cons.1 hx with rfl | hx
      · exact hown
      · exact hmore x hx

end Follows

/-- Whatever comes between what, before the end: a scheduled path was collected since and its batch is handed
over or on its way, or the path is pending and a timer or a flush will collect it. A batch is not empty,
strictly sorted, and holds just what was scheduled since the collection before. Each is handed over once, one at
a time, and what is under way can be brought to rest, when every path has been handed over. -/
theorem no_change_lost {σ : Type} [RateLimiter σ] [LawfulRateLimiter σ] (maxRate : Float) (burst : Int)
    (steps : List BatchStep) (hsteps : .close ∉ steps) :
    let b : Batching σ := (Batching.limited maxRate burst).run steps
    let log := (Batching.limited maxRate burst : Batching σ).log steps
    (∀ l₁ path l₂, log = l₁ ++ scheduled path :: l₂ →
      (∃ l₃ batch l₄, l₂ = l₃ ++ collected batch :: l₄ ∧ path ∈ batch ∧ (called batch ∈ l₄ ∨ batch ∈ b.inFlight)) ∨
      (path ∈ b.pending ∧ (b.armed = true ∨ 0 < b.flushes))) ∧
    (∀ l₁ batch l₂, log = l₁ ++ collected batch :: l₂ →
      batch ≠ [] ∧ batch.Pairwise (· < ·) ∧ ∀ path, path ∈ batch ↔ path ∈ fresh l₁) ∧
    (collectedBatches log).Perm (calledBatches log ++ b.inFlight) ∧
    (∀ l₁ first l₂ second l₃, log = l₁ ++ called first :: (l₂ ++ called second :: l₃) → returned first ∈ l₂) ∧
    ∃ more : List BatchStep, (∀ s ∈ more, s.isOwn = true) ∧ (b.run more).AtRest ∧
      ∀ l₁ path l₂, log ++ b.log more = l₁ ++ scheduled path :: l₂ →
        ∃ l₃ batch l₄, l₂ = l₃ ++ collected batch :: l₄ ∧ path ∈ batch ∧ called batch ∈ l₄ := by
  intro b log
  have h : Follows log b := by simpa using (Follows.limited maxRate burst).run hsteps
  obtain ⟨more, hown, hrest⟩ := h.settles
  have hclose : .close ∉ more := by
    intro hmem
    cases hown _ hmem
  have hend := h.run hclose
  refine ⟨fun l₁ path l₂ => h.scheduled, h.gathers.batches, h.carries.once, h.serves.serial, more, hown, hrest, ?_⟩
  intro l₁ path l₂ hlog
  rcases hend.scheduled hlog with ⟨l₃, batch, l₄, hcollected, hpath, hcalled | hflight⟩ | ⟨hpending, -⟩
  · exact ⟨l₃, batch, l₄, hcollected, hpath, hcalled⟩
  · simp [hrest.inFlight] at hflight
  · simp [hrest.pending] at hpending

/-- A change comes after the timer ran out and before the flush collects; the timer it sets finds nothing new at
first, and a later batch gets its turn before an earlier one. -/
def racingChanges : List BatchStep :=
  [.schedule "b", .schedule "a", .expire, .schedule "c", .schedule "a", .collect, .expire, .collect, .schedule "a", .expire,
    .collect, .begin 1, .pass, .begin 0, .finish, .begin 0]

theorem no_change_lost_racingChanges :
    .close ∉ racingChanges ∧
    (Batching.limited 2 0 : Batching TokenBucket).log racingChanges =
      [scheduled "b", scheduled "a", scheduled "c", scheduled "a", collected ["a", "b", "c"], scheduled "a",
        collected ["a"], called ["a"], returned ["a"]] ∧
    ∃ more : List BatchStep, ∃ l₃ batch l₄,
      scheduled "a" :: collected ["a", "b", "c"] :: scheduled "a" :: collected ["a"] :: called ["a"] :: returned ["a"] ::
        ((Batching.limited 2 0 : Batching TokenBucket).run racingChanges).log more = l₃ ++ collected batch :: l₄ ∧
      "c" ∈ batch ∧ called batch ∈ l₄ := by
  have hlog : (Batching.limited 2 0 : Batching TokenBucket).log racingChanges =
      [scheduled "b", scheduled "a", scheduled "c", scheduled "a", collected ["a", "b", "c"], scheduled "a",
        collected ["a"], called ["a"], returned ["a"]] := by decide +kernel
  obtain ⟨-, -, -, -, more, -, -, hmore⟩ := no_change_lost (σ := TokenBucket) 2 0 racingChanges (by decide)
  refine ⟨by decide, hlog, more, hmore [scheduled "b", scheduled "a"] "c" _ ?_⟩
  rw [hlog]
  rfl

-- closing breaks the wait for the limiter off, and the batch is dropped
example : called ["b"] ∉ (Batching.limited 2 1 : Batching TokenBucket).log
    [.schedule "a", .expire, .collect, .begin 0, .pass, .finish, .schedule "b", .expire, .collect, .begin 0, .close, .pass] := by
  decide +kernel

end JvmLint
