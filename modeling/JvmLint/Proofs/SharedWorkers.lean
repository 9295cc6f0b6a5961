import JvmLint.Proofs.Dedup
import JvmLint.Proofs.SharedLookups
import JvmLint.Proofs.SharedResolver
import Mathlib.Data.List.OfFn

/-!
# Workers that share a resolver

An analysis gives each class to a worker, and the workers look classes up in one
resolver at the same time. Every question of a worker is a caller of its own: it may
find the name in memory, lead the call to the source, or wait for a worker that leads
one. The source stays as it is, so whatever the order of the steps a question is
answered as the source answers it, and the blocks that the workers leave make up what
the analysis finds when it goes from class to class. A limit on how many are at work
at a time leaves fewer orders. No order runs into a dead end: who waits, waits for a
worker that can go on.
-/

namespace JvmLint

/-! ## Callers of a source that stays as it is -/

namespace Phase
variable {ι : Type} {p : Phase ι}

def left : Phase ι → Nat
  | leading => 4
  | loading => 3
  | loaded _ => 2
  | settled _ => 1
  | _ => 0

theorem Joinable.returned_or_leads (h : p.Joinable) : (∃ found, p = .returned found) ∨ p.Leads := by
  cases p with
  | returned found => exact .inl ⟨found, rfl⟩
  | _ => exact .inr h

theorem Leads.ne_returned (h : p.Leads) (found : Option Class) : p ≠ .returned found := by
  rintro rfl
  exact h

end Phase

namespace Callers
variable {ι : Type}

def resume (wanted : ι → String) (r : Resolver) : Callers ι :=
  -- what is remembered has been to the source before
  { start wanted with resolver := r, passed := dedup (r.cache.map (·.1)) }

theorem mem_passed_resume (wanted : ι → String) (r : Resolver) (name : String) :
    name ∈ (resume wanted r).passed ↔ (resume wanted r).memory name ≠ none := by
  simp only [resume, memory, mem_dedup, List.mem_map, ne_eq, List.lookup_eq_none_iff]
  constructor
  · rintro ⟨entry, hmem, rfl⟩ hnone
    simpa using hnone entry hmem
  · intro hsome
    simp only [not_forall] at hsome
    obtain ⟨entry, hmem, hname⟩ := hsome
    exact ⟨entry, hmem, Eq.symm (by simpa using hname)⟩

theorem sound_resume (wanted : ι → String) (r : Resolver) : (resume wanted r).Sound where
  fits _ := trivial
  flying _ _ h := by cases h
  once := nodup_dedup _
  known name := (mem_passed_resume wanted r name).mpr
  kept name h _ := (mem_passed_resume wanted r name).mp h

/-- What is remembered and what was loaded is what the source says. -/
structure Truthful (source : Source) (s : Callers ι) : Prop where
  sound : s.Sound
  faithful : s.resolver.Faithful source
  loads : ∀ i found, s.phase i = .loaded found → found = Resolver.load? source (s.wanted i)

variable {source : Source} {s : Callers ι} {i : ι}

theorem truthful_resume (wanted : ι → String) {r : Resolver} (hr : r.Faithful source) :
    (resume wanted r).Truthful source :=
  ⟨sound_resume wanted r, hr, fun _ _ h => by cases h⟩

/-- A caller returns what the source says. -/
theorem Truthful.returned (h : s.Truthful source) {found : Option Class} (hp : s.phase i = .returned found) :
    found = Resolver.direct source (s.wanted i) := by
  have hfit := h.sound.fitsAt hp
  simp only [FitsAt] at hfit
  unfold Resolver.direct
  split at hfit
  · rwa [if_pos ‹_›]
  · rw [if_neg ‹_›]
    exact h.faithful _ _ hfit

variable [DecidableEq ι]

@[simp] theorem phase_move_self (p : Phase ι) : (s.move i p).phase i = p := Function.update_self ..

theorem phase_step_of_ne (t : Turn ι) {j : ι} (hj : j ≠ t.caller) : (s.step t).phase j = s.phase j := by
  unfold step
  cases s.phase t.caller <;> simp only <;> (repeat' split) <;> first | rfl | exact Function.update_of_ne hj ..

theorem Truthful.faithful_step (h : s.Truthful source) (i : ι) : (s.step ⟨i, source⟩).resolver.Faithful source := by
  cases hp : s.phase i with
  | loading =>
    simp only [step, hp]
    intro name found hfound
    rw [Resolver.cache_count] at hfound
    exact h.faithful name found hfound
  | loaded found =>
    simp only [step, hp]
    rw [h.loads i found hp]
    exact h.faithful.remember _
  | _ =>
    simp only [step, hp]
    (repeat' split) <;> exact h.faithful

/-- A caller has something loaded only when it has just asked the source. -/
theorem step_loaded {found : Option Class} (hp : (s.step ⟨i, source⟩).phase i = .loaded found) :
    found = Resolver.load? source (s.wanted i) := by
  unfold step at hp
  cases hold : s.phase i with
  | loading =>
    simp only [hold, phase_move_self, Phase.loaded.injEq] at hp
    exact hp.symm
  | _ =>
    simp only [hold] at hp
    (repeat' split at hp) <;> simp_all

theorem Truthful.step (h : s.Truthful source) (i : ι) : (s.step ⟨i, source⟩).Truthful source := by
  refine ⟨h.sound.step _, h.faithful_step i, fun j found hj => ?_⟩
  rw [wanted_step]
  by_cases hji : j = i
  · subst hji
    exact step_loaded hj
  · rw [phase_step_of_ne ⟨i, source⟩ hji] at hj
    exact h.loads j found hj

theorem phase_step_calling (hp : s.phase i = .calling) (source : Source) :
    (∃ found, (s.step ⟨i, source⟩).phase i = .returned found) ∨ (s.step ⟨i, source⟩).phase i = .missed := by
  simp only [step, hp]
  split
  · exact .inl ⟨none, phase_move_self _⟩
  · split
    · exact .inl ⟨_, phase_move_self _⟩
    · exact .inr (phase_move_self _)

theorem phase_step_waiting {leader : ι} (hp : s.phase i = .waiting leader) {found : Option Class}
    (hl : s.phase leader = .returned found) (source : Source) : (s.step ⟨i, source⟩).phase i = .returned found := by
  simp only [step, hp, hl, phase_move_self]

theorem phase_step_returned {found : Option Class} (hp : s.phase i = .returned found) (source : Source) :
    (s.step ⟨i, source⟩).phase i = .returned found := by
  simp only [step, hp]

theorem phase_step_missed (hp : s.phase i = .missed) (source : Source) :
    (∃ leader, (s.step ⟨i, source⟩).phase i = .waiting leader) ∨ (s.step ⟨i, source⟩).phase i = .leading := by
  simp only [step, hp]
  split
  · exact .inl ⟨_, phase_move_self _⟩
  · exact .inr (phase_move_self _)

theorem phase_step_leads (hlead : (s.phase i).Leads) (source : Source) :
    (∃ found, (s.step ⟨i, source⟩).phase i = .returned found) ∨
      ((s.step ⟨i, source⟩).phase i).Leads ∧ ((s.step ⟨i, source⟩).phase i).left < (s.phase i).left := by
  cases hp : s.phase i with
  | leading =>
    simp only [step, hp]
    split <;> exact .inr (by simp [Phase.Leads, Phase.left])
  | loading => exact .inr (by simp [step, hp, Phase.Leads, Phase.left])
  | loaded found => exact .inr (by simp [step, hp, Phase.Leads, Phase.left])
  | settled found => exact .inl ⟨found, by simp [step, hp]⟩
  | _ =>
    rw [hp] at hlead
    exact hlead.elim

end Callers

/-! ## Workers -/

structure Question (ι : Type) where
  worker : ι
  number : Nat
  name : String
deriving DecidableEq

structure Workers (ι α : Type) where
  job : ι → Lookup α
  /-- The number of answers that a worker has got. -/
  answers : ι → Nat
  callers : Callers (Question ι)

namespace Workers
variable {ι α : Type}

def start (jobs : ι → Lookup α) (r : Resolver) : Workers ι α :=
  { job := jobs, answers := fun _ => 0, callers := .resume (·.name) r }

/-- The next step of a worker that is not done: its question goes one step further, and once there is an
answer the job goes on with it. -/
def step [DecidableEq ι] (source : Source) (w : Workers ι α) (i : ι) : Workers ι α :=
  match w.job i with
  | .done _ => w
  | .ask name next =>
    let q : Question ι := ⟨i, w.answers i, name⟩
    let callers := w.callers.step ⟨q, source⟩
    match callers.phase q with
    | .returned found =>
      { job := Function.update w.job i (next found)
        answers := Function.update w.answers i (w.answers i + 1)
        callers }
    | _ => { w with callers }

def run [DecidableEq ι] (source : Source) (w : Workers ι α) (turns : List ι) : Workers ι α :=
  turns.foldl (step source) w

def Asks (w : Workers ι α) (q : Question ι) (next : Option Class → Lookup α) : Prop :=
  w.job q.worker = .ask q.name next ∧ w.answers q.worker = q.number

/-- Either a worker is done, or its turn is a turn of its question. -/
theorem done_or_asks (w : Workers ι α) (i : ι) : (∃ a, w.job i = .done a) ∨ ∃ q next, q.worker = i ∧ w.Asks q next := by
  cases hjob : w.job i with
  | done a => exact .inl ⟨a, rfl⟩
  | ask name next => exact .inr ⟨⟨i, w.answers i, name⟩, next, rfl, hjob, rfl⟩

/-- A worker is at one question. -/
theorem Asks.unique {w : Workers ι α} {p q : Question ι} {next next' : Option Class → Lookup α} (hp : w.Asks p next)
    (hq : w.Asks q next') (hworker : p.worker = q.worker) : p = q := by
  have hname : p.name = q.name := (Lookup.ask.inj (hp.1.symm.trans (hworker ▸ hq.1))).1
  have hnumber : p.number = q.number := hp.2.symm.trans (hworker ▸ hq.2)
  cases p
  cases q
  simp_all

/-- The workers are on their way to what they would find with the source alone. -/
structure OnTrack (source : Source) (jobs : ι → Lookup α) (w : Workers ι α) : Prop where
  truthful : w.callers.Truthful source
  wanted : w.callers.wanted = (·.name)
  outcome : ∀ i, (w.job i).run (Resolver.direct source) = (jobs i).run (Resolver.direct source)
  /-- Who leads a call is a worker that is still at this question. -/
  leaders : ∀ q, (w.callers.phase q).Leads → ∃ next, w.Asks q next

variable {source : Source} {jobs : ι → Lookup α} {w : Workers ι α} {q : Question ι} {next : Option Class → Lookup α}

theorem onTrack_start (jobs : ι → Lookup α) {r : Resolver} (hr : r.Faithful source) :
    (start jobs r).OnTrack source jobs :=
  ⟨Callers.truthful_resume _ hr, rfl, fun _ => rfl, fun _ h => h.elim⟩

/-- Whatever came in between, a worker that is done has found what it finds with the source alone. -/
theorem OnTrack.eq_of_done (h : w.OnTrack source jobs) {i : ι} {a : α} (hdone : w.job i = .done a) :
    a = (jobs i).run (Resolver.direct source) := by
  rw [← h.outcome i, hdone]
  rfl

variable [DecidableEq ι]

/-! ### One turn -/

theorem step_done {i : ι} {a : α} (h : w.job i = .done a) : w.step source i = w := by
  simp only [step, h]

theorem Asks.step_returned (h : w.Asks q next) {found : Option Class}
    (hp : (w.callers.step ⟨q, source⟩).phase q = .returned found) :
    w.step source q.worker =
      { job := Function.update w.job q.worker (next found)
        answers := Function.update w.answers q.worker (q.number + 1)
        callers := w.callers.step ⟨q, source⟩ } := by
  obtain ⟨hjob, hnumber⟩ := h
  simp only [step, hjob, hnumber, hp]

theorem Asks.step_pending (h : w.Asks q next) (hp : ∀ found, (w.callers.step ⟨q, source⟩).phase q ≠ .returned found) :
    w.step source q.worker = { w with callers := w.callers.step ⟨q, source⟩ } := by
  obtain ⟨hjob, hnumber⟩ := h
  simp only [step, hjob, hnumber]

theorem Asks.step_cases (h : w.Asks q next) (source : Source) :
    (∃ found, (w.callers.step ⟨q, source⟩).phase q = .returned found ∧
      w.step source q.worker =
        { job := Function.update w.job q.worker (next found)
          answers := Function.update w.answers q.worker (q.number + 1)
          callers := w.callers.step ⟨q, source⟩ }) ∨
    w.step source q.worker = { w with callers := w.callers.step ⟨q, source⟩ } := by
  by_cases hp : ∃ found, (w.callers.step ⟨q, source⟩).phase q = .returned found
  · obtain ⟨found, hp⟩ := hp
    exact .inl ⟨found, hp, h.step_returned hp⟩
  · exact .inr (h.step_pending (not_exists.mp hp))

theorem Asks.callers_step (h : w.Asks q next) (source : Source) :
    (w.step source q.worker).callers = w.callers.step ⟨q, source⟩ := by
  obtain ⟨found, -, hstep⟩ | hstep := h.step_cases source <;> rw [hstep]

theorem job_step_of_ne (w : Workers ι α) (source : Source) {i j : ι} (hij : i ≠ j) :
    (w.step source j).job i = w.job i ∧ (w.step source j).answers i = w.answers i := by
  obtain ⟨a, hdone⟩ | ⟨q, next, rfl, hasks⟩ := w.done_or_asks j
  · rw [step_done hdone]
    exact ⟨rfl, rfl⟩
  · obtain ⟨found, -, hstep⟩ | hstep := hasks.step_cases source <;> rw [hstep]
    · exact ⟨Function.update_of_ne hij .., Function.update_of_ne hij ..⟩
    · exact ⟨rfl, rfl⟩

theorem Asks.step_of_ne (h : w.Asks q next) {j : ι} (hj : q.worker ≠ j) : (w.step source j).Asks q next := by
  obtain ⟨hjob, hanswers⟩ := w.job_step_of_ne source hj
  exact ⟨hjob.trans h.1, hanswers.trans h.2⟩

theorem phase_step_of_ne (w : Workers ι α) (source : Source) {j : ι} (hj : q.worker ≠ j) :
    (w.step source j).callers.phase q = w.callers.phase q := by
  obtain ⟨a, hdone⟩ | ⟨other, next, rfl, hasks⟩ := w.done_or_asks j
  · rw [step_done hdone]
  · rw [hasks.callers_step source]
    exact Callers.phase_step_of_ne _ fun hq => hj (congrArg Question.worker hq)

/-! ### What every order of turns keeps -/

theorem OnTrack.outcome_step (h : w.OnTrack source jobs) (hasks : w.Asks q next) (i : ι) :
    ((w.step source q.worker).job i).run (Resolver.direct source) = (jobs i).run (Resolver.direct source) := by
  by_cases hi : i = q.worker
  · subst hi
    rw [← h.outcome q.worker]
    obtain ⟨found, hp, hstep⟩ | hstep := hasks.step_cases source <;> rw [hstep]
    have hfound := (h.truthful.step q).returned hp
    rw [Callers.wanted_step, h.wanted] at hfound
    simp only [Function.update_self, hasks.1, Lookup.run, hfound]
  · rw [(w.job_step_of_ne source hi).1]
    exact h.outcome i

theorem OnTrack.leaders_step (h : w.OnTrack source jobs) (hasks : w.Asks q next) {other : Question ι}
    (hlead : ((w.callers.step ⟨q, source⟩).phase other).Leads) :
    ∃ next, (w.step source q.worker).Asks other next := by
  by_cases hother : other = q
  · subst hother
    rw [hasks.step_pending hlead.ne_returned]
    exact ⟨next, hasks⟩
  · rw [Callers.phase_step_of_ne ⟨q, source⟩ hother] at hlead
    obtain ⟨next', hasks'⟩ := h.leaders other hlead
    exact ⟨next', hasks'.step_of_ne fun hworker => hother (hasks'.unique hasks hworker)⟩

theorem OnTrack.step (h : w.OnTrack source jobs) (i : ι) : (w.step source i).OnTrack source jobs := by
  obtain ⟨a, hdone⟩ | ⟨q, next, rfl, hasks⟩ := w.done_or_asks i
  · rwa [step_done hdone]
  · have hcallers := hasks.callers_step source
    refine ⟨hcallers ▸ h.truthful.step q, ?_, h.outcome_step hasks, fun other hlead => ?_⟩
    · rw [hcallers, Callers.wanted_step, h.wanted]
    · exact h.leaders_step hasks (hcallers ▸ hlead)

theorem OnTrack.run (h : w.OnTrack source jobs) (turns : List ι) : (w.run source turns).OnTrack source jobs := by
  induction turns generalizing w with
  | nil => exact h
  | cons i turns ih => exact ih (h.step i)

/-! ### No dead ends -/

theorem run_append (source : Source) (w : Workers ι α) (turns more : List ι) :
    w.run source (turns ++ more) = (w.run source turns).run source more :=
  List.foldl_append

theorem job_run_of_done {i : ι} {a : α} (h : w.job i = .done a) (turns : List ι) :
    (w.run source turns).job i = .done a := by
  induction turns generalizing w with
  | nil => exact h
  | cons j turns ih =>
    refine ih ?_
    by_cases hij : i = j
    · subst hij
      rwa [step_done h]
    · rwa [(w.job_step_of_ne source hij).1]

def Answered (w : Workers ι α) (q : Question ι) (next : Option Class → Lookup α) : Prop :=
  ∃ found, w.callers.phase q = .returned found ∧ w.job q.worker = next found

theorem Asks.step_answered (h : w.Asks q next) {found : Option Class}
    (hp : (w.callers.step ⟨q, source⟩).phase q = .returned found) : (w.step source q.worker).Answered q next := by
  rw [h.step_returned hp]
  exact ⟨found, hp, Function.update_self ..⟩

theorem Asks.step_asks (h : w.Asks q next) {p : Phase (Question ι)} (hpending : ∀ found, p ≠ .returned found)
    (hp : (w.callers.step ⟨q, source⟩).phase q = p) :
    (w.step source q.worker).Asks q next ∧ (w.step source q.worker).callers.phase q = p := by
  rw [h.step_pending (hp ▸ hpending)]
  exact ⟨h, hp⟩

theorem Asks.run_of_ne (h : w.Asks q next) (source : Source) {turns : List ι} (hturns : ∀ j ∈ turns, q.worker ≠ j) :
    (w.run source turns).Asks q next ∧ (w.run source turns).callers.phase q = w.callers.phase q := by
  induction turns generalizing w with
  | nil => exact ⟨h, rfl⟩
  | cons j turns ih =>
    have hj : q.worker ≠ j := hturns j (by simp)
    obtain ⟨hasks, hphase⟩ := ih (h.step_of_ne hj) fun k hk => hturns k (by simp [hk])
    exact ⟨hasks, hphase.trans (phase_step_of_ne w source hj)⟩

/-- A leader needs nobody else. -/
theorem Asks.exists_answered_of_leads (h : w.Asks q next) (hlead : (w.callers.phase q).Leads) (source : Source) :
    ∃ n, (w.run source (List.replicate n q.worker)).Answered q next := by
  generalize hleft : (w.callers.phase q).left = left
  induction left using Nat.strongRecOn generalizing w with
  | ind left ih =>
    obtain ⟨found, hp⟩ | ⟨hlead', hless⟩ := Callers.phase_step_leads hlead source
    · exact ⟨1, h.step_answered hp⟩
    · obtain ⟨hasks, hp⟩ := h.step_asks hlead'.ne_returned rfl
      obtain ⟨n, hn⟩ := ih _ (hleft ▸ hless) hasks (hp ▸ hlead') (congrArg Phase.left hp)
      exact ⟨n + 1, hn⟩

theorem OnTrack.exists_answered_of_waiting (h : w.OnTrack source jobs) (hasks : w.Asks q next) {leader : Question ι}
    (hp : w.callers.phase q = .waiting leader) : ∃ turns, (w.run source turns).Answered q next := by
  obtain ⟨-, -, hready⟩ := h.truthful.sound.fitsAt hp
  obtain ⟨found, hl⟩ | hlead := hready.returned_or_leads
  · exact ⟨[q.worker], hasks.step_answered (Callers.phase_step_waiting hp hl source)⟩
  · obtain ⟨next', hleader⟩ := h.leaders leader hlead
    have hother : q.worker ≠ leader.worker := by
      intro hworker
      rw [← hasks.unique hleader hworker, hp] at hlead
      exact hlead
    obtain ⟨n, found, hl, -⟩ := hleader.exists_answered_of_leads hlead source
    have hturns : ∀ j ∈ List.replicate n leader.worker, q.worker ≠ j := fun j hj => List.eq_of_mem_replicate hj ▸ hother
    obtain ⟨hasks', hp'⟩ := hasks.run_of_ne source hturns
    refine ⟨List.replicate n leader.worker ++ [q.worker], ?_⟩
    rw [run_append]
    exact hasks'.step_answered (Callers.phase_step_waiting (hp'.trans hp) hl source)

theorem OnTrack.exists_answered_of_missed (h : w.OnTrack source jobs) (hasks : w.Asks q next)
    (hp : w.callers.phase q = .missed) : ∃ turns, (w.run source turns).Answered q next := by
  obtain ⟨leader, hstep⟩ | hstep := Callers.phase_step_missed hp source
  · obtain ⟨hasks', hp'⟩ := hasks.step_asks (by simp) hstep
    obtain ⟨turns, hturns⟩ := (h.step q.worker).exists_answered_of_waiting hasks' hp'
    exact ⟨q.worker :: turns, hturns⟩
  · obtain ⟨hasks', hp'⟩ := hasks.step_asks (by simp) hstep
    obtain ⟨n, hn⟩ := hasks'.exists_answered_of_leads (hp' ▸ trivial) source
    exact ⟨q.worker :: List.replicate n q.worker, hn⟩

theorem OnTrack.exists_answered (h : w.OnTrack source jobs) (hasks : w.Asks q next) :
    ∃ turns, (w.run source turns).Answered q next := by
  cases hp : w.callers.phase q with
  | calling =>
    obtain ⟨found, hstep⟩ | hstep := Callers.phase_step_calling hp source
    · exact ⟨[q.worker], hasks.step_answered hstep⟩
    · obtain ⟨hasks', hp'⟩ := hasks.step_asks (by simp) hstep
      obtain ⟨turns, hturns⟩ := (h.step q.worker).exists_answered_of_missed hasks' hp'
      exact ⟨q.worker :: turns, hturns⟩
  | missed => exact h.exists_answered_of_missed hasks hp
  | waiting leader => exact h.exists_answered_of_waiting hasks hp
  | returned found => exact ⟨[q.worker], hasks.step_answered (Callers.phase_step_returned hp source)⟩
  | leading | loading | loaded found | settled found =>
    obtain ⟨n, hn⟩ := hasks.exists_answered_of_leads (hp ▸ trivial) source
    exact ⟨_, hn⟩

theorem OnTrack.exists_done (h : w.OnTrack source jobs) (i : ι) :
    ∃ turns a, (w.run source turns).job i = .done a := by
  generalize hjob : w.job i = job
  induction job generalizing w with
  | done a => exact ⟨[], a, hjob⟩
  | ask name next ih =>
    have hasks : w.Asks ⟨i, w.answers i, name⟩ next := ⟨hjob, rfl⟩
    obtain ⟨turns, found, -, hjob'⟩ := h.exists_answered hasks
    obtain ⟨more, a, hdone⟩ := ih found (h.run turns) hjob'
    refine ⟨turns ++ more, a, ?_⟩
    rwa [run_append]

/-- From wherever the workers are, all of them can get done. -/
theorem OnTrack.exists_all_done (h : w.OnTrack source jobs) (workers : List ι) :
    ∃ turns, ∀ i ∈ workers, ∃ a, (w.run source turns).job i = .done a := by
  induction workers generalizing w with
  | nil => exact ⟨[], by simp⟩
  | cons i workers ih =>
    obtain ⟨turns, a, hdone⟩ := h.exists_done i
    obtain ⟨more, hmore⟩ := ih (h.run turns)
    refine ⟨turns ++ more, List.forall_mem_cons.mpr ⟨⟨a, ?_⟩, ?_⟩⟩
    · rw [run_append]
      exact job_run_of_done hdone more
    · rwa [run_append]

end Workers

/-! ## The analysis -/

namespace Analysis

def classJob (around : Surroundings) (selected : List Check) : Option Class → Lookup (List Finding)
  | none => return []
  | some c => return (← selected.mapM fun k => k.findings c around).flatten

theorem run_classJob (source : Source) (around : Surroundings) (selected : List Check) (c : Option Class) :
    (classJob around selected c).run (Resolver.direct source) =
      c.toList.flatMap (directFindings source around selected) := by
  cases c with
  | none => rfl
  | some c =>
    simp only [classJob, Lookup.run_bind, Lookup.run_mapM, Lookup.run_pure, Option.toList_some, List.flatMap_singleton]
    rfl

def classJobs (reach : Nat) (classes : List (Option Class)) (selected : List Check) (i : Fin classes.length) :
    Lookup (List Finding) :=
  classJob { layers := classification (classes.filterMap id) selected, reach } selected (classes.get i)

theorem flatten_blocks (found : Class → List Finding) (classes : List (Option Class)) :
    (List.ofFn fun i => (classes.get i).toList.flatMap found).flatten = (classes.filterMap id).flatMap found := by
  have hmap : (List.ofFn fun i => (classes.get i).toList.flatMap found) = classes.map (·.toList.flatMap found) :=
    List.ofFn_getElem_eq_map classes (·.toList.flatMap found)
  rw [hmap, List.filterMap_eq_flatMap_toList, List.flatMap_assoc]
  rfl

/-- Whatever the order of the workers' steps, once all are done their blocks in the order of the classes are
what an analysis finds that goes from class to class, and they can always get there. No name gets as far as
the source that was there before or is in memory from before. -/
theorem run_eq_workers (source : Source) (reach : Nat) (classes : List (Option Class)) (selected : List Check)
    {r : Resolver} (hr : r.Faithful source) (turns : List (Fin classes.length)) :
    let w := (Workers.start (classJobs reach classes selected) r).run source turns
    (∀ blocks : Fin classes.length → List Finding, (∀ i, w.job i = .done (blocks i)) →
      ∃ r', Analysis.run source reach classes selected false r = .ok (
        { findings := (List.ofFn blocks).flatten
          classes := classes.length
          checks := selected.map (·.name) }, r')) ∧
    (∃ (more : List (Fin classes.length)) (blocks : Fin classes.length → List Finding),
      ∀ i, (w.run source more).job i = .done (blocks i)) ∧
    w.callers.passed.Nodup := by
  intro w
  have htrack : w.OnTrack source _ := (Workers.onTrack_start (classJobs reach classes selected) hr).run turns
  refine ⟨fun blocks hdone => ?_, ?_, htrack.truthful.sound.once⟩
  · obtain ⟨r', hanswer, -⟩ := Resolver.answer_faithful hr (analyze reach (classes.filterMap id) selected)
    refine ⟨r', ?_⟩
    have hblocks : blocks = _ := funext fun i => htrack.eq_of_done (hdone i)
    simp only [Analysis.run, hanswer, run_analyze, hblocks, classJobs, run_classJob, flatten_blocks, Bool.false_and,
      Bool.false_eq_true, if_false]
  · obtain ⟨more, hmore⟩ := htrack.exists_all_done (List.finRange classes.length)
    choose blocks hblocks using fun i => hmore i (List.mem_finRange i)
    exact ⟨more, blocks, hblocks⟩

end Analysis

end JvmLint
