import JvmLint.Proofs.FirstAnswers
import Mathlib.Logic.Function.Basic

/-!
# Callers that look up at the same time

Any number of callers ask one resolver, each in steps that others can come
between: a look into memory, joining or leading the call in flight for the name, a
second look of the leader, the source, writing the memory down, handing over. A
caller can miss the memory, be held up until another one has finished, and then
lead a call of its own; that its second look finds the name, and that the memory is
written before the call is let go, is what keeps the name from the source.
-/

namespace JvmLint

inductive Phase (ι : Type) where
  /-- About to look into memory. -/
  | calling
  /-- Not in memory; about to join the call in flight, or to lead one. -/
  | missed
  | waiting (leader : ι)
  /-- About to look into memory again. -/
  | leading
  /-- About to ask the source. -/
  | loading
  /-- About to write the memory. -/
  | loaded (found : Option Class)
  /-- About to hand over and to let the call go. -/
  | settled (found : Option Class)
  | returned (found : Option Class)
deriving DecidableEq, Repr

structure Callers (ι : Type) where
  wanted : ι → String
  phase : ι → Phase ι
  /-- The leader of the call in flight for a name. -/
  flight : String → Option ι
  resolver : Resolver
  /-- The names that got as far as the source. -/
  passed : List String

structure Turn (ι : Type) where
  caller : ι
  source : Source

namespace Callers
variable {ι : Type} [DecidableEq ι]

def start (wanted : ι → String) : Callers ι :=
  { wanted, phase := fun _ => .calling, flight := fun _ => none, resolver := {}, passed := [] }

def memory (s : Callers ι) (name : String) : Option (Option Class) := s.resolver.cache.lookup name

def move (s : Callers ι) (i : ι) (p : Phase ι) : Callers ι := { s with phase := Function.update s.phase i p }

/-- The next step of a caller. One that waits for a leader who is not done stays where it is. -/
def step (s : Callers ι) (t : Turn ι) : Callers ι :=
  let i := t.caller
  let name := s.wanted i
  match s.phase i with
  | .calling =>
    if name = "" then s.move i (.returned none)
    else
      match s.memory name with
      | some found => { s.move i (.returned found) with resolver := { s.resolver with hits := s.resolver.hits + 1 } }
      | none => s.move i .missed
  | .missed =>
    match s.flight name with
    | some leader => s.move i (.waiting leader)
    | none => { s.move i .leading with flight := Function.update s.flight name (some i) }
  | .waiting leader =>
    match s.phase leader with
    | .returned found => s.move i (.returned found)
    | _ => s
  | .leading =>
    match s.memory name with
    | some found => s.move i (.settled found)
    | none => s.move i .loading
  | .loading =>
    let found := Resolver.load? t.source name
    { s.move i (.loaded found) with resolver := s.resolver.count found, passed := s.passed ++ [name] }
  | .loaded found => { s.move i (.settled found) with resolver := s.resolver.store name found }
  | .settled found => { s.move i (.returned found) with flight := Function.update s.flight name none }
  | .returned _ => s

def run (s : Callers ι) (turns : List (Turn ι)) : Callers ι := turns.foldl step s

theorem wanted_step (s : Callers ι) (t : Turn ι) : (s.step t).wanted = s.wanted := by
  unfold step
  cases s.phase t.caller <;> simp only <;> (repeat' split) <;> rfl

theorem wanted_run (s : Callers ι) (turns : List (Turn ι)) : (s.run turns).wanted = s.wanted := by
  induction turns generalizing s with
  | nil => rfl
  | cons t turns ih => exact (ih (s.step t)).trans (wanted_step s t)

/-! ## A caller by itself -/

/-- The steps of a caller whom nobody gets in the way amount to one question. -/
theorem run_alone (s : Callers ι) {i : ι} (hphase : s.phase i = .calling) (hfree : s.flight (s.wanted i) = none)
    (source : Source) :
    let t := s.run (List.replicate 6 ⟨i, source⟩)
    t.phase i = .returned (Resolver.resolve source (s.wanted i) s.resolver).1 ∧
      t.resolver = (Resolver.resolve source (s.wanted i) s.resolver).2 := by
  by_cases hname : s.wanted i = ""
  · simp [run, step, move, List.replicate, hphase, hname, Resolver.resolve_empty]
  · cases hcache : s.resolver.cache.lookup (s.wanted i) with
    | some found =>
      rw [Resolver.resolve_hit hname hcache]
      simp [run, step, move, memory, List.replicate, hphase, hname, hcache]
    | none =>
      rw [Resolver.resolve_miss hname hcache]
      simp [run, step, move, memory, List.replicate, hphase, hname, hcache, hfree]

/-! ## What every interleaving keeps -/

end Callers

namespace Phase
variable {ι : Type}

def Leads : Phase ι → Prop
  | leading | loading | loaded _ | settled _ => True
  | _ => False

def Joinable : Phase ι → Prop
  | returned _ => True
  | p => p.Leads

end Phase

namespace Callers
variable {ι : Type} {s s' : Callers ι} {i j : ι} {name : String}

/-- What a caller can rely on at each point. -/
def FitsAt (s : Callers ι) (i : ι) : Phase ι → Prop
  | .calling => True
  | .missed => s.wanted i ≠ ""
  | .waiting leader => s.wanted i ≠ "" ∧ s.wanted leader = s.wanted i ∧ (s.phase leader).Joinable
  | .leading =>
    s.wanted i ≠ "" ∧ s.flight (s.wanted i) = some i ∧ (s.wanted i ∈ s.passed → s.memory (s.wanted i) ≠ none)
  | .loading => s.wanted i ≠ "" ∧ s.flight (s.wanted i) = some i ∧ s.wanted i ∉ s.passed
  | .loaded _ =>
    s.wanted i ≠ "" ∧ s.flight (s.wanted i) = some i ∧ s.memory (s.wanted i) = none ∧ s.wanted i ∈ s.passed
  | .settled found => s.wanted i ≠ "" ∧ s.flight (s.wanted i) = some i ∧ s.memory (s.wanted i) = some found
  | .returned found => if s.wanted i = "" then found = none else s.memory (s.wanted i) = some found

structure Sound (s : Callers ι) : Prop where
  fits : ∀ i, s.FitsAt i (s.phase i)
  flying : ∀ name i, s.flight name = some i → s.wanted i = name ∧ (s.phase i).Leads
  once : s.passed.Nodup
  known : ∀ name, s.memory name ≠ none → name ∈ s.passed
  /-- What got as far as the source is in memory once its call is let go. -/
  kept : ∀ name ∈ s.passed, s.flight name = none → s.memory name ≠ none

theorem Sound.fitsAt (h : s.Sound) {p : Phase ι} (hp : s.phase i = p) : s.FitsAt i p := hp ▸ h.fits i

theorem FitsAt.flight {p : Phase ι} (h : s.FitsAt i p) (hlead : p.Leads) : s.flight (s.wanted i) = some i := by
  cases p with
  | leading | loading | loaded found | settled found => exact h.2.1
  | _ => exact hlead.elim

def SameFor (name : String) (s s' : Callers ι) : Prop :=
  s'.flight name = s.flight name ∧ s'.memory name = s.memory name ∧ (name ∈ s'.passed ↔ name ∈ s.passed)

theorem FitsAt.frame {p : Phase ι} (h : s.FitsAt j p) (hwanted : s'.wanted = s.wanted)
    (hjoin : ∀ l, (s.phase l).Joinable → (s'.phase l).Joinable)
    (hmemory : ∀ name found, s.memory name = some found → s'.memory name = some found)
    (hsame : p.Leads → SameFor (s.wanted j) s s') : s'.FitsAt j p := by
  cases p with
  | calling => trivial
  | missed => simpa only [FitsAt, hwanted] using h
  | waiting leader =>
    obtain ⟨hname, hleader, hready⟩ := h
    exact ⟨hwanted ▸ hname, by rw [hwanted, hleader], hjoin leader hready⟩
  | returned found =>
    simp only [FitsAt, hwanted] at h ⊢
    split at h
    · rwa [if_pos ‹_›]
    · rw [if_neg ‹_›]
      exact hmemory _ _ h
  | leading | loading | loaded found | settled found =>
    obtain ⟨hflight, hmem, hpassed⟩ := hsame trivial
    simpa only [FitsAt, hwanted, hflight, hmem, hpassed] using h

/-- A caller moves on, and all that changes besides is about the name it wants. -/
theorem Sound.advance (h : s.Sound) {p : Phase ι} (hwanted : s'.wanted = s.wanted) (hself : s'.phase i = p)
    (hphase : ∀ j, j ≠ i → s'.phase j = s.phase j) (hfit : s'.FitsAt i p) (hjoin : (s.phase i).Joinable → p.Joinable)
    (hothers : ∀ name, name ≠ s.wanted i → SameFor name s s')
    (hmine : ∀ j, j ≠ i → s.flight (s.wanted i) = some j → SameFor (s.wanted i) s s')
    (hmemory : ∀ found, s.memory (s.wanted i) = some found → s'.memory (s.wanted i) = some found)
    (hflying : ∀ j, s'.flight (s.wanted i) = some j → (j = i ∧ p.Leads) ∨ (j ≠ i ∧ s.flight (s.wanted i) = some j))
    (honce : s'.passed.Nodup) (hknown : s'.memory (s.wanted i) ≠ none → s.wanted i ∈ s'.passed)
    (hkept : s.wanted i ∈ s'.passed → s'.flight (s.wanted i) = none → s'.memory (s.wanted i) ≠ none) : s'.Sound := by
  refine ⟨fun j => ?_, fun name j hj => ?_, honce, fun name hn => ?_, fun name hn hfree => ?_⟩
  · by_cases hj : j = i
    · subst hj
      rwa [hself]
    · rw [hphase j hj]
      refine (h.fits j).frame hwanted (fun l hl => ?_) (fun name found hfound => ?_) fun hlead => ?_
      · by_cases hli : l = i
        · subst hli
          rw [hself]
          exact hjoin hl
        · exact hphase l hli ▸ hl
      · by_cases hname : name = s.wanted i
        · exact hname ▸ hmemory found (hname ▸ hfound)
        · rw [(hothers name hname).2.1, hfound]
      · by_cases hname : s.wanted j = s.wanted i
        · exact hname ▸ hmine j hj (hname ▸ (h.fits j).flight hlead)
        · exact hothers _ hname
  · by_cases hname : name = s.wanted i
    · subst hname
      rcases hflying j hj with ⟨rfl, hlead⟩ | ⟨hne, hold⟩
      · exact ⟨by rw [hwanted], hself ▸ hlead⟩
      · rw [hwanted, hphase j hne]
        exact h.flying _ j hold
    · rw [(hothers name hname).1] at hj
      obtain ⟨hj, hlead⟩ := h.flying name j hj
      have hne : j ≠ i := by rintro rfl; exact hname hj.symm
      rw [hwanted, hphase j hne]
      exact ⟨hj, hlead⟩
  · by_cases hname : name = s.wanted i
    · exact hname ▸ hknown (hname ▸ hn)
    · obtain ⟨-, hmem, hpassed⟩ := hothers name hname
      exact hpassed.mpr (h.known name (hmem ▸ hn))
  · by_cases hname : name = s.wanted i
    · subst hname
      exact hkept hn hfree
    · obtain ⟨hflight, hmem, hpassed⟩ := hothers name hname
      rw [hmem]
      exact h.kept name (hpassed.mp hn) (hflight ▸ hfree)

/-- Nobody but the leader holds the call for its name. -/
theorem flight_unique (hflight : s.flight name = some i) : ∀ j, j ≠ i → s.flight name = some j → False := by
  intro j hj hother
  rw [hflight] at hother
  exact hj (Option.some.inj hother).symm

theorem sound_start (wanted : ι → String) : (start wanted).Sound where
  fits _ := trivial
  flying _ _ h := by cases h
  once := List.nodup_nil
  known _ h := absurd rfl h
  kept _ h := by cases h

variable [DecidableEq ι]

/-- A caller moves on, and nothing changes besides but counts. -/
theorem Sound.move (h : s.Sound) {p : Phase ι} (hits : Nat) (hfit : (s.move i p).FitsAt i p)
    (hjoin : (s.phase i).Joinable → p.Joinable) (hlead : (s.phase i).Leads → p.Leads) :
    ({ s.move i p with resolver := { s.resolver with hits } } : Callers ι).Sound := by
  refine h.advance rfl (Function.update_self ..) (fun j hj => Function.update_of_ne hj ..) ?_ hjoin
    (fun _ _ => ⟨rfl, rfl, Iff.rfl⟩) (fun _ _ _ => ⟨rfl, rfl, Iff.rfl⟩) (fun _ hfound => hfound) (fun j hj => ?_)
    h.once (h.known _) (h.kept _)
  · exact hfit.frame rfl (fun _ hl => hl) (fun _ _ hfound => hfound) fun _ => ⟨rfl, rfl, Iff.rfl⟩
  · by_cases hji : j = i
    · exact .inl ⟨hji, hlead (hji ▸ (h.flying _ j hj).2)⟩
    · exact .inr ⟨hji, hj⟩

theorem Sound.step_calling (h : s.Sound) {t : Turn ι} (hp : s.phase t.caller = .calling) : (s.step t).Sound := by
  have hjoin : ∀ {q : Phase ι}, (s.phase t.caller).Joinable → q.Joinable := by rw [hp]; exact False.elim
  have hlead : ∀ {q : Phase ι}, (s.phase t.caller).Leads → q.Leads := by rw [hp]; exact False.elim
  by_cases hname : s.wanted t.caller = ""
  · simp only [step, hp, hname, if_true]
    exact h.move s.resolver.hits ((if_pos hname).mpr rfl) hjoin hlead
  · cases hmem : s.memory (s.wanted t.caller) with
    | some found =>
      simp only [step, hp, hname, if_false, hmem]
      exact h.move _ ((if_neg hname).mpr hmem) hjoin hlead
    | none =>
      simp only [step, hp, hname, if_false, hmem]
      exact h.move s.resolver.hits hname hjoin hlead

theorem Sound.step_missed (h : s.Sound) {t : Turn ι} (hp : s.phase t.caller = .missed) : (s.step t).Sound := by
  have hname : s.wanted t.caller ≠ "" := h.fitsAt hp
  cases hflight : s.flight (s.wanted t.caller) with
  | some leader =>
    obtain ⟨hwanted, hlead⟩ := h.flying _ leader hflight
    have hne : leader ≠ t.caller := by rintro rfl; rw [hp] at hlead; exact hlead
    simp only [step, hp, hflight]
    refine h.move s.resolver.hits ⟨hname, hwanted, ?_⟩ (by rw [hp]; exact False.elim) (by rw [hp]; exact False.elim)
    have hphase : (s.move t.caller (.waiting leader)).phase leader = s.phase leader := Function.update_of_ne hne ..
    rw [hphase]
    cases hl : s.phase leader <;> simp_all [Phase.Leads, Phase.Joinable]
  | none =>
    simp only [step, hp, hflight]
    refine h.advance rfl (Function.update_self ..) (fun j hj => Function.update_of_ne hj ..) ?_
      (by rw [hp]; exact False.elim) (fun name hne => ⟨Function.update_of_ne hne .., rfl, Iff.rfl⟩)
      (fun j _ hj => by rw [hflight] at hj; cases hj)
      (fun _ hfound => hfound) (fun j hj => ?_) h.once (h.known _) (fun _ hfree => ?_)
    · exact ⟨hname, Function.update_self .., fun hn => h.kept _ hn hflight⟩
    · cases (Function.update_self ..).symm.trans hj
      exact .inl ⟨rfl, trivial⟩
    · cases (Function.update_self ..).symm.trans hfree

theorem Sound.step_waiting (h : s.Sound) {t : Turn ι} {leader : ι} (hp : s.phase t.caller = .waiting leader) :
    (s.step t).Sound := by
  obtain ⟨hname, hwanted, -⟩ := h.fitsAt hp
  cases hl : s.phase leader with
  | returned found =>
    have hleader := h.fitsAt hl
    simp only [FitsAt, hwanted, hname, if_false] at hleader
    simp only [step, hp, hl]
    exact h.move s.resolver.hits ((if_neg hname).mpr hleader) (fun _ => trivial) (by rw [hp]; exact False.elim)
  | _ => simpa only [step, hp, hl] using h

theorem Sound.step_leading (h : s.Sound) {t : Turn ι} (hp : s.phase t.caller = .leading) : (s.step t).Sound := by
  obtain ⟨hname, hflight, hpassed⟩ := h.fitsAt hp
  cases hmem : s.memory (s.wanted t.caller) with
  | some found =>
    simp only [step, hp, hmem]
    exact h.move s.resolver.hits ⟨hname, hflight, hmem⟩ (fun _ => trivial) fun _ => trivial
  | none =>
    simp only [step, hp, hmem]
    exact h.move s.resolver.hits ⟨hname, hflight, fun hn => hpassed hn hmem⟩ (fun _ => trivial) fun _ => trivial

theorem Sound.step_loading (h : s.Sound) {t : Turn ι} (hp : s.phase t.caller = .loading) : (s.step t).Sound := by
  obtain ⟨hname, hflight, hnew⟩ := h.fitsAt hp
  have hmem : s.memory (s.wanted t.caller) = none := by
    by_contra hknown
    exact hnew (h.known _ hknown)
  have hcache : ∀ found name, (s.resolver.count found).cache.lookup name = s.memory name := fun found name => by
    rw [Resolver.cache_count, memory]
  simp only [step, hp]
  refine h.advance rfl (Function.update_self ..) (fun j hj => Function.update_of_ne hj ..) ?_ (fun _ => trivial)
    (fun name hne => ⟨rfl, hcache _ name, ?_⟩) (fun j hj hother => (flight_unique hflight j hj hother).elim)
    (fun found hfound => (hcache _ _).trans hfound) (fun j hj => ?_) ?_ (fun _ => by simp) (fun _ hfree => ?_)
  · exact ⟨hname, hflight, (hcache _ _).trans hmem, List.mem_append_right _ (List.mem_singleton_self _)⟩
  · simp [hne]
  · exact .inl ⟨by_contra fun hne => flight_unique hflight j hne hj, trivial⟩
  · refine List.nodup_append.mpr ⟨h.once, List.nodup_singleton _, fun a ha b hb => ?_⟩
    rintro rfl
    exact hnew (List.mem_singleton.mp hb ▸ ha)
  · cases hflight.symm.trans hfree

theorem Sound.step_loaded (h : s.Sound) {t : Turn ι} {found : Option Class} (hp : s.phase t.caller = .loaded found) :
    (s.step t).Sound := by
  obtain ⟨hname, hflight, hmem, hpassed⟩ := h.fitsAt hp
  have hself : (s.resolver.store (s.wanted t.caller) found).cache.lookup (s.wanted t.caller) = some found :=
    Resolver.lookup_store_self ..
  simp only [step, hp]
  refine h.advance rfl (Function.update_self ..) (fun j hj => Function.update_of_ne hj ..) ?_ (fun _ => trivial)
    (fun name hne => ⟨rfl, Resolver.lookup_store_of_ne _ _ _ hne, Iff.rfl⟩)
    (fun j hj hother => (flight_unique hflight j hj hother).elim)
    (fun found hfound => by rw [hmem] at hfound; cases hfound) (fun j hj => ?_) h.once (fun _ => hpassed)
    (fun _ hfree => ?_)
  · exact ⟨hname, hflight, hself⟩
  · exact .inl ⟨by_contra fun hne => flight_unique hflight j hne hj, trivial⟩
  · cases hflight.symm.trans hfree

theorem Sound.step_settled (h : s.Sound) {t : Turn ι} {found : Option Class} (hp : s.phase t.caller = .settled found) :
    (s.step t).Sound := by
  obtain ⟨hname, hflight, hmem⟩ := h.fitsAt hp
  simp only [step, hp]
  refine h.advance rfl (Function.update_self ..) (fun j hj => Function.update_of_ne hj ..) ((if_neg hname).mpr hmem)
    (fun _ => trivial) (fun name hne => ⟨Function.update_of_ne hne .., rfl, Iff.rfl⟩)
    (fun j hj hother => (flight_unique hflight j hj hother).elim) (fun _ hfound => hfound) (fun j hj => ?_) h.once
    (h.known _) (fun _ _ hnone => ?_)
  · cases (Function.update_self ..).symm.trans hj
  · cases hmem.symm.trans hnone

theorem Sound.step (h : s.Sound) (t : Turn ι) : (s.step t).Sound := by
  cases hp : s.phase t.caller with
  | calling => exact h.step_calling hp
  | missed => exact h.step_missed hp
  | waiting leader => exact h.step_waiting hp
  | leading => exact h.step_leading hp
  | loading => exact h.step_loading hp
  | loaded found => exact h.step_loaded hp
  | settled found => exact h.step_settled hp
  | returned found => simpa only [Callers.step, hp] using h

theorem Sound.run (h : s.Sound) (turns : List (Turn ι)) : (s.run turns).Sound := by
  induction turns generalizing s with
  | nil => exact h
  | cons t turns ih => exact ih (h.step t)

/-- Only a leader writes, and only a name that is not in memory. -/
theorem Sound.memory_step (h : s.Sound) (t : Turn ι) {found : Option Class} (hmem : s.memory name = some found) :
    (s.step t).memory name = some found := by
  cases hp : s.phase t.caller with
  | loaded other =>
    obtain ⟨-, -, hnone, -⟩ := h.fitsAt hp
    have hne : name ≠ s.wanted t.caller := by rintro rfl; rw [hnone] at hmem; cases hmem
    simp only [Callers.step, hp]
    exact (Resolver.lookup_store_of_ne _ _ _ hne).trans hmem
  | loading =>
    simp only [Callers.step, hp, memory, Resolver.cache_count]
    exact hmem
  | _ =>
    simp only [Callers.step, hp]
    (repeat' split) <;> exact hmem

theorem Sound.memory_run (h : s.Sound) (turns : List (Turn ι)) {found : Option Class} (hmem : s.memory name = some found) :
    (s.run turns).memory name = some found := by
  induction turns generalizing s with
  | nil => exact hmem
  | cons t turns ih => exact ih (h.step t) (h.memory_step t hmem)

/-- In every interleaving each name gets as far as the source at most once, what is in memory stays as it
was written, and callers for one name return the same, whenever they return. -/
theorem run_at_most_once (wanted : ι → String) (turns later : List (Turn ι)) :
    let s := run (start wanted) turns
    let s' := s.run later
    s'.passed.Nodup ∧
    (∀ name found, s.memory name = some found → s'.memory name = some found) ∧
    ∀ i j a b, wanted i = wanted j → s.phase i = .returned a → s'.phase j = .returned b → a = b := by
  intro s s'
  have hs : s.Sound := (sound_start wanted).run turns
  have hs' : s'.Sound := hs.run later
  have hretained : ∀ name found, s.memory name = some found → s'.memory name = some found :=
    fun _ _ hmem => hs.memory_run later hmem
  refine ⟨hs'.once, hretained, fun i j a b hij ha hb => ?_⟩
  have hwanted : s.wanted = wanted := wanted_run _ turns
  have hwanted' : s'.wanted = wanted := (wanted_run s later).trans hwanted
  have hfirst := hs.fitsAt ha
  have hsecond := hs'.fitsAt hb
  simp only [FitsAt, hwanted, hij] at hfirst
  simp only [FitsAt, hwanted'] at hsecond
  by_cases hname : wanted j = ""
  · rw [if_pos hname] at hfirst hsecond
    rw [hfirst, hsecond]
  · rw [if_neg hname] at hfirst hsecond
    exact Option.some.inj ((hretained _ _ hfirst).symm.trans hsecond)

def earlySource : Source := fun _ => .ok (some plainOrder)

def lateSource : Source := fun _ => .ok (some patchedOrder)

/-- The first caller misses the memory and is held up; the second one loads, the third one waits for it. -/
def heldUpTurns : List (Turn (Fin 3)) :=
  ([0, 1, 1, 2, 2, 1, 1, 1, 1, 2] : List (Fin 3)).map (⟨·, earlySource⟩)

/-- The first caller leads a call of its own when the others have returned. -/
theorem run_at_most_once_heldUp :
    let s := run (start fun _ : Fin 3 => "a/Order") heldUpTurns
    let s' := s.run (List.replicate 3 ⟨0, lateSource⟩)
    s.phase 0 = .missed ∧ s.phase 2 = .returned (some plainOrder) ∧
      s'.phase 0 = .returned (some plainOrder) ∧ s'.passed = ["a/Order"] ∧ s'.passed.Nodup := by
  intro s s'
  have hwaited : s.phase 2 = .returned (some plainOrder) := by decide +kernel
  obtain ⟨b, hled⟩ : ∃ b, s'.phase 0 = .returned b := ⟨some plainOrder, by decide +kernel⟩
  obtain ⟨honce, -, hsame⟩ := run_at_most_once (fun _ : Fin 3 => "a/Order") heldUpTurns (List.replicate 3 ⟨0, lateSource⟩)
  refine ⟨by decide +kernel, hwaited, ?_, by decide +kernel, honce⟩
  rw [hsame 2 0 _ b rfl hwaited hled]
  exact hled

end Callers

end JvmLint
