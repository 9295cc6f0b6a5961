import JvmLint.Proofs.WatchedInputs
import JvmLint.Watch.Session

/-!
# Sessions that follow each other

Starts, stops, tokens that are given up and the waiters for them come between each other in any order. A
session that began goes on until it is stopped or its own token is given up, unless it is disturbed: the waiter
of another start and another start that fails end whatever session there is. Nobody is left to do that if all
starts before had come to their end, waiters included.
-/

namespace JvmLint

inductive StartPhase where
  /-- It has the session, and has to analyze and to open a watcher. -/
  | preparing (req : RunRequest)
  | ready (w : Watcher)
  | failing (e : Fault)
  | begun
  | refused (e : Fault)

def StartPhase.isOver : StartPhase → Bool
  | begun | refused _ => true
  | _ => false

/-- What can happen next. A start goes on by its token; one that is not ready for a step stays as it is. -/
inductive ServiceStep where
  | start (req : RunRequest)
  | prepare (t : Nat)
  | attach (t : Nat)
  | quit (t : Nat)
  | stop
  | giveUp (t : Nat)
  | awake (t : Nat)
  | change (c : FileChange)

structure Service where
  session : Session
  /-- The starts so far. The token of a start is its place. -/
  starts : List StartPhase := []
  /-- The starts whose watchers are open. -/
  watching : List Nat := []

namespace Service

def others (v : Service) : List Nat := v.watching.filter fun t => v.session.holder != some t

def step [GlobLibrary] (v : Service) : ServiceStep → Service
  | .start req =>
    match v.session.claim v.starts.length req with
    | .ok s => { v with session := s, starts := v.starts ++ [.preparing req] }
    | .error e => { v with starts := v.starts ++ [.refused e] }
  | .prepare t =>
    match v.starts[t]? with
    | some (.preparing req) =>
      match v.session.prepare req with
      | (.ok w, s) => { v with session := s, starts := v.starts.set t (.ready w) }
      | (.error e, s) => { v with session := s, starts := v.starts.set t (.failing e) }
    | _ => v
  | .attach t =>
    match v.starts[t]? with
    | some (.ready w) =>
      { session := v.session.attach t w, starts := v.starts.set t .begun, watching := t :: v.watching }
    | _ => v
  | .quit t =>
    match v.starts[t]? with
    | some (.failing e) => { v with session := v.session.quit, starts := v.starts.set t (.refused e) }
    | _ => v
  | .stop => { v with session := v.session.stop, watching := v.others }
  | .giveUp t => { v with session := v.session.giveUp t }
  | .awake t =>
    if v.session.waiters.contains t && v.session.givenUp.contains t then
      { v with session := v.session.awake t, watching := v.others }
    else v
  | .change c => { v with session := v.session.change c }

def run [GlobLibrary] (v : Service) (steps : List ServiceStep) : Service := steps.foldl step v

/-- The session of a start is running and its watcher is open. -/
def Alive (v : Service) (t : Nat) : Prop := v.session.running = true ∧ t ∈ v.watching

/-- A step by which somebody else ends the session of a start. -/
def Disturbs (v : Service) (t : Nat) : ServiceStep → Prop
  | .awake u => u ≠ t ∧ u ∈ v.session.waiters ∧ u ∈ v.session.givenUp
  | .quit u => u ≠ t ∧ ∃ e, v.starts[u]? = some (.failing e)
  | _ => False

/-- All starts have come to their end, and nobody waits. -/
structure Quiet (v : Service) : Prop where
  waiters : v.session.waiters = []
  ended : ∀ p ∈ v.starts, p.isOver = true

end Service

/-! ## What analyses leave alone -/

namespace Session

structure SameUse (s s' : Session) : Prop where
  running : s'.running = s.running
  waiters : s'.waiters = s.waiters
  givenUp : s'.givenUp = s.givenUp

theorem SameUse.refl (s : Session) : SameUse s s := ⟨rfl, rfl, rfl⟩

theorem SameUse.trans {s₁ s₂ s₃ : Session} (h₁ : SameUse s₁ s₂) (h₂ : SameUse s₂ s₃) : SameUse s₁ s₃ :=
  ⟨h₂.running.trans h₁.running, h₂.waiters.trans h₁.waiters, h₂.givenUp.trans h₁.givenUp⟩

theorem sameUse_analyze [GlobLibrary] (s : Session) (changed : List String) : SameUse s (s.analyze changed) := by
  unfold analyze
  split
  · exact .refl s
  · split
    · exact .refl s
    · exact ⟨rfl, rfl, rfl⟩

theorem sameUse_prepare [GlobLibrary] (s : Session) (req : RunRequest) : SameUse s (s.prepare req).2 := by
  unfold prepare
  dsimp only
  split
  · exact .refl s
  · split
    · exact sameUse_analyze s []
    · exact sameUse_analyze s []

theorem sameUse_reload [GlobLibrary] (s : Session) (c : Config) : SameUse s (s.reload c) := by
  unfold reload
  split
  · rename_i app _
    have hanalyze := sameUse_analyze { s with app } [app.configPath]
    exact ⟨hanalyze.running, hanalyze.waiters, hanalyze.givenUp⟩
  · exact ⟨rfl, rfl, rfl⟩

theorem sameUse_foldl_analyze [GlobLibrary] (s : Session) (batches : List (List String)) :
    SameUse s (batches.foldl analyze s) := by
  induction batches generalizing s with
  | nil => exact .refl s
  | cons batch batches ih => exact (sameUse_analyze s batch).trans (ih _)

theorem sameUse_deliver [GlobLibrary] (s : Session) : SameUse s s.deliver := by
  unfold deliver
  split
  · exact .refl s
  · rename_i w _
    dsimp only
    have hanalyze := sameUse_foldl_analyze { s with watcher := some { w with batching := w.batching.flush.drain.2 } }
      w.batching.flush.drain.1
    exact ⟨hanalyze.running, hanalyze.waiters, hanalyze.givenUp⟩

theorem sameUse_change [GlobLibrary] (s : Session) (c : FileChange) : SameUse s (s.change c) := by
  unfold change
  extract_lets f watcher config machine told delivered
  have htold : SameUse s told := ⟨rfl, rfl, rfl⟩
  have hdeliver : SameUse s delivered := htold.trans (sameUse_deliver told)
  clear_value delivered config
  split
  · split
    · exact hdeliver.trans (sameUse_reload _ _)
    · exact hdeliver
  · exact hdeliver

end Session

/-! ## What a step does -/

inductive Acts (v : Service) : ServiceStep → Service → Prop where
  | idle {x : ServiceStep} {v' : Service} (use : v.session.SameUse v'.session) (starts : v'.starts = v.starts)
    (watching : v'.watching = v.watching) : Acts v x v'
  | enter {req : RunRequest} (free : v.session.running = false) :
    Acts v (.start req)
      { v with session := { v.session with running := true, token := some v.starts.length, request := req }
               starts := v.starts ++ [.preparing req] }
  | refuse {req : RunRequest} {e : Fault} (busy : v.session.running = true) :
    Acts v (.start req) { v with starts := v.starts ++ [.refused e] }
  | prepare {t : Nat} {req : RunRequest} {p : StartPhase} {s : Session} (phase : v.starts[t]? = some (.preparing req))
    (open_ : p.isOver = false) (use : v.session.SameUse s) :
    Acts v (.prepare t) { v with session := s, starts := v.starts.set t p }
  | attach {t : Nat} {w : Watcher} (phase : v.starts[t]? = some (.ready w)) :
    Acts v (.attach t)
      { session := v.session.attach t w, starts := v.starts.set t .begun, watching := t :: v.watching }
  | quit {t : Nat} {e : Fault} (phase : v.starts[t]? = some (.failing e)) :
    Acts v (.quit t) { v with session := v.session.quit, starts := v.starts.set t (.refused e) }
  | stop : Acts v .stop { v with session := v.session.stop, watching := v.others }
  | giveUp (t : Nat) : Acts v (.giveUp t) { v with session := v.session.giveUp t }
  | awake {t : Nat} (waits : t ∈ v.session.waiters) (gone : t ∈ v.session.givenUp) :
    Acts v (.awake t)
      { v with session := { v.session.stop with waiters := v.session.waiters.erase t }, watching := v.others }

namespace Service

theorem acts [GlobLibrary] (v : Service) (x : ServiceStep) : Acts v x (v.step x) := by
  cases x with
  | start req =>
    simp only [step, Session.claim]
    cases hrunning : v.session.running with
    | true => exact .refuse hrunning
    | false => exact .enter hrunning
  | prepare t =>
    simp only [step]
    split
    · rename_i req hphase
      have huse := v.session.sameUse_prepare req
      split
      · rename_i w s hprepare
        rw [hprepare] at huse
        exact .prepare hphase rfl huse
      · rename_i e s hprepare
        rw [hprepare] at huse
        exact .prepare hphase rfl huse
    · exact .idle (.refl _) rfl rfl
  | attach t =>
    simp only [step]
    split
    · exact .attach ‹_›
    · exact .idle (.refl _) rfl rfl
  | quit t =>
    simp only [step]
    split
    · exact .quit ‹_›
    · exact .idle (.refl _) rfl rfl
  | stop => exact .stop
  | giveUp t => exact .giveUp t
  | awake t =>
    simp only [step, Session.awake]
    by_cases hgone : (v.session.waiters.contains t && v.session.givenUp.contains t) = true
    · rw [if_pos hgone, if_pos hgone]
      simp only [Bool.and_eq_true, List.contains_iff_mem] at hgone
      exact .awake hgone.1 hgone.2
    · rw [if_neg hgone]
      exact .idle (.refl _) rfl rfl
  | change c => exact .idle (v.session.sameUse_change c) rfl rfl

theorem run_append [GlobLibrary] (v : Service) (l₁ l₂ : List ServiceStep) :
    v.run (l₁ ++ l₂) = (v.run l₁).run l₂ := List.foldl_append

theorem session_run_awake [GlobLibrary] (v : Service) (ts : List Nat) :
    (v.run (ts.map .awake)).session = ts.foldl Session.awake v.session ∧ (v.run (ts.map .awake)).starts = v.starts := by
  induction ts generalizing v with
  | nil => exact ⟨rfl, rfl⟩
  | cons t ts ih =>
    have hstep : (v.step (.awake t)).session = v.session.awake t ∧ (v.step (.awake t)).starts = v.starts := by
      simp only [step, Session.awake]
      split <;> exact ⟨rfl, rfl⟩
    obtain ⟨hsession, hstarts⟩ := ih (v.step (.awake t))
    exact ⟨hsession.trans (by rw [hstep.1]; rfl), hstarts.trans hstep.2⟩

/-- The steps of a start in a row, with the waiters in between and nobody else around, are the start. -/
theorem session_run_start [GlobLibrary] (v : Service) (req : RunRequest) (hfree : v.session.running = false) :
    (v.run (.start req :: (v.session.waiters.map .awake ++
        [.prepare v.starts.length, .attach v.starts.length, .quit v.starts.length]))).session =
      (v.session.start v.starts.length req).2 := by
  let s : Session := { v.session with running := true, token := some v.starts.length, request := req }
  have hclaim : v.session.claim v.starts.length req = .ok s := by simp [Session.claim, hfree, s]
  have hstart : v.step (.start req) = { v with session := s, starts := v.starts ++ [.preparing req] } := by
    simp only [step, hclaim]
  obtain ⟨hsession, hstarts⟩ := session_run_awake (v.step (.start req)) v.session.waiters
  rw [hstart] at hsession hstarts
  have hsettle : v.session.waiters.foldl Session.awake s = s.settle := rfl
  rw [hsettle] at hsession
  rw [run, List.foldl_cons, ← run, hstart, run_append]
  generalize run _ (v.session.waiters.map .awake) = v' at hsession hstarts ⊢
  simp only [run, List.foldl_cons, List.foldl_nil, Session.start, hclaim]
  cases hprepare : s.settle.prepare req with
  | mk outcome s' =>
    cases outcome with
    | error e => simp [step, hsession, hstarts, hprepare]
    | ok w => simp [step, hsession, hstarts, hprepare]

/-! ## A session that is left alone -/

variable {v v' : Service} {t : Nat} {x : ServiceStep}

def IsRefused (v : Service) (t : Nat) : Prop := ∃ e, v.starts[t]? = some (.refused e)

structure Kept (v : Service) (t : Nat) : Prop where
  phase : ∃ p, v.starts[t]? = some p
  begun : v.starts[t]? = some .begun → t ∈ v.watching
  running : v.session.running = true
  token : t ∉ v.session.givenUp

structure Alone (v : Service) (t : Nat) : Prop where
  waiters : ∀ u ∈ v.session.waiters, u = t
  ended : ∀ u p, v.starts[u]? = some p → p.isOver = false → u = t

theorem phase_append {p : StartPhase} (h : v.starts[t]? = some p) (q : StartPhase) :
    (v.starts ++ [q])[t]? = some p := by
  obtain ⟨ht, -⟩ := List.getElem?_eq_some_iff.1 h
  rw [List.getElem?_append_left ht, h]

theorem phase_set {u : Nat} {p : StartPhase} (h : v.starts[u]? = some p) (q : StartPhase) (t : Nat) :
    (v.starts.set u q)[t]? = if u = t then some q else v.starts[t]? := by
  obtain ⟨hu, -⟩ := List.getElem?_eq_some_iff.1 h
  rw [List.getElem?_set, if_pos hu]

theorem IsRefused.acts (h : IsRefused v t) (ha : Acts v x v') : IsRefused v' t := by
  obtain ⟨e, he⟩ := h
  have hother : ∀ u p q, v.starts[u]? = some p → p ≠ .refused e → (v.starts.set u q)[t]? = some (.refused e) := by
    intro u p q hp hne
    by_cases hu : u = t
    · subst hu
      exact absurd (Option.some.inj (hp.symm.trans he)) hne
    · rw [phase_set hp, if_neg hu, he]
  cases ha with
  | idle huse hstarts hwatching => exact ⟨e, hstarts ▸ he⟩
  | enter hfree => exact ⟨e, phase_append he _⟩
  | refuse hbusy => exact ⟨e, phase_append he _⟩
  | prepare hphase hopen huse => exact ⟨e, hother _ _ _ hphase (by simp)⟩
  | attach hphase => exact ⟨e, hother _ _ _ hphase (by simp)⟩
  | quit hphase => exact ⟨e, hother _ _ _ hphase (by simp)⟩
  | stop => exact ⟨e, he⟩
  | giveUp u => exact ⟨e, he⟩
  | awake hwaits hgone => exact ⟨e, he⟩

/-- A start keeps the session through every step but a stop, its own token being given up, and what
disturbs it. -/
theorem Kept.acts (h : Kept v t) (ha : Acts v x v') (hstop : x ≠ .stop) (hgive : x ≠ .giveUp t)
    (hcalm : ¬ v.Disturbs t x) : IsRefused v' t ∨ Kept v' t := by
  obtain ⟨p, hp⟩ := h.phase
  have hphase_set : ∀ u p' q, v.starts[u]? = some p' → ∃ p, (v.starts.set u q)[t]? = some p := by
    intro u p' q hp'
    rw [phase_set hp']
    by_cases hu : u = t
    · exact ⟨q, if_pos hu⟩
    · exact ⟨p, by rw [if_neg hu, hp]⟩
  cases ha with
  | idle huse hstarts hwatching =>
    refine .inr ⟨⟨p, hstarts ▸ hp⟩, ?_, huse.running.trans h.running, huse.givenUp ▸ h.token⟩
    rw [hstarts, hwatching]
    exact h.begun
  | enter hfree =>
    rw [h.running] at hfree
    cases hfree
  | refuse hbusy =>
    refine .inr ⟨⟨p, phase_append hp _⟩, ?_, h.running, h.token⟩
    rw [phase_append hp, ← hp]
    exact h.begun
  | @prepare u req q s hphase hopen huse =>
    refine .inr ⟨hphase_set u _ q hphase, fun hbegun => ?_, huse.running.trans h.running, huse.givenUp ▸ h.token⟩
    rw [phase_set hphase] at hbegun
    by_cases hu : u = t
    · rw [if_pos hu] at hbegun
      cases hbegun
      cases hopen
    · rw [if_neg hu] at hbegun
      exact h.begun hbegun
  | @attach u w hphase =>
    refine .inr ⟨hphase_set u _ _ hphase, fun hbegun => ?_, h.running, h.token⟩
    rw [phase_set hphase] at hbegun
    by_cases hu : u = t
    · subst hu
      exact List.mem_cons_self
    · rw [if_neg hu] at hbegun
      exact List.mem_cons_of_mem _ (h.begun hbegun)
  | @quit u e hphase =>
    by_cases hu : u = t
    · exact .inl ⟨e, by rw [phase_set hphase, if_pos hu]⟩
    · exact absurd ⟨hu, e, hphase⟩ hcalm
  | stop => exact absurd rfl hstop
  | giveUp u =>
    refine .inr ⟨⟨p, hp⟩, h.begun, h.running, fun hmem => ?_⟩
    rcases List.mem_cons.1 hmem with rfl | hmem
    · exact hgive rfl
    · exact h.token hmem
  | @awake u hwaits hgone =>
    have hu : u ≠ t := by
      intro hu
      exact h.token (hu ▸ hgone)
    exact absurd ⟨hu, hwaits, hgone⟩ hcalm

theorem Alone.acts (h : Alone v t) (hbusy : v.session.running = true) (ha : Acts v x v') : Alone v' t := by
  -- the only start that can go on is this one
  have hset : ∀ u p q, v.starts[u]? = some p → p.isOver = false →
      ∀ u' p', (v.starts.set u q)[u']? = some p' → p'.isOver = false → u' = t := by
    intro u p q hp hopen u' p' hp' hopen'
    rw [phase_set hp] at hp'
    by_cases hu : u = u'
    · exact hu.symm.trans (h.ended u p hp hopen)
    · rw [if_neg hu] at hp'
      exact h.ended u' p' hp' hopen'
  cases ha with
  | idle huse hstarts hwatching => exact ⟨huse.waiters ▸ h.waiters, hstarts ▸ h.ended⟩
  | enter hfree =>
    rw [hbusy] at hfree
    cases hfree
  | refuse _ =>
    refine ⟨h.waiters, fun u p hp hopen => ?_⟩
    by_cases hu : u < v.starts.length
    · rw [List.getElem?_append_left hu] at hp
      exact h.ended u p hp hopen
    · rw [List.getElem?_append_right (by omega)] at hp
      obtain rfl := List.mem_singleton.1 (List.mem_of_getElem? hp)
      cases hopen
  | prepare hphase hopen huse => exact ⟨huse.waiters ▸ h.waiters, hset _ _ _ hphase rfl⟩
  | @attach u w hphase =>
    refine ⟨fun u' hu' => ?_, hset _ _ _ hphase rfl⟩
    rcases List.mem_append.1 hu' with hu' | hu'
    · exact h.waiters u' hu'
    · obtain rfl := List.mem_singleton.1 hu'
      exact h.ended u' _ hphase rfl
  | quit hphase => exact ⟨h.waiters, hset _ _ _ hphase rfl⟩
  | stop => exact ⟨h.waiters, h.ended⟩
  | giveUp u => exact ⟨h.waiters, h.ended⟩
  | awake hwaits hgone => exact ⟨fun u hu => h.waiters u (List.mem_of_mem_erase hu), h.ended⟩

theorem Alone.calm (h : Alone v t) : ¬ v.Disturbs t x := by
  intro hdisturbs
  cases x with
  | awake u => exact hdisturbs.1 (h.waiters u hdisturbs.2.1)
  | quit u =>
    obtain ⟨hne, e, hphase⟩ := hdisturbs
    exact hne (h.ended u _ hphase rfl)
  | _ => exact hdisturbs

/-! ## Whole runs -/

theorem running_of_disturbs [GlobLibrary] (h : v.Disturbs t x) : (v.step x).session.running = false := by
  cases x with
  | awake u =>
    have hgone : (v.session.waiters.contains u && v.session.givenUp.contains u) = true := by simpa using h.2
    simp only [step, Session.awake, if_pos hgone]
    rfl
  | quit u =>
    obtain ⟨-, e, hphase⟩ := h
    simp only [step, hphase]
    rfl
  | _ => exact absurd h id

variable {steps : List ServiceStep}

theorem IsRefused.run [GlobLibrary] (h : IsRefused v t) : IsRefused (v.run steps) t := by
  induction steps generalizing v with
  | nil => exact h
  | cons x steps ih => exact ih (h.acts (v.acts x))

/-- A start keeps the session to the end of a run, if neither it is stopped nor its token given up, or it is
disturbed at some point. -/
theorem Kept.run [GlobLibrary] (h : Kept v t) (hstop : .stop ∉ steps) (hgive : .giveUp t ∉ steps) :
    (IsRefused (v.run steps) t ∨ Kept (v.run steps) t) ∨
    ∃ l₁ x l₂, steps = l₁ ++ x :: l₂ ∧ (v.run l₁).Disturbs t x := by
  induction steps generalizing v with
  | nil => exact .inl (.inr h)
  | cons x steps ih =>
    obtain ⟨hstop, hstops⟩ := not_or.1 (List.mem_cons.not.1 hstop)
    obtain ⟨hgive, hgives⟩ := not_or.1 (List.mem_cons.not.1 hgive)
    by_cases hdisturbs : v.Disturbs t x
    · exact .inr ⟨[], x, steps, rfl, hdisturbs⟩
    rcases h.acts (v.acts x) (Ne.symm hstop) (Ne.symm hgive) hdisturbs with hrefused | hkept
    · exact .inl (.inl hrefused.run)
    · rcases ih hkept hstops hgives with hend | ⟨l₁, y, l₂, rfl, hlater⟩
      · exact .inl hend
      · exact .inr ⟨x :: l₁, y, l₂, rfl, hlater⟩

theorem Alone.run [GlobLibrary] (h : Alone v t) (hkept : Kept v t) (hstop : .stop ∉ steps)
    (hgive : .giveUp t ∉ steps) :
    IsRefused (v.run steps) t ∨ Kept (v.run steps) t := by
  induction steps generalizing v with
  | nil => exact .inr hkept
  | cons x steps ih =>
    obtain ⟨hstop, hstops⟩ := not_or.1 (List.mem_cons.not.1 hstop)
    obtain ⟨hgive, hgives⟩ := not_or.1 (List.mem_cons.not.1 hgive)
    have ha := v.acts x
    rcases hkept.acts ha (Ne.symm hstop) (Ne.symm hgive) h.calm with hrefused | hnext
    · exact .inl hrefused.run
    · exact ih (h.acts hkept.running ha) hnext hstops hgives

theorem kept_start [GlobLibrary] (hfree : v.session.running = false)
    (htoken : v.starts.length ∉ v.session.givenUp) (req : RunRequest) :
    Kept (v.step (.start req)) v.starts.length := by
  have hphase : (v.step (.start req)).starts[v.starts.length]? = some (.preparing req) := by
    simp [step, Session.claim, hfree]
  refine ⟨⟨_, hphase⟩, fun hbegun => ?_, by simp [step, Session.claim, hfree], by simpa [step, Session.claim, hfree] using htoken⟩
  simp [hphase] at hbegun

theorem Quiet.alone_start [GlobLibrary] (h : v.Quiet) (hfree : v.session.running = false) (req : RunRequest) :
    Alone (v.step (.start req)) v.starts.length := by
  have hstarts : (v.step (.start req)).starts = v.starts ++ [.preparing req] := by simp [step, Session.claim, hfree]
  refine ⟨by simp [step, Session.claim, hfree, h.waiters], fun u p hp hopen => ?_⟩
  rw [hstarts] at hp
  by_cases hu : u < v.starts.length
  · rw [List.getElem?_append_left hu] at hp
    have hover := h.ended p (List.mem_of_getElem? hp)
    simp [hover] at hopen
  · obtain ⟨hlength, -⟩ := List.getElem?_eq_some_iff.1 hp
    simp at hlength
    omega

theorem Kept.alive (h : IsRefused v t ∨ Kept v t) (hbegun : v.starts[t]? = some .begun) : v.Alive t := by
  rcases h with ⟨e, he⟩ | hkept
  · simp [hbegun] at he
  · exact ⟨hkept.running, hkept.begun hbegun⟩

end Service

/-! ## A directory of outputs -/

def outputService : Service :=
  { session := { app := { settings := { Settings.initial none with config := { exclude := { files := outputPatterns } } } }
                 machine := { files := outputTree } } }

def outputRequest : RunRequest := { paths := ["out"] }

theorem App.run_unsaved [GlobLibrary] {a : App} {req : RunRequest} (m : Machine) (cancelled : Bool)
    (hsave : req.save = false)
    (hdb : a.settings.config.db.enabled = false) :
    (a.run m cancelled req).2.1 = a ∧ (a.run m cancelled req).2.2.files = m.files := by
  unfold App.run
  split
  · exact ⟨rfl, rfl⟩
  · dsimp only
    split
    · exact ⟨rfl, rfl⟩
    · rw [hsave, hdb]
      exact ⟨rfl, rfl⟩

namespace Session

structure OnOutputs (s : Session) : Prop where
  exclude : s.app.settings.config.exclude.files = outputPatterns
  unsaved : s.app.settings.config.db.enabled = false
  files : s.machine.files = outputTree

variable {s : Session}

theorem OnOutputs.analyze [GlobLibrary] (h : s.OnOutputs) (hrequest : s.request = outputRequest)
    (changed : List String) :
    (s.analyze changed).OnOutputs := by
  unfold Session.analyze
  split
  · exact h
  · split
    · exact h
    · have hsave : s.request.save = false := by rw [hrequest]; rfl
      obtain ⟨happ, hfiles⟩ := App.run_unsaved s.machine false hsave h.unsaved
      dsimp only
      refine ⟨?_, ?_, hfiles.trans h.files⟩
      · rw [happ]
        exact h.exclude
      · rw [happ]
        exact h.unsaved

theorem OnOutputs.prepare (h : s.OnOutputs) (hrequest : s.request = outputRequest) :
    ∃ w, s.prepare outputRequest = (.ok w, s.analyze []) := by
  obtain ⟨w, hw⟩ := start_outputTree (.inl rfl)
  refine ⟨{ w with batching := .limited s.app.settings.config.watch.maxRate s.app.settings.config.watch.burst }, ?_⟩
  unfold Session.prepare
  have hroots : orElseList outputRequest.paths s.app.settings.config.inputs = ["out"] := rfl
  simp only [hroots, h.exclude, h.files, (h.analyze hrequest []).files, hw]
  rfl

theorem OnOutputs.foldl_awake (h : s.OnOutputs) (ts : List Nat) :
    (ts.foldl awake s).OnOutputs ∧ (ts.foldl awake s).request = s.request ∧ (ts.foldl awake s).givenUp = s.givenUp := by
  induction ts generalizing s with
  | nil => exact ⟨h, rfl, rfl⟩
  | cons t ts ih =>
    have hstep : (s.awake t).OnOutputs ∧ (s.awake t).request = s.request ∧ (s.awake t).givenUp = s.givenUp := by
      unfold awake
      split
      · exact ⟨⟨h.exclude, h.unsaved, h.files⟩, rfl, rfl⟩
      · exact ⟨h, rfl, rfl⟩
    obtain ⟨hon, hrequest, hgiven⟩ := ih hstep.1
    exact ⟨hon, hrequest.trans hstep.2.1, hgiven.trans hstep.2.2⟩

/-- A start over the directory of outputs succeeds, whoever goes off while it analyzes. -/
theorem OnOutputs.start (h : s.OnOutputs) (hfree : s.running = false) (t : Nat) :
    ∃ s', s.start t outputRequest = (.ok (), s') ∧ s'.OnOutputs ∧ s'.givenUp = s.givenUp ∧
      let taken : Session := { s with running := true, token := some t, request := outputRequest }
      s'.running = taken.settle.running ∧ s'.waiters = taken.settle.waiters ++ [t] := by
  let taken : Session := { s with running := true, token := some t, request := outputRequest }
  have htaken : taken.OnOutputs := ⟨h.exclude, h.unsaved, h.files⟩
  obtain ⟨hsettled, hrequest, hgiven⟩ := htaken.foldl_awake taken.waiters
  obtain ⟨w, hw⟩ := hsettled.prepare hrequest
  have hon := hsettled.analyze hrequest []
  have huse := sameUse_analyze taken.settle []
  refine ⟨(taken.settle.analyze []).attach t w, ?_, ⟨hon.exclude, hon.unsaved, hon.files⟩, huse.givenUp.trans hgiven,
    huse.running, congrArg (· ++ [t]) huse.waiters⟩
  have hclaim : s.claim t outputRequest = .ok taken := by simp [claim, hfree, taken]
  have hprepare : taken.settle.prepare outputRequest = (.ok w, taken.settle.analyze []) := hw
  simp only [Session.start, hclaim, hprepare]

end Session

namespace Service

variable {v : Service}

def begin (t : Nat) : List ServiceStep := [.start outputRequest, .prepare t, .attach t]

/-- A start over the directory of outputs succeeds. -/
theorem run_begin {t : Nat} (h : v.session.OnOutputs) (hfree : v.session.running = false) (ht : v.starts.length = t) :
    ∃ s : Session,
      v.run (begin t) = { session := s, starts := v.starts ++ [.begun], watching := t :: v.watching } ∧
      s.OnOutputs ∧ s.running = true ∧ s.waiters = v.session.waiters ++ [t] ∧ s.givenUp = v.session.givenUp := by
  subst ht
  let s : Session := { v.session with running := true, token := some v.starts.length, request := outputRequest }
  have hs : s.OnOutputs := ⟨h.exclude, h.unsaved, h.files⟩
  obtain ⟨w, hw⟩ := hs.prepare rfl
  have hstart : v.step (.start outputRequest) = { v with session := s, starts := v.starts ++ [.preparing outputRequest] } := by
    simp [step, Session.claim, hfree, s]
  have hprepare : (v.step (.start outputRequest)).step (.prepare v.starts.length) =
      { v with session := s.analyze [], starts := v.starts ++ [.ready w] } := by
    rw [hstart]
    simp [step, hw]
  have huse := s.sameUse_analyze []
  have hon := hs.analyze rfl []
  refine ⟨(s.analyze []).attach v.starts.length w, ?_, ⟨hon.exclude, hon.unsaved, hon.files⟩, huse.running, ?_, huse.givenUp⟩
  · simp only [run, begin, List.foldl_cons, List.foldl_nil, hprepare]
    simp [step]
  · simp [Session.attach, huse.waiters, s]

theorem run_begin_outputService :
    ∃ s : Session, outputService.run (begin 0) = { session := s, starts := [.begun], watching := [0] } ∧
      s.OnOutputs ∧ s.waiters = [0] ∧ s.givenUp = [] := by
  obtain ⟨s, hrun, hon, -, hwaiters, hgiven⟩ := run_begin (v := outputService) (t := 0) ⟨rfl, rfl, rfl⟩ rfl rfl
  exact ⟨s, hrun, hon, hwaiters, hgiven⟩

/-! ## How sessions end -/

/-- A start takes the session when nobody has it. If it succeeds, and neither somebody stops the session nor its
token is given up, the session is alive, or it was disturbed on the way: the waiter of another start went off or
another start failed, and that ended it. If at the time of the start all others had come to their end and nobody
waited, it is alive in any case. -/
theorem session_ends [GlobLibrary] (v : Service) (req : RunRequest) (steps : List ServiceStep)
    (hfree : v.session.running = false)
    (htoken : v.starts.length ∉ v.session.givenUp) (hstop : .stop ∉ steps) (hgive : .giveUp v.starts.length ∉ steps)
    (hbegun : ((v.step (.start req)).run steps).starts[v.starts.length]? = some .begun) :
    (((v.step (.start req)).run steps).Alive v.starts.length ∨
      ∃ l₁ x l₂, steps = l₁ ++ x :: l₂ ∧ ((v.step (.start req)).run l₁).Disturbs v.starts.length x ∧
        (((v.step (.start req)).run l₁).step x).session.running = false) ∧
    (v.Quiet → ((v.step (.start req)).run steps).Alive v.starts.length) := by
  have hkept := kept_start hfree htoken req
  constructor
  · rcases hkept.run hstop hgive with hend | ⟨l₁, x, l₂, hsteps, hdisturbs⟩
    · exact .inl (Kept.alive hend hbegun)
    · exact .inr ⟨l₁, x, l₂, hsteps, hdisturbs, running_of_disturbs hdisturbs⟩
  · intro hquiet
    exact Kept.alive ((hquiet.alone_start hfree req).run hkept hstop hgive) hbegun

theorem session_ends_outputService :
    outputService.Quiet ∧
    (outputService.run (begin 0 ++ [.giveUp 1, .awake 1])).starts[0]? = some .begun ∧
    (outputService.run (begin 0 ++ [.giveUp 1, .awake 1])).Alive 0 := by
  obtain ⟨s, hrun, -, hwaiters, -⟩ := run_begin_outputService
  have hquiet : outputService.Quiet := ⟨rfl, by simp [outputService]⟩
  have hbegun : (outputService.run (begin 0 ++ [.giveUp 1, .awake 1])).starts[0]? = some .begun := by
    rw [run_append, hrun]
    simp [run, step, Session.giveUp, hwaiters]
  exact ⟨hquiet, hbegun, (session_ends outputService outputRequest [.prepare 0, .attach 0, .giveUp 1, .awake 1] rfl
    (by simp [outputService]) (by simp) (by simp [outputService]) hbegun).2 hquiet⟩

/-- The first session is stopped and a second one begins; then the token of the first is given up, and its waiter
ends the second, which nobody stopped and whose token nobody gave up. If the token is given up before the second
session begins, its waiter may still come too late: that start succeeds with the session free, and the next one is
not refused. -/
theorem late_waiter_ends_session :
    ((outputService.run (begin 0 ++ [.stop])).session.running = false ∧
      1 ∉ (outputService.run (begin 0 ++ [.stop])).session.givenUp ∧
      (outputService.run (begin 0 ++ [.stop] ++ begin 1)).Alive 1 ∧
      (outputService.run (begin 0 ++ [.stop] ++ begin 1 ++ [.giveUp 0, .awake 0])).starts[1]? = some .begun ∧
      ¬ (outputService.run (begin 0 ++ [.stop] ++ begin 1 ++ [.giveUp 0, .awake 0])).Alive 1) ∧
    ∃ s₁ s₂ s₃ : Session,
      outputService.session.start 0 outputRequest = (.ok (), s₁) ∧ s₁.running = true ∧
      (s₁.stop.giveUp 0).start 1 outputRequest = (.ok (), s₂) ∧ s₂.running = false ∧ 1 ∉ s₂.givenUp ∧
      s₂.start 1 outputRequest = (.ok (), s₃) := by
  constructor
  · obtain ⟨s, hfirst, hon, hwaiters, hgiven⟩ := run_begin_outputService
    obtain ⟨watching, hstopped⟩ : ∃ watching, outputService.run (begin 0 ++ [.stop]) =
        ({ session := s.stop, starts := [.begun], watching } : Service) := by
      rw [run_append, hfirst]
      exact ⟨_, rfl⟩
    obtain ⟨s', hsecond, -, hrunning, hwaiters', -⟩ := run_begin (t := 1)
      (v := { session := s.stop, starts := [.begun], watching }) ⟨hon.exclude, hon.unsaved, hon.files⟩ rfl rfl
    have hwaits : 0 ∈ s'.waiters := by simp [hwaiters', Session.stop, hwaiters]
    have hboth : outputService.run (begin 0 ++ [.stop] ++ begin 1) =
        ({ session := s', starts := [.begun, .begun], watching := 1 :: watching } : Service) := by
      rw [run_append, hstopped, hsecond]
      rfl
    rw [run_append _ _ [.giveUp 0, .awake 0], hboth, hstopped]
    refine ⟨rfl, by simp [Session.stop, hgiven], ⟨hrunning, List.mem_cons_self⟩, ?_, fun halive => ?_⟩
    · simp [run, step, Session.giveUp, hwaits]
    · have hrunning := halive.1
      simp [run, step, Session.giveUp, Session.awake, Session.stop, hwaits] at hrunning
  · have hon : outputService.session.OnOutputs := ⟨rfl, rfl, rfl⟩
    obtain ⟨s₁, hfirst, hon₁, hgiven₁, hrunning₁, hwaiters₁⟩ := hon.start rfl 0
    have hwaiting : s₁.waiters = [0] := hwaiters₁
    have hon₁' : (s₁.stop.giveUp 0).OnOutputs := ⟨hon₁.exclude, hon₁.unsaved, hon₁.files⟩
    obtain ⟨s₂, hsecond, hon₂, hgiven₂, hrunning₂, -⟩ := hon₁'.start rfl 1
    have hfree : s₂.running = false := by
      rw [hrunning₂]
      simp [Session.settle, Session.awake, Session.stop, Session.giveUp, hwaiting]
    obtain ⟨s₃, hthird, -⟩ := hon₂.start hfree 1
    have hkept : 1 ∉ s₂.givenUp := by
      rw [hgiven₂]
      simp [Session.stop, Session.giveUp, hgiven₁, outputService]
    exact ⟨s₁, s₂, s₃, hfirst, hrunning₁, hsecond, hfree, hkept, hthird⟩

end Service

end JvmLint
