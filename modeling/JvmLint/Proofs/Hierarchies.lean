import JvmLint.Check.Hierarchy
import JvmLint.Proofs.Dedup
import JvmLint.Proofs.Lookups
import Mathlib.Logic.Relation

/-!
# Walks over hierarchies

`expand` is a depth-first search with a memory whose entries are put in before
they are complete. `Completes` is that search without a bound on its depth; on
finitely many names the bound is never met. What an entry holds can be reached
(`Completes.sound`), and as long as no interface extends itself it is all that can be
reached (`Completes.full`), since the incomplete entries are those of the names on the way
down, which are not met again. A walk up the superclasses finds all of them.
-/

namespace JvmLint

open Relation

section
variable (answer : String → Option Class)

def found (name : String) : Option Class := (Lookup.find name).run answer

theorem run_find (name : String) : (Lookup.find name).run answer = found answer name := rfl

def parents (name : String) : List String := ((found answer name).map (·.interfaces)).getD []

def Extends (child parent : String) : Prop := ∃ k, found answer child = some k ∧ parent ∈ k.interfaces

theorem mem_parents {child parent : String} : parent ∈ parents answer child ↔ Extends answer child parent := by
  unfold parents Extends
  cases found answer child <;> simp

theorem found_eq {name : String} {k : Class} (h : found answer name = some k) : name ≠ "" ∧ answer name = some k := by
  unfold found Lookup.find at h
  by_cases hname : name = ""
  · simp [hname, Lookup.run] at h
  · simp only [hname, if_false] at h
    exact ⟨hname, h⟩

end

/-! ## The memory -/

namespace Extended
variable {known : Extended} {name n : String} {more : List String}

theorem lookup_add_self :
    (known.add name more).lookup name = some (more.foldl (fun l a => l.insert a) (known.get name)) := by
  simp [add]

theorem lookup_add_of_ne (h : n ≠ name) : (known.add name more).lookup n = known.lookup n := by
  have hn : (n == name) = false := by simpa using h
  simp only [add, List.lookup_cons, hn, lookup_filter_of_ne h]

theorem get_add_of_ne (h : n ≠ name) : (known.add name more).get n = known.get n := by
  simp only [get, lookup_add_of_ne h]

theorem has_add : (known.add name more).has n = true ↔ n = name ∨ known.has n = true := by
  by_cases h : n = name
  · simp [h, has, lookup_add_self]
  · simp [h, has, lookup_add_of_ne h]

theorem mem_foldl_insert {l : List String} {a : String} :
    a ∈ more.foldl (fun l a => l.insert a) l ↔ a ∈ l ∨ a ∈ more := by
  induction more generalizing l with
  | nil => simp
  | cons b more ih =>
    rw [List.foldl_cons, ih, List.mem_insert_iff, List.mem_cons]
    grind

theorem mem_get_add {a : String} : a ∈ (known.add name more).get name ↔ a ∈ known.get name ∨ a ∈ more := by
  rw [get, lookup_add_self, Option.getD_some, mem_foldl_insert]

theorem get_of_not_has (h : ¬ known.has name = true) : known.get name = [] := by
  unfold has at h
  unfold get
  cases hl : known.lookup name with
  | none => rfl
  | some l => simp [hl] at h

end Extended

/-! ## The search -/

section
variable (answer : String → Option Class)

/-- The search completes the entry of `name` by going through the parents that are listed. -/
inductive Completes : String → Extended → List String → Extended → Prop
  | nil {name known} : Completes name known [] known
  | skip {name known parent rest out} : parent ∈ known.get name → Completes name known rest out →
    Completes name known (parent :: rest) out
  | again {name known parent rest out} : parent ∉ known.get name → (known.add name [parent]).has parent = true →
    Completes name ((known.add name [parent]).add name ((known.add name [parent]).get parent)) rest out →
    Completes name known (parent :: rest) out
  | fresh {name known parent rest mid out} : parent ∉ known.get name → ¬ (known.add name [parent]).has parent = true →
    Completes parent ((known.add name [parent]).add parent []) (parents answer parent) mid →
    Completes name (mid.add name (mid.get parent)) rest out → Completes name known (parent :: rest) out

def considered (fuel : Nat) (name : String) (known : Extended) (parent : String) : Extended :=
  if (known.get name).contains parent then known
  else
    let known := (expand fuel (known.add name [parent]) parent).run answer
    known.add name (known.get parent)

theorem run_expand_known {fuel : Nat} {known : Extended} {name : String} (h : known.has name = true) :
    (expand fuel known name).run answer = known := by
  cases fuel with
  | zero => rfl
  | succ fuel => simp [expand, h]

theorem run_expand_new {fuel : Nat} {known : Extended} {name : String} (h : ¬ known.has name = true) :
    (expand (fuel + 1) known name).run answer =
      (parents answer name).foldl (considered answer fuel name) (known.add name []) := by
  rw [expand, if_neg h, Lookup.run_bind, parents, run_find]
  cases found answer name with
  | none => rfl
  | some k =>
    simp only [Lookup.run_foldlM, Option.map_some, Option.getD_some]
    congr 1
    funext known parent
    unfold considered
    split <;> simp

/-- What the search leaves alone: the entries that were there, that of `name` excepted, which only gains. -/
structure Extended.Grows (name : String) (known out : Extended) : Prop where
  has : ∀ n, known.has n = true → out.has n = true
  get : ∀ n, n ≠ name → known.has n = true → out.get n = known.get n
  own : ∀ a ∈ known.get name, a ∈ out.get name

variable {answer}

theorem Extended.Grows.refl (name : String) (known : Extended) : Grows name known known :=
  ⟨fun _ h => h, fun _ _ _ => rfl, fun _ h => h⟩

theorem Extended.Grows.add {name : String} {known out : Extended} {more : List String}
    (h : Grows name (known.add name more) out) : Grows name known out := by
  refine ⟨fun n hn => h.has n (has_add.2 (.inr hn)), fun n hne hn => ?_, fun a ha => h.own a (mem_get_add.2 (.inl ha))⟩
  rw [h.get n hne (has_add.2 (.inr hn)), get_add_of_ne hne]

/-- The search has gone into `parent` and come back. -/
theorem Extended.Grows.entered {name parent : String} {known mid : Extended} {more : List String}
    (hnew : ¬ (known.add name more).has parent = true)
    (h : Grows parent ((known.add name more).add parent []) mid) :
    parent ≠ name ∧ mid.has parent = true ∧ mid.get name = (known.add name more).get name ∧ Grows name known mid := by
  have hne : parent ≠ name := fun e => hnew (has_add.2 (.inl e))
  have hkept : ∀ n, known.has n = true → ((known.add name more).add parent []).has n = true :=
    fun n hn => has_add.2 (.inr (has_add.2 (.inr hn)))
  have hname : mid.get name = (known.add name more).get name := by
    rw [h.get name hne.symm (has_add.2 (.inr (has_add.2 (.inl rfl)))), get_add_of_ne hne.symm]
  refine ⟨hne, h.has parent (has_add.2 (.inl rfl)), hname, fun n hn => h.has n (hkept n hn), fun n hn hknown => ?_, ?_⟩
  · have hother : n ≠ parent := fun e => hnew (has_add.2 (.inr (e ▸ hknown)))
    rw [h.get n hother (hkept n hknown), get_add_of_ne hother, get_add_of_ne hn]
  · intro a ha
    rw [hname]
    exact mem_get_add.2 (.inl ha)

theorem Extended.Grows.trans {name : String} {known mid out : Extended} (h₁ : Grows name known mid)
    (h₂ : Grows name mid out) : Grows name known out :=
  ⟨fun n hn => h₂.has n (h₁.has n hn), fun n hne hn => (h₂.get n hne (h₁.has n hn)).trans (h₁.get n hne hn),
    fun a ha => h₂.own a (h₁.own a ha)⟩

theorem Completes.grows {name : String} {known out : Extended} {ps : List String}
    (h : Completes answer name known ps out) : known.Grows name out := by
  induction h with
  | nil => exact .refl _ _
  | skip _ _ ih => exact ih
  | again _ _ _ ih => exact ih.add.add
  | fresh _ hnew _ _ hmid hout => exact (hmid.entered hnew).2.2.2.trans hout.add

/-! ## What an entry holds -/

variable (answer) in
def Extended.Sound (known : Extended) : Prop := ∀ n, ∀ a ∈ known.get n, TransGen (Extends answer) n a

theorem Extended.Sound.add {known : Extended} (h : known.Sound answer) {name : String} {more : List String}
    (hmore : ∀ a ∈ more, TransGen (Extends answer) name a) : (known.add name more).Sound answer := by
  intro n a ha
  by_cases hn : n = name
  · subst hn
    rcases mem_get_add.1 ha with ha | ha
    · exact h n a ha
    · exact hmore a ha
  · rw [get_add_of_ne hn] at ha
    exact h n a ha

theorem Extended.Sound.add_parent {known : Extended} (h : known.Sound answer) {name parent : String}
    (hparent : Extends answer name parent) : (known.add name [parent]).Sound answer := by
  apply h.add
  intro a ha
  rw [List.mem_singleton.1 ha]
  exact .single hparent

theorem Completes.sound {name : String} {known out : Extended} {ps : List String}
    (h : Completes answer name known ps out) (hps : ∀ p ∈ ps, Extends answer name p) (hknown : known.Sound answer) :
    out.Sound answer := by
  induction h with
  | nil => exact hknown
  | skip _ _ ih => exact ih (fun p hp => hps p (by simp [hp])) hknown
  | @again name known parent rest out _ _ _ ih =>
    have hparent := hps parent (by simp)
    have hadded := hknown.add_parent hparent
    refine ih (fun p hp => hps p (by simp [hp])) (hadded.add fun a ha => ?_)
    exact .head hparent (hadded parent a ha)
  | @fresh name known parent rest mid out _ _ _ _ ihmid ihout =>
    have hparent := hps parent (by simp)
    have hadded := hknown.add_parent hparent
    have hmid := ihmid (fun p hp => (mem_parents answer).1 hp) (hadded.add (by simp))
    refine ihout (fun p hp => hps p (by simp [hp])) (hmid.add fun a ha => ?_)
    exact .head hparent (hmid parent a ha)

variable (answer) in
def Closed (l : List String) : Prop := ∀ p ∈ l, ∀ q, Extends answer p q → q ∈ l

variable (answer) in
/-- The entry of a name holds whatever can be reached from it. -/
def Extended.Full (known : Extended) (n : String) : Prop :=
  (∀ p, Extends answer n p → p ∈ known.get n) ∧ Closed answer (known.get n)

theorem Extended.Full.congr {known out : Extended} {n : String} (h : known.Full answer n)
    (hget : out.get n = known.get n) : out.Full answer n := by
  unfold Full
  rw [hget]
  exact h

def AcyclicFrom (answer : String → Option Class) (name : String) : Prop :=
  ∀ n, ReflTransGen (Extends answer) name n → ¬ TransGen (Extends answer) n n

variable (answer) in
structure Extended.Ready (name : String) (known : Extended) : Prop where
  has : known.has name = true
  below : ∀ n, TransGen (Extends answer) name n → known.has n = true → known.Full answer n
  closed : Closed answer (known.get name)

variable (answer) in
structure Extended.Filled (name : String) (ps : List String) (known out : Extended) : Prop where
  listed : ∀ p ∈ ps, p ∈ out.get name
  closed : Closed answer (out.get name)
  added : ∀ n, out.has n = true → ¬ known.has n = true → out.Full answer n

section
variable {name parent : String} {known mid : Extended} (hgrow : known.Grows name mid)
  (hname : mid.get name = (known.add name [parent]).get name) (hhas : mid.has parent = true)
  (hadded : ∀ n, n ≠ name → mid.has n = true → ¬ known.has n = true → mid.Full answer n)

include hgrow hadded in
theorem Extended.Ready.below_entered (h : known.Ready answer name) (hself : ¬ TransGen (Extends answer) name name)
    {n : String} (hn : TransGen (Extends answer) name n) (hmid : mid.has n = true) : mid.Full answer n := by
  have hne : n ≠ name := fun e => hself (e ▸ hn)
  by_cases hknown : known.has n = true
  · exact (h.below n hn hknown).congr (hgrow.get n hne hknown)
  · exact hadded n hne hmid hknown

/-- The search goes into a parent that is new to it. -/
theorem Extended.Ready.enter {more : List String} (h : known.Ready answer name)
    (hnew : ¬ (known.add name more).has parent = true) (hself : ¬ TransGen (Extends answer) name name)
    (hself' : ¬ TransGen (Extends answer) parent parent) (hparent : Extends answer name parent) :
    ((known.add name more).add parent []).Ready answer parent := by
  refine ⟨has_add.2 (.inl rfl), ?_, ?_⟩
  · intro n hn hhas
    have hbelow : TransGen (Extends answer) name n := .head hparent hn
    have hne : n ≠ parent := fun e => hself' (e ▸ hn)
    have hne' : n ≠ name := fun e => hself (e ▸ hbelow)
    have hknown : known.has n = true := by simpa [has_add, hne, hne'] using hhas
    refine (h.below n hbelow hknown).congr ?_
    rw [get_add_of_ne hne, get_add_of_ne hne']
  · intro p hp
    rw [mem_get_add, get_of_not_has hnew] at hp
    simp at hp

include hgrow hname hhas hadded in
/-- A name adopts a parent and the parent's whole entry. -/
theorem Extended.Ready.adopt (h : known.Ready answer name) (hself : ¬ TransGen (Extends answer) name name)
    (hparent : Extends answer name parent) : (mid.add name (mid.get parent)).Ready answer name := by
  have hfull := h.below_entered hgrow hadded hself (.single hparent) hhas
  refine ⟨has_add.2 (.inl rfl), ?_, ?_⟩
  · intro n hn hmid
    have hne : n ≠ name := fun e => hself (e ▸ hn)
    rcases has_add.1 hmid with e | hmid
    · exact absurd e hne
    · exact (h.below_entered hgrow hadded hself hn hmid).congr (get_add_of_ne hne)
  · have hmem : ∀ a, a ∈ (mid.add name (mid.get parent)).get name ↔
        (a ∈ known.get name ∨ a = parent) ∨ a ∈ mid.get parent := by
      intro a
      rw [mem_get_add, hname, mem_get_add, List.mem_singleton]
    intro p hp q hq
    rw [hmem] at hp ⊢
    rcases hp with (hp | rfl) | hp
    · exact .inl (.inl (h.closed p hp q hq))
    · exact .inr (hfull.1 q hq)
    · exact .inr (hfull.2 p hp q hq)

include hname hadded in
theorem Extended.Filled.adopt {rest : List String} {out : Extended} (hknown : known.has name = true)
    (hout : (mid.add name (mid.get parent)).Grows name out)
    (h : Filled answer name rest (mid.add name (mid.get parent)) out) :
    Filled answer name (parent :: rest) known out := by
  refine ⟨?_, h.closed, ?_⟩
  · intro p hp
    rcases List.mem_cons.1 hp with rfl | hp
    · apply hout.own
      rw [mem_get_add, hname, mem_get_add]
      simp
    · exact h.listed p hp
  · intro n hn hnew
    have hne : n ≠ name := fun e => hnew (e ▸ hknown)
    by_cases hmid : mid.has n = true
    · have hadd : (mid.add name (mid.get parent)).has n = true := has_add.2 (.inr hmid)
      refine (hadded n hne hmid hnew).congr ?_
      rw [hout.get n hne hadd, get_add_of_ne hne]
    · refine h.added n hn fun hadd => ?_
      rcases has_add.1 hadd with e | hadd
      · exact hne e
      · exact hmid hadd

end

/-- In a hierarchy without circles, all entries that the search puts in are full. Those found half done would be
entries of names that the search came through on its way down, and these extend `name`. -/
theorem Completes.filled {name : String} {known out : Extended} {ps : List String}
    (h : Completes answer name known ps out) (hps : ∀ p ∈ ps, Extends answer name p)
    (hacyclic : AcyclicFrom answer name) (hready : known.Ready answer name) : Extended.Filled answer name ps known out := by
  induction h with
  | nil => exact ⟨by simp, hready.closed, fun n h hn => absurd h hn⟩
  | @skip name known parent rest out hmem h ih =>
    obtain ⟨hrest, hclosed, hadded⟩ := ih (fun p hp => hps p (by simp [hp])) hacyclic hready
    refine ⟨?_, hclosed, hadded⟩
    intro p hp
    rcases List.mem_cons.1 hp with rfl | hp
    · exact h.grows.own p hmem
    · exact hrest p hp
  | @again name known parent rest out _ hhas h ih =>
    have hself := hacyclic name .refl
    have hparent := hps parent (by simp)
    have hgrow : known.Grows name (known.add name [parent]) := (Extended.Grows.refl name _).add
    have hadded : ∀ n, n ≠ name → (known.add name [parent]).has n = true → ¬ known.has n = true →
        (known.add name [parent]).Full answer n := by
      intro n hne hn hnew
      rcases Extended.has_add.1 hn with e | hn
      · exact absurd e hne
      · exact absurd hn hnew
    have hnext := ih (fun p hp => hps p (by simp [hp])) hacyclic (hready.adopt hgrow rfl hhas hadded hself hparent)
    exact hnext.adopt rfl hadded hready.has h.grows
  | @fresh name known parent rest mid out _ hnew hinner h ihmid ih =>
    have hself := hacyclic name .refl
    have hparent := hps parent (by simp)
    obtain ⟨hne, hhas, hname, hgrow⟩ := hinner.grows.entered hnew
    have hdeeper : AcyclicFrom answer parent := fun n hn => hacyclic n (.head hparent hn)
    have hstart := hready.enter hnew hself (hdeeper parent .refl) hparent
    have hmid := ihmid (fun p hp => (mem_parents answer).1 hp) hdeeper hstart
    have hadded : ∀ n, n ≠ name → mid.has n = true → ¬ known.has n = true → mid.Full answer n := by
      intro n hn hmidn hknown
      by_cases hp : n = parent
      · subst hp
        exact ⟨fun p hp => hmid.listed p ((mem_parents answer).2 hp), hmid.closed⟩
      · refine hmid.added n hmidn fun hold => ?_
        rcases Extended.has_add.1 hold with e | hold
        · exact hp e
        · rcases Extended.has_add.1 hold with e | hold
          · exact hn e
          · exact hknown hold
    have hnext := ih (fun p hp => hps p (by simp [hp])) hacyclic (hready.adopt hgrow hname hhas hadded hself hparent)
    exact hnext.adopt hname hadded hready.has h.grows

/-! ## The bound on the depth -/

theorem countP_lt_of_mem {α : Type} {p q : α → Bool} (hpq : ∀ a, p a = true → q a = true) {l : List α} {a : α}
    (ha : a ∈ l) (hq : q a = true) (hp : ¬ p a = true) : l.countP p < l.countP q := by
  obtain ⟨before, after, rfl⟩ := List.append_of_mem ha
  have hbefore : before.countP p ≤ before.countP q := List.countP_mono_left fun x _ => hpq x
  have hafter : after.countP p ≤ after.countP q := List.countP_mono_left fun x _ => hpq x
  rw [List.countP_append, List.countP_append, List.countP_cons_of_pos hq, List.countP_cons_of_neg hp]
  omega

def unexplored (names : List String) (known : Extended) : Nat := names.countP fun n => !known.has n

theorem Extended.lacks_of_grown {known out : Extended} (h : ∀ n, known.has n = true → out.has n = true) (n : String)
    (hn : (!out.has n) = true) : (!known.has n) = true := by
  by_cases hknown : known.has n = true
  · simp [h n hknown] at hn
  · simpa using hknown

theorem unexplored_le (names : List String) {known out : Extended} (h : ∀ n, known.has n = true → out.has n = true) :
    unexplored names out ≤ unexplored names known :=
  List.countP_mono_left fun n _ => Extended.lacks_of_grown h n

theorem unexplored_add_le (names : List String) {known : Extended} {name : String} {more : List String} :
    unexplored names (known.add name more) ≤ unexplored names known :=
  unexplored_le names fun _ hn => Extended.has_add.2 (.inr hn)

theorem unexplored_add_lt {names : List String} {known : Extended} {name : String} {more : List String}
    (hmem : name ∈ names) (hnew : ¬ known.has name = true) :
    unexplored names (known.add name more) < unexplored names known := by
  apply countP_lt_of_mem (Extended.lacks_of_grown fun _ hn => Extended.has_add.2 (.inr hn)) hmem
  · simpa using hnew
  · simp [Extended.has_add]

theorem unexplored_le_length (names : List String) (known : Extended) : unexplored names known ≤ names.length :=
  List.countP_le_length

theorem completes_considered {names : List String} {fuel : Nat} {name : String}
    (hdeeper : ∀ {known parent}, parent ∈ names → unexplored names known < fuel → ¬ known.has parent = true →
      Completes answer parent (known.add parent []) (parents answer parent) ((expand fuel known parent).run answer)) :
    ∀ {ps : List String} {known : Extended}, (∀ p ∈ ps, p ∈ names) → unexplored names known < fuel →
      Completes answer name known ps (ps.foldl (considered answer fuel name) known)
  | [], _, _, _ => .nil
  | parent :: rest, known, hps, hfuel => by
    have hrest : ∀ p ∈ rest, p ∈ names := fun p hp => hps p (by simp [hp])
    rw [List.foldl_cons]
    by_cases hmem : parent ∈ known.get name
    · have hstep : considered answer fuel name known parent = known := by simp [considered, hmem]
      rw [hstep]
      exact .skip hmem (completes_considered hdeeper hrest hfuel)
    · have hadd : unexplored names (known.add name [parent]) ≤ unexplored names known := unexplored_add_le _
      by_cases hhas : (known.add name [parent]).has parent = true
      · have hstep : considered answer fuel name known parent =
            (known.add name [parent]).add name ((known.add name [parent]).get parent) := by
          simp [considered, hmem, run_expand_known answer hhas]
        rw [hstep]
        refine .again hmem hhas (completes_considered hdeeper hrest ?_)
        exact Nat.lt_of_le_of_lt (Nat.le_trans (unexplored_add_le names) hadd) hfuel
      · have hinner := hdeeper (hps parent (by simp)) (Nat.lt_of_le_of_lt hadd hfuel) hhas
        have hstep : considered answer fuel name known parent =
            ((expand fuel (known.add name [parent]) parent).run answer).add name
              (((expand fuel (known.add name [parent]) parent).run answer).get parent) := by
          simp [considered, hmem]
        rw [hstep]
        have hgrow := (hinner.grows.entered hhas).2.2.2
        refine .fresh hmem hhas hinner (completes_considered hdeeper hrest ?_)
        exact Nat.lt_of_le_of_lt (Nat.le_trans (unexplored_add_le names) (unexplored_le names hgrow.has)) hfuel

section
variable {names : List String} (hnames : ∀ child parent, Extends answer child parent → parent ∈ names)
include hnames

/-- With as much fuel as there are names left, the search is not cut off. -/
theorem completes_expand {fuel : Nat} {known : Extended} {name : String} (hname : name ∈ names)
    (hfuel : unexplored names known < fuel) (hnew : ¬ known.has name = true) :
    Completes answer name (known.add name []) (parents answer name) ((expand fuel known name).run answer) := by
  induction fuel generalizing known name with
  | zero => omega
  | succ fuel ih =>
    rw [run_expand_new answer hnew]
    have hlt : unexplored names (known.add name []) < unexplored names known := unexplored_add_lt hname hnew
    apply completes_considered ih
    · exact fun p hp => hnames name p ((mem_parents answer).1 hp)
    · omega

/-- Each name is asked for once at most, however deep the search may go. -/
theorem spends_expand {fuel : Nat} {known : Extended} {name : String} (hname : name ∈ names) :
    (expand fuel known name).Spends answer (unexplored names) (unexplored names known) := by
  induction fuel generalizing known name with
  | zero => exact Lookup.spends_pure (Nat.le_refl _)
  | succ fuel ih =>
    rw [expand]
    by_cases hhas : known.has name = true
    · rw [if_pos hhas]
      exact Lookup.spends_pure (Nat.le_refl _)
    · rw [if_neg hhas]
      have hlt : unexplored names (known.add name []) < unexplored names known := unexplored_add_lt hname hhas
      refine ((Lookup.spends_find name).mono hlt).bind ?_
      rw [run_find]
      cases hfound : found answer name with
      | none => exact Lookup.spends_pure (Nat.le_refl _)
      | some k =>
        apply Lookup.spends_foldlM
        intro known parent hparent
        by_cases hmem : (known.get name).contains parent = true
        · rw [if_pos hmem]
          exact Lookup.spends_pure (Nat.le_refl _)
        · rw [if_neg hmem]
          have hdeeper : (expand fuel (known.add name [parent]) parent).Spends answer _ _ :=
            ih (hnames name parent ⟨k, hfound, hparent⟩)
          exact (hdeeper.mono (unexplored_add_le names)).bind (Lookup.spends_pure (unexplored_add_le names))

end

/-! ## Entries without circles -/

theorem Extended.Full.mem {known : Extended} {n a : String} (h : known.Full answer n)
    (ha : TransGen (Extends answer) n a) : a ∈ known.get n := by
  induction ha with
  | single hp => exact h.1 _ hp
  | tail _ hq ih => exact h.2 _ ih _ hq

variable (answer) in
/-- All entries are sound, and full ones if there are no circles. -/
structure Extended.Valid (acyclic : Prop) (known : Extended) : Prop where
  sound : known.Sound answer
  full : acyclic → ∀ n, known.has n = true → known.Full answer n

theorem Extended.valid_nil (acyclic : Prop) : Valid answer acyclic [] :=
  ⟨fun _ _ h => by simp [get] at h, fun _ _ h => by simp [has] at h⟩

theorem Extended.Valid.ready {acyclic : Prop} {known : Extended} (h : known.Valid answer acyclic) (hacyclic : acyclic)
    {name : String} (hself : ¬ TransGen (Extends answer) name name) (hnew : ¬ known.has name = true) :
    (known.add name []).Ready answer name := by
  refine ⟨has_add.2 (.inl rfl), ?_, ?_⟩
  · intro n hn hhas
    have hne : n ≠ name := fun e => hself (e ▸ hn)
    have hknown : known.has n = true := by simpa [has_add, hne] using hhas
    exact (h.full hacyclic n hknown).congr (get_add_of_ne hne)
  · intro p hp
    rw [mem_get_add, get_of_not_has hnew] at hp
    simp at hp

theorem Extended.Valid.expand {acyclic : Prop} {names : List String}
    (hnames : ∀ child parent, Extends answer child parent → parent ∈ names) {known : Extended} {name : String}
    (h : known.Valid answer acyclic) (hacyclic : acyclic → AcyclicFrom answer name) (hname : name ∈ names) {fuel : Nat}
    (hfuel : names.length < fuel) :
    Valid answer acyclic ((JvmLint.expand fuel known name).run answer) ∧
      ((JvmLint.expand fuel known name).run answer).has name = true := by
  by_cases hnew : known.has name = true
  · rw [run_expand_known answer hnew]
    exact ⟨h, hnew⟩
  · have hrun := completes_expand hnames hname (Nat.lt_of_le_of_lt (unexplored_le_length names known) hfuel) hnew
    have hparents : ∀ p ∈ parents answer name, Extends answer name p := fun p hp => (mem_parents answer).1 hp
    refine ⟨⟨hrun.sound hparents (h.sound.add (by simp)), ?_⟩, hrun.grows.has name (has_add.2 (.inl rfl))⟩
    intro hac n hn
    have hfilled := hrun.filled hparents (hacyclic hac) (h.ready hac (hacyclic hac name .refl) hnew)
    by_cases hne : n = name
    · subst hne
      exact ⟨fun p hp => hfilled.listed p ((mem_parents answer).2 hp), hfilled.closed⟩
    · by_cases hknown : known.has n = true
      · exact (h.full hac n hknown).congr (hrun.grows.add.get n hne hknown)
      · exact hfilled.added n hn (by simpa [has_add, hne] using hknown)

end

/-! ## Superclasses -/

section
variable (answer : String → Option Class)

def climb (name : String) : Option Class := if name = Name.object then none else found answer name

def ancestor? : Nat → String → Option Class
  | 0, name => climb answer name
  | n + 1, name => (climb answer name).bind fun k => ancestor? n k.super

def Above (name : String) (a : Class) : Prop := ∃ n, ancestor? answer n name = some a

theorem climb_of_end {name : String} (h : name = "" ∨ name = Name.object) : climb answer name = none := by
  rcases h with rfl | rfl <;> simp [climb, found, Lookup.find, Lookup.run]

theorem run_chainFrom (fuel : Nat) (seen : List String) (name : String) :
    (chainFrom (fuel + 1) seen name).run answer =
      if name ∈ seen then [] else
        match climb answer name with
        | none => []
        | some k => k :: (chainFrom fuel (name :: seen) k.super).run answer := by
  rw [chainFrom]
  by_cases hseen : name ∈ seen
  · simp [hseen]
  · by_cases hend : name = "" ∨ name = Name.object
    · simp [hend, climb_of_end]
    · have hgo : ¬ (name = "" || name = Name.object || seen.contains name) = true := by simpa [hseen] using hend
      have hclimb : climb answer name = found answer name := if_neg fun e => hend (.inr e)
      rw [if_neg hgo, if_neg hseen, Lookup.run_bind, hclimb, run_find]
      cases found answer name with
      | none => rfl
      | some k => simp

theorem above_of_mem_chainFrom {fuel : Nat} {seen : List String} {name : String} {a : Class}
    (h : a ∈ (chainFrom fuel seen name).run answer) : Above answer name a := by
  induction fuel generalizing seen name with
  | zero => simp [chainFrom] at h
  | succ fuel ih =>
    rw [run_chainFrom] at h
    by_cases hseen : name ∈ seen
    · simp [hseen] at h
    · cases hclimb : climb answer name with
      | none => simp [hseen, hclimb] at h
      | some k =>
        simp only [hseen, if_false, hclimb, List.mem_cons] at h
        rcases h with rfl | h
        · exact ⟨0, hclimb⟩
        · obtain ⟨n, hn⟩ := ih h
          exact ⟨n + 1, by simpa [ancestor?, hclimb] using hn⟩

def unmet (names seen : List String) : Nat := names.countP fun n => !seen.contains n

theorem unmet_cons_lt {names seen : List String} {name : String} (hmem : name ∈ names) (hnew : name ∉ seen) :
    unmet names (name :: seen) < unmet names seen := by
  apply countP_lt_of_mem _ hmem
  · simpa using hnew
  · simp
  · intro n hn
    simp only [List.contains_cons, Bool.not_or, Bool.and_eq_true] at hn
    exact hn.2

variable {answer} {names : List String} (hnames : ∀ name k, climb answer name = some k → k.super ∈ names)
include hnames

/-- All superclasses are found. One that is `n` steps above a name already met is looked for there, in no more
steps; so a circle is gone round once. -/
theorem mem_chainFrom {fuel : Nat} {seen : List String} {name : String} (hname : name ∈ names)
    (hfuel : unmet names seen < fuel) {n : Nat} {a : Class} (ha : ancestor? answer n name = some a) :
    a ∈ (chainFrom fuel seen name).run answer ∨ ∃ s ∈ seen, ∃ m ≤ n, ancestor? answer m s = some a := by
  induction fuel generalizing seen name n with
  | zero => omega
  | succ fuel ih =>
    rw [run_chainFrom]
    by_cases hseen : name ∈ seen
    · exact .inr ⟨name, hseen, n, Nat.le_refl n, ha⟩
    · cases hclimb : climb answer name with
      | none => cases n <;> simp [ancestor?, hclimb] at ha
      | some k =>
        simp only [hseen, if_false, List.mem_cons]
        have hlt : unmet names (name :: seen) < unmet names seen := unmet_cons_lt hname hseen
        induction n using Nat.strongRecOn with
        | ind n ihn =>
          cases n with
          | zero =>
            rw [ancestor?, hclimb] at ha
            cases ha
            exact .inl (.inl rfl)
          | succ n =>
            rw [ancestor?, hclimb, Option.bind_some] at ha
            rcases ih (hnames name k hclimb) (Nat.lt_of_lt_of_le hlt (Nat.le_of_lt_succ hfuel)) ha with hmem | ⟨s, hs, m, hm, hsa⟩
            · exact .inl (.inr hmem)
            · rcases List.mem_cons.1 hs with rfl | hs
              · rcases ihn m (by omega) hsa with hmem | ⟨t, ht, l, hl, hta⟩
                · exact .inl hmem
                · exact .inr ⟨t, ht, l, by omega, hta⟩
              · exact .inr ⟨s, hs, m, by omega, hsa⟩

theorem spends_chainFrom {fuel : Nat} {seen : List String} {name : String} (hname : name ∈ names) :
    (chainFrom fuel seen name).Spends answer (fun _ => 0) (unmet names seen) := by
  induction fuel generalizing seen name with
  | zero => exact Lookup.spends_pure (Nat.zero_le _)
  | succ fuel ih =>
    rw [chainFrom]
    by_cases hend : (name = "" || name = Name.object || seen.contains name) = true
    · rw [if_pos hend]
      exact Lookup.spends_pure (Nat.zero_le _)
    · rw [if_neg hend]
      have hgo : (name ≠ "" ∧ name ≠ Name.object) ∧ name ∉ seen := by simpa using hend
      have hlt : unmet names (name :: seen) < unmet names seen := unmet_cons_lt hname hgo.2
      refine ((Lookup.spends_find name).mono hlt).bind ?_
      rw [run_find]
      cases hfound : found answer name with
      | none => exact Lookup.spends_pure (Nat.zero_le _)
      | some k =>
        have hclimb : climb answer name = some k := (if_neg hgo.1.2).trans hfound
        exact (ih (hnames name k hclimb)).bind (Lookup.spends_pure (Nat.zero_le _))

end

end JvmLint
