import JvmLint.Proofs.ImpliedInterfaces

/-!
# The order of declarations

The searches for the interfaces of a class share a memory. In a circle of interfaces an
entry may be left incomplete, since it takes over what another entry holds at
that time; then it depends on the order of the searches what is found later. But all
that a search puts in ends up in the entry that it began with, so the entries of the declared
interfaces together miss nothing. An interface is therefore judged the same in every
order unless it extends itself, and of two that extend each other at least one is
found to be redundant.
-/

namespace JvmLint

open Relation

section
variable {answer : String → Option Class}

/-! ## What a search adds -/

variable (answer) in
structure Extended.Absorbs (name : String) (ps : List String) (known out : Extended) : Prop where
  listed : ∀ p ∈ ps, p ∈ out.get name
  mem : ∀ n, out.has n = true → ¬ known.has n = true → n ∈ out.get name
  sub : ∀ n, out.has n = true → ¬ known.has n = true → ∀ a ∈ out.get n, a ∈ out.get name
  parents : ∀ n, out.has n = true → ¬ known.has n = true → ∀ p, Extends answer n p → p ∈ out.get n

section
open Extended
variable {name parent : String} {known mid out : Extended} {rest : List String}

theorem Extended.Absorbs.skip (h : Absorbs answer name rest known out) (hmem : parent ∈ out.get name) :
    Absorbs answer name (parent :: rest) known out :=
  ⟨List.forall_mem_cons.2 ⟨hmem, h.listed⟩, h.mem, h.sub, h.parents⟩

theorem Extended.Absorbs.again {more : List String} (h : Absorbs answer name rest (known.add name more) out)
    (hname : known.has name = true) : Absorbs answer name rest known out := by
  have hnew : ∀ n, ¬ known.has n = true → ¬ (known.add name more).has n = true := by
    intro n hn hadd
    rcases has_add.1 hadd with rfl | hadd
    · exact hn hname
    · exact hn hadd
  exact ⟨h.listed, fun n hn hk => h.mem n hn (hnew n hk), fun n hn hk => h.sub n hn (hnew n hk),
    fun n hn hk => h.parents n hn (hnew n hk)⟩

/-- What a search in a parent puts in is taken over. -/
theorem Extended.Absorbs.fresh {more : List String} (hname : known.has name = true)
    (hmid : Absorbs answer parent (JvmLint.parents answer parent) ((known.add name more).add parent []) mid)
    (hgrow : (mid.add name (mid.get parent)).Grows name out) (hmem : parent ∈ out.get name)
    (h : Absorbs answer name rest (mid.add name (mid.get parent)) out) : Absorbs answer name rest known out := by
  have htaken : ∀ a ∈ mid.get parent, a ∈ out.get name := fun a ha => hgrow.own a (mem_get_add.2 (.inr ha))
  have hsplit : ∀ n, out.has n = true → ¬ known.has n = true →
      (mid.has n = true ∧ out.get n = mid.get n ∧ (n ≠ parent → ¬ ((known.add name more).add parent []).has n = true)) ∨
      ¬ (mid.add name (mid.get parent)).has n = true := by
    intro n hn hnew
    have hne : n ≠ name := fun e => hnew (e ▸ hname)
    by_cases hm : mid.has n = true
    · refine .inl ⟨hm, ?_, fun hp => by simp [has_add, hp, hne, hnew]⟩
      rw [hgrow.get n hne (has_add.2 (.inr hm)), get_add_of_ne hne]
    · exact .inr (by simp [has_add, hne, hm])
  refine ⟨h.listed, ?_, ?_, ?_⟩
  · intro n hn hnew
    rcases hsplit n hn hnew with ⟨hm, _, hinner⟩ | hout
    · by_cases hp : n = parent
      · exact hp ▸ hmem
      · exact htaken n (hmid.mem n hm (hinner hp))
    · exact h.mem n hn hout
  · intro n hn hnew a ha
    rcases hsplit n hn hnew with ⟨hm, hget, hinner⟩ | hout
    · rw [hget] at ha
      by_cases hp : n = parent
      · exact htaken a (hp ▸ ha)
      · exact htaken a (hmid.sub n hm (hinner hp) a ha)
    · exact h.sub n hn hout a ha
  · intro n hn hnew p hextends
    rcases hsplit n hn hnew with ⟨hm, hget, hinner⟩ | hout
    · rw [hget]
      by_cases hp : n = parent
      · subst hp
        exact hmid.listed p ((mem_parents answer).2 hextends)
      · exact hmid.parents n hm (hinner hp) p hextends
    · exact h.parents n hn hout p hextends

end

theorem Completes.absorbs {name : String} {known out : Extended} {ps : List String}
    (h : Completes answer name known ps out) (hname : known.has name = true) : Extended.Absorbs answer name ps known out := by
  induction h with
  | nil => exact ⟨by simp, fun n h hn => absurd h hn, fun n h hn => absurd h hn, fun n h hn => absurd h hn⟩
  | skip hmem h ih => exact (ih hname).skip (h.grows.own _ hmem)
  | @again name known parent rest out _ _ h ih =>
    have hadd : (known.add name [parent]).has name = true := Extended.has_add.2 (.inl rfl)
    have hmem : parent ∈ out.get name := by
      apply h.grows.own
      simp [Extended.mem_get_add]
    exact (((ih (Extended.has_add.2 (.inl rfl))).again hadd).again hname).skip hmem
  | @fresh name known parent rest mid out _ hnew hinner h ihmid ih =>
    obtain ⟨_, _, hkept, _⟩ := hinner.grows.entered hnew
    have hmem : parent ∈ out.get name := by
      apply h.grows.own
      rw [Extended.mem_get_add, hkept, Extended.mem_get_add]
      simp
    exact (Extended.Absorbs.fresh hname (ihmid (Extended.has_add.2 (.inl rfl))) h.grows hmem
      (ih (Extended.has_add.2 (.inl rfl)))).skip hmem

def Extended.Named (known : Extended) : Prop := ∀ n, ∀ a ∈ known.get n, known.has a = true

theorem Extended.Named.add {known : Extended} (h : known.Named) {name : String} {more : List String}
    (hmore : ∀ a ∈ more, (known.add name more).has a = true) : (known.add name more).Named := by
  intro n a ha
  by_cases hn : n = name
  · subst hn
    rcases mem_get_add.1 ha with ha | ha
    · exact has_add.2 (.inr (h n a ha))
    · exact hmore a ha
  · rw [get_add_of_ne hn] at ha
    exact has_add.2 (.inr (h n a ha))

theorem Completes.named {name : String} {known out : Extended} {ps : List String}
    (h : Completes answer name known ps out) (hknown : known.Named) : out.Named := by
  induction h with
  | nil => exact hknown
  | skip _ _ ih => exact ih hknown
  | @again name known parent rest out _ hhas _ ih =>
    have hadded : (known.add name [parent]).Named := hknown.add (by simpa using hhas)
    exact ih (hadded.add fun a ha => Extended.has_add.2 (.inr (hadded parent a ha)))
  | @fresh name known parent rest mid out _ hnew _ _ ihmid ihout =>
    have hinner : ((known.add name [parent]).add parent []).Named := by
      intro n a ha
      by_cases hn : n = parent
      · subst hn
        simp [Extended.mem_get_add, Extended.get_of_not_has hnew] at ha
      · rw [Extended.get_add_of_ne hn] at ha
        by_cases hname : n = name
        · subst hname
          rcases Extended.mem_get_add.1 ha with ha | ha
          · simp [Extended.has_add, hknown n a ha]
          · simp [Extended.has_add, List.mem_singleton.1 ha]
        · rw [Extended.get_add_of_ne hname] at ha
          simp [Extended.has_add, hknown n a ha]
    have hmid := ihmid hinner
    exact ihout (hmid.add fun a ha => Extended.has_add.2 (.inr (hmid parent a ha)))

/-! ## Several searches -/

variable (answer) in
structure Extended.Surveyed (roots : String → Prop) (known : Extended) : Prop where
  sound : known.Sound answer
  named : known.Named
  rooted : ∀ r, roots r → known.has r = true
  closed : ∀ n p, known.has n = true → Extends answer n p → known.has p = true
  /-- What can be reached is in the entry of a root. -/
  reached : ∀ n a, known.has n = true → TransGen (Extends answer) n a → ∃ r, roots r ∧ a ∈ known.get r
  /-- A circle was put in as a whole, by the search from one root. -/
  circles : ∀ n, known.has n = true → ∃ r, roots r ∧
    ∀ m, TransGen (Extends answer) n m → TransGen (Extends answer) m n → m = r ∨ m ∈ known.get r

section
open Extended
variable {roots : String → Prop} {known out : Extended} {name : String}

theorem Extended.surveyed_nil (roots : String → Prop) (h : ∀ r, ¬ roots r) : Surveyed answer roots [] := by
  refine ⟨fun _ _ h => by simp [get] at h, fun _ _ h => by simp [get] at h, fun r hr => absurd hr (h r), ?_, ?_, ?_⟩
  · intro n p hn
    simp [has] at hn
  · intro n a hn
    simp [has] at hn
  · intro n hn
    simp [has] at hn

theorem Extended.has_of_reach (hclosed : ∀ n p, known.has n = true → Extends answer n p → known.has p = true) {n a : String}
    (hn : known.has n = true) (ha : TransGen (Extends answer) n a) : known.has a = true := by
  induction ha with
  | single hp => exact hclosed _ _ hn hp
  | tail _ hp ih => exact hclosed _ _ ih hp

theorem Extended.Surveyed.mono {roots' : String → Prop} (h : known.Surveyed answer roots) (hroots : ∀ r, roots r → roots' r)
    (hrooted : ∀ r, roots' r → known.has r = true) : known.Surveyed answer roots' := by
  refine ⟨h.sound, h.named, hrooted, h.closed, fun n a hn ha => ?_, fun n hn => ?_⟩
  · obtain ⟨r, hr, har⟩ := h.reached n a hn ha
    exact ⟨r, hroots r hr, har⟩
  · obtain ⟨r, hr, hcircle⟩ := h.circles n hn
    exact ⟨r, hroots r hr, hcircle⟩

theorem Extended.Surveyed.congr {roots' : String → Prop} (h : known.Surveyed answer roots) (hroots : ∀ r, roots r ↔ roots' r) :
    known.Surveyed answer roots' :=
  h.mono (fun r => (hroots r).1) fun r hr => h.rooted r ((hroots r).2 hr)

/-- One more search. Of what it puts in, all that can be reached is in the new entry, up to entries that were there
before. -/
theorem Extended.Surveyed.search (h : known.Surveyed answer roots) (hnew : ¬ known.has name = true)
    (hrun : Completes answer name (known.add name []) (parents answer name) out) :
    out.Surveyed answer fun r => roots r ∨ r = name := by
  have hgrow := hrun.grows.add
  have habsorbs := hrun.absorbs (has_add.2 (.inl rfl))
  have hkept : ∀ r, roots r → out.get r = known.get r := by
    intro r hr
    have hhas := h.rooted r hr
    exact hgrow.get r (fun e => hnew (e ▸ hhas)) hhas
  have hfresh : ∀ n, out.has n = true → ¬ known.has n = true →
      (n = name ∨ n ∈ out.get name) ∧ ∀ p, Extends answer n p → p ∈ out.get name := by
    intro n hn hold
    by_cases hname : n = name
    · subst hname
      exact ⟨.inl rfl, fun p hp => habsorbs.listed p ((mem_parents answer).2 hp)⟩
    · have hstart : ¬ (known.add name []).has n = true := by simp [has_add, hname, hold]
      exact ⟨.inr (habsorbs.mem n hn hstart), fun p hp => habsorbs.sub n hn hstart p (habsorbs.parents n hn hstart p hp)⟩
  have hnamed : out.Named := hrun.named (h.named.add (by simp))
  have hclosed : ∀ n p, out.has n = true → Extends answer n p → out.has p = true := by
    intro n p hn hp
    by_cases hold : known.has n = true
    · exact hgrow.has p (h.closed n p hold hp)
    · exact hnamed name p ((hfresh n hn hold).2 p hp)
  refine ⟨?_, hnamed, ?_, hclosed, ?_, ?_⟩
  · exact hrun.sound (fun p hp => (mem_parents answer).1 hp) (h.sound.add (by simp))
  · intro r hr
    rcases hr with hr | rfl
    · exact hgrow.has r (h.rooted r hr)
    · exact hrun.grows.has r (has_add.2 (.inl rfl))
  · intro n a hn ha
    induction ha using TransGen.head_induction_on with
    | @single n hp =>
      by_cases hold : known.has n = true
      · obtain ⟨r, hr, har⟩ := h.reached n a hold (.single hp)
        exact ⟨r, .inl hr, by rwa [hkept r hr]⟩
      · exact ⟨name, .inr rfl, (hfresh n hn hold).2 a hp⟩
    | head hp _ ih => exact ih (hclosed _ _ hn hp)
  · intro n hn
    by_cases hold : known.has n = true
    · obtain ⟨r, hr, hcircle⟩ := h.circles n hold
      exact ⟨r, .inl hr, by rwa [hkept r hr]⟩
    · refine ⟨name, .inr rfl, fun m hnm hmn => ?_⟩
      -- the whole circle is new, since the entries that were there lead to such entries only
      have hm : ¬ known.has m = true := fun hm => hold (has_of_reach h.closed hm hmn)
      exact (hfresh m (has_of_reach hclosed hn hnm) hm).1

def Extended.Kept (known out : Extended) : Prop :=
  ∀ n, known.has n = true → out.has n = true ∧ out.get n = known.get n

theorem Extended.Kept.trans {more : Extended} (h : known.Kept out) (h' : out.Kept more) : known.Kept more := by
  intro n hn
  obtain ⟨hhas, hget⟩ := h n hn
  exact ⟨(h' n hhas).1, (h' n hhas).2.trans hget⟩

theorem Extended.Surveyed.expand {names : List String} (hnames : ∀ child parent, Extends answer child parent → parent ∈ names)
    (h : known.Surveyed answer roots) (hname : name ∈ names) {fuel : Nat} (hfuel : names.length < fuel) :
    Surveyed answer (fun r => roots r ∨ r = name) ((JvmLint.expand fuel known name).run answer) ∧
      known.Kept ((JvmLint.expand fuel known name).run answer) := by
  by_cases hnew : known.has name = true
  · rw [run_expand_known answer hnew]
    refine ⟨h.mono (fun r hr => .inl hr) ?_, fun n hn => ⟨hn, rfl⟩⟩
    intro r hr
    rcases hr with hr | rfl
    · exact h.rooted r hr
    · exact hnew
  · have hrun := completes_expand hnames hname (Nat.lt_of_le_of_lt (unexplored_le_length names known) hfuel) hnew
    have hgrow := hrun.grows.add
    exact ⟨h.search hnew hrun, fun n hn => ⟨hgrow.has n hn, hgrow.get n (fun e => hnew (e ▸ hn)) hn⟩⟩

end

end

namespace RedundantInterface

variable (answer : String → Option Class)

/-! ## The searches of a class -/

def tested (fuel : Nat) (s : List String × Extended) (p : String × String) : List String × Extended :=
  if p.1 = p.2 then s
  else
    let known := (expand fuel s.2 p.2).run answer
    (if (known.get p.2).contains p.1 then p.1 :: s.1 else s.1, known)

def provided (fuel : Nat) (s : List String × Extended) (i : String) : List String × Extended :=
  let known := (expand fuel s.2 i).run answer
  (i :: known.get i ++ s.1, known)

def pairsOf (direct : List String) : List (String × String) := direct.flatMap fun i => direct.map (i, ·)

theorem mem_pairsOf {direct : List String} {i j : String} : (i, j) ∈ pairsOf direct ↔ i ∈ direct ∧ j ∈ direct := by
  simp [pairsOf]

theorem run_extendedByOther (fuel : Nat) (direct : List String) (known : Extended) :
    (extendedByOther fuel direct known).run answer = (pairsOf direct).foldl (tested answer fuel) ([], known) := by
  unfold extendedByOther pairsOf
  rw [Lookup.run_foldlM, List.foldl_flatMap]
  congr 1
  funext s i
  rw [Lookup.run_foldlM, List.foldl_map]
  congr 1
  funext s j
  unfold tested
  by_cases hij : i = j
  · simp [hij]
  · simp [hij]

theorem run_inherited (fuel : Nat) (known : Extended) (chain : List Class) :
    (inherited fuel known chain).run answer = (chain.flatMap (·.interfaces)).foldl (provided answer fuel) ([], known) := by
  unfold inherited
  rw [Lookup.run_foldlM, List.foldl_flatMap]
  congr 1
  funext s c
  rw [Lookup.run_foldlM]
  congr 1
  funext s i
  simp [provided]

theorem foldl_done {σ β : Type} {f : σ → β → σ} {P : List β → σ → Prop} {l : List β}
    (hstep : ∀ done s, ∀ x ∈ l, P done s → P (done ++ [x]) (f s x)) {done : List β} {s : σ} (h : P done s) :
    P (done ++ l) (l.foldl f s) := by
  induction l generalizing done s with
  | nil => simpa using h
  | cons x l ih =>
    have hnext := ih (fun done s y hy => hstep done s y (by simp [hy])) (hstep done s x (by simp) h)
    simpa using hnext

variable {answer}

variable (answer) in
structure Tested (done : List (String × String)) (s : List String × Extended) : Prop where
  surveyed : s.2.Surveyed answer fun r => ∃ i, (i, r) ∈ done ∧ i ≠ r
  listed : ∀ i j, (i, j) ∈ done → i ≠ j → i ∈ s.2.get j → i ∈ s.1

variable (answer) in
structure Provided (roots : String → Prop) (known : Extended) (done : List String) (s : List String × Extended) : Prop where
  surveyed : s.2.Surveyed answer fun r => roots r ∨ r ∈ done
  kept : known.Kept s.2
  listed : ∀ j ∈ done, ∀ i, i = j ∨ i ∈ s.2.get j → i ∈ s.1

section
variable {names : List String} (hnames : ∀ child parent, Extends answer child parent → parent ∈ names) {fuel : Nat}
  (hfuel : names.length < fuel)
include hnames hfuel

theorem Tested.step {done : List (String × String)} {s : List String × Extended} (h : Tested answer done s)
    {p : String × String} (hp : p.2 ∈ names) : Tested answer (done ++ [p]) (tested answer fuel s p) := by
  obtain ⟨i, j⟩ := p
  unfold tested
  by_cases hij : i = j
  · rw [if_pos hij]
    have hroots : ∀ r, (∃ a, (a, r) ∈ done ∧ a ≠ r) ↔ ∃ a, (a, r) ∈ done ++ [(i, j)] ∧ a ≠ r := by grind
    refine ⟨h.surveyed.congr hroots, fun a b hab hne => h.listed a b ?_ hne⟩
    grind
  · rw [if_neg hij]
    obtain ⟨hsurveyed, hkept⟩ := h.surveyed.expand hnames hp hfuel
    generalize (expand fuel s.2 j).run answer = known at *
    have hroots : ∀ r, ((∃ a, (a, r) ∈ done ∧ a ≠ r) ∨ r = j) ↔ ∃ a, (a, r) ∈ done ++ [(i, j)] ∧ a ≠ r := by grind
    refine ⟨hsurveyed.congr hroots, fun a b hab hne hmem => ?_⟩
    dsimp only at hmem ⊢
    rcases List.mem_append.1 hab with hab | hab
    · have hhas : s.2.has b = true := h.surveyed.rooted b ⟨a, hab, hne⟩
      rw [(hkept b hhas).2] at hmem
      have hold : a ∈ s.1 := h.listed a b hab hne hmem
      by_cases hget : i ∈ known.get j <;> simp [hget, hold]
    · cases List.mem_singleton.1 hab
      simp [hmem]

theorem Provided.step {roots : String → Prop} {known : Extended} {done : List String} {s : List String × Extended}
    (h : Provided answer roots known done s) {i : String} (hi : i ∈ names) :
    Provided answer roots known (done ++ [i]) (provided answer fuel s i) := by
  obtain ⟨hsurveyed, hkept⟩ := h.surveyed.expand hnames hi hfuel
  unfold provided
  generalize (expand fuel s.2 i).run answer = next at *
  have hroots : ∀ r, ((roots r ∨ r ∈ done) ∨ r = i) ↔ roots r ∨ r ∈ done ++ [i] := by grind
  refine ⟨hsurveyed.congr hroots, h.kept.trans hkept, fun j hj a ha => ?_⟩
  dsimp only at ha ⊢
  rw [List.cons_append, List.mem_cons, List.mem_append]
  rcases List.mem_append.1 hj with hj | hj
  · have hhas : s.2.has j = true := h.surveyed.rooted j (.inr hj)
    rw [(hkept j hhas).2] at ha
    exact .inr (.inr (h.listed j hj a ha))
  · rw [List.mem_singleton.1 hj] at ha
    exact ha.imp id .inl

theorem tested_extendedByOther {direct : List String} (hdirect : ∀ i ∈ direct, i ∈ names) :
    Tested answer (pairsOf direct) ((extendedByOther fuel direct []).run answer) := by
  have hstart : Tested answer [] ([], []) := ⟨Extended.surveyed_nil _ (by simp), by simp⟩
  rw [run_extendedByOther]
  exact foldl_done (fun done s p hp h => h.step hnames hfuel (hdirect p.2 (mem_pairsOf.1 hp).2)) hstart

theorem provided_inherited {roots : String → Prop} {known : Extended} (hknown : known.Surveyed answer roots)
    {chain : List Class} (hchain : ∀ c ∈ chain, ∀ i ∈ c.interfaces, i ∈ names) :
    Provided answer roots known (chain.flatMap (·.interfaces)) ((inherited fuel known chain).run answer) := by
  have hstart : Provided answer roots known [] ([], known) :=
    ⟨hknown.congr (by simp), fun n hn => ⟨hn, rfl⟩, by simp⟩
  rw [run_inherited]
  refine foldl_done (fun done s i hi h => h.step hnames hfuel ?_) hstart
  obtain ⟨c, hc, hi⟩ := List.mem_flatMap.1 hi
  exact hchain c hc i hi

end

variable (answer) in
def Provides (c : Class) (i : String) : Prop := ∃ a, Above answer c.super a ∧ i ∈ a.interfaces

section
variable {classes : List Class} (hfinite : ∀ name k, answer name = some k → k ∈ classes) (c : Class)
include hfinite

theorem fromSuper_provided {fuel : Nat} (hnames : (interfaceNames c classes).length < fuel)
    (hsuper : (superNames c classes).length < fuel) {roots : String → Prop} {known : Extended}
    (hknown : known.Surveyed answer roots) :
    ∃ out : Extended, out.Surveyed answer (fun r => roots r ∨ Provides answer c r) ∧ known.Kept out ∧
      ∀ j, Provides answer c j → ∀ i, i = j ∨ i ∈ out.get j → i ∈ (fromSuper fuel c known).run answer := by
  unfold fromSuper
  by_cases hhas : c.hasSuper = true
  · have hchain : ∀ a, a ∈ (chainFrom fuel [] c.super).run answer ↔ Above answer c.super a :=
      fun a => mem_chain_iff hfinite c hsuper
    have hprovides : ∀ i, i ∈ ((chainFrom fuel [] c.super).run answer).flatMap (·.interfaces) ↔ Provides answer c i := by
      intro i
      simp only [List.mem_flatMap, hchain]
      rfl
    have hmem : ∀ a ∈ (chainFrom fuel [] c.super).run answer, ∀ i ∈ a.interfaces, i ∈ interfaceNames c classes := by
      intro a ha i hi
      have hclass := mem_classes_of_above hfinite ((hchain a).1 ha)
      exact List.mem_append_right _ (List.mem_flatMap.2 ⟨a, hclass, hi⟩)
    have hrun := provided_inherited (fun _ _ => mem_interfaceNames hfinite c) hnames hknown hmem
    rw [if_pos hhas]
    simp only [Lookup.run_bind, Lookup.run_pure]
    refine ⟨_, hrun.surveyed.congr fun r => or_congr_right (hprovides r), hrun.kept, fun j hj i hi => ?_⟩
    exact hrun.listed j ((hprovides j).2 hj) i hi
  · rw [if_neg hhas]
    have hnone : ∀ i, ¬ Provides answer c i := fun i ⟨a, ha, _⟩ => not_above_of_not_hasSuper hhas a ha
    refine ⟨known, hknown.congr fun r => by simp [hnone r], fun n hn => ⟨hn, rfl⟩, fun j hj => absurd hj (hnone j)⟩

variable (answer) in
def Searched (c : Class) (r : String) : Prop :=
  (r ∈ c.interfaces ∧ ∃ i ∈ c.interfaces, i ≠ r) ∨ Provides answer c r

/-- The entries after all searches of a class. What the entry of another interface holds is judged redundant. -/
theorem exists_survey {around : Surroundings} (hreach : reachOf classes ≤ around.reach) :
    ∃ known : Extended, known.Surveyed answer (Searched answer c) ∧
      ∀ i ∈ c.interfaces, 2 ≤ c.interfaces.count i ∨ Provides answer c i ∨
        (∃ r, Searched answer c r ∧ i ≠ r ∧ i ∈ known.get r) → i ∈ (redundant c around).run answer := by
  have hlength := length_names c classes
  have hpos : 0 < (superNames c classes).length := Nat.succ_pos _
  unfold redundant
  generalize hfuel : around.reach + c.interfaces.length + 2 = fuel
  have htested : Tested answer (pairsOf c.interfaces) ((extendedByOther fuel c.interfaces []).run answer) :=
    tested_extendedByOther (fun _ _ => mem_interfaceNames hfinite c) (by omega : (interfaceNames c classes).length < fuel)
      fun i hi => List.mem_append_left _ hi
  obtain ⟨known, hsurveyed, hkept, hlisted⟩ := fromSuper_provided hfinite c
    (by omega : (interfaceNames c classes).length < fuel) (by omega) htested.surveyed
  refine ⟨known, hsurveyed.congr fun r => or_congr_left ?_, fun i hi hi' => ?_⟩
  · simp only [mem_pairsOf]
    grind
  · simp only [Lookup.run_bind, Lookup.run_pure, List.mem_filter, List.contains_iff_mem, List.mem_append]
    refine ⟨hi, ?_⟩
    rcases hi' with htwice | hprovides | ⟨r, ⟨hr, _⟩ | hr, hne, hmem⟩
    · exact .inl (.inl (mem_repeated.2 htwice))
    · exact .inr (hlisted i hprovides i (.inl rfl))
    · have hpair : (i, r) ∈ pairsOf c.interfaces := mem_pairsOf.2 ⟨hi, hr⟩
      have hhas := htested.surveyed.rooted r ⟨i, hpair, hne⟩
      rw [(hkept r hhas).2] at hmem
      exact .inl (.inr (htested.listed i r hpair hne hmem))
    · exact .inr (hlisted r hr i (.inr hmem))

variable {around : Surroundings} (hreach : reachOf classes ≤ around.reach) {i j : String} (hi : i ∈ c.interfaces)
include hreach hi

/-- Only an interface that extends itself can be missed: what leads to it is in the entry of some root, and that may be
its own. -/
theorem redundant_of_implied (himplied : Implied answer c i) (hself : ¬ TransGen (Extends answer) i i) :
    i ∈ (redundant c around).run answer := by
  obtain ⟨known, hsurveyed, hjudged⟩ := exists_survey hfinite c hreach
  have hreached : ∀ j, Searched answer c j → TransGen (Extends answer) j i → i ∈ (redundant c around).run answer := by
    intro j hj hji
    obtain ⟨r, hr, hmem⟩ := hsurveyed.reached j i (hsurveyed.rooted j hj) hji
    have hne : i ≠ r := fun e => hself (hsurveyed.sound i i (e ▸ hmem))
    exact hjudged i hi (.inr (.inr ⟨r, hr, hne, hmem⟩))
  cases himplied with
  | twice htwice => exact hjudged i hi (.inl htwice)
  | other hj hne hji => exact hreached _ (.inl ⟨hj, i, hi, hne.symm⟩) hji
  | inherited ha hj hji =>
    rcases reflTransGen_iff_eq_or_transGen.1 hji with rfl | hji
    · exact hjudged i hi (.inr (.inl ⟨_, ha, hj⟩))
    · exact hreached _ (.inr ⟨_, ha, hj⟩) hji

theorem redundant_of_circle (hj : j ∈ c.interfaces) (hne : i ≠ j) (hij : TransGen (Extends answer) i j)
    (hji : TransGen (Extends answer) j i) :
    i ∈ (redundant c around).run answer ∨ j ∈ (redundant c around).run answer := by
  obtain ⟨known, hsurveyed, hjudged⟩ := exists_survey hfinite c hreach
  have hhas := hsurveyed.rooted i (.inl ⟨hi, j, hj, hne.symm⟩)
  obtain ⟨r, hr, hcircle⟩ := hsurveyed.circles i hhas
  by_cases hir : i = r
  · have hjr : j ≠ r := fun e => hne (hir.trans e.symm)
    exact .inr (hjudged j hj (.inr (.inr ⟨r, hr, hjr, (hcircle j hij hji).resolve_left hjr⟩)))
  · have hmem := (hcircle i (hij.trans hji) (hij.trans hji)).resolve_left hir
    exact .inl (hjudged i hi (.inr (.inr ⟨r, hr, hir, hmem⟩)))

end

/-! ## Other orders -/

theorem Implied.perm {c : Class} {direct : List String} (hperm : c.interfaces.Perm direct) {i : String} (h : Implied answer c i) :
    Implied answer { c with interfaces := direct } i := by
  cases h with
  | twice htwice => exact .twice (by simpa [← hperm.count_eq] using htwice)
  | other hj hne hji => exact .other (hperm.mem_iff.1 hj) hne hji
  | inherited ha hj hji => exact .inherited ha hj hji

section
variable {classes : List Class} (hfinite : ∀ name k, answer name = some k → k ∈ classes) (c : Class)
  {around : Surroundings} (hreach : reachOf classes ≤ around.reach)
include hfinite hreach

theorem declared_of_redundant {i : String} (h : i ∈ (redundant c around).run answer) :
    i ∈ c.interfaces ∧ Implied answer c i := by
  obtain ⟨p, hrun, hp⟩ := redundant_implied hfinite c hreach
  rw [hrun, List.mem_filter] at h
  exact ⟨h.1, (hp i h.1).1 h.2⟩

theorem mem_redundant {i : String} (hself : ¬ TransGen (Extends answer) i i) :
    i ∈ (redundant c around).run answer ↔ i ∈ c.interfaces ∧ Implied answer c i :=
  ⟨declared_of_redundant hfinite c hreach, fun h => redundant_of_implied hfinite c hreach h.1 h.2 hself⟩

end

theorem mem_findings {c : Class} {around : Surroundings} {f : Finding} :
    f ∈ (check.findings c around).run answer ↔
      ∃ i ∈ (redundant c around).run answer, f = ⟨"RedundantInterface", .pattern, c.displayName, message c i⟩ := by
  rw [run_findings, run_remarks, List.map_map]
  simp only [List.mem_map, mem_dedup, exists_exists_and_eq_and]
  constructor
  · intro ⟨i, hi, hf⟩
    exact ⟨i, hi, hf.symm⟩
  · intro ⟨i, hi, hf⟩
    exact ⟨i, hi, hf.symm⟩

/-- Whether an interface is judged redundant does not depend on the order of the declarations unless the interface
extends itself; and of two declared interfaces that extend each other, at least one is judged redundant in every order.
So the findings are the same if no declared interface extends itself, whatever circles there are elsewhere. -/
theorem redundant_in_any_order {classes : List Class} (hfinite : ∀ name k, answer name = some k → k ∈ classes) (c : Class)
    {around : Surroundings} (hreach : reachOf classes ≤ around.reach) {direct : List String}
    (hperm : c.interfaces.Perm direct) :
    (∀ i, ¬ TransGen (Extends answer) i i →
      (i ∈ (redundant { c with interfaces := direct } around).run answer ↔ i ∈ (redundant c around).run answer)) ∧
    (∀ i ∈ c.interfaces, ∀ j ∈ c.interfaces, i ≠ j → TransGen (Extends answer) i j → TransGen (Extends answer) j i →
      i ∈ (redundant c around).run answer ∨ j ∈ (redundant c around).run answer) ∧
    ((∀ i ∈ c.interfaces, ¬ TransGen (Extends answer) i i) → ∀ f,
      f ∈ (check.findings { c with interfaces := direct } around).run answer ↔ f ∈ (check.findings c around).run answer) := by
  have hsame : ∀ i, ¬ TransGen (Extends answer) i i →
      (i ∈ (redundant { c with interfaces := direct } around).run answer ↔ i ∈ (redundant c around).run answer) := by
    intro i hself
    rw [mem_redundant hfinite _ hreach hself, mem_redundant hfinite c hreach hself]
    exact and_congr hperm.mem_iff.symm ⟨fun h => h.perm hperm.symm, fun h => h.perm hperm⟩
  refine ⟨hsame, fun i hi j hj => redundant_of_circle hfinite c hreach hi hj, fun hself f => ?_⟩
  have hjudged : ∀ i, i ∈ (redundant { c with interfaces := direct } around).run answer ↔ i ∈ (redundant c around).run answer := by
    intro i
    by_cases hi : i ∈ c.interfaces
    · exact hsame i (hself i hi)
    · have hi' : i ∉ direct := fun h => hi (hperm.mem_iff.2 h)
      exact ⟨fun h => absurd (declared_of_redundant hfinite _ hreach h).1 hi',
        fun h => absurd (declared_of_redundant hfinite c hreach h).1 hi⟩
  simp only [mem_findings, hjudged]
  rfl

def ringClasses : List Class := [
  { name := "app/Left", access := ⟨0x0600⟩, super := Name.object, interfaces := ["app/Middle"] },
  { name := "app/Middle", access := ⟨0x0600⟩, super := Name.object, interfaces := ["app/Right", "app/Left", "app/Plain"] },
  { name := "app/Right", access := ⟨0x0600⟩, super := Name.object, interfaces := ["app/Middle"] }]

def ringAnswer (name : String) : Option Class := ringClasses.find? (·.name == name)

def ringClass (direct : List String) : Class :=
  { name := "app/Ring", access := ⟨0x0001⟩, super := Name.object, interfaces := direct }

theorem redundant_in_any_order_ring :
    reachOf ringClasses = 8 ∧ ["app/Plain", "app/Right", "app/Left"].Perm ["app/Left", "app/Plain", "app/Right"] ∧
    ¬ TransGen (Extends ringAnswer) "app/Plain" "app/Plain" ∧
    ("app/Plain" ∈ (redundant (ringClass ["app/Left", "app/Plain", "app/Right"]) { reach := 8 }).run ringAnswer ↔
      "app/Plain" ∈ (redundant (ringClass ["app/Plain", "app/Right", "app/Left"]) { reach := 8 }).run ringAnswer) ∧
    TransGen (Extends ringAnswer) "app/Right" "app/Left" ∧ TransGen (Extends ringAnswer) "app/Left" "app/Right" ∧
    ("app/Right" ∈ (redundant (ringClass ["app/Plain", "app/Right", "app/Left"]) { reach := 8 }).run ringAnswer ∨
      "app/Left" ∈ (redundant (ringClass ["app/Plain", "app/Right", "app/Left"]) { reach := 8 }).run ringAnswer) := by
  have hfinite : ∀ name k, ringAnswer name = some k → k ∈ ringClasses := fun _ _ h => List.mem_of_find?_eq_some h
  have hperm : ["app/Plain", "app/Right", "app/Left"].Perm ["app/Left", "app/Plain", "app/Right"] := by decide
  have hplain : ¬ TransGen (Extends ringAnswer) "app/Plain" "app/Plain" := by
    intro h
    obtain ⟨p, ⟨k, hk, _⟩, _⟩ := TransGen.head'_iff.1 h
    have hnone : found ringAnswer "app/Plain" = none := rfl
    rw [hnone] at hk
    cases hk
  have hleft : Extends ringAnswer "app/Left" "app/Middle" := ⟨_, rfl, by decide⟩
  have hright : Extends ringAnswer "app/Right" "app/Middle" := ⟨_, rfl, by decide⟩
  have hmiddle : ∀ p ∈ ["app/Right", "app/Left"], Extends ringAnswer "app/Middle" p :=
    fun p hp => ⟨_, rfl, (by decide : ∀ p ∈ ["app/Right", "app/Left"], p ∈ ["app/Right", "app/Left", "app/Plain"]) p hp⟩
  have hto : TransGen (Extends ringAnswer) "app/Right" "app/Left" := .tail (.single hright) (hmiddle _ (by decide))
  have hback : TransGen (Extends ringAnswer) "app/Left" "app/Right" := .tail (.single hleft) (hmiddle _ (by decide))
  obtain ⟨hsame, hcircle, -⟩ := redundant_in_any_order hfinite (ringClass ["app/Plain", "app/Right", "app/Left"])
    (by decide : reachOf ringClasses ≤ ({ reach := 8 } : Surroundings).reach) hperm
  exact ⟨rfl, hperm, hplain, hsame _ hplain, hto, hback, hcircle _ (by decide) _ (by decide) (by decide) hto hback⟩

/-- The interface that is searched from first is missed if it is on a circle and the search comes to another one on its
way round. -/
theorem ring_judged_by_order :
    ["app/Right", "app/Left"].Perm ["app/Left", "app/Right"] ∧
    (redundant (ringClass ["app/Right", "app/Left"]) { reach := 8 }).run ringAnswer = ["app/Right"] ∧
    (redundant (ringClass ["app/Left", "app/Right"]) { reach := 8 }).run ringAnswer = ["app/Left", "app/Right"] ∧
    Implied ringAnswer (ringClass ["app/Right", "app/Left"]) "app/Left" := by
  have hmiddle : Extends ringAnswer "app/Right" "app/Middle" := ⟨_, rfl, by decide⟩
  have hleft : Extends ringAnswer "app/Middle" "app/Left" := ⟨_, rfl, by decide⟩
  refine ⟨.swap _ _ _, ?_, ?_, ?_⟩
  · decide
  · decide
  · exact .other (List.mem_cons_self ..) (by decide) (.tail (.single hmiddle) hleft)

end RedundantInterface

end JvmLint
