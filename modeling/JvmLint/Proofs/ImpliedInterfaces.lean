import JvmLint.Check.RedundantInterface
import JvmLint.Proofs.BuiltInChecks
import JvmLint.Proofs.Dedup
import JvmLint.Proofs.Hierarchies
import JvmLint.Source

/-!
# Implied interfaces

An interface that a class declares is implied if it is declared twice, if
another declared interface extends it, or if a superclass implements it. What
the check reports is implied, in hierarchies with circles too; without circles
it reports all that is implied. It ends on every finite set of classes.
-/

namespace JvmLint.RedundantInterface

open Relation

variable (answer : String → Option Class)

inductive Implied (c : Class) (i : String) : Prop
  | twice : 2 ≤ c.interfaces.count i → Implied c i
  | other {j : String} : j ∈ c.interfaces → j ≠ i → TransGen (Extends answer) j i → Implied c i
  | inherited {a : Class} {j : String} : Above answer c.super a → j ∈ a.interfaces →
    ReflTransGen (Extends answer) j i → Implied c i

def Start (c : Class) (i : String) : Prop := i ∈ c.interfaces ∨ ∃ a, Above answer c.super a ∧ i ∈ a.interfaces

def Acyclic (c : Class) : Prop := ∀ i, Start answer c i → AcyclicFrom answer i

/-! ## Collecting names -/

/-- `out` has the names of `before` and some with the property `P`; all of them if there are no circles. -/
structure Collects (acyclic : Prop) (P : String → Prop) (before out : List String) : Prop where
  only : ∀ a ∈ out, a ∈ before ∨ P a
  all : acyclic → ∀ a, a ∈ before ∨ P a → a ∈ out

variable {answer} {acyclic : Prop}

theorem Collects.congr {P Q : String → Prop} {before out : List String} (h : Collects acyclic P before out)
    (hPQ : ∀ a, P a ↔ Q a) : Collects acyclic Q before out :=
  ⟨fun a ha => (h.only a ha).imp id (hPQ a).1, fun hac a ha => h.all hac a (ha.imp id (hPQ a).2)⟩

theorem collects_foldl {α : Type} {f : List String × Extended → α → List String × Extended} {P : α → String → Prop}
    {l : List α} (h : ∀ s, ∀ x ∈ l, s.2.Valid answer acyclic →
      (f s x).2.Valid answer acyclic ∧ Collects acyclic (P x) s.1 (f s x).1)
    {s : List String × Extended} (hs : s.2.Valid answer acyclic) :
    (l.foldl f s).2.Valid answer acyclic ∧ Collects acyclic (fun a => ∃ x ∈ l, P x a) s.1 (l.foldl f s).1 := by
  induction l generalizing s with
  | nil => exact ⟨hs, fun a ha => .inl ha, fun _ a ha => by simpa using ha⟩
  | cons x l ih =>
    obtain ⟨hvalid, honly, hall⟩ := h s x (by simp) hs
    obtain ⟨hvalid', honly', hall'⟩ := ih (fun s y hy => h s y (by simp [hy])) hvalid
    refine ⟨hvalid', ?_, ?_⟩
    · intro a ha
      rcases honly' a ha with ha | ⟨y, hy, ha⟩
      · rcases honly a ha with ha | ha
        · exact .inl ha
        · exact .inr ⟨x, by simp, ha⟩
      · exact .inr ⟨y, by simp [hy], ha⟩
    · intro hac a ha
      apply hall' hac a
      rcases ha with ha | ⟨y, hy, ha⟩
      · exact .inl (hall hac a (.inl ha))
      · rcases List.mem_cons.1 hy with rfl | hy
        · exact .inl (hall hac a (.inr ha))
        · exact .inr ⟨y, hy, ha⟩

/-! ## The three reasons -/

theorem mem_repeated {l : List String} {a : String} : a ∈ repeated l ↔ 2 ≤ l.count a := by
  induction l with
  | nil => simp [repeated]
  | cons b l ih =>
    unfold repeated
    by_cases hb : b = a
    · subst hb
      by_cases hmem : b ∈ l
      · simp [hmem]
      · have hzero : l.count b = 0 := List.count_eq_zero.2 hmem
        simp [hmem, ih, hzero]
    · by_cases hmem : b ∈ l
      · simp [hmem, hb, ih, Ne.symm hb]
      · simp [hmem, hb, ih]

section
variable {names : List String} (hnames : ∀ child parent, Extends answer child parent → parent ∈ names) {fuel : Nat}
  (hfuel : names.length < fuel)
include hnames hfuel

theorem extendedByOther_collects (direct : List String) {known : Extended} (hdirect : ∀ i ∈ direct, i ∈ names)
    (hacyclic : acyclic → ∀ i ∈ direct, AcyclicFrom answer i) (hknown : known.Valid answer acyclic) :
    ((extendedByOther fuel direct known).run answer).2.Valid answer acyclic ∧
      Collects acyclic (fun i => i ∈ direct ∧ ∃ j ∈ direct, j ≠ i ∧ TransGen (Extends answer) j i) []
        ((extendedByOther fuel direct known).run answer).1 := by
  unfold extendedByOther
  rw [Lookup.run_foldlM]
  have hreasons : ∀ a, (∃ i ∈ direct, ∃ j ∈ direct, a = i ∧ j ≠ i ∧ TransGen (Extends answer) j i) ↔
      a ∈ direct ∧ ∃ j ∈ direct, j ≠ a ∧ TransGen (Extends answer) j a := by grind
  refine And.imp_right (fun hout => Collects.congr hout hreasons) (collects_foldl ?_ hknown)
  rintro ⟨out, known⟩ i _ hs
  dsimp only at hs ⊢
  rw [Lookup.run_foldlM]
  refine collects_foldl (P := fun j a => a = i ∧ j ≠ i ∧ TransGen (Extends answer) j i) ?_ hs
  rintro ⟨out, known⟩ j hj hs
  dsimp only at hs ⊢
  by_cases hij : i = j
  · rw [if_pos hij, Lookup.run_pure]
    exact ⟨hs, fun a ha => .inl ha, fun _ a ha => by grind⟩
  · rw [if_neg hij, Lookup.run_bind, Lookup.run_pure]
    obtain ⟨hvalid, hhas⟩ := hs.expand hnames (fun hac => hacyclic hac j hj) (hdirect j hj) hfuel
    generalize (expand fuel known j).run answer = known at *
    refine ⟨hvalid, ?_, ?_⟩
    · intro a ha
      by_cases hget : i ∈ known.get j
      · have hreach := hvalid.sound j i hget
        have ha : a = i ∨ a ∈ out := by simpa [hget] using ha
        grind
      · exact .inl (by simpa [hget] using ha)
    · intro hac a ha
      rcases ha with ha | ⟨rfl, _, hreach⟩
      · by_cases hget : i ∈ known.get j <;> simp [hget, ha]
      · have hget : a ∈ known.get j := (hvalid.full hac j hhas).mem hreach
        simp [hget]

theorem inherited_collects {chain : List Class} {known : Extended} (hchain : ∀ c ∈ chain, ∀ i ∈ c.interfaces, i ∈ names)
    (hacyclic : acyclic → ∀ c ∈ chain, ∀ i ∈ c.interfaces, AcyclicFrom answer i) (hknown : known.Valid answer acyclic) :
    Collects acyclic (fun a => ∃ c ∈ chain, ∃ i ∈ c.interfaces, ReflTransGen (Extends answer) i a) []
      ((inherited fuel known chain).run answer).1 := by
  unfold inherited
  rw [Lookup.run_foldlM]
  refine (collects_foldl (s := ([], known)) ?_ hknown).2
  rintro ⟨out, known⟩ c hc hs
  dsimp only at hs ⊢
  rw [Lookup.run_foldlM]
  refine collects_foldl (P := fun i a => ReflTransGen (Extends answer) i a) ?_ hs
  rintro ⟨out, known⟩ i hi hs
  dsimp only at hs ⊢
  rw [Lookup.run_bind, Lookup.run_pure]
  obtain ⟨hvalid, hhas⟩ := hs.expand hnames (fun hac => hacyclic hac c hc i hi) (hchain c hc i hi) hfuel
  generalize (expand fuel known i).run answer = known at *
  refine ⟨hvalid, ?_, ?_⟩
  · intro a ha
    rw [List.cons_append, List.mem_cons, List.mem_append] at ha
    rcases ha with rfl | ha | ha
    · exact .inr .refl
    · exact .inr (hvalid.sound i a ha).to_reflTransGen
    · exact .inl ha
  · intro hac a ha
    rw [List.cons_append, List.mem_cons, List.mem_append]
    rcases ha with ha | ha
    · exact .inr (.inr ha)
    · rcases reflTransGen_iff_eq_or_transGen.1 ha with rfl | ha
      · exact .inl rfl
      · exact .inr (.inl ((hvalid.full hac i hhas).mem ha))

end

theorem not_above_of_not_hasSuper {c : Class} (h : ¬ c.hasSuper = true) (a : Class) : ¬ Above answer c.super a := by
  have hend : c.super = "" ∨ c.super = Name.object := by
    by_cases hempty : c.super = ""
    · exact .inl hempty
    · exact .inr (by simpa [Class.hasSuper, hempty] using h)
  intro ⟨n, hn⟩
  cases n <;> simp [ancestor?, climb_of_end answer hend] at hn

/-! ## Finitely many classes -/

def interfaceNames (c : Class) (classes : List Class) : List String :=
  c.interfaces ++ classes.flatMap (·.interfaces)

def superNames (c : Class) (classes : List Class) : List String := c.super :: classes.map (·.super)

theorem length_names (c : Class) (classes : List Class) :
    (interfaceNames c classes).length + (superNames c classes).length = reachOf classes + c.interfaces.length + 1 := by
  have hreach : (classes.flatMap (·.interfaces)).length + classes.length = reachOf classes := by
    unfold reachOf
    induction classes with
    | nil => rfl
    | cons k classes ih =>
      simp only [List.flatMap_cons, List.length_append, List.length_cons, List.map_cons, total]
      omega
  simp only [interfaceNames, superNames, List.length_append, List.length_cons, List.length_map]
  omega

section
variable {classes : List Class} (hfinite : ∀ name k, answer name = some k → k ∈ classes) (c : Class)
include hfinite

theorem mem_interfaceNames {child parent : String} (h : Extends answer child parent) :
    parent ∈ interfaceNames c classes := by
  obtain ⟨k, hk, hparent⟩ := h
  exact List.mem_append_right _ (List.mem_flatMap.2 ⟨k, hfinite child k (found_eq answer hk).2, hparent⟩)

theorem mem_classes_of_climb {name : String} {k : Class} (h : climb answer name = some k) : k ∈ classes := by
  unfold climb at h
  by_cases hroot : name = Name.object
  · simp [hroot] at h
  · rw [if_neg hroot] at h
    exact hfinite name k (found_eq answer h).2

theorem mem_superNames {name : String} {k : Class} (h : climb answer name = some k) :
    k.super ∈ superNames c classes :=
  List.mem_cons_of_mem _ (List.mem_map_of_mem (mem_classes_of_climb hfinite h))

theorem mem_classes_of_above {name : String} {a : Class} (h : Above answer name a) : a ∈ classes := by
  obtain ⟨n, hn⟩ := h
  induction n generalizing name with
  | zero => exact mem_classes_of_climb hfinite hn
  | succ n ih =>
    obtain ⟨k, _, hk⟩ := Option.bind_eq_some_iff.1 hn
    exact ih hk

theorem mem_chain_iff {fuel : Nat} (hfuel : (superNames c classes).length < fuel) {a : Class} :
    a ∈ (chainFrom fuel [] c.super).run answer ↔ Above answer c.super a := by
  constructor
  · exact above_of_mem_chainFrom answer
  · rintro ⟨n, hn⟩
    have hnames : ∀ name k, climb answer name = some k → k.super ∈ superNames c classes :=
      fun _ _ => mem_superNames hfinite c
    have hunmet : unmet (superNames c classes) [] < fuel := Nat.lt_of_le_of_lt List.countP_le_length hfuel
    rcases mem_chainFrom hnames (List.mem_cons_self ..) hunmet hn with hmem | ⟨s, hs, _⟩
    · exact hmem
    · cases hs

theorem fromSuper_collects {fuel : Nat} (hnames : (interfaceNames c classes).length < fuel)
    (hsuper : (superNames c classes).length < fuel) {known : Extended} (hknown : known.Valid answer (Acyclic answer c)) :
    Collects (Acyclic answer c) (fun i => ∃ a, Above answer c.super a ∧ ∃ j ∈ a.interfaces, ReflTransGen (Extends answer) j i)
      [] ((fromSuper fuel c known).run answer) := by
  unfold fromSuper
  by_cases hhas : c.hasSuper = true
  · rw [if_pos hhas]
    simp only [Lookup.run_bind, Lookup.run_pure]
    have hchain : ∀ a, a ∈ (chainFrom fuel [] c.super).run answer ↔ Above answer c.super a :=
      fun a => mem_chain_iff hfinite c hsuper
    refine (inherited_collects (fun _ _ => mem_interfaceNames hfinite c) hnames ?_ ?_ hknown).congr ?_
    · intro a ha i hi
      have hmem := mem_classes_of_above hfinite ((hchain a).1 ha)
      exact List.mem_append_right _ (List.mem_flatMap.2 ⟨a, hmem, hi⟩)
    · exact fun hac a ha i hi => hac i (.inr ⟨a, (hchain a).1 ha, hi⟩)
    · intro i
      simp only [hchain]
  · rw [if_neg hhas]
    refine ⟨fun a ha => .inl ha, ?_⟩
    rintro _ i (hi | ⟨a, ha, _⟩)
    · exact hi
    · exact absurd ha (not_above_of_not_hasSuper hhas a)

/-- What is kept is implied, and without circles all that is implied is kept. -/
theorem redundant_implied {around : Surroundings} (hreach : reachOf classes ≤ around.reach) :
    ∃ p : String → Bool, (redundant c around).run answer = c.interfaces.filter p ∧
      ∀ i ∈ c.interfaces, (p i = true → Implied answer c i) ∧ (Acyclic answer c → Implied answer c i → p i = true) := by
  have hlength := length_names c classes
  have hpos : 0 < (superNames c classes).length := Nat.succ_pos _
  unfold redundant
  generalize hfuel : around.reach + c.interfaces.length + 2 = fuel
  obtain ⟨hvalid, hother⟩ := extendedByOther_collects (fun _ _ => mem_interfaceNames hfinite c)
    (by omega : (interfaceNames c classes).length < fuel) c.interfaces
    (fun i hi => List.mem_append_left _ hi) (fun (hac : Acyclic answer c) i hi => hac i (.inl hi)) (Extended.valid_nil _)
  have hsuper := fromSuper_collects hfinite c (by omega : (interfaceNames c classes).length < fuel) (by omega) hvalid
  simp only [Lookup.run_bind, Lookup.run_pure]
  refine ⟨_, rfl, fun i hi => ⟨fun hp => ?_, fun hac himplied => ?_⟩⟩
  · rw [List.contains_iff_mem, List.mem_append, List.mem_append] at hp
    rcases hp with (hp | hp) | hp
    · exact .twice (mem_repeated.1 hp)
    · rcases hother.only i hp with hp | ⟨_, j, hj, hne, hreach⟩
      · cases hp
      · exact .other hj hne hreach
    · rcases hsuper.only i hp with hp | ⟨a, ha, j, hj, hreach⟩
      · cases hp
      · exact .inherited ha hj hreach
  · rw [List.contains_iff_mem, List.mem_append, List.mem_append]
    cases himplied with
    | twice htwice => exact .inl (.inl (mem_repeated.2 htwice))
    | other hj hne hreach => exact .inl (.inr (hother.all hac i (.inr ⟨hi, _, hj, hne, hreach⟩)))
    | inherited ha hj hreach => exact .inr (hsuper.all hac i (.inr ⟨_, ha, _, hj, hreach⟩))

/-! ## Questions -/

theorem spends_extendedByOther (fuel : Nat) (known : Extended) :
    (extendedByOther fuel c.interfaces known).Spends answer (fun s => unexplored (interfaceNames c classes) s.2)
      (unexplored (interfaceNames c classes) known) := by
  unfold extendedByOther
  apply Lookup.spends_foldlM (b := ([], known))
  rintro ⟨out, known⟩ i _
  apply Lookup.spends_foldlM (b := (out, known))
  rintro ⟨out, known⟩ j hj
  dsimp only
  by_cases hij : i = j
  · rw [if_pos hij]
    exact Lookup.spends_pure (Nat.le_refl _)
  · rw [if_neg hij]
    have hmem : j ∈ interfaceNames c classes := List.mem_append_left _ hj
    exact (spends_expand (fun _ _ => mem_interfaceNames hfinite c) hmem).bind (Lookup.spends_pure (Nat.le_refl _))

theorem spends_inherited (fuel : Nat) (known : Extended) {chain : List Class} (hchain : ∀ a ∈ chain, a ∈ classes) :
    (inherited fuel known chain).Spends answer (fun s => unexplored (interfaceNames c classes) s.2)
      (unexplored (interfaceNames c classes) known) := by
  unfold inherited
  apply Lookup.spends_foldlM (b := ([], known))
  rintro ⟨out, known⟩ a ha
  apply Lookup.spends_foldlM (b := (out, known))
  rintro ⟨out, known⟩ i hi
  have hmem : i ∈ interfaceNames c classes := List.mem_append_right _ (List.mem_flatMap.2 ⟨a, hchain a ha, hi⟩)
  exact (spends_expand (fun _ _ => mem_interfaceNames hfinite c) hmem).bind (Lookup.spends_pure (Nat.le_refl _))

theorem spends_fromSuper (fuel : Nat) (known : Extended) :
    (fromSuper fuel c known).Spends answer (fun _ => 0)
      (unmet (superNames c classes) [] + unexplored (interfaceNames c classes) known) := by
  unfold fromSuper
  by_cases hhas : c.hasSuper = true
  · rw [if_pos hhas]
    have hchain : (chainFrom fuel [] c.super).Spends answer (fun _ => 0) (unmet (superNames c classes) []) :=
      spends_chainFrom (fun _ _ => mem_superNames hfinite c) (List.mem_cons_self ..)
    refine (hchain.keep (unexplored (interfaceNames c classes) known)).bind ?_
    have hmem : ∀ a ∈ (chainFrom fuel [] c.super).run answer, a ∈ classes :=
      fun a ha => mem_classes_of_above hfinite (above_of_mem_chainFrom answer ha)
    rw [Nat.zero_add]
    exact (spends_inherited hfinite c fuel known hmem).bind (Lookup.spends_pure (Nat.zero_le _))
  · rw [if_neg hhas]
    exact Lookup.spends_pure (Nat.zero_le _)

theorem spends_redundant (around : Surroundings) :
    (redundant c around).Spends answer (fun _ => 0) (reachOf classes + c.interfaces.length + 1) := by
  have hnames := unexplored_le_length (interfaceNames c classes) []
  have hsuper : unmet (superNames c classes) [] ≤ (superNames c classes).length := List.countP_le_length
  have hlength := length_names c classes
  unfold redundant
  refine (((spends_extendedByOther hfinite c _ _).keep (unmet (superNames c classes) [])).mono (by omega)).bind ?_
  refine ((spends_fromSuper hfinite c _ _).mono (Nat.le_of_eq (Nat.add_comm _ _))).bind ?_
  exact Lookup.spends_pure (Nat.le_refl 0)

end

/-! ## Findings -/

theorem run_remarks (c : Class) (around : Surroundings) :
    (remarks c around).run answer =
      (dedup (((redundant c around).run answer).map (message c))).map fun m => { location := c.displayName, message := m } := by
  unfold remarks
  by_cases hempty : c.interfaces.isEmpty = true
  · have hnil : c.interfaces = [] := List.isEmpty_iff.1 hempty
    have hnone : (redundant c around).run answer = [] := by simp [redundant, hnil]
    rw [if_pos hempty, hnone]
    rfl
  · rw [if_neg hempty, Lookup.run_bind, Lookup.run_pure]

theorem run_findings (c : Class) (around : Surroundings) :
    (check.findings c around).run answer = ((remarks c around).run answer).map info.finding := by
  rw [Check.findings, check, CheckInfo.check, Lookup.run_map, Lookup.run_map]
  rfl

theorem length_asked_findings (c : Class) (around : Surroundings) :
    ((check.findings c around).asked answer).length ≤ ((redundant c around).asked answer).length := by
  rw [Check.findings, check, CheckInfo.check, Lookup.asked_map, Lookup.asked_map, remarks]
  by_cases hempty : c.interfaces.isEmpty = true
  · simp [hempty]
  · simp [hempty]

/-- Two messages for a class are the same if the interfaces have the same simple name. -/
theorem message_eq_iff (c : Class) (i j : String) : message c i = message c j ↔ Name.simple i = Name.simple j := by
  unfold message
  constructor
  · intro h
    have h := congrArg String.toList h
    simp only [String.toList_append] at h
    have h := List.append_cancel_right (List.append_cancel_right (List.append_cancel_right h))
    exact String.toList_inj.1 (List.append_cancel_left h)
  · intro h
    rw [h]

open Classical in
noncomputable def impliedNames (answer : String → Option Class) (c : Class) : List String :=
  c.interfaces.filter fun i => Implied answer c i

/-- However far its walks may go, the check asks for no more names than there are to be met, so it ends. With
walks as long as that, it reports only implied interfaces, and if no interface extends itself, all of them: a
finding for each simple name, in the order in which the interfaces are declared. -/
theorem findings_implied {classes : List Class} (hfinite : ∀ name k, answer name = some k → k ∈ classes) (c : Class)
    (around : Surroundings) :
    ((check.findings c around).asked answer).length ≤ reachOf classes + c.interfaces.length + 1 ∧
    (reachOf classes ≤ around.reach →
      (∀ f ∈ (check.findings c around).run answer, ∃ i ∈ c.interfaces, Implied answer c i ∧
        f = ⟨"RedundantInterface", .pattern, c.displayName, message c i⟩) ∧
      (Acyclic answer c → ∃ messages, FirstsOf ((impliedNames answer c).map (message c)) messages ∧
        (check.findings c around).run answer = messages.map fun m => ⟨"RedundantInterface", .pattern, c.displayName, m⟩)) ∧
    ∀ i j, message c i = message c j ↔ Name.simple i = Name.simple j := by
  refine ⟨?_, fun hreach => ?_, message_eq_iff c⟩
  · exact Nat.le_trans (length_asked_findings c around) (spends_redundant hfinite c around)
  · obtain ⟨p, hrun, hp⟩ := redundant_implied hfinite c hreach
    rw [run_findings, run_remarks, hrun, List.map_map]
    refine ⟨?_, fun hacyclic => ⟨_, firstsOf_dedup _, ?_⟩⟩
    · intro f hf
      obtain ⟨m, hm, rfl⟩ := List.mem_map.1 hf
      obtain ⟨i, hi, rfl⟩ := List.mem_map.1 (mem_dedup.1 hm)
      obtain ⟨hi, hpi⟩ := List.mem_filter.1 hi
      exact ⟨i, hi, (hp i hi).1 hpi, rfl⟩
    · have hsame : impliedNames answer c = c.interfaces.filter p := by
        apply List.filter_congr
        intro i hi
        obtain ⟨honly, hall⟩ := hp i hi
        by_cases himplied : Implied answer c i
        · simp [himplied, hall hacyclic himplied]
        · simp [himplied, mt honly himplied]
      rw [hsame]
      rfl

/-- A store that declares what a sorted list extends by two steps, and what its superclass provides. -/
def store : Class :=
  { name := "app/Store", access := ⟨0⟩, super := "app/Base", interfaces := ["app/Sized", "app/Sorted", "app/Closing"] }

def storeClasses : List Class := [
  { name := "app/Sorted", access := ⟨0x0200⟩, super := Name.object, interfaces := ["app/Listed"] },
  { name := "app/Listed", access := ⟨0x0200⟩, super := Name.object, interfaces := ["app/Sized"] },
  { name := "app/Base", access := ⟨0⟩, super := Name.object, interfaces := ["app/Closing"] }]

def storeAnswer (name : String) : Option Class := storeClasses.find? (·.name == name)

def storeDepth (name : String) : Nat := if name = "app/Sorted" then 2 else if name = "app/Sized" ∨ name = "app/Closing" then 0 else 1

theorem storeDepth_lt {a b : String} (h : TransGen (Extends storeAnswer) a b) : storeDepth b < storeDepth a := by
  have hstep : ∀ a b, Extends storeAnswer a b → storeDepth b < storeDepth a := by
    rintro a b ⟨k, hk, hb⟩
    have hfind := (found_eq storeAnswer hk).2
    have hname : k.name = a := by simpa using List.find?_some hfind
    have hmem : k ∈ storeClasses := List.mem_of_find?_eq_some hfind
    simp only [storeClasses, List.mem_cons, List.not_mem_nil, or_false] at hmem
    rcases hmem with rfl | rfl | rfl <;> simp only [List.mem_singleton] at hb <;> subst hname hb <;> decide
  induction h with
  | single h => exact hstep _ _ h
  | tail _ h ih => exact Nat.lt_trans (hstep _ _ h) ih

theorem findings_implied_store :
    Acyclic storeAnswer store ∧ reachOf storeClasses = 6 ∧
    ((check.findings store { reach := 6 }).asked storeAnswer).length ≤ 10 ∧
    ∃ messages, message store "app/Sized" ∈ messages ∧
      FirstsOf ((impliedNames storeAnswer store).map (message store)) messages ∧
      (check.findings store { reach := 6 }).run storeAnswer =
        messages.map fun m => ⟨"RedundantInterface", .pattern, "app.Store", m⟩ := by
  have hfinite : ∀ name k, storeAnswer name = some k → k ∈ storeClasses := fun _ _ h => List.mem_of_find?_eq_some h
  have hacyclic : Acyclic storeAnswer store := fun _ _ n _ hn => Nat.lt_irrefl _ (storeDepth_lt hn)
  obtain ⟨hasked, hfindings, -⟩ := findings_implied hfinite store { reach := 6 }
  obtain ⟨messages, hfirsts, hrun⟩ := (hfindings (by decide)).2 hacyclic
  have hlisted : Extends storeAnswer "app/Sorted" "app/Listed" := ⟨_, rfl, by decide⟩
  have hsized : Extends storeAnswer "app/Listed" "app/Sized" := ⟨_, rfl, by decide⟩
  have himplied : Implied storeAnswer store "app/Sized" :=
    .other (j := "app/Sorted") (by decide) (by decide) (.tail (.single hlisted) hsized)
  refine ⟨hacyclic, rfl, hasked, messages, (hfirsts.mem _).2 (List.mem_map_of_mem ?_), hfirsts, hrun⟩
  simp only [impliedNames, List.mem_filter]
  exact ⟨by decide, by simpa using himplied⟩

end JvmLint.RedundantInterface
