import JvmLint.Check.Registry

/-!
# The built-in checks

What the built-in registry holds, for proofs that go through its checks one by
one, what a check made from its remarks finds, and how its texts are told apart.
-/

namespace JvmLint

/-- Texts that differ in their first characters stay different, whatever follows. -/
theorem take_eq_of_append_eq {α : Type} {a b x y : List α} {n : Nat} (h : a ++ x = b ++ y) (ha : n ≤ a.length)
    (hb : n ≤ b.length) : a.take n = b.take n := by
  have hleft : (a ++ x).take n = a.take n := List.take_append_of_le_length ha
  have hright : (b ++ y).take n = b.take n := List.take_append_of_le_length hb
  rw [← hleft, h, hright]

theorem zipIdx_increase {α : Type} (xs : List α) : xs.zipIdx.Pairwise fun p q => p.2 < q.2 := by
  rw [← List.pairwise_map (f := Prod.snd)]
  simpa using List.pairwise_lt_range'

namespace CheckInfo
variable (i : CheckInfo)

theorem findings_localCheck (remarks : Class → List Remark) (c : Class) (around : Surroundings) :
    (i.localCheck remarks).findings c around = .done ((remarks c).map i.finding) := rfl

theorem findings_check_congr {remarks : Class → Surroundings → Lookup (List Remark)} {c c' : Class}
    {a b : Surroundings} (h : remarks c a = remarks c' b) :
    (i.check remarks).findings c a = (i.check remarks).findings c' b := by
  simp only [Check.findings, check, h]

theorem findings_localCheck_congr {remarks : Class → List Remark} {c c' : Class} (h : remarks c = remarks c')
    (around : Surroundings) : (i.localCheck remarks).findings c around = (i.localCheck remarks).findings c' around :=
  i.findings_check_congr (congrArg Lookup.done h)

end CheckInfo

namespace Registry

/-! ## Registration -/

theorem go_of_nodup {seen : List String} {checks : List Check}
    (hnew : ∀ k ∈ checks, Text.lower k.name ∉ seen) (hnodup : (checks.map fun k => Text.lower k.name).Nodup) :
    ofChecks.go seen checks = .ok () := by
  induction checks generalizing seen with
  | nil => rfl
  | cons k ks ih =>
    rw [List.map_cons, List.nodup_cons] at hnodup
    have hk : ¬ seen.contains (Text.lower k.name) = true := by simpa using hnew k (by simp)
    rw [ofChecks.go, if_neg hk]
    refine ih ?_ hnodup.2
    intro j hj hmem
    rcases List.mem_cons.mp hmem with heq | hseen
    · exact hnodup.1 (List.mem_map.mpr ⟨j, hj, heq⟩)
    · exact hnew j (List.mem_cons_of_mem _ hj) hseen

theorem ofChecks_of_nodup {checks : List Check} (h : (checks.map fun k => Text.lower k.name).Nodup) :
    ofChecks checks = .ok { checks } := by
  rw [ofChecks, go_of_nodup (by simp) h]
  rfl

/-! ## The built-in registry -/

def threeLayer [GlobLibrary] (classifier : Classifier) (rules : List LayerRule) : Check :=
  { ThreeLayer.info.check (ThreeLayer.remarks classifier (.ofRules rules)) with
    classify := some classifier.classifyAll }

/-- The thirteen built-in checks, given the classifier that the options compile to. -/
def builtInChecks [GlobLibrary] (o : CheckOptions) (classifier : Classifier) : List Check := [
  Duplication.check o.duplication, RedundantInterface.check, AbstractImplementation.check, Decorator.check,
  Strategy.check o.strategy, threeLayer classifier o.architecture.rules, UnusedParameter.check, UnusedField.check,
  Hollywood.check o.hollywood, HashCodeEquals.check, SwallowedException.check, Encapsulation.check, DataType.check]

theorem builtInChecks_nodup [GlobLibrary] (o : CheckOptions) (classifier : Classifier) :
    ((builtInChecks o classifier).map fun k => Text.lower k.name).Nodup := by
  have hnames : (builtInChecks o classifier).map (fun k => Text.lower k.name) = [
      "Duplication", "RedundantInterface", "AbstractImplementation", "DecoratorQuality", "StrategyPattern",
      "ThreeLayerArchitecture", "UnusedParameter", "UnusedField", "HollywoodPrinciple", "HashCodeEquals",
      "SwallowedException", "Encapsulation", "DataTypeCompatibility"].map Text.lower := rfl
  rw [hnames]
  decide +kernel

/-- Only the compilation of the layer patterns can keep the registry from being built. -/
theorem builtIn_eq [GlobLibrary] (o : CheckOptions) :
    (∃ e, Classifier.ofModel o.architecture = .error e ∧ builtIn o = .error (e.label "three-layer architecture")) ∨
    ∃ classifier, Classifier.ofModel o.architecture = .ok classifier ∧
      builtIn o = .ok { checks := builtInChecks o classifier } := by
  unfold builtIn ThreeLayer.check
  cases hm : Classifier.ofModel o.architecture with
  | error e => exact .inl ⟨e, rfl, rfl⟩
  | ok classifier => exact .inr ⟨classifier, rfl, ofChecks_of_nodup (builtInChecks_nodup o classifier)⟩

theorem builtIn_of_model [GlobLibrary] {o : CheckOptions} {classifier : Classifier}
    (h : Classifier.ofModel o.architecture = .ok classifier) :
    builtIn o = .ok { checks := builtInChecks o classifier } := by
  rcases builtIn_eq o with ⟨e, he, -⟩ | ⟨classifier', hc, hok⟩
  · simp [h] at he
  · rw [h, Except.ok.injEq] at hc
    rw [hok, hc]

theorem builtIn_checks [GlobLibrary] {o : CheckOptions} {registry : Registry} (h : builtIn o = .ok registry) :
    ∃ classifier : Classifier, registry.checks = builtInChecks o classifier := by
  rcases builtIn_eq o with ⟨e, -, he⟩ | ⟨classifier, -, hok⟩
  · simp [he] at h
  · rw [hok, Except.ok.injEq] at h
    exact ⟨classifier, by rw [← h]⟩

end Registry

end JvmLint
