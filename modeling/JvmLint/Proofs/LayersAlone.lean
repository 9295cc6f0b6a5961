import JvmLint.Proofs.Dedup
import JvmLint.Proofs.SharedResolver
import Mathlib.Data.List.Basic

/-!
# Layers found along the way

A class can be held against the layering before the analyzed set is classified:
the class and whatever it refers to are classified instead. All that the links of
a class depend on is the layers of the class itself and of the names it refers
to, and on these the two classifications agree.
-/

namespace JvmLint

/-! ## The links of a class -/

def Class.refs (c : Class) : List String := c.fieldRefs.map (·.1) ++ c.callRefs.map (·.1)

def Layers.AgreeOn (names : List String) (a b : Layers) : Prop := ∀ n ∈ names, a.view n = b.view n

theorem links_agree {c : Class} {a b : Layers} (h : Layers.AgreeOn (c.name :: c.refs) a b) : c.links a = c.links b := by
  have hself : a.lookup c.name = b.lookup c.name := h c.name (by simp)
  have href : ∀ t ∈ c.refs, a.lookup t = b.lookup t := fun t ht => h t (List.mem_cons_of_mem _ ht)
  unfold Class.links
  refine congrArg dedup (congrArg₂ (· ++ ·) (List.filterMap_congr ?_) (List.filterMap_congr ?_))
  · rintro ⟨t, f⟩ hmem
    have ht : t ∈ c.refs := List.mem_append_left _ (List.mem_map_of_mem hmem)
    simp only [href t ht, hself]
  · rintro ⟨t, m, callee⟩ hmem
    have ht : t ∈ c.refs := List.mem_append_right _ (List.mem_map_of_mem hmem)
    simp only [href t ht, hself]

/-! ## What a set of classes answers -/

namespace ClassSet

theorem name_of_find? {s : ClassSet} {n : String} {c : Class} (h : s.find? n = some c) : c.name = n := by
  simpa using List.find?_some h

theorem isSome_find?_add (s : ClassSet) (more : List Class) (n : String) :
    ((s.add more).find? n).isSome ↔ (s.find? n).isSome ∨ n ∈ more.map (·.name) := by
  induction more generalizing s with
  | nil => simp [add]
  | cons c more ih =>
    unfold add at ih ⊢
    rw [List.foldl_cons, ih, List.map_cons, List.mem_cons]
    by_cases hc : (s.find? c.name).isSome
    · have hn : n = c.name → (s.find? n).isSome := fun h => h ▸ hc
      simp only [hc, if_true]
      grind
    · have hnew : (({ classes := s.classes ++ [c] } : ClassSet).find? n).isSome ↔
          (s.find? n).isSome ∨ n = c.name := by
        simp only [find?, List.find?_append, Option.isSome_or, Bool.or_eq_true, List.find?_cons, List.find?_nil]
        by_cases hn : n = c.name
        · simp [hn]
        · have hne : (c.name == n) = false := by simpa using Ne.symm hn
          simp [hn, hne]
      simp only [hc, if_false, Bool.false_eq_true, hnew, or_assoc]

theorem isSome_find?_ofList (classes : List Class) (n : String) :
    ((ofList classes).find? n).isSome ↔ n ∈ classes.map (·.name) := by
  rw [ofList, isSome_find?_add]
  simp [find?]

theorem load?_source (s : ClassSet) (n : String) : Resolver.load? s.source n = s.find? n := by
  unfold Resolver.load? source
  cases s.find? n <;> rfl

end ClassSet

/-! ## The neighbourhood -/

namespace ThreeLayer
variable {classes : List Class}

theorem run_neighbourhood (answer : String → Option Class) (c : Class) :
    (neighbourhood c).run answer =
      c :: ((dedup c.refs).filter fun n => n != "" && n != c.name).filterMap answer := by
  have hfind : ∀ n ∈ (dedup c.refs).filter (fun n => n != "" && n != c.name),
      (Lookup.find n).run answer = answer n := by
    intro n hn
    have hempty : n ≠ "" := by
      have := (List.mem_filter.mp hn).2
      grind
    rw [Lookup.find, if_neg hempty]
    rfl
  simp only [neighbourhood, Lookup.run_bind, Lookup.run_mapM, Lookup.run_pure]
  rw [← Class.refs, List.map_congr_left hfind, List.filterMap_map]
  rfl

/-- Of the names that matter to a class, its neighbourhood in a set has those that the set has. -/
theorem mem_neighbourhood (hnamed : ∀ s ∈ classes, s.name ≠ "") {c : Class} (hc : c ∈ classes) {n : String}
    (hn : n ∈ c.name :: c.refs) :
    n ∈ ((neighbourhood c).run (Resolver.direct (ClassSet.ofList classes).source)).map (·.name) ↔
      n ∈ classes.map (·.name) := by
  rw [run_neighbourhood, List.map_cons, List.mem_cons]
  constructor
  · rintro (rfl | hmem)
    · exact List.mem_map_of_mem hc
    · obtain ⟨d, hd, rfl⟩ := List.mem_map.mp hmem
      obtain ⟨t, ht, hfound⟩ := List.mem_filterMap.mp hd
      have hempty : t ≠ "" := by
        have := (List.mem_filter.mp ht).2
        grind
      rw [Resolver.direct, if_neg hempty, ClassSet.load?_source] at hfound
      rw [← ClassSet.isSome_find?_ofList, ClassSet.name_of_find? hfound, hfound, Option.isSome_some]
  · intro hmem
    by_cases hself : n = c.name
    · exact Or.inl hself
    · right
      obtain ⟨s, hs, hsn⟩ := List.mem_map.mp hmem
      have hempty : n ≠ "" := hsn ▸ hnamed s hs
      have href : n ∈ c.refs := (List.mem_cons.mp hn).resolve_left hself
      obtain ⟨d, hd⟩ := Option.isSome_iff_exists.mp ((ClassSet.isSome_find?_ofList classes n).mpr hmem)
      refine List.mem_map.mpr ⟨d, List.mem_filterMap.mpr ⟨n, ?_, ?_⟩, ClassSet.name_of_find? hd⟩
      · rw [List.mem_filter, mem_dedup]
        exact ⟨href, by simp [hempty, hself]⟩
      · rw [Resolver.direct, if_neg hempty, ClassSet.load?_source, hd]

theorem neighbourhood_agrees [GlobLibrary] (k : Classifier) (hnamed : ∀ s ∈ classes, s.name ≠ "") {c : Class}
    (hc : c ∈ classes) :
    Layers.AgreeOn (c.name :: c.refs)
      (k.classifyAll ((neighbourhood c).run (Resolver.direct (ClassSet.ofList classes).source)))
      (k.classifyAll classes) := by
  intro n hn
  rw [view_classifyAll, view_classifyAll]
  simp only [mem_neighbourhood hnamed hc hn]

def crossings (p : LayerPolicy) (c : Class) (layers : Layers) : List Remark :=
  if (layers.lookup c.name).isNone then []
  else (p.violations (c.links layers)).map fun e =>
    { location := c.displayName ++ " (" ++ e.origin ++ ")", message := e.describe }

theorem crossings_agree (p : LayerPolicy) {c : Class} {a b : Layers} (h : Layers.AgreeOn (c.name :: c.refs) a b) :
    crossings p c a = crossings p c b := by
  have hself : a.lookup c.name = b.lookup c.name := h c.name (by simp)
  rw [crossings, crossings, hself, links_agree h]

variable (k : Classifier) (p : LayerPolicy) (c : Class)

theorem remarks_classified [GlobLibrary] (layers : Layers) (reach : Nat) :
    remarks k p c { layers := some layers, reach } = pure (crossings p c layers) := by
  simp only [remarks, pure_bind, crossings]
  split <;> rfl

theorem run_remarks_unclassified [GlobLibrary] (answer : String → Option Class) (reach : Nat) :
    (remarks k p c { layers := none, reach }).run answer =
      crossings p c (k.classifyAll ((neighbourhood c).run answer)) := by
  simp only [remarks, Lookup.run_bind, Lookup.run_map, crossings]
  split <;> rfl

theorem check_eq_ok [GlobLibrary] {m : ArchitectureModel} {k : Check} (h : check m = .ok k) :
    ∃ classifier, k = Registry.threeLayer classifier m.rules := by
  unfold check at h
  cases hm : Classifier.ofModel m with
  | error e => rw [hm] at h; cases h
  | ok classifier =>
    rw [hm] at h
    cases h
    exact ⟨classifier, rfl⟩

end ThreeLayer

/-- A class of a set gets the same findings whether the set was classified beforehand or the check has
to look up what it needs, through a resolver over the set. -/
theorem ThreeLayer.findings_alone [GlobLibrary] {m : ArchitectureModel} {k : Check} (hk : check m = .ok k)
    {classes : List Class}
    (hnamed : ∀ s ∈ classes, s.name ≠ "") {c : Class} (hc : c ∈ classes) {r : Resolver}
    (hr : r.Faithful (ClassSet.ofList classes).source) (r' : Resolver) (source : Source) (reach reach' : Nat) :
    ∃ layers, k.classify.map (fun f => f classes) = some layers ∧
      (r.answer (ClassSet.ofList classes).source (k.findings c { layers := none, reach })).1 =
        (r'.answer source (k.findings c { layers := some layers, reach := reach' })).1 := by
  obtain ⟨classifier, rfl⟩ := check_eq_ok hk
  refine ⟨classifier.classifyAll classes, rfl, ?_⟩
  let k := Registry.threeLayer classifier m.rules
  let near := (neighbourhood c).run (Resolver.direct (ClassSet.ofList classes).source)
  obtain ⟨_, halone, -⟩ := Resolver.answer_faithful hr (k.findings c { layers := none, reach })
  calc (r.answer _ (k.findings c { layers := none, reach })).1
      = (crossings (.ofRules m.rules) c (classifier.classifyAll near)).map info.finding := by
        rw [halone]
        simp only [k, Registry.threeLayer, Check.findings, CheckInfo.check, Lookup.run_map,
          run_remarks_unclassified, Option.getD_some]
        rfl
    _ = (crossings (.ofRules m.rules) c (classifier.classifyAll classes)).map info.finding := by
        rw [crossings_agree _ (neighbourhood_agrees classifier hnamed hc)]
    _ = (r'.answer source (k.findings c { layers := some (classifier.classifyAll classes), reach := reach' })).1 := by
        simp only [k, Registry.threeLayer, Check.findings, CheckInfo.check, remarks_classified, map_pure]
        rfl

def orderView : Class :=
  { name := "acme/view/Orders", access := ⟨0x21⟩, super := Name.object
    fields := [{ name := "rows", desc := "[Lacme/dao/Order;", access := ⟨2⟩ }, { name := "n", desc := "I", access := ⟨2⟩ }]
    methods := [{ name := "show", desc := "()V", access := ⟨1⟩
                  body := [.real { op := ⟨0xb8⟩, owner := "acme/dao/Order", name := "all" }] }] }

def orderDao : Class := { name := "acme/dao/Order", access := ⟨0x21⟩, super := Name.object }

theorem ThreeLayer.findings_alone_orderView :
    (∀ s ∈ [orderDao, orderView], s.name ≠ "") ∧ orderView ∈ [orderDao, orderView] ∧
    ∃ k, check {} = .ok k ∧
      let source := (ClassSet.ofList [orderDao, orderView]).source
      ∃ layers, k.classify.map (fun f => f [orderDao, orderView]) = some layers ∧
        (({} : Resolver).answer source (k.findings orderView {})).1 =
          (({} : Resolver).answer source (k.findings orderView { layers := some layers })).1 ∧
        (({} : Resolver).answer source (k.findings orderView {})).1.map (·.location) =
          ["acme.view.Orders (field: rows)", "acme.view.Orders (method show calls: all)"] := by
  have hnamed : ∀ s ∈ [orderDao, orderView], s.name ≠ "" := by decide
  have hmem : orderView ∈ [orderDao, orderView] := by simp
  refine ⟨hnamed, hmem, _, rfl, ?_⟩
  obtain ⟨layers, hlayers, hsame⟩ := findings_alone (m := {}) rfl hnamed hmem
    (Resolver.faithful_new (ClassSet.ofList [orderDao, orderView]).source) {} (ClassSet.ofList [orderDao, orderView]).source 0 0
  exact ⟨layers, hlayers, hsame, by decide +kernel⟩

end JvmLint
