import JvmLint.Analysis
import JvmLint.Pattern.GlobTree
import JvmLint.Proofs.BuiltInChecks
import JvmLint.Proofs.Lookups

/-!
# A resolver shared by all checks

An analysis hands one resolver from check to check and from class to class, and
what it remembers grows on the way. As long as its memory holds only what the
source says, no question is answered differently than by the source itself. So
every class has its own block of findings, which depends on the class and on the
classification of the whole set, and the order of the classes only orders the
blocks.
-/

namespace JvmLint

/-! ## The memory -/

namespace Resolver

def direct (source : Source) (name : String) : Option Class := if name = "" then none else load? source name

def Faithful (source : Source) (r : Resolver) : Prop :=
  ∀ name found, r.cache.lookup name = some found → found = load? source name

variable {source : Source} {r : Resolver}

theorem faithful_new (source : Source) : Faithful source {} := by
  intro name found h
  simp at h

theorem Faithful.remember (hr : r.Faithful source) (name : String) {hits loads absent : Nat} :
    Faithful source ⟨(name, load? source name) :: r.cache, hits, loads, absent⟩ := by
  intro other found h
  by_cases hother : other = name
  · subst hother
    simpa using h.symm
  · have hne : (other == name) = false := by simpa using hother
    simp only [List.lookup_cons, hne] at h
    exact hr other found h

theorem resolve_faithful (hr : r.Faithful source) (name : String) :
    (resolve source name r).1 = direct source name ∧ (resolve source name r).2.Faithful source := by
  by_cases hempty : name = ""
  · simpa [resolve, direct, hempty] using hr
  · cases hcache : r.cache.lookup name with
    | some found =>
      simp only [resolve, direct, hempty, hcache, if_false]
      exact ⟨hr name found hcache, hr⟩
    | none =>
      cases hload : load? source name with
      | some c =>
        simp only [resolve, direct, hempty, hcache, hload, if_false, true_and]
        exact hload ▸ hr.remember name
      | none =>
        simp only [resolve, direct, hempty, hcache, hload, if_false, true_and]
        exact hload ▸ hr.remember name

theorem answer_faithful {α : Type} (hr : r.Faithful source) (l : Lookup α) :
    ∃ r', r.answer source l = (l.run (direct source), r') ∧ r'.Faithful source := by
  obtain ⟨hout, hend⟩ := l.runState_eq_run (I := Faithful source) (fun name _ hs => resolve_faithful hs name) hr
  exact ⟨(r.answer source l).2, Prod.ext hout rfl, hend⟩

end Resolver

/-- The findings in one class, check by check, without a memory between the questions. -/
def directFindings (source : Source) (around : Surroundings) (selected : List Check) (c : Class) : List Finding :=
  selected.flatMap fun k => (k.findings c around).run (Resolver.direct source)

theorem run_analyze (source : Source) (reach : Nat) (classes : List Class) (selected : List Check) :
    (analyze reach classes selected).run (Resolver.direct source) =
      classes.flatMap (directFindings source { layers := classification classes selected, reach } selected) := by
  simp only [analyze, Lookup.run_bind, Lookup.run_mapM, Lookup.run_pure, List.flatten_flatten, List.map_map]
  rfl

/-! ## The order of the classes -/

def Layers.view (layers : Layers) (name : String) : Option Layer := layers.lookup name

theorem view_append (a b : Layers) : Layers.view (a ++ b) = fun name => (a.view name).or (b.view name) := by
  funext name
  exact List.lookup_append

theorem view_classifyAll [GlobLibrary] (k : Classifier) (classes : List Class) (name : String) :
    (k.classifyAll classes).view name = if name ∈ classes.map (·.name) then some (k.classify name) else none := by
  induction classes with
  | nil => rfl
  | cons c classes ih =>
    simp only [Layers.view, Classifier.classifyAll, List.map_cons, List.lookup_cons] at ih ⊢
    by_cases hc : name = c.name
    · simp [hc]
    · have hne : (name == c.name) = false := by simpa using hc
      simp [hne, hc, ih]

theorem links_view {a b : Layers} (h : a.view = b.view) (c : Class) : c.links a = c.links b := by
  have hlookup : ∀ name, a.lookup name = b.lookup name := congrFun h
  simp only [Class.links, hlookup]

def Surroundings.Same (a b : Surroundings) : Prop :=
  a.reach = b.reach ∧ a.layers.map Layers.view = b.layers.map Layers.view

/-- The check does not notice in which order the analyzed set was classified. -/
structure Check.OrderBlind (k : Check) : Prop where
  classify : ∀ {xs ys : List Class}, xs.Perm ys →
    k.classify.map (fun f => (f xs).view) = k.classify.map fun f => (f ys).view
  findings : ∀ (c : Class) {a b : Surroundings}, a.Same b → k.findings c a = k.findings c b

theorem orderBlind_localCheck (i : CheckInfo) (remarks : Class → List Remark) :
    (i.localCheck remarks).OrderBlind :=
  ⟨fun _ => rfl, fun _ _ _ _ => rfl⟩

/-- A check that looks only at how far there is to go. -/
theorem orderBlind_check (i : CheckInfo) {remarks : Class → Surroundings → Lookup (List Remark)}
    (h : ∀ c a b, a.reach = b.reach → remarks c a = remarks c b) : (i.check remarks).OrderBlind :=
  ⟨fun _ => rfl, fun c a b hab => i.findings_check_congr (h c a b hab.1)⟩

theorem redundantInterface_reach (c : Class) (a b : Surroundings) (h : a.reach = b.reach) :
    RedundantInterface.remarks c a = RedundantInterface.remarks c b := by
  simp only [RedundantInterface.remarks, RedundantInterface.redundant, h]

theorem abstractImplementation_reach (c : Class) (a b : Surroundings) (h : a.reach = b.reach) :
    AbstractImplementation.remarks c a = AbstractImplementation.remarks c b := by
  simp only [AbstractImplementation.remarks, Class.ancestors, h]

theorem threeLayer_view [GlobLibrary] (k : Classifier) (p : LayerPolicy) (c : Class) {a b : Surroundings}
    (h : a.Same b) :
    ThreeLayer.remarks k p c a = ThreeLayer.remarks k p c b := by
  obtain ⟨-, hlayers⟩ := h
  unfold ThreeLayer.remarks
  cases ha : a.layers with
  | none =>
    cases hb : b.layers with
    | none => rfl
    | some lb => simp [ha, hb] at hlayers
  | some la =>
    cases hb : b.layers with
    | none => simp [ha, hb] at hlayers
    | some lb =>
      have hview : la.view = lb.view := by simpa [ha, hb] using hlayers
      have hname : la.lookup c.name = lb.lookup c.name := congrFun hview c.name
      simp only [pure_bind, hname, links_view hview]

theorem orderBlind_threeLayer [GlobLibrary] (k : Classifier) (rules : List LayerRule) :
    (Registry.threeLayer k rules).OrderBlind := by
  constructor
  · intro xs ys h
    refine congrArg some (funext fun name => ?_)
    have hmem : name ∈ xs.map (·.name) ↔ name ∈ ys.map (·.name) := (h.map _).mem_iff
    simp only [view_classifyAll, hmem]
  · intro c a b h
    exact ThreeLayer.info.findings_check_congr (threeLayer_view k (.ofRules rules) c h)

theorem orderBlind_builtIn [GlobLibrary] {o : CheckOptions} {registry : Registry}
    (h : Registry.builtIn o = .ok registry)
    {k : Check} (hk : k ∈ registry.checks) : k.OrderBlind := by
  obtain ⟨classifier, hchecks⟩ := Registry.builtIn_checks h
  rw [hchecks] at hk
  revert k
  simp only [Registry.builtInChecks, List.forall_mem_cons]
  exact ⟨orderBlind_localCheck .., orderBlind_check _ redundantInterface_reach,
    orderBlind_check _ abstractImplementation_reach, orderBlind_localCheck .., orderBlind_localCheck ..,
    orderBlind_threeLayer .., orderBlind_localCheck .., orderBlind_localCheck .., orderBlind_localCheck ..,
    orderBlind_localCheck .., orderBlind_localCheck .., orderBlind_localCheck .., orderBlind_localCheck ..,
    by simp⟩

theorem classification_perm {selected : List Check} (hblind : ∀ k ∈ selected, k.OrderBlind) {xs ys : List Class}
    (h : xs.Perm ys) :
    (classification xs selected).map Layers.view = (classification ys selected).map Layers.view := by
  refine List.foldl_rel (r := fun a b : Option Layers => a.map Layers.view = b.map Layers.view) rfl ?_
  intro k hk a b hab
  have hclassify := (hblind k hk).classify h
  cases hc : k.classify with
  | none => simpa only [hc] using hab
  | some classify =>
    have hnew : (classify xs).view = (classify ys).view := by simpa [hc] using hclassify
    have hold : (a.getD []).view = (b.getD []).view := by
      cases a <;> cases b <;> simp_all
    simp only [Option.map_some, view_append, hnew, hold]

theorem directFindings_same (source : Source) {selected : List Check} (hblind : ∀ k ∈ selected, k.OrderBlind)
    {a b : Surroundings} (h : a.Same b) : directFindings source a selected = directFindings source b selected := by
  funext c
  have hruns : ∀ k ∈ selected,
      (k.findings c a).run (Resolver.direct source) = (k.findings c b).run (Resolver.direct source) := by
    intro k hk
    rw [(hblind k hk).findings c h]
  simp only [directFindings, List.flatMap_def, List.map_congr_left hruns]

/-! ## The analysis -/

/-- An analysis with a shared resolver finds, class after class and check after check, what each check
finds by itself when it asks the source directly. The blocks of findings are the same for every order
of the classes and for everything that the resolver may remember beforehand. -/
theorem Analysis.run_eq_direct [GlobLibrary] {o : CheckOptions} {registry : Registry}
    (hbuilt : Registry.builtIn o = .ok registry)
    {selected : List Check} (hselected : ∀ k ∈ selected, k ∈ registry.checks) (source : Source) (reach : Nat)
    {classes classes' : List (Option Class)} (hperm : classes'.Perm classes) {r : Resolver}
    (hr : r.Faithful source) :
    let around : Surroundings := { layers := classification (classes.filterMap id) selected, reach }
    ∃ r' : Resolver, r'.Faithful source ∧
      Analysis.run source reach classes' selected false r = .ok (
        { findings := (classes'.filterMap id).flatMap (directFindings source around selected)
          classes := classes.length
          checks := selected.map (·.name) }, r') := by
  intro around
  have hblind : ∀ k ∈ selected, k.OrderBlind := fun k hk => orderBlind_builtIn hbuilt (hselected k hk)
  obtain ⟨r', hanswer, hr'⟩ := Resolver.answer_faithful hr (analyze reach (classes'.filterMap id) selected)
  have hsame : Surroundings.Same { layers := classification (classes'.filterMap id) selected, reach } around :=
    ⟨rfl, classification_perm hblind (hperm.filterMap id)⟩
  refine ⟨r', hr', ?_⟩
  simp only [Analysis.run, hanswer, run_analyze, directFindings_same source hblind hsame, hperm.length_eq,
    Bool.false_and, Bool.false_eq_true, if_false]

def openPlan : Class :=
  { name := "Plan", access := ⟨0x0400⟩, super := Name.object
    methods := [{ name := "run", desc := "()V", access := ⟨0x0400⟩ }] }

def openStep : Class := { name := "Step", access := ⟨0⟩, super := "Plan" }

def openSource : Source := ClassSet.source ⟨[openPlan, openStep]⟩

theorem Analysis.run_eq_direct_openStep :
    [some openStep, none, some openPlan].Perm [some openPlan, none, some openStep] ∧
    ∃ registry : Registry, Registry.builtIn .builtIn = .ok registry ∧
      ∃ r' : Resolver, Resolver.Faithful openSource r' ∧
        Analysis.run openSource 2 [some openStep, none, some openPlan] registry.checks false
            (Resolver.resolve openSource "Plan" {}).2 =
          .ok ({ findings := [⟨"AbstractImplementation", .style, "Step",
                   "Class Step does not implement abstract method 'run()V' from Plan"⟩]
                 classes := 3
                 checks := registry.checks.map (·.name) }, r') := by
  have hperm : [some openStep, none, some openPlan].Perm [some openPlan, none, some openStep] :=
    List.reverse_perm [some openPlan, none, some openStep]
  have hbuilt : Registry.builtIn .builtIn = .ok ⟨Registry.builtInChecks .builtIn ⟨[], []⟩⟩ :=
    Registry.builtIn_of_model rfl
  have hr := (Resolver.resolve_faithful (Resolver.faithful_new openSource) "Plan").2
  obtain ⟨r', hr', hrun⟩ := Analysis.run_eq_direct hbuilt (fun _ hk => hk) openSource 2 hperm hr
  exact ⟨hperm, _, hbuilt, r', hr', hrun⟩

end JvmLint
