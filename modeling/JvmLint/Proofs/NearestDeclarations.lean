import JvmLint.Check.AbstractImplementation
import JvmLint.Proofs.ImpliedInterfaces

/-!
# Nearest declarations

A concrete class leaves a method open if it does not implement it itself and the nearest
declaration above is abstract. The check comes to this by collecting first the abstract
methods, then those that are implemented below them; a method that is private and not
abstract is no declaration for the classes below.
-/

namespace JvmLint

/-! ## The way up -/

/-- The classes on the way up from a name. The way ends at the root class, at a name that stands for no class and at
a name met before. -/
inductive Climbs (answer : String → Option Class) : List String → String → List Class → Prop
  | root {met} : Climbs answer met Name.object []
  | lost {met name} : found answer name = none → Climbs answer met name []
  | circle {met name} : name ∈ met → Climbs answer met name []
  | up {met name k chain} : name ∉ met → name ≠ Name.object → found answer name = some k →
    Climbs answer (name :: met) k.super chain → Climbs answer met name (k :: chain)

variable {answer : String → Option Class}

theorem Climbs.unique {met : List String} {name : String} {chain chain' : List Class} (h : Climbs answer met name chain)
    (h' : Climbs answer met name chain') : chain' = chain := by
  induction h generalizing chain' with
  | root =>
    cases h' with
    | up _ hroot => exact absurd rfl hroot
    | _ => rfl
  | lost hlost =>
    cases h' with
    | up _ _ hfound => rw [hlost] at hfound; cases hfound
    | _ => rfl
  | circle hmet =>
    cases h' with
    | up hnew => exact absurd hmet hnew
    | _ => rfl
  | up hnew hroot hfound _ ih =>
    cases h' with
    | root => exact absurd rfl hroot
    | lost hlost => rw [hlost] at hfound; cases hfound
    | circle hmet => exact absurd hmet hnew
    | up _ _ hfound' hrest =>
      rw [hfound] at hfound'
      cases hfound'
      rw [ih hrest]

theorem Climbs.head {met : List String} {name : String} {k : Class} {chain : List Class}
    (h : Climbs answer met name (k :: chain)) : found answer name = some k := by
  cases h with
  | up _ _ hfound _ => exact hfound

theorem climbs_chainFrom {names : List String} (hnames : ∀ name k, climb answer name = some k → k.super ∈ names)
    {fuel : Nat} {seen : List String} {name : String} (hname : name ∈ names) (hfuel : unmet names seen < fuel) :
    Climbs answer seen name ((chainFrom fuel seen name).run answer) := by
  induction fuel generalizing seen name with
  | zero => omega
  | succ fuel ih =>
    rw [run_chainFrom]
    by_cases hseen : name ∈ seen
    · rw [if_pos hseen]
      exact .circle hseen
    · rw [if_neg hseen]
      by_cases hroot : name = Name.object
      · subst hroot
        rw [climb_of_end answer (.inr rfl)]
        exact .root
      · have hclimb : climb answer name = found answer name := if_neg hroot
        rw [hclimb]
        cases hfound : found answer name with
        | none => exact .lost hfound
        | some k =>
          have hlt : unmet names (name :: seen) < unmet names seen := unmet_cons_lt hname hseen
          exact .up hseen hroot hfound (ih (hnames name k (hclimb.trans hfound)) (by omega))

namespace AbstractImplementation

open RedundantInterface (superNames mem_superNames interfaceNames length_names)

/-! ## Lookups -/

def visible (ds : List Declared) : List Declared :=
  ds.filter fun d => d.method.access.isAbstract || !d.method.access.isPrivate

theorem mem_implementedAbove {ds : List Declared} {seen : List String} {sig : String} :
    sig ∈ implementedAbove seen ds ↔ sig ∉ seen ∧
      ∃ d, (visible ds).find? (fun d => d.method.signature = sig) = some d ∧ d.method.access.isAbstract = false := by
  induction ds generalizing seen with
  | nil => simp [implementedAbove, visible]
  | cons d ds ih =>
    unfold implementedAbove visible
    by_cases habstract : d.method.access.isAbstract = true
    · by_cases hsig : d.method.signature = sig
      · simp [habstract, hsig, ih]
      · simp [habstract, hsig, ih, visible, Ne.symm hsig]
    · by_cases hprivate : d.method.access.isPrivate = true
      · simp [habstract, hprivate, ih, visible]
      · by_cases hsig : d.method.signature = sig
        · by_cases hseen : sig ∈ seen
          · simp [habstract, hprivate, hsig, hseen, ih]
          · simp [habstract, hprivate, hsig, hseen]
        · by_cases hseen : d.method.signature ∈ seen
          · simp [habstract, hprivate, hsig, hseen, ih, visible]
          · simp [habstract, hprivate, hsig, hseen, ih, visible, Ne.symm hsig]

theorem firstsBy_required (ds : List Declared) :
    FirstsBy (·.method.signature) (ds.filter (·.method.access.isAbstract)) (required ds) :=
  firstsBy_keepFirst (fun a b => by simp) _

theorem filter_visible (ds : List Declared) :
    (visible ds).filter (·.method.access.isAbstract) = ds.filter (·.method.access.isAbstract) := by
  rw [visible, List.filter_filter]
  apply List.filter_congr
  intro d _
  by_cases habstract : d.method.access.isAbstract = true <;> simp [habstract]

theorem find?_filter_of_find? {α : Type} {p q : α → Bool} {l : List α} {a : α} (h : l.find? q = some a) (hp : p a = true) :
    (l.filter p).find? q = some a := by
  obtain ⟨hq, before, after, rfl, hbefore⟩ := List.find?_eq_some_iff_append.1 h
  rw [List.filter_append, List.filter_cons_of_pos hp]
  refine List.find?_eq_some_iff_append.2 ⟨hq, before.filter p, after.filter p, rfl, ?_⟩
  exact fun b hb => hbefore b (List.mem_filter.1 hb).1

/-- The first occurrences of elements that pass a filter keep their order. -/
theorem idxOf_lt_of_filter {α : Type} [DecidableEq α] {p : α → Bool} {l : List α} {a b : α} (ha : p a = true) (hb : p b = true)
    (h : (l.filter p).idxOf a < (l.filter p).idxOf b) : l.idxOf a < l.idxOf b := by
  induction l with
  | nil => simp at h
  | cons x l ih =>
    by_cases hxb : x = b
    · simp [hxb, hb] at h
    · have hb' : (x == b) = false := by simpa using hxb
      by_cases hxa : x = a
      · subst hxa
        simp [List.idxOf_cons, hb']
      · have ha' : (x == a) = false := by simpa using hxa
        by_cases hx : p x = true
        · simp only [List.filter_cons_of_pos hx, List.idxOf_cons, ha', hb', cond_false, Nat.add_lt_add_iff_right] at h ⊢
          exact ih h
        · simp only [List.filter_cons_of_neg hx, List.idxOf_cons, ha', hb', cond_false, Nat.add_lt_add_iff_right] at h ⊢
          exact ih h

variable {c : Class} {chain : List Class} {d : Declared}

theorem mem_missing : d ∈ missing c chain ↔
    (∀ m ∈ c.methods, m.signature = d.method.signature → m.access.isAbstract = true) ∧
    (visible (declarations chain)).find? (fun e => e.method.signature = d.method.signature) = some d ∧
    d.method.access.isAbstract = true := by
  have hrequired := (firstsBy_required (declarations chain)).mem d
  have hopen : d.method.signature ∉ (c.methods.filter (!·.access.isAbstract)).map (·.signature) ↔
      ∀ m ∈ c.methods, m.signature = d.method.signature → m.access.isAbstract = true := by
    simp only [List.mem_map, List.mem_filter]
    grind
  rw [missing, List.mem_filter, hrequired, ← filter_visible, ← hopen]
  simp only [Bool.not_eq_true', List.contains_eq_mem, decide_eq_false_iff_not, List.mem_append, not_or, mem_implementedAbove,
    List.not_mem_nil, not_false_eq_true, true_and]
  constructor
  · intro ⟨hfirst, hown, hnone⟩
    have hmem := List.mem_of_find?_eq_some hfirst
    obtain ⟨hvisible, habstract⟩ := List.mem_filter.1 hmem
    cases hnearest : (visible (declarations chain)).find? (fun e => e.method.signature = d.method.signature) with
    | none =>
      have hother := List.find?_eq_none.1 hnearest d hvisible
      simp at hother
    | some e =>
      have he : e.method.access.isAbstract = true := by
        by_contra hconcrete
        exact hnone ⟨e, hnearest, by simpa using hconcrete⟩
      rw [find?_filter_of_find? hnearest he] at hfirst
      exact ⟨hown, hfirst, habstract⟩
  · intro ⟨hown, hnearest, habstract⟩
    refine ⟨find?_filter_of_find? hnearest habstract, hown, ?_⟩
    intro ⟨e, he, hconcrete⟩
    rw [hnearest] at he
    cases he
    simp [habstract] at hconcrete

theorem missing_order : (missing c chain).Pairwise fun a b =>
    (visible (declarations chain)).idxOf a < (visible (declarations chain)).idxOf b := by
  have horder := (firstsBy_required (declarations chain)).order
  rw [← filter_visible] at horder
  refine List.Pairwise.imp_of_mem ?_ (horder.filter _)
  intro a b ha hb hlt
  exact idxOf_lt_of_filter (mem_missing.1 ha).2.2 (mem_missing.1 hb).2.2 hlt

/-- What a class leaves open, by the nearest declarations above it. -/
structure LeavesOpen (c : Class) (above left : List Declared) : Prop where
  once : ∀ sig, (left.filter (fun d => d.method.signature = sig)).length ≤ 1
  nearest : ∀ sig d, left.filter (fun d => d.method.signature = sig) = [d] ↔
    (∀ m ∈ c.methods, m.signature = sig → m.access.isAbstract = true) ∧
    above.find? (fun d => d.method.signature = sig) = some d ∧ d.method.access.isAbstract = true
  order : left.Pairwise fun a b => above.idxOf a < above.idxOf b

theorem filter_missing {sig : String} (hd : d ∈ missing c chain) (hsig : d.method.signature = sig) :
    (missing c chain).filter (fun d => d.method.signature = sig) = [d] := by
  have hnodup : (missing c chain).Nodup := missing_order.imp fun hlt heq => by simp [heq] at hlt
  apply List.perm_singleton.1
  rw [List.perm_ext_iff_of_nodup (hnodup.filter _) (List.pairwise_singleton _ d)]
  intro e
  rw [List.mem_filter, List.mem_singleton, decide_eq_true_eq]
  constructor
  · intro ⟨he, hesig⟩
    have hnearest := (mem_missing.1 he).2.1
    rw [hesig, ← hsig, (mem_missing.1 hd).2.1] at hnearest
    exact (Option.some.inj hnearest).symm
  · intro he
    exact he ▸ ⟨hd, hsig⟩

theorem leavesOpen_missing (c : Class) (chain : List Class) :
    LeavesOpen c (visible (declarations chain)) (missing c chain) := by
  refine ⟨fun sig => ?_, fun sig d => ?_, missing_order⟩
  · by_cases hsome : ∃ d ∈ missing c chain, d.method.signature = sig
    · obtain ⟨d, hd, hsig⟩ := hsome
      simp [filter_missing hd hsig]
    · have hnone : (missing c chain).filter (fun d => d.method.signature = sig) = [] := by simpa using hsome
      simp [hnone]
  · constructor
    · intro hfilter
      have hmem : d ∈ (missing c chain).filter (fun d => d.method.signature = sig) := by simp [hfilter]
      obtain ⟨hd, hsig⟩ := List.mem_filter.1 hmem
      have hsig : d.method.signature = sig := by simpa using hsig
      exact hsig ▸ mem_missing.1 hd
    · intro ⟨hown, hnearest, habstract⟩
      have hsig : d.method.signature = sig := by simpa using List.find?_some hnearest
      subst hsig
      exact filter_missing (mem_missing.2 ⟨hown, hnearest, habstract⟩) rfl

/-! ## Findings -/

theorem run_findings (c : Class) (around : Surroundings) :
    (check.findings c around).run answer = ((remarks c around).run answer).map info.finding := by
  rw [Check.findings, check, CheckInfo.check, Lookup.run_map, Lookup.run_map]
  rfl

theorem length_asked_findings (c : Class) (around : Surroundings) :
    ((check.findings c around).asked answer).length ≤ ((c.ancestors around).asked answer).length := by
  rw [Check.findings, check, CheckInfo.check, Lookup.asked_map, Lookup.asked_map, remarks]
  by_cases hskip : (!c.isConcrete || !c.hasSuper) = true
  · simp [hskip]
  · rw [if_neg hskip, Lookup.asked_bind]
    cases (c.ancestors around).run answer with
    | nil => simp
    | cons parent chain =>
      by_cases hparent : (parent.name == c.super && parent.isAbstract) = true
      · simp [hparent]
      · simp [hparent]

section
variable {classes : List Class} (hfinite : ∀ name k, answer name = some k → k ∈ classes) (c : Class) (around : Surroundings)
include hfinite

theorem length_asked_ancestors : ((c.ancestors around).asked answer).length ≤ classes.length + 1 := by
  have hspends : (c.ancestors around).Spends answer (fun _ => 0) (unmet (superNames c classes) [c.name]) :=
    spends_chainFrom (fun _ _ => mem_superNames hfinite c) (List.mem_cons_self ..)
  have hunmet : unmet (superNames c classes) [c.name] ≤ (superNames c classes).length := List.countP_le_length
  have hlength : (superNames c classes).length = classes.length + 1 := by simp [superNames]
  exact Nat.le_trans (Nat.le_trans (Nat.le_add_right _ _) hspends) (hlength ▸ hunmet)

theorem climbs_ancestors (hreach : reachOf classes ≤ around.reach) :
    Climbs answer [c.name] c.super ((c.ancestors around).run answer) := by
  have hlength := length_names c classes
  have hdirect : c.interfaces.length ≤ (interfaceNames c classes).length := by simp [interfaceNames]
  have hunmet : unmet (superNames c classes) [c.name] ≤ (superNames c classes).length := List.countP_le_length
  exact climbs_chainFrom (fun _ _ => mem_superNames hfinite c) (List.mem_cons_self ..) (by omega)

end

theorem run_remarks {parent : Class} {around : Surroundings} (hconcrete : c.isConcrete = true) (hsuper : c.hasSuper = true)
    (hfound : found answer c.super = some parent) (hname : parent.name = c.super) (habstract : parent.isAbstract = true)
    (hchain : Climbs answer [c.name] c.super chain) (hrun : (c.ancestors around).run answer = chain) :
    (remarks c around).run answer = (missing c chain).map (remark c) := by
  have hgo : ¬ (!c.isConcrete || !c.hasSuper) = true := by simp [hconcrete, hsuper]
  rw [remarks, if_neg hgo, Lookup.run_bind, hrun]
  cases chain with
  | nil => rfl
  | cons k chain =>
    have hk := hchain.head
    rw [hfound] at hk
    cases hk
    simp [hname, habstract]

/-- However far the walk up may go, it asks for no more names than there are to be met, so it ends; and there is only
one way up. Below an abstract class, a concrete class is reported for a signature exactly once if it does
not implement it and the nearest declaration above is abstract, and not at all otherwise. The finding names the
class of that declaration, and the findings come in the order of these declarations. -/
theorem findings_nearest {classes : List Class} (hfinite : ∀ name k, answer name = some k → k ∈ classes) (c : Class)
    (around : Surroundings) :
    ((check.findings c around).asked answer).length ≤ classes.length + 1 ∧
    (reachOf classes ≤ around.reach → ∃ chain, (∀ way, Climbs answer [c.name] c.super way ↔ way = chain) ∧
      ∀ parent, c.isConcrete = true → c.hasSuper = true → found answer c.super = some parent → parent.name = c.super →
        parent.isAbstract = true →
        ∃ left, LeavesOpen c (visible (declarations chain)) left ∧
          (check.findings c around).run answer = left.map fun d =>
            ⟨"AbstractImplementation", .style, c.displayName, "Class " ++ c.simpleName ++ " does not implement abstract method '" ++
              d.method.signature ++ "' from " ++ Name.simple d.owner⟩) := by
  refine ⟨Nat.le_trans (length_asked_findings c around) (length_asked_ancestors hfinite c around), fun hreach => ?_⟩
  have hclimbs := climbs_ancestors hfinite c around hreach
  refine ⟨_, fun way => ⟨fun h => hclimbs.unique h, fun h => h ▸ hclimbs⟩, ?_⟩
  intro parent hconcrete hsuper hfound hname habstract
  refine ⟨_, leavesOpen_missing c _, ?_⟩
  rw [run_findings, run_remarks hconcrete hsuper hfound hname habstract hclimbs rfl, List.map_map]
  rfl

/-- Two classes that extend each other. The one that is nearer to a job makes a method abstract again that the other
implements, and has a private method of the name that the other leaves open. -/
def task : Class :=
  { name := "app/Task", access := ⟨0x0400⟩, super := "app/Base"
    methods := [{ name := "run", desc := "()V", access := ⟨0x0400⟩ }, { name := "stop", desc := "()V", access := ⟨0x0002⟩ }] }

def taskBase : Class :=
  { name := "app/Base", access := ⟨0x0400⟩, super := "app/Task"
    methods := [{ name := "run", desc := "()V", access := ⟨0x0001⟩ }, { name := "stop", desc := "()V", access := ⟨0x0400⟩ }] }

def job : Class := { name := "app/Job", access := ⟨0x0001⟩, super := "app/Task" }

def jobAnswer (name : String) : Option Class := [task, taskBase].find? (·.name == name)

theorem findings_nearest_job :
    reachOf [task, taskBase] = 2 ∧ job.isConcrete = true ∧ job.hasSuper = true ∧ found jobAnswer "app/Task" = some task ∧
    task.isAbstract = true ∧ Climbs jobAnswer ["app/Job"] "app/Task" [task, taskBase] ∧
    ∃ left : List Declared,
      left.filter (fun d => d.method.signature = "run()V") =
        [⟨{ name := "run", desc := "()V", access := ⟨0x0400⟩ }, "app/Task"⟩] ∧
      left.filter (fun d => d.method.signature = "stop()V") =
        [⟨{ name := "stop", desc := "()V", access := ⟨0x0400⟩ }, "app/Base"⟩] ∧
      (check.findings job { reach := 2 }).run jobAnswer = left.map fun d =>
        ⟨"AbstractImplementation", .style, "app.Job", "Class Job does not implement abstract method '" ++ d.method.signature ++
          "' from " ++ Name.simple d.owner⟩ := by
  have hfinite : ∀ name k, jobAnswer name = some k → k ∈ [task, taskBase] := fun _ _ h => List.mem_of_find?_eq_some h
  have hclimbs : Climbs jobAnswer ["app/Job"] "app/Task" [task, taskBase] :=
    .up (by decide) (by decide) rfl (.up (by decide) (by decide) rfl (.circle (by decide)))
  obtain ⟨chain, hchain, hfindings⟩ := (findings_nearest hfinite job { reach := 2 }).2 (by decide)
  cases (hchain _).1 hclimbs
  obtain ⟨left, hleft, hrun⟩ := hfindings task rfl rfl rfl rfl rfl
  refine ⟨rfl, rfl, rfl, rfl, rfl, hclimbs, left, ?_, ?_, hrun⟩
  · exact (hleft.nearest _ _).2 ⟨by simp [job], by decide, rfl⟩
  · exact (hleft.nearest _ _).2 ⟨by simp [job], by decide, rfl⟩

end AbstractImplementation

end JvmLint
