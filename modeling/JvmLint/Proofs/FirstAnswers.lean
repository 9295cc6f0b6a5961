import JvmLint.Proofs.Lookups
import JvmLint.Resolver
import Mathlib.Data.Finset.Card

/-!
# The first answer stays

A resolver works in front of a chain of sources, and classes are added to some of
them while it is in use. The first question for a name is decided by the sources
as they stand then, and that decision is the answer to every later question. Each
name gets as far as the sources once, and the counts say how often what happened.
-/

namespace JvmLint

/-! ## Who decides in a chain -/

namespace Source

def Passes (s : Source) (name : String) : Prop := ∃ e, s name = .error e ∧ e.hasCode .notFound = true

/-- What the first source that does not pass decides. A fault other than "not found" and an answer
without a class both leave the name without one, and so does a chain in which all pass. -/
inductive Decides : List Source → String → Option Class → Prop
  | nobody {sources : List Source} {name : String} : (∀ s ∈ sources, s.Passes name) → Decides sources name none
  | answered (before : List Source) {after : List Source} {s : Source} {name : String} {found : Option Class} :
      (∀ b ∈ before, b.Passes name) → s name = .ok found → Decides (before ++ s :: after) name found
  | failed (before : List Source) {after : List Source} {s : Source} {name : String} {e : Fault} :
      (∀ b ∈ before, b.Passes name) → s name = .error e → e.hasCode .notFound = false →
      Decides (before ++ s :: after) name none

theorem Decides.pass {s : Source} {name : String} (hs : s.Passes name) {sources : List Source} {found : Option Class}
    (h : Decides sources name found) : Decides (s :: sources) name found := by
  cases h with
  | nobody hall => exact .nobody (List.forall_mem_cons.mpr ⟨hs, hall⟩)
  | answered before hbefore hok => exact .answered (s :: before) (List.forall_mem_cons.mpr ⟨hs, hbefore⟩) hok
  | failed before hbefore herr hcode =>
    exact .failed (s :: before) (List.forall_mem_cons.mpr ⟨hs, hbefore⟩) herr hcode

theorem decides_chain (sources : List Source) (name : String) :
    Decides sources name (Resolver.load? (chain sources) name) := by
  induction sources with
  | nil => exact .nobody (by simp)
  | cons s sources ih =>
    unfold Resolver.load? chain
    cases hs : s name with
    | ok found => exact .answered [] (by simp) hs
    | error e =>
      by_cases hcode : e.hasCode .notFound = true
      · simp only [hcode, if_true]
        exact ih.pass ⟨e, hs, hcode⟩
      · simp only [hcode]
        exact .failed [] (by simp) hs (by simpa using hcode)

end Source

/-! ## One question -/

namespace Resolver

def count (r : Resolver) : Option Class → Resolver
  | some _ => { r with loads := r.loads + 1 }
  | none => { r with absent := r.absent + 1 }

def store (r : Resolver) (name : String) (found : Option Class) : Resolver := { r with cache := (name, found) :: r.cache }

section
variable (r : Resolver) (name : String) (found : Option Class)

@[simp] theorem cache_count : (r.count found).cache = r.cache := by cases found <;> rfl

@[simp] theorem hits_count : (r.count found).hits = r.hits := by cases found <;> rfl

theorem settled_count : (r.count found).loads + (r.count found).absent = r.loads + r.absent + 1 := by
  cases found <;> simp only [count] <;> omega

@[simp] theorem cache_store : (r.store name found).cache = (name, found) :: r.cache := rfl

theorem lookup_store_self : (r.store name found).cache.lookup name = some found := by simp

theorem lookup_store_of_ne {other : String} (h : other ≠ name) :
    (r.store name found).cache.lookup other = r.cache.lookup other := by
  have hne : (other == name) = false := by simpa using h
  rw [cache_store, List.lookup_cons, hne]

end

variable {source : Source} {name : String} {r : Resolver}

theorem resolve_empty (source : Source) (r : Resolver) : resolve source "" r = (none, r) := rfl

theorem resolve_hit (hname : name ≠ "") {found : Option Class} (h : r.cache.lookup name = some found) :
    resolve source name r = (found, { r with hits := r.hits + 1 }) := by
  simp only [resolve, hname, if_false, h]

theorem resolve_miss (hname : name ≠ "") (h : r.cache.lookup name = none) :
    resolve source name r = (load? source name, (r.count (load? source name)).store name (load? source name)) := by
  simp only [resolve, hname, if_false, h]
  cases load? source name <;> rfl

/-- The question as a computation of its own, in which it shows that the source gets asked. -/
def inquiry (name : String) (r : Resolver) : Lookup (Option Class × Resolver) :=
  if name = "" then .done (none, r)
  else
    match r.cache.lookup name with
    | some found => .done (found, { r with hits := r.hits + 1 })
    | none => .ask name fun found => .done (found, (r.count found).store name found)

theorem run_inquiry (source : Source) (name : String) (r : Resolver) :
    (inquiry name r).run (load? source) = resolve source name r := by
  unfold inquiry
  by_cases hname : name = ""
  · subst hname; rfl
  · cases h : r.cache.lookup name with
    | some found => rw [if_neg hname, resolve_hit hname h]; rfl
    | none => rw [if_neg hname, resolve_miss hname h]; rfl

end Resolver

theorem Resolver.asked_inquiry (answer : String → Option Class) (name : String) (r : Resolver) :
    (inquiry name r).asked answer = if name ≠ "" ∧ r.cache.lookup name = none then [name] else [] := by
  unfold inquiry
  by_cases hname : name = ""
  · subst hname; rfl
  · cases h : r.cache.lookup name <;> simp [hname, Lookup.asked]

/-! ## A run -/

/-- A member of a chain: a set of classes that can grow, or a source with answers of its own, which are
faults as a rule and never change. -/
inductive Supplier where
  | memory (classes : ClassSet)
  | failing (answers : Source)

namespace Supplier

def source : Supplier → Source
  | memory classes => classes.source
  | failing answers => answers

def add (more : List Class) : Supplier → Supplier
  | memory classes => memory (classes.add more)
  | failing answers => failing answers

end Supplier

inductive Deed where
  | resolve (name : String)
  | add (index : Nat) (more : List Class)
deriving DecidableEq, Repr

def Deed.name? : Deed → Option String
  | resolve name => if name = "" then none else some name
  | add _ _ => none

structure Desk where
  suppliers : List Supplier
  resolver : Resolver := {}
  /-- The names that got as far as the sources. -/
  passed : List String := []

namespace Desk

def sources (d : Desk) : List Source := d.suppliers.map Supplier.source

def source (d : Desk) : Source := Source.chain d.sources

def answer (d : Desk) (name : String) : Option Class := (Resolver.resolve d.source name d.resolver).1

def step (d : Desk) : Deed → Desk
  | .resolve name =>
    let inquiry := Resolver.inquiry name d.resolver
    { d with
      resolver := (inquiry.run (Resolver.load? d.source)).2
      passed := d.passed ++ inquiry.asked (Resolver.load? d.source) }
  | .add index more => { d with suppliers := d.suppliers.modify index (Supplier.add more) }

def run (d : Desk) (deeds : List Deed) : Desk := deeds.foldl step d

theorem step_resolve (d : Desk) (name : String) :
    d.step (.resolve name) =
      { d with
        resolver := (Resolver.resolve d.source name d.resolver).2
        passed := d.passed ++ if name ≠ "" ∧ d.resolver.cache.lookup name = none then [name] else [] } := by
  simp only [step, Resolver.run_inquiry, Resolver.asked_inquiry]

theorem run_append (d : Desk) (before after : List Deed) : d.run (before ++ after) = (d.run before).run after :=
  List.foldl_append ..

theorem run_cons (d : Desk) (deed : Deed) (deeds : List Deed) : d.run (deed :: deeds) = (d.step deed).run deeds := rfl

/-! ## What a run keeps -/

section
variable {d : Desk} {name : String}

/-- What is remembered once is remembered for good. -/
theorem lookup_step {found : Option Class} (h : d.resolver.cache.lookup name = some found) (deed : Deed) :
    (d.step deed).resolver.cache.lookup name = some found := by
  cases deed with
  | add index more => exact h
  | resolve other =>
    by_cases hother : other = ""
    · subst hother; exact h
    · cases hcache : d.resolver.cache.lookup other with
      | some found' => simpa only [step_resolve, Resolver.resolve_hit hother hcache] using h
      | none =>
        have hne : name ≠ other := by rintro rfl; rw [h] at hcache; cases hcache
        simp only [step_resolve, Resolver.resolve_miss hother hcache]
        rw [Resolver.lookup_store_of_ne _ _ _ hne, Resolver.cache_count, h]

theorem lookup_run {found : Option Class} (h : d.resolver.cache.lookup name = some found) (deeds : List Deed) :
    (d.run deeds).resolver.cache.lookup name = some found := by
  induction deeds generalizing d with
  | nil => exact h
  | cons deed deeds ih => exact ih (lookup_step h deed)

theorem lookup_resolve (hname : name ≠ "") (d : Desk) :
    (d.step (.resolve name)).resolver.cache.lookup name = some (d.answer name) := by
  cases hcache : d.resolver.cache.lookup name with
  | some found => simpa only [step_resolve, answer, Resolver.resolve_hit hname hcache] using hcache
  | none => simp only [step_resolve, answer, Resolver.resolve_miss hname hcache, Resolver.lookup_store_self]

end

/-- The books of a resolver that was asked for these names, one after the other. -/
structure Accounts (called : List String) (d : Desk) : Prop where
  remembered : d.resolver.cache.map Prod.fst = d.passed.reverse
  once : d.passed.Nodup
  asked : ∀ name, name ∈ d.passed ↔ name ∈ called
  settled : d.resolver.loads + d.resolver.absent = d.resolver.cached
  calls : d.resolver.hits + d.resolver.loads + d.resolver.absent = called.length

theorem Accounts.lookup_eq_none {called : List String} {d : Desk} (h : d.Accounts called) {name : String} :
    d.resolver.cache.lookup name = none ↔ name ∉ d.passed := by
  have hkeys : name ∈ d.passed ↔ name ∈ d.resolver.cache.map Prod.fst := by rw [h.remembered, List.mem_reverse]
  rw [hkeys, List.lookup_eq_none_iff]
  simp only [List.mem_map, not_exists, not_and]
  grind

theorem Accounts.step {called : List String} {d : Desk} (h : d.Accounts called) (deed : Deed) :
    (d.step deed).Accounts (called ++ deed.name?.toList) := by
  cases deed with
  | add index more => simpa [Desk.step, Deed.name?] using ⟨h.remembered, h.once, h.asked, h.settled, h.calls⟩
  | resolve name =>
    by_cases hname : name = ""
    · subst hname
      simpa [step_resolve, Deed.name?, Resolver.resolve_empty] using h
    · have hnames : called ++ (Deed.resolve name).name?.toList = called ++ [name] := by simp [Deed.name?, hname]
      rw [hnames]
      cases hcache : d.resolver.cache.lookup name with
      | some found =>
        -- a name in memory was called before, so the hit is all there is to enter
        have hold : name ∈ called := by
          rw [← h.asked]
          by_contra hnew
          rw [h.lookup_eq_none.mpr hnew] at hcache
          cases hcache
        simp only [step_resolve, Resolver.resolve_hit hname hcache, hcache, reduceCtorEq, and_false, if_false,
          List.append_nil]
        refine ⟨h.remembered, h.once, fun n => ?_, h.settled, ?_⟩
        · rw [h.asked, List.mem_append, List.mem_singleton]
          exact ⟨.inl, fun hn => hn.elim id fun heq => heq ▸ hold⟩
        · have := h.calls
          simp only [List.length_append, List.length_singleton]
          omega
      | none =>
        have hnew : name ∉ d.passed := h.lookup_eq_none.mp hcache
        have hcount := Resolver.settled_count d.resolver (Resolver.load? d.source name)
        have hcalls := h.calls
        have hsettled := h.settled
        simp only [step_resolve, Resolver.resolve_miss hname hcache, hcache, hname, ne_eq, not_false_eq_true, and_self,
          if_true]
        refine ⟨?_, ?_, fun n => ?_, ?_, ?_⟩
        · simp [h.remembered]
        · refine List.nodup_append.mpr ⟨h.once, List.nodup_singleton _, fun a ha b hb => ?_⟩
          rintro rfl
          exact hnew (List.mem_singleton.mp hb ▸ ha)
        · rw [List.mem_append, List.mem_append, h.asked]
        · simp only [Resolver.store, Resolver.cached, Resolver.cache_count, List.length_cons] at hsettled ⊢
          omega
        · simp only [Resolver.store, Resolver.hits_count, List.length_append, List.length_singleton]
          omega

theorem Accounts.run {called : List String} {d : Desk} (h : d.Accounts called) (deeds : List Deed) :
    (d.run deeds).Accounts (called ++ deeds.filterMap Deed.name?) := by
  induction deeds generalizing called d with
  | nil => rw [List.filterMap_nil, List.append_nil]; exact h
  | cons deed deeds ih =>
    have hrest := ih (h.step deed)
    rw [List.append_assoc] at hrest
    rw [run_cons, List.filterMap_cons]
    cases hname : deed.name? with
    | none => simpa [hname] using hrest
    | some name => simpa [hname] using hrest

theorem accounts_new (suppliers : List Supplier) : Accounts [] { suppliers } :=
  ⟨rfl, List.nodup_nil, fun _ => Iff.rfl, rfl, rfl⟩

/-- A name without a question so far is decided by the sources as they stand. -/
theorem decides_first (suppliers : List Supplier) {before : List Deed} {name : String} (hname : name ≠ "")
    (hfirst : Deed.resolve name ∉ before) :
    let d := run { suppliers } before
    Source.Decides d.sources name (d.answer name) := by
  intro d
  have hbooks : d.Accounts (before.filterMap Deed.name?) := (accounts_new suppliers).run before
  have hnew : name ∉ d.passed := by
    rw [hbooks.asked, List.mem_filterMap]
    rintro ⟨deed, hmem, hdeed⟩
    cases deed with
    | add index more => cases hdeed
    | resolve other =>
      have hother : other = name := by
        by_cases hempty : other = ""
        · simp [Deed.name?, hempty] at hdeed
        · simpa [Deed.name?, hempty] using hdeed
      exact hfirst (hother ▸ hmem)
  rw [answer, Resolver.resolve_miss hname (hbooks.lookup_eq_none.mpr hnew)]
  exact Source.decides_chain d.sources name

end Desk

/-- Whatever is asked and added around it, the first question for a name fixes the answer to all of them,
as the sources then decide; and after every run the books of the resolver are in order. -/
theorem Desk.answer_permanent (suppliers : List Supplier) :
    (∀ (before later : List Deed) (name : String), name ≠ "" → Deed.resolve name ∉ before →
      let first := Desk.run { suppliers } before
      Source.Decides first.sources name (first.answer name) ∧
        (Desk.run { suppliers } (before ++ .resolve name :: later)).answer name = first.answer name) ∧
    ∀ deeds : List Deed,
      let d := Desk.run { suppliers } deeds
      let names := deeds.filterMap Deed.name?
      d.passed.Nodup ∧
        d.resolver.loads + d.resolver.absent = d.resolver.cached ∧
        d.resolver.cached = names.toFinset.card ∧
        d.resolver.hits + d.resolver.loads + d.resolver.absent = names.length := by
  constructor
  · intro before later name hname hfirst first
    refine ⟨decides_first suppliers hname hfirst, ?_⟩
    have hlater := lookup_run (lookup_resolve hname first) later
    rw [run_append, run_cons, answer, Resolver.resolve_hit hname hlater]
  · intro deeds d names
    have hbooks : d.Accounts names := (accounts_new suppliers).run deeds
    have hdistinct : names.toFinset = d.passed.toFinset := by
      ext name
      rw [List.mem_toFinset, List.mem_toFinset, hbooks.asked]
    refine ⟨hbooks.once, hbooks.settled, ?_, hbooks.calls⟩
    calc d.resolver.cached = (d.resolver.cache.map Prod.fst).length := (List.length_map _).symm
      _ = d.passed.length := by rw [hbooks.remembered, List.length_reverse]
      _ = names.toFinset.card := by rw [hdistinct, List.toFinset_card_of_nodup hbooks.once]

def plainOrder : Class := { name := "a/Order", access := ⟨0x21⟩, super := Name.object }

def patchedOrder : Class := { plainOrder with super := "a/Base" }

def patchedDesk : List Supplier :=
  [.memory {},
   .failing fun name => .error (if name = "a/Bad" then .new .malformedClass "corrupt" else classNotFound name),
   .memory ⟨[plainOrder]⟩]

/-- A better class that arrives late changes nothing. -/
theorem Desk.answer_permanent_patchedOrder :
    "a/Order" ≠ "" ∧ Deed.resolve "a/Order" ∉ [Deed.resolve "a/Bad"] ∧
    (Desk.run { suppliers := patchedDesk }
      ([.resolve "a/Bad"] ++ .resolve "a/Order" :: [.add 0 [patchedOrder], .resolve "a/Bad"])).answer "a/Order" =
        some plainOrder ∧
    let deeds := [Deed.resolve "a/Bad", .resolve "a/Order", .add 0 [patchedOrder], .resolve "", .resolve "a/Order"]
    let r := (Desk.run { suppliers := patchedDesk } deeds).resolver
    (r.hits, r.loads, r.absent, r.cached) = (1, 1, 1, 2) ∧ r.cached = (deeds.filterMap Deed.name?).toFinset.card := by
  have hname : "a/Order" ≠ "" := by decide
  have hfirst : Deed.resolve "a/Order" ∉ [Deed.resolve "a/Bad"] := by decide
  obtain ⟨hanswers, hbooks⟩ := answer_permanent patchedDesk
  obtain ⟨-, hsame⟩ := hanswers [.resolve "a/Bad"] [.add 0 [patchedOrder], .resolve "a/Bad"] "a/Order" hname hfirst
  refine ⟨hname, hfirst, hsame.trans ?_, ?_, (hbooks _).2.2.1⟩
  · decide +kernel
  · decide +kernel

end JvmLint
