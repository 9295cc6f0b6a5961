import JvmLint.Check.SwallowedException
import JvmLint.Proofs.Dedup
import Mathlib.Data.List.Forall2

/-!
# Shared handlers

Several protected regions may share a handler and the type that it catches. The
handler is judged once, with the exit of the region that comes first in the exception
table. So it is reported in every order of the table if it is empty for all of them, and
the order has no effect at all exactly if the regions that share a handler agree.
-/

namespace JvmLint.SwallowedException

def caught (t : TryCatch) : Label × String := (t.handler, t.type)

@[simp] theorem caught_snd (t : TryCatch) : (caught t).2 = t.type := rfl

theorem type_eq_of_caught {t u : TryCatch} (h : caught t = caught u) : t.type = u.type := congrArg Prod.snd h

def reported (m : Method) : List (Label × String) :=
  if m.hasBody then ((typedEntries m.handlers).filter (swallows m)).map caught else []

def remark (c : Class) (m : Method) (k : Label × String) : Remark :=
  { location := methodLocation c m (handlerLine m ((m.labelIndex? k.1).getD 0))
    message := "Caught exception type '" ++ Name.simple k.2 ++ "' is swallowed without handling" }

theorem methodRemarks_eq (c : Class) (m : Method) : methodRemarks c m = (reported m).map (remark c m) := by
  unfold methodRemarks reported
  by_cases hbody : m.hasBody = true
  · simp only [hbody, Bool.not_true, if_true, List.map_map]
    rfl
  · simp [hbody]

theorem firstsBy_typedEntries (ts : List TryCatch) :
    FirstsBy caught (ts.filter (·.type != "")) (typedEntries ts) :=
  firstsBy_keepFirst (fun a b => by simp [caught]) _

variable {m : Method} {k : Label × String}

theorem find?_typed (ts : List TryCatch) (hk : k.2 ≠ "") :
    (ts.filter (·.type != "")).find? (fun t => caught t = k) = ts.find? (fun t => caught t = k) := by
  simp only [List.find?_filter]
  congr 1
  funext t
  by_cases ht : caught t = k
  · have htype : t.type ≠ "" := by simpa [← ht] using hk
    simp [ht, htype]
  · simp [ht]

/-- The first entry with a handler and a type decides for all of them. -/
theorem mem_reported : k ∈ reported m ↔ m.hasBody = true ∧ k.2 ≠ "" ∧
    ∃ t, m.handlers.find? (fun t => caught t = k) = some t ∧ swallows m t = true := by
  have hfirsts := firstsBy_typedEntries m.handlers
  unfold reported
  by_cases hbody : m.hasBody = true
  · simp only [hbody, if_true, true_and, List.mem_map, List.mem_filter]
    constructor
    · intro ⟨t, ⟨ht, hs⟩, htk⟩
      have hk : k.2 ≠ "" := by simpa [← htk] using (List.mem_filter.1 (hfirsts.subset ht)).2
      have hfind := (hfirsts.mem t).1 ht
      rw [htk, find?_typed m.handlers hk] at hfind
      exact ⟨hk, t, hfind, hs⟩
    · intro ⟨hk, t, hfind, hs⟩
      have htk : caught t = k := by simpa using List.find?_some hfind
      refine ⟨t, ⟨(hfirsts.mem t).2 ?_, hs⟩, htk⟩
      rw [htk, find?_typed m.handlers hk]
      exact hfind
  · simp [hbody]

/-! ## Other orders -/

def Reordered (m m' : Method) : Prop := ∃ table, m.handlers.Perm table ∧ m' = { m with handlers := table }

theorem reordered_refl (m : Method) : Reordered m m := ⟨m.handlers, .refl _, rfl⟩

/-- The regions that share a handler and a type agree on whether the handler is empty. -/
def Agree (m : Method) : Prop :=
  ∀ t ∈ m.handlers, ∀ u ∈ m.handlers, t.type ≠ "" → caught t = caught u → swallows m t = swallows m u

theorem mem_reported_front (hbody : m.hasBody = true) {t : TryCatch} (htype : t.type ≠ "") (rest : List TryCatch) :
    caught t ∈ reported { m with handlers := t :: rest } ↔ swallows m t = true := by
  rw [mem_reported]
  constructor
  · intro ⟨_, _, u, hfind, hs⟩
    have htu : t = u := by simpa using hfind
    exact htu ▸ hs
  · intro hs
    exact ⟨hbody, htype, t, by simp, hs⟩

theorem reported_in_some_order (hbody : m.hasBody = true) {t : TryCatch} (htype : t.type ≠ "") :
    (∃ m', Reordered m m' ∧ caught t ∈ reported m') ↔ ∃ u ∈ m.handlers, caught u = caught t ∧ swallows m u = true := by
  constructor
  · intro ⟨m', ⟨table, hperm, hm⟩, hk⟩
    subst hm
    obtain ⟨_, _, u, hfind, hs⟩ := mem_reported.1 hk
    exact ⟨u, hperm.mem_iff.2 (List.mem_of_find?_eq_some hfind), by simpa using List.find?_some hfind, hs⟩
  · intro ⟨u, hu, hut, hs⟩
    have hutype : u.type ≠ "" := type_eq_of_caught hut ▸ htype
    exact ⟨_, ⟨_, List.perm_cons_erase hu, rfl⟩, hut ▸ (mem_reported_front hbody hutype _).2 hs⟩

theorem reported_in_every_order (hbody : m.hasBody = true) {t : TryCatch} (ht : t ∈ m.handlers) (htype : t.type ≠ "") :
    (∀ m', Reordered m m' → caught t ∈ reported m') ↔ ∀ u ∈ m.handlers, caught u = caught t → swallows m u = true := by
  constructor
  · intro h u hu hut
    have hutype : u.type ≠ "" := type_eq_of_caught hut ▸ htype
    rw [← mem_reported_front hbody hutype (m.handlers.erase u), hut]
    exact h _ ⟨_, List.perm_cons_erase hu, rfl⟩
  · intro h m' ⟨table, hperm, hm⟩
    subst hm
    refine mem_reported.2 ⟨hbody, htype, ?_⟩
    cases hfind : table.find? (fun u => caught u = caught t) with
    | none => exact absurd (decide_eq_true rfl) (List.find?_eq_none.1 hfind t (hperm.mem_iff.1 ht))
    | some u =>
      have hu : u ∈ m.handlers := hperm.mem_iff.2 (List.mem_of_find?_eq_some hfind)
      exact ⟨u, rfl, h u hu (by simpa using List.find?_some hfind)⟩

theorem reported_again {m' m'' : Method} (h : m.hasBody = true → Agree m) (hm' : Reordered m m') (hm'' : Reordered m m'')
    (hk : k ∈ reported m') : k ∈ reported m'' := by
  obtain ⟨table, hperm, rfl⟩ := hm'
  obtain ⟨hbody, htype, t, hfind, hs⟩ := mem_reported.1 hk
  have ht : t ∈ m.handlers := hperm.mem_iff.2 (List.mem_of_find?_eq_some hfind)
  have htk : caught t = k := by simpa using List.find?_some hfind
  subst htk
  refine (reported_in_every_order (m := m) hbody ht htype).2 ?_ m'' hm''
  intro u hu hut
  exact h hbody t ht u hu htype hut.symm ▸ hs

theorem reported_of_agree {m' : Method} (h : m.hasBody = true → Agree m) (hm : Reordered m m') :
    k ∈ reported m' ↔ k ∈ reported m :=
  ⟨reported_again h hm (reordered_refl m), reported_again h (reordered_refl m) hm⟩

theorem agree_of_reported (hbody : m.hasBody = true)
    (h : ∀ m', Reordered m m' → ∀ k, k ∈ reported m' ↔ k ∈ reported m) : Agree m := by
  -- what is reported in one order is reported in all, so a region that is empty makes the others so
  have hall : ∀ t ∈ m.handlers, ∀ u ∈ m.handlers, t.type ≠ "" → caught t = caught u → swallows m t = true →
      swallows m u = true := by
    intro t ht u hu htype hsame hs
    obtain ⟨m', hm, hk⟩ := (reported_in_some_order hbody htype).2 ⟨t, ht, rfl, hs⟩
    have hevery : ∀ m'', Reordered m m'' → caught t ∈ reported m'' := fun m'' hm'' => (h m'' hm'' _).2 ((h m' hm _).1 hk)
    exact (reported_in_every_order hbody ht htype).1 hevery u hu hsame.symm
  intro t ht u hu htype hsame
  have hutype : u.type ≠ "" := type_eq_of_caught hsame ▸ htype
  rw [Bool.eq_iff_iff]
  exact ⟨hall t ht u hu htype hsame, hall u hu t ht hutype hsame.symm⟩

/-! ## Classes -/

def TablesReordered (c c' : Class) : Prop :=
  ∃ methods, List.Forall₂ Reordered c.methods methods ∧ c' = { c with methods }

def Reports (c : Class) (i : Nat) (k : Label × String) : Prop := ∃ m, c.methods[i]? = some m ∧ k ∈ reported m

theorem reports_of_agree {ms ms' : List Method} (hms : List.Forall₂ Reordered ms ms')
    (h : ∀ m ∈ ms, m.hasBody = true → Agree m) (i : Nat) :
    (∃ m, ms'[i]? = some m ∧ k ∈ reported m) ↔ ∃ m, ms[i]? = some m ∧ k ∈ reported m := by
  induction hms generalizing i with
  | nil => rfl
  | @cons m m' ms ms' hm _ ih =>
    cases i with
    | zero => simpa using reported_of_agree (h m (by simp)) hm
    | succ i => simpa using ih (fun m hm => h m (by simp [hm])) i

theorem reordered_set {ms : List Method} {i : Nat} {m' : Method} (hi : ms[i]? = some m) (hm : Reordered m m') :
    List.Forall₂ Reordered ms (ms.set i m') := by
  induction ms generalizing i with
  | nil => simp at hi
  | cons a ms ih =>
    cases i with
    | zero =>
      have ha : a = m := by simpa using hi
      exact .cons (ha ▸ hm) (List.forall₂_same.2 fun m _ => reordered_refl m)
    | succ i => exact .cons (reordered_refl a) (ih (by simpa using hi))

/-- There is a finding for each handler and type that a method is reported for. It is the first region of the
table that decides whether this is so. Hence a handler is reported in every order exactly if it is empty with respect
to the exits of all regions that share it, in some order if it is for one of them, and what is reported stays the
same in every order of the tables exactly if these regions agree. -/
theorem reports_by_first_region (c : Class) :
    (∀ around, check.findings c around =
      .done (c.methods.flatMap fun m => (reported m).map fun k => info.finding (remark c m k))) ∧
    (∀ i k, Reports c i k ↔ ∃ m, c.methods[i]? = some m ∧ m.hasBody = true ∧ k.2 ≠ "" ∧
      ∃ t, m.handlers.find? (fun t => caught t = k) = some t ∧ swallows m t = true) ∧
    (∀ m ∈ c.methods, m.hasBody = true → ∀ t ∈ m.handlers, t.type ≠ "" →
      ((∀ m', Reordered m m' → caught t ∈ reported m') ↔ ∀ u ∈ m.handlers, caught u = caught t → swallows m u = true) ∧
      ((∃ m', Reordered m m' ∧ caught t ∈ reported m') ↔ ∃ u ∈ m.handlers, caught u = caught t ∧ swallows m u = true)) ∧
    ((∀ c', TablesReordered c c' → ∀ i k, Reports c' i k ↔ Reports c i k) ↔
      ∀ m ∈ c.methods, m.hasBody = true → Agree m) := by
  refine ⟨fun around => ?_, fun i k => ?_, fun m _ hbody t ht htype => ?_, ?_, ?_⟩
  · have hrun : check.findings c around = .done ((c.methods.flatMap (methodRemarks c)).map info.finding) := rfl
    rw [hrun, List.map_flatMap]
    simp only [methodRemarks_eq, List.map_map]
    rfl
  · simp only [Reports, mem_reported]
  · exact ⟨reported_in_every_order hbody ht htype, reported_in_some_order hbody htype⟩
  · intro h m hmem hbody
    obtain ⟨i, hi⟩ := List.getElem?_of_mem hmem
    apply agree_of_reported hbody
    intro m' hm k
    have hreports := h _ ⟨_, reordered_set hi hm, rfl⟩ i k
    have hlt : i < c.methods.length := (List.getElem?_eq_some_iff.1 hi).1
    simpa [Reports, hi, List.getElem?_set_self hlt] using hreports
  · intro h c' hc i k
    obtain ⟨methods, hmethods, rfl⟩ := hc
    exact reports_of_agree hmethods h i

/-- A method with two regions that share a handler. The one at 0 goes on where the handler falls through to, so the
handler is empty; the one at 4 returns, so the handler seems to go on with the call. -/
def closing (table : List TryCatch) : Method :=
  { name := "load", desc := "()V", access := ⟨1⟩
    body := [.label 0, .real { op := .aload }, .label 1, .real { op := .goto, target := 9 },
      .label 4, .real { op := .aload }, .label 5, .real { op := .vreturn },
      .label 6, .real { op := .astore, slot := 1 },
      .label 9, .real { op := .aload }, .real { op := .invokevirtual, owner := "app/Io", name := "close", desc := "()V" },
      .real { op := .vreturn }]
    handlers := table }

def leaving : TryCatch := ⟨0, 1, 6, "java/io/IOException"⟩

def returning : TryCatch := ⟨4, 5, 6, "java/io/IOException"⟩

def closingClass (table : List TryCatch) : Class :=
  { name := "app/Io", access := ⟨33⟩, super := Name.object, methods := [closing table] }

theorem closing_reported_by_order :
    TablesReordered (closingClass [leaving, returning]) (closingClass [returning, leaving]) ∧
    Reports (closingClass [leaving, returning]) 0 (caught leaving) ∧
    ¬ Reports (closingClass [returning, leaving]) 0 (caught leaving) ∧
    swallows (closing [returning, leaving]) leaving = true := by
  have hmethod : Reordered (closing [leaving, returning]) (closing [returning, leaving]) :=
    ⟨[returning, leaving], .swap _ _ _, rfl⟩
  refine ⟨⟨[closing [returning, leaving]], .cons hmethod .nil, rfl⟩, ⟨_, rfl, by decide⟩, ?_, by decide⟩
  intro ⟨m, hm, hk⟩
  cases hm
  exact absurd hk (by decide)

end JvmLint.SwallowedException
