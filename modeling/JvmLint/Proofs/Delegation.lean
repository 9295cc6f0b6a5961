import JvmLint.Proofs.BuiltInChecks

/-!
# Delegation

A decorator delegates to a field if one of its methods reads the field and goes on to a call
while the value may still be on the stack. The check runs over a body with one bit, whether
such a value is pending; this says no more and no less than that there are two such places.
-/

namespace JvmLint.Decorator

def Drops (o : Operation) : Prop := o.role = .store ∨ o.op.isFieldRead = true

def Awaits (ops : List Operation) : Prop :=
  ∃ j : Nat, (∃ o : Operation, ops[j]? = some o ∧ o.role = .methodCall) ∧ ∀ k o, k < j → ops[k]? = some o → ¬ Drops o

/-- The class reads its field at one place and calls a method at a later one, and nothing between them drops the
value. -/
def Delegates (c : Class) (name : String) (ops : List Operation) : Prop :=
  ∃ i j : Nat, i < j ∧ (∃ o : Operation, ops[i]? = some o ∧ o.op = .getfield ∧ o.owner = c.name ∧ o.name = name) ∧
    (∃ o : Operation, ops[j]? = some o ∧ o.role = .methodCall) ∧ ∀ k o, i < k → k < j → ops[k]? = some o → ¬ Drops o

def Delegated (c : Class) (name : String) : Prop := ∃ m ∈ c.methods, Delegates c name m.operations

def Referenced (c : Class) (name : String) : Prop :=
  ∃ m ∈ c.methods, ∃ o, .real o ∈ m.body ∧ (o.op = .getfield ∨ o.op = .putfield) ∧ o.owner = c.name ∧ o.name = name

variable {c : Class} {name : String} {o : Operation} {os : List Operation}

/-! ## One instruction -/

theorem role_of_read (h : o.op.isFieldRead = true) : o.role = .fieldAccess := by
  have hop : o.op = .getfield ∨ o.op = .getstatic := by simpa [Opcode.isFieldRead] using h
  unfold Operation.role
  rcases hop with hop | hop <;> rw [hop] <;> rfl

theorem readsOwn_iff : readsOwn c name o = true ↔ o.op = .getfield ∧ o.owner = c.name ∧ o.name = name := by
  simp [readsOwn, and_assoc]

theorem isFieldRead_of_readsOwn (h : readsOwn c name o = true) : o.op.isFieldRead = true := by
  rw [(readsOwn_iff.1 h).1]
  rfl

theorem awaits_cons : Awaits (o :: os) ↔ o.role = .methodCall ∨ ¬ Drops o ∧ Awaits os := by
  constructor
  · rintro ⟨j, ⟨call, hcall, hrole⟩, hkeep⟩
    cases j with
    | zero =>
      have ho : o = call := by simpa using hcall
      exact .inl (ho ▸ hrole)
    | succ j =>
      refine .inr ⟨hkeep 0 o (by omega) rfl, j, ⟨call, by simpa using hcall, hrole⟩, ?_⟩
      intro k o' hk ho'
      exact hkeep (k + 1) o' (by omega) (by simpa using ho')
  · rintro (hrole | ⟨hdrops, j, ⟨call, hcall, hrole⟩, hkeep⟩)
    · exact ⟨0, ⟨o, rfl, hrole⟩, by simp⟩
    · refine ⟨j + 1, ⟨call, by simpa using hcall, hrole⟩, ?_⟩
      intro k o' hk ho'
      cases k with
      | zero =>
        have ho : o = o' := by simpa using ho'
        exact ho ▸ hdrops
      | succ k => exact hkeep k o' (by omega) (by simpa using ho')

theorem delegates_cons :
    Delegates c name (o :: os) ↔ readsOwn c name o = true ∧ Awaits os ∨ Delegates c name os := by
  rw [readsOwn_iff]
  constructor
  · rintro ⟨i, j, hij, ⟨own, hown, hread⟩, ⟨call, hcall, hrole⟩, hkeep⟩
    cases j with
    | zero => omega
    | succ j =>
      have hcall' : os[j]? = some call := by simpa using hcall
      cases i with
      | zero =>
        have ho : o = own := by simpa using hown
        refine .inl ⟨ho ▸ hread, j, ⟨call, hcall', hrole⟩, ?_⟩
        intro k o' hk ho'
        exact hkeep (k + 1) o' (by omega) (by omega) (by simpa using ho')
      | succ i =>
        refine .inr ⟨i, j, by omega, ⟨own, by simpa using hown, hread⟩, ⟨call, hcall', hrole⟩, ?_⟩
        intro k o' hik hkj ho'
        exact hkeep (k + 1) o' (by omega) (by omega) (by simpa using ho')
  · rintro (⟨hread, j, ⟨call, hcall, hrole⟩, hkeep⟩ | ⟨i, j, hij, ⟨own, hown, hread⟩, ⟨call, hcall, hrole⟩, hkeep⟩)
    · refine ⟨0, j + 1, by omega, ⟨o, rfl, hread⟩, ⟨call, by simpa using hcall, hrole⟩, ?_⟩
      intro k o' hik hkj ho'
      obtain ⟨k, rfl⟩ : ∃ k', k = k' + 1 := ⟨k - 1, by omega⟩
      exact hkeep k o' (by omega) (by simpa using ho')
    · refine ⟨i + 1, j + 1, by omega, ⟨own, by simpa using hown, hread⟩, ⟨call, by simpa using hcall, hrole⟩, ?_⟩
      intro k o' hik hkj ho'
      obtain ⟨k, rfl⟩ : ∃ k', k = k' + 1 := ⟨k - 1, by omega⟩
      exact hkeep k o' (by omega) (by omega) (by simpa using ho')

/-! ## The whole body -/

theorem delegatesFrom_pass (hread : ¬ o.op.isFieldRead = true) (hstore : o.role ≠ .store) (hcall : o.role ≠ .methodCall)
    (pending : Bool) : delegatesFrom c name pending (o :: os) = delegatesFrom c name pending os := by
  rw [delegatesFrom]
  split
  · contradiction
  · contradiction
  · rw [if_neg hread]
  · rfl

theorem delegatesFrom_iff (pending : Bool) (ops : List Operation) :
    delegatesFrom c name pending ops = true ↔ pending = true ∧ Awaits ops ∨ Delegates c name ops := by
  induction ops generalizing pending with
  | nil => simp [delegatesFrom, Awaits, Delegates]
  | cons o os ih =>
    rw [awaits_cons, delegates_cons]
    by_cases hread : o.op.isFieldRead = true
    · -- whatever was pending, what is read now decides
      have hrole := role_of_read hread
      have hdrops : Drops o := .inr hread
      simp [delegatesFrom, hrole, hread, hdrops, ih]
    · have hown : ¬ readsOwn c name o = true := fun h => hread (isFieldRead_of_readsOwn h)
      by_cases hstore : o.role = .store
      · have hdrops : Drops o := .inl hstore
        simp [delegatesFrom, hstore, hdrops, hown, ih]
      · have hkeeps : ¬ Drops o := by simp [Drops, hstore, hread]
        by_cases hcall : o.role = .methodCall
        · cases pending with
          | true => simp [delegatesFrom, hcall]
          | false => simp [delegatesFrom, hcall, hown, ih]
        · simp [delegatesFrom_pass hread hstore hcall, hcall, hkeeps, hown, ih]

theorem delegatesTo_iff : delegatesTo c name = true ↔ Delegated c name := by
  simp [delegatesTo, delegatesFrom_iff, Delegated]

/-! ## Findings -/

theorem isReferenced_iff : isReferenced c name = true ↔ Referenced c name := by
  simp [isReferenced, Method.mem_operations, and_assoc, Referenced]

theorem mem_componentFields {f : Field} : f ∈ componentFields c ↔ f ∈ c.fields ∧ f.access.isStatic = false ∧
    ∃ type, f.type = .ok (.object type) ∧ (type ∈ c.interfaces ∨ c.hasSuper = true ∧ type = c.super) := by
  unfold componentFields
  rw [List.mem_filter]
  apply and_congr_right
  intro _
  cases htype : f.type with
  | error e => simp
  | ok t =>
    cases t with
    | primitive p => simp [isComponent]
    | array t => simp [isComponent]
    | object type => by_cases hsuper : c.hasSuper = true <;> simp [isComponent, componentTypes, hsuper]

def fieldRemark (c : Class) (name what : String) : Remark :=
  { location := c.displayName, message := "Decorator field '" ++ name ++ "' in class " ++ c.simpleName ++ what }

def neverUsed : String := " is never used"

def notDelegated : String := " is not properly delegated to"

theorem fieldRemark?_eq (c : Class) (f : Field) : fieldRemark? c f =
    if isReferenced c f.name then
      if delegatesTo c f.name then none else some (fieldRemark c f.name notDelegated)
    else some (fieldRemark c f.name neverUsed) := by
  unfold fieldRemark?
  cases isReferenced c f.name with
  | false => rfl
  | true => cases delegatesTo c f.name <;> rfl

theorem fieldRemark?_eq_some {f : Field} {r : Remark} : fieldRemark? c f = some r ↔
    ¬ Referenced c f.name ∧ fieldRemark c f.name neverUsed = r ∨
      (Referenced c f.name ∧ ¬ Delegated c f.name) ∧ fieldRemark c f.name notDelegated = r := by
  rw [fieldRemark?_eq, ← isReferenced_iff, ← delegatesTo_iff]
  cases isReferenced c f.name with
  | false => simp
  | true => cases delegatesTo c f.name <;> simp

theorem fieldRemark_inj {n n' what : String} (h : fieldRemark c n what = fieldRemark c n' what) : n = n' := by
  have h := congrArg (fun r => r.message.toList) h
  simp only [fieldRemark, String.toList_append] at h
  have h := List.append_cancel_right (List.append_cancel_right (List.append_cancel_right h))
  exact String.toList_inj.1 (List.append_cancel_left h)

/-- The two things said of fields end differently. -/
theorem neverUsed_ne_notDelegated (n n' : String) : fieldRemark c n neverUsed ≠ fieldRemark c n' notDelegated := by
  intro h
  have h := congrArg (fun r => r.message.toList.reverse) h
  simp only [fieldRemark, String.toList_append, List.reverse_append] at h
  have hlast := take_eq_of_append_eq (n := 1) h (by decide) (by decide)
  exact absurd hlast (by decide)

theorem constructor_ne_field {m : Method} {r : Remark} (h : constructorRemark? c m = some r) (n what : String) :
    r ≠ fieldRemark c n what := by
  unfold constructorRemark? at h
  split at h
  · cases h
  · cases h
    intro h
    have h := congrArg (fun r => r.message.toList) h
    simp only [fieldRemark, String.toList_append, List.append_assoc] at h
    have hfirst := take_eq_of_append_eq (n := 1) h (by decide) (by decide)
    exact absurd hfirst (by decide)

def isAbout (c : Class) (name : String) (r : Remark) : Bool :=
  r = fieldRemark c name neverUsed || r = fieldRemark c name notDelegated

theorem name_of_isAbout {f : Field} {r : Remark} (hf : fieldRemark? c f = some r) (h : isAbout c name r = true) :
    f.name = name := by
  have h : r = fieldRemark c name neverUsed ∨ r = fieldRemark c name notDelegated := by simpa [isAbout] using h
  rcases fieldRemark?_eq_some.1 hf with ⟨-, rfl⟩ | ⟨-, rfl⟩
  · rcases h with h | h
    · exact fieldRemark_inj h
    · exact absurd h (neverUsed_ne_notDelegated _ _)
  · rcases h with h | h
    · exact absurd h.symm (neverUsed_ne_notDelegated _ _)
    · exact fieldRemark_inj h

theorem fieldRemark?_congr {f g : Field} (h : f.name = g.name) : fieldRemark? c f = fieldRemark? c g := by
  rw [fieldRemark?_eq, fieldRemark?_eq, h]

theorem mem_remarks (hconcrete : c.isConcrete = true) {f : Field} (hf : f ∈ componentFields c) {what : String}
    (hwhat : isAbout c f.name (fieldRemark c f.name what) = true) :
    fieldRemark c f.name what ∈ remarks c ↔ fieldRemark? c f = some (fieldRemark c f.name what) := by
  have hconstructor : fieldRemark c f.name what ∉ (componentConstructors c).filterMap (constructorRemark? c) := by
    intro h
    obtain ⟨m, -, hm⟩ := List.mem_filterMap.1 h
    exact constructor_ne_field hm f.name what rfl
  simp only [remarks, hconcrete, Bool.not_true, Bool.false_eq_true, if_false, List.mem_append, hconstructor, false_or,
    List.mem_filterMap]
  constructor
  · rintro ⟨g, -, hg⟩
    -- another field of the name is judged alike
    rwa [fieldRemark?_congr (name_of_isAbout hg hwhat)] at hg
  · intro hverdict
    exact ⟨f, hf, hverdict⟩

theorem notDelegated_mem_remarks (hconcrete : c.isConcrete = true) {f : Field} (hf : f ∈ componentFields c) :
    fieldRemark c f.name notDelegated ∈ remarks c ↔ Referenced c f.name ∧ ¬ Delegated c f.name := by
  rw [mem_remarks hconcrete hf (by simp [isAbout]), fieldRemark?_eq_some]
  simp [neverUsed_ne_notDelegated]

theorem neverUsed_mem_remarks (hconcrete : c.isConcrete = true) {f : Field} (hf : f ∈ componentFields c) :
    fieldRemark c f.name neverUsed ∈ remarks c ↔ ¬ Referenced c f.name := by
  rw [mem_remarks hconcrete hf (by simp [isAbout]), fieldRemark?_eq_some]
  simp [(neverUsed_ne_notDelegated f.name f.name).symm]

theorem countP_isAbout_le (c : Class) (name : String) :
    (remarks c).countP (isAbout c name) ≤ (componentFields c).countP (·.name == name) := by
  unfold remarks
  split
  · simp
  · have hconstructors : ((componentConstructors c).filterMap (constructorRemark? c)).countP (isAbout c name) = 0 := by
      rw [List.countP_eq_zero]
      intro r hr
      obtain ⟨m, -, hm⟩ := List.mem_filterMap.1 hr
      simp [isAbout, constructor_ne_field hm]
    rw [List.countP_append, hconstructors, Nat.zero_add, List.countP_filterMap]
    apply List.countP_mono_left
    intro f _ habout
    cases hf : fieldRemark? c f with
    | none => simp [hf] at habout
    | some r =>
      have habout : isAbout c name r = true := by simpa [hf] using habout
      simp [name_of_isAbout hf habout]

/-- The run with one bit finds a delegation exactly if a method has a read of the field and a later call with neither a
store nor a field read between them. So in a concrete class a component field that is referenced is reported as not
delegated to exactly if there is no such pair, one that is not referenced is reported as unused, and there are no more
findings on a name than component fields of that name. -/
theorem delegation_recognised (c : Class) :
    (∀ name, delegatesTo c name = true ↔ ∃ m ∈ c.methods, Delegates c name m.operations) ∧
    (∀ f, f ∈ componentFields c ↔ f ∈ c.fields ∧ f.access.isStatic = false ∧
      ∃ type, f.type = .ok (.object type) ∧ (type ∈ c.interfaces ∨ c.hasSuper = true ∧ type = c.super)) ∧
    ∀ around, ∃ found : List Remark, check.findings c around = .done (found.map info.finding) ∧
      (c.isConcrete = false → found = []) ∧
      (c.isConcrete = true → ∀ f ∈ componentFields c,
        (fieldRemark c f.name notDelegated ∈ found ↔ Referenced c f.name ∧ ¬ Delegated c f.name) ∧
        (fieldRemark c f.name neverUsed ∈ found ↔ ¬ Referenced c f.name)) ∧
      ∀ name, found.countP (isAbout c name) ≤ (componentFields c).countP (·.name == name) := by
  refine ⟨fun name => delegatesTo_iff, fun f => mem_componentFields, fun around => ⟨remarks c, rfl, ?_, ?_, ?_⟩⟩
  · intro habstract
    simp [remarks, habstract]
  · intro hconcrete f hf
    exact ⟨notDelegated_mem_remarks hconcrete hf, neverUsed_mem_remarks hconcrete hf⟩
  · exact countP_isAbout_le c

def stashing : Class :=
  { name := "app/Milk", access := ⟨33⟩, super := Name.object, interfaces := ["app/Coffee"]
    fields := [⟨"inner", "Lapp/Coffee;", ⟨18⟩⟩]
    methods := [{
      name := "cost", desc := "()D", access := ⟨1⟩
      body := [.real { op := .aload }, .real { op := .getfield, owner := "app/Milk", name := "inner", desc := "Lapp/Coffee;" },
        .line 14, .real { op := .astore, slot := 1 }, .real { op := .aload, slot := 1 },
        .real { op := .invokeinterface, owner := "app/Coffee", name := "cost", desc := "()D" }, .real { op := .dreturn }] }] }

theorem delegation_recognised_stashing :
    stashing.isConcrete = true ∧ ⟨"inner", "Lapp/Coffee;", ⟨18⟩⟩ ∈ componentFields stashing ∧
    Referenced stashing "inner" ∧ ¬ Delegated stashing "inner" ∧
    ∃ found : List Remark, check.findings stashing {} = .done (found.map info.finding) ∧
      fieldRemark stashing "inner" notDelegated ∈ found := by
  obtain ⟨hrecognised, _, hfindings⟩ := delegation_recognised stashing
  obtain ⟨found, hfound, _, hverdict, _⟩ := hfindings {}
  have hfield : ⟨"inner", "Lapp/Coffee;", ⟨18⟩⟩ ∈ componentFields stashing := by decide
  have hreferenced : Referenced stashing "inner" := isReferenced_iff.1 (by decide)
  have hdelegated : ¬ Delegated stashing "inner" := by
    intro h
    exact absurd ((hrecognised "inner").2 h) (by decide)
  exact ⟨by decide, hfield, hreferenced, hdelegated, found, hfound,
    (hverdict (by decide) _ hfield).1.2 ⟨hreferenced, hdelegated⟩⟩

end JvmLint.Decorator
