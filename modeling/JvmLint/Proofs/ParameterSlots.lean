import JvmLint.Proofs.BuiltInChecks

/-!
# Parameters and their slots

The parameters of a method lie side by side in its local variables, wide ones in two slots. A
slot belongs to one parameter, so what an instruction reads counts for that parameter alone.
-/

namespace JvmLint

/-! ## Layout -/

structure LaidOut (start : Nat) (types : List ValueType) (slots : List Nat) : Prop where
  length : slots.length = types.length
  first : ∀ s, slots[0]? = some s → s = start
  next : ∀ (i s : Nat) (t : ValueType) (s' : Nat), slots[i]? = some s → types[i]? = some t →
    slots[i + 1]? = some s' → s' = s + t.slots
  apart : ∀ (i j s : Nat) (t : ValueType) (s' : Nat), i < j → slots[i]? = some s → types[i]? = some t →
    slots[j]? = some s' → s + t.slots ≤ s'

theorem length_slotsFrom (start : Nat) (ts : List ValueType) : (slotsFrom start ts).length = ts.length := by
  induction ts generalizing start with
  | nil => rfl
  | cons t ts ih => simp [slotsFrom, ih]

theorem start_le_slot {start : Nat} {ts : List ValueType} {i s : Nat} (h : (slotsFrom start ts)[i]? = some s) :
    start ≤ s := by
  induction ts generalizing start i with
  | nil => simp [slotsFrom] at h
  | cons t ts ih =>
    cases i with
    | zero =>
      have hs : start = s := by simpa [slotsFrom] using h
      omega
    | succ i =>
      have hle : start + t.slots ≤ s := ih (by simpa [slotsFrom] using h)
      omega

theorem laidOut_slotsFrom (start : Nat) (ts : List ValueType) : LaidOut start ts (slotsFrom start ts) := by
  induction ts generalizing start with
  | nil => exact ⟨rfl, by simp [slotsFrom], by simp [slotsFrom], by simp [slotsFrom]⟩
  | cons t ts ih =>
    have hrest := ih (start + t.slots)
    refine ⟨length_slotsFrom start (t :: ts), by simp [slotsFrom], ?_, ?_⟩
    · intro i s t' s' hs ht hs'
      cases i with
      | zero =>
        have hstart : start = s := by simpa [slotsFrom] using hs
        have htype : t = t' := by simpa using ht
        rw [← hstart, ← htype]
        exact hrest.first s' (by simpa [slotsFrom] using hs')
      | succ i => exact hrest.next i s t' s' (by simpa [slotsFrom] using hs) (by simpa using ht) (by simpa [slotsFrom] using hs')
    · intro i j s t' s' hij hs ht hs'
      cases j with
      | zero => omega
      | succ j =>
        have hlater : (slotsFrom (start + t.slots) ts)[j]? = some s' := by simpa [slotsFrom] using hs'
        cases i with
        | zero =>
          have hstart : start = s := by simpa [slotsFrom] using hs
          have htype : t = t' := by simpa using ht
          rw [← hstart, ← htype]
          exact start_le_slot hlater
        | succ i => exact hrest.apart i j s t' s' (by omega) (by simpa [slotsFrom] using hs) (by simpa using ht) hlater

theorem ValueType.slots_eq (t : ValueType) : t.slots = if t.text = "J" ∨ t.text = "D" then 2 else 1 := by
  have hJ : ("J" : String) = String.ofList ['J'] := rfl
  have hD : ("D" : String) = String.ofList ['D'] := rfl
  simp only [ValueType.text, hJ, hD, String.ofList_inj]
  cases t with
  | primitive p => cases p <;> rfl
  | object name => simp [ValueType.slots, ValueType.chars]
  | array t => simp [ValueType.slots, ValueType.chars]

theorem ValueType.slots_pos (t : ValueType) : 0 < t.slots := by
  rw [t.slots_eq]
  split <;> decide

namespace UnusedParameter

variable {c : Class} {m : Method} {t : MethodType}

/-! ## Reads -/

def Unread (m : Method) (slot : Nat) : Prop :=
  ∀ o, .real o ∈ m.body → o.role = .load ∨ o.role = .increment → o.slot ≠ (slot : Int)

theorem reads_iff {slot : Nat} {o : Operation} :
    reads slot o = true ↔ (o.role = .load ∨ o.role = .increment) ∧ o.slot = slot := by
  simp [reads]

theorem unread_iff {slot : Nat} : (!m.operations.any (reads slot)) = true ↔ Unread m slot := by
  rw [Bool.not_eq_true', List.any_eq_false]
  unfold Unread
  constructor
  · intro h o ho hrole hslot
    exact h o (Method.mem_operations.2 ho) (reads_iff.2 ⟨hrole, hslot⟩)
  · intro h o ho hreads
    obtain ⟨hrole, hslot⟩ := reads_iff.1 hreads
    exact h o (Method.mem_operations.1 ho) hrole hslot

theorem mem_unread {slot i : Nat} :
    (slot, i) ∈ unread m t ↔ (t.paramSlots m.access.isStatic)[i]? = some slot ∧ Unread m slot := by
  unfold unread
  rw [List.mem_filter, List.mem_zipIdx_iff_getElem?, unread_iff]

theorem unread_increase (m : Method) (t : MethodType) : (unread m t).Pairwise fun p q => p.2 < q.2 :=
  (zipIdx_increase _).filter _

theorem unread_insert {before after : List Instruction} {o : Operation} {slot : Nat} (h : o.slot ≠ (slot : Int)) :
    Unread { m with body := before ++ .real o :: after } slot ↔ Unread { m with body := before ++ after } slot := by
  unfold Unread
  simp only [List.mem_append, List.mem_cons, Instruction.real.injEq]
  constructor
  · intro hunread o' ho'
    exact hunread o' (by grind)
  · intro hunread o' ho' hrole
    by_cases hsame : o' = o
    · rw [hsame]
      exact h
    · exact hunread o' (by grind) hrole

/-- An instruction on a slot of one parameter says nothing about another one. -/
theorem unread_beside {before after : List Instruction} {o : Operation} {i s : Nat} {type : ValueType}
    (hslot : (t.paramSlots m.access.isStatic)[i]? = some s) (htype : t.params[i]? = some type)
    (hlower : (s : Int) ≤ o.slot) (hupper : o.slot < s + type.slots) {j s' : Nat} (hj : j ≠ i) :
    (s', j) ∈ unread { m with body := before ++ .real o :: after } t ↔
      (s', j) ∈ unread { m with body := before ++ after } t := by
  rw [mem_unread, mem_unread]
  apply and_congr_right
  intro hslot'
  apply unread_insert
  have hlayout := laidOut_slotsFrom (if m.access.isStatic then 0 else 1) t.params
  have hlt : j < t.params.length := by
    rw [← hlayout.length]
    exact (List.getElem?_eq_some_iff.1 hslot').1
  have htype' : t.params[j]? = some t.params[j] := List.getElem?_eq_getElem hlt
  have hpos := t.params[j].slots_pos
  rcases Nat.lt_or_gt_of_ne hj with hji | hij
  · have hle := hlayout.apart j i s' _ s hji hslot' htype' hslot
    omega
  · have hle := hlayout.apart i j s _ s' hij hslot htype hslot'
    omega

/-! ## Findings -/

def remark (c : Class) (m : Method) (p : Nat × Nat) : Remark :=
  { location := methodLocation c m m.firstLine
    message := "Unused parameter '" ++ paramName m p.1 p.2 ++ "' in method '" ++ m.name ++ "'" }

theorem methodRemarks_eq (habstract : m.access.isAbstract = false) (hnative : m.access.isNative = false)
    (hname : m.name ≠ Name.initializer) (htype : m.type = .ok t) :
    methodRemarks c m = (unread m t).map (remark c m) := by
  have hinitializer : m.isInitializer = false := by simpa [Method.isInitializer] using hname
  simp only [methodRemarks, habstract, hnative, hinitializer, Bool.or_self, htype]
  rfl

/-- The parameters lie side by side from slot 0 or, behind the receiver, from slot 1 on, and only `long` and `double`
take two slots. A method that is judged has one finding for each parameter whose slot is not read, in the order of the
parameters; what an instruction does with a slot of one parameter changes nothing for the others. -/
theorem unread_parameters_reported (c : Class) :
    (∀ (t : MethodType) (static : Bool), LaidOut (if static then 0 else 1) t.params (t.paramSlots static)) ∧
    (∀ type : ValueType, type.slots = if type.text = "J" ∨ type.text = "D" then 2 else 1) ∧
    (∀ around, check.findings c around = .done (c.methods.flatMap fun m => (methodRemarks c m).map info.finding)) ∧
    ∀ (m : Method) (t : MethodType), m.access.isAbstract = false → m.access.isNative = false →
      m.name ≠ Name.initializer → m.type = .ok t →
      methodRemarks c m = (unread m t).map (remark c m) ∧
      (unread m t).Pairwise (fun p q => p.2 < q.2) ∧
      (∀ slot i, (slot, i) ∈ unread m t ↔ (t.paramSlots m.access.isStatic)[i]? = some slot ∧ Unread m slot) ∧
      ∀ (before after : List Instruction) (o : Operation) (i s : Nat) (type : ValueType),
        m.body = before ++ .real o :: after → (t.paramSlots m.access.isStatic)[i]? = some s →
        t.params[i]? = some type → (s : Int) ≤ o.slot → o.slot < s + type.slots →
        ∀ s' j, j ≠ i → ((s', j) ∈ unread m t ↔ (s', j) ∈ unread { m with body := before ++ after } t) := by
  refine ⟨fun t static => laidOut_slotsFrom _ _, ValueType.slots_eq, fun around => ?_, ?_⟩
  · rw [check, CheckInfo.findings_localCheck, List.map_flatMap]
  · intro m t habstract hnative hname htype
    refine ⟨methodRemarks_eq habstract hnative hname htype, unread_increase m t, fun _ _ => mem_unread, ?_⟩
    intro before after o i s type hbody hslot hparam hlower hupper s' j hj
    have hsame : { m with body := before ++ .real o :: after } = m := by rw [← hbody]
    rw [← unread_beside hslot hparam hlower hupper hj, hsame]

/-- Wide parameters, an array of wide values between them, and a frame that only looks like a read of the array. -/
def mixMethod : Method :=
  { name := "mix", desc := "(J[JLjava/lang/String;DI)V", access := ⟨9⟩
    body := [.line 7, .real { op := ⟨0x16⟩ }, .frame { op := .aload, slot := 2 }, .real { op := .aload, slot := 3 },
      .real { op := .iinc, slot := 6 }, .real { op := .vreturn }] }

def mixType : MethodType :=
  { params := [.primitive .long, .array (.primitive .long), .object "java/lang/String", .primitive .double, .primitive .int]
    result := .void }

def mixClass : Class := { name := "app/Mix", access := ⟨33⟩, super := Name.object, methods := [mixMethod] }

theorem unread_parameters_reported_mix :
    mixMethod.type = .ok mixType ∧ mixType.paramSlots true = [0, 2, 3, 4, 6] ∧
    (2, 1) ∈ unread mixMethod mixType ∧
    methodRemarks mixClass mixMethod = [⟨"app.Mix.mix:7", "Unused parameter 'param1' in method 'mix'"⟩,
      ⟨"app.Mix.mix:7", "Unused parameter 'param3' in method 'mix'"⟩] := by
  obtain ⟨_, _, _, hjudged⟩ := unread_parameters_reported mixClass
  have htype : mixMethod.type = .ok mixType := rfl
  obtain ⟨hremarks, _, hmem, _⟩ := hjudged mixMethod mixType (by decide) (by decide) (by decide) htype
  exact ⟨htype, rfl, (hmem 2 1).2 ⟨rfl, unread_iff.1 (by decide)⟩, hremarks.trans rfl⟩

end UnusedParameter

end JvmLint
