import JvmLint.Proofs.BuiltInChecks

/-!
# Field writes and declared types

A method is reported once for what it returns, and once for each field that it writes with a
type other than the declared one. Fields may share a name if their descriptors differ; a write
is nevertheless held against the first field of its name. So every ill-typed write is noticed,
and the well-typed ones are safe exactly in classes where a name has one descriptor.
-/

namespace JvmLint.DataType

inductive Subject where
  | result
  | field (name : String)
deriving DecidableEq, Repr

def Subject.message (m : Method) : Subject → String
  | result => "Incompatible return type in method '" ++ m.name ++ "'"
  | field name => "Incompatible type assigned to field '" ++ name ++ "'"

def objection? (c : Class) (declared : ReturnType) : Instruction → Option Subject
  | .real o =>
    match o.op.returnSort? with
    | some sort => if sort.fits declared then none else some .result
    | none => if isBadWrite c o then some (.field o.name) else none
  | _ => none

def IsFirst (c : Class) (declared : ReturnType) (body : List Instruction) (i : Nat) (k : Subject) : Prop :=
  (∃ x, body[i]? = some x ∧ objection? c declared x = some k) ∧
    ∀ y ∈ body.take i, objection? c declared y ≠ some k

/-- The report that an instruction opens, unless one on its subject was opened before. -/
def opens? (c : Class) (declared : ReturnType) (body : List Instruction) (p : Instruction × Nat) :
    Option (Nat × Subject) :=
  match objection? c declared p.1 with
  | some k => if (body.take p.2).any (objection? c declared · == some k) then none else some (p.2, k)
  | none => none

def reports (c : Class) (m : Method) : List (Nat × Subject) :=
  if m.hasBody then
    match m.type with
    | .ok t => m.body.zipIdx.filterMap (opens? c t.result m.body)
    | .error _ => []
  else []

def remark (c : Class) (m : Method) (r : Nat × Subject) : Remark :=
  { location := methodLocation c m (m.lineAt r.1), message := r.2.message m }

variable {c : Class} {m : Method} {declared : ReturnType}

/-! ## One step of the scan -/

def noted (returned : Bool) (fields : List String) : Subject → Bool
  | .result => returned
  | .field name => fields.contains name

variable {line : Int} {returned : Bool} {fields : List String} {x : Instruction} {xs : List Instruction} {k : Subject}

theorem scan_pass (h : ∀ k, objection? c declared x = some k → noted returned fields k = true) :
    scan c m declared line returned fields (x :: xs) =
      scan c m declared (Method.lineAfter line [x]) returned fields xs := by
  cases x with
  | label l => rfl
  | line n => rfl
  | frame residue => rfl
  | real o =>
    simp only [objection?] at h
    simp only [scan, Method.lineAfter, List.foldl_cons, List.foldl_nil]
    cases hsort : o.op.returnSort? with
    | some sort =>
      by_cases hfits : sort.fits declared = true
      · simp [hfits]
      · have hreturned : returned = true := h .result (by simp [hsort, hfits])
        simp [hreturned]
    | none =>
      by_cases hbad : isBadWrite c o = true
      · have hnoted : fields.contains o.name = true := h (.field o.name) (by simp [hsort, hbad])
        simp only [hnoted, Bool.not_true, Bool.and_false]
        rfl
      · simp [hbad]

theorem scan_report (m : Method) (line : Int) (xs : List Instruction) (h : objection? c declared x = some k)
    (hnew : noted returned fields k = false) :
    ∃ returned' fields', (∀ k', noted returned' fields' k' = (noted returned fields k' || decide (k' = k))) ∧
      scan c m declared line returned fields (x :: xs) =
        { location := methodLocation c m line, message := k.message m } ::
          scan c m declared line returned' fields' xs := by
  cases x with
  | label l => cases h
  | line n => cases h
  | frame residue => cases h
  | real o =>
    simp only [objection?] at h
    simp only [scan]
    cases hsort : o.op.returnSort? with
    | some sort =>
      by_cases hfits : sort.fits declared = true
      · simp [hsort, hfits] at h
      · obtain rfl : Subject.result = k := by simpa [hsort, hfits] using h
        refine ⟨true, fields, ?_, ?_⟩
        · intro k'
          cases k' with
          | result => simp [noted]
          | field name => simp [noted]
        · have hopen : ¬ (returned || sort.fits declared) = true := by simpa [noted, hfits] using hnew
          simp only [hopen]
          rfl
    | none =>
      by_cases hbad : isBadWrite c o = true
      · obtain rfl : Subject.field o.name = k := by simpa [hsort, hbad] using h
        refine ⟨returned, o.name :: fields, ?_, ?_⟩
        · intro k'
          cases k' with
          | result => simp [noted]
          | field name => simp [noted, Bool.or_comm]
        · have hopen : (isBadWrite c o && !fields.contains o.name) = true := by simpa [noted, hbad] using hnew
          simp only [hopen, if_true]
          rfl
      · simp [hsort, hbad] at h

/-! ## The whole scan -/

theorem lineAfter_append (line : Int) (before after : List Instruction) :
    Method.lineAfter line (before ++ after) = Method.lineAfter (Method.lineAfter line before) after :=
  List.foldl_append

theorem lineAfter_objection (h : objection? c declared x = some k) (line : Int) : Method.lineAfter line [x] = line := by
  cases x with
  | real o => rfl
  | label l => rfl
  | line n => cases h
  | frame residue => rfl

/-- The state of the scan holds the subjects that the instructions before gave reason to report. -/
theorem scan_eq (before : List Instruction) (hbody : m.body = before ++ xs)
    (hseen : ∀ k, noted returned fields k = before.any (objection? c declared · == some k)) :
    scan c m declared (Method.lineAfter 0 before) returned fields xs =
      ((xs.zipIdx before.length).filterMap (opens? c declared m.body)).map (remark c m) := by
  induction xs generalizing before returned fields with
  | nil => rfl
  | cons x xs ih =>
    have hnext : m.body = before ++ [x] ++ xs := by simp [hbody]
    have htake : m.body.take before.length = before := by simp [hbody]
    have hlength : (before ++ [x]).length = before.length + 1 := by simp
    rw [List.zipIdx_cons]
    cases hx : objection? c declared x with
    | none =>
      have hopens : opens? c declared m.body (x, before.length) = none := by simp [opens?, hx]
      rw [scan_pass (by simp [hx]), List.filterMap_cons_none hopens, ← lineAfter_append, ← hlength]
      apply ih _ hnext
      intro k
      simp [hseen, hx]
    | some k =>
      by_cases hold : noted returned fields k = true
      · have hopens : opens? c declared m.body (x, before.length) = none := by
          rw [hseen] at hold
          simp only [opens?, hx, htake, hold, if_true]
        rw [scan_pass (by simpa [hx] using hold), List.filterMap_cons_none hopens, ← lineAfter_append, ← hlength]
        apply ih _ hnext
        intro k'
        by_cases hk : k = k'
        · rw [hseen] at hold
          simp [hseen, hx, ← hk, hold]
        · simp [hseen, hx, hk]
      · have hnew : noted returned fields k = false := by simpa using hold
        have hopens : opens? c declared m.body (x, before.length) = some (before.length, k) := by
          rw [hseen] at hnew
          simp only [opens?, hx, htake, hnew]
          rfl
        have hline : m.lineAt before.length = Method.lineAfter 0 before := by
          have hupto : m.body.take (before.length + 1) = before ++ [x] := by
            rw [hnext, ← hlength, List.take_left]
          have hindex : ((before.length : Int) + 1).toNat = before.length + 1 := by omega
          rw [Method.lineAt, hindex, hupto, lineAfter_append, lineAfter_objection hx]
        obtain ⟨returned', fields', hnoted, hscan⟩ := scan_report m (Method.lineAfter 0 before) xs hx hnew
        have hseen' : ∀ k', noted returned' fields' k' = (before ++ [x]).any (objection? c declared · == some k') := by
          intro k'
          rw [hnoted, hseen]
          by_cases hk : k = k'
          · simp [hx, hk]
          · simp [hx, hk, Ne.symm hk]
        have hrest := ih _ hnext hseen'
        rw [lineAfter_append, lineAfter_objection hx] at hrest
        rw [hscan, hrest, List.filterMap_cons_some hopens, List.map_cons, remark, hline, hlength]

theorem methodRemarks_eq (c : Class) (m : Method) : methodRemarks c m = (reports c m).map (remark c m) := by
  unfold methodRemarks reports
  by_cases hbody : m.hasBody = true
  · simp only [hbody, Bool.not_true, if_true]
    cases m.type with
    | error e => rfl
    | ok t => exact scan_eq [] rfl (by intro k; cases k <;> rfl)
  · simp [hbody]

/-! ## First objections -/

theorem opens?_eq_some {body : List Instruction} {p : Instruction × Nat} {r : Nat × Subject} :
    opens? c declared body p = some r ↔
      p.2 = r.1 ∧ objection? c declared p.1 = some r.2 ∧ ∀ y ∈ body.take p.2, objection? c declared y ≠ some r.2 := by
  obtain ⟨i, k⟩ := r
  unfold opens?
  cases hp : objection? c declared p.1 with
  | none => simp
  | some k' =>
    by_cases hany : (body.take p.2).any (objection? c declared · == some k') = true
    · obtain ⟨y, hy, hk⟩ := List.any_eq_true.1 hany
      simp only [hany, if_true, reduceCtorEq, false_iff]
      rintro ⟨-, hkk, hnone⟩
      exact hnone y hy (by simpa [← hkk] using hk)
    · have hnone : ∀ y ∈ body.take p.2, objection? c declared y ≠ some k' := by simpa using hany
      simp only [hany]
      constructor
      · intro h
        cases h
        exact ⟨rfl, rfl, hnone⟩
      · rintro ⟨rfl, hk, -⟩
        cases hk
        rfl

theorem mem_reports {i : Nat} :
    (i, k) ∈ reports c m ↔ m.hasBody = true ∧ ∃ t, m.type = .ok t ∧ IsFirst c t.result m.body i k := by
  unfold reports
  by_cases hbody : m.hasBody = true
  · cases htype : m.type with
    | error e => simp [hbody]
    | ok t =>
      simp only [hbody, if_true, true_and, List.mem_filterMap, List.mem_zipIdx_iff_getElem?, opens?_eq_some, IsFirst]
      constructor
      · rintro ⟨⟨x, _⟩, hx, rfl, hk, hbefore⟩
        exact ⟨t, rfl, ⟨x, hx, hk⟩, hbefore⟩
      · rintro ⟨_, ht, ⟨x, hx, hk⟩, hbefore⟩
        cases ht
        exact ⟨(x, i), hx, rfl, hk, hbefore⟩
  · simp [hbody]

theorem reports_increase (c : Class) (m : Method) : (reports c m).Pairwise fun r s => r.1 < s.1 := by
  unfold reports
  split
  · split
    · refine (zipIdx_increase m.body).filterMap _ ?_
      intro p q hpq r hr s hs
      rw [← (opens?_eq_some.1 hr).1, ← (opens?_eq_some.1 hs).1]
      exact hpq
    · exact .nil
  · exact .nil

theorem exists_isFirst {body : List Instruction} (h : ∃ x ∈ body, objection? c declared x = some k) :
    ∃ i, IsFirst c declared body i k := by
  induction body with
  | nil => simp at h
  | cons x body ih =>
    by_cases hx : objection? c declared x = some k
    · exact ⟨0, ⟨x, rfl, hx⟩, by simp⟩
    · obtain ⟨y, hy, hk⟩ := h
      have hbody : y ∈ body := (List.mem_cons.1 hy).resolve_left fun hyx => hx (hyx ▸ hk)
      obtain ⟨i, hi, hbefore⟩ := ih ⟨y, hbody, hk⟩
      refine ⟨i + 1, by simpa using hi, ?_⟩
      intro z hz
      rcases List.mem_cons.1 hz with rfl | hz
      · exact hx
      · exact hbefore z hz

theorem IsFirst.objection {body : List Instruction} {i : Nat} (h : IsFirst c declared body i k) :
    ∃ x ∈ body, objection? c declared x = some k := by
  obtain ⟨⟨x, hx, hk⟩, -⟩ := h
  exact ⟨x, List.mem_of_getElem? hx, hk⟩

/-! ## Reports of a method -/

theorem result_ne_field (m : Method) (name : String) : Subject.message m .result ≠ Subject.message m (.field name) := by
  unfold Subject.message
  intro h
  have h := congrArg String.toList h
  simp only [String.toList_append, List.append_assoc] at h
  -- the texts part ways at the fourteenth character
  have htake := take_eq_of_append_eq (n := 14) h (by decide) (by decide)
  exact absurd htake (by decide)

theorem message_injective (m : Method) : Function.Injective (Subject.message m) := by
  intro k k' h
  cases k with
  | result =>
    cases k' with
    | result => rfl
    | field name' => exact absurd h (result_ne_field m name')
  | field name =>
    cases k' with
    | result => exact absurd h.symm (result_ne_field m name)
    | field name' =>
      unfold Subject.message at h
      have h := congrArg String.toList h
      simp only [String.toList_append] at h
      rw [String.toList_inj.1 (List.append_cancel_left (List.append_cancel_right h))]

/-- No two findings of a method have the same text. -/
theorem nodup_messages (c : Class) (m : Method) : ((reports c m).map fun r => r.2.message m).Nodup := by
  rw [List.Nodup, List.pairwise_map]
  refine (reports_increase c m).imp_of_mem ?_
  intro r s hr hs hlt hmessage
  obtain ⟨i, k⟩ := r
  obtain ⟨j, k'⟩ := s
  obtain rfl : k = k' := message_injective m hmessage
  obtain ⟨-, t, ht, ⟨⟨x, hx, hk⟩, -⟩⟩ := mem_reports.1 hr
  obtain ⟨-, t', ht', ⟨-, hbefore⟩⟩ := mem_reports.1 hs
  rw [ht] at ht'
  cases ht'
  have hmem : x ∈ m.body.take j := List.mem_of_getElem? (i := i) (by rw [List.getElem?_take_of_lt hlt, hx])
  exact hbefore x hmem hk

/-! ## Writes -/

theorem returnSort?_write {o : Operation} (h : o.op.isFieldWrite = true) : o.op.returnSort? = none := by
  have hop : o.op = .putfield ∨ o.op = .putstatic := by simpa [Opcode.isFieldWrite] using h
  rcases hop with hop | hop <;> rw [hop] <;> rfl

theorem isBadWrite_iff {o : Operation} : isBadWrite c o = true ↔
    o.op.isFieldWrite = true ∧ o.owner = c.name ∧ ∃ f, c.field? o.name = some f ∧ f.desc ≠ o.desc := by
  unfold isBadWrite
  cases c.field? o.name with
  | none => simp
  | some f => simp [and_assoc]

theorem objection?_eq_field {name : String} : objection? c declared x = some (.field name) ↔
    ∃ o, x = .real o ∧ o.name = name ∧ isBadWrite c o = true := by
  cases x with
  | label l => simp [objection?]
  | line n => simp [objection?]
  | frame residue => simp [objection?]
  | real o =>
    by_cases hbad : isBadWrite c o = true
    · have hsort := returnSort?_write (isBadWrite_iff.1 hbad).1
      simp [objection?, hsort, hbad]
    · cases hsort : o.op.returnSort? with
      | none => simp [objection?, hsort, hbad]
      | some sort =>
        by_cases hfits : sort.fits declared = true <;> simp [objection?, hsort, hfits, hbad]

theorem mem_reports_field {name : String} : (∃ i, (i, .field name) ∈ reports c m) ↔
    m.hasBody = true ∧ (∃ t, m.type = .ok t) ∧ ∃ o, .real o ∈ m.body ∧ o.name = name ∧ isBadWrite c o = true := by
  constructor
  · rintro ⟨i, hi⟩
    obtain ⟨hbody, t, ht, hfirst⟩ := mem_reports.1 hi
    obtain ⟨x, hx, hk⟩ := hfirst.objection
    obtain ⟨o, rfl, hname, hbad⟩ := objection?_eq_field.1 hk
    exact ⟨hbody, ⟨t, ht⟩, o, hx, hname, hbad⟩
  · rintro ⟨hbody, ⟨t, ht⟩, o, ho, hname, hbad⟩
    have hobjection : objection? c t.result (.real o) = some (.field name) :=
      objection?_eq_field.2 ⟨o, rfl, hname, hbad⟩
    obtain ⟨i, hi⟩ := exists_isFirst ⟨_, ho, hobjection⟩
    exact ⟨i, mem_reports.2 ⟨hbody, t, ht, hi⟩⟩

/-! ## Fields that share a name -/

def WellTyped (c : Class) (o : Operation) : Prop :=
  o.op.isFieldWrite = true ∧ o.owner = c.name ∧ ∃ f ∈ c.fields, f.name = o.name ∧ f.desc = o.desc

def Unambiguous (c : Class) : Prop := ∀ f ∈ c.fields, ∀ g ∈ c.fields, f.name = g.name → f.desc = g.desc

theorem field?_some {name : String} {f : Field} (h : c.field? name = some f) : f ∈ c.fields ∧ f.name = name :=
  ⟨List.mem_of_find?_eq_some h, by simpa using List.find?_some h⟩

theorem exists_field? {f : Field} (h : f ∈ c.fields) : ∃ g, c.field? f.name = some g := by
  cases hfind : c.field? f.name with
  | some g => exact ⟨g, rfl⟩
  | none => exact absurd (List.find?_eq_none.1 hfind f h) (by simp)

theorem objection_of_reported {i : Nat} {o : Operation} (ho : m.body[i]? = some (.real o)) (h : (i, k) ∈ reports c m) :
    ∃ declared, objection? c declared (.real o) = some k := by
  obtain ⟨-, t, -, ⟨x, hx, hk⟩, -⟩ := mem_reports.1 h
  rw [ho] at hx
  cases hx
  exact ⟨t.result, hk⟩

theorem isBadWrite_of_objection {o : Operation} (hwrite : o.op.isFieldWrite = true)
    (h : objection? c declared (.real o) = some k) : isBadWrite c o = true := by
  by_cases hbad : isBadWrite c o = true
  · exact hbad
  · simp [objection?, returnSort?_write hwrite, hbad] at h

theorem not_reported_of_unambiguous (hc : Unambiguous c) {i : Nat} {o : Operation} (ho : m.body[i]? = some (.real o))
    (htyped : WellTyped c o) : (i, k) ∉ reports c m := by
  intro h
  obtain ⟨hwrite, -, f, hf, hfname, hfdesc⟩ := htyped
  obtain ⟨declared, hk⟩ := objection_of_reported ho h
  obtain ⟨-, -, g, hg, hgdesc⟩ := isBadWrite_iff.1 (isBadWrite_of_objection hwrite hk)
  obtain ⟨hgmem, hgname⟩ := field?_some hg
  exact hgdesc (hfdesc ▸ hc g hgmem f hf (hgname.trans hfname.symm))

def writer (c : Class) (f : Field) : Method :=
  { name := "set", desc := "()V", access := ⟨0⟩
    body := [.real { op := .putfield, owner := c.name, name := f.name, desc := f.desc }] }

theorem reports_writer {f g : Field} (hg : c.field? f.name = some g) (hdesc : g.desc ≠ f.desc) :
    (0, .field f.name) ∈ reports c (writer c f) := by
  have htype : (writer c f).type = .ok ⟨[], .void⟩ := by
    simp only [Method.type, writer]
    rfl
  have hbody : (writer c f).hasBody = true := by
    simp [Method.hasBody, writer, Access.isAbstract, Access.isNative, Access.has]
  refine mem_reports.2 ⟨hbody, _, htype, ⟨_, rfl, ?_⟩, by simp⟩
  exact objection?_eq_field.2 ⟨_, rfl, rfl, isBadWrite_iff.2 ⟨rfl, rfl, g, hg, hdesc⟩⟩

theorem unambiguous_of_not_reported
    (h : ∀ m i k o, m.body[i]? = some (.real o) → WellTyped c o → (i, k) ∉ reports c m) : Unambiguous c := by
  have hfirst : ∀ f ∈ c.fields, ∀ g, c.field? f.name = some g → g.desc = f.desc := by
    intro f hf g hg
    by_cases hdesc : g.desc = f.desc
    · exact hdesc
    · exact absurd (reports_writer hg hdesc) (h (writer c f) 0 _ _ rfl ⟨rfl, rfl, f, hf, rfl, rfl⟩)
  intro f hf g hg hname
  obtain ⟨first, hfind⟩ := exists_field? hf
  rw [← hfirst f hf first hfind, hfirst g hg first (hname ▸ hfind)]

/-- The findings are the reports of the methods, each at the first instruction with an objection to its subject. Their
texts differ within a method, so it has one for its result at most, and one for each field name. There is one for a
name exactly if a write is at odds with the first field of the name, so an ill-typed write is never hidden;
and no body makes the check object to a well-typed write exactly if fields of one name have one descriptor. -/
theorem reports_by_first_declaration (c : Class) :
    (∀ around, check.findings c around =
      .done (c.methods.flatMap fun m => (reports c m).map fun r => info.finding (remark c m r))) ∧
    (∀ m i k, (i, k) ∈ reports c m ↔ m.hasBody = true ∧ ∃ t, m.type = .ok t ∧ IsFirst c t.result m.body i k) ∧
    (∀ m, (reports c m).Pairwise (fun r s => r.1 < s.1) ∧ ((reports c m).map fun r => (remark c m r).message).Nodup) ∧
    (∀ m name, (∃ i, (i, .field name) ∈ reports c m) ↔ m.hasBody = true ∧ (∃ t, m.type = .ok t) ∧
      ∃ o, .real o ∈ m.body ∧ o.name = name ∧ o.op.isFieldWrite = true ∧ o.owner = c.name ∧
        ∃ f, c.field? o.name = some f ∧ f.desc ≠ o.desc) ∧
    ((∀ m i k o, m.body[i]? = some (.real o) → WellTyped c o → (i, k) ∉ reports c m) ↔ Unambiguous c) := by
  refine ⟨fun around => ?_, fun m i k => mem_reports, fun m => ⟨reports_increase c m, nodup_messages c m⟩, ?_, ?_, ?_⟩
  · rw [check, CheckInfo.findings_localCheck, List.map_flatMap]
    simp only [methodRemarks_eq, List.map_map]
    rfl
  · intro m name
    simp only [mem_reports_field, isBadWrite_iff]
  · exact unambiguous_of_not_reported
  · intro hc m i k o ho htyped
    exact not_reported_of_unambiguous hc ho htyped

/-- Two fields of one name, as obfuscated code has them, and a method that sets the second one. -/
def overloadedBox : Class :=
  { name := "app/Box", access := ⟨33⟩, super := Name.object
    fields := [⟨"a", "I", ⟨2⟩⟩, ⟨"a", "J", ⟨2⟩⟩]
    methods := [{
      name := "set", desc := "(J)V", access := ⟨1⟩
      body := [.real { op := .aload }, .real { op := ⟨0x16⟩, slot := 1 },
        .real { op := .putfield, owner := "app/Box", name := "a", desc := "J" }, .real { op := .vreturn }] }] }

theorem overloadedBox_reported :
    (∀ m ∈ overloadedBox.methods, ∀ o, .real o ∈ m.body → o.op.isFieldWrite = true → WellTyped overloadedBox o) ∧
    check.findings overloadedBox {} =
      .done [⟨"DataTypeCompatibility", .style, "app.Box.set", "Incompatible type assigned to field 'a'"⟩] := by
  refine ⟨?_, rfl⟩
  intro m hm o ho hwrite
  obtain rfl := List.mem_singleton.1 hm
  simp only [List.mem_cons, List.not_mem_nil, or_false, Instruction.real.injEq] at ho
  rcases ho with rfl | rfl | rfl | rfl
  · cases hwrite
  · cases hwrite
  · exact ⟨rfl, rfl, ⟨"a", "J", ⟨2⟩⟩, by decide, rfl, rfl⟩
  · cases hwrite

end JvmLint.DataType
