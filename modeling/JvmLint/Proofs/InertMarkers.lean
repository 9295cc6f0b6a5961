import JvmLint.ClassFile.Code
import JvmLint.Pattern.GlobTree
import JvmLint.Proofs.BuiltInChecks
import JvmLint.Proofs.Lookups
import JvmLint.Proofs.Padding

/-!
# Markers that tell a check nothing

A frame, or a label that no jump and no handler refers to, can be put anywhere
into a body. Every check reads bodies in its own way, by the real instructions,
by line markers, or by the place of a label; none of these ways can see such a
marker, so no check changes its findings.
-/

namespace JvmLint

namespace Method

def referenced (m : Method) : List Label :=
  m.operations.flatMap ClassFile.jumps ++ m.handlers.flatMap fun t => [t.start, t.stop, t.handler]

/-- A frame, whatever it carries along, or a label that nothing refers to. -/
inductive Inert (m : Method) : Instruction → Prop
  | frame (residue : Operation) : m.Inert (.frame residue)
  | label {l : Label} : l ∉ m.referenced → m.Inert (.label l)

inductive Marked (m : Method) : Method → Prop
  | intro {body : List Instruction} : Padded Eq m.Inert m.body body → m.Marked { m with body }

end Method

inductive Class.Marked (c : Class) : Class → Prop
  | intro {methods : List Method} : List.Forall₂ Method.Marked c.methods methods → c.Marked { c with methods }

/-! ## What a body says without them -/

namespace Method
variable {m m' : Method}

theorem Marked.name (h : m.Marked m') : m'.name = m.name := by
  cases h with
  | intro hbody => rfl

theorem Marked.operations (h : m.Marked m') : m'.operations = m.operations := by
  cases h with
  | intro hbody => exact hbody.filterMap_eq fun y hy => by cases hy <;> rfl

theorem Marked.opcodes (h : m.Marked m') : m'.opcodes = m.opcodes := by
  rw [Method.opcodes, Method.opcodes, h.operations]

theorem Marked.branchUnits (h : m.Marked m') : m'.branchUnits = m.branchUnits := by
  rw [Method.branchUnits, Method.branchUnits, h.operations]

theorem Marked.firstLine (h : m.Marked m') : m'.firstLine = m.firstLine := by
  cases h with
  | intro hbody =>
    unfold Method.firstLine
    rw [hbody.findSome?_eq fun y hy => by cases hy <;> rfl]

/-- A body of markers alone is as good as none for whoever has nothing to say about an empty one. -/
theorem unless_hasBody {α : Type} {found : List α} (h : m.body = [] → found = []) :
    (if !m.hasBody then [] else found) = if m.access.isAbstract || m.access.isNative then [] else found := by
  cases hbody : m.body with
  | nil => simp [h hbody]
  | cons x xs => simp [hasBody, hbody, Bool.or_eq_true]

theorem lineAfter_padded {xs ys : List Instruction} (h : Padded Eq m.Inert xs ys) (line : Int) :
    lineAfter line ys = lineAfter line xs := by
  induction h generalizing line with
  | nil => rfl
  | keep hxy _ ih => subst hxy; exact ih _
  | insert hy _ ih => cases hy <;> exact ih line

/-! ## The place of a label -/

theorem findIdx?_label_eq_none {l : Label} {is : List Instruction} (h : .label l ∉ is) :
    is.findIdx? (· == .label l) = none := by
  rw [List.findIdx?_eq_none_iff]
  intro i hi
  have hne : i ≠ .label l := fun heq => h (heq ▸ hi)
  simpa using hne

theorem labelIndex?_of_split {l : Label} {pre post : List Instruction} (h : m.body = pre ++ .label l :: post)
    (hpre : .label l ∉ pre) : m.labelIndex? l = some pre.length := by
  simp [labelIndex?, h, List.findIdx?_append, findIdx?_label_eq_none hpre, List.findIdx?_cons]

/-- Around these places the two bodies differ by inert markers of the first method only. -/
structure Aligned (m m' : Method) (i i' : Nat) : Prop where
  upTo : Padded Eq m.Inert (m.body.take (i + 1)) (m'.body.take (i' + 1))
  since : Padded Eq m.Inert (m.body.drop i) (m'.body.drop i')
  after : Padded Eq m.Inert (m.body.drop (i + 1)) (m'.body.drop (i' + 1))

/-- Both methods lack the label, or have it at places that are aligned. -/
theorem Marked.label (h : m.Marked m') {l : Label} (hl : l ∈ m.referenced) :
    (m.labelIndex? l = none ∧ m'.labelIndex? l = none) ∨
    ∃ i i', m.labelIndex? l = some i ∧ m'.labelIndex? l = some i' ∧ Aligned m m' i i' := by
  cases h with
  | @intro body hbody =>
    have hlabel : ¬ m.Inert (.label l) := by
      intro hinert
      cases hinert with
      | label hfree => exact hfree hl
    rcases hbody.split hlabel with ⟨hnot, hnot'⟩ | ⟨pre, post, pre', post', hm, hpre, hm', hpre', hp, hq⟩
    · exact .inl ⟨findIdx?_label_eq_none hnot, findIdx?_label_eq_none hnot'⟩
    · refine .inr ⟨pre.length, pre'.length, labelIndex?_of_split hm hpre,
        labelIndex?_of_split (m := { m with body }) hm' hpre', ?_, ?_, ?_⟩
      · simpa [hm, hm', List.take_append, List.take_of_length_le] using hp.append (.keep rfl .nil)
      · simpa [hm, hm'] using hq.keep rfl
      · simpa [hm, hm', List.drop_append, List.drop_eq_nil_of_le] using hq

theorem mem_referenced_of_handler {t : TryCatch} (ht : t ∈ m.handlers) :
    t.stop ∈ m.referenced ∧ t.handler ∈ m.referenced := by
  simp only [referenced, List.mem_append, List.mem_flatMap]
  exact ⟨.inr ⟨t, ht, by simp⟩, .inr ⟨t, ht, by simp⟩⟩

theorem mem_referenced_of_goto {o : Operation} (ho : o ∈ m.operations) (hop : o.op = .goto) :
    o.target ∈ m.referenced := by
  have hjump : o.target ∈ ClassFile.jumps o := by
    have hrole : o.role = .jump := by rw [Operation.role, hop]; rfl
    have hret : o.op ≠ .ret := by rw [hop]; decide
    simp [ClassFile.jumps, hrole, hret]
  simp only [referenced, List.mem_append, List.mem_flatMap]
  exact .inl ⟨o, ho, hjump⟩

end Method

/-! ## Swallowed exceptions -/

/-- Collecting elements that are not held back by those before them adds none. -/
theorem mem_of_mem_foldl_keep {α : Type} {hold : List α → α → Bool} {a : α} {l out : List α}
    (h : a ∈ l.foldl (fun out b => if hold out b then out else b :: out) out) : a ∈ out ∨ a ∈ l := by
  induction l generalizing out with
  | nil => exact .inl h
  | cons b l ih =>
    rw [List.foldl_cons] at h
    rcases ih h with hout | hl
    · split at hout
      · exact .inl hout
      · rcases List.mem_cons.mp hout with rfl | hout
        · exact .inr (List.mem_cons_self ..)
        · exact .inl hout
    · exact .inr (List.mem_cons_of_mem _ hl)

namespace SwallowedException
variable {m m' : Method} {t : TryCatch}

theorem tryExit?_marked (h : m.Marked m') (ht : t ∈ m.handlers) : tryExit? m' t = tryExit? m t := by
  rcases h.label (Method.mem_referenced_of_handler ht).1 with ⟨hi, hi'⟩ | ⟨i, i', hi, hi', hplace⟩
  · simp only [tryExit?, hi, hi']
  · have hreal : (m'.body.drop i').findSome? (·.real?) = (m.body.drop i).findSome? (·.real?) :=
      hplace.since.findSome?_eq fun y hy => by cases hy <;> rfl
    simp only [tryExit?, hi, hi', hreal]

/-- The exit is where a jump goes, so no inert label stands for it. -/
theorem tryExit?_referenced {l : Label} (h : tryExit? m t = some l) : l ∈ m.referenced := by
  unfold tryExit? at h
  cases hi : m.labelIndex? t.stop with
  | none => simp [hi] at h
  | some i =>
    cases ho : (m.body.drop i).findSome? (·.real?) with
    | none => simp [hi, ho] at h
    | some o =>
      obtain ⟨ins, hins, hreal⟩ := List.exists_of_findSome?_eq_some ho
      have hmem : o ∈ m.operations := List.mem_filterMap.mpr ⟨ins, List.mem_of_mem_drop hins, hreal⟩
      by_cases hop : o.op = .goto
      · simp only [hi, ho, hop, if_true, Option.some.injEq] at h
        exact h ▸ Method.mem_referenced_of_goto hmem hop
      · simp [hi, ho, hop] at h

section
variable {exit : Option Label} {xs ys : List Instruction}

theorem exit_beq_inert (hexit : ∀ l, exit = some l → l ∈ m.referenced) {l : Label} (hfree : l ∉ m.referenced) :
    (exit == some l) = false := by
  have hne : exit ≠ some l := fun heq => hfree (hexit l heq)
  simpa using hne

theorem isIdle_padded (hexit : ∀ l, exit = some l → l ∈ m.referenced) (h : Padded Eq m.Inert xs ys)
    (caught : Int) (pushed : Bool) : isIdle exit caught pushed ys = isIdle exit caught pushed xs := by
  induction h generalizing pushed with
  | nil => rfl
  | @keep x y xs ys hxy _ ih =>
    subst hxy
    cases x <;> simp only [isIdle, ih]
  | @insert y xs ys hy _ ih =>
    cases hy with
    | frame residue => exact ih pushed
    | @label l hfree =>
      rw [isIdle, exit_beq_inert hexit hfree, Bool.false_or, ih]

theorem isEmpty_padded (hexit : ∀ l, exit = some l → l ∈ m.referenced) (h : Padded Eq m.Inert xs ys) :
    isEmpty exit ys = isEmpty exit xs := by
  induction h with
  | nil => rfl
  | @keep x y xs ys hxy htail ih =>
    subst hxy
    cases x with
    | real o => simp only [isEmpty, isIdle_padded hexit htail, isIdle_padded hexit (htail.keep rfl)]
    | label l => simp only [isEmpty, ih]
    | line n => exact ih
    | frame residue => exact ih
  | @insert y xs ys hy _ ih =>
    cases hy with
    | frame residue => exact ih
    | @label l hfree =>
      rw [isEmpty, exit_beq_inert hexit hfree, Bool.false_or, ih]

end

theorem swallows_marked (h : m.Marked m') (ht : t ∈ m.handlers) : swallows m' t = swallows m t := by
  rcases h.label (Method.mem_referenced_of_handler ht).2 with ⟨hi, hi'⟩ | ⟨i, i', hi, hi', hplace⟩
  · simp only [swallows, hi, hi']
  · simp only [swallows, hi, hi', tryExit?_marked h ht]
    exact isEmpty_padded (fun l hl => tryExit?_referenced hl) hplace.after

theorem handlerLine_aligned {i i' : Nat} (h : m.Aligned m' i i') : handlerLine m' i' = handlerLine m i := by
  have hmarks := h.since.takeWhile (p := (!·.isReal)) fun y hy => by cases hy <;> rfl
  have hline : m'.lineAt i' = m.lineAt i := Method.lineAfter_padded h.upTo 0
  unfold handlerLine
  rw [hmarks.findSome?_eq fun y hy => by cases hy <;> rfl, hline]

theorem mem_typedEntries {ts : List TryCatch} (h : t ∈ typedEntries ts) : t ∈ ts := by
  rcases mem_of_mem_foldl_keep (List.mem_reverse.mp h) with hnil | hts
  · simp at hnil
  · exact (List.mem_filter.mp hts).1

/-- A reported handler is at a label of the body, so its line is found from there. -/
theorem swallows_line (h : m.Marked m') (ht : t ∈ m.handlers) (hs : swallows m t = true) :
    handlerLine m' ((m'.labelIndex? t.handler).getD 0) = handlerLine m ((m.labelIndex? t.handler).getD 0) := by
  rcases h.label (Method.mem_referenced_of_handler ht).2 with ⟨hi, -⟩ | ⟨i, i', hi, hi', hplace⟩
  · simp [swallows, hi] at hs
  · rw [hi, hi']
    exact handlerLine_aligned hplace

theorem swallows_empty (h : m.body = []) : swallows m t = false := by
  simp [swallows, Method.labelIndex?, h]

theorem methodRemarks_marked (c : Class) (h : m.Marked m') : methodRemarks c m' = methodRemarks c m := by
  have hreported : (typedEntries m.handlers).filter (swallows m') = (typedEntries m.handlers).filter (swallows m) :=
    List.filter_congr fun t ht => swallows_marked h (mem_typedEntries ht)
  have hlines : ∀ t ∈ (typedEntries m.handlers).filter (swallows m),
      handlerLine m' ((m'.labelIndex? t.handler).getD 0) = handlerLine m ((m.labelIndex? t.handler).getD 0) := by
    intro t ht
    obtain ⟨hmem, hs⟩ := List.mem_filter.mp ht
    exact swallows_line h (mem_typedEntries hmem) hs
  have hnone : ∀ m : Method, m.body = [] → (typedEntries m.handlers).filter (swallows m) = [] := by
    intro m hm
    simp [swallows_empty hm]
  unfold methodRemarks
  rw [Method.unless_hasBody fun hm => by rw [hnone m' hm, List.map_nil],
    Method.unless_hasBody fun hm => by rw [hnone m hm, List.map_nil]]
  cases h with
  | intro hbody =>
    rw [hreported, List.map_congr_left fun t ht => by rw [hlines t ht]]
    rfl

end SwallowedException

/-! ## Scans that follow the line -/

section
variable {m : Method} {xs ys : List Instruction} (c : Class) (methods : List Method) (body : List Instruction)

theorem candidates_padded (opts : HollywoodOptions) (h : Padded Eq m.Inert xs ys) (line : Int) :
    Hollywood.candidates opts { c with methods } { m with body } line ys = Hollywood.candidates opts c m line xs := by
  induction h generalizing line with
  | nil => rfl
  | @keep x y xs ys hxy _ ih =>
    subst hxy
    cases x with
    | real o => rw [Hollywood.candidates, Hollywood.candidates, ih]; rfl
    | line n => exact ih n
    | label l => exact ih line
    | frame residue => exact ih line
  | insert hy _ ih => cases hy <;> exact ih line

theorem scan_padded (declared : ReturnType) (h : Padded Eq m.Inert xs ys) (line : Int) (returned : Bool)
    (fields : List String) :
    DataType.scan { c with methods } { m with body } declared line returned fields ys =
      DataType.scan c m declared line returned fields xs := by
  induction h generalizing line returned fields with
  | nil => rfl
  | @keep x y xs ys hxy _ ih =>
    subst hxy
    cases x with
    | real o => simp only [DataType.scan, ih]; rfl
    | line n => exact ih n returned fields
    | label l => exact ih line returned fields
    | frame residue => exact ih line returned fields
  | insert hy _ ih => cases hy <;> exact ih line returned fields

end

/-! ## Lists of methods -/

section
variable {α β γ : Type} {R : α → β → Prop} {xs : List α} {ys : List β}

theorem forall₂_map_eq (h : List.Forall₂ R xs ys) {f : α → γ} {g : β → γ} (hfg : ∀ x y, R x y → g y = f x) :
    ys.map g = xs.map f := by
  induction h with
  | nil => rfl
  | cons hxy _ ih => rw [List.map_cons, List.map_cons, hfg _ _ hxy, ih]

theorem forall₂_flatMap_eq (h : List.Forall₂ R xs ys) {f : α → List γ} {g : β → List γ}
    (hfg : ∀ x y, R x y → g y = f x) : ys.flatMap g = xs.flatMap f := by
  rw [List.flatMap_def, List.flatMap_def, forall₂_map_eq h hfg]

theorem forall₂_filterMap_eq (h : List.Forall₂ R xs ys) {f : α → Option γ} {g : β → Option γ}
    (hfg : ∀ x y, R x y → g y = f x) : ys.filterMap g = xs.filterMap f := by
  rw [List.filterMap_eq_flatMap_toList, List.filterMap_eq_flatMap_toList]
  exact forall₂_flatMap_eq h fun x y hxy => by rw [hfg x y hxy]

theorem forall₂_any_eq (h : List.Forall₂ R xs ys) {p : α → Bool} {q : β → Bool} (hpq : ∀ x y, R x y → q y = p x) :
    ys.any q = xs.any p := by
  have hmap := congrArg (·.any id) (forall₂_map_eq h hpq)
  simpa using hmap

theorem forall₂_pairs (h : List.Forall₂ R xs ys) :
    List.Forall₂ (fun p q => R p.1 q.1 ∧ R p.2 q.2) (pairs xs) (pairs ys) := by
  induction h with
  | nil => exact .nil
  | cons hxy htail ih =>
    refine List.rel_append ?_ ih
    simp only [List.forall₂_map_left_iff, List.forall₂_map_right_iff]
    exact htail.imp fun _ _ hR => ⟨hxy, hR⟩

end

/-- A choice of methods that does not look at their bodies. -/
theorem marked_filter {ms ms' : List Method} (h : List.Forall₂ Method.Marked ms ms') {p : Method → Bool}
    (hp : ∀ m body, p { m with body } = p m) : List.Forall₂ Method.Marked (ms.filter p) (ms'.filter p) := by
  refine List.rel_filter ?_ h
  intro m m' hm
  cases hm with
  | @intro body hbody => exact (congrArg (· = true) (hp m body)).symm.to_iff

theorem Method.Marked.location {m m' : Method} (h : m.Marked m') (c : Class) (methods : List Method) (line : Int) :
    methodLocation { c with methods } m' line = methodLocation c m line := by
  cases h with
  | intro hbody => rfl

/-! ## The checks -/

section
variable {c c' : Class}

theorem duplication_marked (o : DuplicationOptions) (h : c.Marked c') :
    Duplication.remarks o c' = Duplication.remarks o c := by
  cases h with
  | @intro methods hmethods =>
    refine forall₂_filterMap_eq (forall₂_pairs (R := fun a b => a.1.Marked b.1 ∧ b.2 = a.2) ?_) ?_
    · refine List.rel_filter ?_ ?_
      · rintro ⟨a, ops⟩ ⟨b, ops'⟩ ⟨-, hops⟩
        subst hops
        rfl
      · simp only [List.forall₂_map_left_iff, List.forall₂_map_right_iff]
        exact (marked_filter hmethods fun _ _ => rfl).imp fun _ _ hm => ⟨hm, hm.opcodes⟩
    · rintro ⟨⟨a, aOps⟩, ⟨b, bOps⟩⟩ ⟨⟨a', aOps'⟩, ⟨b', bOps'⟩⟩ ⟨⟨ha, haOps⟩, ⟨hb, hbOps⟩⟩
      subst haOps hbOps
      have hname : a'.name = a.name := ha.name
      have hname' : b'.name = b.name := hb.name
      simp only [ha.firstLine, ha.location, hname, hname']

theorem redundantInterface_marked (h : c.Marked c') (around : Surroundings) :
    RedundantInterface.remarks c' around = RedundantInterface.remarks c around := by
  cases h with
  | intro hmethods => rfl

theorem abstractImplementation_marked (h : c.Marked c') (around : Surroundings) :
    AbstractImplementation.remarks c' around = AbstractImplementation.remarks c around := by
  cases h with
  | @intro methods hmethods =>
    have hown : (methods.filter (!·.access.isAbstract)).map (·.signature) =
        (c.methods.filter (!·.access.isAbstract)).map (·.signature) :=
      forall₂_map_eq (marked_filter hmethods fun _ _ => rfl) fun m m' hm => by cases hm; rfl
    have hmissing : ∀ chain, AbstractImplementation.missing { c with methods } chain =
        AbstractImplementation.missing c chain := by
      intro chain
      simp only [AbstractImplementation.missing, hown]
    simp only [AbstractImplementation.remarks, hmissing]
    rfl

theorem delegatesFrom_methods (methods : List Method) (name : String) (pending : Bool) (os : List Operation) :
    Decorator.delegatesFrom { c with methods } name pending os = Decorator.delegatesFrom c name pending os := by
  induction os generalizing pending with
  | nil => rfl
  | cons o os ih =>
    simp only [Decorator.delegatesFrom, ih]
    rfl

theorem decorator_marked (h : c.Marked c') : Decorator.remarks c' = Decorator.remarks c := by
  cases h with
  | @intro methods hmethods =>
    have hconstructors : (Decorator.componentConstructors { c with methods }).filterMap
          (Decorator.constructorRemark? { c with methods }) =
        (Decorator.componentConstructors c).filterMap (Decorator.constructorRemark? c) := by
      refine forall₂_filterMap_eq (marked_filter (marked_filter hmethods fun _ _ => rfl) fun _ _ => rfl) ?_
      intro m m' hm
      simp only [Decorator.constructorRemark?, Decorator.writesField, hm.operations, hm.firstLine, hm.location]
      rfl
    have hreferenced : ∀ name, Decorator.isReferenced { c with methods } name = Decorator.isReferenced c name :=
      fun name => forall₂_any_eq hmethods fun m m' hm => by rw [hm.operations]
    have hdelegates : ∀ name, Decorator.delegatesTo { c with methods } name = Decorator.delegatesTo c name :=
      fun name => forall₂_any_eq hmethods fun m m' hm => by rw [hm.operations, delegatesFrom_methods]
    have hfields : Decorator.fieldRemark? { c with methods } = Decorator.fieldRemark? c := by
      funext f
      simp only [Decorator.fieldRemark?, hreferenced, hdelegates]
      rfl
    simp only [Decorator.remarks, hconstructors, hfields]
    rfl

theorem sane_minBranches_pos (o : StrategyOptions) : 0 < o.sane.minBranches := by
  unfold StrategyOptions.sane
  by_cases h : o.minBranches ≤ 0
  · simp [h, StrategyOptions.builtIn]
  · simp only [h, if_false]
    omega

/-- Where a branch is asked for, a method without a body is skipped for its lack of branches. -/
theorem skipped_unbranched {n : Int} (hn : 0 < n) (m : Method) :
    (!m.hasBody || decide ((m.branchUnits : Int) < n)) =
      (m.access.isAbstract || m.access.isNative || decide ((m.branchUnits : Int) < n)) := by
  cases hbody : m.body with
  | nil =>
    have hunits : m.branchUnits = 0 := by simp [Method.branchUnits, Method.operations, hbody, total]
    simp [hunits, hn]
  | cons x xs => simp [Method.hasBody, hbody]

theorem strategy_marked (o : StrategyOptions) (h : c.Marked c') :
    Strategy.remarks o.sane c' = Strategy.remarks o.sane c := by
  cases h with
  | @intro methods hmethods =>
    refine ite_congr rfl (fun _ => rfl) fun _ => forall₂_filterMap_eq hmethods fun m m' hm => ?_
    simp only [Bool.or_assoc, skipped_unbranched (sane_minBranches_pos o)]
    simp only [hm.branchUnits, hm.firstLine, hm.location]
    cases hm with
    | intro hbody => rfl

theorem callRefs_marked (h : c.Marked c') :
    List.Forall₂ (fun a b => b.1 = a.1 ∧ a.2.1.Marked b.2.1 ∧ b.2.2 = a.2.2) c.callRefs c'.callRefs := by
  cases h with
  | @intro methods hmethods =>
    refine List.rel_flatMap hmethods ?_
    intro m m' hm
    simp only [hm.operations]
    refine List.rel_filterMap (R := Eq) ?_ (List.forall₂_refl _)
    intro o o' ho
    subst ho
    beta_reduce
    split
    · exact .some ⟨rfl, hm, rfl⟩
    · exact .none

theorem links_marked (h : c.Marked c') (layers : Layers) : c'.links layers = c.links layers := by
  have hrefs := callRefs_marked h
  cases h with
  | @intro methods hmethods =>
    refine congrArg dedup (congrArg₂ (· ++ ·) rfl (forall₂_filterMap_eq hrefs ?_))
    rintro ⟨t, m, callee⟩ ⟨t', m', callee'⟩ ⟨ht, hm, hcallee⟩
    subst ht hcallee
    have hname : m'.name = m.name := hm.name
    simp only [hname]

theorem neighbourhood_marked [GlobLibrary] (h : c.Marked c') (k : Classifier) :
    k.classifyAll <$> ThreeLayer.neighbourhood c' = k.classifyAll <$> ThreeLayer.neighbourhood c := by
  have htargets : c'.callRefs.map (·.1) = c.callRefs.map (·.1) :=
    forall₂_map_eq (callRefs_marked h) fun _ _ hab => hab.1
  cases h with
  | @intro methods hmethods =>
    simp only [ThreeLayer.neighbourhood, htargets, map_bind, map_pure]
    rfl

theorem threeLayer_marked [GlobLibrary] (h : c.Marked c') (k : Classifier) (p : LayerPolicy) (around : Surroundings) :
    ThreeLayer.remarks k p c' around = ThreeLayer.remarks k p c around := by
  simp only [ThreeLayer.remarks, neighbourhood_marked h, links_marked h]
  cases h with
  | intro hmethods => rfl

theorem unusedParameter_marked (h : c.Marked c') :
    c'.methods.flatMap (UnusedParameter.methodRemarks c') = c.methods.flatMap (UnusedParameter.methodRemarks c) := by
  cases h with
  | @intro methods hmethods =>
    refine forall₂_flatMap_eq hmethods fun m m' hm => ?_
    have hunread : ∀ t, UnusedParameter.unread m' t = UnusedParameter.unread m t := by
      intro t
      simp only [UnusedParameter.unread, hm.operations]
      cases hm; rfl
    simp only [UnusedParameter.methodRemarks, hunread, hm.firstLine, hm.location]
    cases hm; rfl

theorem unusedField_marked (h : c.Marked c') : UnusedField.remarks c' = UnusedField.remarks c := by
  cases h with
  | @intro methods hmethods =>
    have hused : ∀ name, UnusedField.isUsed { c with methods } name = UnusedField.isUsed c name :=
      fun name => forall₂_any_eq hmethods fun m m' hm => by rw [hm.operations]
    simp only [UnusedField.remarks, hused]
    rfl

theorem hollywood_marked (o : HollywoodOptions) (h : c.Marked c') :
    Hollywood.remarks o c' = Hollywood.remarks o c := by
  cases h with
  | @intro methods hmethods =>
    unfold Hollywood.remarks
    rw [forall₂_flatMap_eq (marked_filter hmethods fun _ _ => rfl)]
    · rfl
    · intro m m' hm
      cases hm with
      | @intro body hbody => exact candidates_padded c methods body o hbody 0

theorem hashCodeEquals_marked (h : c.Marked c') : HashCodeEquals.remarks c' = HashCodeEquals.remarks c := by
  cases h with
  | @intro methods hmethods =>
    have hdeclares : ∀ name desc, (Class.method? { c with methods } name desc).isSome = (c.method? name desc).isSome := by
      intro name desc
      simp only [Class.method?, List.isSome_find?]
      exact forall₂_any_eq hmethods fun m m' hm => by cases hm; rfl
    simp only [HashCodeEquals.remarks, hdeclares]
    rfl

theorem swallowedException_marked (h : c.Marked c') :
    c'.methods.flatMap (SwallowedException.methodRemarks c') =
      c.methods.flatMap (SwallowedException.methodRemarks c) := by
  cases h with
  | intro hmethods => exact forall₂_flatMap_eq hmethods fun m m' hm => SwallowedException.methodRemarks_marked c hm

theorem dataType_marked (h : c.Marked c') :
    c'.methods.flatMap (DataType.methodRemarks c') = c.methods.flatMap (DataType.methodRemarks c) := by
  cases h with
  | @intro methods hmethods =>
    refine forall₂_flatMap_eq hmethods fun m m' hm => ?_
    unfold DataType.methodRemarks
    rw [Method.unless_hasBody (m := m') ?_, Method.unless_hasBody (m := m) ?_]
    · cases hm with
      | @intro body hbody => simp only [scan_padded c methods body _ hbody]; rfl
    · intro hempty
      rw [hempty]
      cases m.type <;> rfl
    · intro hempty
      rw [hempty]
      cases m'.type <;> rfl

end

/-! ## The registry -/

/-- No built-in check tells a class from the same class with frames, and with labels that nothing refers
to, put anywhere into its methods: it asks the same questions and has the same findings. -/
theorem Registry.findings_marked [GlobLibrary] {o : CheckOptions} {registry : Registry}
    (hbuilt : Registry.builtIn o = .ok registry)
    {k : Check} (hk : k ∈ registry.checks) {c c' : Class} (h : c.Marked c') (around : Surroundings) :
    k.findings c' around = k.findings c around := by
  obtain ⟨classifier, hchecks⟩ := Registry.builtIn_checks hbuilt
  rw [hchecks] at hk
  revert k
  simp only [Registry.builtInChecks, List.forall_mem_cons]
  refine ⟨?_, ?_, ?_, ?_, ?_, ?_, ?_, ?_, ?_, ?_, ?_, ?_, ?_, by simp⟩
  · exact CheckInfo.findings_localCheck_congr _ (duplication_marked _ h) around
  · exact CheckInfo.findings_check_congr _ (redundantInterface_marked h around)
  · exact CheckInfo.findings_check_congr _ (abstractImplementation_marked h around)
  · exact CheckInfo.findings_localCheck_congr _ (decorator_marked h) around
  · exact CheckInfo.findings_localCheck_congr _ (strategy_marked _ h) around
  · exact CheckInfo.findings_check_congr _ (threeLayer_marked h classifier _ around)
  · exact CheckInfo.findings_localCheck_congr _ (unusedParameter_marked h) around
  · exact CheckInfo.findings_localCheck_congr _ (unusedField_marked h) around
  · exact CheckInfo.findings_localCheck_congr _ (hollywood_marked _ h) around
  · exact CheckInfo.findings_localCheck_congr _ (hashCodeEquals_marked h) around
  · exact CheckInfo.findings_localCheck_congr _ (swallowedException_marked h) around
  · cases h with
    | intro hmethods => rfl
  · exact CheckInfo.findings_localCheck_congr _ (dataType_marked h) around

def droppingMethod : Method :=
  { name := "run", desc := "()V", access := ⟨0⟩
    body := [.label 0, .real { op := .aload }, .label 1, .real { op := .goto, target := 3 }, .label 2, .line 8,
      .real { op := .astore, slot := 1 }, .label 3, .real { op := .vreturn }]
    handlers := [⟨0, 1, 2, "java/lang/Exception"⟩] }

/-- Inert markers where they could matter: before the jump that closes the protected region, at the
handler and after the store. -/
def markedMethod : Method :=
  { droppingMethod with
    body := [.label 0, .real { op := .aload }, .label 1, .frame { op := .athrow }, .real { op := .goto, target := 3 },
      .label 2, .label 9, .line 8, .frame { op := .goto, target := 3 }, .real { op := .astore, slot := 1 }, .label 7,
      .label 3, .real { op := .vreturn }] }

def classWith (m : Method) : Class := { name := "Job", access := ⟨0⟩, super := Name.object, methods := [m] }

theorem Registry.findings_marked_droppingMethod :
    ∃ registry : Registry, Registry.builtIn .builtIn = .ok registry ∧ SwallowedException.check ∈ registry.checks ∧
      (classWith droppingMethod).Marked (classWith markedMethod) ∧
      SwallowedException.check.findings (classWith markedMethod) {} = .done [⟨"SwallowedException", .style, "Job.run:8",
        "Caught exception type 'Exception' is swallowed without handling"⟩] := by
  have hbuilt : Registry.builtIn .builtIn = .ok ⟨Registry.builtInChecks .builtIn ⟨[], []⟩⟩ :=
    Registry.builtIn_of_model rfl
  have hk : SwallowedException.check ∈ Registry.builtInChecks .builtIn ⟨[], []⟩ := by
    simp [Registry.builtInChecks]
  have hlabel : ∀ l ∈ [(7 : Label), 9], droppingMethod.Inert (.label l) := by
    intro l hl
    exact .label ((by decide : ∀ l ∈ [(7 : Label), 9], l ∉ droppingMethod.referenced) l hl)
  have hmarked : (classWith droppingMethod).Marked (classWith markedMethod) := by
    refine .intro (.cons (.intro ?_) .nil)
    exact .keep rfl <| .keep rfl <| .keep rfl <| .insert (.frame _) <| .keep rfl <| .keep rfl <|
      .insert (hlabel 9 (by decide)) <| .keep rfl <| .insert (.frame _) <| .keep rfl <|
      .insert (hlabel 7 (by decide)) <| .keep rfl <| .keep rfl .nil
  refine ⟨_, hbuilt, hk, hmarked, ?_⟩
  rw [Registry.findings_marked hbuilt hk hmarked {}]
  rfl

end JvmLint
