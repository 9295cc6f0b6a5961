import JvmLint.Proofs.Dedup
import JvmLint.Proofs.ScannedCode

/-!
# The stream of a code attribute

`scanCode` merges labels and line markers into the decoded instructions by one
pass over the sorted line entries. Decoded offsets increase, so the pass leaves
nothing behind that is still wanted, and the stream is the one that looks up
the entries of each offset (`merge_eq_weave`). That stream is cut at its real
instructions into gaps (`gaps_weave`); a gap depends on the offset of the
instruction after it alone, so each statement about markers is one about gaps.
-/

namespace JvmLint.ClassFile

/-! ## What a reader yields -/

section
variable {α β : Type}

/-- Whenever the reader succeeds it has moved over some of its bytes, and what it gives satisfies `P`. -/
def Yields (r : Reader α) (P : α → Prop) : Prop :=
  ∀ c a c', r c = .ok (a, c') → (∃ enc, c.rest = enc ++ c'.rest ∧ c'.pos = c.pos + enc.length) ∧ P a

theorem Exact.yields {r : Reader α} (h : Exact r) : Yields r fun _ => True := by
  intro c a c' hc
  obtain ⟨enc, hrest, hpos, _⟩ := h c a c' hc
  exact ⟨⟨enc, hrest, hpos⟩, trivial⟩

theorem Yields.bind {r : Reader α} {f : α → Reader β} {P : α → Prop} {Q : β → Prop} (hr : Yields r P)
    (hf : ∀ a, P a → Yields (f a) Q) : Yields (r >>= f) Q := by
  intro c b c'' h
  obtain ⟨a, c', hrc, hfc⟩ := bind_eq_ok.mp h
  obtain ⟨⟨e₁, h₁, hp₁⟩, ha⟩ := hr c a c' hrc
  obtain ⟨⟨e₂, h₂, hp₂⟩, hb⟩ := hf a ha c' b c'' hfc
  refine ⟨⟨e₁ ++ e₂, by rw [h₁, h₂, List.append_assoc], ?_⟩, hb⟩
  rw [hp₂, hp₁, List.length_append, Nat.add_assoc]

theorem yields_pure {a : α} {P : α → Prop} (h : P a) : Yields (pure a) P := by
  intro c b c' hc
  cases hc
  exact ⟨⟨[], rfl, rfl⟩, h⟩

theorem yields_fail (d : Defect) (P : α → Prop) : Yields (Reader.fail d) P := by
  intro c a c' h; cases h

/-- A reader that does not move. -/
theorem yields_still {r : Reader α} (h : ∀ c a c', r c = .ok (a, c') → c' = c) : Yields r fun _ => True := by
  intro c a c' hc
  cases h c a c' hc
  exact ⟨⟨[], rfl, rfl⟩, trivial⟩

theorem yields_index : Yields Reader.index fun _ => True := by
  intro c i c' h
  by_cases hc : 2 ≤ c.rest.length
  · rw [index_of_u2 (u2_of_le hc), ← u2_of_le hc] at h
    exact exact_u2.yields c i c' h
  · rw [index_short (by omega)] at h
    cases h
    exact ⟨⟨[], rfl, rfl⟩, trivial⟩

end

/-! ## Offsets of decoded instructions -/

def OneTarget (o : Operation) : Prop := o.targets = [] ∨ o.role = .switch

theorem role_of_switch : ∀ op, layout op = .table ∨ layout op = .pairs → op.role = .switch :=
  forall_opcode (by decide +kernel)

theorem yields_readTable {op : Opcode} (hop : op.role = .switch) (size pc : Nat) :
    Yields (readTable size pc op) OneTarget := by
  unfold readTable
  refine (yields_still fun c a c' h => by cases h; rfl).bind fun p _ => (exact_skip _).yields.bind fun _ _ => ?_
  refine exact_i4.yields.bind fun dflt _ => exact_i4.yields.bind fun low _ => exact_i4.yields.bind fun high _ => ?_
  split
  · exact yields_fail _ _
  · refine (yields_still fun c a c' h => by cases h; rfl).bind fun n _ => ?_
    exact (exact_times exact_i4 _).yields.bind fun cases _ => yields_pure (.inr hop)

theorem yields_readPairs {op : Opcode} (hop : op.role = .switch) (size pc : Nat) :
    Yields (readPairs size pc op) OneTarget := by
  unfold readPairs
  refine (yields_still fun c a c' h => by cases h; rfl).bind fun p _ => (exact_skip _).yields.bind fun _ _ => ?_
  refine exact_i4.yields.bind fun dflt _ => exact_i4.yields.bind fun pairs _ => ?_
  split
  · exact yields_fail _ _
  · exact (exact_times ((exact_skip 4).bind fun _ => exact_i4) _).yields.bind fun cases _ => yields_pure (.inr hop)

theorem yields_readWide : Yields readWide OneTarget := by
  unfold readWide
  refine exact_u1.yields.bind fun b _ => exact_u2.yields.bind fun slot _ => ?_
  split
  · exact (exact_skip 2).yields.bind fun _ _ => yields_pure (.inl rfl)
  · exact yields_pure (.inl rfl)
  · exact yields_fail _ _

theorem yields_lookup {α : Type} (key value : String) (found : Except Defect α) :
    Yields (Reader.noting key value (Reader.constant found)) fun _ => True :=
  ((exact_constant found).noting key value).yields

theorem yields_readOperands (pool : ConstantPool) (size pc : Nat) (op : Opcode) :
    Yields (readOperands pool size pc op) OneTarget := by
  unfold readOperands
  cases hl : layout op with
  | implied general slot => exact yields_pure (.inl rfl)
  | slot => exact exact_u1.yields.bind fun _ _ => yields_pure (.inl rfl)
  | increment =>
    exact exact_u1.yields.bind fun _ _ => (exact_skip 1).yields.bind fun _ _ => yields_pure (.inl rfl)
  | ignored general n => exact (exact_skip n).yields.bind fun _ _ => yields_pure (.inl rfl)
  | branch => exact exact_i2.yields.bind fun _ _ => yields_pure (.inl rfl)
  | wideBranch general => exact exact_i4.yields.bind fun _ _ => yields_pure (.inl rfl)
  | table => exact yields_readTable (role_of_switch op (.inl hl)) size pc
  | pairs => exact yields_readPairs (role_of_switch op (.inr hl)) size pc
  | member n =>
    exact yields_index.bind fun _ _ => (yields_lookup _ _ _).bind fun _ _ => (exact_skip n).yields.bind
      fun _ _ => yields_pure (.inl rfl)
  | dynamic =>
    exact yields_index.bind fun _ _ => (yields_lookup _ _ _).bind fun _ _ => (exact_skip 2).yields.bind
      fun _ _ => yields_pure (.inl rfl)
  | type n =>
    exact yields_index.bind fun _ _ => (yields_lookup _ _ _).bind fun _ _ => (exact_skip n).yields.bind
      fun _ _ => yields_pure (.inl rfl)
  | wide => exact yields_readWide
  | undefined => exact yields_fail _ _

/-- An instruction starts where the cursor is and takes at least a byte. -/
theorem readInstruction_moves {pool : ConstantPool} {size : Nat} {c c' : Cursor} {i : Nat × Operation}
    (h : readInstruction pool size c = .ok (i, c')) :
    i.1 = c.pos ∧ c.pos < c'.pos ∧ c'.pos + c'.rest.length = c.pos + c.rest.length ∧ OneTarget i.2 := by
  obtain ⟨_, _, hpos, h⟩ := bind_eq_ok.mp h
  cases hpos
  obtain ⟨b, c₁, hb, h⟩ := bind_eq_ok.mp h
  obtain ⟨o, c₂, ho, h⟩ := bind_eq_ok.mp h
  cases h
  obtain ⟨enc, hrest, hlen, hnext, _⟩ := word_eq_ok.mp hb
  obtain ⟨⟨more, hrest', hnext'⟩, hone⟩ := yields_readOperands pool size _ _ _ _ _ ho
  refine ⟨rfl, by omega, ?_, hone⟩
  rw [hrest, hrest', hnext', hnext, List.length_append, List.length_append]
  omega

/-- Decoded instructions start one after the other, inside the code. -/
theorem readInstructions_offsets {pool : ConstantPool} {size : Nat} :
    ∀ {fuel : Nat} {c c' : Cursor} {is : List (Nat × Operation)},
      readInstructions pool size fuel c = .ok (is, c') →
      (∀ i ∈ is, c.pos ≤ i.1 ∧ i.1 < c.pos + c.rest.length ∧ OneTarget i.2) ∧ is.Pairwise (·.1 < ·.1)
  | 0, c, c', is, h => by
    cases h
    exact ⟨by simp, .nil⟩
  | fuel + 1, c, c', is, h => by
    unfold readInstructions at h
    obtain ⟨n, c₁, hn, h⟩ := bind_eq_ok.mp h
    cases hn
    split at h
    · cases h
      exact ⟨by simp, .nil⟩
    · obtain ⟨i, c₁, hi, h⟩ := bind_eq_ok.mp h
      obtain ⟨is, c₂, his, h⟩ := bind_eq_ok.mp h
      cases h
      obtain ⟨hstart, hmove, hsame, hone⟩ := readInstruction_moves hi
      obtain ⟨hall, hpair⟩ := readInstructions_offsets his
      refine ⟨?_, ?_⟩
      · intro j hj
        rcases List.mem_cons.mp hj with rfl | hj
        · exact ⟨by omega, by omega, hone⟩
        · obtain ⟨hlo, hhi, hj⟩ := hall j hj
          exact ⟨by omega, by omega, hj⟩
      · refine List.pairwise_cons.mpr ⟨fun j hj => ?_, hpair⟩
        have hlo := (hall j hj).1
        omega

theorem decode_offsets {pool : ConstantPool} {code : List UInt8} {is : List (Nat × Operation)}
    (h : decode pool code = .ok is) :
    (∀ i ∈ is, i.1 < code.length ∧ OneTarget i.2) ∧ is.Pairwise (·.1 < ·.1) := by
  rw [decode_eq_from, decodeFrom] at h
  split at h
  · rename_i is' c' hread
    cases h
    obtain ⟨hall, hpair⟩ := readInstructions_offsets hread
    refine ⟨fun i hi => ?_, hpair⟩
    obtain ⟨_, hlt, hone⟩ := hall i hi
    exact ⟨by simpa using hlt, hone⟩
  · cases h

/-! ## One pass over the line entries -/

section
variable {labels : List Label} {size : Nat}

theorem weave_nil (labels : List Label) (lines : List LineEntry) (size : Nat) :
    weave labels lines size [] = labelAt labels size := rfl

theorem weave_cons (labels : List Label) (lines : List LineEntry) (size pc : Nat) (o : Operation)
    (is : List (Nat × Operation)) :
    weave labels lines size ((pc, o) :: is) =
      labelAt labels pc ++ linesAt lines pc ++ .real o :: weave labels lines size is := by
  simp [weave]

/-- Passing over sorted entries takes those of the offset and leaves the later ones. -/
theorem passLines_eq (pc : Nat) {lines : List LineEntry} (h : lines.Pairwise (·.1 ≤ ·.1)) :
    passLines pc lines = (linesAt lines pc, lines.filter (pc < ·.1)) := by
  induction lines with
  | nil => rfl
  | cons l lines ih =>
    obtain ⟨hfirst, hrest⟩ := List.pairwise_cons.mp h
    unfold passLines
    by_cases hle : l.1 ≤ pc
    · rw [if_pos hle, ih hrest]
      by_cases heq : l.1 = pc
      · simp [linesAt, heq]
      · simp [linesAt, heq, Nat.not_lt.mpr hle]
    · have hlater : ∀ k ∈ lines, pc < k.1 := fun k hk => Nat.lt_of_lt_of_le (Nat.lt_of_not_le hle) (hfirst k hk)
      have hnone : lines.filter (·.1 == pc) = [] := by
        refine List.filter_eq_nil_iff.mpr fun k hk => ?_
        have := hlater k hk
        simp; omega
      have hall : lines.filter (pc < ·.1) = lines := List.filter_eq_self.mpr fun k hk => by simpa using hlater k hk
      rw [if_neg hle]
      simp [linesAt, hnone, hall, Nat.lt_of_not_le hle, Nat.ne_of_gt (Nat.lt_of_not_le hle)]

theorem weave_congr {lines lines' : List LineEntry} {is : List (Nat × Operation)}
    (h : ∀ i ∈ is, linesAt lines i.1 = linesAt lines' i.1) : weave labels lines size is = weave labels lines' size is := by
  induction is with
  | nil => rfl
  | cons i is ih =>
    rw [weave_cons, weave_cons, h i (by simp), ih fun j hj => h j (by simp [hj])]

/-- What the pass has left behind belongs to no later instruction. -/
theorem merge_eq_weave {is : List (Nat × Operation)} (his : is.Pairwise (·.1 < ·.1)) {lines : List LineEntry}
    (h : lines.Pairwise (·.1 ≤ ·.1)) : merge labels size lines is = weave labels lines size is := by
  induction is generalizing lines with
  | nil => rfl
  | cons i is ih =>
    obtain ⟨pc, o⟩ := i
    obtain ⟨hfirst, hrest⟩ := List.pairwise_cons.mp his
    have hleft : ∀ j ∈ is, linesAt (lines.filter (pc < ·.1)) j.1 = linesAt lines j.1 := by
      intro j hj
      have hlt : pc < j.1 := hfirst j hj
      unfold linesAt
      rw [List.filter_filter]
      congr 1
      refine List.filter_congr fun l _ => ?_
      by_cases heq : l.1 = j.1
      · simp [heq, hlt]
      · simp [heq]
    rw [merge, passLines_eq pc h, weave_cons, ← weave_congr hleft, ← ih hrest (h.filter _)]

theorem notAfter_trans (a b c : LineEntry) (hab : decide (a.1 ≤ b.1) = true) (hbc : decide (b.1 ≤ c.1) = true) :
    decide (a.1 ≤ c.1) = true := by
  simp only [decide_eq_true_eq] at *
  omega

theorem notAfter_total (a b : LineEntry) : (decide (a.1 ≤ b.1) || decide (b.1 ≤ a.1)) = true := by
  simp only [Bool.or_eq_true, decide_eq_true_eq]
  omega

theorem linesAt_mergeSort (lines : List LineEntry) (pc : Nat) :
    linesAt (lines.mergeSort fun a b => a.1 ≤ b.1) pc = linesAt lines pc := by
  unfold linesAt
  rw [filter_mergeSort notAfter_trans notAfter_total]
  intro a b ha hb
  simp only [beq_iff_eq] at ha hb
  simp [ha, hb]

theorem merge_sorted {is : List (Nat × Operation)} (his : is.Pairwise (·.1 < ·.1)) (lines : List LineEntry) :
    merge labels size (lines.mergeSort fun a b => a.1 ≤ b.1) is = weave labels lines size is := by
  have hsorted : (lines.mergeSort fun a b => a.1 ≤ b.1).Pairwise (·.1 ≤ ·.1) := by
    have h : (lines.mergeSort fun a b => a.1 ≤ b.1).Pairwise fun a b => decide (a.1 ≤ b.1) = true :=
      List.pairwise_mergeSort notAfter_trans notAfter_total lines
    exact h.imp fun hab => by simpa using hab
  rw [merge_eq_weave his hsorted]
  exact weave_congr fun i _ => linesAt_mergeSort lines i.1

end

theorem reads_scanCode (pool : ConstantPool) : Reads id (scanCode pool) (readCode pool) := by
  have hhead : Reads id (Scan.checked do Scan.skip 4; Scan.bytes (← Scan.u4))
      (do Reader.skip 4; Reader.bytes (← Reader.u4)) :=
    ((tracks_skip tellsEnd_id 4).agrees.bind fun _ => (tracks_u4 tellsEnd_id).bind fun n => tracks_bytes tellsEnd_id n).checked
  have htables : Reads id (Scan.checked do return (← Scan.counted (scanHandler pool), ← Scan.counted (scanCodeTable pool)))
      (do return (← counted (readHandler pool), ← counted (readCodeTable pool))) :=
    (((agrees_scanHandler pool).counted tellsEnd_id).agrees.bind fun _ =>
      ((reads_scanCodeTable pool).agrees.counted tellsEnd_id).bind fun _ => tracks_pure _).checked
  have hread : readCode pool = (do
      let code ← (do Reader.skip 4; Reader.bytes (← Reader.u4))
      let is ← (fun c => (decode pool code).map (·, c) : Reader _)
      let p ← (do return (← counted (readHandler pool), ← counted (readCodeTable pool)))
      let locals := p.2.flatMap (·.locals)
      return { body := weave (labelled code.length is p.1 locals) (p.2.flatMap (·.lines)) code.length is, locals,
               handlers := p.1 }) := by
    unfold readCode
    simp only [bind_assoc, pure_bind]
  rw [hread]
  refine hhead.bind fun code => ?_
  cases hdec : decode pool code with
  | error e => exact fun c => rfl
  | ok is =>
    have hrest : ∀ p : List TryCatch × List CodeTables, Reads id
        (pure { body := merge (labelled code.length is p.1 (p.2.flatMap (·.locals))) code.length
                  ((p.2.flatMap (·.lines)).mergeSort fun a b => a.1 ≤ b.1) is
                locals := p.2.flatMap (·.locals), handlers := p.1 } : Scan CodeBody)
        (pure { body := weave (labelled code.length is p.1 (p.2.flatMap (·.locals))) (p.2.flatMap (·.lines)) code.length is
                locals := p.2.flatMap (·.locals), handlers := p.1 } : Reader CodeBody) := by
      intro p
      rw [merge_sorted (decode_offsets hdec).2]
      exact reads_pure _
    exact fun c => htables.bind hrest c

/-! ## The stream, gap by gap -/

def reals (body : List Instruction) : List Operation := body.filterMap (·.real?)

def labelOf? : Instruction → Option Label
  | .label l => some l
  | _ => none

def lineOf? : Instruction → Option Int
  | .line n => some n
  | _ => none

section
variable (labels : List Label) (lines : List LineEntry) (size : Nat)

theorem marker_not_real (pc : Nat) {x : Instruction} (h : x ∈ labelAt labels pc ++ linesAt lines pc) :
    x.real? = none := by
  rcases List.mem_append.mp h with h | h
  · unfold labelAt at h
    split at h
    · simp only [List.mem_singleton] at h; subst h; rfl
    · cases h
  · obtain ⟨l, _, rfl⟩ := List.mem_map.mp h
    rfl

theorem mem_labelAt (pc : Nat) {l : Label} : .label l ∈ labelAt labels pc ++ linesAt lines pc ↔
    l = pc ∧ l ∈ labels := by
  have hlines : .label l ∉ linesAt lines pc := by
    intro h
    obtain ⟨_, _, h⟩ := List.mem_map.mp h
    cases h
  rw [List.mem_append, or_iff_left hlines]
  unfold labelAt
  split
  · rename_i hc
    rw [List.contains_iff_mem] at hc
    simp only [List.mem_singleton, Instruction.label.injEq]
    exact ⟨fun h => ⟨h, h ▸ hc⟩, fun h => h.1⟩
  · rename_i hc
    rw [List.contains_iff_mem] at hc
    simp only [List.not_mem_nil, false_iff]
    rintro ⟨rfl, h⟩
    exact hc h

theorem reals_markers {l : List Instruction} (h : ∀ x ∈ l, x.real? = none) : reals l = [] :=
  List.filterMap_eq_nil_iff.mpr h

theorem reals_append (l₁ l₂ : List Instruction) : reals (l₁ ++ l₂) = reals l₁ ++ reals l₂ := List.filterMap_append

theorem reals_weave (is : List (Nat × Operation)) : reals (weave labels lines size is) = is.map (·.2) := by
  induction is with
  | nil =>
    refine reals_markers fun x hx => marker_not_real labels [] size ?_
    exact List.mem_append_left _ hx
  | cons i is ih =>
    rw [weave_cons, reals_append, reals_markers fun x hx => marker_not_real labels lines _ hx, List.nil_append,
      List.map_cons, ← ih]
    rfl

/-- Between two real instructions stand the markers of the second one's offset. -/
theorem gaps_weave (is : List (Nat × Operation)) :
    (weave labels lines size is).splitOnP (·.isReal) =
      is.map (fun i => labelAt labels i.1 ++ linesAt lines i.1) ++ [labelAt labels size] := by
  have hmarker : ∀ {pc x}, x ∈ labelAt labels pc ++ linesAt lines pc → x.isReal = false := by
    intro pc x hx
    unfold Instruction.isReal
    rw [marker_not_real labels lines _ hx]
    rfl
  induction is with
  | nil =>
    rw [weave_nil, List.splitOnP_eq_singleton fun x hx => hmarker (List.mem_append_left _ hx)]
    rfl
  | cons i is ih =>
    rw [weave_cons, List.splitOnP_append_cons_of_forall_mem (fun x hx => hmarker hx) _ rfl, ih]
    rfl

/-- A label stands before the instruction of its offset, or at the end of the code. -/
theorem label_place {l : Label} : ∀ {is : List (Nat × Operation)} {pre post : List Instruction},
    weave labels lines size is = pre ++ .label l :: post →
      (∃ before pc o after, is = before ++ (pc, o) :: after ∧ l = (pc : Nat) ∧ reals pre = before.map (·.2) ∧
        reals post = o :: after.map (·.2)) ∨ l = size ∧ reals post = []
  | [], pre, post, h => by
    rw [weave_nil] at h
    unfold labelAt at h
    split at h
    · cases pre with
      | nil => cases h; exact .inr ⟨rfl, rfl⟩
      | cons x pre => simp at h
    · simp at h
  | (pc, o) :: is, pre, post, h => by
    rw [weave_cons] at h
    have hreal : reals (.real o :: weave labels lines size is) = o :: is.map (·.2) := by
      rw [← reals_weave labels lines size is]; rfl
    rcases List.append_eq_append_iff.mp h with ⟨m, hpre, hm⟩ | ⟨m, hgap, hm⟩
    · -- The label stands after the first instruction.
      cases m with
      | nil => cases hm
      | cons x m =>
        obtain ⟨rfl, htail⟩ := List.cons_eq_cons.mp hm
        have hmark : reals (labelAt labels pc ++ linesAt lines pc) = [] :=
          reals_markers fun x hx => marker_not_real labels lines _ hx
        rcases label_place htail with ⟨before, k, o', after, his, hl, hb, ha⟩ | hend
        · refine .inl ⟨(pc, o) :: before, k, o', after, by rw [his]; rfl, hl, ?_, ha⟩
          rw [hpre, reals_append, hmark, List.nil_append, List.map_cons, ← hb]
          rfl
        · exact .inr hend
    · -- The label is among the markers of the first instruction.
      cases m with
      | nil => cases hm
      | cons x m =>
        obtain ⟨rfl, htail⟩ := List.cons_eq_cons.mp hm
        have hmem : .label l ∈ labelAt labels pc ++ linesAt lines pc := by rw [hgap]; simp
        have hmark : ∀ x ∈ pre ++ .label l :: m, x.real? = none := fun x hx =>
          marker_not_real labels lines _ (hgap ▸ hx)
        refine .inl ⟨[], pc, o, is, rfl, (mem_labelAt labels lines pc).mp hmem |>.1, ?_, ?_⟩
        · exact reals_markers fun x hx => hmark x (List.mem_append_left _ hx)
        · rw [htail]
          refine (reals_append m _).trans ?_
          rw [hreal, reals_markers fun x hx => hmark x (by simp [hx]), List.nil_append]

/-- The labels of the stream are the positions that have one, in their order. -/
theorem labels_weave (is : List (Nat × Operation)) :
    (weave labels lines size is).filterMap labelOf? =
      (is.map (fun i => (i.1 : Label)) ++ [(size : Label)]).filter (labels.contains ·) := by
  have hlabel : ∀ pc, (labelAt labels pc).filterMap labelOf? = [(pc : Label)].filter (labels.contains ·) := by
    intro pc
    unfold labelAt
    rw [List.filter_cons]
    split <;> rfl
  have hlines : ∀ pc, (linesAt lines pc).filterMap labelOf? = [] := by
    intro pc
    refine List.filterMap_eq_nil_iff.mpr fun x hx => ?_
    obtain ⟨l, _, rfl⟩ := List.mem_map.mp hx
    rfl
  induction is with
  | nil => exact hlabel size
  | cons i is ih =>
    have hcons : (i :: is).map (fun i => (i.1 : Label)) ++ [(size : Label)] =
        [(i.1 : Label)] ++ (is.map (fun i => (i.1 : Label)) ++ [(size : Label)]) := rfl
    rw [hcons, List.filter_append, ← ih, weave_cons, List.filterMap_append, List.filterMap_append, hlabel, hlines,
      List.append_nil]
    rfl

theorem labels_increase {is : List (Nat × Operation)} (hall : ∀ i ∈ is, i.1 < size) (hpair : is.Pairwise (·.1 < ·.1)) :
    ((weave labels lines size is).filterMap labelOf?).Pairwise (· < ·) := by
  rw [labels_weave]
  refine List.Pairwise.filter _ (List.pairwise_append.mpr ⟨?_, List.pairwise_singleton _ _, ?_⟩)
  · exact hpair.map _ fun i j hij => Int.ofNat_lt.mpr hij
  · intro p hp q hq
    obtain ⟨i, hi, rfl⟩ := List.mem_map.mp hp
    obtain rfl := List.mem_singleton.mp hq
    exact Int.ofNat_lt.mpr (hall i hi)

theorem mem_iff_label {body : List Instruction} {p : Label} : .label p ∈ body ↔ p ∈ body.filterMap labelOf? := by
  rw [List.mem_filterMap]
  constructor
  · exact fun h => ⟨_, h, rfl⟩
  · rintro ⟨x, hx, hp⟩
    cases x with
    | label l => cases hp; exact hx
    | _ => cases hp

theorem no_lines_labelAt (pc : Nat) : (labelAt labels pc).filterMap lineOf? = [] := by
  unfold labelAt
  split <;> rfl

theorem lines_gap (pc : Nat) :
    (labelAt labels pc ++ linesAt lines pc).filterMap lineOf? = (lines.filter (·.1 == pc)).map fun l => (l.2 : Int) := by
  rw [List.filterMap_append, no_lines_labelAt, List.nil_append]
  unfold linesAt
  rw [List.filterMap_map]
  exact congrFun List.filterMap_eq_map _

theorem lines_weave (is : List (Nat × Operation)) :
    ((weave labels lines size is).splitOnP (·.isReal)).map (·.filterMap lineOf?) =
      is.map (fun i => (lines.filter (·.1 == i.1)).map fun l => (l.2 : Int)) ++ [[]] := by
  rw [gaps_weave, List.map_append, List.map_map, List.map_singleton, no_lines_labelAt]
  congr 1
  exact List.map_congr_left fun i _ => lines_gap labels lines i.1

end

/-! ## Labelled positions -/

def JumpsTo (o : Operation) (p : Label) : Prop :=
  (o.role = .conditionalBranch ∨ o.role = .switch ∨ o.role = .jump ∧ o.op ≠ .ret) ∧ (p = o.target ∨ p ∈ o.targets)

/-- A target of an instruction, a bound of a protected range or its handler, or a bound of the range of
a local variable. -/
def Marked (is : List (Nat × Operation)) (handlers : List TryCatch) (locals : List LocalVariable) (p : Label) : Prop :=
  (∃ i ∈ is, JumpsTo i.2 p) ∨ (∃ h ∈ handlers, p = h.start ∨ p = h.stop ∨ p = h.handler) ∨
    ∃ v ∈ locals, p = v.start ∨ p = v.stop

theorem mem_jumps {o : Operation} (h : OneTarget o) (p : Label) : p ∈ jumps o ↔ JumpsTo o p := by
  unfold jumps JumpsTo
  rcases h with h | h
  · split
    · rename_i hr; simp [hr, h]
    · rename_i hr; simp [hr, h]
    · rename_i hr
      split <;> simp_all
    · rename_i hc hs hj
      simp only [List.not_mem_nil, false_iff]
      rintro ⟨hr | hr | ⟨hr, _⟩, _⟩ <;> contradiction
  · simp [h]

theorem mem_labelled {is : List (Nat × Operation)} {handlers : List TryCatch} {locals : List LocalVariable}
    (h : ∀ i ∈ is, OneTarget i.2) (size : Nat) (p : Label) :
    p ∈ labelled size is handlers locals ↔ (0 ≤ p ∧ p ≤ size) ∧ Marked is handlers locals p := by
  have hjumps : (∃ i ∈ is, p ∈ jumps i.2) ↔ ∃ i ∈ is, JumpsTo i.2 p := by
    constructor
    · rintro ⟨i, hi, hp⟩; exact ⟨i, hi, (mem_jumps (h i hi) p).mp hp⟩
    · rintro ⟨i, hi, hp⟩; exact ⟨i, hi, (mem_jumps (h i hi) p).mpr hp⟩
  unfold labelled Marked
  simp only [List.mem_filter, List.mem_append, List.mem_flatMap, hjumps, List.mem_cons, List.not_mem_nil, or_false,
    or_assoc, Bool.and_eq_true, decide_eq_true_eq]
  exact and_comm

/-! ## Code attributes -/

/-- From `c` to `c'` stand four bytes of limits, the code with its length, which decodes to `is`, the
exception table, and the tables of the code. -/
def HoldsCode (pool : ConstantPool) (c c' : Cursor) (code : List UInt8) (is : List (Nat × Operation))
    (handlers : List TryCatch) (tables : List CodeTables) : Prop :=
  ∃ limits rest c₁, limits.length = 4 ∧ code.length < 0x100000000 ∧
    c.rest = limits ++ be4 code.length ++ code ++ rest ∧ decode pool code = .ok is ∧
    Scan.counted (scanHandler pool) { rest, pos := c.pos + 8 + code.length } = .ok (handlers, Cursor.tape c₁) ∧
    Scan.counted (scanCodeTable pool) c₁.tape = .ok (tables, c'.tape)

theorem Agrees.of_ok {α : Type} {told note : Malformed → Malformed} {s : Scan α} {r : Reader α} (h : Agrees told note s r)
    {c c' : Cursor} {a : α} (hr : r c = .ok (a, c')) : s c.tape = .ok (a, c'.tape) := by
  have hc := h c
  rw [hr] at hc
  generalize s c.tape = o at hc
  cases hc
  rfl

theorem readCode_holds {pool : ConstantPool} {c c' : Cursor} {b : CodeBody} (h : readCode pool c = .ok (b, c')) :
    ∃ code is tables, HoldsCode pool c c' code is b.handlers tables ∧ b.locals = tables.flatMap (·.locals) ∧
      b.body = weave (labelled code.length is b.handlers b.locals) (tables.flatMap (·.lines)) code.length is := by
  unfold readCode at h
  obtain ⟨_, c₁, hskip, h⟩ := bind_eq_ok.mp h
  obtain ⟨n, c₂, hn, h⟩ := bind_eq_ok.mp h
  obtain ⟨code, c₃, hcode, h⟩ := bind_eq_ok.mp h
  obtain ⟨is, c₄, his, h⟩ := bind_eq_ok.mp h
  obtain ⟨handlers, c₅, hhandlers, h⟩ := bind_eq_ok.mp h
  obtain ⟨tables, c₆, htables, h⟩ := bind_eq_ok.mp h
  cases h
  have hdec : decode pool code = .ok is ∧ c₄ = c₃ := by
    cases hd : decode pool code with
    | error e => rw [hd] at his; cases his
    | ok is' => rw [hd] at his; cases his; exact ⟨rfl, rfl⟩
  obtain ⟨hdec, rfl⟩ := hdec
  obtain ⟨limits, _, hlimits, hunit⟩ := bind_eq_ok.mp hskip
  cases hunit
  obtain ⟨h₁, hlen₁, hp₁⟩ := bytes_eq_ok.mp hlimits
  obtain ⟨word, h₂, hlen₂, hp₂, rfl⟩ := word_eq_ok.mp hn
  obtain ⟨h₃, hlen₃, hp₃⟩ := bytes_eq_ok.mp hcode
  obtain ⟨hlt, hword⟩ := be4_wordOf hlen₂
  refine ⟨code, is, tables, ⟨limits, c₄.rest, c₅, hlen₁, hlen₃ ▸ hlt, ?_, hdec, ?_, ?_⟩, rfl, rfl⟩
  · rw [h₁, h₂, h₃, hlen₃, hword]; simp only [List.append_assoc]
  · have hpos : c.pos + 8 + code.length = c₄.pos := by omega
    rw [hpos]
    exact ((agrees_scanHandler pool).counted tellsEnd_id).agrees.of_ok hhandlers
  · exact ((reads_scanCodeTable pool).agrees.counted tellsEnd_id).agrees.of_ok htables

/-- The stream that a code attribute is read to. Without the markers it is what the code decodes to.
Labels increase, and each stands before the instruction of its offset or, the last one, at the end of
the code. A position is labelled when it is marked and starts an instruction or ends the code. Before
each instruction stand the line numbers of its offset, from all the tables in order, and no others. -/
theorem scanCode_stream {pool : ConstantPool} {c : Cursor} {t : Tape} {b : CodeBody}
    (h : scanCode pool c.tape = .ok (b, t)) :
    ∃ c' code is tables, t = Cursor.tape c' ∧ HoldsCode pool c c' code is b.handlers tables ∧ b.locals = tables.flatMap (·.locals) ∧
      reals b.body = is.map (·.2) ∧
      (b.body.filterMap labelOf?).Pairwise (· < ·) ∧
      (∀ (pre : List Instruction) (l : Label) (post : List Instruction), b.body = pre ++ .label l :: post →
        ((∃ before pc o after, is = before ++ (pc, o) :: after ∧ l = (pc : Nat) ∧ reals pre = before.map (·.2) ∧
          reals post = o :: after.map (·.2)) ∨ reals post = []) ∧ (reals post = [] ↔ l = code.length)) ∧
      (∀ p : Label, .label p ∈ b.body ↔
        ((∃ i ∈ is, p = (i.1 : Nat)) ∨ p = code.length) ∧ Marked is b.handlers b.locals p) ∧
      (b.body.splitOnP (·.isReal)).map (·.filterMap lineOf?) =
        is.map (fun i => ((tables.flatMap (·.lines)).filter (·.1 == i.1)).map fun l => (l.2 : Int)) ++ [[]] := by
  obtain ⟨c', rfl, hread⟩ := (reads_scanCode pool).ok_of h
  obtain ⟨code, is, tables, hholds, hlocals, hbody⟩ := readCode_holds hread
  have hdec : decode pool code = .ok is := by
    obtain ⟨_, _, _, _, _, _, hdec, _⟩ := hholds
    exact hdec
  obtain ⟨hall, hpair⟩ := decode_offsets hdec
  refine ⟨c', code, is, tables, rfl, hholds, hlocals, ?_, ?_, ?_, ?_, ?_⟩
  · rw [hbody, reals_weave]
  · rw [hbody]
    exact labels_increase _ _ _ (fun i hi => (hall i hi).1) hpair
  · intro pre l post hsplit
    rcases label_place _ _ _ (hbody ▸ hsplit) with ⟨before, pc, o, after, his, hl, hpre, hpost⟩ | ⟨hl, hpost⟩
    · refine ⟨.inl ⟨before, pc, o, after, his, hl, hpre, hpost⟩, by rw [hpost]; simp, fun hend => ?_⟩
      have hlt : pc < code.length := (hall (pc, o) (by rw [his]; simp)).1
      have heq : (pc : Int) = code.length := hl.symm.trans hend
      omega
    · exact ⟨.inr hpost, fun _ => hl, fun _ => hpost⟩
  · intro p
    have hplace : (∃ i ∈ is, p = (i.1 : Nat)) ∨ p = code.length → 0 ≤ p ∧ p ≤ code.length := by
      rintro (⟨i, hi, rfl⟩ | rfl)
      · exact ⟨Int.natCast_nonneg _, Int.ofNat_le.mpr (Nat.le_of_lt (hall i hi).1)⟩
      · exact ⟨Int.natCast_nonneg _, Int.le_refl _⟩
    rw [mem_iff_label, hbody, labels_weave, List.mem_filter, List.contains_iff_mem,
      mem_labelled fun i hi => (hall i hi).2]
    simp only [List.mem_append, List.mem_map, List.mem_singleton, eq_comm (b := p)]
    exact ⟨fun h => ⟨h.1, h.2.2⟩, fun h => ⟨h.1, hplace h.1, h.2⟩⟩
  · rw [hbody, lines_weave]

/-- A protected instruction whose handler is the return after it. The line table is out of order and also
names an offset beyond the code. -/
def protectedCode : Cursor :=
  { rest := [0, 4, 0, 4, 0, 0, 0, 2, 0, 0xb1, 0, 1, 0, 0, 0, 1, 0, 1, 0, 0,
      0, 1, 0, 1, 0, 0, 0, 14, 0, 3, 0, 1, 0, 7, 0, 5, 0, 9, 0, 0, 0, 5] }

set_option maxRecDepth 4000 in
theorem scanCode_stream_protectedCode :
    ∃ code is tables, HoldsCode ⟨#[.unused, .utf8 "LineNumberTable"]⟩ protectedCode { rest := [], pos := 42 } code is
        [{ start := 0, stop := 1, handler := 1, type := "" }] tables ∧
      is.map (·.2) = [{ op := ⟨0⟩ }, { op := .vreturn }] ∧
      is.map (fun i => ((tables.flatMap (·.lines)).filter (·.1 == i.1)).map fun l => (l.2 : Int)) = [[5], [7]] := by
  have hread : readCode ⟨#[.unused, .utf8 "LineNumberTable"]⟩ protectedCode = .ok
      ({ body := [.label 0, .line 5, .real { op := ⟨0⟩ }, .label 1, .line 7, .real { op := .vreturn }]
         locals := [], handlers := [{ start := 0, stop := 1, handler := 1, type := "" }] },
        { rest := [], pos := 42 }) := rfl
  obtain ⟨c', code, is, tables, hc', hholds, _, hreal, _, _, _, hlines⟩ := scanCode_stream ((reads_scanCode _).of_ok hread)
  cases hc'
  exact ⟨code, is, tables, hholds, hreal.symm, List.append_cancel_right (hlines.symm.trans rfl)⟩

end JvmLint.ClassFile
