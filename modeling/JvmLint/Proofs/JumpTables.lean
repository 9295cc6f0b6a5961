import JvmLint.Proofs.CodeStream
import JvmLint.Proofs.Encoding

/-!
# Jump tables

A jump table has an entry for each number between two signed words. Decoding
takes it over and goes on behind it, also where the number of entries is too
large for a signed word. The one exception is a table that ends at the largest
word: the number that counts the entries is a word too and never passes it, so
the loop goes on until the code runs out.
-/

namespace JvmLint.ClassFile

structure JumpTable where
  dflt : Int
  low : Int
  high : Int
  cases : List Int
  dflt_fits : Fits4 dflt
  low_fits : Fits4 low
  high_fits : Fits4 high
  le : low ≤ high
  complete : (cases.length : Int) = high - low + 1
  cases_fit : ∀ d ∈ cases, Fits4 d

namespace JumpTable

def asm (t : JumpTable) : Asm := .tableswitch t.dflt t.low t.high t.cases

def operation (t : JumpTable) (pc : Nat) : Operation :=
  { op := .tableswitch, target := pc + t.dflt, targets := t.cases.map (pc + ·) }

theorem inRange {t : JumpTable} (h : t.high ≠ 0x7fffffff) : t.asm.InRange := by
  have hhigh := t.high_fits.2
  exact ⟨t.dflt_fits, t.low_fits, t.le, by omega, t.complete, t.cases_fit⟩

theorem length_targets (t : JumpTable) (pc : Nat) : ((t.operation pc).targets.length : Int) = t.high - t.low + 1 := by
  simp only [operation, List.length_map]
  exact t.complete

end JumpTable

/-! ## Decoding from a position on -/

section
variable {pool : ConstantPool} {size : Nat}

theorem defect_noted (e : Malformed) : (noted e).defect = e.defect := by
  unfold noted
  split <;> rfl

theorem readInstructions_succ (fuel : Nat) {c : Cursor} (h : c.rest.length ≠ 0) :
    readInstructions pool size (fuel + 1) c =
      (do let i ← readInstruction pool size; return i :: (← readInstructions pool size fuel) : Reader _) c := by
  rw [readInstructions, bind_ok (show Reader.remaining c = .ok (c.rest.length, c) from rfl), if_neg h]

theorem readInstructions_nil (fuel : Nat) {c : Cursor} (h : c.rest.length = 0) :
    readInstructions pool size fuel c = .ok ([], c) := by
  cases fuel with
  | zero => rfl
  | succ fuel =>
    rw [readInstructions, bind_ok (show Reader.remaining c = .ok (c.rest.length, c) from rfl), if_pos h]
    rfl

/-- More fuel than bytes makes no difference. -/
theorem readInstructions_fuel {m n : Nat} {c : Cursor} (hm : c.rest.length ≤ m) (hn : c.rest.length ≤ n) :
    readInstructions pool size m c = readInstructions pool size n c := by
  induction m generalizing n c with
  | zero => rw [readInstructions_nil _ (by omega), readInstructions_nil _ (by omega)]
  | succ m ih =>
    by_cases hempty : c.rest.length = 0
    · rw [readInstructions_nil _ hempty, readInstructions_nil _ hempty]
    · obtain ⟨n, rfl⟩ : ∃ k, n = k + 1 := ⟨n - 1, by omega⟩
      rw [readInstructions_succ _ hempty, readInstructions_succ _ hempty]
      cases hi : readInstruction pool size c with
      | error e => rw [bind_error hi, bind_error hi]
      | ok s =>
        obtain ⟨i, c'⟩ := s
        obtain ⟨-, hmove, hsame, -⟩ := readInstruction_moves hi
        rw [bind_ok hi, bind_ok hi, bind_apply, bind_apply, ih (n := n) (by omega) (by omega)]

theorem decodeFrom_cons {c c' : Cursor} {i : Nat × Operation} (hne : c.rest.length ≠ 0)
    (hi : readInstruction pool size c = .ok (i, c')) :
    decodeFrom pool size c = (decodeFrom pool size c').map (i :: ·) := by
  obtain ⟨-, hmove, hsame, -⟩ := readInstruction_moves hi
  obtain ⟨n, hn⟩ : ∃ n, c.rest.length = n + 1 := ⟨c.rest.length - 1, by omega⟩
  have hrest : readInstructions pool size n c' = readInstructions pool size c'.rest.length c' :=
    readInstructions_fuel (by omega) (Nat.le_refl _)
  unfold decodeFrom
  rw [hn, readInstructions_succ _ hne, bind_ok hi, bind_apply, hrest]
  cases readInstructions pool size c'.rest.length c' with
  | error e => rfl
  | ok s => rfl

theorem decodeFrom_error {c : Cursor} {e : Malformed} (hne : c.rest.length ≠ 0)
    (he : readInstruction pool size c = .error e) : decodeFrom pool size c = .error (noted e) := by
  obtain ⟨n, hn⟩ : ∃ n, c.rest.length = n + 1 := ⟨c.rest.length - 1, by omega⟩
  unfold decodeFrom
  rw [hn, readInstructions_succ _ hne, bind_error he]

/-- Decoding goes on from where a number of instructions has brought it. -/
theorem decodeFrom_reached {ops : List (Nat × Operation)} {c c' : Cursor}
    (h : readInstructions pool size ops.length c = .ok (ops, c')) :
    c'.rest.length ≤ c.rest.length ∧ decodeFrom pool size c = (decodeFrom pool size c').map (ops ++ ·) := by
  induction ops generalizing c with
  | nil =>
    cases h
    refine ⟨Nat.le_refl _, ?_⟩
    cases decodeFrom pool size c' <;> rfl
  | cons i ops ih =>
    have hne : c.rest.length ≠ 0 := by
      intro hempty
      rw [readInstructions_nil _ hempty] at h
      cases h
    rw [List.length_cons, readInstructions_succ _ hne] at h
    obtain ⟨j, c₁, hj, h⟩ := bind_eq_ok.mp h
    obtain ⟨more, c₂, hmore, h⟩ := bind_eq_ok.mp h
    cases h
    obtain ⟨-, hmove, hsame, -⟩ := readInstruction_moves hj
    obtain ⟨hle, hrest⟩ := ih hmore
    refine ⟨by omega, ?_⟩
    rw [decodeFrom_cons hne hj, hrest]
    cases decodeFrom pool size c' <;> rfl

/-! ## Running out of entries -/

theorem i4_enough {c : Cursor} (h : 4 ≤ c.rest.length) :
    ∃ n, Reader.i4 c = .ok (n, { rest := c.rest.drop 4, pos := c.pos + 4 }) := by
  have hbytes := bytes_apply 4 c
  rw [if_pos h] at hbytes
  exact ⟨_, (bind_ok (bind_ok hbytes)).trans rfl⟩

/-- Reading more words than there are ends with the last incomplete one. -/
theorem times_i4_overrun {n : Nat} {c : Cursor} (h : c.rest.length < 4 * n) :
    ∃ e, Reader.times n Reader.i4 c = .error e ∧ e.defect = .endOfData 4 (c.rest.length % 4) := by
  induction n generalizing c with
  | zero => omega
  | succ n ih =>
    by_cases hshort : c.rest.length < 4
    · refine ⟨_, bind_error (i4_short hshort), ?_⟩
      rw [Nat.mod_eq_of_lt hshort]
    · obtain ⟨w, hw⟩ := i4_enough (c := c) (by omega)
      have hdrop : (c.rest.drop 4).length = c.rest.length - 4 := List.length_drop
      obtain ⟨e, he, hdefect⟩ := ih (c := { rest := c.rest.drop 4, pos := c.pos + 4 }) (by simp only [hdrop]; omega)
      refine ⟨e, (bind_ok hw).trans (bind_error he), ?_⟩
      rw [hdefect, hdrop]
      congr 1
      omega

theorem Takes.fails_after {α β : Type} {r : Reader α} {f : α → Reader β} {pos : Nat} {enc tail : List UInt8} {a : α}
    {e : Malformed} (hr : Takes r pos enc a) (hf : f a { rest := tail, pos := pos + enc.length } = .error e) :
    (r >>= f) { rest := enc ++ tail, pos } = .error e :=
  (bind_ok (hr tail)).trans hf

theorem readTable_lastWord {t : JumpTable} (hlast : t.high = 0x7fffffff) (op : Opcode) (pc : Nat) {pos : Nat}
    {pad : List UInt8} (h4 : pad.length < 4) (ha : (pos + pad.length) % 4 = 0) (hsize : t.cases.length ≤ size)
    (after : List UInt8) :
    ∃ e, readTable size pc op
        { rest := pad ++ (signed4 t.dflt ++ (signed4 t.low ++ (signed4 t.high ++ (t.cases.flatMap signed4 ++ after)))), pos } =
          .error e ∧
      e.defect = .endOfData 4 (after.length % 4) := by
  have hpad : padding pos = pad.length := by unfold padding; omega
  have hlen : (t.cases.flatMap signed4 ++ after).length = 4 * t.cases.length + after.length := by
    rw [List.length_append, length_flatMap_const _ length_signed4]
  obtain ⟨e, he, hdefect⟩ := times_i4_overrun
    (n := tableSize t.low t.high (t.cases.flatMap signed4 ++ after).length)
    (c := { rest := t.cases.flatMap signed4 ++ after, pos := pos + pad.length + 4 + 4 + 4 }) (by
      unfold tableSize
      rw [if_pos hlast]
      dsimp only
      omega)
  refine ⟨e, ?_, ?_⟩
  · unfold readTable
    refine (bind_ok (show Reader.position _ = .ok (pos, _) from rfl)).trans ?_
    rw [hpad]
    refine (takes_skip pad pos).fails_after ((takes_i4 t.dflt_fits _).fails_after
      ((takes_i4 t.low_fits _).fails_after ((takes_i4 t.high_fits _).fails_after ?_)))
    rw [if_neg (table_accepted t.complete t.low_fits t.le hsize)]
    refine (bind_ok (show Reader.remaining _ = .ok ((t.cases.flatMap signed4 ++ after).length, _) from rfl)).trans ?_
    exact bind_error he
  · rw [hdefect, hlen]
    congr 1
    omega

/-- A table that ends at the largest word uses up the code. -/
theorem readInstruction_lastWord (pool : ConstantPool) {t : JumpTable} (hlast : t.high = 0x7fffffff) {pc : Nat}
    {table : List UInt8} (htable : Encodes pc t.asm table) (after : List UInt8) (hsize : table.length ≤ size) :
    ∃ e, readInstruction pool size { rest := table ++ after, pos := pc } = .error e ∧
      e.defect = .endOfData 4 (after.length % 4) := by
  unfold JumpTable.asm at htable
  cases htable with
  | tableswitch pad dflt low high cases h4 ha =>
    have hcases : t.cases.length ≤ size := by
      simp only [List.length_append, length_flatMap_const _ length_signed4] at hsize
      omega
    obtain ⟨e, he, hdefect⟩ := readTable_lastWord hlast ⟨0xaa⟩ pc h4 ha hcases after
    refine ⟨e, ?_, hdefect⟩
    simp only [List.append_assoc, List.cons_append]
    refine (bind_ok (show Reader.position _ = .ok (pc, _) from rfl)).trans ?_
    refine (takes_u1 0xaa pc).fails_after (bind_error ?_)
    exact he

end

/-! ## Tables in code -/

theorem toInt_of_fits {n : Int} (h : Fits4 n) : (Int32.ofInt n).toInt = n := by
  obtain ⟨hlow, hhigh⟩ := h
  exact Int32.toInt_ofInt_of_le (by omega) (by omega)

/-- How often the loop over the entries turns, with `after` behind them. -/
theorem length_cases_table (t : JumpTable) (after : List UInt8) (pos : Nat) :
    (Tape.cases (Int32.ofInt t.low) (Int32.ofInt t.high) { rest := t.cases.flatMap signed4 ++ after, pos }).1.length =
      if t.high = 0x7fffffff then t.cases.length + after.length / 4 + 1 else t.cases.length := by
  have hlen : (t.cases.flatMap signed4 ++ after).length = 4 * t.cases.length + after.length := by
    rw [List.length_append, length_flatMap_const _ length_signed4]
  have hcount := t.complete
  have hturns : Turns (Int32.ofInt t.high) (Int32.ofInt t.low) (t.cases.flatMap signed4 ++ after).length
      (if t.high = 0x7fffffff then t.cases.length + after.length / 4 + 1 else t.cases.length) := by
    unfold Turns
    rw [toInt_of_fits t.low_fits, toInt_of_fits t.high_fits, hlen]
    split
    · exact .inr ⟨‹_›, by omega⟩
    · exact .inl ⟨‹_›, by omega⟩
  refine length_cases (c := { rest := t.cases.flatMap signed4 ++ after, pos }) hturns ?_
  dsimp only
  rw [hlen]
  split <;> omega

/-- A jump table that the decoder comes to has one target for each number in its range. Unless it ends at the
largest word, the loop over its entries turns as often, and what follows the table is decoded next. With that
word as its end the loop goes on through what follows until the code ends, and the code is never accepted. -/
theorem decode_jumpTable (pool : ConstantPool) (t : JumpTable) {code table after : List UInt8}
    {ops : List (Nat × Operation)} {pc : Nat}
    (hreach : scanInstructions pool code.length ops.length { rest := code } =
      .ok (ops, { rest := table ++ after, pos := pc }))
    (htable : Encodes pc t.asm table) :
    ((t.operation pc).targets.length : Int) = t.high - t.low + 1 ∧
    (∀ pos, (Tape.cases (Int32.ofInt t.low) (Int32.ofInt t.high)
        { rest := t.cases.flatMap signed4 ++ after, pos }).1.length =
      if t.high = 0x7fffffff then t.cases.length + after.length / 4 + 1 else t.cases.length) ∧
    (t.high ≠ 0x7fffffff → decode pool code =
      (decodeRest pool code.length { rest := after, pos := pc + table.length }).map fun more =>
        ops ++ (pc, t.operation pc) :: more) ∧
    (t.high = 0x7fffffff → ∃ e, decode pool code = .error e ∧ e.defect = .endOfData 4 (after.length % 4)) := by
  obtain ⟨c', hc', hread⟩ := (reads_scanInstructions pool code.length ops.length).ok_of hreach
  obtain rfl : { rest := table ++ after, pos := pc } = c' := congrArg Tape.toCursor hc'
  obtain ⟨hle, hdecode⟩ := decodeFrom_reached hread
  have hlen : (table ++ after).length = table.length + after.length := List.length_append
  have hpos := htable.ne_nil
  have hsize : table.length ≤ code.length := by dsimp only at hle; omega
  rw [decode_eq_from, hdecode]
  refine ⟨t.length_targets pc, length_cases_table t after, fun hhigh => ?_, fun hlast => ?_⟩
  · have hread : readInstruction pool code.length { rest := table ++ after, pos := pc } = .ok ((pc, t.operation pc), _) :=
      takes_encoded htable (JumpTable.inRange hhigh) rfl hsize after
    have hrest := decodeRest_eq_from pool code.length { rest := after, pos := pc + table.length }
    rw [decodeFrom_cons (by dsimp only; omega) hread]
    change _ = (decodeRest pool code.length (Cursor.tape { rest := after, pos := pc + table.length })).map _
    rw [hrest]
    cases decodeFrom pool code.length { rest := after, pos := pc + table.length } <;> rfl
  · obtain ⟨e, he, hdefect⟩ := readInstruction_lastWord pool hlast htable after hsize
    rw [decodeFrom_error (by dsimp only; omega) he]
    exact ⟨noted e, rfl, (defect_noted e).trans hdefect⟩

def lowestTable : JumpTable where
  dflt := 23
  low := -0x80000000
  high := -0x7fffffff
  cases := [23, -1]
  dflt_fits := ⟨by decide, by decide⟩
  low_fits := ⟨by decide, by decide⟩
  high_fits := ⟨by decide, by decide⟩
  le := by decide
  complete := by decide
  cases_fit := by simp [Fits4]

def loadThis : List (Nat × Operation) := [(0, { op := .aload, slot := 0 })]

def lowestBytes : List UInt8 :=
  [0xaa, 0, 0, 0, 0, 0, 23, 0x80, 0, 0, 0, 0x80, 0, 0, 1, 0, 0, 0, 23, 255, 255, 255, 255]

theorem decode_jumpTable_lowest :
    decode ⟨#[]⟩ (0x2a :: lowestBytes ++ [0xb1]) =
      .ok (loadThis ++ [(1, { op := .tableswitch, target := 24, targets := [24, 0] }), (24, { op := .vreturn })]) := by
  have htable : Encodes 1 lowestTable.asm lowestBytes := .tableswitch [0, 0] _ _ _ _ (by decide) (by decide)
  have hreach : scanInstructions ⟨#[]⟩ (0x2a :: lowestBytes ++ [0xb1]).length loadThis.length
      { rest := 0x2a :: lowestBytes ++ [0xb1] } = .ok (loadThis, { rest := lowestBytes ++ [0xb1], pos := 1 }) := rfl
  have hreturn : Takes (readInstruction ⟨#[]⟩ 25) 24 [0xb1] (24, { op := .vreturn }) :=
    takes_encoded (.bare .vreturn) (show Asm.isBare .vreturn = true by decide) rfl (by decide)
  rw [(decode_jumpTable ⟨#[]⟩ lowestTable hreach htable).2.2.1 (by decide)]
  exact congrArg (Except.map _) ((decodeRest_eq_from _ _ ⟨[0xb1], 24⟩).trans (decodeFrom_cons (by decide) (hreturn [])))

def lastWordTable : JumpTable where
  dflt := 20
  low := 0x7fffffff
  high := 0x7fffffff
  cases := [20]
  dflt_fits := ⟨by decide, by decide⟩
  low_fits := ⟨by decide, by decide⟩
  high_fits := ⟨by decide, by decide⟩
  le := by decide
  complete := by decide
  cases_fit := by simp [Fits4]

/-- A well-formed table, with its one entry and a return after it, that is not accepted. -/
theorem lastWordTable_refused :
    Encodes 0 lastWordTable.asm [0xaa, 0, 0, 0, 0, 0, 0, 20, 127, 255, 255, 255, 127, 255, 255, 255, 0, 0, 0, 20] ∧
    ∃ e, decode ⟨#[]⟩ [0xaa, 0, 0, 0, 0, 0, 0, 20, 127, 255, 255, 255, 127, 255, 255, 255, 0, 0, 0, 20, 0xb1] = .error e ∧
      e.defect = .endOfData 4 1 := by
  have htable : Encodes 0 lastWordTable.asm _ := .tableswitch [0, 0, 0] _ _ _ _ (by decide) (by decide)
  refine ⟨htable, ?_⟩
  obtain ⟨e, he, hdefect⟩ := readInstruction_lastWord ⟨#[]⟩ rfl htable [0xb1] (show 20 ≤ 21 by decide)
  have hcode := decodeFrom_error (by decide) he
  exact ⟨noted e, (decode_eq_from _ _).trans hcode, (defect_noted e).trans hdefect⟩

end JvmLint.ClassFile
