import JvmLint.Proofs.ScannedCode

/-!
# Instruction encodings

The virtual machine has several encodings for some instructions: one-byte,
plain and wide loads, short and long constants and jumps. `Encodes` lists them
all. Decoding undoes each of them: whatever encodings are chosen, `decode`
gives the canonical instructions back, each with the offset it starts at.
-/

namespace JvmLint.ClassFile

/-! ## Instructions and their encodings -/

def signed2 (n : Int) : List UInt8 := be2 (n % 0x10000).toNat

def signed4 (n : Int) : List UInt8 := be4 (n % 0x100000000).toNat

def Fits2 (n : Int) : Prop := -0x8000 ≤ n ∧ n < 0x8000

def Fits4 (n : Int) : Prop := -0x80000000 ≤ n ∧ n < 0x80000000

/-- An instruction with its operands. Displacements count from where the instruction starts;
constants are numbers of the pool. -/
inductive Asm where
  | bare (op : Opcode)
  | access (op : Opcode) (slot : Nat)
  | ret (slot : Nat)
  | iinc (slot : Nat) (amount : Int)
  | bipush (value : UInt8)
  | sipush (value : Nat)
  | newarray (type : UInt8)
  | ldc (constant : Nat)
  | ldc2 (constant : Nat)
  | branch (op : Opcode) (displacement : Int)
  | goto (displacement : Int)
  | jsr (displacement : Int)
  | tableswitch (dflt low high : Int) (cases : List Int)
  | lookupswitch (dflt : Int) (cases : List (Int × Int))
  | member (op : Opcode) (constant : Nat)
  | invokeinterface (constant : Nat) (count : UInt8)
  | invokedynamic (constant : Nat)
  | type (op : Opcode) (constant : Nat)
  | multianewarray (constant : Nat) (dims : UInt8)

namespace Asm

def isBare (op : Opcode) : Bool :=
  op.within ⟨0x00⟩ ⟨0x0f⟩ || op.within ⟨0x2e⟩ ⟨0x35⟩ || op.within ⟨0x4f⟩ ⟨0x83⟩ || op.within ⟨0x85⟩ ⟨0x98⟩ ||
    op.within ⟨0xac⟩ ⟨0xb1⟩ || op.within ⟨0xbe⟩ ⟨0xbf⟩ || op.within ⟨0xc2⟩ ⟨0xc3⟩

def isLoad (op : Opcode) : Bool := op.within ⟨0x15⟩ ⟨0x19⟩

def isStore (op : Opcode) : Bool := op.within ⟨0x36⟩ ⟨0x3a⟩

def isBranch (op : Opcode) : Bool := op.within ⟨0x99⟩ ⟨0xa6⟩ || op.within ⟨0xc6⟩ ⟨0xc7⟩

def isMember (op : Opcode) : Bool := op.within ⟨0xb2⟩ ⟨0xb8⟩

def isType (op : Opcode) : Bool := op.byte = 0xbb || op.byte = 0xbd || op.byte = 0xc0 || op.byte = 0xc1

/-- The opcode is one of its group, and the operands fit the widest encoding. -/
def InRange : Asm → Prop
  | bare op => isBare op
  | access op slot => (isLoad op ∨ isStore op) ∧ slot < 0x10000
  | ret slot => slot < 0x10000
  | iinc slot amount => slot < 0x10000 ∧ Fits2 amount
  | bipush _ | newarray _ => True
  | sipush value => value < 0x10000
  | ldc constant | ldc2 constant => constant < 0x10000
  | branch op d => isBranch op ∧ Fits2 d
  | goto d | jsr d => Fits4 d
  | tableswitch dflt low high cases =>
    Fits4 dflt ∧ Fits4 low ∧ low ≤ high ∧ high < 0x7fffffff ∧ (cases.length : Int) = high - low + 1 ∧ ∀ d ∈ cases, Fits4 d
  | lookupswitch dflt cases => Fits4 dflt ∧ cases.length < 0x80000000 ∧ ∀ d ∈ cases, Fits4 d.1 ∧ Fits4 d.2
  | member op constant => isMember op ∧ constant < 0x10000
  | type op constant => isType op ∧ constant < 0x10000
  | invokeinterface constant _ | invokedynamic constant | multianewarray constant _ => constant < 0x10000

def operation (pool : ConstantPool) (pc : Nat) : Asm → Except Defect Operation
  | bare op => .ok { op }
  | access op slot => .ok { op, slot }
  | ret slot => .ok { op := .ret, slot }
  | iinc slot _ => .ok { op := .iinc, slot }
  | bipush _ => .ok { op := .bipush }
  | sipush _ => .ok { op := .sipush }
  | newarray _ => .ok { op := .newarray }
  | ldc _ => .ok { op := .ldc }
  | ldc2 _ => .ok { op := .ldc2W }
  | branch op d => .ok { op, target := pc + d }
  | goto d => .ok { op := .goto, target := pc + d }
  | jsr d => .ok { op := .jsr, target := pc + d }
  | tableswitch dflt _ _ cases => .ok { op := .tableswitch, target := pc + dflt, targets := cases.map (pc + ·) }
  | lookupswitch dflt cases =>
    .ok { op := .lookupswitch, target := pc + dflt, targets := cases.map fun d => pc + d.2 }
  | member op constant => (pool.member constant).map fun (owner, name, desc) => { op, owner, name, desc }
  | invokeinterface constant _ =>
    (pool.member constant).map fun (owner, name, desc) => { op := .invokeinterface, owner, name, desc }
  | invokedynamic constant => (pool.dynamic constant).map fun (name, desc) => { op := .invokedynamic, name, desc }
  | type op constant => (pool.className constant).map fun type => { op, type }
  | multianewarray constant _ => (pool.className constant).map fun type => { op := .multianewarray, type }

def Resolves (pool : ConstantPool) (i : Asm) : Prop := ∀ pc, ∃ o, i.operation pool pc = .ok o

def oneByte (op : Opcode) (slot : Nat) : UInt8 :=
  if isLoad op then 0x1a + 4 * (op.byte - 0x15) + UInt8.ofNat slot else 0x3b + 4 * (op.byte - 0x36) + UInt8.ofNat slot

end Asm

/-- The encodings of an instruction that starts at `pc`. -/
inductive Encodes (pc : Nat) : Asm → List UInt8 → Prop
  | bare (op) : Encodes pc (.bare op) [op.byte]
  | oneByte {op slot} : slot < 4 → Encodes pc (.access op slot) [Asm.oneByte op slot]
  | access {op slot} : slot < 0x100 → Encodes pc (.access op slot) [op.byte, UInt8.ofNat slot]
  | wideAccess {op slot} : Encodes pc (.access op slot) (0xc4 :: op.byte :: be2 slot)
  | ret {slot} : slot < 0x100 → Encodes pc (.ret slot) [0xa9, UInt8.ofNat slot]
  | wideRet {slot} : Encodes pc (.ret slot) (0xc4 :: 0xa9 :: be2 slot)
  | iinc {slot amount} : slot < 0x100 → -0x80 ≤ amount → amount < 0x80 →
    Encodes pc (.iinc slot amount) [0x84, UInt8.ofNat slot, UInt8.ofNat (amount % 0x100).toNat]
  | wideIinc {slot amount} : Encodes pc (.iinc slot amount) (0xc4 :: 0x84 :: be2 slot ++ signed2 amount)
  | bipush (value) : Encodes pc (.bipush value) [0x10, value]
  | sipush (value) : Encodes pc (.sipush value) (0x11 :: be2 value)
  | newarray (type) : Encodes pc (.newarray type) [0xbc, type]
  | ldc {constant} : constant < 0x100 → Encodes pc (.ldc constant) [0x12, UInt8.ofNat constant]
  | ldcW (constant) : Encodes pc (.ldc constant) (0x13 :: be2 constant)
  | ldc2 (constant) : Encodes pc (.ldc2 constant) (0x14 :: be2 constant)
  | branch (op d) : Encodes pc (.branch op d) (op.byte :: signed2 d)
  | goto {d} : Fits2 d → Encodes pc (.goto d) (0xa7 :: signed2 d)
  | gotoW (d) : Encodes pc (.goto d) (0xc8 :: signed4 d)
  | jsr {d} : Fits2 d → Encodes pc (.jsr d) (0xa8 :: signed2 d)
  | jsrW (d) : Encodes pc (.jsr d) (0xc9 :: signed4 d)
  | tableswitch (pad : List UInt8) (dflt low high cases) : pad.length < 4 → (pc + 1 + pad.length) % 4 = 0 →
    Encodes pc (.tableswitch dflt low high cases)
      (0xaa :: pad ++ signed4 dflt ++ signed4 low ++ signed4 high ++ cases.flatMap signed4)
  | lookupswitch (pad : List UInt8) (dflt cases) : pad.length < 4 → (pc + 1 + pad.length) % 4 = 0 →
    Encodes pc (.lookupswitch dflt cases)
      (0xab :: pad ++ signed4 dflt ++ be4 cases.length ++ cases.flatMap fun d => signed4 d.1 ++ signed4 d.2)
  | member (op constant) : Encodes pc (.member op constant) (op.byte :: be2 constant)
  | invokeinterface (constant count) : Encodes pc (.invokeinterface constant count) (0xb9 :: be2 constant ++ [count, 0])
  | invokedynamic (constant) : Encodes pc (.invokedynamic constant) (0xba :: be2 constant ++ [0, 0])
  | type (op constant) : Encodes pc (.type op constant) (op.byte :: be2 constant)
  | multianewarray (constant dims) : Encodes pc (.multianewarray constant dims) (0xc5 :: be2 constant ++ [dims])

/-- From `pc` on, `code` holds an encoding of each of the instructions, one after the other; `ops` are
their canonical forms with the offsets they start at. -/
inductive Assembled (pool : ConstantPool) : Nat → List Asm → List UInt8 → List (Nat × Operation) → Prop
  | nil (pc) : Assembled pool pc [] [] []
  | cons {pc i enc o is code ops} : Encodes pc i enc → i.operation pool pc = .ok o →
    Assembled pool (pc + enc.length) is code ops → Assembled pool pc (i :: is) (enc ++ code) ((pc, o) :: ops)

/-! ## Signed words -/

theorem bmod_unsigned {n : Int} {m : Nat} (hm : 0 < m) (hlo : -(m / 2 : Int) ≤ n) (hhi : n < (m + 1 : Int) / 2) :
    Int.bmod (n % m).toNat m = n := by
  rw [Int.toNat_of_nonneg (Int.emod_nonneg n (by omega)), Int.emod_bmod, Int.bmod_eq_of_le hlo hhi]

theorem takes_i2 {n : Int} (h : Fits2 n) (pos : Nat) : Takes Reader.i2 pos (signed2 n) n := by
  obtain ⟨hlo, hhi⟩ := h
  have hn : (n % 0x10000).toNat < 0x10000 := by omega
  have ht := Takes.bind_pure (f := fun w : Nat => Int.bmod w 0x10000) (takes_u2 hn pos)
  have hb : Int.bmod (n % 0x10000).toNat 0x10000 = n := bmod_unsigned (m := 0x10000) (by decide) (by omega) (by omega)
  rwa [hb] at ht

theorem takes_i4 {n : Int} (h : Fits4 n) (pos : Nat) : Takes Reader.i4 pos (signed4 n) n := by
  obtain ⟨hlo, hhi⟩ := h
  have hn : (n % 0x100000000).toNat < 0x100000000 := by omega
  have ht := Takes.bind_pure (f := fun w : Nat => Int.bmod w 0x100000000) (takes_u4 hn pos)
  have hb : Int.bmod (n % 0x100000000).toNat 0x100000000 = n :=
    bmod_unsigned (m := 0x100000000) (by decide) (by omega) (by omega)
  rwa [hb] at ht

@[simp] theorem length_signed4 (n : Int) : (signed4 n).length = 4 := rfl

theorem length_flatMap_const {α : Type} (l : List α) {f : α → List UInt8} {n : Nat} (h : ∀ a, (f a).length = n) :
    (l.flatMap f).length = n * l.length := by
  induction l with
  | nil => rfl
  | cons a l ih => rw [List.flatMap_cons, List.length_append, h, ih, List.length_cons, Nat.mul_succ, Nat.add_comm]

/-! ## Layouts of the opcode groups -/

theorem layout_bare : ∀ op, Asm.isBare op = true → layout op = .ignored op 0 :=
  forall_opcode (by decide +kernel)

theorem layout_access : ∀ op, Asm.isLoad op = true ∨ Asm.isStore op = true → layout op = .slot :=
  forall_opcode (by decide +kernel)

theorem layout_oneByte : ∀ op, Asm.isLoad op = true ∨ Asm.isStore op = true → ∀ slot < 4,
    layout ⟨Asm.oneByte op slot⟩ = .implied op slot :=
  forall_opcode (by decide +kernel)

theorem layout_branch : ∀ op, Asm.isBranch op = true → layout op = .branch :=
  forall_opcode (by decide +kernel)

theorem layout_member : ∀ op, Asm.isMember op = true → layout op = .member 0 :=
  forall_opcode (by decide +kernel)

theorem layout_type : ∀ op, Asm.isType op = true → layout op = .type 0 :=
  forall_opcode (by decide +kernel)

/-! ## Operands by layout -/

section
variable {pool : ConstantPool} {size pc pos : Nat} {op : Opcode}

theorem takes_implied {general : Opcode} {slot : Nat} (hl : layout op = .implied general slot) :
    Takes (readOperands pool size pc op) pos [] { op := general, slot } := by
  unfold readOperands
  simp only [hl]
  exact takes_pure _ pos

theorem takes_slot (hl : layout op = .slot) {slot : Nat} (hs : slot < 0x100) :
    Takes (readOperands pool size pc op) pos [UInt8.ofNat slot] { op, slot } := by
  unfold readOperands
  simp only [hl]
  have ht := Takes.bind_pure (f := fun n : Nat => ({ op, slot := n } : Operation)) (takes_u1 (UInt8.ofNat slot) pos)
  rwa [UInt8.toNat_ofNat_of_lt' hs] at ht

theorem takes_increment (hl : layout op = .increment) {slot : Nat} (hs : slot < 0x100) (amount : UInt8) :
    Takes (readOperands pool size pc op) pos [UInt8.ofNat slot, amount] { op, slot } := by
  unfold readOperands
  simp only [hl]
  have hslot := takes_u1 (UInt8.ofNat slot) pos
  rw [UInt8.toNat_ofNat_of_lt' hs] at hslot
  exact hslot.bind (Takes.bind_pure (takes_skip [amount] _))

theorem takes_ignored {general : Opcode} {n : Nat} (hl : layout op = .ignored general n) {enc : List UInt8}
    (hn : enc.length = n) : Takes (readOperands pool size pc op) pos enc { op := general } := by
  unfold readOperands
  simp only [hl]
  subst hn
  exact Takes.bind_pure (takes_skip enc pos)

theorem takes_branch (hl : layout op = .branch) {d : Int} (hd : Fits2 d) :
    Takes (readOperands pool size pc op) pos (signed2 d) { op, target := pc + d } := by
  unfold readOperands
  simp only [hl]
  exact Takes.bind_pure (takes_i2 hd pos)

theorem takes_wideBranch {general : Opcode} (hl : layout op = .wideBranch general) {d : Int} (hd : Fits4 d) :
    Takes (readOperands pool size pc op) pos (signed4 d) { op := general, target := pc + d } := by
  unfold readOperands
  simp only [hl]
  exact Takes.bind_pure (takes_i4 hd pos)

/-- A constant by its number, and what follows it. -/
theorem takes_lookup {α : Type} {found : Nat → Except Defect α} {constant : Nat} {a : α} {key value : String}
    {f : α → Reader Operation} {enc : List UInt8} {o : Operation} (hc : constant < 0x10000)
    (hp : found constant = .ok a) (hf : Takes (f a) (pos + 2) enc o) :
    Takes (do f (← Reader.noting key value (Reader.constant (found (← Reader.index))))) pos
      (be2 constant ++ enc) o :=
  (takes_index hc pos).bind (Takes.bind_still ((takes_constant hp _).noting _ _) hf)

theorem takes_member {n : Nat} (hl : layout op = .member n) {constant : Nat} (hc : constant < 0x10000)
    {owner name desc : String} (hp : pool.member constant = .ok (owner, name, desc)) (enc : List UInt8)
    (hn : enc.length = n) :
    Takes (readOperands pool size pc op) pos (be2 constant ++ enc) { op, owner, name, desc } := by
  unfold readOperands
  simp only [hl]
  subst hn
  exact takes_lookup hc hp (Takes.bind_pure (takes_skip enc _))

theorem takes_dynamic (hl : layout op = .dynamic) {constant : Nat} (hc : constant < 0x10000)
    {name desc : String} (hp : pool.dynamic constant = .ok (name, desc)) :
    Takes (readOperands pool size pc op) pos (be2 constant ++ [0, 0]) { op, name, desc } := by
  unfold readOperands
  simp only [hl]
  exact takes_lookup hc hp (Takes.bind_pure (takes_skip [0, 0] _))

theorem takes_type {n : Nat} (hl : layout op = .type n) {constant : Nat} (hc : constant < 0x10000)
    {type : String} (hp : pool.className constant = .ok type) (enc : List UInt8) (hn : enc.length = n) :
    Takes (readOperands pool size pc op) pos (be2 constant ++ enc) { op, type } := by
  unfold readOperands
  simp only [hl]
  subst hn
  exact takes_lookup hc hp (Takes.bind_pure (takes_skip enc _))

theorem takes_wideSlot (hl : layout op = .slot) {slot : Nat} (hs : slot < 0x10000) :
    Takes readWide pos (op.byte :: be2 slot) { op, slot } := by
  refine (takes_u1 op.byte pos).bind ((takes_u2 hs _).bind_end ?_)
  simp only [UInt8.ofNat_toNat, hl]
  exact takes_pure _ _

theorem takes_wideIncrement (hl : layout op = .increment) {slot : Nat} (hs : slot < 0x10000) {enc : List UInt8}
    (hn : enc.length = 2) : Takes readWide pos (op.byte :: be2 slot ++ enc) { op, slot } := by
  refine (takes_u1 op.byte pos).bind ((takes_u2 hs _).bind ?_)
  simp only [UInt8.ofNat_toNat, hl]
  rw [← hn]
  exact Takes.bind_pure (takes_skip enc _)

theorem takes_padding {α : Type} {pad enc : List UInt8} {f : Unit → Reader α} {a : α} (h4 : pad.length < 4)
    (ha : (pos + pad.length) % 4 = 0) (hf : Takes (f ()) (pos + pad.length) enc a) :
    Takes (Reader.position >>= fun p => Reader.skip (padding p) >>= f) pos (pad ++ enc) a := by
  have hpad : padding pos = pad.length := by unfold padding; omega
  refine Takes.bind_still (a := pos) (fun _ => rfl) ?_
  rw [hpad]
  exact (takes_skip pad pos).bind hf

theorem takes_remaining {α : Type} {f : Nat → Reader α} {enc : List UInt8} {a : α}
    (h : ∀ n, Takes (f n) pos enc a) : Takes (Reader.remaining >>= f) pos enc a :=
  fun tail => h _ tail

/-- The bounds of a table pass the check when its entries fit in the code. -/
theorem table_accepted {low high : Int} {n : Nat} (hn : (n : Int) = high - low + 1) (hlow : Fits4 low)
    (hle : low ≤ high) (hsize : n ≤ size) :
    ¬ (high < low || (size : Int) ≤ Int.bmod (high - low) 0x100000000) = true := by
  obtain ⟨hlo, _⟩ := hlow
  have hb : Int.bmod (high - low) 0x100000000 ≤ high - low := by
    rw [Int.bmod_eq_emod]; split <;> omega
  simp only [Bool.or_eq_true, decide_eq_true_eq]
  omega

theorem takes_table {pad : List UInt8} {dflt low high : Int} {cases : List Int} (h4 : pad.length < 4)
    (ha : (pos + pad.length) % 4 = 0) (hr : (Asm.tableswitch dflt low high cases).InRange)
    (hsize : cases.length ≤ size) :
    Takes (readTable size pc op) pos (pad ++ signed4 dflt ++ signed4 low ++ signed4 high ++ cases.flatMap signed4)
      { op, target := pc + dflt, targets := cases.map (pc + ·) } := by
  obtain ⟨hdflt, hlow, hle, hhigh, hlen, hcases⟩ := hr
  have hhigh4 : Fits4 high := ⟨by have := hlow.1; omega, by omega⟩
  have htable : ∀ n, tableSize low high n = cases.length := by
    intro n
    unfold tableSize
    rw [if_neg (by omega)]
    omega
  unfold readTable
  simp only [List.append_assoc]
  refine takes_padding h4 ha ((takes_i4 hdflt _).bind ((takes_i4 hlow _).bind ((takes_i4 hhigh4 _).bind ?_)))
  rw [if_neg (table_accepted hlen hlow hle hsize)]
  refine takes_remaining fun n => ?_
  rw [htable n]
  exact Takes.bind_pure (takes_list fun d hd p => takes_i4 (hcases d hd) p)

theorem takes_pairs {pad : List UInt8} {dflt : Int} {cases : List (Int × Int)} (h4 : pad.length < 4)
    (ha : (pos + pad.length) % 4 = 0) (hr : (Asm.lookupswitch dflt cases).InRange) (hsize : 8 * cases.length ≤ size) :
    Takes (readPairs size pc op) pos
      (pad ++ signed4 dflt ++ be4 cases.length ++ cases.flatMap fun d => signed4 d.1 ++ signed4 d.2)
      { op, target := pc + dflt, targets := cases.map fun d => pc + d.2 } := by
  obtain ⟨hdflt, hlen, hcases⟩ := hr
  have hcount : Takes Reader.i4 (pos + pad.length + 4) (be4 cases.length) (cases.length : Int) := by
    have ht := takes_i4 (n := cases.length) ⟨by omega, by omega⟩ (pos + pad.length + 4)
    rwa [show signed4 cases.length = be4 cases.length by unfold signed4; congr 1; omega] at ht
  have hpair : ∀ d ∈ cases, ∀ p, Takes (do Reader.skip 4; Reader.i4) p (signed4 d.1 ++ signed4 d.2) d.2 :=
    fun d hd p => (takes_skip (signed4 d.1) p).bind (takes_i4 (hcases d hd).2 _)
  unfold readPairs
  simp only [List.append_assoc]
  refine takes_padding h4 ha ((takes_i4 hdflt _).bind (hcount.bind ?_))
  rw [if_neg (by simp; omega), Int.toNat_natCast]
  have htargets : (cases.map fun d => (pc + d.2 : Label)) = (cases.map (·.2)).map ((pc : Int) + ·) := by
    rw [List.map_map]; rfl
  rw [htargets]
  exact Takes.bind_pure (takes_times hpair)

/-! ## Instructions -/

theorem takes_readInstruction {b : UInt8} {operands : List UInt8} {o : Operation}
    (h : Takes (readOperands pool size pc ⟨b⟩) (pc + 1) operands o) :
    Takes (readInstruction pool size) pc (b :: operands) (pc, o) := by
  refine Takes.bind_still (a := pc) (fun _ => rfl) ((takes_u1 b pc).bind ?_)
  rw [UInt8.ofNat_toNat]
  exact Takes.bind_pure h

/-- An instruction is read back from each of its encodings. -/
theorem takes_encoded {i : Asm} {enc : List UInt8} {o : Operation} (henc : Encodes pc i enc) (hr : i.InRange)
    (ho : i.operation pool pc = .ok o) (hsize : enc.length ≤ size) :
    Takes (readInstruction pool size) pc enc (pc, o) := by
  cases henc with
  | bare op =>
    cases ho
    exact takes_readInstruction (takes_ignored (layout_bare op hr) rfl)
  | oneByte hs =>
    cases ho
    exact takes_readInstruction (takes_implied (layout_oneByte _ hr.1 _ hs))
  | access hs =>
    cases ho
    exact takes_readInstruction (takes_slot (layout_access _ hr.1) hs)
  | wideAccess =>
    cases ho
    exact takes_readInstruction (takes_wideSlot (layout_access _ hr.1) hr.2)
  | ret hs =>
    cases ho
    exact takes_readInstruction (takes_slot rfl hs)
  | wideRet =>
    cases ho
    exact takes_readInstruction (takes_wideSlot (show layout .ret = .slot from rfl) hr)
  | iinc hs _ _ =>
    cases ho
    exact takes_readInstruction (takes_increment rfl hs _)
  | wideIinc =>
    cases ho
    exact takes_readInstruction (takes_wideIncrement (show layout .iinc = .increment from rfl) hr.1 rfl)
  | bipush value => cases ho; exact takes_readInstruction (takes_ignored rfl rfl)
  | sipush value => cases ho; exact takes_readInstruction (takes_ignored rfl rfl)
  | newarray type => cases ho; exact takes_readInstruction (takes_ignored rfl rfl)
  | ldc _ => cases ho; exact takes_readInstruction (takes_ignored rfl rfl)
  | ldcW constant => cases ho; exact takes_readInstruction (takes_ignored rfl rfl)
  | ldc2 constant => cases ho; exact takes_readInstruction (takes_ignored rfl rfl)
  | branch op d =>
    cases ho
    exact takes_readInstruction (takes_branch (layout_branch op hr.1) hr.2)
  | goto hd => cases ho; exact takes_readInstruction (takes_branch rfl hd)
  | gotoW d => cases ho; exact takes_readInstruction (takes_wideBranch rfl hr)
  | jsr hd => cases ho; exact takes_readInstruction (takes_branch rfl hd)
  | jsrW d => cases ho; exact takes_readInstruction (takes_wideBranch rfl hr)
  | tableswitch pad dflt low high cases h4 ha =>
    cases ho
    refine takes_readInstruction (takes_table h4 ha hr ?_)
    have hl := length_flatMap_const cases length_signed4
    simp only [List.length_append, hl] at hsize
    omega
  | lookupswitch pad dflt cases h4 ha =>
    cases ho
    refine takes_readInstruction (takes_pairs h4 ha hr ?_)
    have hl := length_flatMap_const cases (n := 8) fun d => show (signed4 d.1 ++ signed4 d.2).length = 8 from rfl
    simp only [List.length_append, hl] at hsize
    omega
  | member op constant =>
    obtain ⟨⟨owner, name, desc⟩, hp, rfl⟩ := map_eq_ok ho
    exact takes_readInstruction (takes_member (layout_member op hr.1) hr.2 hp [] rfl)
  | invokeinterface constant count =>
    obtain ⟨⟨owner, name, desc⟩, hp, rfl⟩ := map_eq_ok ho
    exact takes_readInstruction (takes_member rfl hr hp [count, 0] rfl)
  | invokedynamic constant =>
    obtain ⟨⟨name, desc⟩, hp, rfl⟩ := map_eq_ok ho
    exact takes_readInstruction (takes_dynamic rfl hr hp)
  | type op constant =>
    obtain ⟨type, hp, rfl⟩ := map_eq_ok ho
    exact takes_readInstruction (takes_type (layout_type op hr.1) hr.2 hp [] rfl)
  | multianewarray constant dims =>
    obtain ⟨type, hp, rfl⟩ := map_eq_ok ho
    exact takes_readInstruction (takes_type rfl hr hp [dims] rfl)

theorem Encodes.ne_nil {i : Asm} {enc : List UInt8} (h : Encodes pc i enc) : 0 < enc.length := by
  cases h <;> simp

/-- Assembled code is read back from its first byte to its last. -/
theorem readInstructions_assembled {is : List Asm} {code : List UInt8} {ops : List (Nat × Operation)}
    (h : Assembled pool pc is code ops) (hr : ∀ i ∈ is, i.InRange) (hsize : code.length ≤ size) :
    ∀ {fuel : Nat}, code.length ≤ fuel →
      readInstructions pool size fuel { rest := code, pos := pc } =
        .ok (ops, { rest := [], pos := pc + code.length }) := by
  induction h with
  | nil pc =>
    intro fuel _
    cases fuel <;> rfl
  | @cons pc i enc o is code ops henc ho _ ih =>
    intro fuel hfuel
    have hpos := henc.ne_nil
    rw [List.length_append] at hsize hfuel
    obtain ⟨fuel, rfl⟩ : ∃ k, fuel = k + 1 := ⟨fuel - 1, by omega⟩
    have hfirst := takes_encoded henc (hr i (by simp)) ho (Nat.le_trans (Nat.le_add_right _ _) hsize) code
    have hrest := ih (fun j hj => hr j (by simp [hj])) (by omega) (by omega : code.length ≤ fuel)
    unfold readInstructions
    refine (bind_ok (show Reader.remaining _ = .ok ((enc ++ code).length, _) from rfl)).trans ?_
    rw [if_neg (by rw [List.length_append]; omega), bind_ok hfirst, bind_ok hrest, List.length_append,
      ← Nat.add_assoc]
    rfl

/-- The widest encoding always exists. -/
theorem exists_encoding (pc : Nat) (i : Asm) : ∃ enc, Encodes pc i enc := by
  have hpad : (List.replicate (padding (pc + 1)) (0 : UInt8)).length < 4 ∧
      (pc + 1 + (List.replicate (padding (pc + 1)) (0 : UInt8)).length) % 4 = 0 := by
    rw [List.length_replicate]; unfold padding; omega
  cases i with
  | bare op => exact ⟨_, .bare op⟩
  | access op slot => exact ⟨_, .wideAccess⟩
  | ret slot => exact ⟨_, .wideRet⟩
  | iinc slot amount => exact ⟨_, .wideIinc⟩
  | bipush value => exact ⟨_, .bipush value⟩
  | sipush value => exact ⟨_, .sipush value⟩
  | newarray type => exact ⟨_, .newarray type⟩
  | ldc constant => exact ⟨_, .ldcW constant⟩
  | ldc2 constant => exact ⟨_, .ldc2 constant⟩
  | branch op d => exact ⟨_, .branch op d⟩
  | goto d => exact ⟨_, .gotoW d⟩
  | jsr d => exact ⟨_, .jsrW d⟩
  | tableswitch dflt low high cases => exact ⟨_, .tableswitch _ dflt low high cases hpad.1 hpad.2⟩
  | lookupswitch dflt cases => exact ⟨_, .lookupswitch _ dflt cases hpad.1 hpad.2⟩
  | member op constant => exact ⟨_, .member op constant⟩
  | invokeinterface constant count => exact ⟨_, .invokeinterface constant count⟩
  | invokedynamic constant => exact ⟨_, .invokedynamic constant⟩
  | type op constant => exact ⟨_, .type op constant⟩
  | multianewarray constant dims => exact ⟨_, .multianewarray constant dims⟩

theorem exists_assembled : ∀ (is : List Asm) (pc : Nat), (∀ i ∈ is, i.Resolves pool) →
    ∃ code ops, Assembled pool pc is code ops
  | [], pc, _ => ⟨[], [], .nil pc⟩
  | i :: is, pc, hp => by
    obtain ⟨enc, henc⟩ := exists_encoding pc i
    obtain ⟨o, ho⟩ := hp i (by simp) pc
    obtain ⟨code, ops, h⟩ := exists_assembled is (pc + enc.length) fun j hj => hp j (by simp [hj])
    exact ⟨_, _, .cons henc ho h⟩

end

/-- Instructions with operands in range and constants of the right kind can be assembled, and
whatever encodings are chosen, decoding gives their canonical forms with their offsets. -/
theorem decode_assembled (pool : ConstantPool) (is : List Asm) (hr : ∀ i ∈ is, i.InRange)
    (hp : ∀ i ∈ is, i.Resolves pool) :
    (∃ code ops, Assembled pool 0 is code ops) ∧
      ∀ code ops, Assembled pool 0 is code ops → decode pool code = .ok ops := by
  refine ⟨exists_assembled is 0 hp, fun code ops h => ?_⟩
  have hread := readInstructions_assembled h hr (Nat.le_refl _) (Nat.le_refl code.length)
  rw [decode_eq_from, decodeFrom, hread]

/-- A one-byte load, a padded table after it, an allocation, and a long jump back. -/
theorem decode_assembled_mixed :
    decode ⟨#[.unused, .utf8 "A", .class 1]⟩
      [0x2a, 0xaa, 0, 0, 0, 0, 0, 24, 0, 0, 0, 5, 0, 0, 0, 6, 0, 0, 0, 23, 255, 255, 255, 255,
        0xbb, 0, 2, 0xc8, 255, 255, 255, 229] =
      .ok [(0, { op := .aload, slot := 0 }), (1, { op := .tableswitch, target := 25, targets := [24, 0] }),
        (24, { op := .new, type := "A" }), (27, { op := .goto, target := 0 })] := by
  have h : Assembled ⟨#[.unused, .utf8 "A", .class 1]⟩ 0
      [.access .aload 0, .tableswitch 24 5 6 [23, -1], .type .new 2, .goto (-27)] _ _ :=
    .cons (.oneByte (by decide)) rfl (.cons (.tableswitch [0, 0] 24 5 6 [23, -1] (by decide) (by decide)) rfl
      (.cons (.type .new 2) rfl (.cons (.gotoW (-27)) rfl (.nil _))))
  refine (decode_assembled _ _ ?_ ?_).2 _ _ h
  · simp only [List.forall_mem_cons, List.not_mem_nil, false_implies, implies_true, and_true, Asm.InRange, Fits4]
    decide
  · simp only [List.forall_mem_cons, Asm.Resolves]
    exact ⟨fun _ => ⟨_, rfl⟩, fun _ => ⟨_, rfl⟩, fun _ => ⟨_, rfl⟩, fun _ => ⟨_, rfl⟩, by simp⟩

end JvmLint.ClassFile
