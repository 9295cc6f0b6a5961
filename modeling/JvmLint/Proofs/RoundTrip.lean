import JvmLint.Proofs.ModifiedUtf8
import JvmLint.Proofs.ScannedClasses

/-!
# Assembled classes read back

The assembler numbers constants while it writes the parts that mention them,
and the pool goes in front of all of them in the end. `Writes` says what a part
relies on: a number stands for its constant in every pool that grows from the
one it was given out in. So each part reads back against the finished pool.
-/

namespace JvmLint.ClassFile

open Assembly (Pool Member)

/-! ## Pools of texts and classes -/

def Writable (s : String) : Prop := (∀ c ∈ s.toList, c.toNat < 0x10000) ∧ (utf8Bytes s).length < 0x10000

instance : DecidablePred Writable := fun s =>
  @instDecidableAnd _ _ (List.decidableBAll (fun c => c.toNat < 0x10000) s.toList) _

def spelled : Constant → List UInt8
  | .utf8 s => 1 :: be2 (utf8Bytes s).length ++ utf8Bytes s
  | .class i => 7 :: be2 i
  | _ => []

def poolOf (cs : List Constant) : ConstantPool := { constants := (.unused :: cs).toArray }

def Numbered (cs : List Constant) (i : Nat) (c : Constant) : Prop := (Constant.unused :: cs)[i]? = some c

theorem Numbered.le {cs : List Constant} {i : Nat} {c : Constant} (h : Numbered cs i c) : i ≤ cs.length := by
  have hlt := (List.getElem?_eq_some_iff.mp h).1
  rw [List.length_cons] at hlt
  omega

theorem Numbered.append {cs : List Constant} {i : Nat} {c : Constant} (h : Numbered cs i c) (more : List Constant) :
    Numbered (cs ++ more) i c := by
  have hlt := (List.getElem?_eq_some_iff.mp h).1
  unfold Numbered
  rw [← List.cons_append, List.getElem?_append_left hlt]
  exact h

theorem numbered_next (cs : List Constant) (c : Constant) : Numbered (cs ++ [c]) (cs.length + 1) c := by
  unfold Numbered
  simp

theorem get_of_numbered {cs : List Constant} {i : Nat} {c : Constant} (h : Numbered cs i c) (hc : c ≠ .unused) :
    (poolOf cs).get i = .ok c := by
  have hi : i ≠ 0 := by
    rintro rfl
    exact hc (Option.some.inj h).symm
  have hget : (poolOf cs).constants[i]? = some c := by
    unfold poolOf
    rw [List.getElem?_toArray]
    exact h
  unfold ConstantPool.get
  rw [hget]
  exact if_neg hi

theorem utf8_of_numbered {cs : List Constant} {i : Nat} {s : String} (h : Numbered cs i (.utf8 s)) :
    (poolOf cs).utf8 i = .ok s := by
  unfold ConstantPool.utf8
  rw [get_of_numbered h (by simp)]
  rfl

theorem className_of_numbered {cs : List Constant} {i j : Nat} {s : String} (h : Numbered cs i (.class j))
    (hj : Numbered cs j (.utf8 s)) : (poolOf cs).className i = .ok s := by
  unfold ConstantPool.className
  rw [get_of_numbered h (by simp)]
  exact utf8_of_numbered hj

/-! ## Reading the pool -/

/-- The constants that the assembler writes: texts, and classes named by one of the numbers up to `n`. -/
inductive Spellable (n : Nat) : Constant → Prop
  | text {s} : Writable s → Spellable n (.utf8 s)
  | name {i} : i ≤ n → Spellable n (.class i)

theorem Spellable.mono {m n : Nat} {c : Constant} (h : Spellable m c) (hle : m ≤ n) : Spellable n c := by
  cases h with
  | text hs => exact .text hs
  | name hi => exact .name (Nat.le_trans hi hle)

section
variable {n : Nat} (hn : n < 0x10000)
include hn

theorem takes_readConstant {c : Constant} (h : Spellable n c) :
    ∃ (tag : UInt8) (enc : List UInt8), spelled c = tag :: enc ∧ ConstantPool.isDouble tag.toNat = false ∧
      ∀ number pos, Takes (ConstantPool.readConstant number tag.toNat) pos enc c := by
  cases h with
  | @text s hs =>
    refine ⟨1, _, rfl, rfl, fun number pos => ?_⟩
    have ht : Takes (do return Constant.utf8 (ModifiedUtf8.decode (← Reader.bytes (← Reader.u2)))) pos
        (be2 (utf8Bytes s).length ++ utf8Bytes s) (.utf8 (ModifiedUtf8.decode (utf8Bytes s))) :=
      (takes_u2 hs.2 pos).bind (Takes.bind_pure (takes_bytes _ _))
    rw [ModifiedUtf8.decode_utf8Bytes hs.1] at ht
    exact ht
  | name hi =>
    exact ⟨7, _, rfl, rfl, fun number pos => Takes.bind_pure (takes_u2 (Nat.lt_of_le_of_lt hi hn) pos)⟩

theorem takes_readFrom : ∀ (cs : List Constant) (number pos : Nat), (∀ c ∈ cs, Spellable n c) →
    Takes (ConstantPool.readFrom number cs.length) pos (cs.flatMap spelled) cs
  | [], number, pos, _ => takes_pure [] pos
  | [c], number, pos, h => by
    obtain ⟨tag, enc, henc, _, ht⟩ := takes_readConstant hn (h c (by simp))
    rw [List.flatMap_cons, List.flatMap_nil, List.append_nil, henc]
    exact (takes_u1 tag pos).bind (Takes.bind_pure (ht number _))
  | c :: d :: cs, number, pos, h => by
    obtain ⟨tag, enc, henc, hdouble, ht⟩ := takes_readConstant hn (h c (by simp))
    have hrest := fun p => takes_readFrom (d :: cs) (number + 1) p fun e he => h e (by simp [he])
    rw [List.flatMap_cons, henc]
    refine (takes_u1 tag pos).bind ((ht number _).bind ?_)
    rw [hdouble]
    exact Takes.bind_pure (hrest _)

end

theorem takes_readPool {cs : List Constant} (h : ∀ c ∈ cs, Spellable cs.length c) (hlen : cs.length < 0xffff) (pos : Nat) :
    Takes ConstantPool.read pos (be2 (cs.length + 1) ++ cs.flatMap spelled) (poolOf cs) := by
  refine (takes_u2 (by omega) pos).bind ?_
  rw [if_neg (by omega), Nat.add_sub_cancel]
  exact Takes.bind_pure (takes_readFrom (by omega) cs 1 _ h)

/-! ## Writing to the pool -/

structure Holds (p : Pool) (cs : List Constant) : Prop where
  bytes : p.bytes = cs.flatMap spelled
  next : p.next = cs.length + 1
  texts : ∀ s i, p.texts.lookup s = some i → Numbered cs i (.utf8 s)
  spellable : ∀ c ∈ cs, Spellable cs.length c

theorem holds_empty : Holds {} [] := ⟨rfl, rfl, by simp, by simp⟩

theorem Holds.push {p : Pool} {cs : List Constant} (h : Holds p cs) {c : Constant} (hc : Spellable cs.length c) :
    Holds (p.push (spelled c)) (cs ++ [c]) := by
  refine ⟨?_, ?_, fun s i hi => (h.texts s i hi).append _, ?_⟩
  · simp [Pool.push, h.bytes]
  · simp [Pool.push, h.next]
  · intro d hd
    have hle : cs.length ≤ (cs ++ [c]).length := by simp
    rcases List.mem_append.mp hd with hd | hd
    · exact (h.spellable d hd).mono hle
    · rw [List.mem_singleton.mp hd]
      exact hc.mono hle

theorem utf8_run (s : String) (p : Pool) :
    Assembly.utf8 s p = match p.texts.lookup s with
      | some i => (i, p)
      | none => (p.next, { p.push (spelled (.utf8 s)) with texts := (s, p.next) :: p.texts }) := by
  unfold Assembly.utf8
  change (match p.texts.lookup s with
    | some i => (pure i : StateM Pool Nat)
    | none => do
      set { p.push (spelled (.utf8 s)) with texts := (s, p.next) :: p.texts }
      return p.next) p = _
  cases p.texts.lookup s <;> rfl

theorem utf8_holds {p : Pool} {cs : List Constant} (h : Holds p cs) {s : String} (hs : Writable s) :
    ∃ more, Holds (Assembly.utf8 s p).2 (cs ++ more) ∧ Numbered (cs ++ more) (Assembly.utf8 s p).1 (.utf8 s) := by
  rw [utf8_run]
  cases hl : p.texts.lookup s with
  | some i => exact ⟨[], by rwa [List.append_nil], by rw [List.append_nil]; exact h.texts s i hl⟩
  | none =>
    have hpush := h.push (.text hs)
    have hnumber : Numbered (cs ++ [.utf8 s]) p.next (.utf8 s) := by
      rw [h.next]; exact numbered_next cs _
    refine ⟨[.utf8 s], ⟨hpush.bytes, hpush.next, fun t i ht => ?_, hpush.spellable⟩, hnumber⟩
    rw [List.lookup_cons] at ht
    split at ht
    · rename_i heq
      obtain rfl := beq_iff_eq.mp heq
      cases ht
      exact hnumber
    · exact hpush.texts t i ht

theorem className_holds {p : Pool} {cs : List Constant} (h : Holds p cs) {s : String} (hs : Writable s) :
    ∃ more, Holds (Assembly.className s p).2 (cs ++ more) ∧
      ∃ j, Numbered (cs ++ more) (Assembly.className s p).1 (.class j) ∧ Numbered (cs ++ more) j (.utf8 s) := by
  obtain ⟨more, hp, hj⟩ := utf8_holds h hs
  have hpush := hp.push (.name hj.le)
  refine ⟨more ++ [.class (Assembly.utf8 s p).1], ?_, (Assembly.utf8 s p).1, ?_, ?_⟩
  · rw [← List.append_assoc]; exact hpush
  · have hnumber := numbered_next (cs ++ more) (.class (Assembly.utf8 s p).1)
    rw [← hp.next, List.append_assoc] at hnumber
    exact hnumber
  · rw [← List.append_assoc]; exact hj.append _

/-! ## What written parts rely on -/

section
variable {α β : Type}

/-- Writing keeps the pool in order, and what is written satisfies `Q` in every pool that grows out of
the one left behind, as long as all numbers fit in two bytes. -/
def Writes (w : StateM Pool α) (Q : ConstantPool → α → Prop) : Prop :=
  ∀ p cs, Holds p cs → ∃ more, Holds (w p).2 (cs ++ more) ∧
    ∀ later, (cs ++ more ++ later).length < 0xffff → Q (poolOf (cs ++ more ++ later)) (w p).1

theorem writes_pure {a : α} {Q : ConstantPool → α → Prop} (h : ∀ pool, Q pool a) : Writes (pure a) Q := by
  intro p cs hp
  exact ⟨[], by rw [List.append_nil]; exact hp, fun later _ => h _⟩

theorem Writes.bind {w : StateM Pool α} {f : α → StateM Pool β} {Q : ConstantPool → α → Prop}
    {R : ConstantPool → β → Prop} (hw : Writes w Q) (hf : ∀ a, Writes (f a) fun pool b => Q pool a → R pool b) :
    Writes (w >>= f) R := by
  intro p cs hp
  obtain ⟨m₁, hp₁, h₁⟩ := hw p cs hp
  obtain ⟨m₂, hp₂, h₂⟩ := hf (w p).1 (w p).2 (cs ++ m₁) hp₁
  refine ⟨m₁ ++ m₂, by rw [← List.append_assoc]; exact hp₂, fun later hlen => ?_⟩
  have hlist : cs ++ (m₁ ++ m₂) ++ later = cs ++ m₁ ++ m₂ ++ later := by simp only [List.append_assoc]
  rw [hlist] at hlen ⊢
  refine h₂ later hlen ?_
  rw [List.append_assoc (cs ++ m₁)] at hlen ⊢
  exact h₁ (m₂ ++ later) hlen

theorem Writes.mono {w : StateM Pool α} {Q R : ConstantPool → α → Prop} (hw : Writes w Q)
    (h : ∀ pool a, Q pool a → R pool a) : Writes w R := by
  intro p cs hp
  obtain ⟨more, hp', hq⟩ := hw p cs hp
  exact ⟨more, hp', fun later hlen => h _ _ (hq later hlen)⟩

end

theorem writes_utf8 {s : String} (hs : Writable s) :
    Writes (Assembly.utf8 s) fun pool i => i < 0x10000 ∧ pool.utf8 i = .ok s := by
  intro p cs hp
  obtain ⟨more, hp', hi⟩ := utf8_holds hp hs
  refine ⟨more, hp', fun later hlen => ?_⟩
  have hi' := hi.append later
  exact ⟨by have := hi'.le; omega, utf8_of_numbered hi'⟩

theorem writes_className {s : String} (hs : Writable s) :
    Writes (Assembly.className s) fun pool i => i ≠ 0 ∧ i < 0x10000 ∧ pool.className i = .ok s := by
  intro p cs hp
  obtain ⟨more, hp', j, hi, hj⟩ := className_holds hp hs
  refine ⟨more, hp', fun later hlen => ?_⟩
  have hi' := hi.append later
  refine ⟨?_, by have := hi'.le; omega, className_of_numbered hi' (hj.append later)⟩
  intro h0
  rw [h0] at hi
  cases hi

section
variable {ξ β υ : Type} {w : ξ → StateM Pool β} (encode : β → List UInt8) (r : ConstantPool → Reader υ)
  (value : ConstantPool → ξ → Except Malformed υ)

/-- Parts written one after the other are read back as a list. -/
theorem writes_mapM : ∀ {xs : List ξ},
    (∀ x ∈ xs, Writes (w x) fun pool b => ∀ y, value pool x = .ok y → ∀ pos, Takes (r pool) pos (encode b) y) →
      Writes (xs.mapM w) fun pool bs => bs.length = xs.length ∧ ∀ ys, xs.mapM (value pool) = .ok ys →
        ∀ pos, Takes (Reader.times xs.length (r pool)) pos (bs.flatMap encode) ys
  | [], _ => by
    rw [List.mapM_nil]
    refine writes_pure fun pool => ⟨rfl, fun ys hys pos => ?_⟩
    rw [List.mapM_nil] at hys
    cases hys
    exact takes_pure [] pos
  | x :: xs, h => by
    rw [List.mapM_cons]
    refine (h x (by simp)).bind fun b => (writes_mapM fun z hz => h z (by simp [hz])).bind fun bs => ?_
    refine writes_pure fun pool hbs hb => ⟨by simp [hbs.1], fun ys hys pos => ?_⟩
    rw [List.mapM_cons] at hys
    cases hy : value pool x with
    | error e => rw [hy] at hys; cases hys
    | ok y =>
      cases hys' : xs.mapM (value pool) with
      | error e => rw [hy, hys'] at hys; cases hys
      | ok ys' =>
        rw [hy, hys'] at hys
        cases hys
        rw [List.flatMap_cons]
        exact (hb y hy pos).bind (Takes.bind_pure (hbs.2 ys' hys' _))

end

/-! ## Members -/

theorem takes_readAttribute {pool : ConstantPool} {k : Nat} {name : String} {body : List UInt8} (hk : k < 0x10000)
    (hname : pool.utf8 k = .ok name) (hbody : body.length < 0x100000000) (pos : Nat) :
    Takes (readAttribute pool) pos (be2 k ++ (be4 body.length ++ body)) (name, body) := by
  refine (takes_u2 hk pos).bind ((takes_u4 hbody _).bind ((takes_bytes body _).bind_end ?_))
  exact Takes.bind_pure (takes_constant hname _)

def codeBody (code : List UInt8) : List UInt8 :=
  be2 4 ++ be2 4 ++ be4 code.length ++ code ++ be2 0 ++ be2 0

theorem length_codeBody (code : List UInt8) : (codeBody code).length = 12 + code.length := by
  simp [codeBody]; omega

theorem codeAttribute_eq (code : List UInt8) :
    Assembly.codeAttribute code = be4 (codeBody code).length ++ codeBody code := by
  rw [length_codeBody]
  simp only [Assembly.codeAttribute, codeBody, List.append_assoc]

/-- Bare code is read as what it decodes to, without tables. -/
theorem readCode_codeBody (pool : ConstantPool) {code : List UInt8} (hlen : code.length < 0x100000000) :
    readCode pool { rest := codeBody code } = (decode pool code).map fun is =>
      (({ body := weave (labelled code.length is [] []) [] code.length is, locals := [], handlers := [] } : CodeBody),
        ({ rest := [], pos := (codeBody code).length } : Cursor)) := by
  have hsplit : codeBody code = be2 4 ++ be2 4 ++ (be4 code.length ++ (code ++ (be2 0 ++ be2 0))) := by
    simp only [codeBody, List.append_assoc]
  have hnone : ∀ {α : Type} (r : Reader α) pos tail, counted r { rest := be2 0 ++ tail, pos } =
      .ok ([], { rest := tail, pos := pos + 2 }) := fun r pos tail => bind_ok (takes_u2 (by decide) pos tail)
  rw [length_codeBody, hsplit]
  unfold readCode
  refine (bind_ok (takes_skip (be2 4 ++ be2 4) 0 _)).trans ?_
  refine (bind_ok (takes_u4 hlen _ _)).trans ((bind_ok (takes_bytes code _ _)).trans ?_)
  cases decode pool code with
  | error e => rfl
  | ok is =>
    refine (bind_ok (a := is) rfl).trans ?_
    refine (bind_ok (hnone (readHandler pool) _ _)).trans ?_
    refine (bind_ok (hnone (readCodeTable pool) _ [])).trans ?_
    have hpos : 0 + (be2 4 ++ be2 4).length + (be4 code.length).length + code.length + 2 + 2 = 12 + code.length := by
      simp only [List.length_append, length_be2, length_be4]; omega
    rw [hpos]
    rfl

def HeadOf (pool : ConstantPool) (m : Member) (enc : List UInt8) : Prop :=
  ∃ n d attributes, enc = be2 m.access.bits.toNat ++ (be2 n ++ (be2 d ++ attributes)) ∧ n < 0x10000 ∧ d < 0x10000 ∧
    pool.utf8 n = .ok m.name ∧ pool.utf8 d = .ok m.desc ∧
    match m.code with
    | none => attributes = be2 0
    | some code => ∃ k < 0x10000, pool.utf8 k = .ok "Code" ∧
      attributes = be2 1 ++ (be2 k ++ (be4 (codeBody code).length ++ codeBody code))

theorem writes_member {m : Member} (hname : Writable m.name) (hdesc : Writable m.desc) :
    Writes (Assembly.member m) fun pool enc => HeadOf pool m enc := by
  have hcode : Writable "Code" := by decide
  unfold Assembly.member
  refine (writes_utf8 hname).bind fun n => (writes_utf8 hdesc).bind fun d => ?_
  dsimp only
  unfold HeadOf
  cases m.code with
  | none =>
    refine writes_pure fun pool hd hn => ⟨n, d, _, ?_, hn.1, hd.1, hn.2, hd.2, rfl⟩
    simp only [List.append_assoc]
  | some code =>
    refine (writes_utf8 hcode).bind fun k => writes_pure fun pool hk hd hn =>
      ⟨n, d, _, ?_, hn.1, hd.1, hn.2, hd.2, k, hk.1, hk.2, rfl⟩
    rw [codeAttribute_eq]
    simp only [List.append_assoc]

/-- Reading a member starts with its flags, name and descriptor. -/
theorem takes_memberHead {α : Type} {pool : ConstantPool} {m : Member} {n d pos : Nat} {enc : List UInt8} {a : α}
    {f : Nat → String → String → Reader α} (hn : n < 0x10000) (hd : d < 0x10000) (hname : pool.utf8 n = .ok m.name)
    (hdesc : pool.utf8 d = .ok m.desc) (hf : Takes (f m.access.bits.toNat m.name m.desc) (pos + 2 + 2 + 2) enc a) :
    Takes (do
      let access ← Reader.index
      let name ← Reader.constant (pool.utf8 (← Reader.index))
      let desc ← Reader.constant (pool.utf8 (← Reader.index))
      f access name desc) pos (be2 m.access.bits.toNat ++ (be2 n ++ (be2 d ++ enc))) a := by
  refine (takes_index m.access.bits.toNat_lt pos).bind ((takes_index hn _).bind ?_)
  refine Takes.bind_still (takes_constant hname _) ((takes_index hd _).bind ?_)
  exact Takes.bind_still (takes_constant hdesc _) hf

namespace Assembly

def Member.field (m : Member) : Field := { name := m.name, desc := m.desc, access := m.access }

/-- The method that a member is read back as: its body is the stream of its code, if it has some. -/
def Member.method (pool : ConstantPool) (m : Member) : Except Malformed Method :=
  match m.code with
  | none => .ok { name := m.name, desc := m.desc, access := m.access }
  | some code => (scanCode pool { rest := codeBody code }).map fun r =>
    { name := m.name, desc := m.desc, access := m.access, body := r.1.body }

end Assembly

theorem scanCode_codeBody (pool : ConstantPool) {code : List UInt8} (hlen : code.length < 0x100000000) :
    scanCode pool { rest := codeBody code } = (decode pool code).map fun is =>
      (({ body := weave (labelled code.length is [] []) [] code.length is, locals := [], handlers := [] } : CodeBody),
        ({ rest := [], pos := (codeBody code).length } : Tape)) := by
  have hread := readCode_codeBody pool hlen
  cases hdec : decode pool code with
  | error e =>
    rw [hdec] at hread
    exact (reads_scanCode pool).of_error hread
  | ok is =>
    rw [hdec] at hread
    exact (reads_scanCode pool).of_ok hread

theorem method_of_code {pool : ConstantPool} {m : Member} {code : List UInt8} (hm : m.code = some code)
    (hlen : code.length < 0x100000000) :
    m.method pool = (decode pool code).map fun is =>
      { name := m.name, desc := m.desc, access := m.access, body := weave (labelled code.length is [] []) [] code.length is } := by
  simp only [Member.method, hm]
  rw [scanCode_codeBody pool hlen]
  cases decode pool code <;> rfl

theorem access_read (a : Access) : (⟨UInt16.ofNat a.bits.toNat⟩ : Access) = a := by
  rw [UInt16.ofNat_toNat]

theorem takes_readField {pool : ConstantPool} {m : Member} {enc : List UInt8} (h : HeadOf pool m enc)
    (hcode : ∀ code, m.code = some code → 12 + code.length < 0x100000000) (pos : Nat) :
    Takes (readField pool) pos enc m.field := by
  obtain ⟨n, d, attributes, rfl, hn, hd, hname, hdesc, hattr⟩ := h
  refine takes_memberHead hn hd hname hdesc ?_
  rw [access_read]
  cases hm : m.code with
  | none =>
    rw [hm] at hattr
    subst hattr
    exact ((takes_u2 (by decide) _).bind_end (takes_pure [] _)).bind_pure
  | some code =>
    rw [hm] at hattr
    obtain ⟨k, hk, hname, rfl⟩ := hattr
    have hlen : (codeBody code).length < 0x100000000 := by rw [length_codeBody]; exact hcode code hm
    have hattr : Takes (Reader.times 1 (readAttribute pool)) (pos + 2 + 2 + 2 + 2)
        (be2 k ++ (be4 (codeBody code).length ++ codeBody code)) [("Code", codeBody code)] :=
      (takes_readAttribute hk hname hlen _).bind_end (takes_pure _ _)
    exact ((takes_u2 (by decide) _).bind hattr).bind_pure

theorem takes_readMethod {pool : ConstantPool} {m : Member} {enc : List UInt8} (h : HeadOf pool m enc)
    (hcode : ∀ code, m.code = some code → 12 + code.length < 0x100000000) {y : Method} (hy : m.method pool = .ok y)
    (pos : Nat) : Takes (readMethod pool) pos enc y := by
  obtain ⟨n, d, attributes, rfl, hn, hd, hname, hdesc, hattr⟩ := h
  refine takes_memberHead hn hd hname hdesc ?_
  rw [access_read]
  cases hm : m.code with
  | none =>
    simp only [hm] at hattr
    simp only [Member.method, hm] at hy
    cases hy
    subst hattr
    exact (takes_u2 (by decide) _).bind_end (takes_pure _ _)
  | some code =>
    simp only [hm] at hattr
    obtain ⟨k, hk, hname, rfl⟩ := hattr
    have hlen : (codeBody code).length < 0x100000000 := by rw [length_codeBody]; exact hcode code hm
    have hfits : code.length < 0x100000000 := by have := hcode code hm; omega
    rw [method_of_code hm hfits] at hy
    obtain ⟨is, hdec, rfl⟩ := map_eq_ok hy
    have hread := readCode_codeBody pool hfits
    rw [hdec] at hread
    refine (takes_u2 (by decide) _).bind (Takes.bind_end ?_ (takes_pure _ _))
    refine (takes_readAttribute hk hname hlen _).bind_end ?_
    exact Takes.bind_still ((takes_within hread _).noting _ _) (takes_pure _ _)

/-! ## Classes -/

namespace Assembly

def pool (a : Assembly) : ConstantPool :=
  let p := (a.body.run {}).2
  match ConstantPool.scan { rest := be2 p.next ++ p.bytes } with
  | .ok (pool, _) => pool
  | .error _ => { constants := #[] }

def texts (a : Assembly) : List String :=
  a.name :: a.super :: a.interfaces ++ (a.fields ++ a.methods).flatMap fun m => [m.name, m.desc]

/-- What fits into a class file, and code that decodes against its pool. -/
structure WellFormed (a : Assembly) : Prop where
  texts : ∀ s ∈ a.texts, Writable s
  interfaces : a.interfaces.length < 0x10000
  fields : a.fields.length < 0x10000
  methods : a.methods.length < 0x10000
  numbers : (a.body.run {}).2.next ≤ 0xffff
  lengths : ∀ m ∈ a.fields ++ a.methods, ∀ code, m.code = some code → 12 + code.length < 0x100000000
  decodes : ∀ m ∈ a.methods, ∀ code, m.code = some code → ∃ is, decode a.pool code = .ok is

end Assembly

section
variable {υ : Type} (r : ConstantPool → Reader υ) (value : ConstantPool → Member → Except Malformed υ)

theorem writes_members {ms : List Member} (hlen : ms.length < 0x10000)
    (hencode : ∀ m ∈ ms, Writable m.name ∧ Writable m.desc)
    (hread : ∀ m ∈ ms, ∀ pool enc, HeadOf pool m enc → ∀ y, value pool m = .ok y → ∀ pos, Takes (r pool) pos enc y) :
    Writes (Assembly.members ms) fun pool enc => ∀ ys, ms.mapM (value pool) = .ok ys →
      ∀ pos, Takes (counted (r pool)) pos enc ys := by
  unfold Assembly.members
  refine Writes.bind (writes_mapM (fun enc => enc) r value fun m hm => ?_) fun encs => ?_
  · exact (writes_member (hencode m hm).1 (hencode m hm).2).mono fun pool enc h => hread m hm pool enc h
  · refine writes_pure fun pool h ys hys pos => ?_
    have ht := h.2 ys hys (pos + 2)
    rw [List.flatMap_id'] at ht
    exact (takes_u2 hlen pos).bind ht

end

def BodyOf (a : Assembly) (pool : ConstantPool) (enc : List UInt8) : Prop :=
  ∃ this super interfaces fields methods,
    enc = be2 a.access.bits.toNat ++ (be2 this ++ (be2 super ++ (be2 a.interfaces.length ++
      (interfaces ++ (fields ++ (methods ++ be2 0)))))) ∧
    this < 0x10000 ∧ pool.className this = .ok a.name ∧
    super < 0x10000 ∧ (if super = 0 then a.super = "" else pool.className super = .ok a.super) ∧
    (∀ pos, Takes (Reader.times a.interfaces.length (do Reader.constant (pool.className (← Reader.index)))) pos
      interfaces a.interfaces) ∧
    (∀ pos, Takes (counted (readField pool)) pos fields (a.fields.map (·.field))) ∧
    ∀ ys, a.methods.mapM (·.method pool) = .ok ys → ∀ pos, Takes (counted (readMethod pool)) pos methods ys

theorem writes_body {a : Assembly} (h : a.WellFormed) : Writes a.body (BodyOf a) := by
  have hname : Writable a.name := h.texts _ (by simp [Assembly.texts])
  have hsuper : Writable a.super := h.texts _ (by simp [Assembly.texts])
  have hinterface : ∀ s ∈ a.interfaces, Writable s := fun s hs => h.texts s (by simp [Assembly.texts, hs])
  have hmember : ∀ m ∈ a.fields ++ a.methods, Writable m.name ∧ Writable m.desc := by
    intro m hm
    have htexts : m.name ∈ a.texts ∧ m.desc ∈ a.texts := by
      constructor <;> refine List.mem_append_right _ (List.mem_flatMap.mpr ⟨m, hm, by simp⟩)
    exact ⟨h.texts _ htexts.1, h.texts _ htexts.2⟩
  have hfields := writes_members readField (fun _ m => .ok m.field) h.fields
    (fun m hm => hmember m (List.mem_append_left _ hm)) fun m hm pool enc henc y hy pos => by
      cases hy
      exact takes_readField henc (h.lengths m (List.mem_append_left _ hm)) pos
  have hmethods := writes_members readMethod (fun pool m => m.method pool) h.methods
    (fun m hm => hmember m (List.mem_append_right _ hm)) fun m hm pool enc henc y hy pos =>
      takes_readMethod henc (h.lengths m (List.mem_append_right _ hm)) hy pos
  have hsuperWrites : Writes (if a.super = "" then pure 0 else Assembly.className a.super) fun pool super =>
      super < 0x10000 ∧ if super = 0 then a.super = "" else pool.className super = .ok a.super := by
    by_cases hs : a.super = ""
    · rw [if_pos hs]
      exact writes_pure fun pool => ⟨by decide, hs⟩
    · rw [if_neg hs]
      exact (writes_className hsuper).mono fun pool i hi => ⟨hi.2.1, by rw [if_neg hi.1]; exact hi.2.2⟩
  unfold Assembly.body
  refine (writes_className hname).bind fun this => ?_
  extract_lets rest
  have hjoin : (if a.super = "" then pure 0 >>= rest else Assembly.className a.super >>= rest) =
      (if a.super = "" then pure 0 else Assembly.className a.super) >>= rest := by split <;> rfl
  rw [hjoin]
  refine hsuperWrites.bind fun super => ?_
  refine (writes_mapM be2 (fun pool => do Reader.constant (pool.className (← Reader.index))) (fun _ s => .ok s)
    fun s hs => ?_).bind fun interfaces => ?_
  · refine (writes_className (hinterface s hs)).mono fun pool i hi y hy pos => ?_
    cases hy
    exact (takes_index hi.2.1 pos).bind_end (takes_constant hi.2.2 _)
  · refine hfields.bind fun fields => hmethods.bind fun methods => writes_pure fun pool hm hf hi hs hn => ?_
    refine ⟨this, super, interfaces.flatMap be2, fields, methods, ?_, hn.2.1, hn.2.2, hs.1, hs.2, ?_, ?_, hm⟩
    · rw [hi.1]; simp only [List.append_assoc]
    · exact hi.2 a.interfaces (List.mapM_pure.trans (congrArg pure (List.map_id' a.interfaces)))
    · exact hf _ List.mapM_pure

theorem mapM_exists {ξ υ : Type} {f : ξ → Except Malformed υ} : ∀ {xs : List ξ}, (∀ x ∈ xs, ∃ y, f x = .ok y) →
    ∃ ys, xs.mapM f = .ok ys
  | [], _ => ⟨[], rfl⟩
  | x :: xs, h => by
    obtain ⟨y, hy⟩ := h x (by simp)
    obtain ⟨ys, hys⟩ := mapM_exists fun z hz => h z (List.mem_cons_of_mem x hz)
    exact ⟨y :: ys, by rw [List.mapM_cons, hy, hys]; rfl⟩

theorem method_exists {pool : ConstantPool} {m : Member}
    (hlen : ∀ code, m.code = some code → 12 + code.length < 0x100000000)
    (hdec : ∀ code, m.code = some code → ∃ is, decode pool code = .ok is) : ∃ y, m.method pool = .ok y := by
  cases hm : m.code with
  | none => exact ⟨_, by rw [Member.method, hm]⟩
  | some code =>
    obtain ⟨is, his⟩ := hdec code hm
    have hfits := hlen code hm
    exact ⟨_, by rw [method_of_code hm (by omega), his]; rfl⟩

/-- Reading a class file with a known pool and what follows it. -/
theorem takes_readClass {a : Assembly} {pool : ConstantPool} {cs body : List UInt8} {methods : List Method}
    (hpool : ∀ pos, Takes ConstantPool.read pos cs pool) (hbody : BodyOf a pool body)
    (hlen : a.interfaces.length < 0x10000) (hmethods : a.methods.mapM (·.method pool) = .ok methods) :
    Takes readClass 0 (be4 0xCAFEBABE ++ (be2 0 ++ (be2 61 ++ (cs ++ body))))
      { name := a.name, super := a.super, access := a.access, interfaces := a.interfaces
        fields := a.fields.map (·.field), methods, major := 61 } := by
  obtain ⟨this, super, interfaces, fields, ms, rfl, hthis, hname, hsuper, hs, hi, hf, hm⟩ := hbody
  have hreadSuper : ∀ pos, Takes (readSuper pool) pos (be2 super) a.super := by
    intro pos
    refine (takes_index hsuper pos).bind_end ?_
    split
    · rename_i h0
      rw [if_pos h0] at hs
      rw [hs]; exact takes_pure _ _
    · rename_i h0
      rw [if_neg h0] at hs
      exact takes_constant hs _
  unfold readClass
  refine (takes_u4 (by decide) 0).bind ?_
  dsimp only
  rw [if_neg (by decide)]
  refine (takes_skip (be2 0) _).bind ((takes_u2 (by decide) _).bind ((hpool _).bind ?_))
  refine (takes_index a.access.bits.toNat_lt _).bind ((takes_index hthis _).bind ?_)
  refine Takes.bind_still (takes_constant hname _) ((hreadSuper _).bind ?_)
  refine ((takes_u2 hlen _).noting _ _).bind ((hi _).bind (((hf _).noting _ _).bind ?_))
  refine ((hm methods hmethods _).noting _ _).bind (((takes_u2 (by decide) _).noting _ _).bind_end ?_)
  rw [access_read]
  exact takes_pure _ _

/-- A class that fits into a class file is read back from it: names, flags and members in their order,
and for each method the stream of its code. -/
theorem parse_assembled {a : Assembly} (h : a.WellFormed) :
    ∃ methods, a.methods.mapM (·.method a.pool) = .ok methods ∧
      parse a.bytes = .ok
        { name := a.name, super := a.super, access := a.access, interfaces := a.interfaces
          fields := a.fields.map (·.field), methods, sourceFile := "", major := 61 } := by
  obtain ⟨cs, hholds, hbody⟩ := writes_body h {} [] holds_empty
  rw [List.nil_append] at hholds
  have hnext : (a.body.run {}).2.next = cs.length + 1 := hholds.next
  have hbytes : (a.body.run {}).2.bytes = cs.flatMap spelled := hholds.bytes
  have hlen : cs.length < 0xffff := by have hnumbers := h.numbers; omega
  have hread := takes_readPool hholds.spellable hlen
  have hpool : a.pool = poolOf cs := by
    have hdata := hread 0 []
    rw [List.append_nil] at hdata
    unfold Assembly.pool
    dsimp only
    have hscan : ConstantPool.scan { rest := be2 (cs.length + 1) ++ cs.flatMap spelled } = .ok (poolOf cs, _) :=
      tracks_scanPool.agrees.of_ok hdata
    rw [hnext, hbytes, hscan]
  have hbody' : BodyOf a (poolOf cs) (a.body.run {}).1 := by
    have hb := hbody [] (by simpa using hlen)
    rwa [List.nil_append, List.append_nil] at hb
  obtain ⟨methods, hmethods⟩ : ∃ methods, a.methods.mapM (·.method (poolOf cs)) = .ok methods :=
    mapM_exists fun m hm => method_exists (h.lengths m (List.mem_append_right _ hm)) (hpool ▸ h.decodes m hm)
  refine ⟨methods, hpool ▸ hmethods, ?_⟩
  have hclass := takes_readClass hread hbody' h.interfaces hmethods []
  have hfile : a.bytes = be4 0xCAFEBABE ++ (be2 0 ++ (be2 61 ++
      (be2 (cs.length + 1) ++ cs.flatMap spelled ++ (a.body.run {}).1))) ++ [] := by
    rw [← hnext, ← hbytes]
    simp only [Assembly.bytes, List.append_assoc, List.append_nil]
    rfl
  rw [parse_eq_read]
  rw [hfile, hclass]

/-- A class with a name beyond ASCII, a text that an interface and a descriptor share, and a method
with code beside one without. -/
def smallClass : Assembly :=
  { name := "Aé", super := "B", interfaces := ["I"]
    fields := [{ access := ⟨2⟩, name := "f", desc := "I" }]
    methods := [{ access := ⟨1⟩, name := "m", desc := "()V", code := some Assembly.returnVoid },
      { access := ⟨0x401⟩, name := "n", desc := "()V" }] }

set_option maxRecDepth 2000 in
theorem parse_assembled_smallClass :
    parse smallClass.bytes = .ok
      { name := "Aé", super := "B", access := .publicClass, interfaces := ["I"]
        fields := [{ name := "f", desc := "I", access := ⟨2⟩ }]
        methods := [{ name := "m", desc := "()V", access := ⟨1⟩, body := [.real { op := .vreturn }] },
          { name := "n", desc := "()V", access := ⟨0x401⟩ }]
        sourceFile := "", major := 61 } := by
  have hread (pool : ConstantPool) : smallClass.methods.mapM (·.method pool) =
      .ok [{ name := "m", desc := "()V", access := ⟨1⟩, body := [.real { op := .vreturn }] },
        { name := "n", desc := "()V", access := ⟨0x401⟩ }] := by
    have hcode : Member.method pool { access := ⟨1⟩, name := "m", desc := "()V", code := some Assembly.returnVoid } =
        .ok { name := "m", desc := "()V", access := ⟨1⟩, body := [.real { op := .vreturn }] } := by
      rw [method_of_code rfl (by decide)]
      rfl
    simp only [smallClass, List.mapM_cons, hcode]
    rfl
  have hdecode (pool : ConstantPool) : ∀ m ∈ smallClass.methods, ∀ code, m.code = some code →
      ∃ is, decode pool code = .ok is := by
    simp only [smallClass, List.mem_cons, List.not_mem_nil, or_false]
    rintro m (rfl | rfl) code hcode
    · cases hcode; exact ⟨[(0, { op := .vreturn })], rfl⟩
    · cases hcode
  obtain ⟨methods, hmethods, h⟩ := parse_assembled (a := smallClass)
    ⟨by decide, by decide, by decide, by decide, by decide, by simp [smallClass, Assembly.returnVoid], hdecode _⟩
  rw [hread] at hmethods
  cases hmethods
  exact h

end JvmLint.ClassFile
