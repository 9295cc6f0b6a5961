import JvmLint.ClassFile.Assembly
import JvmLint.Proofs.DirectReading

/-!
# What readers take

`Takes` says which bytes a reader takes and what it makes of them, whatever
follows. `Exact` says that these bytes settle the outcome: with more of them
nothing changes, and with fewer the reader fails. A lone `index` is not exact,
since it reads 0 where bytes are missing; it becomes so in front of something
that fails on 0 when the data is short (`Exact.index_bind`).
-/

namespace JvmLint.ClassFile

section
variable {α β : Type}

/-! ## Runs of a sequence -/

section
variable {σ ε : Type} {r : StateT σ (Except ε) α} {f : α → StateT σ (Except ε) β} {c c' c'' : σ}

theorem bind_apply (r : StateT σ (Except ε) α) (f : α → StateT σ (Except ε) β) (c : σ) :
    (r >>= f) c = match r c with
      | .ok (a, c') => f a c'
      | .error e => .error e := by
  change StateT.bind r f c = _
  unfold StateT.bind
  cases r c <;> rfl

theorem bind_ok {a : α} (h : r c = .ok (a, c')) : (r >>= f) c = f a c' := by
  rw [bind_apply, h]

theorem bind_error {e : ε} (h : r c = .error e) : (r >>= f) c = .error e := by
  rw [bind_apply, h]

theorem map_apply (f : α → β) (r : StateT σ (Except ε) α) (c : σ) :
    (f <$> r) c = match r c with
      | .ok (a, c') => .ok (f a, c')
      | .error e => .error e := by
  rw [← bind_pure_comp, bind_apply]
  cases r c <;> rfl

theorem bind_eq_ok {b : β} : (r >>= f) c = .ok (b, c'') ↔ ∃ a c', r c = .ok (a, c') ∧ f a c' = .ok (b, c'') := by
  rw [bind_apply]
  cases h : r c with
  | error e => simp
  | ok s =>
    constructor
    · exact fun h => ⟨s.1, s.2, rfl, h⟩
    · rintro ⟨a, c', hs, hf⟩
      cases hs; exact hf

end

theorem map_eq_ok {ε : Type} {x : Except ε α} {f : α → β} {b : β} (h : x.map f = .ok b) :
    ∃ a, x = .ok a ∧ f a = b := by
  cases x with
  | error e => cases h
  | ok a => exact ⟨a, rfl, by cases h; rfl⟩

/-! ## Taking known bytes -/

/-- At `pos` the reader takes the bytes `enc` and gives `a`, whatever follows them. -/
def Takes (r : Reader α) (pos : Nat) (enc : List UInt8) (a : α) : Prop :=
  ∀ tail, r { rest := enc ++ tail, pos } = .ok (a, { rest := tail, pos := pos + enc.length })

theorem Takes.bind {r : Reader α} {f : α → Reader β} {pos : Nat} {e₁ e₂ : List UInt8} {a : α} {b : β}
    (hr : Takes r pos e₁ a) (hf : Takes (f a) (pos + e₁.length) e₂ b) :
    Takes (r >>= f) pos (e₁ ++ e₂) b := by
  intro tail
  rw [List.append_assoc, bind_ok (hr _), hf, List.length_append, Nat.add_assoc]

theorem takes_pure (a : α) (pos : Nat) : Takes (pure a) pos [] a := fun _ => rfl

theorem takes_constant {found : Except Defect α} {a : α} (h : found = .ok a) (pos : Nat) :
    Takes (Reader.constant found) pos [] a := by
  rw [h]; exact takes_pure a pos

theorem takes_within {r : Reader α} {data : List UInt8} {a : α} {c : Cursor} (h : r { rest := data } = .ok (a, c))
    (pos : Nat) : Takes (Reader.within r data) pos [] a := by
  intro tail
  simp only [Reader.within, h]
  rfl

theorem Takes.bind_still {r : Reader α} {f : α → Reader β} {pos : Nat} {enc : List UInt8} {a : α} {b : β}
    (hr : Takes r pos [] a) (hf : Takes (f a) pos enc b) : Takes (r >>= f) pos enc b := by
  intro tail
  exact (bind_ok (hr (enc ++ tail))).trans (hf tail)

theorem Takes.bind_end {r : Reader α} {f : α → Reader β} {pos : Nat} {enc : List UInt8} {a : α} {b : β}
    (hr : Takes r pos enc a) (hf : Takes (f a) (pos + enc.length) [] b) : Takes (r >>= f) pos enc b := by
  intro tail
  exact (bind_ok (hr tail)).trans (hf tail)

theorem Takes.bind_pure {r : Reader α} {f : α → β} {pos : Nat} {enc : List UInt8} {a : α}
    (hr : Takes r pos enc a) : Takes (r >>= fun a => pure (f a)) pos enc (f a) :=
  hr.bind_end (takes_pure (f a) _)

/-! ## Exact readers -/

/-- What the reader gives is settled by the bytes it takes: bytes after them do not matter, and it
fails on every proper beginning of them. -/
def Exact (r : Reader α) : Prop :=
  ∀ c a c', r c = .ok (a, c') → ∃ enc, c.rest = enc ++ c'.rest ∧ c'.pos = c.pos + enc.length ∧
    Takes r c.pos enc a ∧
    ∀ part rest, enc = part ++ rest → rest ≠ [] → ∃ e, r { rest := part, pos := c.pos } = .error e

@[simp] theorem Exact.bind {r : Reader α} {f : α → Reader β} (hr : Exact r) (hf : ∀ a, Exact (f a)) :
    Exact (r >>= f) := by
  intro c b c'' h
  obtain ⟨a, c', hrc, hfc⟩ := bind_eq_ok.mp h
  obtain ⟨e₁, h₁, hp₁, ht₁, hcut₁⟩ := hr c a c' hrc
  obtain ⟨e₂, h₂, hp₂, ht₂, hcut₂⟩ := hf a c' b c'' hfc
  rw [hp₁] at hp₂ ht₂ hcut₂
  refine ⟨e₁ ++ e₂, by rw [h₁, h₂, List.append_assoc], by rw [hp₂, List.length_append, Nat.add_assoc],
    ht₁.bind ht₂, ?_⟩
  intro part rest hsplit hne
  -- The cut falls at the end of the first stretch or later, or inside it.
  rcases List.append_eq_append_iff.mp hsplit with ⟨more, hpart, hrest⟩ | ⟨left, hleft, hrest⟩
  · obtain ⟨e, he⟩ := hcut₂ more rest hrest hne
    exact ⟨e, by rw [hpart, bind_ok (ht₁ more), he]⟩
  · cases left with
    | nil =>
      rw [List.append_nil] at hleft
      rw [List.nil_append] at hrest
      subst hleft hrest
      obtain ⟨e, he⟩ := hcut₂ [] rest rfl hne
      have h₀ := ht₁ []
      rw [List.append_nil] at h₀
      exact ⟨e, by rw [bind_ok h₀, he]⟩
    | cons x left =>
      obtain ⟨e, he⟩ := hcut₁ part (x :: left) hleft (by simp)
      exact ⟨e, bind_error he⟩

/-- A reader that never succeeds. -/
theorem Exact.fails {r : Reader α} (h : ∀ c, ∃ e, r c = .error e) : Exact r := by
  intro c a c' hc
  obtain ⟨e, he⟩ := h c
  rw [he] at hc; cases hc

/-- A reader that takes nothing, and whose answer depends on nothing that follows. -/
theorem Exact.still {r : Reader α} (h : ∀ pos, ∃ a, Takes r pos [] a) : Exact r := by
  intro c a c' hc
  obtain ⟨a', ha⟩ := h c.pos
  have hc' := ha c.rest
  rw [List.nil_append, show ({ rest := c.rest, pos := c.pos } : Cursor) = c from rfl, hc] at hc'
  cases hc'
  refine ⟨[], rfl, rfl, ha, ?_⟩
  intro part rest hsplit hne
  exact absurd (List.append_eq_nil_iff.mp hsplit.symm).2 hne

@[simp] theorem exact_pure (a : α) : Exact (pure a : Reader α) := Exact.still fun pos => ⟨a, takes_pure a pos⟩

@[simp] theorem exact_fail (d : Defect) : Exact (Reader.fail d : Reader α) := Exact.fails fun _ => ⟨_, rfl⟩

@[simp] theorem exact_reject (d : Defect) : Exact (Reader.reject d : Reader α) := Exact.fails fun _ => ⟨_, rfl⟩

@[simp] theorem exact_constant (found : Except Defect α) : Exact (Reader.constant found) := by
  cases found with
  | ok a => exact exact_pure a
  | error d => exact exact_reject d

/-- What is read within bytes of its own does not depend on the data around them. -/
@[simp] theorem exact_within (r : Reader α) (data : List UInt8) : Exact (Reader.within r data) := by
  cases h : r { rest := data } with
  | ok s => exact Exact.still fun pos => ⟨s.1, takes_within h pos⟩
  | error e => exact Exact.fails fun c => ⟨e, by simp [Reader.within, h]⟩

@[simp] theorem Exact.map {r : Reader α} (hr : Exact r) (f : α → β) : Exact (f <$> r) := by
  rw [← bind_pure_comp]
  exact hr.bind fun a => exact_pure (f a)

theorem Exact.ite {p : Prop} [Decidable p] {r s : Reader α} (hr : Exact r) (hs : Exact s) :
    Exact (if p then r else s) := by
  split
  · exact hr
  · exact hs

theorem noting_eq_ok {key value : String} {r : Reader α} {c : Cursor} {s : α × Cursor} :
    Reader.noting key value r c = .ok s ↔ r c = .ok s := by
  unfold Reader.noting
  split
  · rename_i h; simp [h]
  · rename_i h; simp [h]

theorem Takes.noting {r : Reader α} {pos : Nat} {enc : List UInt8} {a : α} (key value : String)
    (h : Takes r pos enc a) : Takes (Reader.noting key value r) pos enc a :=
  fun tail => noting_eq_ok.mpr (h tail)

theorem Exact.noting {r : Reader α} (key value : String) (hr : Exact r) : Exact (Reader.noting key value r) := by
  intro c a c' h
  obtain ⟨enc, h₁, hp, ht, hcut⟩ := hr c a c' (noting_eq_ok.mp h)
  refine ⟨enc, h₁, hp, fun tail => noting_eq_ok.mpr (ht tail), ?_⟩
  intro part rest hsplit hne
  obtain ⟨e, he⟩ := hcut part rest hsplit hne
  exact ⟨e.at key value, by simp [Reader.noting, he]⟩

theorem exact_times {r : Reader α} (hr : Exact r) : ∀ n, Exact (Reader.times n r)
  | 0 => exact_pure []
  | n + 1 => hr.bind fun _ => (exact_times hr n).bind fun _ => exact_pure _

/-! ## Bytes and words -/

theorem bytes_apply (n : Nat) (c : Cursor) :
    Reader.bytes n c = if n ≤ c.rest.length then .ok (c.rest.take n, { rest := c.rest.drop n, pos := c.pos + n })
      else Reader.fail (.endOfData n c.rest.length) c := by
  unfold Reader.bytes
  simp only [List.length_take]
  by_cases h : n ≤ c.rest.length
  · rw [if_pos h, if_pos (Nat.min_eq_left h)]
  · rw [if_neg h, if_neg (by omega)]

theorem takes_bytes (enc : List UInt8) (pos : Nat) : Takes (Reader.bytes enc.length) pos enc enc := by
  intro tail
  rw [bytes_apply, if_pos (by simp)]
  simp

theorem bytes_eq_ok {n : Nat} {c c' : Cursor} {enc : List UInt8} :
    Reader.bytes n c = .ok (enc, c') ↔ c.rest = enc ++ c'.rest ∧ enc.length = n ∧ c'.pos = c.pos + n := by
  constructor
  · intro h
    rw [bytes_apply] at h
    split at h
    · cases h
      exact ⟨(List.take_append_drop n c.rest).symm, by simp; omega, rfl⟩
    · cases h
  · rintro ⟨hrest, rfl, hpos⟩
    have ht := takes_bytes enc c.pos c'.rest
    rwa [← hrest, ← hpos] at ht

theorem word_eq_ok {n w : Nat} {c c' : Cursor} :
    Reader.word n c = .ok (w, c') ↔
      ∃ enc, c.rest = enc ++ c'.rest ∧ enc.length = n ∧ c'.pos = c.pos + n ∧ w = wordOf enc := by
  constructor
  · intro h
    obtain ⟨enc, _, henc, hw⟩ := bind_eq_ok.mp h
    cases hw
    obtain ⟨hrest, hlen, hpos⟩ := bytes_eq_ok.mp henc
    exact ⟨enc, hrest, hlen, hpos, rfl⟩
  · rintro ⟨enc, hrest, hlen, hpos, rfl⟩
    exact bind_eq_ok.mpr ⟨enc, c', bytes_eq_ok.mpr ⟨hrest, hlen, hpos⟩, rfl⟩

theorem bytes_short {n : Nat} {c : Cursor} (h : c.rest.length < n) : ∃ e, Reader.bytes n c = .error e := by
  rw [bytes_apply, if_neg (by omega)]
  exact ⟨_, rfl⟩

@[simp] theorem exact_bytes (n : Nat) : Exact (Reader.bytes n) := by
  intro c a c' h
  rw [bytes_apply] at h
  split at h
  · rename_i hn
    cases h
    have hlen : (c.rest.take n).length = n := by simp [hn]
    refine ⟨c.rest.take n, (List.take_append_drop n c.rest).symm, by rw [hlen], ?_, ?_⟩
    · have ht := takes_bytes (c.rest.take n) c.pos
      rwa [hlen] at ht
    · intro part rest hsplit hne
      apply bytes_short
      have hl := congrArg List.length hsplit
      have : rest.length ≠ 0 := fun h0 => hne (List.eq_nil_of_length_eq_zero h0)
      simp only [List.length_append] at hl
      dsimp only; omega
  · cases h

@[simp] theorem exact_skip (n : Nat) : Exact (Reader.skip n) := (exact_bytes n).bind fun _ => exact_pure _

@[simp] theorem exact_word (n : Nat) : Exact (Reader.word n) := (exact_bytes n).bind fun _ => exact_pure _

@[simp] theorem exact_u1 : Exact Reader.u1 := exact_word 1

@[simp] theorem exact_u2 : Exact Reader.u2 := exact_word 2

@[simp] theorem exact_u4 : Exact Reader.u4 := exact_word 4

@[simp] theorem exact_i2 : Exact Reader.i2 := exact_u2.bind fun _ => exact_pure _

@[simp] theorem exact_i4 : Exact Reader.i4 := exact_u4.bind fun _ => exact_pure _

theorem exact_counted {r : Reader α} (hr : Exact r) : Exact (counted r) :=
  exact_u2.bind fun n => exact_times hr n

/-! ## Words and their bytes -/

@[simp] theorem length_be2 (n : Nat) : (be2 n).length = 2 := rfl

@[simp] theorem length_be4 (n : Nat) : (be4 n).length = 4 := rfl

theorem wordOf_be2 {n : Nat} (h : n < 0x10000) : wordOf (be2 n) = n := by
  simp [wordOf, be2]; omega

theorem wordOf_be4 {n : Nat} (h : n < 0x100000000) : wordOf (be4 n) = n := by
  simp [wordOf, be4, be2]; omega

theorem be4_wordOf {enc : List UInt8} (h : enc.length = 4) : wordOf enc < 0x100000000 ∧ be4 (wordOf enc) = enc := by
  obtain ⟨a, b, c, d, rfl⟩ : ∃ a b c d, enc = [a, b, c, d] := by
    match enc, h with
    | [a, b, c, d], _ => exact ⟨a, b, c, d, rfl⟩
  have ha := a.toNat_lt; have hb := b.toNat_lt; have hc := c.toNat_lt; have hd := d.toNat_lt
  have hn : wordOf [a, b, c, d] = ((a.toNat * 256 + b.toNat) * 256 + c.toNat) * 256 + d.toNat := by
    simp [wordOf]; omega
  rw [hn]
  refine ⟨by omega, ?_⟩
  simp only [be4, be2, List.cons_append, List.nil_append, List.cons.injEq, and_true]
  refine ⟨?_, ?_, ?_, ?_⟩ <;> (apply UInt8.toNat_inj.mp; rw [UInt8.toNat_ofNat']; omega)

theorem takes_skip (enc : List UInt8) (pos : Nat) : Takes (Reader.skip enc.length) pos enc () :=
  Takes.bind_pure (takes_bytes enc pos)

theorem takes_word (enc : List UInt8) (pos : Nat) : Takes (Reader.word enc.length) pos enc (wordOf enc) :=
  Takes.bind_pure (takes_bytes enc pos)

theorem takes_u1 (b : UInt8) (pos : Nat) : Takes Reader.u1 pos [b] b.toNat := by
  have h := takes_word [b] pos
  simpa [wordOf, Reader.u1] using h

theorem takes_u2 {n : Nat} (h : n < 0x10000) (pos : Nat) : Takes Reader.u2 pos (be2 n) n := by
  have ht := takes_word (be2 n) pos
  rwa [wordOf_be2 h] at ht

theorem takes_u4 {n : Nat} (h : n < 0x100000000) (pos : Nat) : Takes Reader.u4 pos (be4 n) n := by
  have ht := takes_word (be4 n) pos
  rwa [wordOf_be4 h] at ht

theorem takes_index {n : Nat} (h : n < 0x10000) (pos : Nat) : Takes Reader.index pos (be2 n) n := by
  intro tail
  simp only [Reader.index, takes_u2 h pos tail]

theorem takes_times {γ : Type} {r : Reader α} {encode : γ → List UInt8} {value : γ → α} :
    ∀ {xs : List γ} {pos : Nat}, (∀ x ∈ xs, ∀ p, Takes r p (encode x) (value x)) →
      Takes (Reader.times xs.length r) pos (xs.flatMap encode) (xs.map value)
  | [], pos, _ => takes_pure [] pos
  | x :: xs, pos, h => by
    rw [List.flatMap_cons]
    refine (h x (by simp) pos).bind ?_
    exact Takes.bind_pure (takes_times fun y hy => h y (by simp [hy]))

theorem takes_list {r : Reader α} {encode : α → List UInt8} {as : List α} {pos : Nat}
    (h : ∀ a ∈ as, ∀ p, Takes r p (encode a) a) :
    Takes (Reader.times as.length r) pos (as.flatMap encode) as := by
  have ht : Takes (Reader.times as.length r) pos (as.flatMap encode) (as.map fun a => a) := takes_times h
  rwa [List.map_id'] at ht

/-! ## Indices that may be cut off -/

def Starves (r : Reader α) : Prop := ∀ c : Cursor, c.rest.length < 2 → ∃ e, r c = .error e

theorem Starves.bind {r : Reader α} (hr : Starves r) (f : α → Reader β) : Starves (r >>= f) := by
  intro c hc
  obtain ⟨e, he⟩ := hr c hc
  exact ⟨e, bind_error he⟩

theorem Starves.noting {r : Reader α} (key value : String) (hr : Starves r) : Starves (Reader.noting key value r) := by
  intro c hc
  obtain ⟨e, he⟩ := hr c hc
  exact ⟨e.at key value, by simp [Reader.noting, he]⟩

theorem starves_u2 : Starves Reader.u2 := by
  intro c hc
  obtain ⟨e, he⟩ := bytes_short hc
  exact ⟨e, bind_error he⟩

theorem index_short {c : Cursor} (h : c.rest.length < 2) : Reader.index c = .ok (0, c) := by
  obtain ⟨e, he⟩ := starves_u2 c h
  simp [Reader.index, he]

theorem index_of_u2 {c : Cursor} {s : Nat × Cursor} (h : Reader.u2 c = .ok s) : Reader.index c = .ok s := by
  simp [Reader.index, h]

theorem u2_of_le {c : Cursor} (h : 2 ≤ c.rest.length) :
    Reader.u2 c = .ok (wordOf (c.rest.take 2), { rest := c.rest.drop 2, pos := c.pos + 2 }) := by
  unfold Reader.u2 Reader.word
  rw [bind_ok ((bytes_apply 2 c).trans (if_pos h))]
  rfl

theorem Starves.index_bind {f : Nat → Reader α} (h : Starves (f 0)) : Starves (Reader.index >>= f) := by
  intro c hc
  rw [bind_ok (index_short hc)]
  exact h c hc

theorem index_bind_of_le {f : Nat → Reader α} {c : Cursor} (h : 2 ≤ c.rest.length) :
    (Reader.index >>= f) c = (Reader.u2 >>= f) c := by
  rw [bind_ok (u2_of_le h), bind_ok (index_of_u2 (u2_of_le h))]

/-- An index may be cut off unnoticed when what follows it fails then. -/
theorem Exact.index_bind {f : Nat → Reader α} (hf : ∀ i, Exact (f i)) (h0 : Starves (f 0)) :
    Exact (Reader.index >>= f) := by
  -- On every cursor where one of the two succeeds, `index` acts as `u2` does.
  have heq : ∀ c, (Reader.index >>= f) c = (Reader.u2 >>= f) c ∨
      ((∃ e, (Reader.index >>= f) c = .error e) ∧ ∃ e, (Reader.u2 >>= f) c = .error e) := by
    intro c
    by_cases hc : 2 ≤ c.rest.length
    · exact .inl (index_bind_of_le hc)
    · exact .inr ⟨h0.index_bind c (by omega), starves_u2.bind f c (by omega)⟩
  have hu2 : Exact (Reader.u2 >>= f) := exact_u2.bind hf
  intro c a c' h
  rcases heq c with hc | ⟨⟨e, he⟩, _⟩
  · obtain ⟨enc, h₁, hp, ht, hcut⟩ := hu2 c a c' (hc ▸ h)
    refine ⟨enc, h₁, hp, fun tail => ?_, fun part rest hsplit hne => ?_⟩
    · rcases heq { rest := enc ++ tail, pos := c.pos } with hk | ⟨_, e, he⟩
      · rw [hk]; exact ht tail
      · rw [ht tail] at he; cases he
    · rcases heq { rest := part, pos := c.pos } with hk | ⟨hk, _⟩
      · rw [hk]; exact hcut part rest hsplit hne
      · exact hk
  · rw [he] at h; cases h

end

/-- There are only 256 opcodes. -/
theorem forall_opcode {P : Opcode → Prop} (h : ∀ n : Fin 256, P ⟨UInt8.ofNat n⟩) (op : Opcode) : P op := by
  have hop := h ⟨op.byte.toNat, op.byte.toNat_lt⟩
  simpa using hop

end JvmLint.ClassFile
