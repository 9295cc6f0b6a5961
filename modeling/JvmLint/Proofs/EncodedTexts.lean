import JvmLint.Proofs.ModifiedUtf8
import Mathlib.Data.List.Basic

/-!
# Texts in modified UTF-8

A character is one sixteen-bit unit or a pair of surrogates, and each unit is written on its own, so decoding takes the
bytes back to units first and the units back to characters then. The reader goes through the bytes by position and
looks at most two bytes ahead; `scan` keeps book of that: a read beyond the last byte has no answer.
-/

namespace JvmLint.ClassFile.ModifiedUtf8

/-! ## Encoding -/

def unitBytes (n : Nat) : List UInt8 :=
  if n ≠ 0 ∧ n < 0x80 then [UInt8.ofNat n]
  else if n < 0x800 then [UInt8.ofNat (n / 0x40 + 0xc0), UInt8.ofNat (n % 0x40 + 0x80)]
  else [UInt8.ofNat (n / 0x1000 + 0xe0), UInt8.ofNat (n / 0x40 % 0x40 + 0x80), UInt8.ofNat (n % 0x40 + 0x80)]

/-- The units of a character: one in the basic plane, beyond it a high and a low surrogate. -/
def unitsOf (c : Char) : List Nat :=
  if c.toNat < 0x10000 then [c.toNat]
  else [0xD800 + (c.toNat - 0x10000) / 0x400, 0xDC00 + (c.toNat - 0x10000) % 0x400]

def encode (s : List Char) : List UInt8 := s.flatMap fun c => (unitsOf c).flatMap unitBytes

/-! ## Back to units -/

theorem units_unitBytes {n : Nat} (hn : n < 0x10000) (rest : List UInt8) :
    units (unitBytes n ++ rest) = UInt16.ofNat n :: units rest := by
  unfold unitBytes
  split
  · exact units_one (by omega) rest
  · split
    · refine (units_two (by omega) (by omega) rest).trans ?_
      congr 2; omega
    · refine (units_three (by omega) (by omega) (by omega) rest).trans ?_
      congr 2; omega

theorem unitsOf_lt {c : Char} {n : Nat} (h : n ∈ unitsOf c) : n < 0x10000 := by
  have hv : c.toNat < 0xD800 ∨ 0xDFFF < c.toNat ∧ c.toNat < 0x110000 := c.valid
  unfold unitsOf at h
  split at h
  · rw [List.mem_singleton] at h
    omega
  · simp only [List.mem_cons, List.not_mem_nil, or_false] at h
    omega

theorem units_flatMap_unitBytes {ns : List Nat} (h : ∀ n ∈ ns, n < 0x10000) (rest : List UInt8) :
    units (ns.flatMap unitBytes ++ rest) = ns.map UInt16.ofNat ++ units rest := by
  induction ns with
  | nil => rfl
  | cons n ns ih =>
    obtain ⟨hn, hns⟩ := List.forall_mem_cons.1 h
    rw [List.flatMap_cons, List.append_assoc, units_unitBytes hn, ih hns]
    rfl

theorem units_encode (s : List Char) : units (encode s) = s.flatMap fun c => (unitsOf c).map UInt16.ofNat := by
  unfold encode
  induction s with
  | nil => rfl
  | cons c s ih => rw [List.flatMap_cons, List.flatMap_cons, units_flatMap_unitBytes fun n hn => unitsOf_lt hn, ih]

/-! ## Back to characters -/

theorem chars_cons {u : UInt16} (h : isHigh u = false) (us : List UInt16) : chars (u :: us) = ofUnit u :: chars us := by
  cases us with
  | nil => rfl
  | cons v us => rw [chars, h]; rfl

theorem chars_pair {u v : UInt16} (hu : isHigh u = true) (hv : isLow v = true) (us : List UInt16) :
    chars (u :: v :: us) = join u v :: chars us := by
  rw [chars, hu, hv]; rfl

theorem surrogates {m : Nat} (h : m < 0x400) :
    isHigh (UInt16.ofNat (0xD800 + m)) = true ∧ isLow (UInt16.ofNat (0xDC00 + m)) = true := by
  unfold isHigh isLow
  simp only [Bool.and_eq_true, decide_eq_true_eq, UInt16.le_iff_toNat_le, UInt16.lt_iff_toNat_lt, UInt16.toNat_ofNat',
    UInt16.reduceToNat]
  omega

theorem join_surrogates {m n : Nat} (hm : m < 0x400) (hn : n < 0x400) :
    join (UInt16.ofNat (0xD800 + m)) (UInt16.ofNat (0xDC00 + n)) = Char.ofNat (0x10000 + m * 0x400 + n) := by
  have hhigh : (UInt16.ofNat (0xD800 + m)).toNat = 0xD800 + m := by rw [UInt16.toNat_ofNat', Nat.mod_eq_of_lt (by omega)]
  have hlow : (UInt16.ofNat (0xDC00 + n)).toNat = 0xDC00 + n := by rw [UInt16.toNat_ofNat', Nat.mod_eq_of_lt (by omega)]
  rw [join, hhigh, hlow, Nat.add_sub_cancel_left, Nat.add_sub_cancel_left]

theorem chars_unitsOf (c : Char) (us : List UInt16) : chars ((unitsOf c).map UInt16.ofNat ++ us) = c :: chars us := by
  have hv : c.toNat < 0xD800 ∨ 0xDFFF < c.toNat ∧ c.toNat < 0x110000 := c.valid
  unfold unitsOf
  split
  · rename_i hbasic
    refine (chars_cons (not_surrogate hbasic).1 us).trans ?_
    exact congrArg (· :: chars us) (ofUnit_unit hbasic)
  · have hhigh : (c.toNat - 0x10000) / 0x400 < 0x400 := by omega
    have hlow : (c.toNat - 0x10000) % 0x400 < 0x400 := by omega
    have hvalue : 0x10000 + (c.toNat - 0x10000) / 0x400 * 0x400 + (c.toNat - 0x10000) % 0x400 = c.toNat := by omega
    refine (chars_pair (surrogates hhigh).1 (surrogates hlow).2 us).trans ?_
    rw [join_surrogates hhigh hlow, hvalue, Char.ofNat_toNat]

theorem chars_flatMap_unitsOf (s : List Char) : chars (s.flatMap fun c => (unitsOf c).map UInt16.ofNat) = s := by
  induction s with
  | nil => rfl
  | cons c s ih => rw [List.flatMap_cons, chars_unitsOf, ih]

/-! ## Reading by position -/

def turn (bytes : List UInt8) (i : Nat) : Option (UInt16 × Nat) := do
  let a ← bytes[i]?
  if a < 0x80 then
    return (a.toUInt16, i + 1)
  else if a &&& 0xE0 = 0xC0 ∧ i + 1 < bytes.length then
    let b ← bytes[i + 1]?
    return ((a &&& 0x1F).toUInt16 <<< 6 ||| (b &&& 0x3F).toUInt16, i + 2)
  else if a &&& 0xF0 = 0xE0 ∧ i + 2 < bytes.length then
    let b ← bytes[i + 1]?
    let c ← bytes[i + 2]?
    return ((a &&& 0x0F).toUInt16 <<< 12 ||| (b &&& 0x3F).toUInt16 <<< 6 ||| (c &&& 0x3F).toUInt16, i + 3)
  else
    return (replacement, i + 1)

theorem turn_eq {bytes : List UInt8} {i : Nat} (h : i < bytes.length) :
    ∃ u j, turn bytes i = some (u, j) ∧ i < j ∧ j ≤ bytes.length ∧
      units (bytes.drop i) = u :: units (bytes.drop j) := by
  have hread : ∀ {k}, (hk : k < bytes.length) → bytes[k]? = some bytes[k] := fun hk => List.getElem?_eq_getElem hk
  unfold turn
  rw [hread h, List.drop_eq_getElem_cons h, units.eq_def]
  generalize bytes[i] = a
  simp only [Option.bind_eq_bind, Option.bind_some]
  by_cases hone : a < 0x80
  · rw [if_pos hone, if_pos hone]
    exact ⟨_, _, rfl, by omega, h, rfl⟩
  rw [if_neg hone, if_neg hone]
  by_cases htwo : a &&& 0xE0 = 0xC0
  · rw [if_pos htwo]
    by_cases hnext : i + 1 < bytes.length
    · rw [if_pos ⟨htwo, hnext⟩, hread hnext, List.drop_eq_getElem_cons hnext]
      exact ⟨_, _, rfl, by omega, hnext, rfl⟩
    · have hend : bytes.drop (i + 1) = [] := List.drop_eq_nil_of_le (by omega)
      rw [if_neg fun hboth => hnext hboth.2, if_neg fun hboth => hnext (by omega), hend]
      exact ⟨_, _, rfl, by omega, h, by rw [hend]; rfl⟩
  rw [if_neg fun hboth => htwo hboth.1, if_neg htwo]
  by_cases hthree : a &&& 0xF0 = 0xE0
  · rw [if_pos hthree]
    by_cases hnext : i + 2 < bytes.length
    · have hmiddle : i + 1 < bytes.length := by omega
      rw [if_pos ⟨hthree, hnext⟩, hread hmiddle, hread hnext, List.drop_eq_getElem_cons hmiddle,
        List.drop_eq_getElem_cons hnext]
      exact ⟨_, _, rfl, by omega, hnext, rfl⟩
    · -- at most one byte is left, and it is read on its own
      rw [if_neg fun hboth => hnext hboth.2]
      refine ⟨_, _, rfl, by omega, h, ?_⟩
      have hshort : (bytes.drop (i + 1)).length < 2 := by rw [List.length_drop]; omega
      generalize bytes.drop (i + 1) = rest at hshort
      cases rest with
      | nil => rfl
      | cons b rest =>
        cases rest with
        | nil => rfl
        | cons c rest => exact absurd hshort (by simp)
  · rw [if_neg fun hboth => hthree hboth.1, if_neg hthree]
    exact ⟨_, _, rfl, by omega, h, rfl⟩

theorem turn_advances {bytes : List UInt8} {i j : Nat} {u : UInt16} (h : turn bytes i = some (u, j)) :
    i < bytes.length ∧ i < j := by
  by_cases hi : i < bytes.length
  · obtain ⟨u', j', hturn, hj, -⟩ := turn_eq hi
    rw [h, Option.some.injEq, Prod.mk.injEq] at hturn
    exact ⟨hi, hturn.2 ▸ hj⟩
  · have hnone : bytes[i]? = none := List.getElem?_eq_none (Nat.le_of_not_lt hi)
    rw [turn, hnone] at h
    cases h

def scan (bytes : List UInt8) (i : Nat) (read : List UInt16) : Option (List UInt16 × Nat) :=
  if i < bytes.length then
    match _h : turn bytes i with
    | some (u, j) => scan bytes j (read ++ [u])
    | none => none
  else some (read, i)
termination_by bytes.length - i
decreasing_by
  have := turn_advances ‹turn bytes i = some (u, j)›
  omega

theorem scan_eq {bytes : List UInt8} {i : Nat} (h : i ≤ bytes.length) (read : List UInt16) :
    scan bytes i read = some (read ++ units (bytes.drop i), bytes.length) := by
  fun_induction scan bytes i read with
  | case1 i read hi u j hturn ih =>
    obtain ⟨u', j', hturn', -, hj, hunits⟩ := turn_eq hi
    rw [hturn, Option.some.injEq, Prod.mk.injEq] at hturn'
    obtain ⟨rfl, rfl⟩ := hturn'
    rw [ih hj, hunits, List.append_assoc]
    rfl
  | case2 i read hi hturn =>
    obtain ⟨u', j', hturn', -⟩ := turn_eq hi
    rw [hturn] at hturn'
    cases hturn'
  | case3 i read hi =>
    have hend : i = bytes.length := by omega
    subst hend
    rw [List.drop_length, units, List.append_nil]

/-- Decoding takes encoded characters back, the short cut for ASCII changes nothing, and the reading goes through all of
any bytes without a read beyond them. -/
theorem decode_inverts_encode (s : List Char) (bytes : List UInt8) :
    decode (encode s) = String.ofList s ∧ decode bytes = String.ofList (chars (units bytes)) ∧
      scan bytes 0 [] = some (units bytes, bytes.length) := by
  refine ⟨?_, decode_eq bytes, scan_eq (Nat.zero_le _) []⟩
  rw [decode_eq, units_encode, chars_flatMap_unitsOf]

example : encode ['\x00', 'é', '€', '😀'] =
    [0xC0, 0x80, 0xC3, 0xA9, 0xE2, 0x82, 0xAC, 0xED, 0xA0, 0xBD, 0xED, 0xB8, 0x80] := by decide

end JvmLint.ClassFile.ModifiedUtf8
