import JvmLint.ClassFile.Assembly
import JvmLint.ClassFile.ModifiedUtf8

/-!
# Plain UTF-8 read as modified UTF-8

The two encodings agree on the basic plane: each of its characters is one unit,
written on one to three bytes, and none is a surrogate. So a text of such
characters is read back from its plain bytes.
-/

namespace JvmLint.ClassFile.ModifiedUtf8

/-! ## Units from bytes -/

theorem lead1 : ∀ x : Fin 0x80, UInt8.ofNat x < 0x80 ∧ (UInt8.ofNat x).toUInt16 = UInt16.ofNat x := by decide

theorem lead2 : ∀ x : Fin 0x20, ¬ UInt8.ofNat (x + 0xc0) < 0x80 ∧ UInt8.ofNat (x + 0xc0) &&& 0xE0 = 0xC0 ∧
    (UInt8.ofNat (x + 0xc0) &&& 0x1F).toUInt16 = UInt16.ofNat x := by decide

theorem lead3 : ∀ x : Fin 0x10, ¬ UInt8.ofNat (x + 0xe0) < 0x80 ∧ ¬ UInt8.ofNat (x + 0xe0) &&& 0xE0 = 0xC0 ∧
    UInt8.ofNat (x + 0xe0) &&& 0xF0 = 0xE0 ∧ (UInt8.ofNat (x + 0xe0) &&& 0x0F).toUInt16 = UInt16.ofNat x := by decide

theorem continuation : ∀ y : Fin 0x40, (UInt8.ofNat (y + 0x80) &&& 0x3F).toUInt16 = UInt16.ofNat y := by decide

theorem units_ascii {a : UInt8} (h : a < 0x80) (rest : List UInt8) : units (a :: rest) = a.toUInt16 :: units rest := by
  rw [units.eq_def]
  exact if_pos h

theorem units_one {x : Nat} (hx : x < 0x80) (rest : List UInt8) :
    units (UInt8.ofNat x :: rest) = UInt16.ofNat x :: units rest := by
  obtain ⟨hlt, hval⟩ := lead1 ⟨x, hx⟩
  rw [units_ascii hlt, hval]

theorem units_two {x y : Nat} (hx : x < 0x20) (hy : y < 0x40) (rest : List UInt8) :
    units (UInt8.ofNat (x + 0xc0) :: UInt8.ofNat (y + 0x80) :: rest) = UInt16.ofNat (x * 0x40 + y) :: units rest := by
  obtain ⟨hlt, hlead, hval⟩ := lead2 ⟨x, hx⟩
  have hunit : x * 0x40 + y = x <<< 6 ||| y := by
    rw [← Nat.shiftLeft_add_eq_or_of_lt hy]; omega
  rw [units, if_neg hlt, if_pos hlead]
  simp only [hval, continuation ⟨y, hy⟩]
  rw [hunit, UInt16.ofNat_or, UInt16.ofNat_shiftLeft x 6 (by decide)]
  rfl

theorem units_three {x y z : Nat} (hx : x < 0x10) (hy : y < 0x40) (hz : z < 0x40) (rest : List UInt8) :
    units (UInt8.ofNat (x + 0xe0) :: UInt8.ofNat (y + 0x80) :: UInt8.ofNat (z + 0x80) :: rest) =
      UInt16.ofNat (x * 0x1000 + y * 0x40 + z) :: units rest := by
  obtain ⟨hlt, hnot, hlead, hval⟩ := lead3 ⟨x, hx⟩
  have hhigh : (x <<< 6 + y) <<< 6 = x <<< 12 ||| y <<< 6 := by
    rw [← Nat.shiftLeft_add_eq_or_of_lt (by omega)]; omega
  have hunit : x * 0x1000 + y * 0x40 + z = x <<< 12 ||| y <<< 6 ||| z := by
    rw [← hhigh, ← Nat.shiftLeft_add_eq_or_of_lt hz]; omega
  rw [units, if_neg hlt, if_neg hnot, if_pos hlead]
  simp only [hval, continuation ⟨y, hy⟩, continuation ⟨z, hz⟩]
  rw [hunit, UInt16.ofNat_or, UInt16.ofNat_or, UInt16.ofNat_shiftLeft x 12 (by decide),
    UInt16.ofNat_shiftLeft y 6 (by decide)]
  rfl

/-! ## Characters of the basic plane -/

def unit (c : Char) : UInt16 := UInt16.ofNat c.toNat

theorem units_utf8EncodeChar {c : Char} (hc : c.toNat < 0x10000) (rest : List UInt8) :
    units (String.utf8EncodeChar c ++ rest) = unit c :: units rest := by
  unfold String.utf8EncodeChar unit
  have hv : c.val.toNat = c.toNat := rfl
  dsimp only
  rw [hv]
  split
  · exact units_one (by omega) rest
  · split
    · rw [Nat.mod_eq_of_lt (by omega : c.toNat / 64 < 0x20)]
      refine (units_two (by omega) (by omega) rest).trans ?_
      congr 2; omega
    · rw [if_pos (by omega), Nat.mod_eq_of_lt (by omega : c.toNat / 4096 < 0x10)]
      refine (units_three (by omega) (by omega) (by omega) rest).trans ?_
      congr 2; omega

theorem units_utf8Bytes {s : List Char} (h : ∀ c ∈ s, c.toNat < 0x10000) :
    units (s.flatMap String.utf8EncodeChar) = s.map unit := by
  induction s with
  | nil => rfl
  | cons c s ih =>
    rw [List.flatMap_cons, units_utf8EncodeChar (h c (by simp)), ih fun d hd => h d (by simp [hd])]
    rfl

theorem toNat_unit {c : Char} (hc : c.toNat < 0x10000) : (unit c).toNat = c.toNat := by
  unfold unit
  rw [UInt16.toNat_ofNat', Nat.mod_eq_of_lt hc]

/-- No character is a surrogate, so the units of characters are not paired up. -/
theorem not_surrogate {c : Char} (hc : c.toNat < 0x10000) : isHigh (unit c) = false ∧ isLow (unit c) = false := by
  have hv : c.toNat < 0xD800 ∨ 0xDFFF < c.toNat ∧ c.toNat < 0x110000 := c.valid
  unfold isHigh isLow
  simp only [Bool.and_eq_false_iff, decide_eq_false_iff_not, UInt16.le_iff_toNat_le, UInt16.lt_iff_toNat_lt,
    toNat_unit hc, UInt16.reduceToNat]
  omega

theorem ofUnit_unit {c : Char} (hc : c.toNat < 0x10000) : ofUnit (unit c) = c := by
  obtain ⟨hhigh, hlow⟩ := not_surrogate hc
  unfold ofUnit
  rw [hhigh, hlow, toNat_unit hc, Char.ofNat_toNat]
  rfl

theorem chars_unit : ∀ {s : List Char}, (∀ c ∈ s, c.toNat < 0x10000) → chars (s.map unit) = s
  | [], _ => rfl
  | [c], h => by
    rw [List.map_singleton, chars, ofUnit_unit (h c (by simp))]
  | c :: d :: s, h => by
    have hc := h c (by simp)
    have ih := chars_unit (s := d :: s) fun e he => h e (by simp [he])
    rw [List.map_cons, List.map_cons, chars, (not_surrogate hc).1, ofUnit_unit hc, ← List.map_cons, ih]
    rfl

/-! ## Texts -/

theorem ascii : ∀ x : Fin 0x80, (Char.ofNat x).toNat = x ∧ unit (Char.ofNat x) = (UInt8.ofNat x).toUInt16 := by decide

theorem ascii_unit {b : UInt8} (hb : b < 0x80) :
    (Char.ofNat b.toNat).toNat = b.toNat ∧ unit (Char.ofNat b.toNat) = b.toUInt16 := by
  have h := ascii ⟨b.toNat, hb⟩
  rwa [UInt8.ofNat_toNat] at h

/-- ASCII bytes are characters of their own, so the short cut for them changes nothing. -/
theorem decode_eq (bytes : List UInt8) : decode bytes = String.ofList (chars (units bytes)) := by
  unfold decode
  split
  · rename_i hall
    rw [List.all_eq_true] at hall
    have hascii : ∀ b ∈ bytes, b < 0x80 := fun b hb => by simpa using hall b hb
    have hunits : units bytes = (bytes.map fun b => Char.ofNat b.toNat).map unit := by
      clear hall
      induction bytes with
      | nil => rfl
      | cons b bytes ih =>
        rw [units_ascii (hascii b (by simp)), ih fun d hd => hascii d (by simp [hd]), List.map_cons, List.map_cons,
          (ascii_unit (hascii b (by simp))).2]
    rw [hunits, chars_unit]
    intro c hc
    obtain ⟨b, hb, rfl⟩ := List.mem_map.mp hc
    rw [(ascii_unit (hascii b hb)).1]
    have := b.toNat_lt
    omega
  · rfl

theorem decode_utf8Bytes {s : String} (h : ∀ c ∈ s.toList, c.toNat < 0x10000) : decode (utf8Bytes s) = s := by
  rw [decode_eq]
  unfold utf8Bytes
  rw [units_utf8Bytes h, chars_unit h, String.ofList_toList]

end JvmLint.ClassFile.ModifiedUtf8
