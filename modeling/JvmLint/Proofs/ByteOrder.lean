import Mathlib.Data.List.Basic

/-!
# The order of encoded texts

Texts are compared character by character, or byte by byte once they are encoded. Both orders are the
same: a character with a larger code point has a larger first byte where the encodings differ in length,
and the digits of a code point stand in the order of their weight.
-/

namespace JvmLint.Text

def bytes (s : String) : List UInt8 := s.toUTF8.data.toList

theorem bytes_eq (s : String) : bytes s = s.toList.flatMap String.utf8EncodeChar := by
  unfold bytes
  rw [String.toUTF8_eq_toByteArray, ← String.utf8Encode_toList, List.utf8Encode, List.toList_data_toByteArray]

theorem cons_byte_lt {m n : Nat} (hn : n < 256) {x y : List UInt8} (h : m < n ∨ m = n ∧ x < y) :
    UInt8.ofNat m :: x < UInt8.ofNat n :: y := by
  rw [List.cons_lt_cons_iff]
  rcases h with hlt | ⟨rfl, htail⟩
  · left
    rw [UInt8.lt_iff_toNat_lt, UInt8.toNat_ofNat', UInt8.toNat_ofNat']
    omega
  · exact .inr ⟨rfl, htail⟩

section
variable {m n : Nat} (h : m < n) (x y : List UInt8)
include h

theorem two_bytes_lt (hn : n < 0x800) :
    UInt8.ofNat (m / 64 % 0x20 + 0xc0) :: UInt8.ofNat (m % 0x40 + 0x80) :: x <
      UInt8.ofNat (n / 64 % 0x20 + 0xc0) :: UInt8.ofNat (n % 0x40 + 0x80) :: y := by
  apply cons_byte_lt (by omega)
  by_cases hlead : m / 64 < n / 64
  · exact .inl (by omega)
  · exact .inr ⟨by omega, cons_byte_lt (by omega) (.inl (by omega))⟩

theorem three_bytes_lt (hn : n < 0x10000) :
    UInt8.ofNat (m / 4096 % 0x10 + 0xe0) :: UInt8.ofNat (m / 64 % 0x40 + 0x80) :: UInt8.ofNat (m % 0x40 + 0x80) :: x <
      UInt8.ofNat (n / 4096 % 0x10 + 0xe0) :: UInt8.ofNat (n / 64 % 0x40 + 0x80) :: UInt8.ofNat (n % 0x40 + 0x80) :: y := by
  apply cons_byte_lt (by omega)
  by_cases hlead : m / 4096 < n / 4096
  · exact .inl (by omega)
  refine .inr ⟨by omega, cons_byte_lt (by omega) ?_⟩
  by_cases hsecond : m / 64 < n / 64
  · exact .inl (by omega)
  · exact .inr ⟨by omega, cons_byte_lt (by omega) (.inl (by omega))⟩

theorem four_bytes_lt (hn : n < 0x110000) :
    UInt8.ofNat (m / 262144 % 0x08 + 0xf0) :: UInt8.ofNat (m / 4096 % 0x40 + 0x80) ::
        UInt8.ofNat (m / 64 % 0x40 + 0x80) :: UInt8.ofNat (m % 0x40 + 0x80) :: x <
      UInt8.ofNat (n / 262144 % 0x08 + 0xf0) :: UInt8.ofNat (n / 4096 % 0x40 + 0x80) ::
        UInt8.ofNat (n / 64 % 0x40 + 0x80) :: UInt8.ofNat (n % 0x40 + 0x80) :: y := by
  apply cons_byte_lt (by omega)
  by_cases hlead : m / 262144 < n / 262144
  · exact .inl (by omega)
  refine .inr ⟨by omega, cons_byte_lt (by omega) ?_⟩
  by_cases hsecond : m / 4096 < n / 4096
  · exact .inl (by omega)
  refine .inr ⟨by omega, cons_byte_lt (by omega) ?_⟩
  by_cases hthird : m / 64 < n / 64
  · exact .inl (by omega)
  · exact .inr ⟨by omega, cons_byte_lt (by omega) (.inl (by omega))⟩

end

/-- The encoding of a smaller character comes first, whatever follows it. -/
theorem utf8EncodeChar_lt {c d : Char} (h : c < d) (x y : List UInt8) :
    String.utf8EncodeChar c ++ x < String.utf8EncodeChar d ++ y := by
  have hlt : c.val.toNat < d.val.toNat := h
  have hd : d.val.toNat < 0x110000 := by
    have hvalid : d.val.toNat < 0xd800 ∨ 0xdfff < d.val.toNat ∧ d.val.toNat < 0x110000 := d.valid
    omega
  unfold String.utf8EncodeChar
  generalize c.val.toNat = m at *
  generalize d.val.toNat = n at *
  -- an encoding of fewer bytes has the smaller first byte
  simp only
  by_cases hm₁ : m ≤ 0x7f
  · simp only [hm₁, if_true, List.cons_append]
    (repeat' split) <;> exact cons_byte_lt (by omega) (.inl (by omega))
  simp only [hm₁, show ¬ n ≤ 0x7f by omega, if_false]
  by_cases hm₂ : m ≤ 0x7ff
  · simp only [hm₂, if_true, List.cons_append]
    by_cases hn₂ : n ≤ 0x7ff
    · rw [if_pos hn₂]
      exact two_bytes_lt hlt x y (by omega)
    · simp only [hn₂, if_false]
      split <;> exact cons_byte_lt (by omega) (.inl (by omega))
  simp only [hm₂, show ¬ n ≤ 0x7ff by omega, if_false]
  by_cases hm₃ : m ≤ 0xffff
  · simp only [hm₃, if_true, List.cons_append]
    by_cases hn₃ : n ≤ 0xffff
    · rw [if_pos hn₃]
      exact three_bytes_lt hlt x y (by omega)
    · simp only [hn₃, if_false]
      exact cons_byte_lt (by omega) (.inl (by omega))
  simp only [hm₃, show ¬ n ≤ 0xffff by omega, if_false]
  exact four_bytes_lt hlt x y hd

theorem encoded_lt {a b : List Char} (h : a < b) :
    a.flatMap String.utf8EncodeChar < b.flatMap String.utf8EncodeChar := by
  induction a generalizing b with
  | nil =>
    cases b with
    | nil => exact absurd h (List.lt_irrefl [])
    | cons d b =>
      have hsome : String.utf8EncodeChar d ≠ [] := by
        rw [← List.length_pos_iff, String.length_utf8EncodeChar]
        exact Char.utf8Size_pos d
      obtain ⟨byte, rest, hencoded⟩ := List.exists_cons_of_ne_nil hsome
      simp [hencoded]
  | cons c a ih =>
    cases b with
    | nil => exact absurd h (List.not_lt_nil _)
    | cons d b =>
      rw [List.flatMap_cons, List.flatMap_cons]
      rcases List.cons_lt_cons_iff.1 h with hcd | ⟨rfl, htail⟩
      · exact utf8EncodeChar_lt hcd _ _
      · exact List.append_left_lt (ih htail)

/-- Byte by byte, texts are ordered as they are character by character. -/
theorem bytes_lt_iff {a b : String} : bytes a < bytes b ↔ a < b := by
  rw [bytes_eq, bytes_eq, String.lt_iff]
  constructor
  · intro h
    rcases Std.lt_trichotomy a.toList b.toList with hlt | heq | hgt
    · exact hlt
    · rw [heq] at h
      exact absurd h (List.lt_irrefl _)
    · exact absurd h (List.lt_asymm (encoded_lt hgt))
  · exact encoded_lt

end JvmLint.Text
