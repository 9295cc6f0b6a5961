/-!
# Modified UTF-8

The text encoding of class files: NUL takes two bytes, and characters beyond the basic plane are
written as two surrogates of three bytes each. Decoding never fails; bytes that fit no form, and
surrogates without a partner, become the replacement character.
-/

namespace JvmLint.ClassFile.ModifiedUtf8

def replacement : UInt16 := 0xFFFD

def units : List UInt8 → List UInt16
  | [] => []
  | a :: rest =>
    if a < 0x80 then a.toUInt16 :: units rest
    else if a &&& 0xE0 = 0xC0 then
      match rest with
      | b :: rest => ((a &&& 0x1F).toUInt16 <<< 6 ||| (b &&& 0x3F).toUInt16) :: units rest
      | [] => [replacement]
    else if a &&& 0xF0 = 0xE0 then
      match rest with
      | b :: c :: rest =>
        ((a &&& 0x0F).toUInt16 <<< 12 ||| (b &&& 0x3F).toUInt16 <<< 6 ||| (c &&& 0x3F).toUInt16) :: units rest
      | rest => replacement :: units rest
    else replacement :: units rest

def isHigh (u : UInt16) : Bool := 0xD800 ≤ u && u < 0xDC00

def isLow (u : UInt16) : Bool := 0xDC00 ≤ u && u < 0xE000

def join (high low : UInt16) : Char :=
  Char.ofNat (0x10000 + (high.toNat - 0xD800) * 0x400 + (low.toNat - 0xDC00))

def ofUnit (u : UInt16) : Char :=
  if isHigh u || isLow u then Char.ofNat replacement.toNat else Char.ofNat u.toNat

def chars : List UInt16 → List Char
  | [] => []
  | [u] => [ofUnit u]
  | u :: v :: rest => if isHigh u && isLow v then join u v :: chars rest else ofUnit u :: chars (v :: rest)

/-- The text of encoded bytes. Plain ASCII stands for itself. -/
def decode (bytes : List UInt8) : String :=
  if bytes.all (· < 0x80) then String.ofList (bytes.map fun b => Char.ofNat b.toNat)
  else String.ofList (chars (units bytes))

end JvmLint.ClassFile.ModifiedUtf8
