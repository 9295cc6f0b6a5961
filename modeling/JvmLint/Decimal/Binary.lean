/-!
# Binary fractions

A finite float is a sign and a fraction of two whole numbers, the lower one a power of two.
-/

namespace JvmLint

/-- The size of a finite float: `mantissa · 2 ^ exponent`. -/
structure BinaryFraction where
  negative : Bool
  mantissa : Nat
  exponent : Int
  /-- Whether the next smaller float is only half as far away as the next larger one. -/
  atPowerOfTwo : Bool
deriving DecidableEq, Repr, Inhabited

namespace BinaryFraction

def ofFloat (f : Float) : BinaryFraction :=
  let bits : Nat := f.toBits.toNat
  let biased : Nat := bits / Nat.pow 2 52 % Nat.pow 2 11
  let fraction : Nat := bits % Nat.pow 2 52
  { negative := bits / Nat.pow 2 63 == 1
    mantissa := if biased = 0 then fraction else Nat.pow 2 52 + fraction
    exponent := if biased = 0 then -1074 else (biased : Int) - 1075
    atPowerOfTwo := fraction == 0 && 1 < biased }

def num (b : BinaryFraction) : Nat := b.mantissa * Nat.pow 2 b.exponent.toNat

def den (b : BinaryFraction) : Nat := Nat.pow 2 (-b.exponent).toNat

end BinaryFraction

end JvmLint
