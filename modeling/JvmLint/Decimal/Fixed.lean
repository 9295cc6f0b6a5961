import JvmLint.Decimal.Binary

/-!
# Numbers with a fixed number of places
-/

namespace JvmLint.Decimal

/-- The nearest whole number to a quotient, halves to the even neighbour. -/
def roundDiv (num den : Nat) : Nat :=
  let q := num / den
  let r := num % den
  if den < 2 * r || (2 * r = den && q % 2 = 1) then q + 1 else q

def padLeft (fill : Char) (width : Nat) (s : String) : String :=
  String.ofList (List.replicate (width - s.length) fill ++ s.toList)

/-- A float to the nearest decimal with `places` digits after the point. -/
def fixed (places : Nat) (f : Float) : String :=
  if f.isNaN then "NaN"
  else if f.isInf then if f < 0 then "-Inf" else "+Inf"
  else
    let b := BinaryFraction.ofFloat f
    let n := roundDiv (b.num * Nat.pow 10 places) b.den
    let whole := toString (n / Nat.pow 10 places)
    let digits := if places = 0 then "" else "." ++ padLeft '0' places (toString (n % Nat.pow 10 places))
    (if b.negative then "-" else "") ++ whole ++ digits

end JvmLint.Decimal
