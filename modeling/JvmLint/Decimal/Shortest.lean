import JvmLint.Decimal.Fixed

/-!
# The fewest digits that read back

Every decimal closer to a float than to its neighbours reads back as that float. Of those with the
fewest digits the nearest is taken. The interval of decimals that read back is searched on grids of
one, two and more digits; on each grid only the two points around the value can be in it.
-/

namespace JvmLint.Decimal

/-- The decimals that read back as a float, as whole numbers over `den`. -/
structure Interval where
  low : Nat
  value : Nat
  high : Nat
  den : Nat
  /-- Whether the ends belong to it. -/
  closed : Bool
deriving DecidableEq, Repr, Inhabited

namespace Interval

def of (b : BinaryFraction) : Interval :=
  let scale := Nat.pow 2 b.exponent.toNat
  { low := (4 * b.mantissa - (if b.atPowerOfTwo then 1 else 2)) * scale
    value := 4 * b.mantissa * scale
    high := (4 * b.mantissa + 2) * scale
    den := 4 * b.den
    closed := b.mantissa % 2 == 0 }

def has (i : Interval) (num den : Nat) : Bool :=
  let x := num * i.den
  (i.low * den < x && x < i.high * den) || (i.closed && (x == i.low * den || x == i.high * den))

end Interval

structure Scientific where
  digits : Nat
  exponent : Int
deriving DecidableEq, Repr, Inhabited

/-- The point with this many digits that reads back, if there is one; `top` is the exponent of the
power of ten just above the value. -/
def onGrid? (i : Interval) (top : Int) (count : Nat) : Option Scientific :=
  let e := top - count
  let up := Nat.pow 10 e.toNat
  let down := Nat.pow 10 (-e).toNat
  let below := i.value * down / (i.den * up)
  let rest := i.value * down - below * (i.den * up)
  let inside (d : Nat) : Bool := i.has (d * up) down
  let pick (d : Nat) : Option Scientific := some { digits := d, exponent := e }
  match inside below, inside (below + 1) with
  | true, true =>
    if 2 * rest < i.den * up || (2 * rest = i.den * up && below % 2 = 0) then pick below else pick (below + 1)
  | true, false => pick below
  | false, true => pick (below + 1)
  | false, false => none

/-- Without trailing zeros in the digits. -/
def Scientific.trim (s : Scientific) : Scientific :=
  let zeros := ((toString s.digits).toList.reverse.takeWhile (· == '0')).length
  if s.digits = 0 then s else { digits := s.digits / Nat.pow 10 zeros, exponent := s.exponent + zeros }

/-- The shortest decimal of a positive finite float. Seventeen digits always suffice. -/
def shortest (b : BinaryFraction) : Scientific :=
  if b.mantissa = 0 then { digits := 0, exponent := 0 }
  else
    let i := Interval.of b
    let guess : Int := ((toString i.value).length : Int) - (toString i.den).length
    let top := if i.den * Nat.pow 10 guess.toNat ≤ i.value * Nat.pow 10 (-guess).toNat then guess + 1 else guess
    (((List.range 17).findSome? fun n => onGrid? i top (n + 1)).getD { digits := b.num, exponent := 0 }).trim

structure Layout where
  /-- Positional notation is used when the exponent of the first digit is in this range. -/
  lowest : Int
  highest : Int
  /-- The least number of digits of an exponent. -/
  exponentWidth : Nat
deriving DecidableEq, Repr, Inhabited

/-- Digits with a point after the first `whole` of them. -/
def positional (digits : List Char) (whole : Int) : List Char :=
  if whole ≤ 0 then '0' :: '.' :: (List.replicate (-whole).toNat '0' ++ digits)
  else if digits.length ≤ whole.toNat then digits ++ List.replicate (whole.toNat - digits.length) '0'
  else digits.take whole.toNat ++ '.' :: digits.drop whole.toNat

def exponential (width : Nat) (digits : List Char) (exponent : Int) : List Char :=
  let point := match digits with
    | d :: e :: rest => d :: '.' :: e :: rest
    | ds => ds
  point ++ 'e' :: (if exponent < 0 then '-' else '+') :: (padLeft '0' width (toString exponent.natAbs)).toList

def shortestText (l : Layout) (f : Float) : String :=
  if f.isNaN then "NaN"
  else if f.isInf then if f < 0 then "-Inf" else "+Inf"
  else
    let b := BinaryFraction.ofFloat f
    let s := shortest b
    let digits := (toString s.digits).toList
    let first := s.exponent + digits.length - 1
    let body :=
      if s.digits = 0 then ['0']
      else if l.lowest ≤ first && first < l.highest then positional digits (first + 1)
      else exponential l.exponentWidth digits first
    String.ofList (if b.negative then '-' :: body else body)

end JvmLint.Decimal
