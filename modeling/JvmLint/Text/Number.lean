import JvmLint.Decimal.Fixed
import JvmLint.Text.Letters
import JvmLint.Text.Search

/-!
# Reading numbers
-/

namespace JvmLint.Text

def digitValue? (c : Char) : Option Nat :=
  if '0' ≤ c && c ≤ '9' then some (c.toNat - 48)
  else if 'a' ≤ c && c ≤ 'z' then some (c.toNat - 87)
  else if 'A' ≤ c && c ≤ 'Z' then some (c.toNat - 55)
  else none

def isDigitOf (base : Nat) (c : Char) : Bool := (digitValue? c).any (· < base)

def digitsValue (base : Nat) (ds : List Char) : Nat := ds.foldl (fun n c => base * n + (digitValue? c).getD 0) 0

def signed (s : List Char) : Bool × List Char :=
  match s with
  | '-' :: rest => (true, rest)
  | '+' :: rest => (false, rest)
  | rest => (false, rest)

def word? (negative : Bool) (n : Nat) : Option Int :=
  if negative then if n ≤ Nat.pow 2 63 then some (-(n : Int)) else none
  else if n < Nat.pow 2 63 then some n else none

/-- A decimal machine word with an optional sign and nothing else. -/
def int? (s : String) : Option Int :=
  let (negative, digits) := signed s.toList
  if digits.isEmpty || !digits.all (isDigitOf 10) then none else word? negative (digitsValue 10 digits)

def bool? (s : String) : Option Bool :=
  if ["1", "t", "true"].contains s then some true
  else if ["0", "f", "false"].contains s then some false
  else none

/-- The float nearest to `digits · 10 ^ exponent`; none if that is too large. -/
def decimalFloat? (digits : Nat) (exponent : Int) : Option Float :=
  let top := ((toString digits).length : Int) + exponent
  if digits = 0 || top < -400 then some 0
  else if 400 < top then none
  else
    let f := Float.ofScientific digits (exponent < 0) exponent.natAbs
    if f.isInf then none else some f

/-- The float nearest to `digits · 2 ^ exponent`; none if that is too large. -/
def binaryFloat? (digits : Nat) (exponent : Int) : Option Float :=
  let top := (digits.log2 : Int) + exponent
  if digits = 0 || top < -1200 then some 0
  else if 1200 < top then none
  else
    let f :=
      if exponent < 0 then Float.ofScientific (digits * Nat.pow 5 exponent.natAbs) true exponent.natAbs
      else Float.ofScientific (digits * Nat.pow 2 exponent.natAbs) false 0
    if f.isInf then none else some f

/-- Underscores stand only between digits, or between a base mark and a digit. -/
def underscoresFit (afterDigit : Bool) (hex : Bool) : List Char → Bool
  | [] => true
  | '_' :: rest =>
    afterDigit && (match rest with
      | c :: _ => isDigitOf (if hex then 16 else 10) c
      | [] => false) && underscoresFit false hex rest
  | c :: rest => underscoresFit (isDigitOf (if hex then 16 else 10) c) hex rest

/-- Digits with a point somewhere: all digits and how many come after the point. -/
def mantissa? (base : Nat) (s : List Char) : Option (Nat × Nat) :=
  let whole := s.takeWhile (isDigitOf base)
  let rest := s.dropWhile (isDigitOf base)
  let fraction := match rest with
    | '.' :: fraction => some fraction
    | [] => some []
    | _ => none
  match fraction with
  | some fraction =>
    if !fraction.all (isDigitOf base) || (whole.isEmpty && fraction.isEmpty) then none
    else some (digitsValue base (whole ++ fraction), fraction.length)
  | none => none

/-- An exponent after its mark. -/
def exponent? (s : List Char) : Option Int :=
  let (negative, digits) := signed s
  if digits.isEmpty || !digits.all (isDigitOf 10) then none
  else
    let n := min (digitsValue 10 digits) 100000
    some (if negative then -(n : Int) else n)

/-- Splits at the first of two characters. -/
def cutAt (a b : Char) (s : List Char) : List Char × Option (List Char) :=
  let isMark (c : Char) : Bool := c == a || c == b
  match s.dropWhile (!isMark ·) with
  | _ :: after => (s.takeWhile (!isMark ·), some after)
  | [] => (s, none)

/-- A number without sign in decimal or, after `0x`, in hexadecimal notation. -/
def unsignedFloat? (s : List Char) : Option Float :=
  let plain (s : List Char) : List Char := s.filter (· != '_')
  match s with
  | '0' :: x :: hex =>
    if x = 'x' || x = 'X' then
      match cutAt 'p' 'P' hex with
      | (body, some exp) => do
        if underscoresFit true true body && underscoresFit false false exp then
          let (digits, places) ← mantissa? 16 (plain body)
          binaryFloat? digits ((← exponent? (plain exp)) - 4 * places)
        else none
      | (_, none) => none
    else decimal (plain s) s
  | s => decimal (plain s) s
where
  decimal (digits : List Char) (s : List Char) : Option Float :=
    if underscoresFit false false s then
      match cutAt 'e' 'E' digits with
      | (body, exp) => do
        let (m, places) ← mantissa? 10 body
        let e ← match exp with
          | some exp => exponent? exp
          | none => some 0
        decimalFloat? m (e - places)
    else none

def float? (s : String) : Option Float :=
  let (negative, body) := signed s.toList
  let name := lower (String.ofList body)
  if lower s = "nan" then some (0.0 / 0.0)
  else if name = "inf" || name = "infinity" then some (if negative then -1.0 / 0.0 else 1.0 / 0.0)
  else (unsignedFloat? body).map fun f => if negative then -f else f

/-- Why digits are no machine word. -/
inductive IntDefect where
  | badDigits | outOfRange
deriving DecidableEq, Repr, Inhabited

/-- The base of a number without a sign, and its digits. A zero in front marks another base. -/
def baseOf (s : List Char) : Nat × List Char :=
  match s with
  | '0' :: mark :: digit :: rest =>
    if mark = 'b' || mark = 'B' then (2, digit :: rest)
    else if mark = 'o' || mark = 'O' then (8, digit :: rest)
    else if mark = 'x' || mark = 'X' then (16, digit :: rest)
    else (8, mark :: digit :: rest)
  | '0' :: rest => (8, rest)
  | _ => (10, s)

/-- Reads digits one by one, as long as the number fits 64 bits. Underscores are passed over. -/
def readDigits (base n : Nat) : List Char → Except IntDefect Nat
  | [] => .ok n
  | '_' :: rest => readDigits base n rest
  | c :: rest =>
    match digitValue? c with
    | none => .error .badDigits
    | some d =>
      if base ≤ d then .error .badDigits
      else if Nat.pow 2 64 ≤ base * n + d then .error .outOfRange
      else readDigits base (base * n + d) rest

def anyInt (s : String) : Except IntDefect Int := do
  let (negative, body) := signed s.toList
  if body.isEmpty then .error .badDigits
  let (base, digits) := baseOf body
  let n ← readDigits base 0 digits
  let marked := base == 16 || digits.length + 2 == body.length
  if digits.contains '_' && !underscoresFit marked (base == 16) (if marked then digits else body) then .error .badDigits
  match word? negative n with
  | some i => return i
  | none => .error .outOfRange

def flagBool? (s : String) : Option Bool :=
  if ["1", "t", "T", "true", "TRUE", "True"].contains s then some true
  else if ["0", "f", "F", "false", "FALSE", "False"].contains s then some false
  else none

end JvmLint.Text
