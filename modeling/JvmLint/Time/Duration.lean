import JvmLint.Text.Number
import JvmLint.Time.Timestamp

/-!
# Durations

Lengths of time in whole nanoseconds, with texts such as `1h2m3.5s` and `250ms`.
-/

namespace JvmLint

abbrev Duration := Int

namespace Duration

def nanosecond : Nat := 1
def microsecond : Nat := 1000
def millisecond : Nat := 1000000
def second : Nat := 1000000000
def minute : Nat := 60 * second
def hour : Nat := 60 * minute

def longest : Int := 9223372036854775807

def inUnit (places n : Nat) (unit : String) : String :=
  let fraction := ((Timestamp.padded places (n % Nat.pow 10 places)).toList.reverse.dropWhile (· == '0')).reverse
  toString (n / Nat.pow 10 places) ++ (if places = 0 || fraction.isEmpty then "" else "." ++ String.ofList fraction) ++ unit

def sizeText (n : Nat) : String :=
  if n = 0 then "0s"
  else if n < microsecond then inUnit 0 n "ns"
  else if n < millisecond then inUnit 3 n "µs"
  else if n < second then inUnit 6 n "ms"
  else if n < minute then inUnit 9 n "s"
  else
    let minutes := n / minute
    let rest := inUnit 9 (n % minute) "s"
    if minutes < 60 then toString minutes ++ "m" ++ rest
    else toString (minutes / 60) ++ "h" ++ toString (minutes % 60) ++ "m" ++ rest

def text (d : Int) : String := (if d < 0 then "-" else "") ++ sizeText d.natAbs

/-- The nearest whole number of milliseconds, halves away from zero. -/
def roundMillis (d : Int) : Int :=
  let size := d.natAbs
  let rounded : Int := ((size + millisecond / 2) / millisecond * millisecond : Nat)
  if d < 0 then max (-rounded) (-longest - 1) else min rounded longest

def toMillis (d : Int) : Int := d.tdiv millisecond

def unit? (name : String) : Option Nat :=
  [("ns", nanosecond), ("us", microsecond), ("µs", microsecond), ("μs", microsecond), ("ms", millisecond),
    ("s", second), ("m", minute), ("h", hour)].lookup name

/-- The digits after a point that fit a machine word, and the power of ten they are over. -/
def fraction (ds : List Char) : Nat × Float :=
  let step (acc : Nat × Float × Bool) (c : Char) : Nat × Float × Bool :=
    let (n, scale, full) := acc
    let next := 10 * n + (c.toNat - 48)
    if full || (Nat.pow 2 63 - 1) / 10 < n || Nat.pow 2 63 < next then (n, scale, true) else (next, scale * 10, false)
  let (n, scale, _) := ds.foldl step (0, 1, false)
  (n, scale)

def component? (s : List Char) : Option (Nat × List Char) := do
  let isDigit := Text.isDigitOf 10
  let whole := s.takeWhile isDigit
  let rest := s.dropWhile isDigit
  let (places, rest) := match rest with
    | '.' :: rest => (rest.takeWhile isDigit, rest.dropWhile isDigit)
    | rest => ([], rest)
  if whole.isEmpty && places.isEmpty then none
  else
    let isUnit (c : Char) : Bool := c != '.' && !isDigit c
    let unit ← unit? (String.ofList (rest.takeWhile isUnit))
    let n := Text.digitsValue 10 whole * unit
    let (f, scale) := fraction places
    let n := if f = 0 then n else n + (Float.ofNat f * (Float.ofNat unit / scale)).toUInt64.toNat
    if Nat.pow 2 63 < Text.digitsValue 10 whole || Nat.pow 2 63 < n then none else some (n, rest.dropWhile isUnit)

def components? : Nat → Nat → List Char → Option Nat
  | _, total, [] => some total
  | 0, _, _ => none
  | fuel + 1, total, s => do
    let (n, rest) ← component? s
    if Nat.pow 2 63 < total + n then none else components? fuel (total + n) rest

/-- Reads texts such as `1h2m3.5s` and `-250ms`; a bare zero needs no unit. -/
def parse? (s : String) : Option Int :=
  let (negative, body) := Text.signed s.toList
  if body = ['0'] then some 0
  else if body.isEmpty then none
  else do
    let n ← components? body.length 0 body
    Text.word? negative n

end Duration

end JvmLint
