import JvmLint.Decimal.Fixed
import JvmLint.Time.Calendar

/-!
# Timestamps

Points in time with the offset of the clock that showed them, and their usual text
`2024-01-31T12:00:00.5+01:00`.
-/

namespace JvmLint

structure Timestamp where
  /-- Nanoseconds since 1970 in UTC. -/
  nanos : Int
  /-- Minutes that the clock is ahead of UTC. -/
  offset : Int := 0
deriving DecidableEq, Repr, Inhabited

namespace Timestamp

def second : Int := 1000000000

/-- The time that stands for none: the first instant of year 1. -/
def zero : Timestamp := { nanos := -62135596800 * second }

def isZero (t : Timestamp) : Bool := t.nanos == zero.nanos

def utc (t : Timestamp) : Timestamp := { t with offset := 0 }

structure Fields where
  date : Date
  hour : Nat
  minute : Nat
  second : Nat
  nanosecond : Nat
deriving DecidableEq, Repr, Inhabited

def fields (t : Timestamp) : Fields :=
  let shown := t.nanos + t.offset * 60 * second
  let seconds := shown / second
  let ofDay := (seconds % 86400).toNat
  { date := .ofDays (seconds / 86400), hour := ofDay / 3600, minute := ofDay / 60 % 60, second := ofDay % 60,
    nanosecond := (shown % second).toNat }

def ofFields (f : Fields) (offset : Int) : Timestamp :=
  let seconds := f.date.toDays * 86400 + f.hour * 3600 + f.minute * 60 + f.second - offset * 60
  { nanos := seconds * second + f.nanosecond, offset }

def padded (width n : Nat) : String := Decimal.padLeft '0' width (toString n)

def yearText (y : Int) : String := (if y < 0 then "-" else "") ++ padded 4 y.natAbs

def dateText (f : Fields) : String := yearText f.date.year ++ "-" ++ padded 2 f.date.month ++ "-" ++ padded 2 f.date.day

def clockText (f : Fields) : String := padded 2 f.hour ++ ":" ++ padded 2 f.minute ++ ":" ++ padded 2 f.second

/-- The fraction of a second without trailing zeros; nothing for none. -/
def fractionText (nanosecond : Nat) : String :=
  if nanosecond = 0 then ""
  else "." ++ String.ofList ((padded 9 nanosecond).toList.reverse.dropWhile (· == '0')).reverse

def offsetText (offset : Int) : String :=
  if offset = 0 then "Z"
  else (if offset < 0 then "-" else "+") ++ padded 2 (offset.natAbs / 60) ++ ":" ++ padded 2 (offset.natAbs % 60)

def secondsText (t : Timestamp) : String :=
  dateText t.fields ++ "T" ++ clockText t.fields ++ offsetText t.offset

def text (t : Timestamp) : String :=
  dateText t.fields ++ "T" ++ clockText t.fields ++ fractionText t.fields.nanosecond ++ offsetText t.offset

def clock (t : Timestamp) : String := clockText t.fields

def dateTimeText (t : Timestamp) : String := dateText t.fields ++ " " ++ t.clock

/-- A run of digits as a number, if it has the given length. -/
def number? (width : Nat) (s : List Char) : Option (Nat × List Char) :=
  let digits := s.take width
  if digits.length = width && digits.all Char.isDigit then
    some (digits.foldl (fun n c => 10 * n + (c.toNat - 48)) 0, s.drop width)
  else none

def literal? (c : Char) : List Char → Option (List Char)
  | [] => none
  | d :: rest => if c = d then some rest else none

/-- A fraction of a second in nanoseconds; further digits are dropped. -/
def fraction? (s : List Char) : Option (Nat × List Char) :=
  match s with
  | '.' :: rest =>
    let digits := rest.takeWhile Char.isDigit
    if digits.isEmpty then none
    else
      (number? 9 ((digits ++ List.replicate 9 '0').take 9)).map fun (n, _) => (n, rest.dropWhile Char.isDigit)
  | _ => some (0, s)

def offset? (s : List Char) : Option Int :=
  match s with
  | ['Z'] => some 0
  | sign :: rest => do
    let (hours, rest) ← number? 2 rest
    let rest ← literal? ':' rest
    let (minutes, rest) ← number? 2 rest
    let size : Int := hours * 60 + minutes
    if !rest.isEmpty || 24 < hours || 60 < minutes then none
    else if sign = '+' then some size else if sign = '-' then some (-size) else none
  | [] => none

def parse? (s : String) : Option Timestamp := do
  let (year, s) ← number? 4 s.toList
  let (month, s) ← number? 2 (← literal? '-' s)
  let (day, s) ← number? 2 (← literal? '-' s)
  let (hour, s) ← number? 2 (← literal? 'T' s)
  let (minute, s) ← number? 2 (← literal? ':' s)
  let (second, s) ← number? 2 (← literal? ':' s)
  let (nanosecond, s) ← fraction? s
  let offset ← offset? s
  if month = 0 || 12 < month || day = 0 || Date.monthLength year month < day || 23 < hour || 59 < minute || 59 < second then
    none
  else some (ofFields { date := { year, month, day }, hour, minute, second, nanosecond } offset)

end Timestamp

end JvmLint
