import JvmLint.Text.Number
import JvmLint.Time.Calendar
import JvmLint.Toml.Value

/-!
# Scalars of configuration files

Strings in their four notations, numbers, truth values, dates and times. Each reader takes a value
off the front of a text and gives the rest.
-/

namespace JvmLint.Toml

/-- Control characters other than tab stand in no string or comment. -/
def isForbidden (c : Char) : Bool := (c.toNat < 0x20 && c != '\t') || c.toNat == 0x7f

def charOfHex? (digits : List Char) : Option Char :=
  if digits.all (Text.isDigitOf 16) then
    let n := Text.digitsValue 16 digits
    if n < 0xd800 || (0xe000 ≤ n && n < 0x110000) then some (Char.ofNat n) else none
  else none

def escaped? (c : Char) : Option Char :=
  [('b', Char.ofNat 8), ('t', '\t'), ('n', '\n'), ('f', Char.ofNat 12), ('r', '\r'), ('e', Char.ofNat 27), ('"', '"'),
    ('\\', '\\')].lookup c

def push (c : Option Char) (read : Option (List Char × List Char)) : Option (List Char × List Char) :=
  match c, read with
  | some c, some (cs, rest) => some (c :: cs, rest)
  | _, _ => none

/-- A string in double quotes, after the opening one. -/
def basic : List Char → Option (List Char × List Char)
  | [] => none
  | '"' :: s => some ([], s)
  | '\\' :: 'x' :: a :: b :: s => push (charOfHex? [a, b]) (basic s)
  | '\\' :: 'u' :: a :: b :: c :: d :: s => push (charOfHex? [a, b, c, d]) (basic s)
  | '\\' :: 'U' :: a :: b :: c :: d :: e :: f :: g :: h :: s => push (charOfHex? [a, b, c, d, e, f, g, h]) (basic s)
  | '\\' :: c :: s => push (escaped? c) (basic s)
  | c :: s => if c = '\\' || isForbidden c then none else push (some c) (basic s)

def atLineEnd (s : List Char) : Bool :=
  match s.dropWhile fun c => c == ' ' || c == '\t' with
  | '\n' :: _ => true
  | '\r' :: '\n' :: _ => true
  | _ => false

/-- Up to two quotes may stand right before the three that close a string. -/
def closing (q : Char) (s : List Char) : Option (List Char × List Char) :=
  let extra := s.takeWhile (· == q)
  if 2 < extra.length then none else some (extra, s.drop extra.length)

/-- A string over several lines in double quotes, after the three opening ones. Blanks and line
breaks are dropped while `skip` holds, which a backslash at a line's end brings about. -/
def multiBasic : Bool → List Char → Option (List Char × List Char)
  | _, [] => none
  | _, '"' :: '"' :: '"' :: s => closing '"' s
  | _, '\\' :: s =>
    if atLineEnd s then multiBasic true s
    else
      match s with
      | 'x' :: a :: b :: s => push (charOfHex? [a, b]) (multiBasic false s)
      | 'u' :: a :: b :: c :: d :: s => push (charOfHex? [a, b, c, d]) (multiBasic false s)
      | 'U' :: a :: b :: c :: d :: e :: f :: g :: h :: s =>
        push (charOfHex? [a, b, c, d, e, f, g, h]) (multiBasic false s)
      | c :: s => push (escaped? c) (multiBasic false s)
      | [] => none
  | skip, '\r' :: '\n' :: s => if skip then multiBasic true s else push (some '\r') (push (some '\n') (multiBasic false s))
  | skip, c :: s =>
    if skip && (c == ' ' || c == '\t' || c == '\n') then multiBasic true s
    else if isForbidden c && c != '\n' then none
    else push (some c) (multiBasic false s)

/-- A string in single quotes, after the opening one. -/
def literal : List Char → Option (List Char × List Char)
  | [] => none
  | c :: s => if c = '\'' then some ([], s) else if isForbidden c then none else push (some c) (literal s)

/-- A string over several lines in single quotes, after the three opening ones. -/
def multiLiteral : List Char → Option (List Char × List Char)
  | [] => none
  | '\'' :: '\'' :: '\'' :: s => closing '\'' s
  | '\r' :: '\n' :: s => push (some '\r') (push (some '\n') (multiLiteral s))
  | c :: s => if isForbidden c && c != '\n' then none else push (some c) (multiLiteral s)

/-- Drops a line break right after the opening quotes. -/
def dropNewline : List Char → List Char
  | '\n' :: s => s
  | '\r' :: '\n' :: s => s
  | s => s

def digits? (base : Nat) (s : List Char) : Option (List Char) :=
  let plain := s.filter (· != '_')
  if !plain.isEmpty && plain.all (Text.isDigitOf base) && Text.underscoresFit false (base == 16) s then some plain else none

/-- Decimal digits without superfluous zeros in front. -/
def wholeDigits? (s : List Char) : Option (List Char) :=
  match digits? 10 s with
  | some ('0' :: _ :: _) => none
  | ds => ds

def wholeNumber? (negative : Bool) (s : List Char) : Option Toml :=
  match wholeDigits? s with
  | some ds => (Text.word? negative (Text.digitsValue 10 ds)).map .int
  | none => none

def fractionalNumber? (negative : Bool) (s : List Char) : Option Toml := do
  let (body, exp) := Text.cutAt 'e' 'E' s
  let (whole, places) ← match Text.cut ['.'] body with
    | some (whole, places) => do some (← wholeDigits? whole, ← digits? 10 places)
    | none => do some (← wholeDigits? body, [])
  let e ← match exp with
    | some exp => do
      let (negative, ds) := Text.signed exp
      let ds ← digits? 10 ds
      let n := min (Text.digitsValue 10 ds) 100000
      some (if negative then -(n : Int) else n)
    | none => some 0
  let f ← Text.decimalFloat? (Text.digitsValue 10 (whole ++ places)) (e - places.length)
  return .float (if negative then -f else f)

def number? (s : List Char) : Option Toml :=
  let inBase (base : Nat) (ds : List Char) : Option Toml := do
    let ds ← digits? base ds
    (Text.word? false (Text.digitsValue base ds)).map .int
  match s with
  | '0' :: 'x' :: ds => inBase 16 ds
  | '0' :: 'o' :: ds => inBase 8 ds
  | '0' :: 'b' :: ds => inBase 2 ds
  | s =>
    let (negative, body) := Text.signed s
    if body = ['i', 'n', 'f'] then some (.float (if negative then -1.0 / 0.0 else 1.0 / 0.0))
    else if body = ['n', 'a', 'n'] then some (.float (0.0 / 0.0))
    else if body.any fun c => c == '.' || c == 'e' || c == 'E' then fractionalNumber? negative body
    else wholeNumber? negative body

def twoDigits? (bound : Nat) (s : List Char) : Option (List Char) :=
  match s with
  | a :: b :: rest =>
    if a.isDigit && b.isDigit && Text.digitsValue 10 [a, b] < bound then some rest else none
  | _ => none

def after? (c : Char) (s : List Char) : Option (List Char) :=
  match s with
  | d :: rest => if c = d then some rest else none
  | [] => none

def date? (s : List Char) : Option (List Char) := do
  let year := s.take 4
  if year.length = 4 && year.all Char.isDigit then
    let months ← after? '-' (s.drop 4)
    let rest ← twoDigits? 13 months
    let days ← after? '-' rest
    let month := Text.digitsValue 10 (months.take 2)
    let rest ← twoDigits? (Date.monthLength (Text.digitsValue 10 year) month + 1) days
    if month = 0 || Text.digitsValue 10 (days.take 2) = 0 then none else some rest
  else none

/-- Hours and minutes, and seconds with a fraction if there are any. -/
def clock? (s : List Char) : Option (List Char) := do
  let rest ← twoDigits? 60 (← after? ':' (← twoDigits? 24 s))
  match rest with
  | ':' :: rest =>
    let rest ← twoDigits? 60 rest
    match rest with
    | '.' :: places => if (places.takeWhile Char.isDigit).isEmpty then none else some (places.dropWhile Char.isDigit)
    | rest => some rest
  | rest => some rest

def offsetEnd (s : List Char) : Bool :=
  match s with
  | [] => true
  | [c] => c == 'Z' || c == 'z'
  | c :: rest =>
    (c == '+' || c == '-') && (do twoDigits? 60 (← after? ':' (← twoDigits? 24 rest))) == some []

def isMoment (s : List Char) : Bool :=
  match date? s with
  | some [] => true
  | some (sep :: rest) => [' ', 'T', 't'].contains sep && (clock? rest).any offsetEnd
  | none => clock? s == some []

end JvmLint.Toml
