import JvmLint.Fault
import JvmLint.Text.Search
import JvmLint.Total

/-!
# Values separated by commas

A value may stand in double quotes; a quote inside them is written twice. Only the first line counts
that is not empty, but a quoted value may go on over several lines.
-/

namespace JvmLint.Commas

inductive Defect where
  /-- There is no line. -/
  | nothing
  /-- A quote in a value that does not begin with one. -/
  | bareQuote (line column : Nat)
  /-- A quoted value that does not end where it should; it began on the first line given. -/
  | badQuote (start line column : Nat)
deriving DecidableEq, Repr, Inhabited

def Defect.message : Defect → String
  | nothing => "EOF"
  | bareQuote line column => "parse error on line " ++ toString line ++ ", column " ++ toString column ++ ": bare \" in non-quoted-field"
  | badQuote start line column =>
    let place := "parse error on line " ++ toString line ++ ", column " ++ toString column ++ ": "
    (if start = line then place else "record on line " ++ toString start ++ "; " ++ place) ++
      "extraneous or missing \" in quoted-field"

def bytes (cs : List Char) : Nat := total (cs.map Char.utf8Size)

/-- Where reading stands: the line the values began on, the line and the column, from 1. -/
structure Position where
  start : Nat
  line : Nat
  column : Nat
deriving DecidableEq, Repr, Inhabited

def Position.on (p : Position) (n : Nat) : Position := { p with column := p.column + n }

/-- What comes inside quotes and what follows them. The value so far is in reverse. -/
def quoted (p : Position) (done : List Char) : List Char → Except Defect (List Char × Position × List Char)
  | [] => .error (.badQuote p.start p.line p.column)
  | '"' :: '"' :: rest => quoted (p.on 2) ('"' :: done) rest
  | '"' :: rest => .ok (done.reverse, p.on 1, rest)
  | '\n' :: [] => .error (.badQuote p.start p.line (p.column + 1))
  | '\n' :: c :: rest => quoted { p with line := p.line + 1, column := 1 } ('\n' :: done) (c :: rest)
  | c :: rest => quoted (p.on c.utf8Size) (c :: done) rest

/-- One value, where reading then stands, and what follows the comma after it, if one does. -/
def value (p : Position) (s : List Char) : Except Defect (List Char × Position × Option (List Char)) :=
  match s with
  | '"' :: inner => do
    let (v, p, rest) ← quoted (p.on 1) [] inner
    match rest with
    | ',' :: rest => return (v, p.on 1, some rest)
    | [] | '\n' :: _ => return (v, p, none)
    | _ => .error (.badQuote p.start p.line (p.column - 1))
  | _ =>
    let v := s.takeWhile fun c => c != ',' && c != '\n'
    match v.findIdx? (· == '"') with
    | some i => .error (.bareQuote p.line (p.column + bytes (v.take i)))
    | none =>
      match s.drop v.length with
      | ',' :: rest => .ok (v, p.on (bytes v + 1), some rest)
      | _ => .ok (v, p, none)

/-- The values of a record. The number of values is at most the fuel. -/
def values : Nat → Position → List Char → Except Defect (List (List Char))
  | 0, _, _ => .ok []
  | fuel + 1, p, s => do
    match ← value p s with
    | (v, _, none) => return [v]
    | (v, p, some rest) => return v :: (← values fuel p rest)

/-- Lines end with a line feed alone; a carriage return right before one, or at the end, is dropped. -/
def plainLines : List Char → List Char
  | [] => []
  | '\r' :: '\n' :: rest => '\n' :: plainLines rest
  | ['\r'] => []
  | c :: rest => c :: plainLines rest

def parse (s : String) : Except Defect (List String) :=
  if s = "" then .ok []
  else
    let cs := plainLines s.toList
    let rest := cs.dropWhile (· == '\n')
    let line := cs.length - rest.length + 1
    if rest.isEmpty then .error .nothing
    else (values (rest.length + 1) { start := line, line, column := 1 } rest).map fun vs => vs.map String.ofList

end JvmLint.Commas
