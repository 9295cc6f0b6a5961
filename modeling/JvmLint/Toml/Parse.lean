import JvmLint.Toml.Scalar

/-!
# Configuration files

A file is a list of statements: headers that open a table, and pairs of a key and a value inside it.
Keys may be dotted. No key is defined twice, except that a table which so far only other keys have
brought about may still be opened, once, and that an array may be set anew. Tables in braces can be
added to like others.
-/

namespace JvmLint.Toml

def isBlank (c : Char) : Bool := c == ' ' || c == '\t'

def skipBlanks (s : List Char) : List Char := s.dropWhile isBlank

def skipFiller : Bool → List Char → Option (List Char)
  | _, [] => some []
  | _, '\n' :: s => skipFiller false s
  | _, '\r' :: '\n' :: s => skipFiller false s
  | true, c :: s => if isForbidden c then none else skipFiller true s
  | false, c :: s => if isBlank c then skipFiller false s else if c = '#' then skipFiller true s else some (c :: s)

def isKeyChar (c : Char) : Bool := c.isAlphanum || c == '_' || c == '-'

def keyPart? (s : List Char) : Option (String × List Char) :=
  match s with
  | '"' :: s => (basic s).map fun (k, rest) => (String.ofList k, rest)
  | '\'' :: s => (literal s).map fun (k, rest) => (String.ofList k, rest)
  | s =>
    let k := s.takeWhile isKeyChar
    if k.isEmpty then none else some (String.ofList k, s.drop k.length)

/-- A dotted key, at most `fuel` parts of it, and what comes after it and blanks. -/
def key? : Nat → List Char → Option (List String × List Char)
  | 0, _ => none
  | fuel + 1, s => do
    let (part, rest) ← keyPart? (skipBlanks s)
    match skipBlanks rest with
    | '.' :: rest =>
      let (parts, rest) ← key? fuel rest
      return (part :: parts, rest)
    | rest => return ([part], rest)

inductive Node where
  | leaf (v : Toml)
  /-- A table, opened by a header or not yet. -/
  | table (opened : Bool) (fields : List (String × Node))
  /-- An array of tables: those before the last, and the last. -/
  | tables (before : List (List (String × Node))) (last : List (String × Node))

abbrev Fields := List (String × Node)

def put (fields : Fields) (k : String) (n : Node) : Fields :=
  if fields.any (·.1 == k) then fields.map fun (l, m) => if l = k then (l, n) else (l, m) else fields ++ [(k, n)]

def alter (change : Option Node → Option Node) (k : String) (fields : Fields) : Option Fields :=
  (change (fields.lookup k)).map (put fields k)

/-- Changes the table at a path. Tables on the way are made if they are missing; of an array of tables
the last is meant. -/
def descend (change : Fields → Option Fields) : List String → Fields → Option Fields
  | [], fields => change fields
  | k :: ks, fields =>
    match fields.lookup k with
    | none => (descend change ks []).map fun sub => put fields k (.table false sub)
    | some (.table opened sub) => (descend change ks sub).map fun sub => put fields k (.table opened sub)
    | some (.tables before last) => (descend change ks last).map fun last => put fields k (.tables before last)
    | some (.leaf _) => none

/-- Opens a table by a header. An array gives way to it. -/
def openTable : Option Node → Option Node
  | none => some (.table true [])
  | some (.table false fields) => some (.table true fields)
  | some (.leaf (.array _)) => some (.table true [])
  | _ => none

def openNext : Option Node → Option Node
  | none => some (.tables [] [])
  | some (.tables before last) => some (.tables (before ++ [last]) [])
  | _ => none

def header (change : Option Node → Option Node) (path : List String) (fields : Fields) : Option Fields :=
  match path.getLast? with
  | some k => descend (alter change k) path.dropLast fields
  | none => none

mutual
def holdsTable : Toml → Bool
  | .table _ => true
  | .array items => anyHoldsTable items
  | _ => false

def anyHoldsTable : List Toml → Bool
  | [] => false
  | v :: vs => holdsTable v || anyHoldsTable vs
end

/-- Sets a value. An array may be set anew and an array may take the place of anything, but one of
tables only that of tables. A table that only other keys have brought about stays, and counts as
opened from then on. -/
def setNode (n : Node) : Option Node → Option Node
  | none => some n
  | some old =>
    match n, old with
    | .leaf (.array items), .tables _ _ => some (.leaf (.array items))
    | .leaf (.array items), _ => if anyHoldsTable items then none else some n
    | n, .leaf (.array _) => some n
    | .leaf _, .table false fields => some (.table true fields)
    | _, _ => none

/-- Sets what a dotted key stands for. Every table it passes that was there before counts as opened
from then on; an array on the way gives way to a table. -/
def setDotted (n : Node) : List String → Fields → Option Fields
  | [], _ => none
  | [k], fields => alter (setNode n) k fields
  | k :: ks, fields =>
    match fields.lookup k with
    | none => (setDotted n ks []).map fun sub => put fields k (.table false sub)
    | some (.table _ sub) => (setDotted n ks sub).map fun sub => put fields k (.table true sub)
    | some (.tables before last) => (setDotted n ks last).map fun last => put fields k (.tables before last)
    | some (.leaf (.array _)) => (setDotted n ks []).map fun sub => put fields k (.table true sub)
    | some (.leaf _) => none

mutual
def Node.value : Node → Toml
  | .leaf v => v
  | .table _ fields => .table (fieldValues fields)
  | .tables before last => .array (tableValues before ++ [.table (fieldValues last)])

def fieldValues : List (String × Node) → List (String × Toml)
  | [] => []
  | (k, n) :: rest => (k, n.value) :: fieldValues rest

def tableValues : List (List (String × Node)) → List Toml
  | [] => []
  | fields :: rest => .table (fieldValues fields) :: tableValues rest
end

/-- A word that is neither string nor bracket ends here. -/
def isWordEnd (c : Char) : Bool := [' ', '\t', '\n', '\r', ',', ']', '\x7d', '#'].contains c

/-- A truth value, number, date or time. A blank may stand between a date and a time. -/
def word (s : List Char) : Option (Toml × List Char) :=
  let w := s.takeWhile (!isWordEnd ·)
  let rest := s.drop w.length
  let long := match date? w, rest with
    | some [], ' ' :: c :: more => if c.isDigit then w ++ ' ' :: (c :: more).takeWhile (!isWordEnd ·) else w
    | _, _ => w
  if w = "true".toList then some (.bool true, rest)
  else if w = "false".toList then some (.bool false, rest)
  else if isMoment long then some (.moment (String.ofList long), s.drop long.length)
  else (number? w).map fun v => (v, rest)

mutual
def value : Nat → List Char → Option (Node × List Char)
  | 0, _ => none
  | fuel + 1, s =>
    let text (read : Option (List Char × List Char)) : Option (Node × List Char) :=
      read.map fun (cs, rest) => (.leaf (.string (String.ofList cs)), rest)
    match s with
    | '"' :: '"' :: '"' :: s => text (multiBasic false (dropNewline s))
    | '"' :: s => text (basic s)
    | '\'' :: '\'' :: '\'' :: s => text (multiLiteral (dropNewline s))
    | '\'' :: s => text (literal s)
    | '[' :: s => (items fuel s).map fun (l, rest) => (.leaf (.array l), rest)
    | '\x7b' :: s => (inlineFields fuel [] s).map fun (fields, rest) => (.table true fields, rest)
    | s => (word s).map fun (v, rest) => (.leaf v, rest)

def items : Nat → List Char → Option (List Toml × List Char)
  | 0, _ => none
  | fuel + 1, s => do
    match ← skipFiller false s with
    | ']' :: rest => return ([], rest)
    | s =>
      let (v, rest) ← value fuel s
      match ← skipFiller false rest with
      | ',' :: rest =>
        let (vs, rest) ← items fuel rest
        return (v.value :: vs, rest)
      | ']' :: rest => return ([v.value], rest)
      | _ => none

def inlineFields : Nat → Fields → List Char → Option (Fields × List Char)
  | 0, _, _ => none
  | fuel + 1, fields, s => do
    match ← skipFiller false s with
    | '\x7d' :: rest => return (fields, rest)
    | s =>
      let (path, rest) ← key? s.length s
      match rest with
      | '=' :: rest =>
        let (v, rest) ← value fuel (skipBlanks rest)
        let fields ← setDotted v path fields
        match ← skipFiller false rest with
        | ',' :: rest => inlineFields fuel fields rest
        | '\x7d' :: rest => return (fields, rest)
        | _ => none
      | _ => none
end

/-- The end of a statement: a comment may follow on its line. -/
def endOfLine? (s : List Char) : Option (List Char) :=
  match skipBlanks s with
  | [] => some []
  | '\n' :: rest => some rest
  | '\r' :: '\n' :: rest => some rest
  | '#' :: rest => skipFiller true rest
  | _ => none

/-- A document under construction: its top table, and the key of the table that is open. -/
structure Document where
  top : Fields := []
  current : List String := []

def statement? (d : Document) (s : List Char) : Option (Document × List Char) :=
  match s with
  | '[' :: '[' :: s => do
    let (path, rest) ← key? s.length s
    match rest with
    | ']' :: ']' :: rest => return ({ top := ← header openNext path d.top, current := path }, ← endOfLine? rest)
    | _ => none
  | '[' :: s => do
    let (path, rest) ← key? s.length s
    match rest with
    | ']' :: rest => return ({ top := ← header openTable path d.top, current := path }, ← endOfLine? rest)
    | _ => none
  | s => do
    let (path, rest) ← key? s.length s
    match rest with
    | '=' :: rest =>
      let (v, rest) ← value s.length (skipBlanks rest)
      return ({ d with top := ← descend (setDotted v path) d.current d.top }, ← endOfLine? rest)
    | _ => none

def statements : Nat → Document → List Char → Option Document
  | fuel, d, s => do
    match ← skipFiller false s, fuel with
    | [], _ => return d
    | _, 0 => none
    | s, fuel + 1 =>
      let (d, rest) ← statement? d s
      statements fuel d rest

/-- The table that a configuration file describes. A byte order mark at its start is skipped. -/
def parse? (s : String) : Option (List (String × Toml)) :=
  let cs := match s.toList with
    | c :: rest => if c.toNat = 0xfeff then rest else c :: rest
    | [] => []
  (statements (cs.length + 1) {} cs).map fun d => fieldValues d.top

end JvmLint.Toml
