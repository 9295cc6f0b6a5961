/-!
# Searching text

Cuts, counts and replacements on character lists, and their faces on strings.
-/

namespace JvmLint.Text

/-- Splits around the first occurrence of `sep`. -/
def cut (sep : List Char) : List Char → Option (List Char × List Char)
  | [] => if sep.isEmpty then some ([], []) else none
  | c :: s =>
    if sep.isPrefixOf (c :: s) then some ([], (c :: s).drop sep.length)
    else (cut sep s).map fun (a, b) => (c :: a, b)

/-- Splits around the last occurrence of a character. -/
def cutLast (sep : Char) : List Char → Option (List Char × List Char)
  | [] => none
  | c :: s =>
    match cutLast sep s with
    | some (a, b) => some (c :: a, b)
    | none => if c = sep then some ([], s) else none

/-- Counts occurrences that do not overlap; `skip` characters still belong to the last one. -/
def countFrom (sep : List Char) : Nat → List Char → Nat
  | _, [] => 0
  | 0, c :: s =>
    if sep.isPrefixOf (c :: s) then 1 + countFrom sep (sep.length - 1) s else countFrom sep 0 s
  | skip + 1, _ :: s => countFrom sep skip s

def replaceChar (c : Char) (new : List Char) (s : List Char) : List Char :=
  s.flatMap fun d => if d = c then new else [d]

def contains (s sub : String) : Bool := (cut sub.toList s.toList).isSome

def count (s sub : String) : Nat := countFrom sub.toList 0 s.toList

def startsWith (s p : String) : Bool := p.toList.isPrefixOf s.toList

def endsWith (s p : String) : Bool := p.toList.isSuffixOf s.toList

/-- The text without a trailing `p`, if it ends with one. -/
def dropEnd? (s p : String) : Option String :=
  if endsWith s p then some (String.ofList (s.toList.take (s.length - p.length))) else none

def mapChars (s : String) (f : Char → Char) : String := String.ofList (s.toList.map f)

def swap (s : String) (old new : Char) : String := mapChars s fun c => if c = old then new else c

def replace (s : String) (old : Char) (new : String) : String :=
  String.ofList (replaceChar old new.toList s.toList)

def splitOn (s : String) (sep : Char) : List String := (s.toList.splitOn sep).map String.ofList

def trimEnd (s : String) (p : Char → Bool) : String :=
  String.ofList (s.toList.reverse.dropWhile p).reverse

end JvmLint.Text
