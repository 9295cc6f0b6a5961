import JvmLint.Pattern.Glob

/-!
# Glob trees

The globs in use: `*` runs over characters of one segment and `**` over segments too, `?` is one
character of a segment, brackets hold a list or one range of characters, and braces hold alternatives.
-/

namespace JvmLint

inductive CharClass where
  | only (c : Char)
  | inSegment
  | listed (negated : Bool) (cs : List Char)
  | between (negated : Bool) (lo hi : Char)
deriving DecidableEq, Repr, Inhabited

def CharClass.has : CharClass → Char → Bool
  | only c, d => c == d
  | inSegment, d => d != '/'
  | listed negated cs, d => cs.contains d != negated
  | between negated lo hi, d => (lo ≤ d && d ≤ hi) != negated

inductive GlobTree where
  | nothing
  | one (cls : CharClass)
  /-- Any run of characters, of one segment unless `deep`. -/
  | run (deep : Bool)
  | seq (a b : GlobTree)
  | alt (a b : GlobTree)
deriving DecidableEq, Repr, Inhabited

/-- Why a text is no glob. -/
inductive GlobDefect where
  | unexpectedEnd
  | expectedClose
  | reversedRange (lo hi : Char)
  | emptyRange
deriving DecidableEq, Repr, Inhabited

def GlobDefect.message : GlobDefect → String
  | unexpectedEnd => "unexpected end of input"
  | expectedClose => "expected close range character"
  | reversedRange lo hi =>
    "hi character '" ++ String.singleton hi ++ "' should be greater than lo '" ++ String.singleton lo ++ "'"
  | emptyRange => "could not parse range"

namespace GlobTree

/-- Some run off the front of the text leaves a rest that `next` accepts. -/
def runs (deep : Bool) (next : List Char → Bool) : List Char → Bool
  | [] => next []
  | c :: s => next (c :: s) || ((deep || c != '/') && runs deep next s)

/-- The glob matches a front part of the text whose rest `next` accepts. -/
def accepts : GlobTree → (List Char → Bool) → List Char → Bool
  | nothing, next, s => next s
  | one cls, next, s =>
    match s with
    | [] => false
    | c :: rest => cls.has c && next rest
  | run deep, next, s => runs deep next s
  | seq a b, next, s => a.accepts (b.accepts next) s
  | alt a b, next, s => a.accepts next s || b.accepts next s

def matchesAll (g : GlobTree) (s : String) : Bool := g.accepts List.isEmpty s.toList

inductive Token where
  | piece (g : GlobTree)
  | opening
  | comma
  | closing

inductive Scan where
  /-- Outside brackets, within so many open braces. -/
  | plain (depth : Nat)
  /-- After `[`, and after the `!` that may follow it. -/
  | bracket (depth : Nat) (negated : Bool)
  | list (depth : Nat) (negated : Bool) (cs : List Char)
  | high (depth : Nat) (negated : Bool) (lo : Char)
  | close (depth : Nat) (negated : Bool) (lo hi : Char)

/-- Splits a glob's text into tokens. A comma or closing brace outside braces stands for itself. -/
def scan : Scan → List Char → Except GlobDefect (List Token)
  | .plain _, [] => .ok []
  | _, [] => .error .unexpectedEnd
  | .plain d, '*' :: '*' :: s => (scan (.plain d) s).map (.piece (.run true) :: ·)
  | .plain d, c :: s =>
    if c = '*' then (scan (.plain d) s).map (.piece (.run false) :: ·)
    else if c = '?' then (scan (.plain d) s).map (.piece (.one .inSegment) :: ·)
    else if c = '[' then scan (.bracket d false) s
    else if c = '\x7b' then (scan (.plain (d + 1)) s).map (.opening :: ·)
    else if c = '\x7d' && d != 0 then (scan (.plain (d - 1)) s).map (.closing :: ·)
    else if c = ',' && d != 0 then (scan (.plain d) s).map (.comma :: ·)
    else (scan (.plain d) s).map (.piece (.one (.only c)) :: ·)
  | .bracket d negated, c :: s =>
    if c = '!' && !negated then scan (.bracket d true) s
    else
      match s with
      | '-' :: s => scan (.high d negated c) s
      | s => if c = ']' then .error .emptyRange else scan (.list d negated [c]) s
  | .list d negated cs, c :: s =>
    if c = ']' then (scan (.plain d) s).map (.piece (.one (.listed negated cs)) :: ·)
    else scan (.list d negated (cs ++ [c])) s
  | .high d negated lo, c :: s => scan (.close d negated lo c) s
  | .close d negated lo hi, c :: s =>
    if c ≠ ']' then .error .expectedClose
    else if hi < lo then .error (.reversedRange lo hi)
    else if lo.toNat = 0 || hi.toNat = 0 then .error .emptyRange
    else (scan (.plain d) s).map (.piece (.one (.between negated lo hi)) :: ·)

/-- An open brace: what stood before it, and the alternatives that are complete. -/
structure Frame where
  before : GlobTree
  done : Option GlobTree

def Frame.add (f : Frame) (g : GlobTree) : GlobTree :=
  match f.done with
  | some h => .alt h g
  | none => g

/-- Puts tokens together. Braces still open at the end are closed there. -/
def build (current : GlobTree) : List Frame → List Token → GlobTree
  | frames, [] => frames.foldl (fun g f => .seq f.before (f.add g)) current
  | frames, .piece g :: ts => build (.seq current g) frames ts
  | frames, .opening :: ts => build .nothing ({ before := current, done := none } :: frames) ts
  | f :: frames, .comma :: ts => build .nothing ({ f with done := some (f.add current) } :: frames) ts
  | f :: frames, .closing :: ts => build (.seq f.before (f.add current)) frames ts
  | [], .comma :: ts => build current [] ts
  | [], .closing :: ts => build current [] ts

def compile (s : String) : Except GlobDefect GlobTree :=
  (scan (.plain 0) s.toList).map (build .nothing [])

end GlobTree

instance : GlobLibrary where
  defect? s :=
    match GlobTree.compile s with
    | .ok _ => none
    | .error defect => some defect.message
  matchesAll g s := ((GlobTree.compile g.text).toOption).any (·.matchesAll s)

end JvmLint
