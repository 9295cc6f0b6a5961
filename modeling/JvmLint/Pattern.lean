import JvmLint.Fault
import JvmLint.Path
import JvmLint.Pattern.Glob
import JvmLint.Text.Blank
import JvmLint.Text.Quoted

/-!
# Name patterns

Patterns over slash-separated names. One with a glob character matches as a glob; any other covers
the name itself and everything below it.
-/

namespace JvmLint

/-- The slash form that patterns and names are compared in; the empty path is empty text. -/
def normalizePath (s : String) : String :=
  let clean := Path.clean (Text.trim (Text.swap s '\\' '/'))
  if clean = "." then "" else clean

/-- Whether `name` is `top` or lies below it, segment by segment. -/
def hasPathPrefix (name top : String) : Bool :=
  let name := normalizePath name
  let top := normalizePath top
  if name = "" || top = "" then name == top else name == top || Text.startsWith name (top ++ "/")

/-- The slash form of a dotted class pattern; one with a slash is in it already. -/
def classPattern (raw : String) : String :=
  if raw.toList.contains '/' then raw else Text.swap raw '.' '/'

structure Pattern where
  /-- The normalized text. -/
  text : String
  glob : Option Glob
deriving DecidableEq, Repr, Inhabited

/-- Why a text is no pattern. -/
inductive PatternDefect where
  | empty (raw : String)
  | invalid (raw : String) (defect : String)
deriving DecidableEq, Repr, Inhabited

def PatternDefect.message : PatternDefect → String
  | empty raw => "empty pattern " ++ Text.quote raw
  | invalid raw defect => "invalid pattern " ++ Text.quote raw ++ ": " ++ defect

def PatternDefect.fault (d : PatternDefect) : Fault := .plain d.message

namespace Pattern

def isGlobChar (c : Char) : Bool := ['*', '?', '[', ']', '\x7b', '\x7d'].contains c

def compile [GlobLibrary] (raw : String) : Except PatternDefect Pattern :=
  let text := normalizePath raw
  if text = "" then .error (.empty raw)
  else if text.toList.any isGlobChar then
    match Glob.compile text with
    | .ok g => .ok { text, glob := some g }
    | .error e => .error (.invalid raw e)
  else .ok { text, glob := none }

/-- Compiles every pattern, or says what is wrong with the first bad one. -/
def compileAll [GlobLibrary] (raws : List String) : Except PatternDefect (List Pattern) := raws.mapM compile

def covers [GlobLibrary] (p : Pattern) (name : String) : Bool :=
  match p.glob with
  | some g => g.matchesAll (normalizePath name)
  | none => hasPathPrefix (normalizePath name) p.text

def specificity (p : Pattern) : Nat := p.text.utf8ByteSize

def anyCovers [GlobLibrary] (ps : List Pattern) (name : String) : Bool := ps.any (·.covers name)

end Pattern

end JvmLint
