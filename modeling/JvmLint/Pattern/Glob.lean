/-!
# Globs

A library compiles the text of a glob, or says what is wrong with it, and tells what a compiled glob
matches. Which one does that is left open here.
-/

namespace JvmLint

/-- A compiled glob, which its text tells. -/
structure Glob where
  text : String
deriving DecidableEq, Repr, Inhabited

class GlobLibrary where
  /-- What is wrong with a text that is no glob. -/
  defect? : String → Option String
  /-- Whether a glob matches the whole of a text. -/
  matchesAll : Glob → String → Bool

namespace Glob
variable [GlobLibrary]

def compile (s : String) : Except String Glob :=
  match GlobLibrary.defect? s with
  | some defect => .error defect
  | none => .ok ⟨s⟩

def matchesAll (g : Glob) (s : String) : Bool := GlobLibrary.matchesAll g s

end Glob

end JvmLint
