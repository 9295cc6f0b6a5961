import JvmLint.Fault
import JvmLint.Model.Class
import JvmLint.Text.Blank
import JvmLint.Text.Letters

/-!
# Findings

A finding is plain text: which check reported what, where.
-/

namespace JvmLint

structure Category where
  name : String
deriving DecidableEq, Repr, Inhabited

namespace Category

def pattern : Category := ⟨"Pattern"⟩
def principle : Category := ⟨"Principle"⟩
def style : Category := ⟨"Style"⟩

/-- Reads a category's name, whatever its case and the blanks around it. -/
def parse (s : String) : Except Fault Category :=
  match [pattern, principle, style].find? fun c => Text.lower c.name == Text.lower (Text.trim s) with
  | some c => .ok c
  | none => .error (.plain ("unknown category " ++ Text.quote s))

end Category

structure Finding where
  checkName : String
  category : Category
  location : String
  message : String
deriving DecidableEq, Repr, Inhabited

def Finding.text (f : Finding) : String :=
  "[" ++ Text.upper f.category.name ++ "] " ++ f.checkName ++ " at " ++ f.location ++ ": " ++ f.message

/-- Where a method is, with the line if it is known. -/
def methodLocation (c : Class) (m : Method) (line : Int) : String :=
  let place := c.displayName ++ "." ++ m.name
  if 0 < line then place ++ ":" ++ toString line else place

end JvmLint
