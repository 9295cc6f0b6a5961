import JvmLint.Text.Search

/-!
# Class names

Internal names separate packages by slashes; the dotted form is for people.
-/

namespace JvmLint.Name

def object : String := "java/lang/Object"

def constructor : String := "<init>"

def initializer : String := "<clinit>"

def package (name : String) : String :=
  match Text.cutLast '/' name.toList with
  | some (before, _) => String.ofList before
  | none => ""

/-- The last segment, without the enclosing class of a nested one. -/
def simple (name : String) : String :=
  let segment := match Text.cutLast '/' name.toList with
    | some (_, after) => after
    | none => name.toList
  match Text.cutLast '$' segment with
  | some (_, c :: after) => String.ofList (c :: after)
  | _ => String.ofList segment

def dotted (name : String) : String := Text.swap name '/' '.'

def internal (name : String) : String := Text.swap name '.' '/'

end JvmLint.Name
