import JvmLint.Check.Basic

/-!
# Members that belong together, and members that should be hidden
-/

namespace JvmLint

namespace HashCodeEquals

def info : CheckInfo :=
  ⟨"HashCodeEquals", .principle, "Classes that override equals(Object) without hashCode() or the reverse."⟩

def message (present absent : String) : String :=
  "Class overrides " ++ present ++ " but not " ++ absent ++
    ". Both methods must be overridden together so equal objects share a hash code."

def remarks (c : Class) : List Remark :=
  if c.isInterface then []
  else
    match (c.method? "equals" "(Ljava/lang/Object;)Z").isSome, (c.method? "hashCode" "()I").isSome with
    | true, false => [{ location := c.displayName, message := message "equals()" "hashCode()" }]
    | false, true => [{ location := c.displayName, message := message "hashCode()" "equals()" }]
    | _, _ => []

def check : Check := info.localCheck remarks

end HashCodeEquals

namespace Encapsulation

def info : CheckInfo := ⟨"Encapsulation", .principle, "Instance fields that are not private."⟩

def remarks (c : Class) : List Remark :=
  if c.isInterface then []
  else (c.fields.filter fun f => !f.access.isPrivate && !f.access.isStatic && !f.access.isSynthetic).map fun f => {
    location := c.displayName ++ "." ++ f.name
    message := "Field '" ++ f.name ++ "' in class " ++ c.simpleName ++ " should be private or static." }

def check : Check := info.localCheck remarks

end Encapsulation

end JvmLint
