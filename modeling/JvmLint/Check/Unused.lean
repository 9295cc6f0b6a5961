import JvmLint.Check.Basic

/-!
# Unused parameters and fields
-/

namespace JvmLint

namespace UnusedParameter

def info : CheckInfo := ⟨"UnusedParameter", .style, "Method parameters that the method body never reads."⟩

def reads (slot : Nat) (o : Operation) : Bool :=
  (o.role == .load || o.role == .increment) && o.slot == slot

def paramName (m : Method) (slot ordinal : Nat) : String :=
  match m.localName? slot with
  | some name => if name = "this" then "param" ++ toString ordinal else name
  | none => "param" ++ toString ordinal

/-- The parameters that the body never reads: their slots and positions. -/
def unread (m : Method) (t : MethodType) : List (Nat × Nat) :=
  (t.paramSlots m.access.isStatic).zipIdx.filter fun (slot, _) => !m.operations.any (reads slot)

def methodRemarks (c : Class) (m : Method) : List Remark :=
  if m.access.isAbstract || m.access.isNative || m.isInitializer then []
  else
    match m.type with
    | .error _ => []
    | .ok t => (unread m t).map fun (slot, i) => {
        location := methodLocation c m m.firstLine
        message := "Unused parameter '" ++ paramName m slot i ++ "' in method '" ++ m.name ++ "'" }

def check : Check := info.localCheck fun c => c.methods.flatMap (methodRemarks c)

end UnusedParameter

namespace UnusedField

def info : CheckInfo := ⟨"UnusedField", .style, "Fields that no method of the declaring class reads or writes."⟩

def isUsed (c : Class) (name : String) : Bool :=
  c.methods.any fun m => m.operations.any fun o => o.role == .fieldAccess && o.owner == c.name && o.name == name

def remarks (c : Class) : List Remark :=
  (c.fields.filter fun f => !isUsed c f.name).map fun f => {
    location := c.displayName ++ "." ++ f.name
    message := "Field '" ++ f.name ++ "' is declared but never used." }

def check : Check := info.localCheck remarks

end UnusedField

end JvmLint
