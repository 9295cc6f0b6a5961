import JvmLint.Check.Basic

/-!
# Decorators

A class that wraps something of its own supertype should store it, use it and delegate to it.
-/

namespace JvmLint.Decorator

def info : CheckInfo :=
  ⟨"DecoratorQuality", .pattern,
    "Decorator-like classes whose wrapped component is not stored, not used or not delegated to."⟩

def componentTypes (c : Class) : List String := c.interfaces ++ (if c.hasSuper then [c.super] else [])

def isComponent (c : Class) : ValueType → Bool
  | .object name => (componentTypes c).contains name
  | _ => false

def componentFields (c : Class) : List Field :=
  c.fields.filter fun f => !f.access.isStatic &&
    match f.type with
    | .ok t => isComponent c t
    | .error _ => false

def componentConstructors (c : Class) : List Method :=
  c.constructors.filter fun m =>
    match m.type with
    | .ok t => t.params.any (isComponent c)
    | .error _ => false

def writesField (m : Method) : Bool := m.operations.any (·.op.isFieldWrite)

def readsOwn (c : Class) (name : String) (o : Operation) : Bool :=
  o.op == .getfield && o.owner == c.name && o.name == name

def isReferenced (c : Class) (name : String) : Bool :=
  c.methods.any fun m => m.operations.any fun o =>
    (o.op == .getfield || o.op == .putfield) && o.owner == c.name && o.name == name

/-- Whether a call comes while the value read from the field may still be on the stack. A store or
the read of another field drops the value; pushed arguments do not. -/
def delegatesFrom (c : Class) (name : String) : Bool → List Operation → Bool
  | _, [] => false
  | pending, o :: os =>
    match o.role with
    | .methodCall => pending || delegatesFrom c name pending os
    | .store => delegatesFrom c name false os
    | .fieldAccess => delegatesFrom c name (if o.op.isFieldRead then readsOwn c name o else pending) os
    | _ => delegatesFrom c name pending os

def delegatesTo (c : Class) (name : String) : Bool :=
  c.methods.any fun m => delegatesFrom c name false m.operations

def fieldRemark? (c : Class) (f : Field) : Option Remark :=
  let remark (what : String) : Option Remark := some {
    location := c.displayName
    message := "Decorator field '" ++ f.name ++ "' in class " ++ c.simpleName ++ what }
  if !isReferenced c f.name then remark " is never used"
  else if !delegatesTo c f.name then remark " is not properly delegated to"
  else none

def constructorRemark? (c : Class) (m : Method) : Option Remark :=
  if writesField m then none
  else some {
    location := methodLocation c m m.firstLine
    message := "Constructor in decorator class " ++ c.simpleName ++ " takes component parameter but doesn't store it" }

def remarks (c : Class) : List Remark :=
  if !c.isConcrete then []
  else (componentConstructors c).filterMap (constructorRemark? c) ++ (componentFields c).filterMap (fieldRemark? c)

def check : Check := info.localCheck remarks

end JvmLint.Decorator
