import JvmLint.Check.Basic

/-!
# Types that disagree with a declaration

Return instructions against the method descriptor, and writes to a class's own fields against the
declared type.
-/

namespace JvmLint.DataType

def info : CheckInfo :=
  ⟨"DataTypeCompatibility", .style, "Return instructions or field writes whose type disagrees with the declaration."⟩

/-- Whether a write to one of the class's own fields has another type than the field. -/
def isBadWrite (c : Class) (o : Operation) : Bool :=
  o.op.isFieldWrite && o.owner == c.name &&
    match c.field? o.name with
    | some f => f.desc != o.desc
    | none => false

/-- What there is to say about a body from some line on. A method's return type is reported once,
and so is each of its fields. -/
def scan (c : Class) (m : Method) (declared : ReturnType) : Int → Bool → List String → List Instruction → List Remark
  | _, _, _, [] => []
  | _, returned, fields, .line n :: is => scan c m declared n returned fields is
  | line, returned, fields, .real o :: is =>
    match o.op.returnSort? with
    | some sort =>
      if returned || sort.fits declared then scan c m declared line returned fields is
      else
        { location := methodLocation c m line
          message := "Incompatible return type in method '" ++ m.name ++ "'" } ::
          scan c m declared line true fields is
    | none =>
      if isBadWrite c o && !fields.contains o.name then
        { location := methodLocation c m line
          message := "Incompatible type assigned to field '" ++ o.name ++ "'" } ::
          scan c m declared line returned (o.name :: fields) is
      else scan c m declared line returned fields is
  | line, returned, fields, _ :: is => scan c m declared line returned fields is

def methodRemarks (c : Class) (m : Method) : List Remark :=
  if !m.hasBody then []
  else
    match m.type with
    | .ok t => scan c m t.result 0 false [] m.body
    | .error _ => []

def check : Check := info.localCheck fun c => c.methods.flatMap (methodRemarks c)

end JvmLint.DataType
