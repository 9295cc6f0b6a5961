import JvmLint.Bytecode.Opcode
import JvmLint.Fault

/-!
# Type descriptors

Field and method descriptors as texts and as types. Reading a descriptor accepts exactly what
writing a type produces; a class name inside one is any non-empty text without a semicolon.
-/

namespace JvmLint

inductive Primitive where
  | boolean | char | byte | short | int | float | long | double
deriving DecidableEq, Repr, Inhabited

namespace Primitive

def letter : Primitive → Char
  | boolean => 'Z'
  | char => 'C'
  | byte => 'B'
  | short => 'S'
  | int => 'I'
  | float => 'F'
  | long => 'J'
  | double => 'D'

def ofLetter? : Char → Option Primitive
  | 'Z' => some boolean
  | 'C' => some char
  | 'B' => some byte
  | 'S' => some short
  | 'I' => some int
  | 'F' => some float
  | 'J' => some long
  | 'D' => some double
  | _ => none

def name : Primitive → String
  | boolean => "boolean"
  | char => "char"
  | byte => "byte"
  | short => "short"
  | int => "int"
  | float => "float"
  | long => "long"
  | double => "double"

end Primitive

inductive ValueType where
  | primitive (p : Primitive)
  | object (className : String)
  | array (element : ValueType)
deriving DecidableEq, Repr, Inhabited

inductive ReturnType where
  | void
  | value (t : ValueType)
deriving DecidableEq, Repr, Inhabited

structure MethodType where
  params : List ValueType
  result : ReturnType
deriving DecidableEq, Repr, Inhabited

namespace ValueType

def slots : ValueType → Nat
  | primitive .long => 2
  | primitive .double => 2
  | _ => 1

def isPrimitive : ValueType → Bool
  | primitive _ => true
  | _ => false

def isReference : ValueType → Bool
  | primitive _ => false
  | _ => true

def isIntLike : ValueType → Bool
  | primitive .boolean => true
  | primitive .char => true
  | primitive .byte => true
  | primitive .short => true
  | primitive .int => true
  | _ => false

def base : ValueType → ValueType
  | array t => t.base
  | t => t

def dims : ValueType → Nat
  | array t => t.dims + 1
  | _ => 0

def referenced? (t : ValueType) : Option String :=
  match t.base with
  | object name => some name
  | _ => none

def sort : ValueType → String
  | primitive p => p.name
  | object _ => "object"
  | array _ => "array"

def chars : ValueType → List Char
  | primitive p => [p.letter]
  | object name => 'L' :: name.toList ++ [';']
  | array t => '[' :: t.chars

def text (t : ValueType) : String := String.ofList t.chars

end ValueType

namespace ReturnType

def chars : ReturnType → List Char
  | void => ['V']
  | value t => t.chars

def text (t : ReturnType) : String := String.ofList t.chars

end ReturnType

/-- Why a text is no descriptor. -/
inductive DescriptorDefect where
  | unexpectedEnd
  | unterminatedClassName
  | unknownTypeCode (byte : UInt8)
  | arrayOfVoid
  | voidField
  | voidParameter
  | trailingCharacters
  | missingOpen
  | unterminatedParameters
deriving DecidableEq, Repr, Inhabited

def DescriptorDefect.message : DescriptorDefect → String
  | unexpectedEnd => "unexpected end"
  | unterminatedClassName => "unterminated class name"
  | unknownTypeCode b => "unknown type code " ++ Text.quoteChar (Char.ofNat b.toNat)
  | arrayOfVoid => "array of void"
  | voidField => "void is not a field type"
  | voidParameter => "void parameter"
  | trailingCharacters => "trailing characters"
  | missingOpen => "missing '('"
  | unterminatedParameters => "unterminated parameter list"

def DescriptorDefect.fault (d : DescriptorDefect) (desc : String) : Fault :=
  .coded { code := .malformedDescriptor, message := d.message, details := [("descriptor", desc)] }

namespace Descriptor

/-- The first byte of a character in UTF-8. -/
def leadByte (c : Char) : UInt8 := (String.utf8EncodeChar c).headD 0

def scanName : List Char → Except DescriptorDefect (List Char × List Char)
  | [] => .error .unterminatedClassName
  | ';' :: rest => .ok ([], rest)
  | c :: rest => (scanName rest).map fun (name, rest) => (c :: name, rest)

def scan : List Char → Except DescriptorDefect (ReturnType × List Char)
  | [] => .error .unexpectedEnd
  | '[' :: rest =>
    match scan rest with
    | .ok (.value t, rest) => .ok (.value (.array t), rest)
    | .ok (.void, _) => .error .arrayOfVoid
    | .error e => .error e
  | 'L' :: rest =>
    match scanName rest with
    | .ok ([], _) => .error .unterminatedClassName
    | .ok (name, rest) => .ok (.value (.object (String.ofList name)), rest)
    | .error e => .error e
  | 'V' :: rest => .ok (.void, rest)
  | c :: rest =>
    match Primitive.ofLetter? c with
    | some p => .ok (.value (.primitive p), rest)
    | none => .error (.unknownTypeCode (leadByte c))

def field (desc : List Char) : Except DescriptorDefect ValueType :=
  match scan desc with
  | .error e => .error e
  | .ok (.void, _) => .error .voidField
  | .ok (.value t, []) => .ok t
  | .ok (.value _, _ :: _) => .error .trailingCharacters

/-- Parameters up to the closing parenthesis; every parameter takes a character of `fuel`. -/
def params : Nat → List Char → Except DescriptorDefect (List ValueType × List Char)
  | _, [] => .error .unterminatedParameters
  | _, ')' :: rest => .ok ([], rest)
  | 0, _ :: _ => .error .unterminatedParameters
  | fuel + 1, c :: s =>
    match scan (c :: s) with
    | .error e => .error e
    | .ok (.void, _) => .error .voidParameter
    | .ok (.value t, rest) => (params fuel rest).map fun (ts, rest) => (t :: ts, rest)

def method : List Char → Except DescriptorDefect MethodType
  | '(' :: rest =>
    match params rest.length rest with
    | .error e => .error e
    | .ok (ps, rest) =>
      match scan rest with
      | .error e => .error e
      | .ok (r, []) => .ok { params := ps, result := r }
      | .ok (_, _ :: _) => .error .trailingCharacters
  | _ => .error .missingOpen

end Descriptor

/-- Reads a field descriptor such as `I`, `Ljava/lang/String;` or `[[J`. -/
def ValueType.parse (desc : String) : Except Fault ValueType :=
  (Descriptor.field desc.toList).mapError (·.fault desc)

/-- Reads a method descriptor such as `(ILjava/lang/String;)V`. -/
def MethodType.parse (desc : String) : Except Fault MethodType :=
  (Descriptor.method desc.toList).mapError (·.fault desc)

/-- The type an instruction's owner names: a class, or an array type when it is one's descriptor. -/
def ValueType.ofOwner (owner : String) : ValueType :=
  if owner.toList.head? = some '[' then
    match Descriptor.field owner.toList with
    | .ok t => t
    | .error _ => .object owner
  else .object owner

/-- The slots that values laid out one after the other start at. -/
def slotsFrom : Nat → List ValueType → List Nat
  | _, [] => []
  | slot, t :: ts => slot :: slotsFrom (slot + t.slots) ts

/-- The slot of each parameter; an instance method keeps slot 0 for its receiver. -/
def MethodType.paramSlots (mt : MethodType) (static : Bool) : List Nat :=
  slotsFrom (if static then 0 else 1) mt.params

/-- The type a return instruction hands back, by the word for it; other instructions have none. -/
inductive ReturnSort where
  | void | int | long | float | double | object
deriving DecidableEq, Repr, Inhabited

def ReturnSort.text : ReturnSort → String
  | .void => "void"
  | .int => "int"
  | .long => "long"
  | .float => "float"
  | .double => "double"
  | .object => "object"

def Opcode.returnSort? (op : Opcode) : Option ReturnSort :=
  if op = ireturn then some .int
  else if op = lreturn then some .long
  else if op = freturn then some .float
  else if op = dreturn then some .double
  else if op = areturn then some .object
  else if op = vreturn then some .void
  else none

def ReturnSort.fits : ReturnSort → ReturnType → Bool
  | .void, declared => declared == .void
  | .int, .value t => t.isIntLike
  | .object, .value t => t.isReference
  | .long, declared => declared == .value (.primitive .long)
  | .float, declared => declared == .value (.primitive .float)
  | .double, declared => declared == .value (.primitive .double)
  | _, .void => false

end JvmLint
