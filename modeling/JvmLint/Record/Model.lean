import JvmLint.ClassFile.Assembly
import JvmLint.Model.Class
import JvmLint.Record.Basic

/-!
# Classes as records

An instruction has only the fields that are not zero, and `k` tells what it is if it is no real one.
-/

namespace JvmLint

instance : ToRecord Access := ⟨fun a => record a.bits.toNat⟩
instance : ToRecord Opcode := ⟨fun o => record o.byte.toNat⟩
instance : OfRecord Access := ⟨fun t => ⟨UInt16.ofNat (ofRecord t)⟩⟩
instance : OfRecord Opcode := ⟨fun t => ⟨UInt8.ofNat ((ofRecord t : Int) % 256).toNat⟩⟩

namespace Instruction

/-- A text field that is left out when empty. -/
def textPart (key value : String) : List (String × Toml) := if value = "" then [] else [entry key value]

/-- A number that is left out when zero. -/
def numberPart (key : String) (value : Int) : List (String × Toml) := if value = 0 then [] else [entry key value]

def operands (o : Operation) : List (String × Toml) :=
  numberPart "op" o.op.byte.toNat ++ numberPart "var" o.slot ++ textPart "owner" o.owner ++ textPart "name" o.name ++
    textPart "desc" o.desc ++ textPart "type" o.type ++ numberPart "target" o.target ++
    if o.targets.isEmpty then [] else [entry "targets" o.targets]

def parts : Instruction → List (String × Toml)
  | .real o => operands o
  | .label l => entry "k" "label" :: numberPart "l" l
  | .line n => entry "k" "line" :: numberPart "n" n
  | .frame o => entry "k" "frame" :: operands o

def operation (t : Toml) : Operation :=
  { op := t.part "op", slot := t.part "var", owner := t.part "owner", name := t.part "name", desc := t.part "desc"
    type := t.part "type", target := t.part "target", targets := t.part "targets" }

def ofToml (t : Toml) : Instruction :=
  let kind : String := t.part "k"
  if kind = "label" then .label (t.part "l")
  else if kind = "line" then .line (t.part "n")
  else if kind = "frame" then .frame (operation t)
  else .real (operation t)

end Instruction

instance : ToRecord Instruction := ⟨fun i => .table (entry "s" i.text :: i.parts)⟩
instance : OfRecord Instruction := ⟨Instruction.ofToml⟩

instance : ToRecord LocalVariable := ⟨fun v => .table
  [entry "name" v.name, entry "desc" v.desc, entry "slot" v.slot, entry "start" v.start, entry "end" v.stop]⟩

instance : OfRecord LocalVariable := ⟨fun t =>
  { name := t.part "name", desc := t.part "desc", slot := t.part "slot", start := t.part "start", stop := t.part "end" }⟩

instance : ToRecord TryCatch := ⟨fun h => .table
  [entry "start" h.start, entry "end" h.stop, entry "handler" h.handler, entry "type" h.type]⟩

instance : OfRecord TryCatch := ⟨fun t =>
  { start := t.part "start", stop := t.part "end", handler := t.part "handler", type := t.part "type" }⟩

instance : ToRecord Field := ⟨fun f => .table [entry "name" f.name, entry "desc" f.desc, entry "access" f.access]⟩
instance : OfRecord Field := ⟨fun t => { name := t.part "name", desc := t.part "desc", access := t.part "access" }⟩

instance : ToRecord Method := ⟨fun m => .table
  [entry "name" m.name, entry "desc" m.desc, entry "access" m.access, entry "code" m.body, entry "locals" m.locals,
    entry "try" m.handlers, entry "exceptions" m.exceptions]⟩

instance : OfRecord Method := ⟨fun t =>
  { name := t.part "name", desc := t.part "desc", access := t.part "access", body := t.part "code"
    locals := t.part "locals", handlers := t.part "try", exceptions := t.part "exceptions" }⟩

instance : ToRecord Class := ⟨fun c => .table
  [entry "name" c.name, entry "access" c.access, entry "super" c.super, entry "interfaces" c.interfaces,
    entry "fields" c.fields, entry "methods" c.methods, entry "source" c.sourceFile, entry "origin" c.origin,
    entry "major" c.major.toNat]⟩

instance : OfRecord Class := ⟨fun t =>
  { name := t.part "name", access := t.part "access", super := t.part "super", interfaces := t.part "interfaces"
    fields := t.part "fields", methods := t.part "methods", sourceFile := t.part "source", origin := t.part "origin"
    major := UInt16.ofNat (t.part "major") }⟩

instance : ToRecord ReturnType := ⟨fun
  | .void => .table
    [entry "sort" "void", entry "class" "", entry "dims" (0 : Nat), entry "elem" "void", entry "string" "V", entry "primitive" false,
      entry "reference" false, entry "slots" (0 : Nat), entry "referenced" "", entry "int_like" false]
  | .value t => .table
    [entry "sort" t.sort, entry "class" (t.referenced?.getD ""), entry "dims" t.dims,
      entry "elem" (if t.dims = 0 then "void" else t.base.sort), entry "string" t.text, entry "primitive" t.isPrimitive,
      entry "reference" t.isReference, entry "slots" t.slots, entry "referenced" (t.referenced?.getD ""),
      entry "int_like" t.isIntLike]⟩

end JvmLint
