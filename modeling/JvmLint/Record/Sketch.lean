import JvmLint.Model.Build
import JvmLint.Record.Model

/-!
# Sketches of classes

Records that say in short what classes are made of, to be built or assembled.
-/

namespace JvmLint

def unhex : List Char → List UInt8
  | a :: b :: rest =>
    let value (c : Char) : Nat := if c.isDigit then c.toNat - 48 else c.toNat - 87
    UInt8.ofNat (value a * 16 + value b) :: unhex rest
  | _ => []

def Instruction.ofSketch (t : Toml) : Instruction :=
  let op : Opcode := t.part "op"
  let member (op : Opcode) : Instruction := .real { op, owner := t.part "owner", name := t.part "name", desc := t.part "desc" }
  match (t.part "f" : String) with
  | "load" | "store" => .real { op, slot := t.part "var" }
  | "iinc" => .real { op := .iinc, slot := t.part "var" }
  | "getfield" => member .getfield
  | "putfield" => member .putfield
  | "getstatic" => member .getstatic
  | "putstatic" => member .putstatic
  | "invoke" => member op
  | "new" => .real { op := .new, type := t.part "owner" }
  | "jump" => .real { op, target := t.part "to" }
  | "switch" => .real { op := .tableswitch, target := t.part "to", targets := t.part "cases" }
  | "label" => .label (t.part "to")
  | "line" => .line (t.part "to")
  | _ => .real { op }

def Method.ofSketch (t : Toml) : Method :=
  let body := (t.part "body" : List Toml).map Instruction.ofSketch
  match (t.part "kind" : String) with
  | "static" => .static (t.part "name") (t.part "desc") body
  | "abstract" => .abstract (t.part "name") (t.part "desc")
  | "constructor" => .constructor (t.part "super") (t.part "desc") body
  | _ => .plain (t.part "name") (t.part "desc") body

def Class.ofSketch (t : Toml) : Class :=
  let name := t.part "name"
  let parents := t.part "implements"
  let c := if (t.part "interface" : Bool) then Class.interface name parents else { Class.plain name with interfaces := parents }
  let c := if (t.part "abstract" : Bool) then c.makeAbstract else c
  let super := t.part "extends"
  { c with super := if super = "" then c.super else super, fields := t.part "fields"
           methods := (t.part "methods" : List Toml).map Method.ofSketch }

instance : OfRecord ClassFile.Assembly.Member := ⟨fun t =>
  { access := t.part "access", name := t.part "name", desc := t.part "desc"
    code := match (t.part "code" : Toml) with
      | .string "false" => some ClassFile.Assembly.returnFalse
      | .string "void" => some ClassFile.Assembly.returnVoid
      | .string s => some (unhex s.toList)
      | _ => none }⟩

instance : OfRecord ClassFile.Assembly := ⟨fun t =>
  let a : ClassFile.Assembly :=
    { name := t.part "name", super := t.part "super", interfaces := t.part "interfaces", fields := t.part "fields"
      methods := t.part "methods" }
  if (t.asTable.getD []).any (·.1 == "access") then { a with access := t.part "access" } else a⟩

end JvmLint
