import JvmLint.ClassFile.ConstantPool
import JvmLint.Model.Class

/-!
# Code

Instructions are decoded to one canonical form each: one-byte loads and stores become the general
form with an explicit slot, `wide` is folded into what it widens, and `ldc_w`, `goto_w` and
`jsr_w` become their short forms. Labels and line markers are then merged into the stream.
-/

namespace JvmLint.ClassFile

def padding (pos : Nat) : Nat := (4 - pos % 4) % 4

inductive Layout where
  /-- Nothing: the code itself stands for a general opcode and a slot. -/
  | implied (general : Opcode) (slot : Nat)
  /-- A slot in one byte. -/
  | slot
  /-- A slot and an amount, a byte each. -/
  | increment
  /-- Bytes that no analysis looks at. -/
  | ignored (general : Opcode) (n : Nat)
  /-- A displacement in two bytes. -/
  | branch
  /-- A displacement in four bytes. -/
  | wideBranch (general : Opcode)
  /-- Padding and a jump table. -/
  | table
  /-- Padding and pairs of a key and a displacement. -/
  | pairs
  /-- The number of a field or method reference, and bytes that no analysis looks at. -/
  | member (n : Nat)
  /-- The number of a dynamic call site and two empty bytes. -/
  | dynamic
  /-- The number of a class, and bytes that no analysis looks at. -/
  | type (n : Nat)
  /-- The opcode that is widened, with a slot in two bytes. -/
  | wide
  | undefined
deriving DecidableEq, Repr, Inhabited

def layout (op : Opcode) : Layout :=
  if op.within .iload0 .aload3 then
    let rel := op.byte - Opcode.iload0.byte
    .implied ⟨Opcode.iload.byte + rel / 4⟩ (rel % 4).toNat
  else if op.within .istore0 .astore3 then
    let rel := op.byte - Opcode.istore0.byte
    .implied ⟨Opcode.istore.byte + rel / 4⟩ (rel % 4).toNat
  else if op.within .iload .aload || op.within .istore .astore || op = .ret then .slot
  else if op = .iinc then .increment
  else if op = .bipush || op = .ldc || op = .newarray then .ignored op 1
  else if op = .sipush || op = .ldc2W then .ignored op 2
  else if op = .ldcW then .ignored .ldc 2
  else if op.within .ifeq .jsr || op = .ifnull || op = .ifnonnull then .branch
  else if op = .gotoW then .wideBranch .goto
  else if op = .jsrW then .wideBranch .jsr
  else if op = .tableswitch then .table
  else if op = .lookupswitch then .pairs
  else if op.within .getstatic .invokestatic then .member 0
  else if op = .invokeinterface then .member 2
  else if op = .invokedynamic then .dynamic
  else if op = .new || op = .anewarray || op = .checkcast || op = .instanceof then .type 0
  else if op = .multianewarray then .type 1
  else if op = .wide then .wide
  else if op.isDefined then .ignored op 0
  else .undefined

def scanTable (size pc : Nat) (op : Opcode) : Scan Operation := do
  Scan.skip (padding (← Scan.position))
  let dflt ← Scan.i4
  let low ← Scan.i4
  let high ← Scan.i4
  if high < low || size ≤ (high - low).toInt then
    Scan.fail (.switchRange low.toInt high.toInt)
    return { op, target := pc + dflt.toInt }
  else
    let cases ← Scan.cases low high
    return { op, target := pc + dflt.toInt, targets := cases.map (pc + ·.toInt) }

def scanPairs (size pc : Nat) (op : Opcode) : Scan Operation := do
  Scan.skip (padding (← Scan.position))
  let dflt ← Scan.i4
  let pairs := (← Scan.i4).toInt
  if pairs < 0 || size < pairs * 8 then
    Scan.fail (.pairCount pairs)
    return { op, target := pc + dflt.toInt }
  else
    let cases ← Scan.each pairs.toNat (do Scan.skip 4; Scan.i4)
    return { op, target := pc + dflt.toInt, targets := cases.map (pc + ·.toInt) }

def scanWide : Scan Operation := do
  let op : Opcode := ⟨UInt8.ofNat (← Scan.u1)⟩
  let slot ← Scan.u2
  match layout op with
  | .increment => Scan.skip 2; return { op, slot }
  | .slot => return { op, slot }
  | _ => Scan.fail (.wideOperand op); return { op, slot }

def scanOperands (pool : ConstantPool) (size pc : Nat) (op : Opcode) : Scan Operation := do
  let lookup {α : Type} (found : Except Defect α) : Scan α :=
    Scan.noting "offset" (toString pc) (Scan.constant found)
  match layout op with
  | .implied general slot => return { op := general, slot }
  | .slot => return { op, slot := ← Scan.u1 }
  | .increment =>
    let slot ← Scan.u1
    Scan.skip 1
    return { op, slot }
  | .ignored general n =>
    Scan.skip n
    return { op := general }
  | .branch => return { op, target := pc + (← Scan.i2).toInt }
  | .wideBranch general => return { op := general, target := pc + (← Scan.i4).toInt }
  | .table => scanTable size pc op
  | .pairs => scanPairs size pc op
  | .member n =>
    let (owner, name, desc) ← lookup (pool.member (← Scan.u2))
    Scan.skip n
    return { op, owner, name, desc }
  | .dynamic =>
    let (name, desc) ← lookup (pool.dynamic (← Scan.u2))
    Scan.skip 2
    return { op, name, desc }
  | .type n =>
    let type ← lookup (pool.className (← Scan.u2))
    Scan.skip n
    return { op, type }
  | .wide => scanWide
  | .undefined => Scan.fail (.unknownOpcode op); return { op }

def scanInstruction (pool : ConstantPool) (size : Nat) : Scan (Nat × Operation) := do
  let pc ← Scan.position
  let o ← Scan.checkedAs (·.at "operation" "decode bytecode") do
    scanOperands pool size pc ⟨UInt8.ofNat (← Scan.u1)⟩
  return (pc, o)

def scanInstructions (pool : ConstantPool) (size : Nat) : Nat → Scan (List (Nat × Operation))
  | 0 => pure []
  | fuel + 1 => do
    if ← Scan.done then return []
    else
      let i ← scanInstruction pool size
      return i :: (← scanInstructions pool size fuel)

def decode (pool : ConstantPool) (code : List UInt8) : Except Malformed (List (Nat × Operation)) :=
  match scanInstructions pool code.length code.length { rest := code } with
  | .ok (is, _) => .ok is
  | .error e => .error e

def scanAttribute (pool : ConstantPool) : Scan (String × Tape) := do
  let (name, body) ← Scan.checked do return (← Scan.u2, ← Scan.sub (← Scan.u4))
  return (← Scan.constant (pool.utf8 name), body)

def scanHandler (pool : ConstantPool) : Scan TryCatch := do
  let start ← Scan.u2
  let stop ← Scan.u2
  let handler ← Scan.u2
  let type ← Scan.u2
  return { start, stop, handler, type := ← if type = 0 then pure "" else Scan.constant (pool.className type) }

abbrev LineEntry := Nat × Nat

def scanLine : Scan LineEntry := do return (← Scan.u2, ← Scan.u2)

def scanLocal (pool : ConstantPool) : Scan LocalVariable := do
  let start ← Scan.u2
  let length ← Scan.u2
  let nameIndex ← Scan.u2
  let descIndex ← Scan.u2
  let slot ← Scan.u2
  let name ← Scan.constant (pool.utf8 nameIndex)
  let desc ← Scan.constant (pool.utf8 descIndex)
  return { name, desc, slot, start, stop := start + length }

structure CodeTables where
  lines : List LineEntry := []
  locals : List LocalVariable := []
deriving DecidableEq, Repr, Inhabited

/-- The body of an attribute of code. Only a table of lines is scanned to its end whatever happens. -/
def scanTableBody (pool : ConstantPool) (name : String) : Scan CodeTables := Scan.checked do
  if name = "LineNumberTable" then return { lines := ← Scan.times (← Scan.u2) scanLine }
  else if name = "LocalVariableTable" then return { locals := ← Scan.counted (scanLocal pool) }
  else return {}

def scanCodeTable (pool : ConstantPool) : Scan CodeTables := do
  let (name, body) ← scanAttribute pool
  Scan.within body (scanTableBody pool name)

/-- The positions an instruction can go on to other than the next one. -/
def jumps (o : Operation) : List Label :=
  match o.role with
  | .conditionalBranch | .switch => o.target :: o.targets
  | .jump => if o.op = .ret then [] else [o.target]
  | _ => []

/-- The positions in code of `size` bytes that get a label, if an instruction or the end of the code is there. -/
def labelled (size : Nat) (is : List (Nat × Operation)) (handlers : List TryCatch) (locals : List LocalVariable) :
    List Label :=
  (is.flatMap (fun i => jumps i.2) ++ handlers.flatMap (fun h => [h.start, h.stop, h.handler]) ++
    locals.flatMap fun v => [v.start, v.stop]).filter fun p => 0 ≤ p && p ≤ size

/-- The label of a position, if it has one. -/
def labelAt (labels : List Label) (pc : Nat) : List Instruction :=
  if labels.contains (pc : Int) then [.label pc] else []

/-- Passes over the entries up to `pc`. Those at `pc` become markers; the others are dropped. -/
def passLines (pc : Nat) : List LineEntry → List Instruction × List LineEntry
  | [] => ([], [])
  | l :: lines =>
    if l.1 ≤ pc then
      let (markers, left) := passLines pc lines
      (if l.1 = pc then .line l.2 :: markers else markers, left)
    else ([], l :: lines)

/-- Merges labels and line markers into the instructions. `lines` are the entries not passed yet. -/
def merge (labels : List Label) (size : Nat) : List LineEntry → List (Nat × Operation) → List Instruction
  | _, [] => labelAt labels size
  | lines, (pc, o) :: is =>
    let (markers, left) := passLines pc lines
    labelAt labels pc ++ markers ++ .real o :: merge labels size left is

structure CodeBody where
  body : List Instruction
  locals : List LocalVariable
  handlers : List TryCatch
deriving DecidableEq, Repr, Inhabited

def scanCode (pool : ConstantPool) : Scan CodeBody := do
  let code ← Scan.checked do
    Scan.skip 4
    Scan.bytes (← Scan.u4)
  let is ← (decode pool code : Except _ _)
  let (handlers, tables) ← Scan.checked do
    return (← Scan.counted (scanHandler pool), ← Scan.counted (scanCodeTable pool))
  let locals := tables.flatMap (·.locals)
  let lines := (tables.flatMap (·.lines)).mergeSort fun a b => a.1 ≤ b.1
  return { body := merge (labelled code.length is handlers locals) code.length lines is, locals, handlers }

end JvmLint.ClassFile
