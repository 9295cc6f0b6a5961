import JvmLint.ClassFile.Parse

/-!
# Reading that fails at once

The scans of a class file keep a failure and go on with zeros. Here the same
file is read by readers that stop at the first failure, which is what proofs
can follow step by step. A cut-off index that a scan goes on to look up shows
as `Reader.index`, which reads 0 then. `KeptFailures` proves that the two agree.
-/

namespace JvmLint.ClassFile

abbrev Reader := StateT Cursor (Except Malformed)

namespace Reader

def fail {α : Type} (d : Defect) : Reader α := fun c =>
  .error { defect := d, details := [("offset", toString c.pos)] }

def bytes (n : Nat) : Reader (List UInt8) := fun c =>
  let taken := c.rest.take n
  if taken.length = n then .ok (taken, { rest := c.rest.drop n, pos := c.pos + n })
  else fail (.endOfData n c.rest.length) c

def skip (n : Nat) : Reader Unit := do let _ ← bytes n

def word (n : Nat) : Reader Nat := return wordOf (← bytes n)

def u1 : Reader Nat := word 1

def u2 : Reader Nat := word 2

def u4 : Reader Nat := word 4

def i2 : Reader Int := return Int.bmod (← u2) 0x10000

def i4 : Reader Int := return Int.bmod (← u4) 0x100000000

def index : Reader Nat := fun c =>
  match u2 c with
  | .ok r => .ok r
  | .error _ => .ok (0, c)

def times {α : Type} : Nat → Reader α → Reader (List α)
  | 0, _ => pure []
  | n + 1, r => do
    let a ← r
    let as ← times n r
    return a :: as

def within {α : Type} (r : Reader α) (data : List UInt8) : Reader α := fun c =>
  match r { rest := data } with
  | .ok (a, _) => .ok (a, c)
  | .error e => .error e

def noting {α : Type} (key value : String) (r : Reader α) : Reader α := fun c =>
  match r c with
  | .ok a => .ok a
  | .error e => .error (e.at key value)

def remaining : Reader Nat := fun c => .ok (c.rest.length, c)

def position : Reader Nat := fun c => .ok (c.pos, c)

def reject {α : Type} (d : Defect) : Reader α := fun _ => .error { defect := d }

end Reader

/-! ## Constants -/

namespace ConstantPool

def readConstant (number : Nat) (tag : Nat) : Reader Constant := do
  if tag == 1 then return .utf8 (ModifiedUtf8.decode (← Reader.bytes (← Reader.u2)))
  else if tag == 3 || tag == 4 then Reader.skip 4; return .other tag
  else if isDouble tag then Reader.skip 8; return .other tag
  else if tag == 7 then return .class (← Reader.u2)
  else if tag == 8 || tag == 16 || tag == 19 || tag == 20 then Reader.skip 2; return .other tag
  else if tag == 9 || tag == 10 || tag == 11 then return .member tag (← Reader.u2) (← Reader.u2)
  else if tag == 12 then return .nameAndType (← Reader.u2) (← Reader.u2)
  else if tag == 17 then Reader.skip 2; Reader.skip 2; return .other tag
  else if tag == 18 then Reader.skip 2; return .invokeDynamic (← Reader.u2)
  else if tag == 15 then Reader.skip 1; Reader.skip 2; return .other tag
  else Reader.fail (.unknownTag (UInt8.ofNat tag) number)

/-- The constants from number `number` on, while `left` numbers are still to be given out. An
eight-byte constant may take its second number from beyond the end. -/
def readFrom (number : Nat) : Nat → Reader (List Constant)
  | 0 => pure []
  | 1 => return [← readConstant number (← Reader.u1)]
  | left + 2 => do
    let tag ← Reader.u1
    let c ← readConstant number tag
    if isDouble tag then return c :: .unused :: (← readFrom (number + 2) left)
    else return c :: (← readFrom (number + 1) (left + 1))

def read : Reader ConstantPool := do
  let count ← Reader.u2
  if count = 0 then Reader.fail .emptyPool
  else return { constants := (.unused :: (← readFrom 1 (count - 1))).toArray }

end ConstantPool

def Reader.constant {α : Type} (found : Except Defect α) : Reader α :=
  match found with
  | .ok a => pure a
  | .error d => Reader.reject d

/-! ## Code -/

/-- The number of entries in a jump table. A table that ends at the largest word has no last
entry: it goes on to the end of the code. -/
def tableSize (low high : Int) (available : Nat) : Nat :=
  if high = 0x7fffffff then available / 4 + 1 else (high - low + 1).toNat

def readTable (size pc : Nat) (op : Opcode) : Reader Operation := do
  Reader.skip (padding (← Reader.position))
  let dflt ← Reader.i4
  let low ← Reader.i4
  let high ← Reader.i4
  if high < low || size ≤ Int.bmod (high - low) 0x100000000 then Reader.fail (.switchRange low high)
  else
    let cases ← Reader.times (tableSize low high (← Reader.remaining)) Reader.i4
    return { op, target := pc + dflt, targets := cases.map (pc + ·) }

def readPairs (size pc : Nat) (op : Opcode) : Reader Operation := do
  Reader.skip (padding (← Reader.position))
  let dflt ← Reader.i4
  let pairs ← Reader.i4
  if pairs < 0 || size < pairs * 8 then Reader.fail (.pairCount pairs)
  else
    let cases ← Reader.times pairs.toNat (do Reader.skip 4; Reader.i4)
    return { op, target := pc + dflt, targets := cases.map (pc + ·) }

def readWide : Reader Operation := do
  let op : Opcode := ⟨UInt8.ofNat (← Reader.u1)⟩
  let slot ← Reader.u2
  match layout op with
  | .increment => Reader.skip 2; return { op, slot }
  | .slot => return { op, slot }
  | _ => Reader.fail (.wideOperand op)

def readOperands (pool : ConstantPool) (size pc : Nat) (op : Opcode) : Reader Operation := do
  let lookup {α : Type} (found : Except Defect α) : Reader α :=
    Reader.noting "offset" (toString pc) (Reader.constant found)
  match layout op with
  | .implied general slot => return { op := general, slot }
  | .slot => return { op, slot := ← Reader.u1 }
  | .increment =>
    let slot ← Reader.u1
    Reader.skip 1
    return { op, slot }
  | .ignored general n =>
    Reader.skip n
    return { op := general }
  | .branch => return { op, target := pc + (← Reader.i2) }
  | .wideBranch general => return { op := general, target := pc + (← Reader.i4) }
  | .table => readTable size pc op
  | .pairs => readPairs size pc op
  | .member n =>
    let (owner, name, desc) ← lookup (pool.member (← Reader.index))
    Reader.skip n
    return { op, owner, name, desc }
  | .dynamic =>
    let (name, desc) ← lookup (pool.dynamic (← Reader.index))
    Reader.skip 2
    return { op, name, desc }
  | .type n =>
    let type ← lookup (pool.className (← Reader.index))
    Reader.skip n
    return { op, type }
  | .wide => readWide
  | .undefined => Reader.fail (.unknownOpcode op)

def Defect.isPositional : Defect → Bool
  | .indexOutOfRange _ | .wrongTag .. | .notMember _ => false
  | _ => true

def readInstruction (pool : ConstantPool) (size : Nat) : Reader (Nat × Operation) := do
  let pc ← Reader.position
  let op ← Reader.u1
  return (pc, ← readOperands pool size pc ⟨UInt8.ofNat op⟩)

def readInstructions (pool : ConstantPool) (size : Nat) : Nat → Reader (List (Nat × Operation))
  | 0 => pure []
  | fuel + 1 => do
    if (← Reader.remaining) = 0 then return []
    else
      let i ← readInstruction pool size
      return i :: (← readInstructions pool size fuel)

def noted (e : Malformed) : Malformed := if e.defect.isPositional then e.at "operation" "decode bytecode" else e

def decodeFrom (pool : ConstantPool) (size : Nat) (c : Cursor) : Except Malformed (List (Nat × Operation)) :=
  match readInstructions pool size c.rest.length c with
  | .ok (is, _) => .ok is
  | .error e => .error (noted e)

def readAttribute (pool : ConstantPool) : Reader (String × List UInt8) := do
  let name ← Reader.u2
  let body ← Reader.bytes (← Reader.u4)
  return (← Reader.constant (pool.utf8 name), body)

def readHandler (pool : ConstantPool) : Reader TryCatch := do
  let start ← Reader.u2
  let stop ← Reader.u2
  let handler ← Reader.u2
  let type ← Reader.u2
  return { start, stop, handler, type := ← if type = 0 then pure "" else Reader.constant (pool.className type) }

def readLine : Reader LineEntry := do return (← Reader.u2, ← Reader.u2)

def readLocal (pool : ConstantPool) : Reader LocalVariable := do
  let start ← Reader.index
  let length ← Reader.index
  let nameIndex ← Reader.index
  let descIndex ← Reader.index
  let name ← Reader.constant (pool.utf8 nameIndex)
  let desc ← Reader.constant (pool.utf8 descIndex)
  let slot ← Reader.u2
  return { name, desc, slot, start, stop := start + length }

def counted {α : Type} (r : Reader α) : Reader (List α) := do Reader.times (← Reader.u2) r

def readCodeTable (pool : ConstantPool) : Reader CodeTables := do
  let (name, body) ← readAttribute pool
  if name = "LineNumberTable" then return { lines := ← Reader.within (counted readLine) body }
  else if name = "LocalVariableTable" then
    return { locals := ← Reader.within (counted (readLocal pool)) body }
  else return {}

def linesAt (lines : List LineEntry) (pc : Nat) : List Instruction := (lines.filter (·.1 == pc)).map fun l => .line l.2

/-- The stream: before each instruction its label, then the line markers of its position. -/
def weave (labels : List Label) (lines : List LineEntry) (size : Nat) (is : List (Nat × Operation)) :
    List Instruction :=
  is.flatMap (fun i => labelAt labels i.1 ++ linesAt lines i.1 ++ [.real i.2]) ++ labelAt labels size

def readCode (pool : ConstantPool) : Reader CodeBody := do
  Reader.skip 4
  let code ← Reader.bytes (← Reader.u4)
  let is ← (fun c => (decode pool code).map (·, c) : Reader _)
  let handlers ← counted (readHandler pool)
  let tables ← counted (readCodeTable pool)
  let lines := tables.flatMap (·.lines)
  let locals := tables.flatMap (·.locals)
  return { body := weave (labelled code.length is handlers locals) lines code.length is, locals, handlers }

/-! ## Classes -/

def readField (pool : ConstantPool) : Reader Field := do
  let access ← Reader.index
  let name ← Reader.constant (pool.utf8 (← Reader.index))
  let desc ← Reader.constant (pool.utf8 (← Reader.index))
  let _ ← counted (readAttribute pool)
  return { name, desc, access := ⟨UInt16.ofNat access⟩ }

def readExceptions (pool : ConstantPool) : Reader (List String) :=
  counted (do Reader.constant (pool.className (← Reader.index)))

def readMethodAttribute (pool : ConstantPool) (m : Method) : Reader Method := do
  let (name, body) ← readAttribute pool
  if name = "Code" then
    let code ← Reader.noting "method" m.signature (Reader.within (readCode pool) body)
    return { m with
      body := code.body
      locals := m.locals ++ code.locals
      handlers := m.handlers ++ code.handlers }
  else if name = "Exceptions" then
    return { m with exceptions := m.exceptions ++ (← Reader.within (readExceptions pool) body) }
  else return m

def iterate {α : Type} (step : α → Reader α) : Nat → α → Reader α
  | 0, a => pure a
  | n + 1, a => do iterate step n (← step a)

def readMethod (pool : ConstantPool) : Reader Method := do
  let access ← Reader.index
  let name ← Reader.constant (pool.utf8 (← Reader.index))
  let desc ← Reader.constant (pool.utf8 (← Reader.index))
  let n ← Reader.u2
  iterate (readMethodAttribute pool) n { name, desc, access := ⟨UInt16.ofNat access⟩ }

def readClassAttribute (pool : ConstantPool) (c : Class) : Reader Class := do
  let (name, body) ← readAttribute pool
  if name = "SourceFile" then
    return { c with sourceFile := ← Reader.within (do Reader.constant (pool.utf8 (← Reader.index))) body }
  else return c

def readSuper (pool : ConstantPool) : Reader String := do
  let i ← Reader.index
  if i = 0 then return "" else Reader.constant (pool.className i)

def readClass : Reader Class := do
  if (← Reader.u4) ≠ magic then Reader.reject .badMagic
  Reader.skip 2
  let major ← Reader.u2
  let pool ← ConstantPool.read
  let access ← Reader.index
  let name ← Reader.constant (pool.className (← Reader.index))
  let super ← readSuper pool
  let inClass {α : Type} : Reader α → Reader α := Reader.noting "class" name
  let interfaces ← Reader.times (← inClass Reader.u2) (do Reader.constant (pool.className (← Reader.index)))
  let fields ← inClass (counted (readField pool))
  let methods ← inClass (counted (readMethod pool))
  let n ← inClass Reader.u2
  iterate (readClassAttribute pool) n
    { name, super, interfaces, fields, methods
      access := ⟨UInt16.ofNat access⟩
      major := UInt16.ofNat major }

end JvmLint.ClassFile
