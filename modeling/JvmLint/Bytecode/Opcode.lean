import JvmLint.Text.Quoted

/-!
# Opcodes

Instruction codes of the virtual machine, their mnemonics, and the groups the analyses look at.
-/

namespace JvmLint

structure Opcode where
  byte : UInt8
deriving DecidableEq, Repr, Inhabited

namespace Opcode

def aconstNull : Opcode := ⟨0x01⟩
def bipush : Opcode := ⟨0x10⟩
def sipush : Opcode := ⟨0x11⟩
def ldc : Opcode := ⟨0x12⟩
def ldcW : Opcode := ⟨0x13⟩
def ldc2W : Opcode := ⟨0x14⟩
def iload : Opcode := ⟨0x15⟩
def aload : Opcode := ⟨0x19⟩
/-- The first of the twenty one-byte loads. -/
def iload0 : Opcode := ⟨0x1a⟩
def aload3 : Opcode := ⟨0x2d⟩
def istore : Opcode := ⟨0x36⟩
def astore : Opcode := ⟨0x3a⟩
/-- The first of the twenty one-byte stores. -/
def istore0 : Opcode := ⟨0x3b⟩
def astore3 : Opcode := ⟨0x4e⟩
def pop : Opcode := ⟨0x57⟩
def iinc : Opcode := ⟨0x84⟩
def ifeq : Opcode := ⟨0x99⟩
def ifAcmpne : Opcode := ⟨0xa6⟩
def goto : Opcode := ⟨0xa7⟩
def jsr : Opcode := ⟨0xa8⟩
def ret : Opcode := ⟨0xa9⟩
def tableswitch : Opcode := ⟨0xaa⟩
def lookupswitch : Opcode := ⟨0xab⟩
def ireturn : Opcode := ⟨0xac⟩
def lreturn : Opcode := ⟨0xad⟩
def freturn : Opcode := ⟨0xae⟩
def dreturn : Opcode := ⟨0xaf⟩
def areturn : Opcode := ⟨0xb0⟩
def vreturn : Opcode := ⟨0xb1⟩
def getstatic : Opcode := ⟨0xb2⟩
def putstatic : Opcode := ⟨0xb3⟩
def getfield : Opcode := ⟨0xb4⟩
def putfield : Opcode := ⟨0xb5⟩
def invokevirtual : Opcode := ⟨0xb6⟩
def invokespecial : Opcode := ⟨0xb7⟩
def invokestatic : Opcode := ⟨0xb8⟩
def invokeinterface : Opcode := ⟨0xb9⟩
def invokedynamic : Opcode := ⟨0xba⟩
def new : Opcode := ⟨0xbb⟩
def newarray : Opcode := ⟨0xbc⟩
def anewarray : Opcode := ⟨0xbd⟩
def athrow : Opcode := ⟨0xbf⟩
def checkcast : Opcode := ⟨0xc0⟩
def instanceof : Opcode := ⟨0xc1⟩
def wide : Opcode := ⟨0xc4⟩
def multianewarray : Opcode := ⟨0xc5⟩
def ifnull : Opcode := ⟨0xc6⟩
def ifnonnull : Opcode := ⟨0xc7⟩
def gotoW : Opcode := ⟨0xc8⟩
def jsrW : Opcode := ⟨0xc9⟩

/-- Mnemonics by code. The one-byte loads and stores have none: decoding replaces them by the
general form with an explicit slot. -/
def mnemonics : Array String := #[
  "nop", "aconst_null", "iconst_m1", "iconst_0", "iconst_1", "iconst_2", "iconst_3", "iconst_4",
  "iconst_5", "lconst_0", "lconst_1", "fconst_0", "fconst_1", "fconst_2", "dconst_0", "dconst_1",
  "bipush", "sipush", "ldc", "ldc_w", "ldc2_w", "iload", "lload", "fload",
  "dload", "aload", "", "", "", "", "", "",
  "", "", "", "", "", "", "", "",
  "", "", "", "", "", "", "iaload", "laload",
  "faload", "daload", "aaload", "baload", "caload", "saload", "istore", "lstore",
  "fstore", "dstore", "astore", "", "", "", "", "",
  "", "", "", "", "", "", "", "",
  "", "", "", "", "", "", "", "iastore",
  "lastore", "fastore", "dastore", "aastore", "bastore", "castore", "sastore", "pop",
  "pop2", "dup", "dup_x1", "dup_x2", "dup2", "dup2_x1", "dup2_x2", "swap",
  "iadd", "ladd", "fadd", "dadd", "isub", "lsub", "fsub", "dsub",
  "imul", "lmul", "fmul", "dmul", "idiv", "ldiv", "fdiv", "ddiv",
  "irem", "lrem", "frem", "drem", "ineg", "lneg", "fneg", "dneg",
  "ishl", "lshl", "ishr", "lshr", "iushr", "lushr", "iand", "land",
  "ior", "lor", "ixor", "lxor", "iinc", "i2l", "i2f", "i2d",
  "l2i", "l2f", "l2d", "f2i", "f2l", "f2d", "d2i", "d2l",
  "d2f", "i2b", "i2c", "i2s", "lcmp", "fcmpl", "fcmpg", "dcmpl",
  "dcmpg", "ifeq", "ifne", "iflt", "ifge", "ifgt", "ifle", "if_icmpeq",
  "if_icmpne", "if_icmplt", "if_icmpge", "if_icmpgt", "if_icmple", "if_acmpeq", "if_acmpne", "goto",
  "jsr", "ret", "tableswitch", "lookupswitch", "ireturn", "lreturn", "freturn", "dreturn",
  "areturn", "return", "getstatic", "putstatic", "getfield", "putfield", "invokevirtual", "invokespecial",
  "invokestatic", "invokeinterface", "invokedynamic", "new", "newarray", "anewarray", "arraylength", "athrow",
  "checkcast", "instanceof", "monitorenter", "monitorexit", "wide", "multianewarray", "ifnull", "ifnonnull",
  "goto_w", "jsr_w"]

def mnemonic? (op : Opcode) : Option String :=
  match mnemonics[op.byte.toNat]? with
  | some name => if name.isEmpty then none else some name
  | none => none

def text (op : Opcode) : String :=
  op.mnemonic?.getD ("op_0x" ++ String.ofList (Text.hexDigits 2 op.byte.toNat))

def within (op lo hi : Opcode) : Bool := lo.byte ≤ op.byte && op.byte ≤ hi.byte

def isDefined (op : Opcode) : Bool :=
  op.mnemonic?.isSome || op.within iload0 aload3 || op.within istore0 astore3

inductive Role where
  | other | fieldAccess | methodCall | conditionalBranch | switch | jump | returns | throws | load | store | increment
deriving DecidableEq, Repr, Inhabited

def Role.text : Role → String
  | .other => "other"
  | .fieldAccess => "field-access"
  | .methodCall => "method-call"
  | .conditionalBranch => "conditional-branch"
  | .switch => "switch"
  | .jump => "jump"
  | .returns => "return"
  | .throws => "throw"
  | .load => "load"
  | .store => "store"
  | .increment => "increment"

/-- Array element loads and stores touch no local variable, so they are `other`. -/
def role (op : Opcode) : Role :=
  if op.within getstatic putfield then .fieldAccess
  else if op.within invokevirtual invokedynamic then .methodCall
  else if op.within ifeq ifAcmpne || op = ifnull || op = ifnonnull then .conditionalBranch
  else if op = tableswitch || op = lookupswitch then .switch
  else if op = goto || op = gotoW || op = jsr || op = jsrW || op = ret then .jump
  else if op.within ireturn vreturn then .returns
  else if op = athrow then .throws
  else if op.within iload aload3 then .load
  else if op.within istore astore3 then .store
  else if op = iinc then .increment
  else .other

def isFieldRead (op : Opcode) : Bool := op = getfield || op = getstatic

def isFieldWrite (op : Opcode) : Bool := op = putfield || op = putstatic

def isConstant (op : Opcode) : Bool := op.within aconstNull ldc2W

end Opcode

end JvmLint
