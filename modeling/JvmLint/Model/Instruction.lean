import JvmLint.Bytecode.Descriptor

/-!
# Instructions

A method body is a stream of real instructions with markers between them: labels at jump
targets and range ends, line numbers, and frames. Only the operands the analyses need are kept.
-/

namespace JvmLint

abbrev Label := Int

/-- A real instruction. Operands that its opcode does not use are left at their defaults. -/
structure Operation where
  op : Opcode := ⟨0⟩
  /-- The local-variable slot of a load, store, increment or `ret`. -/
  slot : Int := 0
  /-- The member of a field or method instruction; dynamic calls have no owner. -/
  owner : String := ""
  name : String := ""
  desc : String := ""
  /-- The class operand of an allocation, cast or type test. -/
  type : String := ""
  /-- The destination of a branch, the default destination of a switch. -/
  target : Label := 0
  /-- One destination for each case of a switch. -/
  targets : List Label := []
deriving DecidableEq, Repr, Inhabited

inductive Instruction where
  | real (o : Operation)
  | label (l : Label)
  | line (n : Int)
  /-- A frame marker; operands that its record carried along mean nothing. -/
  | frame (residue : Operation)
deriving DecidableEq, Repr, Inhabited

namespace Operation

def role (o : Operation) : Opcode.Role := o.op.role

def text (o : Operation) : String :=
  match o.role with
  | .fieldAccess | .methodCall =>
    let member := if o.owner = "" then "" else o.owner ++ "."
    o.op.text ++ " " ++ member ++ o.name ++ o.desc
  | .load | .store | .increment => o.op.text ++ " " ++ toString o.slot
  | .conditionalBranch | .jump =>
    if o.op = .ret then o.op.text ++ " " ++ toString o.slot
    else o.op.text ++ " L" ++ toString o.target
  | .switch => o.op.text ++ " cases=" ++ toString o.targets.length ++ " default=L" ++ toString o.target
  | _ => if o.type = "" then o.op.text else o.op.text ++ " " ++ o.type

end Operation

namespace Instruction

def real? : Instruction → Option Operation
  | real o => some o
  | _ => none

def isReal (i : Instruction) : Bool := i.real?.isSome

/-- The role of a real instruction; markers play none. -/
def role : Instruction → Opcode.Role
  | real o => o.role
  | _ => .other

def text : Instruction → String
  | real o => o.text
  | label l => "L" ++ toString l ++ ":"
  | line n => "line " ++ toString n
  | frame _ => "frame"

end Instruction

end JvmLint
