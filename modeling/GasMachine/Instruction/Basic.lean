import GasMachine.Opcode
import GasMachine.Register

/-!
# Instructions

An instruction is an opcode with operands.  Immediates are kept as 32-bit words; operations on
whole registers widen them with their sign.  Offsets are relative to the address of the
instruction itself and wrap around the address space.
-/

namespace GasMachine

/-- Operands, one constructor for each operand form. -/
inductive Operands where
  | bare
  | imm (value : UInt32)
  | regWide (register : Reg) (value : UInt64)
  | immImm (first second : UInt32)
  | offset (offset : UInt32)
  | regImm (register : Reg) (value : UInt32)
  | regImmImm (register : Reg) (first second : UInt32)
  | regImmOffset (register : Reg) (value offset : UInt32)
  | regReg (target source : Reg)
  | regRegImm (left right : Reg) (value : UInt32)
  | regRegOffset (left right : Reg) (offset : UInt32)
  | regRegImmImm (left right : Reg) (first second : UInt32)
  | regRegReg (left right target : Reg)
  deriving DecidableEq, Repr

namespace Operands

def form : Operands → Form
  | bare => .bare
  | imm .. => .imm
  | regWide .. => .regWide
  | immImm .. => .immImm
  | offset .. => .offset
  | regImm .. => .regImm
  | regImmImm .. => .regImmImm
  | regImmOffset .. => .regImmOffset
  | regReg .. => .regReg
  | regRegImm .. => .regRegImm
  | regRegOffset .. => .regRegOffset
  | regRegImmImm .. => .regRegImmImm
  | regRegReg .. => .regRegReg

/-- The operands with their relative offset replaced, where they have one. -/
def withOffset (operands : Operands) (offset : UInt32) : Operands :=
  match operands with
  | .offset _ => .offset offset
  | regImmOffset register value _ => .regImmOffset register value offset
  | regRegOffset left right _ => .regRegOffset left right offset
  | other => other

end Operands

structure Instruction where
  opcode : Opcode
  operands : Operands
  deriving DecidableEq, Repr

namespace Instruction

/-- The operands have the form that the opcode asks for. -/
def WellFormed (instruction : Instruction) : Prop :=
  instruction.opcode.form = instruction.operands.form

instance (instruction : Instruction) : Decidable instruction.WellFormed :=
  inferInstanceAs (Decidable (_ = _))

def trap : Instruction := ⟨.trap, .bare⟩

end Instruction

end GasMachine
