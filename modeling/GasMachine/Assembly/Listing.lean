import GasMachine.Bytes.Hex
import GasMachine.Program.Basic

/-!
# Listings

A listing shows a program as assembly text: the jump table, if there is one, and a line for each
instruction.  Immediates are signed decimal numbers, eight-byte immediates are hexadecimal, and
branches show the offset in the code that they lead to.  An undecodable byte becomes a comment.
-/

namespace GasMachine

def DecodeError.message : DecodeError → String
  | unknownOpcode byte => "unknown opcode: 0x" ++ Hex.padded 2 byte.toNat

namespace Assembly

/-- The signed decimal text of an immediate. -/
def showImmediate (value : UInt32) : String :=
  toString value.toInt32.toInt

def showOperands (pc : UInt32) : Operands → List String
  | .bare => []
  | .imm value => [showImmediate value]
  | .regWide register value => [register.name, "0x" ++ Hex.digits value.toNat]
  | .immImm first second => [showImmediate first, showImmediate second]
  | .offset offset => [toString (pc + offset).toNat]
  | .regImm register value => [register.name, showImmediate value]
  | .regImmImm register first second =>
    [register.name, showImmediate first, showImmediate second]
  | .regImmOffset register value offset =>
    [register.name, showImmediate value, toString (pc + offset).toNat]
  | .regReg target source => [target.name, source.name]
  | .regRegImm left right value => [left.name, right.name, showImmediate value]
  | .regRegOffset left right offset =>
    [left.name, right.name, toString (pc + offset).toNat]
  | .regRegImmImm left right first second =>
    [left.name, right.name, showImmediate first, showImmediate second]
  | .regRegReg left right target => [target.name, left.name, right.name]

def showInstruction (pc : UInt32) (instruction : Instruction) : String :=
  match showOperands pc instruction.operands with
  | [] => instruction.opcode.mnemonic
  | operands => instruction.opcode.mnemonic ++ " " ++ String.intercalate ", " operands

def showLine (pc : Nat) : Except DecodeError Instruction → String
  | .ok instruction => showInstruction (UInt32.ofNat pc) instruction ++ "\n"
  | .error error => "; " ++ toString pc ++ ": " ++ error.message ++ "\n"

/-- The line of the jump table, or nothing if the table is empty. -/
def showJumpTable (program : Program) : String :=
  if program.image.entryCount = 0 then ""
  else
    let targets := (List.range program.image.entryCount).filterMap program.jumpTarget?
    ".jump_table " ++ String.intercalate ", " (targets.map fun target => toString target.toNat)
      ++ "\n"

def disassemble (program : Program) : String :=
  program.instructions.foldl (fun text (pc, decoded) => text ++ showLine pc decoded)
    (showJumpTable program)

end Assembly

end GasMachine
