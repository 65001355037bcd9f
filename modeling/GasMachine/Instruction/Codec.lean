import GasMachine.Bytes.Basic
import GasMachine.Instruction.Basic
import GasMachine.Instruction.Immediate

/-!
# The byte form of instructions

An opcode byte is followed by operand bytes whose number the bitmask of the program gives.  How
they are split into registers and immediates depends on the operand form alone:

* two registers share a byte, the first in its low half;
* a register that is followed by two immediates shares its byte with the length of the first one;
* the last immediate takes what remains of the instruction, four bytes at most;
* operand bytes past the end of the code are zero.

The encoder writes the shortest immediates and always four bytes for an offset, so that an
instruction's length does not depend on where its target lies.
-/

namespace GasMachine

inductive DecodeError where
  /-- The byte is not an assigned opcode. -/
  | unknownOpcode (byte : UInt8)
  deriving DecidableEq, Repr

namespace Instruction

/-- Operand bytes of one instruction: where they start in the code, and how many belong to it. -/
structure OperandBytes where
  code : ByteArray
  start : Nat
  count : Nat

namespace OperandBytes

/-- The operand byte at `index`, also past the end of the instruction. -/
def byte (operand : OperandBytes) (index : Nat) : UInt8 :=
  Bytes.byteAt operand.code (operand.start + index)

def lowRegister (operand : OperandBytes) : Reg :=
  Reg.clamp (operand.byte 0 &&& 0x0F)

def highRegister (operand : OperandBytes) : Reg :=
  Reg.clamp (operand.byte 0 >>> 4)

def immediate (operand : OperandBytes) (index count : Nat) : UInt32 :=
  Immediate.decode (Bytes.slice operand.code (operand.start + index) count)

/-- The immediate that takes what remains of the instruction from `index` on. -/
def trailing (operand : OperandBytes) (index : Nat) : UInt32 :=
  operand.immediate index (min (operand.count - index) 4)

/-- Two immediates from `index` on, the first with the length that the low bits of `lengthBits`
give. -/
def pair (operand : OperandBytes) (index : Nat) (lengthBits : UInt8) : UInt32 × UInt32 :=
  let firstLength := min (lengthBits &&& 7).toNat 4
  (operand.immediate index firstLength, operand.trailing (index + firstLength))

def decode (operand : OperandBytes) : Form → Operands
  | .bare => .bare
  | .imm => .imm (operand.trailing 0)
  | .regWide =>
    .regWide operand.lowRegister
      (LittleEndian.decode (Bytes.slice operand.code (operand.start + 1) 8))
  | .immImm =>
    let values := operand.pair 1 (operand.byte 0)
    .immImm values.1 values.2
  | .offset => .offset (operand.trailing 0)
  | .regImm => .regImm operand.lowRegister (operand.trailing 1)
  | .regImmImm =>
    let values := operand.pair 1 (operand.byte 0 >>> 4)
    .regImmImm operand.lowRegister values.1 values.2
  | .regImmOffset =>
    let values := operand.pair 1 (operand.byte 0 >>> 4)
    .regImmOffset operand.lowRegister values.1 values.2
  | .regReg => .regReg operand.lowRegister operand.highRegister
  | .regRegImm => .regRegImm operand.lowRegister operand.highRegister (operand.trailing 1)
  | .regRegOffset => .regRegOffset operand.lowRegister operand.highRegister (operand.trailing 1)
  | .regRegImmImm =>
    let values := operand.pair 2 (operand.byte 1)
    .regRegImmImm operand.lowRegister operand.highRegister values.1 values.2
  | .regRegReg =>
    .regRegReg operand.lowRegister operand.highRegister (Reg.clamp (operand.byte 1))

end OperandBytes

/-- The instruction at `pc`, with `count` operand bytes.  Past the end of the code lie traps. -/
def decode (code : ByteArray) (pc count : Nat) : Except DecodeError Instruction :=
  if h : pc < code.size then
    match Opcode.ofByte? code[pc] with
    | none => .error (.unknownOpcode code[pc])
    | some opcode => .ok ⟨opcode, OperandBytes.decode ⟨code, pc + 1, count⟩ opcode.form⟩
  else .ok trap

/-- The byte that holds two registers, or a register and the length of an immediate. -/
def packed (low : Reg) (high : Nat) : UInt8 :=
  low.byte ||| UInt8.ofNat high <<< 4

def offsetBytes (offset : UInt32) : List UInt8 :=
  LittleEndian.ofNat 4 offset.toNat

def encodeOperands : Operands → List UInt8
  | .bare => []
  | .imm value => Immediate.encode value
  | .regWide register value => register.byte :: LittleEndian.ofNat 8 value.toNat
  | .immImm first second =>
    UInt8.ofNat (Immediate.length first) :: (Immediate.encode first ++ Immediate.encode second)
  | .offset offset => offsetBytes offset
  | .regImm register value => register.byte :: Immediate.encode value
  | .regImmImm register first second =>
    packed register (Immediate.length first)
      :: (Immediate.encode first ++ Immediate.encode second)
  | .regImmOffset register value offset =>
    packed register (Immediate.length value) :: (Immediate.encode value ++ offsetBytes offset)
  | .regReg target source => [packed target source.val]
  | .regRegImm left right value => packed left right.val :: Immediate.encode value
  | .regRegOffset left right offset => packed left right.val :: offsetBytes offset
  | .regRegImmImm left right first second =>
    packed left right.val :: UInt8.ofNat (Immediate.length first)
      :: (Immediate.encode first ++ Immediate.encode second)
  | .regRegReg left right target => [packed left right.val, target.byte]

def encode (instruction : Instruction) : List UInt8 :=
  instruction.opcode.byte :: encodeOperands instruction.operands

end Instruction

end GasMachine
