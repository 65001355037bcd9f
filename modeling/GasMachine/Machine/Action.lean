import GasMachine.Opcode
import GasMachine.Word

/-!
# What opcodes do

Most opcodes differ only in the function that they compute, the width of a memory access or the
condition of a branch.  An action names what is done with the operands, and carries the part in
which opcodes of one kind differ.  Immediates of 64-bit actions are widened with their sign;
32-bit actions compute on the low halves and widen the result with its sign.
-/

namespace GasMachine

/-- What an instruction does with its operands. -/
inductive Action where
  | trap
  /-- Go on with the next instruction. -/
  | proceed
  | callHost
  | jump
  | jumpIndirect
  | loadImmediateJump
  | loadImmediateJumpIndirect
  /-- Load an eight-byte immediate. -/
  | loadWide
  | loadImmediate
  | storeImmediate (width : Nat)
  | storeImmediateIndirect (width : Nat)
  | load (width : Nat) (signed : Bool)
  | store (width : Nat)
  | loadIndirect (width : Nat) (signed : Bool)
  | storeIndirect (width : Nat)
  | branchImmediate (holds : UInt64 → UInt64 → Bool)
  | branch (holds : UInt64 → UInt64 → Bool)
  | unary (compute : UInt64 → UInt64)
  | growHeap
  | immediate32 (compute : UInt32 → UInt32 → UInt32)
  | immediate64 (compute : UInt64 → UInt64 → UInt64)
  /-- Move an immediate if the condition register is zero, or if it is not. -/
  | moveImmediateIf (zero : Bool)
  | binary32 (compute : UInt32 → UInt32 → UInt32)
  | binary64 (compute : UInt64 → UInt64 → UInt64)
  /-- Move a register if the condition register is zero, or if it is not. -/
  | moveIf (zero : Bool)

namespace Opcode

open Word

def action : Opcode → Action
  | .trap => .trap
  | .fallthrough => .proceed
  | .ecalli => .callHost
  | .jump => .jump
  | .jumpInd => .jumpIndirect
  | .loadImmJump => .loadImmediateJump
  | .loadImmJumpInd => .loadImmediateJumpIndirect
  | .loadImm64 => .loadWide
  | .loadImm => .loadImmediate
  | .storeImmU8 => .storeImmediate 1
  | .storeImmU16 => .storeImmediate 2
  | .storeImmU32 => .storeImmediate 4
  | .storeImmU64 => .storeImmediate 8
  | .storeImmIndU8 => .storeImmediateIndirect 1
  | .storeImmIndU16 => .storeImmediateIndirect 2
  | .storeImmIndU32 => .storeImmediateIndirect 4
  | .storeImmIndU64 => .storeImmediateIndirect 8
  | .loadU8 => .load 1 false
  | .loadI8 => .load 1 true
  | .loadU16 => .load 2 false
  | .loadI16 => .load 2 true
  | .loadU32 => .load 4 false
  | .loadI32 => .load 4 true
  | .loadU64 => .load 8 false
  | .storeU8 => .store 1
  | .storeU16 => .store 2
  | .storeU32 => .store 4
  | .storeU64 => .store 8
  | .loadIndU8 => .loadIndirect 1 false
  | .loadIndI8 => .loadIndirect 1 true
  | .loadIndU16 => .loadIndirect 2 false
  | .loadIndI16 => .loadIndirect 2 true
  | .loadIndU32 => .loadIndirect 4 false
  | .loadIndI32 => .loadIndirect 4 true
  | .loadIndU64 => .loadIndirect 8 false
  | .storeIndU8 => .storeIndirect 1
  | .storeIndU16 => .storeIndirect 2
  | .storeIndU32 => .storeIndirect 4
  | .storeIndU64 => .storeIndirect 8
  | .branchEqImm => .branchImmediate fun left right => left == right
  | .branchNeImm => .branchImmediate fun left right => left != right
  | .branchLtUImm => .branchImmediate fun left right => left < right
  | .branchLeUImm => .branchImmediate fun left right => left ≤ right
  | .branchGeUImm => .branchImmediate fun left right => right ≤ left
  | .branchGtUImm => .branchImmediate fun left right => right < left
  | .branchLtSImm => .branchImmediate signedLess
  | .branchLeSImm => .branchImmediate fun left right => !signedLess right left
  | .branchGeSImm => .branchImmediate fun left right => !signedLess left right
  | .branchGtSImm => .branchImmediate fun left right => signedLess right left
  | .branchEq => .branch fun left right => left == right
  | .branchNe => .branch fun left right => left != right
  | .branchLtU => .branch fun left right => left < right
  | .branchLtS => .branch signedLess
  | .branchGeU => .branch fun left right => right ≤ left
  | .branchGeS => .branch fun left right => !signedLess left right
  | .moveReg => .unary id
  | .sbrk => .growHeap
  | .countSetBits64 => .unary fun value => UInt64.ofNat (countOnes 64 value.toNat)
  | .countSetBits32 => .unary fun value => UInt64.ofNat (countOnes 32 (low value).toNat)
  | .leadingZeroBits64 => .unary fun value => UInt64.ofNat (leadingZeros 64 value.toNat)
  | .leadingZeroBits32 => .unary fun value => UInt64.ofNat (leadingZeros 32 (low value).toNat)
  | .trailingZeroBits64 => .unary fun value => UInt64.ofNat (trailingZeros 64 value.toNat)
  | .trailingZeroBits32 => .unary fun value => UInt64.ofNat (trailingZeros 32 (low value).toNat)
  | .signExtend8 => .unary (signExtendLow 8)
  | .signExtend16 => .unary (signExtendLow 16)
  | .zeroExtend16 => .unary fun value => value.toUInt16.toUInt64
  | .reverseBytes => .unary Word.reverseBytes
  | .addImm32 => .immediate32 (· + ·)
  | .mulImm32 => .immediate32 (· * ·)
  | .negAddImm32 => .immediate32 fun value imm => imm - value
  | .shloLImm32 => .immediate32 (· <<< ·)
  | .shloRImm32 => .immediate32 (· >>> ·)
  | .sharRImm32 => .immediate32 shiftRightSigned32
  | .shloLImmAlt32 => .immediate32 fun value imm => imm <<< value
  | .shloRImmAlt32 => .immediate32 fun value imm => imm >>> value
  | .sharRImmAlt32 => .immediate32 fun value imm => shiftRightSigned32 imm value
  | .rotR32Imm => .immediate32 rotateRight32
  | .rotR32ImmAlt => .immediate32 fun value imm => rotateRight32 imm value
  | .addImm64 => .immediate64 (· + ·)
  | .mulImm64 => .immediate64 (· * ·)
  | .negAddImm64 => .immediate64 fun value imm => imm - value
  | .andImm => .immediate64 (· &&& ·)
  | .xorImm => .immediate64 (· ^^^ ·)
  | .orImm => .immediate64 (· ||| ·)
  | .setLtUImm => .immediate64 fun value imm => ofBool (value < imm)
  | .setLtSImm => .immediate64 fun value imm => ofBool (signedLess value imm)
  | .setGtUImm => .immediate64 fun value imm => ofBool (imm < value)
  | .setGtSImm => .immediate64 fun value imm => ofBool (signedLess imm value)
  | .shloLImm64 => .immediate64 (· <<< ·)
  | .shloRImm64 => .immediate64 (· >>> ·)
  | .sharRImm64 => .immediate64 shiftRightSigned64
  | .shloLImmAlt64 => .immediate64 fun value imm => imm <<< value
  | .shloRImmAlt64 => .immediate64 fun value imm => imm >>> value
  | .sharRImmAlt64 => .immediate64 fun value imm => shiftRightSigned64 imm value
  | .rotR64Imm => .immediate64 rotateRight64
  | .rotR64ImmAlt => .immediate64 fun value imm => rotateRight64 imm value
  | .cmovIzImm => .moveImmediateIf true
  | .cmovNzImm => .moveImmediateIf false
  | .add32 => .binary32 (· + ·)
  | .sub32 => .binary32 (· - ·)
  | .mul32 => .binary32 (· * ·)
  | .divU32 => .binary32 divUnsigned32
  | .divS32 => .binary32 divSigned32
  | .remU32 => .binary32 remUnsigned32
  | .remS32 => .binary32 remSigned32
  | .shloL32 => .binary32 (· <<< ·)
  | .shloR32 => .binary32 (· >>> ·)
  | .sharR32 => .binary32 shiftRightSigned32
  | .rotL32 => .binary32 rotateLeft32
  | .rotR32 => .binary32 rotateRight32
  | .add64 => .binary64 (· + ·)
  | .sub64 => .binary64 (· - ·)
  | .mul64 => .binary64 (· * ·)
  | .divU64 => .binary64 divUnsigned64
  | .divS64 => .binary64 divSigned64
  | .remU64 => .binary64 remUnsigned64
  | .remS64 => .binary64 remSigned64
  | .shloL64 => .binary64 (· <<< ·)
  | .shloR64 => .binary64 (· >>> ·)
  | .sharR64 => .binary64 shiftRightSigned64
  | .rotL64 => .binary64 rotateLeft64
  | .rotR64 => .binary64 rotateRight64
  | .mulUpperSS => .binary64 mulUpperSigned
  | .mulUpperUU => .binary64 mulUpperUnsigned
  | .mulUpperSU => .binary64 mulUpperMixed
  | .and => .binary64 (· &&& ·)
  | .xor => .binary64 (· ^^^ ·)
  | .or => .binary64 (· ||| ·)
  | .andInv => .binary64 fun left right => left &&& ~~~right
  | .orInv => .binary64 fun left right => left ||| ~~~right
  | .xnor => .binary64 fun left right => ~~~(left ^^^ right)
  | .setLtU => .binary64 fun left right => ofBool (left < right)
  | .setLtS => .binary64 fun left right => ofBool (signedLess left right)
  | .max => .binary64 signedMax
  | .maxU => .binary64 fun left right => if left ≤ right then right else left
  | .min => .binary64 signedMin
  | .minU => .binary64 fun left right => if left ≤ right then left else right
  | .cmovIz => .moveIf true
  | .cmovNz => .moveIf false

end Opcode

end GasMachine
