import GasMachine.Bytes.LittleEndian

/-!
# Machine words

Registers hold 64-bit words and some operations work on their low 32 bits.  Addition, subtraction,
multiplication and the logical operations are those of `UInt32` and `UInt64`; this module adds what
the instruction set asks for beyond them.  Division never faults: a zero divisor has a defined
quotient and remainder, and the one quotient that does not fit wraps around.
-/

namespace GasMachine.Word

/-- How many of the low `width` bits of `value` are one. -/
def countOnes : (width value : Nat) → Nat
  | 0, _ => 0
  | width + 1, value => value % 2 + countOnes width (value / 2)

/-- How many of the low `width` bits of `value` are zero below the first one bit. -/
def trailingZeros : (width value : Nat) → Nat
  | 0, _ => 0
  | width + 1, value => if value % 2 = 1 then 0 else trailingZeros width (value / 2) + 1

/-- How many of the low `width` bits of `value` are zero above the last one bit. -/
def leadingZeros : (width value : Nat) → Nat
  | 0, _ => 0
  | width + 1, value => if value.testBit width then 0 else leadingZeros width value + 1

def signExtend (value : UInt32) : UInt64 :=
  value.toInt32.toInt64.toUInt64

/-- The 64-bit word with the signed value of the low `bits` bits of `value`. -/
def signExtendLow (bits : UInt64) (value : UInt64) : UInt64 :=
  ((value <<< (64 - bits)).toInt64 >>> (64 - bits).toInt64).toUInt64

def low (value : UInt64) : UInt32 := value.toUInt32

def ofBool (value : Bool) : UInt64 := if value then 1 else 0

def signedLess (left right : UInt64) : Bool :=
  left.toInt64 < right.toInt64

/-- The larger of two words as signed numbers; the second of two equal ones. -/
def signedMax (left right : UInt64) : UInt64 :=
  if signedLess right left then left else right

/-- The smaller of two words as signed numbers; the first of two equal ones. -/
def signedMin (left right : UInt64) : UInt64 :=
  if signedLess right left then right else left

/-! ### Shifts and rotations

The amount of a shift counts modulo the width. -/

def shiftRightSigned32 (value amount : UInt32) : UInt32 :=
  (value.toInt32 >>> amount.toInt32).toUInt32

def shiftRightSigned64 (value amount : UInt64) : UInt64 :=
  (value.toInt64 >>> amount.toInt64).toUInt64

def rotateLeft32 (value amount : UInt32) : UInt32 :=
  value <<< amount ||| value >>> (32 - amount % 32)

def rotateRight32 (value amount : UInt32) : UInt32 :=
  value >>> amount ||| value <<< (32 - amount % 32)

def rotateLeft64 (value amount : UInt64) : UInt64 :=
  value <<< amount ||| value >>> (64 - amount % 64)

def rotateRight64 (value amount : UInt64) : UInt64 :=
  value >>> amount ||| value <<< (64 - amount % 64)

def reverseBytes (value : UInt64) : UInt64 :=
  LittleEndian.decode (LittleEndian.ofNat 8 value.toNat).reverse

/-! ### Division

A quotient by zero has all bits one, and a remainder by zero is the dividend. -/

def divUnsigned32 (left right : UInt32) : UInt32 :=
  if right = 0 then 0xFFFFFFFF else left / right

def remUnsigned32 (left right : UInt32) : UInt32 :=
  if right = 0 then left else left % right

def divSigned32 (left right : UInt32) : UInt32 :=
  if right = 0 then 0xFFFFFFFF else (left.toInt32 / right.toInt32).toUInt32

def remSigned32 (left right : UInt32) : UInt32 :=
  if right = 0 then left else (left.toInt32 % right.toInt32).toUInt32

def divUnsigned64 (left right : UInt64) : UInt64 :=
  if right = 0 then 0xFFFFFFFFFFFFFFFF else left / right

def remUnsigned64 (left right : UInt64) : UInt64 :=
  if right = 0 then left else left % right

def divSigned64 (left right : UInt64) : UInt64 :=
  if right = 0 then 0xFFFFFFFFFFFFFFFF else (left.toInt64 / right.toInt64).toUInt64

def remSigned64 (left right : UInt64) : UInt64 :=
  if right = 0 then left else (left.toInt64 % right.toInt64).toUInt64

/-! ### The upper half of a product -/

def mulUpperUnsigned (left right : UInt64) : UInt64 :=
  UInt64.ofNat (left.toNat * right.toNat / 0x10000000000000000)

def mulUpperSigned (left right : UInt64) : UInt64 :=
  UInt64.ofInt (left.toInt64.toInt * right.toInt64.toInt / 0x10000000000000000)

def mulUpperMixed (left right : UInt64) : UInt64 :=
  UInt64.ofInt (left.toInt64.toInt * (right.toNat : Int) / 0x10000000000000000)

end GasMachine.Word
