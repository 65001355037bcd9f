import GasMachine.Bytes.LittleEndian

/-!
# Immediates

An immediate is stored in zero to four little-endian bytes and extended with its sign to 32 bits.
Encoders use the fewest bytes that decode to the same word.
-/

namespace GasMachine.Immediate

/-- The word in the first four bytes, or in fewer, extended with the sign of its last byte. -/
def decode (bytes : List UInt8) : UInt32 :=
  let stored := bytes.take 4
  let unused := UInt32.ofNat (32 - 8 * stored.length)
  ((UInt32.ofNat (LittleEndian.toNat stored) <<< unused).toInt32 >>> unused.toInt32).toUInt32

/-- How many bytes `value` needs to decode to itself. -/
def length (value : UInt32) : Nat :=
  ((List.range 4).find? fun count => decode (LittleEndian.ofNat count value.toNat) = value).getD 4

/-- The shortest bytes that decode to `value`. -/
def encode (value : UInt32) : List UInt8 :=
  LittleEndian.ofNat (length value) value.toNat

end GasMachine.Immediate
