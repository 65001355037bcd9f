import GasMachine.Bytes.LittleEndian

/-!
# Variable-length natural numbers

Counts and lengths in a program are written with as many bytes as they need.  The leading one
bits of the first byte say how many little-endian bytes follow; the bits below the first zero bit
are the most significant part of the value.  A first byte of all ones is followed by a full
eight-byte word.
-/

namespace GasMachine.Natural

/-- How many bits of `byte` are one before the first zero bit, from the top. -/
def leadingOnes (byte : UInt8) : Nat :=
  if byte < 0x80 then 0
  else if byte < 0xC0 then 1
  else if byte < 0xE0 then 2
  else if byte < 0xF0 then 3
  else if byte < 0xF8 then 4
  else if byte < 0xFC then 5
  else if byte < 0xFE then 6
  else if byte < 0xFF then 7
  else 8

/-- The number at the front of `bytes` and how many bytes it takes, unless they end too early. -/
def decode : List UInt8 → Option (UInt64 × Nat)
  | [] => none
  | first :: rest =>
    let extra := leadingOnes first
    if rest.length < extra then none
    else
      let low := LittleEndian.toNat (rest.take extra)
      if extra = 8 then some (UInt64.ofNat low, 9)
      else
        let high := first.toNat % 1 <<< (7 - extra)
        some (UInt64.ofNat (low + high <<< (8 * extra)), extra + 1)

/-- How many bytes follow the first one in the shortest form of `value`. -/
def extraBytes (value : UInt64) : Nat :=
  ((List.range 8).find? fun extra => value.toNat < 1 <<< (7 * (extra + 1))).getD 8

/-- The shortest form of `value`. -/
def encode (value : UInt64) : List UInt8 :=
  let extra := extraBytes value
  if extra = 8 then 0xFF :: LittleEndian.ofNat 8 value.toNat
  else
    UInt8.ofNat (256 - 1 <<< (8 - extra) + value.toNat >>> (8 * extra))
      :: LittleEndian.ofNat extra value.toNat

end GasMachine.Natural
