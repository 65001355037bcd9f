import GasMachine.Word

/-!
# Instruction starts

Bit `i` of a program's bitmask is set when byte `i` of its code starts an instruction.  The number
of operand bytes after a start is the distance to the next set bit.  It is read off a window of
four mask bytes, which is enough because an instruction has at most `maxSkip` operand bytes.
-/

namespace GasMachine.Bitmask

/-- The largest number of operand bytes. -/
def maxSkip : Nat := 24

/-- The mask byte at `index`; past the end all bits are set. -/
def byteAt (bitmask : ByteArray) (index : Nat) : UInt8 :=
  if h : index < bitmask.size then bitmask[index] else 0xFF

/-- The 32 mask bits from byte `index` on. -/
def window (bitmask : ByteArray) (index : Nat) : Nat :=
  LittleEndian.toNat
    [byteAt bitmask index, byteAt bitmask (index + 1),
      byteAt bitmask (index + 2), byteAt bitmask (index + 3)]

def skip (bitmask : ByteArray) (start : Nat) : Nat :=
  let next := start + 1
  if bitmask.size ≤ next / 8 then 0
  else min (Word.trailingZeros 32 (window bitmask (next / 8) >>> (next % 8))) maxSkip

/-- The mask with bit `position` set, if it has that bit. -/
def mark (bitmask : ByteArray) (position : Nat) : ByteArray :=
  if h : position / 8 < bitmask.size then
    bitmask.set (position / 8) (bitmask[position / 8] ||| 1 <<< UInt8.ofNat (position % 8)) h
  else bitmask

def sizeFor (codeSize : Nat) : Nat := (codeSize + 7) / 8

end GasMachine.Bitmask
