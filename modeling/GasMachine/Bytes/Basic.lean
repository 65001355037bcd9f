/-!
# Byte strings

Bulk data (program code, memory contents, files) is a `ByteArray`; the few bytes of one encoded
integer are a `List UInt8`.  The functions here read byte arrays totally: what lies past the end
reads as zero, so no caller needs a bounds proof to look at an operand or a page.
-/

namespace GasMachine.Bytes

/-- Byte strings are compared as the core library compares them, whatever else is imported. -/
instance decidableEqBytes : DecidableEq ByteArray := ByteArray.instDecidableEq

/-- The byte at `index`, or zero past the end. -/
def byteAt (bytes : ByteArray) (index : Nat) : UInt8 :=
  if h : index < bytes.size then bytes[index] else 0

/-- The `count` bytes from `start` on, continued with zeros past the end. -/
def slice (bytes : ByteArray) (start count : Nat) : List UInt8 :=
  (List.range count).map fun index => byteAt bytes (start + index)

/-- The bytes that really lie in `[start, start + count)`, at most `count` of them. -/
def present (bytes : ByteArray) (start count : Nat) : List UInt8 :=
  (bytes.extract start (start + count)).data.toList

def zeros (count : Nat) : ByteArray :=
  ⟨Array.replicate count 0⟩

def overwrite (target : ByteArray) (offset : Nat) (source : ByteArray) : ByteArray :=
  source.copySlice 0 target offset source.size

end GasMachine.Bytes
