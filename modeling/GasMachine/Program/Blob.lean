import GasMachine.Bytes.Natural
import GasMachine.Program.Basic

/-!
# Program blobs

A program is stored as

    count of jump-table entries   a natural number
    width of an entry             one byte
    size of the code              a natural number
    jump table, code, bitmask

and the three sections fill the rest of the blob exactly.
-/

namespace GasMachine

inductive ProgramError where
  /-- The count of jump-table entries is missing or over the limit. -/
  | entryCount
  /-- The width of an entry is missing or over the limit. -/
  | entryWidth
  /-- The size of the code is missing or over the limit. -/
  | codeSize
  /-- The sections do not fill the blob exactly. -/
  | blobSize (expected found : Nat)
  /-- A standard program ends before its sections do. -/
  | truncated
  /-- A standard program asks for more memory than there are addresses. -/
  | layoutTooLarge (required : Nat)
  deriving DecidableEq, Repr

namespace ProgramError

def message : ProgramError → String
  | entryCount => "invalid jump table entries count"
  | entryWidth => "invalid jump table encode size"
  | codeSize => "invalid code length"
  | blobSize expected found =>
    "invalid data length: expected " ++ toString expected ++ " bytes, found " ++ toString found
  | truncated => "truncated standard program header"
  | layoutTooLarge required =>
    "standard program layout needs " ++ toString required ++ " bytes of address space"

end ProgramError

namespace Program

def maxEntryCount : Nat := 0x100000

def maxEntryWidth : Nat := 8

def maxCodeSize : Nat := 0x400000

/-- What the front of a blob says of its sections. -/
structure Header where
  entryCount : Nat
  entryWidth : UInt8
  codeSize : Nat
  /-- Where the jump table starts. -/
  size : Nat
  deriving DecidableEq

namespace Header

def codeStart (header : Header) : Nat :=
  header.size + header.entryCount * header.entryWidth.toNat

def bitmaskStart (header : Header) : Nat :=
  header.codeStart + header.codeSize

def blobSize (header : Header) : Nat :=
  header.bitmaskStart + Bitmask.sizeFor header.codeSize

end Header

/-- The natural number at `position`, if it is whole and at most `limit`, and where it ends. -/
def naturalAt (blob : ByteArray) (position limit : Nat) : Option (Nat × Nat) :=
  match Natural.decode (Bytes.present blob position 9) with
  | some (value, length) =>
    if value.toNat ≤ limit then some (value.toNat, position + length) else none
  | none => none

def parseHeader (blob : ByteArray) : Except ProgramError Header :=
  match naturalAt blob 0 maxEntryCount with
  | none => .error .entryCount
  | some (entryCount, widthAt) =>
    if h : widthAt < blob.size then
      if blob[widthAt].toNat ≤ maxEntryWidth then
        match naturalAt blob (widthAt + 1) maxCodeSize with
        | none => .error .codeSize
        | some (codeSize, size) => .ok ⟨entryCount, blob[widthAt], codeSize, size⟩
      else .error .entryWidth
    else .error .entryWidth

def parse (blob : ByteArray) : Except ProgramError Program :=
  match parseHeader blob with
  | .error error => .error error
  | .ok header =>
    if blob.size = header.blobSize then
      .ok <| ofImage
        { jumpTable := blob.extract header.size header.codeStart
          entryCount := header.entryCount
          entryWidth := header.entryWidth
          code := blob.extract header.codeStart header.bitmaskStart
          bitmask := blob.extract header.bitmaskStart blob.size }
    else .error (.blobSize header.blobSize blob.size)

/-- The header of a program, with its numbers in shortest form. -/
def encodeHeader (image : CodeImage) : List UInt8 :=
  Natural.encode (UInt64.ofNat image.entryCount)
    ++ image.entryWidth :: Natural.encode (UInt64.ofNat image.code.size)

def encode (program : Program) : ByteArray :=
  (encodeHeader program.image).toByteArray
    ++ program.image.jumpTable ++ program.image.code ++ program.image.bitmask

end Program

end GasMachine
