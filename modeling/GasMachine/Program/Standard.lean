import GasMachine.AddressSpace
import GasMachine.Program.Blob

/-!
# Standard programs

A standard program is a program with the memory it starts from:

    size of the read-only data    three bytes
    size of the read-write data   three bytes
    extra heap pages              two bytes
    size of the stack             three bytes
    read-only data, read-write data
    size of the program blob      four bytes
    program blob

All integers are little-endian, and whatever follows the program blob is ignored.
-/

namespace GasMachine

/-- A program with the memory it starts from. -/
structure StandardProgram where
  readOnly : ByteArray
  /-- The data at the start of the heap. -/
  readWrite : ByteArray
  /-- Zeroed pages that are mapped after the read-write data. -/
  heapPages : UInt16
  stackSize : UInt32
  program : Program
  deriving DecidableEq

namespace StandardProgram

/-- Bytes before the read-only data. -/
def headerSize : Nat := 11

/-- The address space that a program with these sizes takes up. -/
def footprint (readOnlySize readWriteSize heapPages stackSize : Nat) : Nat :=
  5 * AddressSpace.zoneSize
    + AddressSpace.roundUpToZone readOnlySize
    + AddressSpace.roundUpToZone (readWriteSize + heapPages * AddressSpace.pageSize)
    + AddressSpace.roundUpToZone stackSize
    + AddressSpace.argumentLimit

def field (blob : ByteArray) (position width : Nat) : Nat :=
  (LittleEndian.decode (Bytes.present blob position width)).toNat

def parse (blob : ByteArray) : Except ProgramError StandardProgram :=
  if blob.size < headerSize then .error .truncated
  else
    let readOnlySize := field blob 0 3
    let readWriteSize := field blob 3 3
    let heapPages := field blob 6 2
    let stackSize := field blob 8 3
    let required := footprint readOnlySize readWriteSize heapPages stackSize
    if AddressSpace.size < required then .error (.layoutTooLarge required)
    else
      let readWriteStart := headerSize + readOnlySize
      let sizeStart := readWriteStart + readWriteSize
      let programStart := sizeStart + 4
      if blob.size < programStart then .error .truncated
      else
        let programEnd := programStart + field blob sizeStart 4
        if blob.size < programEnd then .error .truncated
        else
          match Program.parse (blob.extract programStart programEnd) with
          | .error error => .error error
          | .ok program => .ok
            { readOnly := blob.extract headerSize readWriteStart
              readWrite := blob.extract readWriteStart sizeStart
              heapPages := UInt16.ofNat heapPages
              stackSize := UInt32.ofNat stackSize
              program := program }

/-- The bytes that are mapped for the heap at first: the read-write data in whole pages, and the
extra pages. -/
def initialHeapSize (standard : StandardProgram) : Nat :=
  AddressSpace.roundUpToPage standard.readWrite.size
    + standard.heapPages.toNat * AddressSpace.pageSize

/-- The blob of a standard program.  Sizes are cut to the width of their fields. -/
def encode (standard : StandardProgram) : ByteArray :=
  let blob := standard.program.encode
  let header :=
    LittleEndian.ofNat 3 standard.readOnly.size
      ++ LittleEndian.ofNat 3 standard.readWrite.size
      ++ LittleEndian.ofNat 2 standard.heapPages.toNat
      ++ LittleEndian.ofNat 3 standard.stackSize.toNat
  header.toByteArray ++ standard.readOnly ++ standard.readWrite
    ++ (LittleEndian.ofNat 4 blob.size).toByteArray ++ blob

end StandardProgram

end GasMachine
