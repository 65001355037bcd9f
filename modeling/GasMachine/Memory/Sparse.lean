import GasMachine.Memory.Basic
import GasMachine.Memory.Chunk

/-!
# Sparse memories

A sparse memory maps any set of pages and stores only the bytes that were written.  It is the
memory of a machine that starts from nothing and has its pages mapped by its host.
-/

namespace GasMachine

/-- A change of the access of pages. -/
inductive PageMode where
  /-- Unmap, and drop the contents. -/
  | void
  /-- Map for reading, with zero contents. -/
  | zeroReadOnly
  /-- Map for reading and writing, with zero contents. -/
  | zeroReadWrite
  /-- Map for reading, with the contents kept. -/
  | readOnly
  /-- Map for reading and writing, with the contents kept. -/
  | readWrite
  deriving DecidableEq, Repr

namespace PageMode

def ofNumber? (number : UInt64) : Option PageMode :=
  match number.toNat with
  | 0 => some void
  | 1 => some zeroReadOnly
  | 2 => some zeroReadWrite
  | 3 => some readOnly
  | 4 => some readWrite
  | _ => none

def access : PageMode → Option PageAccess
  | void => none
  | zeroReadOnly | readOnly => some .readOnly
  | zeroReadWrite | readWrite => some .readWrite

/-- Whether the contents stay, for which the pages have to be mapped already. -/
def keepsContents : PageMode → Bool
  | readOnly | readWrite => true
  | _ => false

end PageMode

/-- Any set of pages, with the bytes that were written to them. -/
structure SparseMemory where
  pageMap : PageMap
  chunks : List Chunk

namespace SparseMemory

def empty (capacity : Nat) : SparseMemory := ⟨.empty capacity, []⟩

/-- An empty memory, for which a host sets aside the room to remember `capacity` checks.  There is
none if the host stops over that. -/
def allocate? (capacity : Nat) : Option SparseMemory :=
  (PageMap.allocate? capacity).map fun map => ⟨map, []⟩

/-- How many of `count` bytes from `address` on lie below the top of the address space; the others
lie at its bottom. -/
def beforeTop (address : UInt32) (count : Nat) : Nat :=
  min (AddressSpace.size - address.toNat) count

/-- The `count` bytes from `address` on, whatever their access. -/
def contents (memory : SparseMemory) (address : UInt32) (count : Nat) : ByteArray :=
  let upper := beforeTop address count
  Chunk.read memory.chunks address.toNat upper ++ Chunk.read memory.chunks 0 (count - upper)

def readInto (memory : SparseMemory) (address : UInt32) (buffer : ByteArray) :
    Transfer SparseMemory :=
  match memory.pageMap.checkRange .read address buffer.size with
  | (.error fault, map) =>
    ⟨.error (.refused (.notReadable fault)), buffer, { memory with pageMap := map }⟩
  | (.ok _, map) =>
    ⟨.ok (), memory.contents address buffer.size, { memory with pageMap := map }⟩

def store (chunks : List Chunk) (address : UInt32) (bytes : ByteArray) : List Chunk :=
  let upper := beforeTop address bytes.size
  Chunk.write (Chunk.write chunks address.toNat (bytes.extract 0 upper)) 0
    (bytes.extract upper bytes.size)

def write (memory : SparseMemory) (address : UInt32) (bytes : ByteArray) :
    Except MemoryError Unit × SparseMemory :=
  match memory.pageMap.checkRange .write address bytes.size with
  | (.error fault, map) => (.error (.notWritable fault), { memory with pageMap := map })
  | (.ok _, map) => (.ok (), ⟨map, store memory.chunks address bytes⟩)

/-- Maps as many pages as hold `increment` bytes in the first gap above the reserved zone.  Nothing
is mapped for no bytes, but there has to be room for a page. -/
def grow (memory : SparseMemory) (increment : UInt32) :
    Except MemoryError UInt32 × SparseMemory :=
  match memory.pageMap.findGap (max (AddressSpace.pagesFor increment.toNat) 1)
      AddressSpace.firstUserPage with
  | none => (.error (.outOfMemory 0), memory)
  | some page =>
    (.ok (UInt32.ofNat (page * AddressSpace.pageSize)),
      if AddressSpace.pagesFor increment.toNat = 0 then memory
      else
        { memory with
          pageMap :=
            memory.pageMap.grantPages page (AddressSpace.pagesFor increment.toNat) .readWrite })

instance : Memory SparseMemory where
  pageMap := pageMap
  setPageMap memory map := { memory with pageMap := map }
  readInto := readInto
  write := write
  grow := grow

def setPages (memory : SparseMemory) (first count : Nat) (mode : PageMode) : SparseMemory :=
  { pageMap := memory.pageMap.assign first count mode.access
    chunks :=
      if mode.keepsContents then memory.chunks
      else
        Chunk.clear memory.chunks (first * AddressSpace.pageSize)
          ((first + count) * AddressSpace.pageSize) }

def pagesMapped (memory : SparseMemory) (first count : Nat) : Bool :=
  memory.pageMap.allMapped first count

end SparseMemory

end GasMachine
