/-!
# The 32-bit address space

Memory is mapped in pages and the regions of a standard program are set apart by zones.  The
constants here fix where those regions lie; machines that disagree on one of them disagree on the
meaning of a program.
-/

namespace GasMachine.AddressSpace

/-- Bytes of the whole address space. -/
def size : Nat := 0x100000000

def pageSize : Nat := 0x1000

def pageCount : Nat := 0x100000

/-- Bytes of a zone, the unit that keeps the regions of a standard program apart. -/
def zoneSize : Nat := 0x10000

/-- The first page above the reserved lowest zone. -/
def firstUserPage : Nat := zoneSize / pageSize

def argumentLimit : Nat := 0x1000000

/-- A dynamic jump to this address halts the machine. -/
def haltAddress : UInt32 := 0xFFFF0000

/-- One past the highest address of a standard program's stack. -/
def stackTop : UInt32 := 0xFEFE0000

def argumentStart : UInt32 := 0xFEFF0000

/-- Dynamic-jump addresses are multiples of this number. -/
def jumpAlignment : Nat := 2

def roundUp (unit length : Nat) : Nat :=
  (length + unit - 1) / unit * unit

def roundUpToPage (length : Nat) : Nat :=
  roundUp pageSize length

/-- How many pages `length` bytes take. -/
def pagesFor (length : Nat) : Nat :=
  (length + pageSize - 1) / pageSize

def roundUpToZone (length : Nat) : Nat :=
  roundUp zoneSize length

/-- A number as a 64-bit word.  A host that computes a larger one stops, so there is none then. -/
def word? (number : Nat) : Option UInt64 :=
  if number < 0x10000000000000000 then some (UInt64.ofNat number) else none

/-- A word rounded up to whole pages, unless the host stops over it. -/
def roundWordUpToPage? (length : UInt64) : Option UInt64 :=
  word? (roundUpToPage length.toNat)

def roundWordUpToZone? (length : UInt64) : Option UInt64 :=
  word? (roundUpToZone length.toNat)

def pageOf (address : UInt32) : Nat :=
  address.toNat / pageSize

end GasMachine.AddressSpace
