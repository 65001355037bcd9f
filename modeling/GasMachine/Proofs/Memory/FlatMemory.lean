import GasMachine.Memory.Sparse
import GasMachine.Proofs.Bytes.ByteAt
import GasMachine.Proofs.Memory.AccessChecks

/-!
# Flat memories

An image has one byte for every address.  A flat memory has an image and one
access value for every address, and no other state.  It says what the memories
of a machine mean: ranges wrap around the top of the address space, a request
that fails changes nothing, and a read that fails leaves the buffer as it was.
-/

namespace GasMachine

open AddressSpace

/-- One byte for every address. -/
abbrev Image := UInt32 → UInt8

namespace Image

def contents (image : Image) (address : UInt32) (count : Nat) : ByteArray :=
  ((List.range count).map fun offset => image (address + UInt32.ofNat offset)).toByteArray

def store (image : Image) (address : UInt32) (bytes : ByteArray) : Image := fun target =>
  if (target - address).toNat < bytes.size then Bytes.byteAt bytes (target - address).toNat
  else image target

@[simp]
theorem size_contents (image : Image) (address : UInt32) (count : Nat) :
    (image.contents address count).size = count := by
  simp [contents]

theorem byteAt_contents (image : Image) (address : UInt32) {count index : Nat}
    (hindex : index < count) :
    Bytes.byteAt (image.contents address count) index =
      image (address + UInt32.ofNat index) := by
  rw [Bytes.byteAt_of_lt (by simpa using hindex)]
  simp [contents, List.getElem_toByteArray]

theorem contents_add (image : Image) (address : UInt32) (count more : Nat) :
    image.contents address (count + more) =
      image.contents address count ++ image.contents (address + UInt32.ofNat count) more := by
  simp only [contents, List.range_add, List.map_append, List.map_map, List.toByteArray_append]
  congr 3
  funext offset
  rw [Function.comp_apply, UInt32.ofNat_add, UInt32.add_assoc]

end Image

structure FlatMemory where
  image : Image
  access : UInt32 → Option PageAccess

namespace FlatMemory

def empty : FlatMemory := ⟨fun _ => 0, fun _ => none⟩

def readInto (flat : FlatMemory) (address : UInt32) (buffer : ByteArray) :
    Except ReadFailure Unit × ByteArray :=
  match AccessKind.read.verdict flat.access address buffer.size with
  | .error fault => (.error (.refused (.notReadable fault)), buffer)
  | .ok _ => (.ok (), flat.image.contents address buffer.size)

def read (flat : FlatMemory) (address : UInt32) (length : UInt64) :
    Except ReadFailure ByteArray :=
  match AccessKind.read.verdict flat.access address length.toNat with
  | .error fault => .error (.refused (.notReadable fault))
  | .ok _ => .ok (flat.image.contents address length.toNat)

def write (flat : FlatMemory) (address : UInt32) (bytes : ByteArray) :
    Except MemoryError Unit × FlatMemory :=
  match AccessKind.write.verdict flat.access address bytes.size with
  | .error fault => (.error (.notWritable fault), flat)
  | .ok _ => (.ok (), { flat with image := flat.image.store address bytes })

def inPages (first count : Nat) (address : UInt32) : Bool :=
  first * pageSize ≤ address.toNat && address.toNat < (first + count) * pageSize

def assign (flat : FlatMemory) (first count : Nat) (access : Option PageAccess) : FlatMemory :=
  { flat with
    access := fun address => if inPages first count address then access else flat.access address }

def clear (flat : FlatMemory) (first count : Nat) : FlatMemory :=
  { flat with
    image := fun address => if inPages first count address then 0 else flat.image address }

def isUnmapped (flat : FlatMemory) (count page : Nat) : Bool :=
  (List.range (count * pageSize)).all fun offset =>
    flat.access (UInt32.ofNat (page * pageSize + offset)) == none

/-- The least page above the reserved zone from which `count` pages are unmapped
and fit below the top of the address space. -/
def gap? (flat : FlatMemory) (count : Nat) : Option Nat :=
  (List.range (pageCount + 1 - count)).find? fun page =>
    firstUserPage ≤ page && flat.isUnmapped count page

/-- Maps the pages that `increment` bytes take, in the first gap that has room
for them.  There has to be a gap even for no bytes. -/
def grow (flat : FlatMemory) (increment : UInt32) : Except MemoryError UInt32 × FlatMemory :=
  match flat.gap? (max (pagesFor increment.toNat) 1) with
  | none => (.error (.outOfMemory 0), flat)
  | some page =>
    (.ok (UInt32.ofNat (page * pageSize)),
      flat.assign page (pagesFor increment.toNat) (some .readWrite))

/-- Changes the access of pages, and clears them if the mode says so. -/
def setPages (flat : FlatMemory) (first count : Nat) (mode : PageMode) : FlatMemory :=
  let assigned := flat.assign first count mode.access
  if mode.keepsContents then assigned else assigned.clear first count

theorem access_clear (flat : FlatMemory) (first count : Nat) :
    (flat.clear first count).access = flat.access := by
  rw [clear]

theorem image_assign (flat : FlatMemory) (first count : Nat) (access : Option PageAccess) :
    (flat.assign first count access).image = flat.image := by
  rw [assign]

theorem inPages_iff {first count : Nat} {address : UInt32} :
    inPages first count address = true ↔
      first ≤ pageOf address ∧ pageOf address < first + count := by
  rw [inPages, Bool.and_eq_true, decide_eq_true_eq, decide_eq_true_eq]
  unfold pageOf pageSize
  omega

theorem assign_zero (flat : FlatMemory) (first : Nat) (access : Option PageAccess) :
    flat.assign first 0 access = flat := by
  have houtside : ∀ address, inPages first 0 address = false := by
    intro address
    rw [Bool.eq_false_iff, Ne, inPages_iff]
    omega
  simp only [assign, houtside, Bool.false_eq_true, if_false]

end FlatMemory

theorem PageTable.accessAt_assign (table : PageTable) {first count : Nat}
    (hfits : first + count ≤ pageCount) (access : Option PageAccess) (address : UInt32) :
    (table.assign first count access).accessAt address =
      if FlatMemory.inPages first count address then access else table.accessAt address := by
  have hpage := pageOf_lt address
  rw [accessAt, get_assign _ _ _ _ hpage, accessAt]
  simp only [pagesAfter_lt_iff hfits hpage, FlatMemory.inPages_iff]

end GasMachine
