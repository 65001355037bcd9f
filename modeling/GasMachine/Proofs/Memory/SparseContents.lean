import GasMachine.Proofs.Memory.SparseRefinement

/-!
# What a sparse memory holds

A sparse memory holds one byte at every address, whatever the access of its
page.  Its chunks lie in order wherever its operations lead, so the flat memory
that it stands for can be read off it, and every operation does to that flat
memory what it does to the sparse one.
-/

namespace GasMachine

open AddressSpace

namespace SparseMemory

def image (memory : SparseMemory) : Image := fun address =>
  Bytes.byteAt (memory.contents address 1) 0

def flatten (memory : SparseMemory) : FlatMemory where
  image := memory.image
  access := memory.pageMap.table.accessAt

theorem image_flatten (memory : SparseMemory) : memory.flatten.image = memory.image := rfl

/-- The memories that operations lead to from a memory in which nothing was
written.  Its host may change the access of pages at any time. -/
inductive Reachable : SparseMemory → Prop where
  | start (map : PageMap) : Reachable ⟨map, []⟩
  | check {memory : SparseMemory} (hreachable : Reachable memory) (kind : AccessKind)
      (address : UInt32) (length : UInt64) :
      Reachable (Memory.check memory kind address length).2
  | readInto {memory : SparseMemory} (hreachable : Reachable memory) (address : UInt32)
      (buffer : ByteArray) : Reachable (memory.readInto address buffer).memory
  | write {memory : SparseMemory} (hreachable : Reachable memory) (address : UInt32)
      (bytes : ByteArray) : Reachable (memory.write address bytes).2
  | grow {memory : SparseMemory} (hreachable : Reachable memory) (increment : UInt32) :
      Reachable (memory.grow increment).2
  | setPages {memory : SparseMemory} (hreachable : Reachable memory) (first count : Nat)
      (mode : PageMode) : Reachable (memory.setPages first count mode)

variable {memory : SparseMemory} {flat : FlatMemory}

theorem Represents.image_eq (hflat : memory.Represents flat) : memory.image = flat.image := by
  funext address
  have hbyte := flat.image.byteAt_contents address Nat.one_pos
  rw [SparseMemory.image, contents_eq hflat address (by decide), hbyte]
  exact congrArg flat.image (UInt32.add_zero address)

theorem Represents.flatten_eq (hflat : memory.Represents flat) : memory.flatten = flat := by
  obtain ⟨bytes, access⟩ := flat
  rw [flatten, hflat.image_eq, ← hflat.access]

/-- A memory whose chunks lie in order stands for what can be read off it. -/
theorem represents_flatten (hordered : Chunk.Ordered memory.chunks) :
    memory.Represents memory.flatten := by
  have hflat : memory.Represents
      ⟨fun address => (Chunk.held? memory.chunks address.toNat).getD 0,
        memory.pageMap.table.accessAt⟩ := ⟨hordered, rfl, fun _ => rfl⟩
  rw [hflat.flatten_eq]
  exact hflat

theorem ordered_setPages (hordered : Chunk.Ordered memory.chunks) (first count : Nat)
    (mode : PageMode) : Chunk.Ordered (memory.setPages first count mode).chunks := by
  simp only [setPages]
  split
  · exact hordered
  · exact Chunk.ordered_clear (Nat.mul_le_mul_right _ (Nat.le_add_right _ _)) hordered

/-- Wherever operations lead, the chunks lie in order. -/
theorem Reachable.ordered (hreachable : memory.Reachable) : Chunk.Ordered memory.chunks := by
  induction hreachable with
  | start map => exact List.Pairwise.nil
  | check _ kind address length ih => exact ih
  | readInto _ address buffer ih =>
      obtain ⟨after, hread, hafter⟩ := (represents_flatten ih).readInto address buffer
      rw [hread]
      exact hafter.ordered
  | write _ address bytes ih => exact ((represents_flatten ih).write address bytes).2.ordered
  | grow _ increment ih => exact ((represents_flatten ih).grow increment).2.ordered
  | setPages _ first count mode ih => exact ordered_setPages ih first count mode

namespace Reachable

variable (hreachable : memory.Reachable)
include hreachable

theorem represents : memory.Represents memory.flatten :=
  represents_flatten hreachable.ordered

theorem readInto_eq (address : UInt32) (buffer : ByteArray) :
    ∃ after : SparseMemory, Memory.readInto memory address buffer =
        ⟨(memory.flatten.readInto address buffer).1,
          (memory.flatten.readInto address buffer).2, after⟩ ∧
      after.Reachable ∧ after.flatten = memory.flatten := by
  have hafter := hreachable.readInto address buffer
  obtain ⟨after, hread, hflat⟩ := hreachable.represents.readInto address buffer
  rw [hread] at hafter
  exact ⟨after, hread, hafter, hflat.flatten_eq⟩

theorem write_eq (address : UInt32) (bytes : ByteArray) :
    (Memory.write memory address bytes).1 = (memory.flatten.write address bytes).1 ∧
      (Memory.write memory address bytes).2.flatten = (memory.flatten.write address bytes).2 := by
  obtain ⟨hresult, hflat⟩ := hreachable.represents.write address bytes
  exact ⟨hresult, hflat.flatten_eq⟩

theorem grow_eq (increment : UInt32) :
    (Memory.grow memory increment).1 = (memory.flatten.grow increment).1 ∧
      (Memory.grow memory increment).2.flatten = (memory.flatten.grow increment).2 := by
  obtain ⟨hresult, hflat⟩ := hreachable.represents.grow increment
  exact ⟨hresult, hflat.flatten_eq⟩

theorem setPages_eq {first count : Nat} (hfits : first + count ≤ pageCount) (mode : PageMode) :
    (memory.setPages first count mode).flatten = memory.flatten.setPages first count mode :=
  (hreachable.represents.setPages hfits mode).flatten_eq

end Reachable

end SparseMemory

/-! ## Storing on pages of any access -/

def PageMode.keeping : PageAccess → PageMode
  | .readOnly => .readOnly
  | .readWrite => .readWrite

theorem FlatMemory.setPages_keeping (flat : FlatMemory) (first count : Nat)
    (access : PageAccess) :
    flat.setPages first count (.keeping access) = flat.assign first count (some access) := by
  cases access <;> rfl

/-- Bytes are written on pages that are opened for this and then closed again. -/
theorem FlatMemory.write_reopened (flat : FlatMemory) {first count : Nat} {access : PageAccess}
    (haccess : ∀ address, inPages first count address = true →
      flat.access address = some access)
    {address : UInt32} {bytes : ByteArray} (hsize : bytes.size ≤ size)
    (hinside : ∀ offset < bytes.size,
      inPages first count (address + UInt32.ofNat offset) = true) :
    ((flat.setPages first count (.keeping .readWrite)).write address bytes).2.setPages first count
        (.keeping access) = ⟨flat.image.store address bytes, flat.access⟩ := by
  have hverdict : AccessKind.write.verdict (flat.assign first count (some .readWrite)).access
      address bytes.size = .ok () := by
    rw [AccessKind.verdict_eq_ok_iff]
    refine ⟨hsize, fun offset hoffset => ?_⟩
    dsimp only [assign]
    rw [if_pos (hinside offset hoffset)]
    rfl
  rw [setPages_keeping, setPages_keeping, write, hverdict]
  simp only [assign, FlatMemory.mk.injEq, true_and]
  funext address
  split
  · next hinside => exact (haccess address hinside).symm
  · rfl

namespace SparseMemory

variable {memory : SparseMemory}

/-- The memory with bytes stored on pages of this access, which are opened for it. -/
def reopened (memory : SparseMemory) (first count : Nat) (access : PageAccess)
    (address : UInt32) (bytes : ByteArray) : SparseMemory :=
  (Memory.write (memory.setPages first count (.keeping .readWrite)) address bytes).2.setPages first
    count (.keeping access)

theorem Reachable.reopened (hreachable : memory.Reachable) (first count : Nat)
    (access : PageAccess) (address : UInt32) (bytes : ByteArray) :
    (memory.reopened first count access address bytes).Reachable :=
  ((hreachable.setPages first count _).write address bytes).setPages first count _

theorem Reachable.flatten_reopened (hreachable : memory.Reachable) {first count : Nat}
    (hfits : first + count ≤ pageCount) {access : PageAccess}
    (haccess : ∀ address, FlatMemory.inPages first count address = true →
      memory.flatten.access address = some access)
    {address : UInt32} {bytes : ByteArray} (hsize : bytes.size ≤ size)
    (hinside : ∀ offset < bytes.size,
      FlatMemory.inPages first count (address + UInt32.ofNat offset) = true) :
    (memory.reopened first count access address bytes).flatten =
      ⟨memory.image.store address bytes, memory.flatten.access⟩ := by
  have hopened := hreachable.setPages first count (.keeping .readWrite)
  have hwritten : (Memory.write (memory.setPages first count (.keeping .readWrite)) address
      bytes).2.Reachable := hopened.write address bytes
  have hwrite := (hopened.write_eq address bytes).2
  rw [hreachable.setPages_eq hfits] at hwrite
  rw [SparseMemory.reopened, hwritten.setPages_eq hfits, hwrite,
    memory.flatten.write_reopened haccess hsize hinside, image_flatten]

end SparseMemory

end GasMachine
