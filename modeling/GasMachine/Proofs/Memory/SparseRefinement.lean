import GasMachine.Proofs.Memory.ChunkContents
import GasMachine.Proofs.Memory.GapSearch
import GasMachine.Proofs.Memory.Operations

/-!
# Sparse memories are flat memories

A sparse memory keeps chunks of bytes, a tree of page access and a cache.  None
of this can be told from outside: over any sequence of operations it answers
like a flat memory.  Each operation is shown to answer alike on a sparse memory
and the flat memory that it stands for, and to keep the one standing for the
other.
-/

namespace GasMachine

open AddressSpace

namespace SparseMemory

/-- The flat memory that a sparse memory stands for. -/
structure Represents (memory : SparseMemory) (flat : FlatMemory) : Prop where
  ordered : Chunk.Ordered memory.chunks
  access : flat.access = memory.pageMap.table.accessAt
  image : ∀ address, flat.image address = (Chunk.held? memory.chunks address.toNat).getD 0

theorem represents_empty (capacity : Nat) : (empty capacity).Represents .empty where
  ordered := List.Pairwise.nil
  access := rfl
  image := fun _ => rfl

variable {memory : SparseMemory} {flat : FlatMemory}

theorem Represents.setCache (hflat : memory.Represents flat) (cache : AccessCache)
    (hsound : cache.Sound memory.pageMap.table) :
    Represents { memory with pageMap := ⟨memory.pageMap.table, cache, hsound⟩ } flat :=
  ⟨hflat.ordered, hflat.access, hflat.image⟩

/-- A check answers like the flat memory. -/
theorem Represents.checkRange (hflat : memory.Represents flat) (kind : AccessKind)
    (address : UInt32) (length : Nat) :
    ∃ map : PageMap,
      memory.pageMap.checkRange kind address length =
        (kind.verdict flat.access address length, map) ∧
      Represents { memory with pageMap := map } flat := by
  obtain ⟨cache, hsound, hcheck⟩ := memory.pageMap.checkRange_eq kind address length
  refine ⟨_, ?_, hflat.setCache cache hsound⟩
  rw [hcheck, hflat.access]

/-! ## Contents -/

theorem contents_eq (hflat : memory.Represents flat) (address : UInt32) {count : Nat}
    (hcount : count ≤ size) :
    memory.contents address count = flat.image.contents address count := by
  have haddress := address.toNat_lt
  have hupper : beforeTop address count = min (size - address.toNat) count := rfl
  apply Bytes.ext_byteAt
  · simp only [contents, ByteArray.size_append, Chunk.size_read, Image.size_contents]
    omega
  · intro index hindex
    have hindex : index < count := by
      simp only [contents, ByteArray.size_append, Chunk.size_read] at hindex
      omega
    rw [flat.image.byteAt_contents address hindex, hflat.image, toNat_add_ofNat, contents,
      Bytes.byteAt_append, Chunk.size_read]
    by_cases hbelow : index < beforeTop address count
    · rw [if_pos hbelow, Chunk.byteAt_read hflat.ordered _ hbelow,
        Nat.mod_eq_of_lt (by omega)]
    · -- The bytes behind the top of the address space are those at its bottom.
      have hwrapped : (address.toNat + index) % size =
          0 + (index - beforeTop address count) := by
        unfold size at *
        omega
      rw [if_neg hbelow, Chunk.byteAt_read hflat.ordered _ (by omega), hwrapped]

theorem held?_store {chunks : List Chunk} (hordered : Chunk.Ordered chunks) (address : UInt32)
    {bytes : ByteArray} (hsize : bytes.size ≤ size) (target : UInt32) :
    Chunk.held? (store chunks address bytes) target.toNat =
      if (target - address).toNat < bytes.size then
        some (Bytes.byteAt bytes (target - address).toNat)
      else Chunk.held? chunks target.toNat := by
  have haddress := address.toNat_lt
  have htarget := target.toNat_lt
  have hupper : beforeTop address bytes.size = min (size - address.toNat) bytes.size := rfl
  have hdistance := toNat_sub target address
  have hfirst : (bytes.extract 0 (beforeTop address bytes.size)).size =
      beforeTop address bytes.size := by
    rw [ByteArray.size_extract]
    omega
  have hsecond : (bytes.extract (beforeTop address bytes.size) bytes.size).size =
      bytes.size - beforeTop address bytes.size := by
    rw [ByteArray.size_extract]
    omega
  rw [store, Chunk.held?_write (Chunk.ordered_write hordered _ _), Chunk.held?_write hordered,
    hfirst, hsecond]
  unfold size at *
  by_cases hwrapped : 0 ≤ target.toNat ∧
      target.toNat < 0 + (bytes.size - beforeTop address bytes.size)
  · have hposition : beforeTop address bytes.size + (target.toNat - 0) =
        (target - address).toNat := by omega
    have hinside : (target - address).toNat < bytes.size := by omega
    rw [if_pos hwrapped, if_pos hinside, Bytes.byteAt_extract, hposition, if_pos hinside]
  · rw [if_neg hwrapped]
    by_cases hstraight : address.toNat ≤ target.toNat ∧
        target.toNat < address.toNat + beforeTop address bytes.size
    · have hposition : 0 + (target.toNat - address.toNat) = (target - address).toNat := by
        omega
      rw [if_pos hstraight, if_pos (by omega), Bytes.byteAt_extract, hposition,
        if_pos (by omega)]
    · rw [if_neg hstraight, if_neg (by omega)]

theorem ordered_store {chunks : List Chunk} (hordered : Chunk.Ordered chunks)
    (address : UInt32) (bytes : ByteArray) : Chunk.Ordered (store chunks address bytes) := by
  unfold store
  exact Chunk.ordered_write (Chunk.ordered_write hordered _ _) _ _

/-- Storing bytes changes the flat memory at their addresses. -/
theorem Represents.store (hflat : memory.Represents flat) (address : UInt32)
    {bytes : ByteArray} (hsize : bytes.size ≤ size) :
    Represents { memory with chunks := SparseMemory.store memory.chunks address bytes }
      { flat with image := flat.image.store address bytes } := by
  constructor
  · dsimp only
    exact ordered_store hflat.ordered address bytes
  · exact hflat.access
  · intro target
    dsimp only [Image.store]
    rw [held?_store hflat.ordered address hsize, hflat.image]
    split <;> rfl

/-! ## Access -/

theorem Represents.assign (hflat : memory.Represents flat) {first count : Nat}
    (hfits : first + count ≤ pageCount) (access : Option PageAccess) :
    Represents { memory with pageMap := memory.pageMap.assign first count access }
      (flat.assign first count access) := by
  refine ⟨hflat.ordered, ?_, fun address => ?_⟩
  · funext address
    dsimp only [FlatMemory.assign, PageMap.assign]
    rw [PageTable.accessAt_assign _ hfits, hflat.access]
  · rw [FlatMemory.image_assign, hflat.image]

theorem Represents.clear (hflat : memory.Represents flat) (first count : Nat) :
    Represents
      { memory with
        chunks := Chunk.clear memory.chunks (first * pageSize) ((first + count) * pageSize) }
      (flat.clear first count) := by
  have hle : first * pageSize ≤ (first + count) * pageSize :=
    Nat.mul_le_mul_right _ (Nat.le_add_right _ _)
  refine ⟨Chunk.ordered_clear hle hflat.ordered,
    (flat.access_clear first count).trans hflat.access, ?_⟩
  intro address
  dsimp only [FlatMemory.clear]
  rw [Chunk.held?_clear hle hflat.ordered, hflat.image]
  simp only [FlatMemory.inPages, Bool.and_eq_true, decide_eq_true_eq]
  split <;> rfl

/-- The gaps of the page map are the runs of pages without access that fit. -/
theorem isGap_iff (hflat : memory.Represents flat) (count page : Nat) :
    memory.pageMap.IsGap count page ↔
      page + count ≤ pageCount ∧ flat.isUnmapped count page = true := by
  refine and_congr_right fun hfits => ?_
  rw [FlatMemory.isUnmapped, List.all_eq_true, hflat.access]
  have hpageOf : ∀ offset < count * pageSize,
      pageOf (UInt32.ofNat (page * pageSize + offset)) = page + offset / pageSize := by
    intro offset hoffset
    rw [pageOf, UInt32.toNat_ofNat']
    unfold pageSize pageCount at *
    omega
  constructor
  · intro hfree offset hoffset
    have hoffset := List.mem_range.mp hoffset
    rw [PageTable.accessAt, hpageOf _ hoffset,
      hfree _ (Nat.le_add_right _ _) (by unfold pageSize at *; omega)]
    rfl
  · intro hfree inside hinside hlt
    have hoffset : (inside - page) * pageSize < count * pageSize := by
      unfold pageSize
      omega
    have hnone := hfree _ (List.mem_range.mpr hoffset)
    have hpage : page + (inside - page) * pageSize / pageSize = inside := by
      unfold pageSize
      omega
    rw [PageTable.accessAt, hpageOf _ hoffset, hpage] at hnone
    simpa using hnone

/-- The search of the page map finds the least gap of the flat memory. -/
theorem gap?_eq (hflat : memory.Represents flat) (count : Nat) :
    flat.gap? count = memory.pageMap.findGap count firstUserPage := by
  refine PageMap.FirstGap.eq ?_ (memory.pageMap.firstGap_findGap count firstUserPage)
  cases hgap : flat.gap? count with
  | none =>
      intro page hpage hisGap
      obtain ⟨hfits, hunmapped⟩ := (isGap_iff hflat count page).mp hisGap
      rw [FlatMemory.gap?] at hgap
      have hnone := List.find?_range_eq_none.mp hgap page (by omega)
      simp [hpage, hunmapped] at hnone
  | some page =>
      rw [FlatMemory.gap?] at hgap
      obtain ⟨hpage, hmem, hfirst⟩ := List.find?_range_eq_some.mp hgap
      have hfits := List.mem_range.mp hmem
      rw [Bool.and_eq_true, decide_eq_true_eq] at hpage
      refine ⟨hpage.1, (isGap_iff hflat count page).mpr ⟨by omega, hpage.2⟩, ?_⟩
      intro earlier hearlier hlt hisGap
      have hnone := hfirst earlier hlt
      simp [hearlier, ((isGap_iff hflat count earlier).mp hisGap).2] at hnone

/-! ## Operations -/

theorem Represents.readInto (hflat : memory.Represents flat) (address : UInt32)
    (buffer : ByteArray) :
    ∃ after, memory.readInto address buffer =
        ⟨(flat.readInto address buffer).1, (flat.readInto address buffer).2, after⟩ ∧
      after.Represents flat := by
  obtain ⟨map, hcheck, hafter⟩ := hflat.checkRange .read address buffer.size
  refine ⟨{ memory with pageMap := map }, ?_, hafter⟩
  rw [SparseMemory.readInto, FlatMemory.readInto, hcheck]
  cases hverdict : AccessKind.read.verdict flat.access address buffer.size with
  | error fault => rfl
  | ok allowed =>
      have hsize := (AccessKind.verdict_eq_ok_iff.mp hverdict).1
      dsimp only
      rw [contents_eq hflat address hsize]

theorem Represents.read (hflat : memory.Represents flat) (address : UInt32)
    (length : UInt64) :
    (Memory.read memory address length).1 = flat.read address length ∧
      (Memory.read memory address length).2.Represents flat := by
  obtain ⟨map, hcheck, hafter⟩ := hflat.checkRange .read address length.toNat
  have hchecked : Memory.check memory .read address length =
      (AccessKind.read.verdict flat.access address length.toNat,
        { memory with pageMap := map }) :=
    congrArg (fun checked => (checked.1, { memory with pageMap := checked.2 })) hcheck
  rw [Memory.read, FlatMemory.read, hchecked]
  cases hverdict : AccessKind.read.verdict flat.access address length.toNat with
  | error fault => exact ⟨rfl, hafter⟩
  | ok allowed =>
      obtain ⟨after, hread, hrepresents⟩ :=
        hafter.readInto address (Bytes.zeros length.toNat)
      have hinto : Memory.readInto { memory with pageMap := map } address
          (Bytes.zeros length.toNat) = _ := hread
      dsimp only
      rw [hinto, FlatMemory.readInto, Bytes.size_zeros, hverdict]
      exact ⟨rfl, hrepresents⟩

theorem Represents.write (hflat : memory.Represents flat) (address : UInt32)
    (bytes : ByteArray) :
    (memory.write address bytes).1 = (flat.write address bytes).1 ∧
      (memory.write address bytes).2.Represents (flat.write address bytes).2 := by
  obtain ⟨map, hcheck, hafter⟩ := hflat.checkRange .write address bytes.size
  rw [SparseMemory.write, FlatMemory.write, hcheck]
  cases hverdict : AccessKind.write.verdict flat.access address bytes.size with
  | error fault => exact ⟨rfl, hafter⟩
  | ok allowed =>
      have hsize := (AccessKind.verdict_eq_ok_iff.mp hverdict).1
      exact ⟨rfl, hafter.store address hsize⟩

theorem Represents.grow (hflat : memory.Represents flat) (increment : UInt32) :
    (memory.grow increment).1 = (flat.grow increment).1 ∧
      (memory.grow increment).2.Represents (flat.grow increment).2 := by
  rw [SparseMemory.grow, FlatMemory.grow, gap?_eq hflat]
  generalize pagesFor increment.toNat = pages
  have hfirst := memory.pageMap.firstGap_findGap (max pages 1) firstUserPage
  cases hgap : memory.pageMap.findGap (max pages 1) firstUserPage with
  | none => exact ⟨rfl, hflat⟩
  | some page =>
      rw [hgap] at hfirst
      obtain ⟨_, ⟨hgapFits, _⟩, _⟩ := hfirst
      have hfits : page + pages ≤ pageCount := by omega
      refine ⟨rfl, ?_⟩
      dsimp only
      split
      · next hnone =>
          rw [hnone, FlatMemory.assign_zero]
          exact hflat
      · exact hflat.assign hfits (some .readWrite)

theorem Represents.setPages (hflat : memory.Represents flat) {first count : Nat}
    (hfits : first + count ≤ pageCount) (mode : PageMode) :
    (memory.setPages first count mode).Represents (flat.setPages first count mode) := by
  have hassigned := hflat.assign hfits mode.access
  unfold SparseMemory.setPages FlatMemory.setPages
  cases mode.keepsContents with
  | true => exact hassigned
  | false => exact hassigned.clear first count

/-- One operation answers alike on a sparse memory and on the flat memory it
stands for, and keeps the one standing for the other. -/
theorem Represents.perform (hflat : memory.Represents flat) (operation : Memory.Operation) :
    (operation.perform memory).1 = (operation.onFlat flat).1 ∧
      (operation.perform memory).2.Represents (operation.onFlat flat).2 := by
  cases operation with
  | write address bytes =>
      obtain ⟨hresult, hafter⟩ := hflat.write address bytes
      exact ⟨congrArg MemoryAnswer.written hresult, hafter⟩
  | readInto address buffer =>
      obtain ⟨after, hread, hafter⟩ := hflat.readInto address buffer
      have hinto : Memory.readInto memory address buffer = _ := hread
      rw [Memory.Operation.perform, hinto]
      exact ⟨rfl, hafter⟩
  | read address length =>
      obtain ⟨hresult, hafter⟩ := hflat.read address length
      exact ⟨congrArg MemoryAnswer.bytes hresult, hafter⟩
  | grow increment =>
      obtain ⟨hresult, hafter⟩ := hflat.grow increment
      exact ⟨congrArg MemoryAnswer.grown hresult, hafter⟩

/-! ## Operations one after the other -/

namespace Operation

/-- The pages that the host changes lie in the address space. -/
def InSpace : Operation → Prop
  | .offered _ => True
  | .setPages first count _ => first.toNat + count.toNat ≤ pageCount

def answers {μ : Type} (perform : μ → Operation → MemoryAnswer × μ) :
    μ → List Operation → List MemoryAnswer
  | _, [] => []
  | memory, operation :: rest =>
    (perform memory operation).1 :: answers perform (perform memory operation).2 rest

theorem perform_eq_onFlat (hflat : memory.Represents flat) {operation : Operation}
    (hinSpace : operation.InSpace) :
    (operation.perform memory).1 = (operation.onFlat flat).1 ∧
      (operation.perform memory).2.Represents (operation.onFlat flat).2 := by
  cases operation with
  | offered operation => exact hflat.perform operation
  | setPages first count mode => exact ⟨rfl, hflat.setPages hinSpace mode⟩

/-- From related memories on, all operations answer alike. -/
theorem answers_eq_of_represents (hflat : memory.Represents flat) {operations : List Operation}
    (hinSpace : ∀ operation ∈ operations, operation.InSpace) :
    answers perform memory operations = answers onFlat flat operations := by
  induction operations generalizing memory flat with
  | nil => rfl
  | cons operation rest ih =>
      obtain ⟨hfirst, hrest⟩ := List.forall_mem_cons.mp hinSpace
      obtain ⟨hanswer, hafter⟩ := perform_eq_onFlat hflat hfirst
      rw [answers, answers, hanswer, ih hafter hrest]

/-- A sparse memory refines a flat one.  Whatever operations are carried out on
an empty sparse memory, of whatever cache, each answers as it does on the empty
flat memory: with the same bytes, the same error and address at fault, the same
start of new space and the same buffer. -/
theorem sparse_answers_eq_flat_answers (capacity : Nat) {operations : List Operation}
    (hinSpace : ∀ operation ∈ operations, operation.InSpace) :
    answers perform (.empty capacity) operations = answers onFlat .empty operations :=
  answers_eq_of_represents (represents_empty capacity) hinSpace

/-- Pages up to the top of the address space are mapped, and a range is written
and read that wraps around it. -/
def topHistory : List Operation :=
  [.setPages 0xFFFFE 2 .zeroReadWrite, .setPages 0 1 .readWrite,
    .offered (.write 0xFFFFFFFE [1, 2, 3, 4].toByteArray), .offered (.read 0xFFFFFFFF 3),
    .setPages 0 1 .void, .offered (.readInto 0xFFFFFFFF [5, 6].toByteArray)]

theorem topHistory_answers_eq_flat_answers :
    (∀ operation ∈ topHistory, operation.InSpace) ∧
      answers perform (.empty PageMap.defaultCapacity) topHistory =
        answers onFlat .empty topHistory := by
  have hinSpace : ∀ operation ∈ topHistory, operation.InSpace := by
    simp [topHistory, InSpace, pageCount]
  exact ⟨hinSpace, sparse_answers_eq_flat_answers PageMap.defaultCapacity hinSpace⟩

end Operation

end SparseMemory

end GasMachine
