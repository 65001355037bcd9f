import GasMachine.Proofs.Memory.StandardLayout

/-!
# The heap of a standard program

The heap in use ends at any byte, and it is mapped to the end of the page of that
byte.  Growing it hands out the space behind what is in use.  So the spaces that a
program is given follow one another without gaps, up to the stack at most, and what
the program had stored stays where it was.
-/

namespace GasMachine

open AddressSpace

/-! ## Spaces -/

/-- The addresses that one growth of a heap hands out. -/
structure Allocation where
  start : Nat
  length : Nat

namespace Allocation

def stop (space : Allocation) : Nat := space.start + space.length

/-- The spaces fill the addresses from `first` up to `last`, one after the other. -/
def Consecutive : (first last : Nat) → List Allocation → Prop
  | first, last, [] => first = last
  | first, last, space :: rest => space.start = first ∧ Consecutive space.stop last rest

namespace Consecutive

variable {first last : Nat} {spaces : List Allocation}

theorem append {next : Nat} {more : List Allocation} (hspaces : Consecutive first last spaces)
    (hmore : Consecutive last next more) : Consecutive first next (spaces ++ more) := by
  induction spaces generalizing first with
  | nil => exact hspaces ▸ hmore
  | cons space rest ih => exact ⟨hspaces.1, ih hspaces.2⟩

theorem bounds (hspaces : Consecutive first last spaces) :
    first ≤ last ∧ ∀ space ∈ spaces, first ≤ space.start ∧ space.stop ≤ last := by
  induction spaces generalizing first with
  | nil => exact ⟨Nat.le_of_eq hspaces, by simp⟩
  | cons space rest ih =>
      obtain ⟨rfl, hrest⟩ := hspaces
      obtain ⟨hlast, hbounds⟩ := ih hrest
      have hstop : space.start ≤ space.stop := Nat.le_add_right _ _
      refine ⟨Nat.le_trans hstop hlast, fun other hother => ?_⟩
      rcases List.mem_cons.mp hother with rfl | hother
      · exact ⟨Nat.le_refl _, hlast⟩
      · exact ⟨Nat.le_trans hstop (hbounds other hother).1, (hbounds other hother).2⟩

theorem pairwise (hspaces : Consecutive first last spaces) :
    spaces.Pairwise fun space later => space.stop ≤ later.start := by
  induction spaces generalizing first with
  | nil => exact List.Pairwise.nil
  | cons space rest ih =>
      obtain ⟨-, hrest⟩ := hspaces
      exact List.pairwise_cons.mpr ⟨fun later hlater => (hrest.bounds.2 later hlater).1, ih hrest⟩

end Consecutive

end Allocation

/-! ## Growing a flat heap -/

namespace FlatHeap

variable {heap : FlatHeap} {increment : UInt32}

theorem grow_eq_error_iff :
    (∃ error, (heap.grow increment).1 = .error error) ↔
      heap.limit < roundUpToPage (heap.heapEnd + increment.toNat) := by
  rw [grow]
  dsimp only
  split
  · next hlimit => exact iff_of_true ⟨_, rfl⟩ hlimit
  · next hlimit => exact iff_of_false (by simp) hlimit

theorem grow_of_ok {start : UInt32} (hgrow : (heap.grow increment).1 = .ok start) :
    roundUpToPage (heap.heapEnd + increment.toNat) ≤ heap.limit ∧
      start = UInt32.ofNat heap.heapEnd ∧
      (heap.grow increment).2.heapEnd = heap.heapEnd + increment.toNat := by
  rw [grow] at hgrow ⊢
  dsimp only at hgrow ⊢
  split at hgrow
  · cases hgrow
  · next hlimit =>
      rw [if_neg hlimit]
      exact ⟨Nat.not_lt.mp hlimit, (Except.ok.inj hgrow).symm, rfl⟩

/-- The space that is handed out can be written. -/
theorem verdict_grow (hlimit : heap.limit < size) {start : UInt32}
    (hgrow : (heap.grow increment).1 = .ok start) :
    AccessKind.write.verdict (heap.grow increment).2.access start increment.toNat = .ok () := by
  obtain ⟨hbelow, rfl, -⟩ := grow_of_ok hgrow
  have hend := le_roundUpToPage (heap.heapEnd + increment.toNat)
  have hsize : increment.toNat ≤ size := Nat.le_of_lt increment.toNat_lt
  refine AccessKind.verdict_eq_ok_iff.mpr ⟨hsize, fun offset hoffset => ?_⟩
  have htarget : (UInt32.ofNat heap.heapEnd + UInt32.ofNat offset).toNat =
      heap.heapEnd + offset := by
    rw [toNat_add_ofNat, UInt32.toNat_ofNat']
    unfold size at *
    omega
  have hinside : FlatMemory.inPages (heap.heapEnd / pageSize)
      (pagesFor (heap.heapEnd + increment.toNat) - heap.heapEnd / pageSize)
      (UInt32.ofNat heap.heapEnd + UInt32.ofNat offset) = true := by
    rw [FlatMemory.inPages_iff, pageOf, htarget]
    unfold pagesFor pageSize
    omega
  rw [grow, if_neg (Nat.not_lt.mpr hbelow)]
  dsimp only [FlatMemory.assign]
  rw [if_pos hinside]
  rfl

/-- Growing takes no access away and leaves the bytes. -/
theorem grow_keeps (heap : FlatHeap) (increment : UInt32) :
    (heap.grow increment).2.image = heap.image ∧
      ∀ address, (heap.grow increment).2.access address = heap.access address ∨
        (heap.grow increment).2.access address = some .readWrite := by
  rw [grow]
  dsimp only
  split
  · exact ⟨rfl, fun _ => Or.inl rfl⟩
  · refine ⟨rfl, fun address => ?_⟩
    dsimp only [FlatMemory.assign]
    split
    · exact Or.inr rfl
    · exact Or.inl rfl

theorem readable_grow {address : UInt32} {length : Nat}
    (hreadable : AccessKind.read.verdict heap.access address length = .ok ())
    (increment : UInt32) :
    AccessKind.read.verdict (heap.grow increment).2.access address length = .ok () := by
  rw [AccessKind.verdict_eq_ok_iff] at hreadable ⊢
  refine ⟨hreadable.1, fun offset hoffset => ?_⟩
  rcases (heap.grow_keeps increment).2 (address + UInt32.ofNat offset) with hsame | hgranted
  · rw [hsame]
    exact hreadable.2 offset hoffset
  · rw [hgranted]
    rfl

end FlatHeap

/-! ## Operations that hand out space -/

namespace Memory.Operation

/-- The space that was handed out, if the operation is a growth and it was answered by the start of
the space. -/
def allocated? : Memory.Operation → MemoryAnswer → Option Allocation
  | .grow increment, .grown (.ok start) => some ⟨start.toNat, increment.toNat⟩
  | _, _ => none

def allocations {μ : Type} [Memory μ] (memory : μ) : List Memory.Operation → List Allocation
  | [] => []
  | operation :: rest =>
    (operation.allocated? (operation.perform memory).1).toList ++
      allocations (operation.perform memory).2 rest

/-- The operation stores a byte at the address, if it is carried out. -/
def Covers (target : UInt32) : Memory.Operation → Prop
  | .write address bytes => (target - address).toNat < bytes.size
  | .readInto _ _ | .read _ _ | .grow _ => False

theorem limit_onFlat (heap : FlatHeap) (operation : Memory.Operation) :
    (operation.onFlat heap).2.limit = heap.limit := by
  cases operation with
  | grow increment =>
      show (heap.grow increment).2.limit = heap.limit
      rw [FlatHeap.grow]
      dsimp only
      split <;> rfl
  | _ => rfl

theorem limit_allOnFlat (heap : FlatHeap) (operations : List Memory.Operation) :
    (allOnFlat heap operations).limit = heap.limit := by
  induction operations generalizing heap with
  | nil => rfl
  | cons operation rest ih => exact (ih _).trans (limit_onFlat heap operation)

theorem image_onFlat (heap : FlatHeap) {operation : Memory.Operation} {target : UInt32}
    (htarget : ¬ operation.Covers target) :
    (operation.onFlat heap).2.image target = heap.image target := by
  cases operation with
  | write address bytes =>
      show (heap.write address bytes).2.image target = heap.image target
      rw [FlatHeap.write, FlatMemory.write]
      cases AccessKind.write.verdict heap.access address bytes.size with
      | error fault => rfl
      | ok allowed => exact if_neg htarget
  | grow increment => exact congrFun (heap.grow_keeps increment).1 target
  | readInto address buffer => rfl
  | read address length => rfl

end Memory.Operation

namespace ZonedMemory

open Memory.Operation

variable {memory : ZonedMemory}

/-! ## Growing the heap of a memory -/

/-- Growing leaves the zones where they start, with what they keep, and only moves their ends
up. -/
theorem zone_grow (memory : ZonedMemory) (increment : UInt32) (region : Region) :
    ((memory.grow increment).2.zone region).start = (memory.zone region).start ∧
      (memory.zone region).stop.toNat ≤ ((memory.grow increment).2.zone region).stop.toNat ∧
      ((memory.grow increment).2.zone region).data = (memory.zone region).data := by
  rcases memory.grow_cases increment with
    ⟨heapEnd, hafter⟩ | ⟨heapEnd, mappedEnd, hextends, hafter⟩
  · rw [hafter, zone_setHeapEnd]
    exact ⟨rfl, Nat.le_refl _, rfl⟩
  · rw [hafter, zone_setHeapEnd]
    cases region with
    | heap =>
        refine ⟨rfl, ?_, rfl⟩
        exact Nat.le_trans (Nat.le_of_lt hextends.above) (Nat.le_of_eq hextends.toNat_ofNat.symm)
    | _ => exact ⟨rfl, Nat.le_refl _, rfl⟩

theorem contains_grow {region : Region} {address : UInt32}
    (hcontains : (memory.zone region).contains address = true) (increment : UInt32) :
    ((memory.grow increment).2.zone region).contains address = true := by
  obtain ⟨hstart, hstop, -⟩ := memory.zone_grow increment region
  rw [Zone.contains_iff] at hcontains ⊢
  rw [hstart]
  exact ⟨hcontains.1, Nat.lt_of_lt_of_le hcontains.2 hstop⟩

section InStep

variable (hinStep : memory.InStep)
include hinStep

theorem InStep.grow_of_error {increment : UInt32} {error : MemoryError}
    (hgrow : (memory.grow increment).1 = .error error) :
    error = .outOfMemory memory.heapEnd ∧ (memory.grow increment).2 = memory := by
  rw [hinStep.grow_eq] at hgrow ⊢
  split
  · next hstack =>
      rw [if_pos hstack] at hgrow
      exact ⟨(Except.error.inj hgrow).symm, rfl⟩
  · next hstack =>
      rw [if_neg hstack] at hgrow
      cases hgrow

theorem InStep.grow_of_ok {increment start : UInt32}
    (hgrow : (memory.grow increment).1 = .ok start) :
    start = memory.heapEnd ∧
      (memory.grow increment).2.heapEnd.toNat = memory.heapEnd.toNat + increment.toNat ∧
      (Memory.allows (memory.grow increment).2 .write start increment.toUInt64).1 = true := by
  obtain ⟨hresult, hflatten, -⟩ := hinStep.grow increment
  rw [hresult] at hgrow
  obtain ⟨-, hstart, hend⟩ := FlatHeap.grow_of_ok hgrow
  refine ⟨hstart.trans UInt32.ofNat_toNat, ?_, ?_⟩
  · exact (congrArg FlatHeap.heapEnd hflatten).trans hend
  · rw [allows_iff, hflatten, UInt32.toNat_toUInt64]
    exact FlatHeap.verdict_grow memory.stack.start.toNat_lt hgrow

theorem InStep.read_aborted_iff {address : UInt32} {length : UInt64} :
    (Memory.read memory address length).1 = .error .aborted ↔
      memory.StartsBehind address length.toNat := by
  obtain ⟨stored, hstored⟩ := hinStep.represents
  rw [hstored.read_aborted_iff, hstored.readsBehind_iff]

/-- A read that does not stop the host does not do so after growing either: the range starts in
the same zone, at the same place of what that keeps. -/
theorem InStep.startsBehind_of_grow {increment address : UInt32} {length : Nat}
    (hreadable : AccessKind.read.verdict memory.flatten.access address length = .ok ())
    (hbehind : (memory.grow increment).2.StartsBehind address length) :
    memory.StartsBehind address length := by
  obtain ⟨-, hpositive, region, hcontains, hsize⟩ := hbehind
  obtain ⟨stored, hstored⟩ := hinStep.represents
  obtain ⟨after, hafter⟩ := (hinStep.grow increment).2.2.represents
  have hfirst : AccessKind.read.allowedBy (memory.flatten.access address) = true := by
    have hfirst := (AccessKind.verdict_eq_ok_iff.mp hreadable).2 0 (Nat.pos_of_ne_zero hpositive)
    rwa [show UInt32.ofNat 0 = 0 from rfl, UInt32.add_zero] at hfirst
  obtain ⟨other, hother⟩ := (hstored.layout.readable_iff address).mp
    ((memory.allows_one_iff .read address).mpr hfirst)
  obtain rfl := hafter.layout.eq_of_contains hcontains (contains_grow hother increment)
  obtain ⟨hstart, -, hdata⟩ := memory.zone_grow increment region
  rw [Zone.offset, hstart, hdata] at hsize
  exact ⟨hreadable, hpositive, region, hother, hsize⟩

/-- What could be read before growing reads the same afterwards. -/
theorem InStep.read_grow {address : UInt32} {length : UInt64} {bytes : ByteArray}
    (hread : (Memory.read memory address length).1 = .ok bytes) (increment : UInt32) :
    (Memory.read (memory.grow increment).2 address length).1 = .ok bytes := by
  obtain ⟨-, hflatten, hafter⟩ := hinStep.grow increment
  have hanswers : (Memory.read memory address length).1 ≠ .error .aborted := by simp [hread]
  have hflat := hinStep.read_eq hanswers
  rw [hread, FlatMemory.read] at hflat
  cases hreadable : AccessKind.read.verdict memory.flatten.access address length.toNat with
  | error fault =>
      rw [hreadable] at hflat
      cases hflat
  | ok allowed =>
      rw [hreadable] at hflat
      have hanswersAfter :
          (Memory.read (memory.grow increment).2 address length).1 ≠ .error .aborted := by
        rw [Ne, hafter.read_aborted_iff]
        exact mt (hinStep.startsBehind_of_grow hreadable) (mt hinStep.read_aborted_iff.mpr hanswers)
      rw [hafter.read_eq hanswersAfter, FlatMemory.read, hflatten,
        FlatHeap.readable_grow hreadable, (memory.flatten.grow_keeps increment).1]
      exact hflat.symm

/-! ## Runs -/

/-- One operation hands out the space up to where the heap in use ends afterwards. -/
theorem InStep.consecutive_perform (operation : Memory.Operation) :
    Allocation.Consecutive memory.heapEnd.toNat (operation.perform memory).2.heapEnd.toNat
      (operation.allocated? (operation.perform memory).1).toList := by
  have hend : (operation.perform memory).2.heapEnd.toNat =
      (operation.onFlat memory.flatten).2.heapEnd :=
    congrArg FlatHeap.heapEnd (hinStep.perform operation).1
  cases operation with
  | grow increment =>
      change Allocation.Consecutive _ (memory.grow increment).2.heapEnd.toNat
        (allocated? (.grow increment) (.grown (memory.grow increment).1)).toList
      cases hgrow : (memory.grow increment).1 with
      | error error =>
          rw [(hinStep.grow_of_error hgrow).2]
          rfl
      | ok start =>
          obtain ⟨rfl, hafter, -⟩ := hinStep.grow_of_ok hgrow
          exact ⟨rfl, hafter.symm⟩
  | write address bytes => exact hend.symm
  | readInto address buffer => exact hend.symm
  | read address length => exact hend.symm

theorem InStep.consecutive_performAll (operations : List Memory.Operation) :
    Allocation.Consecutive memory.heapEnd.toNat
      (Memory.Operation.performAll memory operations).heapEnd.toNat
      (allocations memory operations) := by
  induction operations generalizing memory with
  | nil => rfl
  | cons operation rest ih =>
      exact (hinStep.consecutive_perform operation).append (ih (hinStep.perform operation).2)

theorem InStep.stackStart_performAll (operations : List Memory.Operation) :
    (Memory.Operation.performAll memory operations).stack.start = memory.stack.start := by
  apply UInt32.toNat_inj.mp
  exact (congrArg FlatHeap.limit (hinStep.performAll operations).1).trans
    (limit_allOnFlat memory.flatten operations)

end InStep

/-- The heap of a memory grows by moving its end up.  It is mapped to the end of the page of the
last byte in use, below the stack, and it grows exactly if that stays so.  What is handed out is
the space behind its end, which can be written from then on.  A growth that fails changes nothing,
a growth that succeeds changes neither the bytes nor what a read answers that was answered before,
and other operations change the bytes that they store. -/
structure BumpsHeap (memory : ZonedMemory) : Prop where
  mapped : memory.heap.stop.toNat = roundUpToPage memory.heapEnd.toNat
  below : memory.heap.stop.toNat ≤ memory.stack.start.toNat
  granted : ∀ increment start, (memory.grow increment).1 = .ok start →
    start = memory.heapEnd ∧
      (memory.grow increment).2.heapEnd.toNat = memory.heapEnd.toNat + increment.toNat ∧
      (Memory.allows (memory.grow increment).2 .write start increment.toUInt64).1 = true
  refused : ∀ increment, (∃ error, (memory.grow increment).1 = .error error) ↔
    memory.stack.start.toNat < roundUpToPage (memory.heapEnd.toNat + increment.toNat)
  unchanged : ∀ increment error, (memory.grow increment).1 = .error error →
    error = .outOfMemory memory.heapEnd ∧ (memory.grow increment).2 = memory
  kept : ∀ (operation : Memory.Operation) target, ¬ operation.Covers target →
    (operation.perform memory).2.image target = memory.image target
  answered : ∀ address length bytes, (Memory.read memory address length).1 = .ok bytes →
    ∀ increment, (Memory.read (memory.grow increment).2 address length).1 = .ok bytes

theorem BumpsHeap.heapEnd_le (hbumps : memory.BumpsHeap) :
    memory.heapEnd.toNat ≤ memory.stack.start.toNat :=
  calc memory.heapEnd.toNat ≤ roundUpToPage memory.heapEnd.toNat := le_roundUpToPage _
    _ = memory.heap.stop.toNat := hbumps.mapped.symm
    _ ≤ memory.stack.start.toNat := hbumps.below

theorem InStep.bumpsHeap (hinStep : memory.InStep) : memory.BumpsHeap where
  mapped := hinStep.heapStop
  below := by
    obtain ⟨stored, hstored⟩ := hinStep.represents
    exact hstored.layout.heap_stack
  granted _ _ hgrow := hinStep.grow_of_ok hgrow
  refused increment := by
    rw [(hinStep.grow increment).1]
    exact FlatHeap.grow_eq_error_iff
  unchanged _ _ hgrow := hinStep.grow_of_error hgrow
  kept operation target htarget := by
    have hafter := congrFun (congrArg (·.image) (hinStep.perform operation).1) target
    exact hafter.trans (image_onFlat memory.flatten htarget)
  answered _ _ _ hread increment := hinStep.read_grow hread increment

/-- The heap of a standard program is a bump allocator.  Whatever parses and is loaded with an
argument within the limit gets a memory whose heap grows by moving its end up, whatever operations
have been carried out on it before.  The spaces that they handed out follow one another from the
first end of the heap to its present one, so that no two of them meet, and all of them lie below
the stack, which does not move. -/
theorem standard_heap_is_bump_allocator {blob argument : ByteArray} {standard : StandardProgram}
    (hparse : StandardProgram.parse blob = .ok standard)
    (hargument : argument.size ≤ argumentLimit) (capacity : Nat) :
    ∃ memory, initial? standard argument (.empty capacity) = some (.ok memory) ∧
      ∀ operations : List Memory.Operation,
        (performAll memory operations).BumpsHeap ∧
        Allocation.Consecutive memory.heapEnd.toNat
          (performAll memory operations).heapEnd.toNat (allocations memory operations) ∧
        (allocations memory operations).Pairwise (fun space later => space.stop ≤ later.start) ∧
        (∀ space ∈ allocations memory operations, space.stop ≤ memory.stack.start.toNat) ∧
        (performAll memory operations).stack.start = memory.stack.start := by
  have hfits : Fits standard argument :=
    fits_of_footprint_le (StandardProgram.footprint_le_of_parse hparse) hargument
  have hmap : ∀ address, (PageMap.empty capacity).table.accessAt address = none :=
    fun address => PageTable.get_empty (pageOf address)
  have hinStep := hfits.inStep hmap
  refine ⟨_, hfits.initial?_eq (.empty capacity), fun operations => ?_⟩
  have hbumps := (hinStep.performAll operations).2.bumpsHeap
  have hspaces := hinStep.consecutive_performAll operations
  have hstack := hinStep.stackStart_performAll operations
  refine ⟨hbumps, hspaces, hspaces.pairwise, fun space hspace => ?_, hstack⟩
  rw [← hstack]
  exact Nat.le_trans (hspaces.bounds.2 space hspace).2 hbumps.heapEnd_le

theorem dataProgram_heap_is_bump_allocator :
    StandardProgram.parse dataBlob = .ok dataProgram ∧
      [1, 2, 3].toByteArray.size ≤ argumentLimit ∧
      ∃ memory,
        initial? dataProgram [1, 2, 3].toByteArray (.empty PageMap.defaultCapacity) =
          some (.ok memory) ∧
        (performAll memory [.grow 0x1800, .write 0x32000 [4, 6].toByteArray,
          .grow 0xFFFFFFFF, .grow 0, .grow 1]).BumpsHeap := by
  have hparse : StandardProgram.parse dataBlob = .ok dataProgram := by cbv
  have hargument : [1, 2, 3].toByteArray.size ≤ argumentLimit := by decide
  obtain ⟨memory, hinitial, hbumps⟩ :=
    standard_heap_is_bump_allocator hparse hargument PageMap.defaultCapacity
  exact ⟨hparse, hargument, memory, hinitial, (hbumps _).1⟩

end ZonedMemory

end GasMachine
