import Mathlib
import GasMachine.Proofs.Memory.Operations
import GasMachine.Proofs.Memory.ZonedContents
import GasMachine.Proofs.Program.BlobLimits

/-!
# Zoned memories are flat memories

The memory of a standard program keeps the access of its pages apart from its
contents, which lie in four zones.  The two stay in step: whatever the page map
lets a program touch lies in one zone.  So whenever an operation answers, it
answers like a flat memory whose heap grows towards its stack, and it takes
effect as a whole or not at all.
-/

namespace GasMachine

open AddressSpace

/-! ## Flat memories with a heap -/

/-- A flat memory with a heap in use up to `heapEnd`, which may grow up to
`limit`. -/
structure FlatHeap extends FlatMemory where
  heapEnd : Nat
  limit : Nat

namespace FlatHeap

def write (heap : FlatHeap) (address : UInt32) (bytes : ByteArray) :
    Except MemoryError Unit × FlatHeap :=
  let (result, flat) := heap.toFlatMemory.write address bytes
  (result, { heap with toFlatMemory := flat })

/-- Moves the end of the heap up.  The pages that the new space touches can be
written from then on, unless they would reach beyond the limit. -/
def grow (heap : FlatHeap) (increment : UInt32) : Except MemoryError UInt32 × FlatHeap :=
  let newEnd := heap.heapEnd + increment.toNat
  if heap.limit < roundUpToPage newEnd then
    (.error (.outOfMemory (UInt32.ofNat heap.heapEnd)), heap)
  else
    (.ok (UInt32.ofNat heap.heapEnd),
      { heap with
        toFlatMemory := heap.toFlatMemory.assign (heap.heapEnd / pageSize)
          (pagesFor newEnd - heap.heapEnd / pageSize) (some .readWrite)
        heapEnd := newEnd })

def initial (standard : StandardProgram) (argument : ByteArray) : FlatHeap where
  image := (ZonedMemory.loaded standard argument).image
  access address :=
    ([Region.readOnly, .heap, .stack, .argument].find? fun region =>
      decide (ZonedMemory.startOf standard region ≤ address.toNat ∧
        address.toNat < ZonedMemory.startOf standard region +
          ZonedMemory.roomOf standard argument region)).map Region.access
  heapEnd := ZonedMemory.startOf standard .heap + ZonedMemory.roomOf standard argument .heap
  limit := ZonedMemory.startOf standard .stack

instance : FlatSpace FlatHeap where
  flat := FlatHeap.toFlatMemory
  write := FlatHeap.write
  grow := FlatHeap.grow

end FlatHeap

def MemoryAnswer.aborted : MemoryAnswer → Bool
  | .filled (.error .aborted) _ => true
  | .bytes (.error .aborted) => true
  | _ => false

/-! ## What a zoned memory stands for -/

namespace ZonedMemory

/-- The byte at each address: what its zone holds there, and zero elsewhere. -/
def image (memory : ZonedMemory) : Image := fun address =>
  match memory.regionAt? address with
  | none => 0
  | some region =>
    Bytes.byteAt (memory.zone region).data ((memory.zone region).offset address)

def flatten (memory : ZonedMemory) : FlatHeap where
  image := memory.image
  access := memory.pageMap.table.accessAt
  heapEnd := memory.heapEnd.toNat
  limit := (memory.zone .stack).start.toNat

/-- What a memory holds is what was stored in it. -/
theorem Represents.image_eq {memory : ZonedMemory} {stored : Stored}
    (hstored : memory.Represents stored) : memory.image = stored.image := by
  funext address
  rw [image]
  cases hregion : memory.regionAt? address with
  | none => rw [Stored.image, hstored.outside address hregion, Option.getD_none]
  | some region =>
      have hcontains := hstored.layout.regionAt?_eq_some_iff.mp hregion
      exact ((hstored.holds region).byte address hcontains).symm

/-- The page map and the zones are in step: they agree on some record of what was
stored, zones are made of whole pages, and the heap is mapped to the end of the
last page in use. -/
structure InStep (memory : ZonedMemory) : Prop where
  represents : ∃ stored, memory.Represents stored
  start_aligned : ∀ region, (memory.zone region).start.toNat % pageSize = 0
  stop_aligned : ∀ region, (memory.zone region).stop.toNat % pageSize = 0
  heapStart_le : (memory.zone .heap).start.toNat ≤ memory.heapEnd.toNat
  heapStop : (memory.zone .heap).stop.toNat = roundUpToPage memory.heapEnd.toNat

/-- Memories that differ at most in their contents and in what they remember. -/
structure SameShape (memory after : ZonedMemory) : Prop where
  table : after.pageMap.table = memory.pageMap.table
  start : ∀ region, (after.zone region).start = (memory.zone region).start
  stop : ∀ region, (after.zone region).stop = (memory.zone region).stop
  heapEnd : after.heapEnd = memory.heapEnd

namespace SameShape

variable {memory after : ZonedMemory}

theorem refl (memory : ZonedMemory) : memory.SameShape memory :=
  ⟨rfl, fun _ => rfl, fun _ => rfl, rfl⟩

theorem trans {later : ZonedMemory} (hfirst : memory.SameShape after)
    (hsecond : after.SameShape later) : memory.SameShape later where
  table := hsecond.table.trans hfirst.table
  start region := (hsecond.start region).trans (hfirst.start region)
  stop region := (hsecond.stop region).trans (hfirst.stop region)
  heapEnd := hsecond.heapEnd.trans hfirst.heapEnd

theorem inStep (hshape : memory.SameShape after) (hinStep : memory.InStep) {stored : Stored}
    (hstored : after.Represents stored) : after.InStep where
  represents := ⟨stored, hstored⟩
  start_aligned region := by rw [hshape.start]; exact hinStep.start_aligned region
  stop_aligned region := by rw [hshape.stop]; exact hinStep.stop_aligned region
  heapStart_le := by rw [hshape.start, hshape.heapEnd]; exact hinStep.heapStart_le
  heapStop := by rw [hshape.stop, hshape.heapEnd]; exact hinStep.heapStop

theorem flatten_eq (hshape : memory.SameShape after) :
    after.flatten = { memory.flatten with image := after.image } := by
  rw [flatten, flatten, hshape.table, hshape.heapEnd, hshape.start]

end SameShape

theorem sameShape_checkRange (memory : ZonedMemory) (kind : AccessKind) (address : UInt32)
    (length : Nat) :
    memory.SameShape
      { memory with pageMap := (memory.pageMap.checkRange kind address length).2 } := by
  obtain ⟨cache, hsound, hcheck⟩ := memory.pageMap.checkRange_eq kind address length
  rw [hcheck]
  exact ⟨rfl, fun region => by rw [zone_setPageMap], fun region => by rw [zone_setPageMap], rfl⟩

theorem sameShape_updateZone_write (memory : ZonedMemory) (region : Region) (position : UInt32)
    (bytes : ByteArray) :
    memory.SameShape (memory.updateZone region fun zone => zone.write position bytes) where
  table := by rw [pageMap_updateZone]
  start other := by
    rw [zone_updateZone]
    split <;> rfl
  stop other := by
    rw [zone_updateZone]
    split <;> rfl
  heapEnd := by cases region <;> rfl

theorem sameShape_writeFrom (memory : ZonedMemory) (position : UInt32) (bytes : ByteArray)
    (done : Nat) : memory.SameShape (memory.writeFrom position bytes done).2 := by
  fun_induction memory.writeFrom position bytes done with
  | case1 memory position done hdone => exact .refl memory
  | case2 memory position done hdone hregion => exact .refl memory
  | case3 memory position done hdone region hregion count piece ih =>
      exact (memory.sameShape_updateZone_write region position piece).trans ih

theorem sameShape_write (memory : ZonedMemory) (address : UInt32) (bytes : ByteArray) :
    memory.SameShape (memory.write address bytes).2 := by
  have hchecked := memory.sameShape_checkRange .write address bytes.size
  rw [ZonedMemory.write]
  rcases hcheck : memory.pageMap.checkRange .write address bytes.size with ⟨verdict, map⟩
  rw [hcheck] at hchecked
  cases verdict with
  | error fault => exact hchecked
  | ok allowed => exact hchecked.trans (sameShape_writeFrom _ _ _ _)

/-! ## Reads -/

theorem flatten_checkRange (memory : ZonedMemory) (kind : AccessKind) (address : UInt32)
    (length : Nat) :
    { memory with pageMap := (memory.pageMap.checkRange kind address length).2 }.flatten =
      memory.flatten := by
  have himage : image { memory with
      pageMap := (memory.pageMap.checkRange kind address length).2 } = memory.image := by
    funext target
    simp only [image, regionAt?_setPageMap, zone_setPageMap]
  rw [(memory.sameShape_checkRange kind address length).flatten_eq, himage]
  rfl

theorem InStep.checkRange {memory : ZonedMemory} (hinStep : memory.InStep) (kind : AccessKind)
    (address : UInt32) (length : Nat) :
    InStep { memory with pageMap := (memory.pageMap.checkRange kind address length).2 } := by
  obtain ⟨stored, hstored⟩ := hinStep.represents
  exact (memory.sameShape_checkRange kind address length).inStep hinStep
    (hstored.checkRange kind address length)

theorem checkRange_fst (memory : ZonedMemory) (kind : AccessKind) (address : UInt32)
    (length : Nat) :
    (memory.pageMap.checkRange kind address length).1 =
      kind.verdict memory.flatten.access address length := by
  obtain ⟨cache, hsound, hcheck⟩ := memory.pageMap.checkRange_eq kind address length
  rw [hcheck, flatten]

/-- A range has bytes, all of them can be read, and it starts behind all that its
zone keeps. -/
def StartsBehind (memory : ZonedMemory) (address : UInt32) (length : Nat) : Prop :=
  AccessKind.read.verdict memory.pageMap.table.accessAt address length = .ok () ∧ length ≠ 0 ∧
    ∃ region, (memory.zone region).contains address = true ∧
      (memory.zone region).data.size < (memory.zone region).offset address

theorem Represents.readsBehind_iff {memory : ZonedMemory} {stored : Stored}
    (hstored : memory.Represents stored) (address : UInt32) (length : Nat) :
    memory.ReadsBehind stored address length ↔ memory.StartsBehind address length := by
  have hbehind : memory.BehindStored stored address ↔
      ∃ region, (memory.zone region).contains address = true ∧
        (memory.zone region).data.size < (memory.zone region).offset address := by
    constructor
    · rintro ⟨region, hbehind⟩
      exact ⟨region, hbehind.1, ((hstored.holds region).behind_iff hbehind.1).mp hbehind⟩
    · rintro ⟨region, hcontains, hsize⟩
      exact ⟨region, ((hstored.holds region).behind_iff hcontains).mpr hsize⟩
  rw [ReadsBehind, StartsBehind, checkRange_fst, hbehind, flatten]

section Steps

variable {memory : ZonedMemory} (hinStep : memory.InStep)
include hinStep

/-- A read that answers gives what the flat memory gives. -/
theorem InStep.readInto_eq {address : UInt32} {buffer : ByteArray}
    (hanswers : (memory.readInto address buffer).result ≠ .error .aborted) :
    ((memory.readInto address buffer).result, (memory.readInto address buffer).buffer) =
      memory.flatten.readInto address buffer := by
  obtain ⟨stored, hstored⟩ := hinStep.represents
  have hverdict := memory.checkRange_fst .read address buffer.size
  rw [FlatMemory.readInto, ← hverdict]
  cases hcheck : (memory.pageMap.checkRange .read address buffer.size).1 with
  | error fault =>
      rw [ZonedMemory.readInto]
      rcases hpair : memory.pageMap.checkRange .read address buffer.size with ⟨verdict, map⟩
      rw [hpair] at hcheck
      obtain rfl : verdict = .error fault := hcheck
      rfl
  | ok allowed =>
      have hbehind := mt (hstored.readInto_aborted_iff address buffer).mpr hanswers
      obtain ⟨hresult, hbuffer⟩ := hstored.readsAsStored.ok address buffer hcheck hbehind
      rw [hresult, hbuffer, ← hstored.image_eq, flatten]

/-- A read changes nothing but what is remembered. -/
theorem InStep.memory_readInto (address : UInt32) (buffer : ByteArray) :
    (memory.readInto address buffer).memory.flatten = memory.flatten ∧
      (memory.readInto address buffer).memory.InStep := by
  rw [ZonedMemory.memory_readInto]
  exact ⟨memory.flatten_checkRange .read address buffer.size,
    hinStep.checkRange .read address buffer.size⟩

theorem InStep.read_eq {address : UInt32} {length : UInt64}
    (hanswers : (Memory.read memory address length).1 ≠ .error .aborted) :
    (Memory.read memory address length).1 = memory.flatten.read address length := by
  have hverdict := memory.checkRange_fst .read address length.toNat
  have hchecked := hinStep.checkRange .read address length.toNat
  have hflatten := memory.flatten_checkRange .read address length.toNat
  rw [FlatMemory.read, ← hverdict]
  rw [Memory.read, check_eq] at hanswers ⊢
  cases hallowed : (memory.pageMap.checkRange .read address length.toNat).1 with
  | error fault => rfl
  | ok allowed =>
      rw [hallowed] at hanswers
      have htransfer := hchecked.readInto_eq
        (mt (Transfer.bytes_eq_error_iff _ _).mpr hanswers)
      rw [hflatten, FlatMemory.readInto, Bytes.size_zeros, ← hverdict, hallowed,
        Prod.mk.injEq] at htransfer
      dsimp only [Memory.readInto]
      rw [htransfer.1, htransfer.2]
      rfl

theorem InStep.memory_read (address : UInt32) (length : UInt64) :
    (Memory.read memory address length).2.flatten = memory.flatten ∧
      (Memory.read memory address length).2.InStep := by
  have hchecked := hinStep.checkRange .read address length.toNat
  have hflatten := memory.flatten_checkRange .read address length.toNat
  rw [Memory.read, check_eq]
  cases (memory.pageMap.checkRange .read address length.toNat).1 with
  | error fault => exact ⟨hflatten, hchecked⟩
  | ok allowed =>
      obtain ⟨hread, hafter⟩ := hchecked.memory_readInto address (Bytes.zeros length.toNat)
      exact ⟨hread.trans hflatten, hafter⟩

/-! ## Writes -/

/-- A write answers like the flat memory and changes what the flat memory
changes. -/
theorem InStep.write_eq (address : UInt32) (bytes : ByteArray) :
    (memory.write address bytes).1 = (memory.flatten.write address bytes).1 ∧
      (memory.write address bytes).2.flatten = (memory.flatten.write address bytes).2 ∧
      (memory.write address bytes).2.InStep := by
  obtain ⟨stored, hstored⟩ := hinStep.represents
  have hshape := memory.sameShape_write address bytes
  have haccess : memory.flatten.access = memory.pageMap.table.accessAt := rfl
  rw [FlatHeap.write, FlatMemory.write, haccess]
  rcases hstored.write_eq address bytes with
    ⟨fault, hverdict, hwrite⟩ | ⟨hverdict, after, hwrite, hafter⟩
  · rw [hverdict, hwrite]
    exact ⟨rfl, memory.flatten_checkRange .write address bytes.size,
      hinStep.checkRange .write address bytes.size⟩
  · rw [hwrite] at hshape
    rw [hverdict, hwrite]
    refine ⟨rfl, ?_, hshape.inStep hinStep hafter⟩
    dsimp only
    rw [hshape.flatten_eq, hafter.image_eq, Stored.image_store, ← hstored.image_eq]
    rfl

end Steps

/-! ## Growing the heap -/

theorem Layout.accessAt_of_contains {memory : ZonedMemory} (hlayout : memory.Layout)
    {region : Region} {address : UInt32}
    (hcontains : (memory.zone region).contains address = true) :
    memory.pageMap.table.accessAt address = some region.access := by
  rw [hlayout.access, hlayout.regionAt?_eq_some_iff.mpr hcontains, Option.map_some]

/-- The memory whose heap is in use up to `newEnd`, and mapped to the end of the
page. -/
def moveHeapEnd (memory : ZonedMemory) (newEnd : Nat) : ZonedMemory :=
  { (if (memory.zone .heap).stop.toNat < roundUpToPage newEnd then
      memory.extendHeap (roundUpToPage newEnd)
    else memory) with
    heapEnd := UInt32.ofNat newEnd }

theorem toNat_heapEnd_moveHeapEnd {memory : ZonedMemory} {newEnd : Nat}
    (hbelow : roundUpToPage newEnd ≤ (memory.zone .stack).start.toNat) :
    (memory.moveHeapEnd newEnd).heapEnd.toNat = newEnd := by
  apply UInt32.toNat_ofNat_of_lt'
  calc newEnd ≤ roundUpToPage newEnd := le_roundUpToPage newEnd
    _ ≤ (memory.zone .stack).start.toNat := hbelow
    _ < UInt32.size := (memory.zone .stack).start.toNat_lt

section Growing

variable {memory : ZonedMemory} (hinStep : memory.InStep)
include hinStep

/-- Growing fails when the pages in use would reach the stack, and moves the end
of the heap otherwise, even if by nothing. -/
theorem InStep.grow_eq (increment : UInt32) :
    memory.grow increment =
      if (memory.zone .stack).start.toNat <
          roundUpToPage (memory.heapEnd.toNat + increment.toNat) then
        (.error (.outOfMemory memory.heapEnd), memory)
      else
        (.ok memory.heapEnd, memory.moveHeapEnd (memory.heapEnd.toNat + increment.toNat)) := by
  obtain ⟨stored, hstored⟩ := hinStep.represents
  rw [moveHeapEnd]
  by_cases hzero : increment = 0
  · subst hzero
    have hsame : memory.heapEnd.toNat + (0 : UInt32).toNat = memory.heapEnd.toNat := rfl
    rw [ZonedMemory.grow, if_pos rfl, hsame, ← hinStep.heapStop,
      if_neg (Nat.not_lt.mpr hstored.layout.heap_stack), if_neg (Nat.lt_irrefl _),
      UInt32.ofNat_toNat]
  · rw [ZonedMemory.grow]
    dsimp only
    rw [if_neg hzero]
    refine ite_congr rfl (fun _ => rfl) fun _ => ?_
    change (if (memory.zone .heap).stop.toNat < _ then _ else _) = _
    split <;> rfl

variable {newEnd : Nat} (hnewEnd : memory.heapEnd.toNat ≤ newEnd)
  (hbelow : roundUpToPage newEnd ≤ (memory.zone .stack).start.toNat)
include hnewEnd hbelow

/-- Moving the end of the heap up maps nothing, when it stays in its last page, or
extends the heap. -/
theorem InStep.moveHeapEnd_cases :
    ((memory.zone .heap).stop.toNat = roundUpToPage newEnd ∧
        memory.moveHeapEnd newEnd = { memory with heapEnd := UInt32.ofNat newEnd }) ∨
      (memory.Extends (roundUpToPage newEnd) ∧
        memory.moveHeapEnd newEnd =
          { memory.extendHeap (roundUpToPage newEnd) with heapEnd := UInt32.ofNat newEnd }) := by
  have hmono : roundUpToPage memory.heapEnd.toNat ≤ roundUpToPage newEnd :=
    roundUpToPage_le (Nat.le_trans hnewEnd (le_roundUpToPage newEnd)) (roundUpToPage_mod newEnd)
  rw [← hinStep.heapStop] at hmono
  rw [moveHeapEnd]
  rcases Nat.lt_or_eq_of_le hmono with habove | hsame
  · rw [if_pos habove]
    exact Or.inr ⟨⟨habove, hbelow, roundUpToPage_mod newEnd⟩, rfl⟩
  · rw [if_neg (Nat.not_lt.mpr (Nat.le_of_eq hsame.symm))]
    exact Or.inl ⟨hsame, rfl⟩

theorem InStep.zone_moveHeapEnd (region : Region) :
    ((memory.moveHeapEnd newEnd).zone region).start = (memory.zone region).start ∧
      ((memory.moveHeapEnd newEnd).zone region).stop.toNat =
        if region = .heap then roundUpToPage newEnd else (memory.zone region).stop.toNat := by
  rcases hinStep.moveHeapEnd_cases hnewEnd hbelow with ⟨hstop, hmove⟩ | ⟨hextends, hmove⟩
  · rw [hmove, zone_setHeapEnd]
    refine ⟨rfl, ?_⟩
    split
    · next hheap => rw [hheap, hstop]
    · rfl
  · rw [hmove, zone_setHeapEnd]
    cases region with
    | heap => exact ⟨rfl, hextends.toNat_ofNat⟩
    | readOnly => exact ⟨rfl, rfl⟩
    | stack => exact ⟨rfl, rfl⟩
    | argument => exact ⟨rfl, rfl⟩

theorem InStep.represents_moveHeapEnd {stored : Stored} (hstored : memory.Represents stored) :
    (memory.moveHeapEnd newEnd).Represents stored := by
  rcases hinStep.moveHeapEnd_cases hnewEnd hbelow with ⟨-, hmove⟩ | ⟨hextends, hmove⟩
  · rw [hmove]
    exact hstored.setHeapEnd _
  · rw [hmove]
    exact (hstored.extendHeap hextends).setHeapEnd _

theorem InStep.moveHeapEnd : (memory.moveHeapEnd newEnd).InStep := by
  obtain ⟨stored, hstored⟩ := hinStep.represents
  have hzone := hinStep.zone_moveHeapEnd hnewEnd hbelow
  have hend := toNat_heapEnd_moveHeapEnd hbelow
  refine ⟨⟨stored, hinStep.represents_moveHeapEnd hnewEnd hbelow hstored⟩, fun region => ?_,
    fun region => ?_, ?_, ?_⟩
  · rw [(hzone region).1]
    exact hinStep.start_aligned region
  · rw [(hzone region).2]
    split
    · exact roundUpToPage_mod newEnd
    · exact hinStep.stop_aligned region
  · rw [(hzone .heap).1, hend]
    exact Nat.le_trans hinStep.heapStart_le hnewEnd
  · rw [(hzone .heap).2, if_pos rfl, hend]

/-- The new space is in the heap, and the access of other addresses stays. -/
theorem InStep.accessAt_moveHeapEnd (address : UInt32) :
    (memory.moveHeapEnd newEnd).pageMap.table.accessAt address =
      if FlatMemory.inPages (memory.heapEnd.toNat / pageSize)
          (pagesFor newEnd - memory.heapEnd.toNat / pageSize) address then
        some .readWrite
      else memory.pageMap.table.accessAt address := by
  obtain ⟨stored, hstored⟩ := hinStep.represents
  have hmoved := hinStep.represents_moveHeapEnd hnewEnd hbelow hstored
  have hzone := hinStep.zone_moveHeapEnd hnewEnd hbelow
  have hpages : FlatMemory.inPages (memory.heapEnd.toNat / pageSize)
      (pagesFor newEnd - memory.heapEnd.toNat / pageSize) address = true ↔
        memory.heapEnd.toNat / pageSize * pageSize ≤ address.toNat ∧
          address.toNat < roundUpToPage newEnd := by
    rw [FlatMemory.inPages, Bool.and_eq_true, decide_eq_true_eq, decide_eq_true_eq]
    unfold roundUpToPage roundUp pagesFor pageSize
    omega
  have hstart : (memory.zone .heap).start.toNat ≤
      memory.heapEnd.toNat / pageSize * pageSize := by
    have haligned := hinStep.start_aligned .heap
    have hle := hinStep.heapStart_le
    unfold pageSize at *
    omega
  by_cases hinside : FlatMemory.inPages (memory.heapEnd.toNat / pageSize)
      (pagesFor newEnd - memory.heapEnd.toNat / pageSize) address = true
  · obtain ⟨hfrom, hupTo⟩ := hpages.mp hinside
    have hcontains : ((memory.moveHeapEnd newEnd).zone .heap).contains address = true := by
      rw [Zone.contains_iff, (hzone .heap).1, (hzone .heap).2, if_pos rfl]
      exact ⟨Nat.le_trans hstart hfrom, hupTo⟩
    rw [if_pos hinside, hmoved.layout.accessAt_of_contains hcontains]
    rfl
  · rw [if_neg hinside, hmoved.layout.access, hstored.layout.access]
    refine congrArg (Option.map Region.access) (regionAt?_congr fun region => ?_)
    rw [Bool.eq_iff_iff, Zone.contains_iff, Zone.contains_iff, (hzone region).1,
      (hzone region).2]
    rw [hpages] at hinside
    have hstop := hinStep.heapStop
    split
    · next hheap =>
        subst hheap
        unfold roundUpToPage roundUp pageSize at *
        omega
    · rfl

theorem InStep.flatten_moveHeapEnd :
    (memory.moveHeapEnd newEnd).flatten =
      { memory.flatten with
        toFlatMemory := memory.flatten.assign (memory.heapEnd.toNat / pageSize)
          (pagesFor newEnd - memory.heapEnd.toNat / pageSize) (some .readWrite)
        heapEnd := newEnd } := by
  obtain ⟨stored, hstored⟩ := hinStep.represents
  have hmoved := hinStep.represents_moveHeapEnd hnewEnd hbelow hstored
  have haccess := funext (hinStep.accessAt_moveHeapEnd hnewEnd hbelow)
  rw [flatten, hmoved.image_eq, haccess, toNat_heapEnd_moveHeapEnd hbelow,
    (hinStep.zone_moveHeapEnd hnewEnd hbelow .stack).1, ← hstored.image_eq]
  rfl

end Growing

/-- Growing answers like the flat memory and changes what the flat memory
changes. -/
theorem InStep.grow {memory : ZonedMemory} (hinStep : memory.InStep) (increment : UInt32) :
    (memory.grow increment).1 = (memory.flatten.grow increment).1 ∧
      (memory.grow increment).2.flatten = (memory.flatten.grow increment).2 ∧
      (memory.grow increment).2.InStep := by
  have hend : memory.flatten.heapEnd = memory.heapEnd.toNat := rfl
  have hlimit : memory.flatten.limit = (memory.zone .stack).start.toNat := rfl
  rw [hinStep.grow_eq, FlatHeap.grow, hend, hlimit, UInt32.ofNat_toNat]
  dsimp only
  split
  · exact ⟨rfl, rfl, hinStep⟩
  · next hstack =>
      have hnewEnd := Nat.le_add_right memory.heapEnd.toNat increment.toNat
      have hbelow := Nat.not_lt.mp hstack
      exact ⟨rfl, hinStep.flatten_moveHeapEnd hnewEnd hbelow,
        hinStep.moveHeapEnd hnewEnd hbelow⟩

/-! ## Whole pages lie in one zone -/

/-- A page that has access lies in exactly one zone, as a whole. -/
theorem InStep.existsUnique_region {memory : ZonedMemory} (hinStep : memory.InStep)
    {address : UInt32} (haccess : memory.pageMap.table.accessAt address ≠ none) :
    ∃! region, ∀ target, pageOf target = pageOf address →
      (memory.zone region).contains target = true := by
  obtain ⟨stored, hstored⟩ := hinStep.represents
  rw [hstored.layout.access] at haccess
  obtain ⟨region, hregion⟩ := Option.ne_none_iff_exists'.mp (mt Option.map_eq_none_iff.mpr haccess)
  have hcontains := hstored.layout.regionAt?_eq_some_iff.mp hregion
  refine ⟨region, fun target htarget => ?_, fun other hother => ?_⟩
  · have hstart := hinStep.start_aligned region
    have hstop := hinStep.stop_aligned region
    rw [Zone.contains_iff] at hcontains ⊢
    unfold pageOf pageSize at *
    omega
  · exact hstored.layout.eq_of_contains (hother address rfl) hcontains

/-- The walk of a read through the zones never leaves them. -/
theorem InStep.readFrom_cases {memory : ZonedMemory} (hinStep : memory.InStep)
    {address : UInt32} {length : Nat}
    (hcheck : (memory.pageMap.checkRange .read address length).1 = .ok ()) (filled : ByteArray) :
    (memory.readFrom address length filled).1 = .ok () ∨
      (memory.readFrom address length filled).1 = .error .aborted := by
  obtain ⟨stored, hstored⟩ := hinStep.represents
  have hmapped := hstored.layout.mapped_of_checkRange hcheck
  by_cases hbehind : length = 0 ∨ ¬ memory.BehindStored stored address
  · rw [hstored.readFrom_eq filled hmapped hbehind]
    exact Or.inl rfl
  · obtain ⟨hlength, hbehind⟩ := not_or.mp hbehind
    rw [hstored.readFrom_of_behind filled hlength (not_not.mp hbehind)]
    exact Or.inr rfl

/-- Nor does the walk of a write. -/
theorem InStep.writeFrom_ok {memory : ZonedMemory} (hinStep : memory.InStep)
    {address : UInt32} {bytes : ByteArray}
    (hcheck : (memory.pageMap.checkRange .write address bytes.size).1 = .ok ()) :
    (memory.writeFrom address bytes 0).1 = .ok () := by
  obtain ⟨stored, hstored⟩ := hinStep.represents
  have hmapped : memory.Mapped address (bytes.size - 0) :=
    hstored.layout.mapped_of_checkRange hcheck
  obtain ⟨after, hwrite, -⟩ := hstored.writeFrom hmapped
  rw [hwrite]

end ZonedMemory

/-! ## Operations one after the other -/

/-- What stops the host: a read that starts behind all that its zone keeps. -/
def Memory.Operation.StopsHost (memory : ZonedMemory) : Memory.Operation → Prop
  | .readInto address buffer => memory.StartsBehind address buffer.size
  | .read address length => memory.StartsBehind address length.toNat
  | .write _ _ | .grow _ => False

namespace ZonedMemory

open Memory.Operation

section Runs

variable {memory : ZonedMemory} (hinStep : memory.InStep)
include hinStep

theorem InStep.aborted_iff (operation : Memory.Operation) :
    (operation.perform memory).1.aborted = true ↔ operation.StopsHost memory := by
  obtain ⟨stored, hstored⟩ := hinStep.represents
  cases operation with
  | write address bytes => exact iff_of_false Bool.false_ne_true id
  | readInto address buffer =>
      rw [StopsHost, ← hstored.readsBehind_iff, ← hstored.readInto_aborted_iff, perform]
      change MemoryAnswer.aborted (.filled (memory.readInto address buffer).result _) = true ↔ _
      rcases (memory.readInto address buffer).result with (_ | _) | _ <;>
        simp [MemoryAnswer.aborted]
  | read address length =>
      rw [StopsHost, ← hstored.readsBehind_iff, ← hstored.read_aborted_iff, perform]
      change MemoryAnswer.aborted (.bytes (Memory.read memory address length).1) = true ↔ _
      rcases (Memory.read memory address length).1 with (_ | _) | _ <;>
        simp [MemoryAnswer.aborted]
  | grow increment => exact iff_of_false Bool.false_ne_true id

/-- One operation answers, if it answers, like the flat memory that the memory
stands for. -/
theorem InStep.perform_eq {operation : Memory.Operation}
    (hanswers : (operation.perform memory).1.aborted = false) :
    (operation.perform memory).1 = (operation.onFlat memory.flatten).1 := by
  cases operation with
  | write address bytes =>
      exact congrArg MemoryAnswer.written (hinStep.write_eq address bytes).1
  | readInto address buffer =>
      have hresult : (memory.readInto address buffer).result ≠ .error .aborted := by
        intro haborted
        change MemoryAnswer.aborted (.filled (memory.readInto address buffer).result _) = _
          at hanswers
        rw [haborted] at hanswers
        cases hanswers
      exact congrArg (fun read => MemoryAnswer.filled read.1 read.2) (hinStep.readInto_eq hresult)
  | read address length =>
      have hresult : (Memory.read memory address length).1 ≠ .error .aborted := by
        intro haborted
        change MemoryAnswer.aborted (.bytes (Memory.read memory address length).1) = _ at hanswers
        rw [haborted] at hanswers
        cases hanswers
      exact congrArg MemoryAnswer.bytes (hinStep.read_eq hresult)
  | grow increment => exact congrArg MemoryAnswer.grown (hinStep.grow increment).1

/-- One operation changes what it changes on the flat memory, and keeps the
memory in step. -/
theorem InStep.perform (operation : Memory.Operation) :
    (operation.perform memory).2.flatten = (operation.onFlat memory.flatten).2 ∧
      (operation.perform memory).2.InStep := by
  cases operation with
  | write address bytes => exact (hinStep.write_eq address bytes).2
  | readInto address buffer => exact hinStep.memory_readInto address buffer
  | read address length => exact hinStep.memory_read address length
  | grow increment => exact (hinStep.grow increment).2

/-- So do operations one after the other. -/
theorem InStep.performAll (operations : List Memory.Operation) :
    (performAll memory operations).flatten = allOnFlat memory.flatten operations ∧
      (performAll memory operations).InStep := by
  induction operations generalizing memory with
  | nil => exact ⟨rfl, hinStep⟩
  | cons operation rest ih =>
      obtain ⟨hflatten, hafter⟩ := hinStep.perform operation
      obtain ⟨hrest, hlast⟩ := ih hafter
      rw [hflatten] at hrest
      exact ⟨hrest, hlast⟩

end Runs

/-! ## The start -/

section Start

variable {standard : StandardProgram} {argument : ByteArray} {map : PageMap}

theorem Fits.inStep (hfits : Fits standard argument)
    (hmap : ∀ address, map.table.accessAt address = none) :
    (layOut standard argument map).InStep := by
  have hstop : ∀ region,
      ((layOut standard argument map).zone region).stop.toNat % pageSize = 0 := by
    intro region
    rw [hfits.stop_zone, Nat.add_mod, startOf_mod, roomOf_mod]
    rfl
  refine ⟨⟨_, hfits.represents hmap⟩, fun region => ?_, hstop,
    (hfits.layout hmap).bounds .heap, ?_⟩
  · rw [hfits.start_zone]
    exact startOf_mod standard region
  · exact Nat.le_antisymm (le_roundUpToPage _)
      (roundUpToPage_le (Nat.le_refl _) (hstop .heap))

/-- Loading a program gives the memory that stands for the flat one. -/
theorem Fits.flatten_layOut (hfits : Fits standard argument)
    (hmap : ∀ address, map.table.accessAt address = none) :
    (layOut standard argument map).flatten = FlatHeap.initial standard argument := by
  have himage := (hfits.represents hmap).image_eq
  have haccess : (layOut standard argument map).pageMap.table.accessAt =
      (FlatHeap.initial standard argument).access := by
    funext address
    rw [(hfits.layout hmap).access, regionAt?]
    refine congrArg (Option.map Region.access) (congrArg (List.find? · _) ?_)
    funext region
    rw [Bool.eq_iff_iff, hfits.contains_iff, decide_eq_true_eq]
  have hend : (layOut standard argument map).heapEnd.toNat =
      (FlatHeap.initial standard argument).heapEnd := hfits.stop_zone map .heap
  rw [flatten, himage, haccess, hend, hfits.start_zone]
  rfl

end Start

/-! ## Refinement -/

variable {memory : ZonedMemory}

/-- A read fills the buffer or leaves it as it was. -/
theorem InStep.readInto_whole (hinStep : memory.InStep) (address : UInt32) (buffer : ByteArray) :
    ((memory.readInto address buffer).result = .ok () ∧
        (memory.readInto address buffer).buffer =
          memory.flatten.image.contents address buffer.size) ∨
      ((memory.readInto address buffer).result ≠ .ok () ∧
        (memory.readInto address buffer).buffer = buffer) := by
  obtain ⟨stored, hstored⟩ := hinStep.represents
  by_cases haborted : (memory.readInto address buffer).result = .error .aborted
  · have hbehind := (hstored.readInto_aborted_iff address buffer).mp haborted
    refine Or.inr ⟨?_, (hstored.readsAsStored.aborted address buffer hbehind).2⟩
    simp [haborted]
  · have hread := hinStep.readInto_eq haborted
    rw [FlatMemory.readInto] at hread
    split at hread
    · obtain ⟨hresult, hbuffer⟩ := Prod.mk.inj hread
      refine Or.inr ⟨?_, hbuffer⟩
      simp [hresult]
    · exact Or.inl (Prod.mk.inj hread)

/-- A write stores all bytes or none. -/
theorem InStep.write_whole (hinStep : memory.InStep) (address : UInt32) (bytes : ByteArray) :
    ((memory.write address bytes).1 = .ok () ∧
        (memory.write address bytes).2.flatten =
          { memory.flatten with image := memory.flatten.image.store address bytes }) ∨
      ((memory.write address bytes).1 ≠ .ok () ∧
        (memory.write address bytes).2.flatten = memory.flatten) := by
  obtain ⟨hresult, hafter, -⟩ := hinStep.write_eq address bytes
  rw [hresult, hafter, FlatHeap.write, FlatMemory.write]
  cases AccessKind.write.verdict memory.flatten.access address bytes.size with
  | error fault => exact Or.inr ⟨by simp, rfl⟩
  | ok allowed => exact Or.inl ⟨rfl, rfl⟩

/-- A zoned memory does what a flat memory with a heap does, as long as it
answers.  It stops the host on just those reads that start behind all that their
zone keeps.  Pages with access lie in one zone, so that the walk through the zones
never fails half way, and a write or a read takes effect as a whole or not at
all. -/
structure Refines (memory : ZonedMemory) (heap : FlatHeap) : Prop where
  flat : memory.flatten = heap
  answer : ∀ operation : Memory.Operation, (operation.perform memory).1.aborted = false →
    (operation.perform memory).1 = (operation.onFlat heap).1
  stops : ∀ operation : Memory.Operation,
    (operation.perform memory).1.aborted = true ↔ operation.StopsHost memory
  oneZone : ∀ address, memory.pageMap.table.accessAt address ≠ none →
    ∃! region, ∀ target, pageOf target = pageOf address →
      (memory.zone region).contains target = true
  readWalk : ∀ address length filled,
    (memory.pageMap.checkRange .read address length).1 = .ok () →
      (memory.readFrom address length filled).1 = .ok () ∨
        (memory.readFrom address length filled).1 = .error .aborted
  writeWalk : ∀ address bytes,
    (memory.pageMap.checkRange .write address bytes.size).1 = .ok () →
      (memory.writeFrom address bytes 0).1 = .ok ()
  readWhole : ∀ address buffer,
    (memory.readInto address buffer).memory.flatten = heap ∧
      (((memory.readInto address buffer).result = .ok () ∧
          (memory.readInto address buffer).buffer = heap.image.contents address buffer.size) ∨
        ((memory.readInto address buffer).result ≠ .ok () ∧
          (memory.readInto address buffer).buffer = buffer))
  writeWhole : ∀ address bytes,
    ((memory.write address bytes).1 = .ok () ∧
        (memory.write address bytes).2.flatten =
          { heap with image := heap.image.store address bytes }) ∨
      ((memory.write address bytes).1 ≠ .ok () ∧
        (memory.write address bytes).2.flatten = heap)

theorem InStep.refines (hinStep : memory.InStep) : memory.Refines memory.flatten where
  flat := rfl
  answer _ hanswers := hinStep.perform_eq hanswers
  stops operation := hinStep.aborted_iff operation
  oneZone _ haccess := hinStep.existsUnique_region haccess
  readWalk _ _ filled hcheck := hinStep.readFrom_cases hcheck filled
  writeWalk _ _ hcheck := hinStep.writeFrom_ok hcheck
  readWhole address buffer :=
    ⟨(hinStep.memory_readInto address buffer).1, hinStep.readInto_whole address buffer⟩
  writeWhole address bytes := hinStep.write_whole address bytes

/-- The memory of a standard program refines a flat one.  Whatever parses and is
loaded with an argument within the limit, over a page map of whatever cache, gets
a memory, and whatever operations are carried out on it, it stands for the flat
memory after the same operations: what it answers is what the flat memory
answers. -/
theorem parsed_memory_refines_flat {blob argument : ByteArray} {standard : StandardProgram}
    (hparse : StandardProgram.parse blob = .ok standard)
    (hargument : argument.size ≤ argumentLimit) (capacity : Nat) :
    ∃ memory, initial? standard argument (.empty capacity) = some (.ok memory) ∧
      ∀ operations : List Memory.Operation,
        (performAll memory operations).Refines
          (allOnFlat (FlatHeap.initial standard argument) operations) := by
  have hfits : Fits standard argument :=
    fits_of_footprint_le (StandardProgram.footprint_le_of_parse hparse) hargument
  have hmap : ∀ address, (PageMap.empty capacity).table.accessAt address = none :=
    fun address => PageTable.get_empty (pageOf address)
  refine ⟨_, hfits.initial?_eq (.empty capacity), fun operations => ?_⟩
  obtain ⟨hflatten, hafter⟩ := (hfits.inStep hmap).performAll operations
  rw [← hfits.flatten_layOut hmap, ← hflatten]
  exact hafter.refines

/-- A program with data in two zones, one more page of heap and a stack. -/
def dataBlob : ByteArray :=
  [2, 0, 0, 1, 0, 0, 1, 0, 0, 16, 0, 7, 9, 5, 5, 0, 0, 0, 0, 0, 1, 0, 1].toByteArray

def dataProgram : StandardProgram where
  readOnly := [7, 9].toByteArray
  readWrite := [5].toByteArray
  heapPages := 1
  stackSize := 0x1000
  program := .ofImage ⟨ByteArray.empty, 0, 0, [0].toByteArray, [1].toByteArray⟩

theorem dataBlob_memory_refines_flat :
    StandardProgram.parse dataBlob = .ok dataProgram ∧
      [1, 2, 3].toByteArray.size ≤ argumentLimit ∧
      ∃ memory,
        initial? dataProgram [1, 2, 3].toByteArray (.empty PageMap.defaultCapacity) =
          some (.ok memory) ∧
        (performAll memory [.grow 0x1800, .write 0x31FFF [4, 6].toByteArray]).Refines
          (allOnFlat (FlatHeap.initial dataProgram [1, 2, 3].toByteArray)
            [.grow 0x1800, .write 0x31FFF [4, 6].toByteArray]) := by
  have hparse : StandardProgram.parse dataBlob = .ok dataProgram := by cbv
  have hargument : [1, 2, 3].toByteArray.size ≤ argumentLimit := by decide
  obtain ⟨memory, hinitial, hrefines⟩ :=
    parsed_memory_refines_flat hparse hargument PageMap.defaultCapacity
  exact ⟨hparse, hargument, memory, hinitial, hrefines _⟩

end ZonedMemory

end GasMachine
