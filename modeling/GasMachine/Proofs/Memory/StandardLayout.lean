import GasMachine.Proofs.Memory.ZonedRefinement

/-!
# The memory that a standard program finds

The sizes of a standard program's regions are chosen independently, and their
places follow from rounding them to pages and zones.  Whatever sizes a blob names,
if it can be read at all then its regions have room beside each other and beside
the largest argument.  The program finds its data at the starts of its regions, and
its registers tell it where the argument lies.  A program that was put together in
another way is refused its memory when its regions have no room, unless already its
stack has none.
-/

namespace GasMachine

open AddressSpace

namespace Registers

theorem get_standard_dataPointer (argumentSize : UInt32) :
    (standard argumentSize).get Reg.dataPointer = argumentStart.toUInt64 := by
  rw [standard, get_set_of_ne _ _ (by decide), get_set_self]

theorem get_standard_dataSize (argumentSize : UInt32) :
    (standard argumentSize).get Reg.dataSize = argumentSize.toUInt64 := by
  rw [standard, get_set_self]

end Registers

/-- The addresses of a range from the start of a zone on that does not leave it. -/
theorem Zone.contains_start_add {zone : Zone} {offset length : Nat}
    (hlength : zone.start.toNat + length ≤ zone.stop.toNat) (hoffset : offset < length) :
    (zone.start + UInt32.ofNat offset).toNat = zone.start.toNat + offset ∧
      zone.contains (zone.start + UInt32.ofNat offset) = true := by
  have hstop := zone.stop.toNat_lt
  have htarget : (zone.start + UInt32.ofNat offset).toNat = zone.start.toNat + offset := by
    rw [toNat_add_ofNat, Nat.mod_eq_of_lt (by unfold size; omega)]
  refine ⟨htarget, Zone.contains_iff.mpr ?_⟩
  rw [htarget]
  omega

namespace ZonedMemory

/-! ## Ranges and single addresses -/

theorem allows_iff (memory : ZonedMemory) (kind : AccessKind) (address : UInt32)
    (length : UInt64) :
    (Memory.allows memory kind address length).1 = true ↔
      kind.verdict memory.flatten.access address length.toNat = .ok () := by
  rw [← checkRange_fst, Memory.allows, check_eq]
  cases (memory.pageMap.checkRange kind address length.toNat).1 <;> simp

theorem allows_one_iff (memory : ZonedMemory) (kind : AccessKind) (address : UInt32) :
    (Memory.allows memory kind address 1).1 = true ↔
      kind.allowedBy (memory.pageMap.table.accessAt address) = true := by
  rw [allows_iff, AccessKind.verdict_eq_ok_iff]
  simp [flatten, size]

section Access

variable {memory : ZonedMemory} (hlayout : memory.Layout) (address : UInt32)
include hlayout

theorem Layout.readable_iff :
    (Memory.allows memory .read address 1).1 = true ↔
      ∃ region, (memory.zone region).contains address = true := by
  rw [allows_one_iff, hlayout.access]
  constructor
  · intro hallowed
    cases hregion : memory.regionAt? address with
    | none =>
        rw [hregion] at hallowed
        cases hallowed
    | some region => exact ⟨region, hlayout.regionAt?_eq_some_iff.mp hregion⟩
  · rintro ⟨region, hcontains⟩
    rw [hlayout.regionAt?_eq_some_iff.mpr hcontains]
    rfl

theorem Layout.writable_iff :
    (Memory.allows memory .write address 1).1 = true ↔
      memory.heap.contains address = true ∨ memory.stack.contains address = true := by
  rw [allows_one_iff, AccessKind.allowedBy_write_iff]
  constructor
  · intro haccess
    rw [hlayout.access, Option.map_eq_some_iff] at haccess
    obtain ⟨region, hregion, haccess⟩ := haccess
    have hcontains := hlayout.regionAt?_eq_some_iff.mp hregion
    cases region with
    | readOnly => cases haccess
    | heap => exact Or.inl hcontains
    | stack => exact Or.inr hcontains
    | argument => cases haccess
  · rintro (hheap | hstack)
    · exact @Layout.accessAt_of_contains memory hlayout .heap address hheap
    · exact @Layout.accessAt_of_contains memory hlayout .stack address hstack

end Access

/-! ## The data of the regions -/

/-- A read from the start of a zone on never starts behind what the zone keeps, so it
gives the bytes there. -/
theorem InStep.read_start {memory : ZonedMemory} (hinStep : memory.InStep) (region : Region)
    {length : UInt64}
    (hlength : (memory.zone region).start.toNat + length.toNat ≤
      (memory.zone region).stop.toNat) :
    (Memory.read memory (memory.zone region).start length).1 =
      .ok (memory.flatten.image.contents (memory.zone region).start length.toNat) := by
  obtain ⟨stored, hstored⟩ := hinStep.represents
  have hreadable : AccessKind.read.verdict memory.flatten.access (memory.zone region).start
      length.toNat = .ok () := by
    have hstop := (memory.zone region).stop.toNat_lt
    refine AccessKind.verdict_eq_ok_iff.mpr ⟨by unfold size; omega, fun offset hoffset => ?_⟩
    obtain ⟨-, hcontains⟩ := Zone.contains_start_add hlength hoffset
    have haccess : memory.flatten.access _ = _ := hstored.layout.accessAt_of_contains hcontains
    rw [haccess]
    rfl
  have hanswers :
      (Memory.read memory (memory.zone region).start length).1 ≠ .error .aborted := by
    rw [Ne, hstored.read_aborted_iff]
    rintro ⟨-, hpositive, other, hother, hstart, -⟩
    obtain ⟨-, hcontains⟩ := Zone.contains_start_add hlength (Nat.pos_of_ne_zero hpositive)
    rw [show UInt32.ofNat 0 = 0 from rfl, UInt32.add_zero] at hcontains
    obtain rfl := hstored.layout.eq_of_contains hcontains hother
    exact hstart rfl
  rw [hinStep.read_eq hanswers, FlatMemory.read, hreadable]

section Start

variable {standard : StandardProgram} {argument : ByteArray} {map : PageMap}

/-- Reading at the start of a region gives its data. -/
theorem Fits.read_dataOf (hfits : Fits standard argument)
    (hmap : ∀ address, map.table.accessAt address = none) (region : Region) :
    (Memory.read (layOut standard argument map)
      ((layOut standard argument map).zone region).start
      (UInt64.ofNat (dataOf standard argument region).size)).1 =
        .ok (dataOf standard argument region) := by
  have hroom := size_dataOf_le standard argument region
  have hend := hfits.end_lt region
  have hword : (dataOf standard argument region).size < UInt64.size :=
    Nat.lt_trans (Nat.lt_of_le_of_lt (Nat.le_add_left_of_le hroom) hend) (by decide)
  have hlength := UInt64.toNat_ofNat_of_lt' hword
  have hfront : ((layOut standard argument map).zone region).start.toNat +
      (dataOf standard argument region).size ≤
        ((layOut standard argument map).zone region).stop.toNat := by
    rw [hfits.start_zone, hfits.stop_zone]
    exact Nat.add_le_add_left hroom _
  rw [(hfits.inStep hmap).read_start region (by rwa [hlength]), hlength]
  refine congrArg Except.ok (Bytes.ext_byteAt (Image.size_contents _ _ _) fun index hindex => ?_)
  rw [Image.size_contents] at hindex
  obtain ⟨htarget, hcontains⟩ := Zone.contains_start_add hfront hindex
  have himage : (layOut standard argument map).flatten.image =
      (loaded standard argument).image := (hfits.represents hmap).image_eq
  rw [Image.byteAt_contents _ _ hindex, himage, Stored.image,
    hfits.loaded_of_contains hmap hcontains, htarget, hfits.start_zone, Nat.add_sub_cancel_left,
    if_pos hindex, Option.getD_some]

theorem Fits.end_le (hfits : Fits standard argument) (region : Region) :
    startOf standard region + roomOf standard argument region ≤ 0xFFFF0000 := by
  obtain ⟨hreadOnly, hheap, hstack, -⟩ := hfits.order
  have hargument : startOf standard .argument + roomOf standard argument .argument ≤
      0xFFFF0000 :=
    Nat.add_le_add_left (roundUpToPage_le hfits.argument rfl) argumentStart.toNat
  cases region <;> omega

/-- What a standard program finds when it starts: regions of whole pages that keep
apart and below the halt address, access to just these regions, its data at their
starts, and in its registers where the argument lies. -/
structure StandardLayout (memory : ZonedMemory) (standard : StandardProgram)
    (argument : ByteArray) : Prop where
  aligned : ∀ region, (memory.zone region).start.toNat % pageSize = 0 ∧
    (memory.zone region).stop.toNat % pageSize = 0
  bounds : ∀ region, (memory.zone region).start.toNat ≤ (memory.zone region).stop.toNat ∧
    (memory.zone region).stop.toNat ≤ 0xFFFF0000
  disjoint : ∀ region other address, (memory.zone region).contains address = true →
    (memory.zone other).contains address = true → region = other
  readable : ∀ address, (Memory.allows memory .read address 1).1 = true ↔
    ∃ region, (memory.zone region).contains address = true
  writable : ∀ address, (Memory.allows memory .write address 1).1 = true ↔
    memory.heap.contains address = true ∨ memory.stack.contains address = true
  readOnlyData : (Memory.read memory memory.readOnly.start
    (UInt64.ofNat standard.readOnly.size)).1 = .ok standard.readOnly
  heapData : (Memory.read memory memory.heap.start
    (UInt64.ofNat standard.readWrite.size)).1 = .ok standard.readWrite
  argumentData : (Memory.read memory memory.argument.start
    (UInt64.ofNat argument.size)).1 = .ok argument
  pointer : (Registers.standard (UInt32.ofNat argument.size)).get Reg.dataPointer <
    0x100000000
  passed : (Memory.read memory
    ((Registers.standard (UInt32.ofNat argument.size)).get Reg.dataPointer).toUInt32
    ((Registers.standard (UInt32.ofNat argument.size)).get Reg.dataSize)).1 = .ok argument

theorem Fits.standardLayout (hfits : Fits standard argument)
    (hmap : ∀ address, map.table.accessAt address = none) :
    (layOut standard argument map).StandardLayout standard argument := by
  have hlayout := hfits.layout hmap
  have hinStep := hfits.inStep hmap
  have hargument : (UInt32.ofNat argument.size).toUInt64 = UInt64.ofNat argument.size := by
    apply UInt64.toNat_inj.mp
    have hlimit := hfits.argument
    unfold argumentLimit at hlimit
    rw [UInt32.toNat_toUInt64, UInt32.toNat_ofNat', UInt64.toNat_ofNat']
    omega
  refine ⟨fun region => ⟨hinStep.start_aligned region, hinStep.stop_aligned region⟩,
    fun region => ⟨hlayout.bounds region, ?_⟩, fun _ _ _ => hlayout.eq_of_contains,
    hlayout.readable_iff, hlayout.writable_iff, hfits.read_dataOf hmap .readOnly,
    hfits.read_dataOf hmap .heap, hfits.read_dataOf hmap .argument, ?_, ?_⟩
  · rw [hfits.stop_zone]
    exact hfits.end_le region
  · rw [Registers.get_standard_dataPointer]
    decide
  · rw [Registers.get_standard_dataPointer, Registers.get_standard_dataSize, hargument]
    exact hfits.read_dataOf hmap .argument

end Start

/-- A standard program that was read from a blob is refused its memory if and only if
its argument is over the limit, and gets the standard layout otherwise. -/
theorem parsed_programs_get_standard_layout {blob : ByteArray} {standard : StandardProgram}
    (hparse : StandardProgram.parse blob = .ok standard) (argument : ByteArray)
    (capacity : Nat) :
    ((∃ error, initial? standard argument (.empty capacity) = some (.error error)) ↔
        2 ^ 24 < argument.size) ∧
      (argument.size ≤ 2 ^ 24 →
        ∃ memory, initial? standard argument (.empty capacity) = some (.ok memory) ∧
          memory.StandardLayout standard argument) := by
  have hmap : ∀ address, (PageMap.empty capacity).table.accessAt address = none :=
    fun address => PageTable.get_empty (pageOf address)
  have hfits (hargument : argument.size ≤ 2 ^ 24) : Fits standard argument :=
    fits_of_footprint_le (StandardProgram.footprint_le_of_parse hparse) hargument
  refine ⟨⟨?_, fun hargument => ⟨_, if_pos hargument⟩⟩, fun hargument =>
    ⟨_, (hfits hargument).initial?_eq _, (hfits hargument).standardLayout hmap⟩⟩
  rintro ⟨error, hrefused⟩
  refine Nat.lt_of_not_le fun hargument => ?_
  rw [(hfits hargument).initial?_eq] at hrefused
  cases hrefused

theorem dataProgram_gets_standard_layout :
    StandardProgram.parse dataBlob = .ok dataProgram ∧
      ∃ memory,
        initial? dataProgram [1, 2, 3].toByteArray (.empty PageMap.defaultCapacity) =
          some (.ok memory) ∧
        memory.StandardLayout dataProgram [1, 2, 3].toByteArray := by
  have hparse : StandardProgram.parse dataBlob = .ok dataProgram := by cbv
  obtain ⟨-, hlayout⟩ := parsed_programs_get_standard_layout hparse [1, 2, 3].toByteArray
    PageMap.defaultCapacity
  exact ⟨hparse, hlayout (by decide)⟩

/-! ## Programs that were not read from a blob -/

section Room

variable {standard : StandardProgram} {argument : ByteArray}

/-- What the regions below the argument take together, from address zero on. -/
def extent (standard : StandardProgram) : Nat :=
  2 * zoneSize + roundUpToZone standard.readOnly.size + standard.initialHeapSize +
    roundUpToPage standard.stackSize.toNat

/-- The top of the stack is the end of a page, so rounding a stack up does not make it too
large. -/
theorem stackTop_lt_stackRoom_iff :
    stackTop.toNat < stackRoom standard ↔ stackTop.toNat < standard.stackSize.toNat := by
  have htop := toNat_stackTop
  unfold stackRoom roundUpToPage roundUp pageSize
  omega

theorem stackSize_le_of_extent_le (hextent : extent standard ≤ stackTop.toNat) :
    standard.stackSize.toNat ≤ stackTop.toNat :=
  calc standard.stackSize.toNat ≤ roundUpToPage standard.stackSize.toNat := le_roundUpToPage _
    _ ≤ extent standard := Nat.le_add_left _ _
    _ ≤ stackTop.toNat := hextent

/-- A program with an argument within the limit gets no answer if the stack alone is too large,
is refused if only all regions together are, and gets its memory otherwise. -/
theorem initial?_of_argument_le (hargument : argument.size ≤ argumentLimit) (map : PageMap) :
    initial? standard argument map =
      if stackTop.toNat < standard.stackSize.toNat then none
      else if stackTop.toNat < extent standard then
        some (.error (.outOfMemory (UInt32.ofNat (heapStart standard))))
      else some (.ok (layOut standard argument map)) := by
  rw [initial?, if_neg (Nat.not_lt.mpr hargument)]
  refine ite_congr (propext stackTop_lt_stackRoom_iff) (fun _ => rfl) fun hstack => ?_
  rw [← stackTop_lt_stackRoom_iff] at hstack
  have hmeets : stackTop.toNat - stackRoom standard <
      heapStart standard + standard.initialHeapSize ↔ stackTop.toNat < extent standard := by
    have hextent : extent standard =
        heapStart standard + standard.initialHeapSize + stackRoom standard := rfl
    omega
  exact ite_congr (propext hmeets) (fun _ => rfl) fun _ => rfl

/-- The sums that decide about a program's memory are 64-bit words, as long as its data leaves
some space in an address space of 64 bits. -/
theorem extent_lt (hdata : standard.readOnly.size + standard.readWrite.size + 2 ^ 33 ≤ 2 ^ 64) :
    extent standard < 2 ^ 64 := by
  have hpages := standard.heapPages.toNat_lt
  have hstack := standard.stackSize.toNat_lt
  unfold extent StandardProgram.initialHeapSize roundUpToZone roundUpToPage roundUp zoneSize
    pageSize
  omega

/-- The read-only data is where the program looks for it, and cannot be written. -/
theorem Fits.readOnly_not_writable (hfits : Fits standard argument) {map : PageMap}
    (hmap : ∀ address, map.table.accessAt address = none) {address : UInt32}
    (hstart : readOnlyStart ≤ address.toNat)
    (hstop : address.toNat < readOnlyStart + standard.readOnly.size) :
    (Memory.allows (layOut standard argument map) .write address 1).1 = false := by
  have hcontains :
      ((layOut standard argument map).zone .readOnly).contains address = true := by
    rw [hfits.contains_iff]
    exact ⟨hstart, Nat.lt_of_lt_of_le hstop
      (Nat.add_le_add_left (le_roundUpToPage standard.readOnly.size) readOnlyStart)⟩
  rw [← Bool.not_eq_true, allows_one_iff, (hfits.layout hmap).accessAt_of_contains hcontains]
  decide

/-- When a standard program gets its memory, however its parts were put together.  If its stack is
larger than all the addresses below its top, then the host stops.  If not, then it is refused
exactly when its regions together reach beyond the top of the stack.  Otherwise it gets the
standard layout, where the read-only data cannot be written.  The sums that this depends on do not
overflow. -/
theorem standard_memory_refused_iff (standard : StandardProgram) {argument : ByteArray}
    (hargument : argument.size ≤ 2 ^ 24) (capacity : Nat) :
    (initial? standard argument (.empty capacity) = none ↔
        stackTop.toNat < standard.stackSize.toNat) ∧
      (standard.stackSize.toNat ≤ stackTop.toNat →
        ((∃ address, initial? standard argument (.empty capacity) =
            some (.error (.outOfMemory address))) ↔
          stackTop.toNat < extent standard)) ∧
      (extent standard ≤ stackTop.toNat →
        ∃ memory, initial? standard argument (.empty capacity) = some (.ok memory) ∧
          memory.StandardLayout standard argument ∧
          memory.readOnly.start.toNat = readOnlyStart ∧
          ∀ address : UInt32, readOnlyStart ≤ address.toNat →
            address.toNat < readOnlyStart + standard.readOnly.size →
              (Memory.allows memory .write address 1).1 = false) ∧
      (standard.readOnly.size + standard.readWrite.size + 2 ^ 33 ≤ 2 ^ 64 →
        extent standard < 2 ^ 64) := by
  have hmap : ∀ address, (PageMap.empty capacity).table.accessAt address = none :=
    fun address => PageTable.get_empty (pageOf address)
  have hinitial := @initial?_of_argument_le standard argument hargument (.empty capacity)
  refine ⟨?_, fun hstack => ?_, fun hextent => ?_, extent_lt⟩
  · rw [hinitial]
    split
    · next hstack => exact iff_of_true rfl hstack
    · next hstack =>
        refine iff_of_false ?_ hstack
        split <;> simp
  · rw [hinitial, if_neg (Nat.not_lt.mpr hstack)]
    split
    · next hextent => exact iff_of_true ⟨_, rfl⟩ hextent
    · next hextent => exact iff_of_false (by simp) hextent
  · have hfits : Fits standard argument := ⟨hargument, hextent⟩
    rw [hinitial, if_neg (Nat.not_lt.mpr (stackSize_le_of_extent_le hextent)),
      if_neg (Nat.not_lt.mpr hextent)]
    exact ⟨_, rfl, hfits.standardLayout hmap, hfits.start_zone _ .readOnly,
      fun _ => hfits.readOnly_not_writable hmap⟩

end Room

/-- A program without data that asks for the largest stack. -/
def deepStack : StandardProgram :=
  { dataProgram with
    readOnly := ByteArray.empty
    readWrite := ByteArray.empty
    heapPages := 0
    stackSize := 0xFFFFFFFF }

/-- Its regions take more than there is, but it is not refused: the host stops. -/
theorem deepStack_not_refused :
    ByteArray.empty.size ≤ 2 ^ 24 ∧ stackTop.toNat < extent deepStack ∧
      initial? deepStack ByteArray.empty (.empty PageMap.defaultCapacity) = none ∧
      ¬ ∃ address, initial? deepStack ByteArray.empty (.empty PageMap.defaultCapacity) =
        some (.error (.outOfMemory address)) := by
  have hstops : initial? deepStack ByteArray.empty (.empty PageMap.defaultCapacity) = none := by
    rw [initial?_of_argument_le (by decide), if_pos (by decide)]
  refine ⟨by decide, by decide, hstops, ?_⟩
  simp [hstops]

/-- The largest stack beside the data of a program, one byte more, and one byte more than the
addresses below the top. -/
theorem dataProgram_refused_from_one_byte_on :
    (∃ memory, initial? { dataProgram with stackSize := 0xFEFAE000 } [1, 2, 3].toByteArray
        (.empty PageMap.defaultCapacity) = some (.ok memory)) ∧
      (∃ address, initial? { dataProgram with stackSize := 0xFEFAE001 } [1, 2, 3].toByteArray
        (.empty PageMap.defaultCapacity) = some (.error (.outOfMemory address))) ∧
      initial? { dataProgram with stackSize := 0xFEFE0001 } [1, 2, 3].toByteArray
        (.empty PageMap.defaultCapacity) = none := by
  have hargument : [1, 2, 3].toByteArray.size ≤ 2 ^ 24 := by decide
  obtain ⟨-, -, hlaidOut, -⟩ := standard_memory_refused_iff
    { dataProgram with stackSize := 0xFEFAE000 } hargument PageMap.defaultCapacity
  obtain ⟨memory, hmemory, -⟩ := hlaidOut (by decide)
  obtain ⟨-, hrefused, -⟩ := standard_memory_refused_iff
    { dataProgram with stackSize := 0xFEFAE001 } hargument PageMap.defaultCapacity
  obtain ⟨hstops, -⟩ := standard_memory_refused_iff
    { dataProgram with stackSize := 0xFEFE0001 } hargument PageMap.defaultCapacity
  exact ⟨⟨memory, hmemory⟩, (hrefused (by decide)).mpr (by decide), hstops.mpr (by decide)⟩

end ZonedMemory

end GasMachine
