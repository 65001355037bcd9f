import GasMachine.Proofs.Memory.ZoneContents
import GasMachine.Proofs.Memory.ZoneWalk

/-!
# How a zoned memory is laid out

The zones of a standard program lie one after the other, and the page map gives
access to exactly their addresses: the read-only data and the argument can be
read, the heap and the stack can be written too.  This is so from the start, and
it stays so because the heap grows by whole pages and never into the stack.
-/

namespace GasMachine

open AddressSpace

/-! ## Rounded sizes and grants -/

namespace AddressSpace

theorem le_roundUpToPage (length : Nat) : length ≤ roundUpToPage length := by
  unfold roundUpToPage roundUp pageSize
  omega

theorem roundUpToPage_mod (length : Nat) : roundUpToPage length % pageSize = 0 :=
  Nat.mul_mod_left _ _

theorem roundUpToPage_le_roundUpToZone (length : Nat) :
    roundUpToPage length ≤ roundUpToZone length := by
  unfold roundUpToPage roundUpToZone roundUp pageSize zoneSize
  omega

theorem toNat_stackTop : stackTop.toNat = 0xFEFE0000 := rfl

theorem toNat_argumentStart : argumentStart.toNat = 0xFEFF0000 := rfl

theorem roundUpToPage_le {length limit : Nat} (hlength : length ≤ limit)
    (hlimit : limit % pageSize = 0) : roundUpToPage length ≤ limit := by
  unfold roundUpToPage roundUp pageSize at *
  omega

end AddressSpace

/-- Whole pages from the start of a page on are the pages that the range touches. -/
theorem PageSpan.ofRange_eq {address : UInt32} {length : Nat}
    (haddress : address.toNat % pageSize = 0) (hlength : length % pageSize = 0)
    (hfits : address.toNat + length ≤ size) :
    ofRange address length = ⟨address.toNat / pageSize, length / pageSize⟩ := by
  unfold ofRange pageOf
  unfold pageSize size pageCount at *
  split
  · next hzero => rw [hzero]
  · rw [PageSpan.mk.injEq]
    omega

/-- Granting access to whole pages gives it to the bytes of the range. -/
theorem PageMap.accessAt_grant (map : PageMap) {address : UInt32} {length : Nat}
    (haddress : address.toNat % pageSize = 0) (hlength : length % pageSize = 0)
    (hfits : address.toNat + length ≤ size) (access : PageAccess) (target : UInt32) :
    (map.grant address length access).table.accessAt target =
      if address.toNat ≤ target.toNat ∧ target.toNat < address.toNat + length then some access
      else map.table.accessAt target := by
  have hpages : address.toNat / pageSize + length / pageSize ≤ pageCount := by
    unfold pageSize pageCount size at *
    omega
  have hinside : FlatMemory.inPages (address.toNat / pageSize) (length / pageSize) target =
      true ↔ address.toNat ≤ target.toNat ∧ target.toNat < address.toNat + length := by
    rw [FlatMemory.inPages_iff]
    unfold pageOf pageSize at *
    omega
  rw [grant, PageSpan.ofRange_eq haddress hlength hfits, grantSpan, grantPages, assign,
    PageTable.accessAt_assign _ hpages]
  simp only [hinside]

theorem Zone.stop_ofSize {start : UInt32} {length : Nat} (hfits : start.toNat + length < size)
    (data : ByteArray) : (ofSize start length data).stop.toNat = start.toNat + length := by
  rw [ofSize, UInt32.toNat_ofNat_of_lt' hfits]

def Region.access : Region → PageAccess
  | .readOnly | .argument => .readOnly
  | .heap | .stack => .readWrite

namespace ZonedMemory

theorem zone_updateZone (memory : ZonedMemory) (region other : Region) (update : Zone → Zone) :
    (memory.updateZone region update).zone other =
      if other = region then update (memory.zone other) else memory.zone other := by
  cases region <;> cases other <;> rfl

theorem pageMap_updateZone (memory : ZonedMemory) (region : Region) (update : Zone → Zone) :
    (memory.updateZone region update).pageMap = memory.pageMap := by
  cases region <;> rfl

theorem regionAt?_eq (memory : ZonedMemory) (address : UInt32) :
    memory.regionAt? address =
      if (memory.zone .readOnly).contains address then some .readOnly
      else if (memory.zone .heap).contains address then some .heap
      else if (memory.zone .stack).contains address then some .stack
      else if (memory.zone .argument).contains address then some .argument
      else none := by
  simp only [regionAt?, List.find?_cons, List.find?_nil]
  grind

theorem regionAt?_congr {memory other : ZonedMemory} {address : UInt32}
    (hcontains : ∀ region,
      (memory.zone region).contains address = (other.zone region).contains address) :
    memory.regionAt? address = other.regionAt? address := by
  simp only [regionAt?, hcontains]

/-- The zones lie one after the other, and exactly their addresses have access. -/
structure Layout (memory : ZonedMemory) : Prop where
  bounds : ∀ region, (memory.zone region).start.toNat ≤ (memory.zone region).stop.toNat
  readOnly_heap : (memory.zone .readOnly).stop.toNat ≤ (memory.zone .heap).start.toNat
  heap_stack : (memory.zone .heap).stop.toNat ≤ (memory.zone .stack).start.toNat
  stack_argument : (memory.zone .stack).stop.toNat ≤ (memory.zone .argument).start.toNat
  heap_aligned : (memory.zone .heap).stop.toNat % pageSize = 0
  access : ∀ address, memory.pageMap.table.accessAt address =
    (memory.regionAt? address).map Region.access

namespace Layout

variable {memory : ZonedMemory} {address : UInt32} {region other : Region}

theorem separate (hlayout : memory.Layout) (hregions : region ≠ other) :
    (memory.zone region).stop.toNat ≤ (memory.zone other).start.toNat ∨
      (memory.zone other).stop.toNat ≤ (memory.zone region).start.toNat := by
  have hheap := hlayout.bounds .heap
  have hstack := hlayout.bounds .stack
  have hfirst := hlayout.readOnly_heap
  have hsecond := hlayout.heap_stack
  have hthird := hlayout.stack_argument
  cases region <;> cases other <;>
    first
    | exact absurd rfl hregions
    | omega

/-- Zones share no address. -/
theorem eq_of_contains (hlayout : memory.Layout)
    (hregion : (memory.zone region).contains address = true)
    (hother : (memory.zone other).contains address = true) : region = other := by
  by_cases hregions : region = other
  · exact hregions
  · have hseparate := hlayout.separate hregions
    have hbounds := Zone.contains_iff.mp hregion
    have hotherBounds := Zone.contains_iff.mp hother
    omega

theorem regionAt?_eq_some_iff (hlayout : memory.Layout) :
    memory.regionAt? address = some region ↔
      (memory.zone region).contains address = true := by
  constructor
  · exact List.find?_some (p := fun region => (memory.zone region).contains address)
  · intro hcontains
    cases hfound : memory.regionAt? address with
    | none =>
        have hmem : region ∈ [Region.readOnly, .heap, .stack, .argument] := by
          cases region <;> simp
        exact absurd hcontains (List.find?_eq_none.mp hfound region hmem)
    | some found =>
        have hfound :=
          List.find?_some (p := fun region => (memory.zone region).contains address) hfound
        rw [hlayout.eq_of_contains hcontains hfound]

/-- What the page map remembers is nothing to the layout. -/
theorem setCache (hlayout : memory.Layout) (cache : AccessCache)
    (hsound : cache.Sound memory.pageMap.table) :
    Layout { memory with pageMap := ⟨memory.pageMap.table, cache, hsound⟩ } := by
  refine ⟨fun region => ?_, hlayout.readOnly_heap, hlayout.heap_stack, hlayout.stack_argument,
    hlayout.heap_aligned, hlayout.access⟩
  rw [zone_setPageMap]
  exact hlayout.bounds region

/-- Changing what is in a zone is nothing to the layout. -/
theorem updateZone (hlayout : memory.Layout) {update : Zone → Zone}
    (hstart : ∀ zone, (update zone).start = zone.start)
    (hstop : ∀ zone, (update zone).stop = zone.stop) :
    (memory.updateZone region update).Layout := by
  have hcontains : ∀ zone address, (update zone).contains address = zone.contains address := by
    intro zone address
    rw [Zone.contains, Zone.contains, hstart, hstop]
  have hregionAt : ∀ address,
      (memory.updateZone region update).regionAt? address = memory.regionAt? address := by
    intro address
    refine regionAt?_congr fun other => ?_
    rw [zone_updateZone]
    split
    · exact hcontains _ _
    · rfl
  have hbounds : ∀ other, ((memory.updateZone region update).zone other).start.toNat ≤
      ((memory.updateZone region update).zone other).stop.toNat := by
    intro other
    have hkept := hlayout.bounds other
    rw [zone_updateZone]
    split
    · rwa [hstart, hstop]
    · exact hkept
  have haccess : ∀ address,
      (memory.updateZone region update).pageMap.table.accessAt address =
        ((memory.updateZone region update).regionAt? address).map Region.access := by
    intro address
    rw [hregionAt, pageMap_updateZone]
    exact hlayout.access address
  have hfirst := hlayout.readOnly_heap
  have hsecond := hlayout.heap_stack
  have hthird := hlayout.stack_argument
  have haligned := hlayout.heap_aligned
  refine ⟨hbounds, ?_, ?_, ?_, ?_, haccess⟩ <;>
    cases region <;> simpa only [ZonedMemory.updateZone, zone, hstart, hstop]

end Layout

/-! ## The layout after the heap has grown -/

def extendHeap (memory : ZonedMemory) (mappedEnd : Nat) : ZonedMemory :=
  { memory with
    pageMap := memory.pageMap.grant memory.heap.stop (mappedEnd - memory.heap.stop.toNat)
      .readWrite
    heap := { memory.heap with stop := UInt32.ofNat mappedEnd } }

/-- The heap of a memory can be mapped up to `mappedEnd`. -/
structure Extends (memory : ZonedMemory) (mappedEnd : Nat) : Prop where
  above : (memory.zone .heap).stop.toNat < mappedEnd
  below : mappedEnd ≤ (memory.zone .stack).start.toNat
  aligned : mappedEnd % pageSize = 0

/-- Growing moves the end of the heap in use, and maps more of the heap if need
be. -/
theorem grow_cases (memory : ZonedMemory) (increment : UInt32) :
    (∃ heapEnd, (memory.grow increment).2 = { memory with heapEnd := heapEnd }) ∨
      ∃ heapEnd mappedEnd, memory.Extends mappedEnd ∧
        (memory.grow increment).2 =
          { memory.extendHeap mappedEnd with heapEnd := heapEnd } := by
  unfold grow
  dsimp only
  split
  · exact Or.inl ⟨_, rfl⟩
  · split
    · exact Or.inl ⟨_, rfl⟩
    · split
      · next hstack hmapped =>
          exact Or.inr ⟨_, _, ⟨hmapped, Nat.not_lt.mp hstack, roundUpToPage_mod _⟩, rfl⟩
      · exact Or.inl ⟨_, rfl⟩

theorem zone_setHeapEnd (memory : ZonedMemory) (heapEnd : UInt32) (region : Region) :
    { memory with heapEnd := heapEnd }.zone region = memory.zone region := by
  cases region <;> rfl

theorem Layout.setHeapEnd {memory : ZonedMemory} (hlayout : memory.Layout) (heapEnd : UInt32) :
    Layout { memory with heapEnd := heapEnd } := by
  refine ⟨fun region => ?_, hlayout.readOnly_heap, hlayout.heap_stack, hlayout.stack_argument,
    hlayout.heap_aligned, hlayout.access⟩
  rw [zone_setHeapEnd]
  exact hlayout.bounds region

section Extending

variable {memory : ZonedMemory} {mappedEnd : Nat}
variable (hlayout : memory.Layout) (hextends : memory.Extends mappedEnd)
include hextends

theorem Extends.toNat_ofNat : (UInt32.ofNat mappedEnd).toNat = mappedEnd :=
  UInt32.toNat_ofNat_of_lt'
    (Nat.lt_of_le_of_lt hextends.below (memory.zone .stack).start.toNat_lt)

include hlayout

/-- Only the heap gets more addresses. -/
theorem Extends.contains_iff (region : Region) (address : UInt32) :
    ((memory.extendHeap mappedEnd).zone region).contains address = true ↔
      (memory.zone region).contains address = true ∨
        region = .heap ∧ (memory.zone .heap).stop.toNat ≤ address.toNat ∧
          address.toNat < mappedEnd := by
  have hbounds := hlayout.bounds .heap
  have habove := hextends.above
  cases region with
  | heap =>
      rw [Zone.contains_iff, Zone.contains_iff]
      change (memory.zone .heap).start.toNat ≤ address.toNat ∧
        address.toNat < (UInt32.ofNat mappedEnd).toNat ↔ _
      rw [hextends.toNat_ofNat]
      simp only [true_and]
      omega
  | readOnly => exact (or_iff_left fun hheap => Region.noConfusion hheap.1).symm
  | stack => exact (or_iff_left fun hheap => Region.noConfusion hheap.1).symm
  | argument => exact (or_iff_left fun hheap => Region.noConfusion hheap.1).symm

theorem Extends.regionAt?_eq (address : UInt32) :
    (memory.extendHeap mappedEnd).regionAt? address =
      if (memory.zone .heap).stop.toNat ≤ address.toNat ∧ address.toNat < mappedEnd then
        some .heap
      else memory.regionAt? address := by
  have hcontains := fun region => hextends.contains_iff hlayout region address
  by_cases hnew : (memory.zone .heap).stop.toNat ≤ address.toNat ∧ address.toNat < mappedEnd
  · have hbounds := hlayout.bounds .heap
    have hreadOnly := hlayout.readOnly_heap
    have houtside : ¬ ((memory.extendHeap mappedEnd).zone .readOnly).contains address = true := by
      rw [hcontains, Zone.contains_iff]
      simp only [reduceCtorEq, false_and, or_false]
      omega
    rw [if_pos hnew, ZonedMemory.regionAt?_eq, if_neg houtside,
      if_pos ((hcontains .heap).mpr (Or.inr ⟨rfl, hnew⟩))]
  · rw [if_neg hnew]
    refine regionAt?_congr fun region => Bool.eq_iff_iff.mpr ?_
    rw [hcontains]
    exact or_iff_left fun hheap => hnew hheap.2

/-- The new part of the heap lay in no zone. -/
theorem Extends.regionAt?_eq_none {address : UInt32}
    (hnew : (memory.zone .heap).stop.toNat ≤ address.toNat ∧ address.toNat < mappedEnd) :
    memory.regionAt? address = none := by
  have hbounds := hlayout.bounds .heap
  have hstack := hlayout.bounds .stack
  have hreadOnly := hlayout.readOnly_heap
  have hargument := hlayout.stack_argument
  have hbelow := hextends.below
  cases hregion : memory.regionAt? address with
  | none => rfl
  | some region =>
      have hinside := Zone.contains_iff.mp (hlayout.regionAt?_eq_some_iff.mp hregion)
      cases region <;> omega

theorem Extends.layout : (memory.extendHeap mappedEnd).Layout := by
  have hbounds := hlayout.bounds .heap
  have habove := hextends.above
  have hbelow := hextends.below
  have haligned := hextends.aligned
  have hold := hlayout.heap_aligned
  have hexact := hextends.toNat_ofNat
  have hstop : ((memory.extendHeap mappedEnd).zone .heap).stop.toNat = mappedEnd := hexact
  have htop := (memory.zone .stack).start.toNat_lt
  refine ⟨fun region => ?_, hlayout.readOnly_heap, ?_, hlayout.stack_argument, ?_,
    fun address => ?_⟩
  · have hkept := hlayout.bounds region
    cases region with
    | heap =>
        rw [hstop]
        exact Nat.le_of_lt (Nat.lt_of_le_of_lt hbounds habove)
    | readOnly => exact hkept
    | stack => exact hkept
    | argument => exact hkept
  · rwa [hstop]
  · rwa [hstop]
  · have hlength : (mappedEnd - (memory.zone .heap).stop.toNat) % pageSize = 0 := by
      unfold pageSize at *
      omega
    have hgrant := memory.pageMap.accessAt_grant hold hlength (by unfold size; omega)
      .readWrite address
    have hrange : (memory.zone .heap).stop.toNat +
        (mappedEnd - (memory.zone .heap).stop.toNat) = mappedEnd := by omega
    rw [hrange, hlayout.access] at hgrant
    refine hgrant.trans ?_
    rw [hextends.regionAt?_eq hlayout]
    split <;> rfl

end Extending

/-! ## The layout at the start -/

def startOf (standard : StandardProgram) : Region → Nat
  | .readOnly => readOnlyStart
  | .heap => heapStart standard
  | .stack => stackTop.toNat - stackRoom standard
  | .argument => argumentStart.toNat

def roomOf (standard : StandardProgram) (argument : ByteArray) : Region → Nat
  | .readOnly => roundUpToPage standard.readOnly.size
  | .heap => standard.initialHeapSize
  | .stack => stackRoom standard
  | .argument => roundUpToPage argument.size

def dataOf (standard : StandardProgram) (argument : ByteArray) : Region → ByteArray
  | .readOnly => standard.readOnly
  | .heap => standard.readWrite
  | .stack => ByteArray.empty
  | .argument => argument

theorem zone_layOut (standard : StandardProgram) (argument : ByteArray) (map : PageMap)
    (region : Region) :
    (layOut standard argument map).zone region =
      Zone.ofSize (UInt32.ofNat (startOf standard region)) (roomOf standard argument region)
        (dataOf standard argument region) := by
  cases region <;> rfl

/-- The regions of a standard program with its argument have room. -/
structure Fits (standard : StandardProgram) (argument : ByteArray) : Prop where
  argument : argument.size ≤ argumentLimit
  heap : heapStart standard + standard.initialHeapSize + stackRoom standard ≤ stackTop.toNat

section Start

variable {standard : StandardProgram} {argument : ByteArray}

/-- A program whose footprint is within the address space has room for any
argument within the limit. -/
theorem fits_of_footprint_le
    (hfootprint : StandardProgram.footprint standard.readOnly.size standard.readWrite.size
      standard.heapPages.toNat standard.stackSize.toNat ≤ size)
    (hargument : argument.size ≤ argumentLimit) : Fits standard argument := by
  refine ⟨hargument, ?_⟩
  have htop := toNat_stackTop
  unfold StandardProgram.footprint argumentLimit size at hfootprint
  unfold heapStart StandardProgram.initialHeapSize stackRoom
  unfold roundUpToZone roundUpToPage roundUp zoneSize pageSize at *
  omega

theorem Fits.initial?_eq (hfits : Fits standard argument) (map : PageMap) :
    initial? standard argument map = some (.ok (layOut standard argument map)) := by
  have hargument := hfits.argument
  have hheap := hfits.heap
  rw [initial?, if_neg (by omega), if_neg (by omega), if_neg (by omega)]

/-- Memory is laid out only where there is room. -/
theorem fits_of_initial? {map : PageMap} {memory : ZonedMemory}
    (hinitial : initial? standard argument map = some (.ok memory)) :
    Fits standard argument ∧ memory = layOut standard argument map := by
  rw [initial?] at hinitial
  split at hinitial
  · cases hinitial
  · next hargument =>
      split at hinitial
      · cases hinitial
      · next hstack =>
          split at hinitial
          · cases hinitial
          · next hheap =>
              cases hinitial
              exact ⟨⟨Nat.not_lt.mp hargument, by omega⟩, rfl⟩

theorem startOf_mod (standard : StandardProgram) (region : Region) :
    startOf standard region % pageSize = 0 := by
  have hstack : stackRoom standard % pageSize = 0 := roundUpToPage_mod _
  have htop := toNat_stackTop
  have hargument := toNat_argumentStart
  have hzone : roundUpToZone standard.readOnly.size % zoneSize = 0 := Nat.mul_mod_left _ _
  cases region <;> simp only [startOf, readOnlyStart, heapStart, pageSize, zoneSize] at * <;> omega

theorem roomOf_mod (standard : StandardProgram) (argument : ByteArray) (region : Region) :
    roomOf standard argument region % pageSize = 0 := by
  cases region with
  | heap =>
      have hdata := roundUpToPage_mod standard.readWrite.size
      dsimp only [roomOf]
      unfold StandardProgram.initialHeapSize
      unfold pageSize at *
      omega
  | readOnly => exact roundUpToPage_mod _
  | stack => exact roundUpToPage_mod _
  | argument => exact roundUpToPage_mod _

/-- The regions lie one after the other, below the top of the address space. -/
theorem Fits.order (hfits : Fits standard argument) :
    startOf standard .readOnly + roomOf standard argument .readOnly ≤
        startOf standard .heap ∧
      startOf standard .heap + roomOf standard argument .heap ≤ startOf standard .stack ∧
      startOf standard .stack + roomOf standard argument .stack ≤
        startOf standard .argument ∧
      startOf standard .argument + roomOf standard argument .argument < size := by
  have hargument : roundUpToPage argument.size ≤ argumentLimit :=
    roundUpToPage_le hfits.argument rfl
  have hheap := hfits.heap
  have hreadOnly := roundUpToPage_le_roundUpToZone standard.readOnly.size
  have htop := toNat_stackTop
  have hstart := toNat_argumentStart
  dsimp only [startOf, roomOf]
  unfold readOnlyStart heapStart zoneSize argumentLimit size at *
  omega

theorem Fits.end_lt (hfits : Fits standard argument) (region : Region) :
    startOf standard region + roomOf standard argument region < size := by
  have horder := hfits.order
  cases region <;> omega

theorem Fits.start_zone (hfits : Fits standard argument) (map : PageMap) (region : Region) :
    ((layOut standard argument map).zone region).start.toNat = startOf standard region := by
  have hend := hfits.end_lt region
  rw [zone_layOut, Zone.ofSize, UInt32.toNat_ofNat_of_lt' (Nat.lt_of_add_right_lt hend)]

theorem Fits.stop_zone (hfits : Fits standard argument) (map : PageMap) (region : Region) :
    ((layOut standard argument map).zone region).stop.toNat =
      startOf standard region + roomOf standard argument region := by
  have hend := hfits.end_lt region
  have hstart : (UInt32.ofNat (startOf standard region)).toNat = startOf standard region :=
    UInt32.toNat_ofNat_of_lt' (Nat.lt_of_add_right_lt hend)
  rw [zone_layOut, Zone.stop_ofSize (by rwa [hstart]), hstart]

/-- The grants of the four regions, each of which is the whole of its zone. -/
theorem pageMap_layOut (standard : StandardProgram) (argument : ByteArray) (map : PageMap) :
    (layOut standard argument map).pageMap =
      [Region.readOnly, .heap, .stack, .argument].foldl
        (fun map region =>
          map.grant (UInt32.ofNat (startOf standard region)) (roomOf standard argument region)
            region.access)
        map := rfl

theorem Fits.contains_iff (hfits : Fits standard argument) (map : PageMap) (region : Region)
    (address : UInt32) :
    ((layOut standard argument map).zone region).contains address = true ↔
      startOf standard region ≤ address.toNat ∧
        address.toNat < startOf standard region + roomOf standard argument region := by
  rw [Zone.contains_iff, hfits.start_zone, hfits.stop_zone]

/-- A memory that is laid out over an empty page map. -/
theorem Fits.layout (hfits : Fits standard argument) {map : PageMap}
    (hmap : ∀ address, map.table.accessAt address = none) :
    (layOut standard argument map).Layout := by
  obtain ⟨hreadOnly, hheap, hstack, hargument⟩ := hfits.order
  have hstart := hfits.start_zone map
  have hstop := hfits.stop_zone map
  refine ⟨fun region => ?_, ?_, ?_, ?_, ?_, fun address => ?_⟩
  · rw [hstart, hstop]
    exact Nat.le_add_right _ _
  · rwa [hstop, hstart]
  · rwa [hstop, hstart]
  · rwa [hstop, hstart]
  · rw [hstop, Nat.add_mod, startOf_mod, roomOf_mod]
    rfl
  · have hgrant : ∀ (other : PageMap) (region : Region),
        (other.grant (UInt32.ofNat (startOf standard region)) (roomOf standard argument region)
          region.access).table.accessAt address =
            if startOf standard region ≤ address.toNat ∧
                address.toNat < startOf standard region + roomOf standard argument region then
              some region.access
            else other.table.accessAt address := by
      intro other region
      have hend := hfits.end_lt region
      have hexact : (UInt32.ofNat (startOf standard region)).toNat = startOf standard region :=
        UInt32.toNat_ofNat_of_lt' (Nat.lt_of_add_right_lt hend)
      rw [PageMap.accessAt_grant _ (by rw [hexact, startOf_mod]) (roomOf_mod _ _ _)
        (by rw [hexact]; exact Nat.le_of_lt hend), hexact]
    rw [pageMap_layOut, regionAt?_eq]
    simp only [List.foldl_cons, List.foldl_nil, hgrant, hmap, hfits.contains_iff map]
    clear hgrant hstart hstop
    -- The grants are made from below, and an address is looked up from below, too.
    by_cases hinArgument : startOf standard .argument ≤ address.toNat ∧ address.toNat <
        startOf standard .argument + roomOf standard argument .argument
    · rw [if_pos hinArgument, if_neg (by omega), if_neg (by omega), if_neg (by omega),
        if_pos hinArgument]
      rfl
    · rw [if_neg hinArgument, if_neg hinArgument]
      by_cases hinStack : startOf standard .stack ≤ address.toNat ∧ address.toNat <
          startOf standard .stack + roomOf standard argument .stack
      · rw [if_pos hinStack, if_neg (by omega), if_neg (by omega), if_pos hinStack]
        rfl
      · rw [if_neg hinStack, if_neg hinStack]
        by_cases hinHeap : startOf standard .heap ≤ address.toNat ∧ address.toNat <
            startOf standard .heap + roomOf standard argument .heap
        · rw [if_pos hinHeap, if_neg (by omega), if_pos hinHeap]
          rfl
        · rw [if_neg hinHeap, if_neg hinHeap]
          split <;> rfl

end Start

end ZonedMemory

end GasMachine
