import GasMachine.Memory.Basic
import GasMachine.Memory.Zone
import GasMachine.Program.Standard

/-!
# The memory of a standard program

    reserved           the lowest zone
    read-only data     from the second zone on                         read-only
    heap               a zone after the read-only data                 read-write
    stack              down from `AddressSpace.stackTop`               read-write
    argument           from `AddressSpace.argumentStart` on            read-only

Regions are mapped in whole pages.  The heap grows upwards until it would reach the stack.
-/

namespace GasMachine

inductive Region where
  | readOnly
  | heap
  | stack
  | argument
  deriving DecidableEq, Repr

structure ZonedMemory where
  pageMap : PageMap
  readOnly : Zone
  heap : Zone
  stack : Zone
  argument : Zone
  /-- The end of the heap in use, which need not be the end of a page. -/
  heapEnd : UInt32

namespace ZonedMemory

/-- The bytes that are mapped for the stack. -/
def stackRoom (standard : StandardProgram) : Nat :=
  AddressSpace.roundUpToPage standard.stackSize.toNat

def readOnlyStart : Nat := AddressSpace.zoneSize

/-- Where the heap starts: a zone lies free between it and the read-only data. -/
def heapStart (standard : StandardProgram) : Nat :=
  2 * AddressSpace.zoneSize + AddressSpace.roundUpToZone standard.readOnly.size

/-- The memory that `standard` starts from with `argument`, if its regions do not meet. -/
def layOut (standard : StandardProgram) (argument : ByteArray) (pageMap : PageMap) :
    ZonedMemory :=
  let readOnlySize := AddressSpace.roundUpToPage standard.readOnly.size
  let heapSize := standard.initialHeapSize
  let stackSize := stackRoom standard
  let argumentSize := AddressSpace.roundUpToPage argument.size
  let readOnly := Zone.ofSize (UInt32.ofNat readOnlyStart) readOnlySize standard.readOnly
  let heap := Zone.ofSize (UInt32.ofNat (heapStart standard)) heapSize standard.readWrite
  let stackStart := UInt32.ofNat (AddressSpace.stackTop.toNat - stackSize)
  let stack := Zone.ofSize stackStart stackSize ByteArray.empty
  { pageMap := pageMap
      |>.grant readOnly.start readOnlySize .readOnly
      |>.grant heap.start heapSize .readWrite
      |>.grant stack.start stackSize .readWrite
      |>.grant AddressSpace.argumentStart argumentSize .readOnly
    readOnly := readOnly
    heap := heap
    stack := stack
    argument := Zone.ofSize AddressSpace.argumentStart argumentSize argument
    heapEnd := heap.stop }

/-- The memory that `standard` starts from with `argument`.  An argument that is too large is
refused, and so is a heap that would reach the stack.  A host that finds the stack larger than all
the addresses below its top stops, so there is no answer then. -/
def initial? (standard : StandardProgram) (argument : ByteArray) (pageMap : PageMap) :
    Option (Except MemoryError ZonedMemory) :=
  if AddressSpace.argumentLimit < argument.size then
    some (.error (.argumentTooLarge argument.size))
  else if AddressSpace.stackTop.toNat < stackRoom standard then none
  else if AddressSpace.stackTop.toNat - stackRoom standard
      < heapStart standard + standard.initialHeapSize then
    some (.error (.outOfMemory (UInt32.ofNat (heapStart standard))))
  else some (.ok (layOut standard argument pageMap))

def zone (memory : ZonedMemory) : Region → Zone
  | .readOnly => memory.readOnly
  | .heap => memory.heap
  | .stack => memory.stack
  | .argument => memory.argument

def updateZone (memory : ZonedMemory) (region : Region) (update : Zone → Zone) : ZonedMemory :=
  match region with
  | .readOnly => { memory with readOnly := update memory.readOnly }
  | .heap => { memory with heap := update memory.heap }
  | .stack => { memory with stack := update memory.stack }
  | .argument => { memory with argument := update memory.argument }

/-- The first region that holds an address. -/
def regionAt? (memory : ZonedMemory) (address : UInt32) : Option Region :=
  [Region.readOnly, .heap, .stack, .argument].find? fun region =>
    (memory.zone region).contains address

theorem room_pos_of_regionAt? {memory : ZonedMemory} {address : UInt32} {region : Region}
    (hregion : memory.regionAt? address = some region) :
    0 < (memory.zone region).room address :=
  Zone.room_pos (List.find?_some (p := fun region => (memory.zone region).contains address) hregion)

/-- Reads `remaining` bytes from `position` on, zone by zone, after those already `filled`. -/
def readFrom (memory : ZonedMemory) (position : UInt32) (remaining : Nat) (filled : ByteArray) :
    Except ReadFailure Unit × ByteArray :=
  if remaining = 0 then (.ok (), filled)
  else
    match _hregion : memory.regionAt? position with
    | none => (.error (.refused (.notReadable position)), filled)
    | some region =>
      let count := min remaining ((memory.zone region).room position)
      match (memory.zone region).read? position count with
      | none => (.error .aborted, filled)
      | some bytes =>
        memory.readFrom (position + UInt32.ofNat count) (remaining - count) (filled ++ bytes)
termination_by remaining
decreasing_by
  have := room_pos_of_regionAt? _hregion
  omega

def readInto (memory : ZonedMemory) (address : UInt32) (buffer : ByteArray) :
    Transfer ZonedMemory :=
  match memory.pageMap.checkRange .read address buffer.size with
  | (.error fault, map) =>
    ⟨.error (.refused (.notReadable fault)), buffer, { memory with pageMap := map }⟩
  | (.ok _, map) =>
    let (result, filled) := memory.readFrom address buffer.size ByteArray.empty
    ⟨result, filled ++ buffer.extract filled.size buffer.size, { memory with pageMap := map }⟩

/-- Writes the bytes from index `done` on to the addresses from `position` on, zone by zone. -/
def writeFrom (memory : ZonedMemory) (position : UInt32) (bytes : ByteArray) (done : Nat) :
    Except MemoryError Unit × ZonedMemory :=
  if bytes.size ≤ done then (.ok (), memory)
  else
    match _hregion : memory.regionAt? position with
    | none => (.error (.notWritable position), memory)
    | some region =>
      let count := min (bytes.size - done) ((memory.zone region).room position)
      let piece := bytes.extract done (done + count)
      (memory.updateZone region fun zone => zone.write position piece).writeFrom
        (position + UInt32.ofNat count) bytes (done + count)
termination_by bytes.size - done
decreasing_by
  have := room_pos_of_regionAt? _hregion
  omega

def write (memory : ZonedMemory) (address : UInt32) (bytes : ByteArray) :
    Except MemoryError Unit × ZonedMemory :=
  match memory.pageMap.checkRange .write address bytes.size with
  | (.error fault, map) => (.error (.notWritable fault), { memory with pageMap := map })
  | (.ok _, map) => { memory with pageMap := map }.writeFrom address bytes 0

/-- Moves the end of the heap up by `increment` bytes, mapping the pages that this takes, unless
they would reach the stack. -/
def grow (memory : ZonedMemory) (increment : UInt32) : Except MemoryError UInt32 × ZonedMemory :=
  let previous := memory.heapEnd
  if increment = 0 then (.ok previous, memory)
  else
    let newEnd := previous.toNat + increment.toNat
    let mappedEnd := AddressSpace.roundUpToPage newEnd
    let mappedFrom := memory.heap.stop.toNat
    if memory.stack.start.toNat < mappedEnd then (.error (.outOfMemory previous), memory)
    else if mappedFrom < mappedEnd then
      (.ok previous,
        { memory with
          pageMap := memory.pageMap.grant memory.heap.stop (mappedEnd - mappedFrom) .readWrite
          heap := { memory.heap with stop := UInt32.ofNat mappedEnd }
          heapEnd := UInt32.ofNat newEnd })
    else (.ok previous, { memory with heapEnd := UInt32.ofNat newEnd })

instance : Memory ZonedMemory where
  pageMap := pageMap
  setPageMap memory map := { memory with pageMap := map }
  readInto := readInto
  write := write
  grow := grow

end ZonedMemory

end GasMachine
