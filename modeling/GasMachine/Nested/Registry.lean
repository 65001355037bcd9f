import GasMachine.Machine.Run
import GasMachine.Memory.Sparse
import GasMachine.Program.Blob

/-!
# Nested machines

A host can keep machines for its guest.  Each has its own program, memory and program counter, and
is known by the lowest number that was free when it was created.  Registers and gas are given anew
each time it is run.
-/

namespace GasMachine

/-- A machine between two of its runs. -/
structure NestedMachine where
  program : Program
  memory : SparseMemory
  pc : UInt32

inductive NestedError where
  | unknownMachine (id : UInt64)
  | outOfBounds (error : MemoryError)
  | invalidPages (mode : UInt64) (page count : UInt32)
  | invalidCode (error : ProgramError)
  deriving DecidableEq, Repr

def NestedError.message : NestedError → String
  | unknownMachine id => "no inner machine with id " ++ toString id.toNat
  | outOfBounds error => "inner machine memory access out of bounds: " ++ error.message
  | invalidPages mode page count =>
    "invalid page request: mode " ++ toString mode.toNat ++ ", pages " ++ toString page.toNat ++ "+"
      ++ toString count.toNat
  | invalidCode error => "invalid inner program: " ++ error.message

structure NestedRun where
  stop : Stop
  gas : Gas
  registers : Registers

/-- The machines that a host keeps, by number. -/
structure Registry where
  slots : List (Option NestedMachine) := []
  /-- How many access checks the memory of a machine remembers. -/
  cacheCapacity : Nat := PageMap.defaultCapacity

namespace Registry

def get? (registry : Registry) (id : UInt64) : Option NestedMachine :=
  registry.slots[id.toNat]?.join

def contains (registry : Registry) (id : UInt64) : Bool :=
  (registry.get? id).isSome

def size (registry : Registry) : Nat :=
  registry.slots.countP Option.isSome

/-- The registry with another machine, or none, in a slot that it has. -/
def replace (registry : Registry) (id : UInt64) (machine : Option NestedMachine) : Registry :=
  { registry with slots := registry.slots.set id.toNat machine }

def freeSlot (registry : Registry) : Nat :=
  registry.slots.findIdx Option.isNone

def insert (registry : Registry) (machine : NestedMachine) : Registry :=
  { registry with
    slots :=
      if registry.freeSlot < registry.slots.length then
        registry.slots.set registry.freeSlot (some machine)
      else registry.slots ++ [some machine] }

/-- Creates a machine, which starts at `pc` with an empty memory, and gives its number.  There is no
answer if the host stops over the memory. -/
def create? (registry : Registry) (blob : ByteArray) (pc : UInt32) :
    Option (Except NestedError UInt64 × Registry) :=
  match Program.parse blob with
  | .error error => some (.error (.invalidCode error), registry)
  | .ok program =>
    (SparseMemory.allocate? registry.cacheCapacity).map fun memory =>
      (.ok (UInt64.ofNat registry.freeSlot), registry.insert ⟨program, memory, pc⟩)

def peek (registry : Registry) (id : UInt64) (address : UInt32) (length : UInt64) :
    Except NestedError ByteArray × Registry :=
  match registry.get? id with
  | none => (.error (.unknownMachine id), registry)
  | some machine =>
    let (answer, memory) := Memory.check machine.memory .read address length
    let registry := registry.replace id (some { machine with memory := memory })
    match answer with
    | .error fault => (.error (.outOfBounds (.notReadable fault)), registry)
    | .ok _ => (.ok (memory.contents address length.toNat), registry)

def poke (registry : Registry) (id : UInt64) (address : UInt32) (bytes : ByteArray) :
    Except NestedError Unit × Registry :=
  match registry.get? id with
  | none => (.error (.unknownMachine id), registry)
  | some machine =>
    let (answer, memory) := machine.memory.write address bytes
    (answer.mapError .outOfBounds,
      registry.replace id (some { machine with memory := memory }))

/-- Whether pages of a memory may be given a mode: they lie between the reserved zone and the end
of the address space, and are mapped already if they are to keep their contents. -/
def admitsPages (memory : SparseMemory) (page count : UInt32) (mode : PageMode) : Bool :=
  AddressSpace.firstUserPage ≤ page.toNat
    && page.toNat + count.toNat ≤ AddressSpace.pageCount
    && (!mode.keepsContents || memory.pagesMapped page.toNat count.toNat)

def pages (registry : Registry) (id : UInt64) (page count : UInt32) (mode : UInt64) :
    Except NestedError Unit × Registry :=
  match registry.get? id with
  | none => (.error (.unknownMachine id), registry)
  | some machine =>
    match PageMode.ofNumber? mode with
    | none => (.error (.invalidPages mode page count), registry)
    | some pageMode =>
      if admitsPages machine.memory page count pageMode then
        let memory := machine.memory.setPages page.toNat count.toNat pageMode
        (.ok (), registry.replace id (some { machine with memory := memory }))
      else (.error (.invalidPages mode page count), registry)

/-- The machine past the host call on which it stopped, if it stopped on one. -/
def afterHostCall (program : Program) (stop : Stop) (machine : Machine SparseMemory) :
    Machine SparseMemory :=
  match stop with
  | .exit (.hostCall _) => machine.skipHostCall program
  | _ => machine

/-- Runs a machine until it stops.  The next run goes on from there. -/
def invoke (registry : Registry) (id : UInt64) (gas : Gas) (registers : Registers) :
    Except NestedError NestedRun × Registry :=
  match registry.get? id with
  | none => (.error (.unknownMachine id), registry)
  | some nested =>
    let (stop, machine) := Machine.run nested.program ⟨nested.pc, registers, gas, nested.memory⟩
    let machine := afterHostCall nested.program stop machine
    (.ok ⟨stop, machine.gas, machine.registers⟩,
      registry.replace id (some ⟨nested.program, machine.memory, machine.pc⟩))

/-- Removes a machine and gives its program counter. -/
def expunge (registry : Registry) (id : UInt64) : Except NestedError UInt32 × Registry :=
  match registry.get? id with
  | none => (.error (.unknownMachine id), registry)
  | some machine => (.ok machine.pc, registry.replace id none)

end Registry

end GasMachine
