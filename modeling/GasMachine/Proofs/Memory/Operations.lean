import GasMachine.Proofs.Memory.FlatMemory

/-!
# Operations on memories

What is done to a memory is said apart from the memory that it is done to.  So
the same operations can be carried out on a memory of a machine and on a flat
memory that says what they mean, and their answers can be compared.
-/

namespace GasMachine

/-- All that an operation lets its caller see. -/
inductive MemoryAnswer where
  | written (result : Except MemoryError Unit)
  | filled (result : Except ReadFailure Unit) (buffer : ByteArray)
  | bytes (result : Except ReadFailure ByteArray)
  | grown (result : Except MemoryError UInt32)
  | changed

/-- A flat memory, which may be written and grow in its own way. -/
class FlatSpace (φ : Type) where
  flat : φ → FlatMemory
  write : φ → UInt32 → ByteArray → Except MemoryError Unit × φ
  grow : φ → UInt32 → Except MemoryError UInt32 × φ

instance : FlatSpace FlatMemory where
  flat memory := memory
  write := FlatMemory.write
  grow := FlatMemory.grow

/-! ## Operations of every memory -/

/-- An operation that every memory offers. -/
inductive Memory.Operation where
  | write (address : UInt32) (bytes : ByteArray)
  | readInto (address : UInt32) (buffer : ByteArray)
  | read (address : UInt32) (length : UInt64)
  | grow (increment : UInt32)

namespace Memory.Operation

variable {μ φ : Type} [Memory μ] [FlatSpace φ]

def perform (memory : μ) : Memory.Operation → MemoryAnswer × μ
  | .write address bytes =>
    let (result, after) := Memory.write memory address bytes
    (.written result, after)
  | .readInto address buffer =>
    let transfer := Memory.readInto memory address buffer
    (.filled transfer.result transfer.buffer, transfer.memory)
  | .read address length =>
    let (result, after) := Memory.read memory address length
    (.bytes result, after)
  | .grow increment =>
    let (result, after) := Memory.grow memory increment
    (.grown result, after)

/-- What an operation means.  Reads leave a flat memory as it is. -/
def onFlat (memory : φ) : Memory.Operation → MemoryAnswer × φ
  | .write address bytes =>
    let (result, after) := FlatSpace.write memory address bytes
    (.written result, after)
  | .readInto address buffer =>
    let (result, filled) := (FlatSpace.flat memory).readInto address buffer
    (.filled result filled, memory)
  | .read address length => (.bytes ((FlatSpace.flat memory).read address length), memory)
  | .grow increment =>
    let (result, after) := FlatSpace.grow memory increment
    (.grown result, after)

def performAll (memory : μ) (operations : List Memory.Operation) : μ :=
  operations.foldl (fun memory operation => (operation.perform memory).2) memory

def allOnFlat (memory : φ) (operations : List Memory.Operation) : φ :=
  operations.foldl (fun memory operation => (operation.onFlat memory).2) memory

end Memory.Operation

/-! ## Operations of a memory whose pages its host maps -/

namespace SparseMemory

inductive Operation where
  | offered (operation : Memory.Operation)
  | setPages (first count : UInt32) (mode : PageMode)

namespace Operation

def perform (memory : SparseMemory) : Operation → MemoryAnswer × SparseMemory
  | .offered operation => operation.perform memory
  | .setPages first count mode => (.changed, memory.setPages first.toNat count.toNat mode)

def onFlat (flat : FlatMemory) : Operation → MemoryAnswer × FlatMemory
  | .offered operation => operation.onFlat flat
  | .setPages first count mode => (.changed, flat.setPages first.toNat count.toNat mode)

end Operation

def performAll (memory : SparseMemory) (operations : List Operation) : SparseMemory :=
  operations.foldl (fun memory operation => (operation.perform memory).2) memory

end SparseMemory

end GasMachine
