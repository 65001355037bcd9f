import GasMachine.Bytes.Basic
import GasMachine.Memory.Error
import GasMachine.Memory.PageMap

/-!
# Memories

A machine runs on any memory that can be read, written and grown.  Every operation returns the
memory after it, because even a check that fails is remembered by the page map.
-/

namespace GasMachine

/-- The outcome of reading into a buffer. -/
structure Transfer (μ : Type) where
  result : Except ReadFailure Unit
  /-- The buffer afterwards, also where the read failed. -/
  buffer : ByteArray
  memory : μ

class Memory (μ : Type) where
  pageMap : μ → PageMap
  setPageMap : μ → PageMap → μ
  /-- Fills a buffer from an address on. -/
  readInto : μ → UInt32 → ByteArray → Transfer μ
  /-- Stores bytes from an address on. -/
  write : μ → UInt32 → ByteArray → Except MemoryError Unit × μ
  /-- Grows the heap, giving the start of the new space. -/
  grow : μ → UInt32 → Except MemoryError UInt32 × μ

namespace Memory

variable {μ : Type} [Memory μ]

/-- Whether a range may be used in the given way, or the first address of it that may not. -/
def check (memory : μ) (kind : AccessKind) (address : UInt32) (length : UInt64) :
    Except UInt32 Unit × μ :=
  let (answer, map) := (pageMap memory).check kind address length
  (answer, setPageMap memory map)

def allows (memory : μ) (kind : AccessKind) (address : UInt32) (length : UInt64) : Bool × μ :=
  match check memory kind address length with
  | (.ok _, memory) => (true, memory)
  | (.error _, memory) => (false, memory)

def read (memory : μ) (address : UInt32) (length : UInt64) : Except ReadFailure ByteArray × μ :=
  match check memory .read address length with
  | (.error fault, memory) => (.error (.refused (.notReadable fault)), memory)
  | (.ok _, memory) =>
    let transfer := readInto memory address (Bytes.zeros length.toNat)
    (transfer.result.map fun _ => transfer.buffer, transfer.memory)

end Memory

end GasMachine
