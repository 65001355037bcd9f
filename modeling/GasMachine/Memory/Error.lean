import GasMachine.Bytes.Hex

/-!
# Memory errors
-/

namespace GasMachine

inductive MemoryError where
  /-- The byte at `address` may not be read. -/
  | notReadable (address : UInt32)
  /-- The byte at `address` may not be written. -/
  | notWritable (address : UInt32)
  /-- Instructions may not touch the lowest zone. -/
  | reserved (address : UInt32)
  /-- The heap cannot grow from `heapEnd` as asked. -/
  | outOfMemory (heapEnd : UInt32)
  /-- The argument does not fit its zone. -/
  | argumentTooLarge (size : Nat)
  deriving DecidableEq, Repr

namespace MemoryError

def message : MemoryError → String
  | notReadable address => "address " ++ Hex.address address ++ " is not readable"
  | notWritable address => "address " ++ Hex.address address ++ " is not writable"
  | reserved address => "address " ++ Hex.address address ++ " is in the reserved zone"
  | outOfMemory heapEnd => "out of memory growing the heap from " ++ Hex.address heapEnd
  | argumentTooLarge size =>
    "argument of " ++ toString size ++ " bytes exceeds the argument zone"

/-- The address at fault, where mapping its page would let the request succeed. -/
def faultAddress : MemoryError → Option UInt32
  | notReadable address => some address
  | notWritable address => some address
  | _ => none

end MemoryError

inductive ReadFailure where
  | refused (error : MemoryError)
  /-- The memory looked for stored bytes beyond those it has, and the host stops with it. -/
  | aborted
  deriving DecidableEq, Repr

end GasMachine
