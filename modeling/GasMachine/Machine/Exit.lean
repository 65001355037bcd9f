import GasMachine.Memory.Error

/-!
# How a machine stops
-/

namespace GasMachine

inductive PanicReason where
  /-- A trap, a fetch past the end of the code, or an illegal memory access. -/
  | trap
  /-- The byte at the program counter is not an assigned opcode. -/
  | invalidInstruction
  /-- A dynamic jump led nowhere. -/
  | invalidDynamicJump
  /-- The target of a static branch does not start a basic block. -/
  | invalidBranch
  deriving DecidableEq, Repr

def PanicReason.message : PanicReason → String
  | trap => "trap"
  | invalidInstruction => "invalid instruction index"
  | invalidDynamicJump => "invalid dynamic jump"
  | invalidBranch => "invalid branch"

inductive Exit where
  | halt
  | panic (reason : PanicReason)
  | outOfGas
  /-- The host is called; the program counter stays on the call. -/
  | hostCall (index : UInt32)
  /-- A page was not accessible; the program counter stays on the access. -/
  | pageFault (address : UInt32)
  deriving DecidableEq, Repr

namespace Exit

def message : Exit → String
  | halt => "halt"
  | panic reason => "panic (" ++ reason.message ++ ")"
  | outOfGas => "out of gas"
  | hostCall index => "host call " ++ toString index.toNat
  | pageFault address => "page fault at " ++ Hex.address address

/-- The exit that a refused memory access brings about: a page fault where mapping a page would
help, and a panic elsewhere. -/
def ofMemoryError (error : MemoryError) : Exit :=
  match error.faultAddress with
  | some address => .pageFault address
  | none => .panic .trap

end Exit

/-- The end of a run: the machine exited, or the host stopped with it. -/
inductive Stop where
  | exit (reason : Exit)
  | aborted
  deriving DecidableEq, Repr

inductive Outcome where
  | running
  | stopped (stop : Stop)
  deriving DecidableEq, Repr

end GasMachine
