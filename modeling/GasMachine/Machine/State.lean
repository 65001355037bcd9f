import GasMachine.Gas
import GasMachine.Machine.Exit
import GasMachine.Memory.Basic
import GasMachine.Program.Basic

/-!
# Machine states
-/

namespace GasMachine

/-- Everything that a run changes. -/
structure Machine (μ : Type) where
  pc : UInt32
  registers : Registers
  gas : Gas
  memory : μ

namespace Machine

variable {μ : Type}

def register (machine : Machine μ) (register : Reg) : UInt64 :=
  machine.registers.get register

def setRegister (machine : Machine μ) (register : Reg) (value : UInt64) : Machine μ :=
  { machine with registers := machine.registers.set register value }

def charge (machine : Machine μ) (amount : UInt64) : Machine μ :=
  { machine with gas := machine.gas.consume amount }

def skipHostCall (machine : Machine μ) (program : Program) : Machine μ :=
  { machine with pc := program.following machine.pc }

/-- Whether an address lies in the lowest zone, which instructions may not touch. -/
def isReserved (address : UInt32) : Bool :=
  address < 0x10000

variable [Memory μ]

def load (machine : Machine μ) (address : UInt32) (width : Nat) :
    Except ReadFailure ByteArray × Machine μ :=
  if isReserved address then (.error (.refused (.reserved address)), machine)
  else
    let transfer := Memory.readInto machine.memory address (Bytes.zeros width)
    (transfer.result.map fun _ => transfer.buffer, { machine with memory := transfer.memory })

def store (machine : Machine μ) (address : UInt32) (bytes : ByteArray) :
    Except MemoryError Unit × Machine μ :=
  if isReserved address then (.error (.reserved address), machine)
  else
    let (result, memory) := Memory.write machine.memory address bytes
    (result, { machine with memory := memory })

end Machine

end GasMachine
