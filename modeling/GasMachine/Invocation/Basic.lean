import GasMachine.Invocation.Settings
import GasMachine.Machine.Run
import GasMachine.Memory.Zoned

/-!
# Invocations

An invocation loads a standard program with an argument, runs it, and reads its output where the
registers say it is.
-/

namespace GasMachine

inductive LoadError where
  | program (error : ProgramError)
  | memory (error : MemoryError)
  deriving DecidableEq, Repr

namespace LoadError

/-- The text of what lies behind the error. -/
def cause : LoadError → String
  | program error => error.message
  | memory error => error.message

def message (error : LoadError) : String :=
  match error with
  | program _ => "invalid program blob: " ++ error.cause
  | memory _ => "invalid initial memory: " ++ error.cause

end LoadError

structure Invocation where
  exit : Exit
  gas : Gas
  /-- The output of a program that halted, if it can be read. -/
  output : Option ByteArray
  registers : Registers

inductive Conclusion where
  | finished (invocation : Invocation)
  /-- The host stopped, over the memory to load or with the machine. -/
  | aborted

namespace Invocation

/-- The memory that a standard program starts from under the given settings, unless the host stops
over it. -/
def initialMemory? (settings : Settings) (standard : StandardProgram) (argument : ByteArray) :
    Option (Except MemoryError ZonedMemory) :=
  (PageMap.allocate? settings.cacheCapacity).bind (ZonedMemory.initial? standard argument)

def ready (settings : Settings) (argument : ByteArray) (memory : ZonedMemory) :
    Machine ZonedMemory :=
  ⟨settings.pc, .standard (UInt32.ofNat argument.size), .ofBudget settings.gas, memory⟩

/-- The program in a blob, and a machine that is ready to run it, unless the host stops over them.
-/
def load? (settings : Settings) (blob argument : ByteArray) :
    Option (Except LoadError (Program × Machine ZonedMemory)) :=
  match StandardProgram.parse blob with
  | .error error => some (.error (.program error))
  | .ok standard =>
    match initialMemory? settings standard argument with
    | none => none
    | some (.error error) => some (.error (.memory error))
    | some (.ok memory) => some (.ok (standard.program, ready settings argument memory))

variable {μ : Type} [Memory μ]

/-- The output of a machine that halted: the bytes that its data registers give the place and size
of, or nothing where they may not be read.  The read itself may stop the host. -/
def readOutput (machine : Machine μ) : Except Unit (Option ByteArray) :=
  if machine.register Reg.dataPointer < 0x100000000 then
    match (Memory.read machine.memory (machine.register Reg.dataPointer).toUInt32
        (machine.register Reg.dataSize)).1 with
    | .ok bytes => .ok (some bytes)
    | .error (.refused _) => .ok none
    | .error .aborted => .error ()
  else .ok none

def conclude (stop : Stop) (machine : Machine μ) : Conclusion :=
  match stop with
  | .aborted => .aborted
  | .exit .halt =>
    match readOutput machine with
    | .ok output => .finished ⟨.halt, machine.gas, output, machine.registers⟩
    | .error _ => .aborted
  | .exit exit => .finished ⟨exit, machine.gas, none, machine.registers⟩

end Invocation

/-- Loads and runs a standard program.  A host call ends the run. -/
def invoke (settings : Settings) (blob argument : ByteArray) : Except LoadError Conclusion :=
  match Invocation.load? settings blob argument with
  | none => .ok .aborted
  | some (.error error) => .error error
  | some (.ok (program, machine)) =>
    let (stop, machine) := machine.run program
    .ok (Invocation.conclude stop machine)

/-- Loads and runs a standard program whose calls go to a host.  There is no conclusion if the run
takes more than `fuel` steps. -/
def invokeWith {σ : Type} (settings : Settings) (blob argument : ByteArray)
    (host : Host σ ZonedMemory) (fuel : Nat) (state : σ) :
    Except LoadError (Option (Conclusion × σ)) :=
  match Invocation.load? settings blob argument with
  | none => .ok (some (.aborted, state))
  | some (.error error) => .error error
  | some (.ok (program, machine)) =>
    .ok ((machine.runWith program host fuel state).map fun (stop, state, machine) =>
      (Invocation.conclude stop machine, state))

end GasMachine
