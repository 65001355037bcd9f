import GasMachine.Machine.Action
import GasMachine.Machine.State

/-!
# One step of a machine

An instruction is paid for before it runs, so one that fails has been paid for all the same.  A
step that ends in an exit leaves the program counter where it was, and the registers too, except
that the jumps which also load an immediate have loaded it.
-/

namespace GasMachine

/-- Where control goes after an instruction. -/
inductive Effect where
  /-- To the next instruction. -/
  | advance
  | jump (target : UInt32)
  | stop (stop : Stop)
  deriving DecidableEq

namespace Effect

def exit (reason : Exit) : Effect := .stop (.exit reason)

def panic (reason : PanicReason) : Effect := .exit (.panic reason)

end Effect

namespace Program

/-- Where a dynamic jump to `address` leads: halting, or the block that the table gives. -/
def dynamicJump (program : Program) (address : UInt32) : Effect :=
  if address = AddressSpace.haltAddress then .exit .halt
  else if address = 0 ∨ program.image.entryCount * AddressSpace.jumpAlignment < address.toNat
      ∨ address.toNat % AddressSpace.jumpAlignment ≠ 0 then
    .panic .invalidDynamicJump
  else
    match program.jumpTarget? (address.toNat / AddressSpace.jumpAlignment - 1) with
    | some target =>
      if program.isBlockStart target then .jump target else .panic .invalidDynamicJump
    | none => .panic .invalidDynamicJump

/-- Where a branch from `pc` leads.  Its target has to start a block even if it is not taken. -/
def staticBranch (program : Program) (pc offset : UInt32) (taken : Bool) : Effect :=
  if program.isBlockStart (pc + offset) then
    if taken then .jump (pc + offset) else .advance
  else .panic .invalidBranch

end Program

/-- The address that a register and an immediate give. -/
def Registers.indirect (registers : Registers) (base : Reg) (offset : UInt32) : UInt32 :=
  (registers.get base).toUInt32 + offset

/-- What an instruction comes down to once its operands are known. -/
inductive Request where
  /-- The memory is not asked: the registers change, and control goes on. -/
  | finish (effect : Effect) (registers : Registers)
  /-- Load a word into a register. -/
  | load (target : Reg) (address : UInt32) (width : Nat) (signed : Bool)
  /-- Store the low bytes of a word. -/
  | store (address : UInt32) (value : UInt64) (width : Nat)
  /-- Grow the heap, and note in a register where the new space starts. -/
  | grow (target : Reg) (increment : UInt32)

namespace Request

def assign (registers : Registers) (register : Reg) (value : UInt64) : Request :=
  .finish .advance (registers.set register value)

def assignIf (condition : Prop) [Decidable condition] (registers : Registers) (register : Reg)
    (value : UInt64) : Request :=
  if condition then .assign registers register value else .finish .advance registers

/-- What an action on operands of the form that it takes comes down to at `pc`.  Operands of any
other form are no instruction. -/
def ofAction (program : Program) (pc : UInt32) (registers : Registers) :
    Action → Operands → Request
  | .trap, _ => .finish (.panic .trap) registers
  | .proceed, _ => .finish .advance registers
  | .callHost, .imm index => .finish (.exit (.hostCall index)) registers
  | .jump, .offset offset => .finish (program.staticBranch pc offset true) registers
  | .jumpIndirect, .regImm base offset =>
    .finish (program.dynamicJump (registers.indirect base offset)) registers
  | .loadImmediateJump, .regImmOffset target value offset =>
    .finish (program.staticBranch pc offset true) (registers.set target (Word.signExtend value))
  | .loadImmediateJumpIndirect, .regRegImmImm target base value offset =>
    .finish (program.dynamicJump (registers.indirect base offset))
      (registers.set target (Word.signExtend value))
  | .loadWide, .regWide target value => .assign registers target value
  | .loadImmediate, .regImm target value => .assign registers target (Word.signExtend value)
  | .storeImmediate width, .immImm address value => .store address (Word.signExtend value) width
  | .storeImmediateIndirect width, .regImmImm base offset value =>
    .store (registers.indirect base offset) (Word.signExtend value) width
  | .load width signed, .regImm target address => .load target address width signed
  | .store width, .regImm source address => .store address (registers.get source) width
  | .loadIndirect width signed, .regRegImm target base offset =>
    .load target (registers.indirect base offset) width signed
  | .storeIndirect width, .regRegImm source base offset =>
    .store (registers.indirect base offset) (registers.get source) width
  | .branchImmediate holds, .regImmOffset left right offset =>
    .finish
      (program.staticBranch pc offset (holds (registers.get left) (Word.signExtend right)))
      registers
  | .branch holds, .regRegOffset left right offset =>
    .finish
      (program.staticBranch pc offset (holds (registers.get left) (registers.get right)))
      registers
  | .unary compute, .regReg target source =>
    .assign registers target (compute (registers.get source))
  | .growHeap, .regReg target source => .grow target (registers.get source).toUInt32
  | .immediate32 compute, .regRegImm target source value =>
    .assign registers target
      (Word.signExtend (compute (Word.low (registers.get source)) value))
  | .immediate64 compute, .regRegImm target source value =>
    .assign registers target (compute (registers.get source) (Word.signExtend value))
  | .moveImmediateIf zero, .regRegImm target condition value =>
    .assignIf ((registers.get condition == 0) = zero) registers target (Word.signExtend value)
  | .binary32 compute, .regRegReg left right target =>
    .assign registers target
      (Word.signExtend
        (compute (Word.low (registers.get left)) (Word.low (registers.get right))))
  | .binary64 compute, .regRegReg left right target =>
    .assign registers target (compute (registers.get left) (registers.get right))
  | .moveIf zero, .regRegReg source condition target =>
    .assignIf ((registers.get condition == 0) = zero) registers target (registers.get source)
  | _, _ => .finish (.panic .invalidInstruction) registers

end Request

namespace Machine

variable {μ : Type}

/-- The word that loaded bytes stand for. -/
def wordOf (bytes : ByteArray) (width : Nat) (signed : Bool) : UInt64 :=
  let value := LittleEndian.decode bytes.data.toList
  if signed && width != 8 then Word.signExtendLow (8 * UInt64.ofNat width) value else value

variable [Memory μ]

def loadWord (machine : Machine μ) (target : Reg) (address : UInt32) (width : Nat)
    (signed : Bool) : Effect × Machine μ :=
  match machine.load address width with
  | (.ok bytes, machine) => (.advance, machine.setRegister target (wordOf bytes width signed))
  | (.error (.refused error), machine) => (.exit (.ofMemoryError error), machine)
  | (.error .aborted, machine) => (.stop .aborted, machine)

def storeWord (machine : Machine μ) (address : UInt32) (value : UInt64) (width : Nat) :
    Effect × Machine μ :=
  match machine.store address (LittleEndian.encode value width).toByteArray with
  | (.ok _, machine) => (.advance, machine)
  | (.error error, machine) => (.exit (.ofMemoryError error), machine)

def growHeap (machine : Machine μ) (target : Reg) (increment : UInt32) : Effect × Machine μ :=
  match Memory.grow machine.memory increment with
  | (.ok address, memory) =>
    (.advance, { machine with memory := memory }.setRegister target address.toUInt64)
  | (.error error, memory) => (.exit (.ofMemoryError error), { machine with memory := memory })

def serve (machine : Machine μ) : Request → Effect × Machine μ
  | .finish effect registers => (effect, { machine with registers := registers })
  | .load target address width signed => machine.loadWord target address width signed
  | .store address value width => machine.storeWord address value width
  | .grow target increment => machine.growHeap target increment

def request (program : Program) (machine : Machine μ) (instruction : Instruction) : Request :=
  .ofAction program machine.pc machine.registers instruction.opcode.action instruction.operands

/-- One step: pay, fetch, carry out, move the program counter. -/
def step (program : Program) (machine : Machine μ) : Outcome × Machine μ :=
  if machine.gas.exhausted then (.stopped (.exit .outOfGas), machine)
  else
    match program.instructionAt machine.pc with
    | .error _ => (.stopped (.exit (.panic .invalidInstruction)), machine.charge 1)
    | .ok instruction =>
      let pc := machine.pc
      match (machine.charge instruction.opcode.gasCost).serve
          (machine.request program instruction) with
      | (.advance, machine) => (.running, { machine with pc := program.following pc })
      | (.jump target, machine) => (.running, { machine with pc := target })
      | (.stop stop, machine) => (.stopped stop, machine)

end Machine

end GasMachine
