import Mathlib
import GasMachine.Proofs.Invocation.CacheTransparency
import GasMachine.Proofs.Machine.GasSlicing
import GasMachine.Proofs.Memory.ZonedContents

/-!
# Exits are atomic

An instruction that ends in an exit fails before it has changed anything: the
program counter, the access of pages, the contents of the memory and the
registers are those before the step.  Only the jumps that also load an immediate
have loaded it.  So a machine that stopped at a page fault or a host call is,
apart from the gas it paid, the machine before the instruction.
-/

namespace GasMachine

open AddressSpace

/-! ## Registers -/

/-- What a jump loads besides: the register and the immediate of the two
instructions that do so. -/
def Instruction.jumpLoad? (instruction : Instruction) : Option (Reg × UInt32) :=
  match instruction.opcode, instruction.operands with
  | .loadImmJump, .regImmOffset target value _ => some (target, value)
  | .loadImmJumpInd, .regRegImmImm target _ value _ => some (target, value)
  | _, _ => none

def Action.jumpLoad? : Action → Operands → Option (Reg × UInt32)
  | .loadImmediateJump, .regImmOffset target value _ => some (target, value)
  | .loadImmediateJumpIndirect, .regRegImmImm target _ value _ => some (target, value)
  | _, _ => none

theorem Instruction.jumpLoad?_eq (instruction : Instruction) :
    instruction.jumpLoad? = instruction.opcode.action.jumpLoad? instruction.operands := by
  obtain ⟨opcode, operands⟩ := instruction
  cases opcode
  case loadImmJump | loadImmJumpInd => cases operands <;> rfl
  all_goals rfl

namespace Program

theorem eq_panic_of_staticBranch {program : Program} {pc offset : UInt32} {taken : Bool}
    {reason : Exit} (hexit : program.staticBranch pc offset taken = .exit reason) :
    ∃ why, reason = .panic why := by
  rw [staticBranch] at hexit
  split at hexit
  · split at hexit <;> cases hexit
  · cases hexit
    exact ⟨_, rfl⟩

theorem eq_halt_or_panic_of_dynamicJump {program : Program} {address : UInt32} {reason : Exit}
    (hexit : program.dynamicJump address = .exit reason) :
    reason = .halt ∨ ∃ why, reason = .panic why := by
  rw [dynamicJump] at hexit
  split at hexit
  · cases hexit
    exact Or.inl rfl
  · right
    split at hexit
    · cases hexit
      exact ⟨_, rfl⟩
    · split at hexit
      · split at hexit
        · cases hexit
        · cases hexit
          exact ⟨_, rfl⟩
      · cases hexit
        exact ⟨_, rfl⟩

end Program

namespace Request

variable {program : Program} {pc : UInt32} {registers after : Registers}
variable {action : Action} {operands : Operands}

/-- A jump that loads an immediate loads it whatever becomes of the jump, and if
it ends in an exit, the machine halts or panics. -/
theorem ofAction_eq_of_jumpLoad? {target : Reg} {value : UInt32}
    (hload : action.jumpLoad? operands = some (target, value)) :
    ∃ effect,
      ofAction program pc registers action operands =
        .finish effect (registers.set target (Word.signExtend value)) ∧
      ∀ reason, effect = .exit reason → reason = .halt ∨ ∃ why, reason = .panic why := by
  rw [Action.jumpLoad?.eq_def] at hload
  split at hload
  · cases hload
    exact ⟨_, rfl, fun reason hexit => Or.inr (Program.eq_panic_of_staticBranch hexit)⟩
  · cases hload
    exact ⟨_, rfl, fun reason hexit => Program.eq_halt_or_panic_of_dynamicJump hexit⟩
  · cases hload

/-- Any other instruction that ends in an exit without asking the memory leaves
the registers alone. -/
theorem registers_of_exit {reason : Exit} (hload : action.jumpLoad? operands = none)
    (hfinish : ofAction program pc registers action operands = .finish (.exit reason) after) :
    after = registers := by
  rw [ofAction.eq_def] at hfinish
  split at hfinish
  case h_6 | h_7 => cases hload
  case h_22 | h_25 =>
    rw [assignIf] at hfinish
    split at hfinish <;> cases hfinish
  case h_1 | h_3 | h_4 | h_5 | h_16 | h_17 | h_26 => exact (finish.inj hfinish).2.symm
  all_goals cases hfinish

end Request

/-! ## Memories -/

variable {μ : Type}

/-- A memory that an operation which fails leaves unchanged, in the given sense. -/
structure Memory.FailsAtomically [Memory μ] (unchanged : μ → μ → Prop) (memory : μ) : Prop where
  refl : unchanged memory memory
  readInto : ∀ {address buffer failure},
    (Memory.readInto memory address buffer).result = .error failure →
      unchanged memory (Memory.readInto memory address buffer).memory
  write : ∀ {address bytes error}, (Memory.write memory address bytes).1 = .error error →
    unchanged memory (Memory.write memory address bytes).2
  grow : ∀ {increment error}, (Memory.grow memory increment).1 = .error error →
    unchanged memory (Memory.grow memory increment).2

namespace SparseMemory

/-- Memories that may differ in the checks they remember, and in how many they
can remember, but in nothing else. -/
structure SameButCache (left right : SparseMemory) : Prop where
  table : left.pageMap.table = right.pageMap.table
  chunks : left.chunks = right.chunks

theorem sameButCache_checkRange (memory : SparseMemory) (kind : AccessKind) (address : UInt32)
    (length : Nat) :
    memory.SameButCache
      { memory with pageMap := (memory.pageMap.checkRange kind address length).2 } := by
  obtain ⟨cache, hsound, hcheck⟩ := memory.pageMap.checkRange_eq kind address length
  rw [hcheck]
  exact ⟨rfl, rfl⟩

theorem failsAtomically (memory : SparseMemory) :
    Memory.FailsAtomically SameButCache memory where
  refl := ⟨rfl, rfl⟩
  readInto := by
    intro address buffer failure _
    have hchecked := memory.sameButCache_checkRange .read address buffer.size
    change memory.SameButCache (memory.readInto address buffer).memory
    rw [readInto]
    split <;> rename_i hcheck <;> rwa [hcheck] at hchecked
  write := by
    intro address bytes error hwrite
    have hchecked := memory.sameButCache_checkRange .write address bytes.size
    change (memory.write address bytes).1 = _ at hwrite
    change memory.SameButCache (memory.write address bytes).2
    rw [write] at hwrite ⊢
    split at hwrite <;> rename_i hcheck <;> rw [hcheck] at hchecked
    · exact hchecked
    · cases hwrite
  grow := by
    intro increment error hgrow
    change (memory.grow increment).1 = _ at hgrow
    change memory.SameButCache (memory.grow increment).2
    rw [grow] at hgrow ⊢
    split at hgrow
    · exact ⟨rfl, rfl⟩
    · cases hgrow

end SparseMemory

namespace ZonedMemory

variable {memory : ZonedMemory} {stored : Stored}

theorem sameButCache_checkRange (memory : ZonedMemory) (kind : AccessKind) (address : UInt32)
    (length : Nat) :
    memory.SameButCache
      { memory with pageMap := (memory.pageMap.checkRange kind address length).2 } := by
  obtain ⟨cache, hsound, hcheck⟩ := memory.pageMap.checkRange_eq kind address length
  rw [hcheck]
  exact sameButCache_setPageMap rfl

theorem grow_of_error {increment : UInt32} {error : MemoryError}
    (hgrow : (memory.grow increment).1 = .error error) :
    (memory.grow increment).2 = memory := by
  rw [ZonedMemory.grow] at hgrow ⊢
  by_cases hzero : increment = 0
  · rw [if_pos hzero] at hgrow
    cases hgrow
  · rw [if_neg hzero] at hgrow ⊢
    by_cases hstack : memory.stack.start.toNat <
        roundUpToPage (memory.heapEnd.toNat + increment.toNat)
    · dsimp only
      rw [if_pos hstack]
    · dsimp only at hgrow
      rw [if_neg hstack] at hgrow
      split at hgrow <;> cases hgrow

/-- A write whose range passes the check finds a zone for each of its pieces, so
only the check can fail. -/
theorem Represents.failsAtomically (hstored : memory.Represents stored) :
    Memory.FailsAtomically SameButCache memory where
  refl := ⟨rfl, fun _ => rfl, rfl⟩
  readInto := by
    intro address buffer failure _
    change memory.SameButCache (memory.readInto address buffer).memory
    rw [memory_readInto]
    exact memory.sameButCache_checkRange .read address buffer.size
  write := by
    intro address bytes error hwrite
    change (memory.write address bytes).1 = _ at hwrite
    change memory.SameButCache (memory.write address bytes).2
    rcases hstored.write_eq address bytes with ⟨fault, -, hrefused⟩ | ⟨-, after, hwritten, -⟩
    · rw [hrefused]
      exact memory.sameButCache_checkRange .write address bytes.size
    · rw [hwritten] at hwrite
      cases hwrite
  grow := by
    intro increment error hgrow
    change (memory.grow increment).1 = _ at hgrow
    change memory.SameButCache (memory.grow increment).2
    rw [grow_of_error hgrow]
    exact ⟨rfl, fun _ => rfl, rfl⟩

end ZonedMemory

/-! ## Steps -/

/-- The exits after which a host may let the machine try again: it maps the page
that was missing, or has answered the call. -/
def Exit.canRetry : Exit → Bool
  | .pageFault _ | .hostCall _ => true
  | _ => false

theorem Exit.canRetry_eq_false_of_jump {reason : Exit}
    (hreason : reason = .halt ∨ ∃ why, reason = .panic why) : reason.canRetry = false := by
  rcases hreason with rfl | ⟨why, rfl⟩ <;> rfl

namespace Machine

variable [Memory μ] {unchanged : μ → μ → Prop} {machine after : Machine μ}

section Operations

variable (hfails : Memory.FailsAtomically unchanged machine.memory)
include hfails

theorem load_of_error {address : UInt32} {width : Nat} {failure : ReadFailure}
    (hload : machine.load address width = (.error failure, after)) :
    after.registers = machine.registers ∧ unchanged machine.memory after.memory := by
  rw [load] at hload
  split at hload
  · obtain ⟨-, rfl⟩ := Prod.mk.inj hload
    exact ⟨rfl, hfails.refl⟩
  · obtain ⟨hresult, rfl⟩ := Prod.mk.inj hload
    exact ⟨rfl, hfails.readInto ((Transfer.bytes_eq_error_iff _ _).mp hresult)⟩

theorem store_of_error {address : UInt32} {bytes : ByteArray} {error : MemoryError}
    (hstore : machine.store address bytes = (.error error, after)) :
    after.registers = machine.registers ∧ unchanged machine.memory after.memory := by
  rw [store] at hstore
  split at hstore
  · obtain ⟨-, rfl⟩ := Prod.mk.inj hstore
    exact ⟨rfl, hfails.refl⟩
  · obtain ⟨hresult, rfl⟩ := Prod.mk.inj hstore
    exact ⟨rfl, hfails.write hresult⟩

/-- An instruction that ends in an exit leaves the memory and the registers as
they are, up to the immediate that some jumps load. -/
theorem serve_of_exit {program : Program} {instruction : Instruction} {reason : Exit}
    (hserve : machine.serve (machine.request program instruction) = (.exit reason, after)) :
    unchanged machine.memory after.memory ∧
      after.registers =
        (match instruction.jumpLoad? with
        | none => machine.registers
        | some (target, value) => machine.registers.set target (Word.signExtend value)) ∧
      (reason.canRetry = true → after.registers = machine.registers) := by
  have haction := instruction.jumpLoad?_eq
  cases hjump : instruction.jumpLoad? with
  | some load =>
      obtain ⟨target, value⟩ := load
      rw [hjump] at haction
      obtain ⟨effect, hrequest, hreason⟩ := Request.ofAction_eq_of_jumpLoad? haction.symm
      rw [request, hrequest, serve] at hserve
      obtain ⟨heffect, rfl⟩ := Prod.mk.inj hserve
      refine ⟨hfails.refl, rfl, fun hretry => ?_⟩
      rw [Exit.canRetry_eq_false_of_jump (hreason reason heffect)] at hretry
      cases hretry
  | none =>
      rw [hjump] at haction
      have hkept : unchanged machine.memory after.memory ∧
          after.registers = machine.registers := by
        rcases serve_exit_cases hserve with ⟨registers, hrequest, rfl⟩ |
          ⟨error, -, ⟨_, _, _, _, -, hload⟩ | ⟨_, _, _, -, hstore⟩ | ⟨_, _, memory, -, hgrow, rfl⟩⟩
        · exact ⟨hfails.refl, Request.registers_of_exit haction.symm hrequest⟩
        · exact (load_of_error hfails hload).symm
        · exact (store_of_error hfails hstore).symm
        · have hresult := congrArg Prod.fst hgrow
          have hunchanged := hfails.grow hresult
          rw [hgrow] at hunchanged
          exact ⟨hunchanged, rfl⟩
      exact ⟨hkept.1, hkept.2, fun _ => hkept.2⟩

end Operations

/-- The registers after an instruction that was paid for and ended in an exit. -/
def registersAtExit (program : Program) (machine : Machine μ) : Registers :=
  match program.instructionAt machine.pc with
  | .error _ => machine.registers
  | .ok instruction =>
    match instruction.jumpLoad? with
    | none => machine.registers
    | some (target, value) => machine.registers.set target (Word.signExtend value)

/-- What an exit leaves of a machine: the program counter, the memory, the
registers up to the immediate that some jumps load, and the gas up to the unit
that was paid.  Where the machine may try again, it is the machine before the
step once the unit is paid back. -/
structure AtomicExit (unchanged : μ → μ → Prop) (program : Program) (machine : Machine μ)
    (reason : Exit) (after : Machine μ) : Prop where
  pc : after.pc = machine.pc
  memory : unchanged machine.memory after.memory
  registers : after.registers =
    if reason = .outOfGas then machine.registers else machine.registersAtExit program
  gas : after.gas.value.toInt =
    if reason = .outOfGas then machine.gas.value.toInt else machine.gas.value.toInt - 1
  retry : reason.canRetry = true → Related unchanged machine (after.withGas machine.gas)

/-- A step that ends in an exit is atomic if the operations of the memory are. -/
theorem atomicExit_of_step (hfails : Memory.FailsAtomically unchanged machine.memory)
    {program : Program} {reason : Exit}
    (hstep : machine.step program = (.stopped (.exit reason), after)) :
    machine.AtomicExit unchanged program reason after := by
  have houtOfGas := step_outOfGas_iff program machine
  rcases machine.step_cases program with ⟨hgas, heq⟩ | ⟨hgas, error, hinstruction, heq⟩ |
    ⟨hgas, instruction, effect, served, hinstruction, hserve, heq⟩
  · rw [heq] at hstep
    obtain ⟨hreason, rfl⟩ := Prod.mk.inj hstep
    cases hreason
    exact ⟨rfl, hfails.refl, rfl, rfl, nofun⟩
  · rw [heq] at hstep
    obtain ⟨hreason, rfl⟩ := Prod.mk.inj hstep
    cases hreason
    refine ⟨rfl, hfails.refl, ?_, ?_, nofun⟩
    · rw [if_neg nofun, registersAtExit, hinstruction]
      rfl
    · rw [if_neg nofun]
      exact Gas.toInt_consume_one hgas
  · have hreason : reason ≠ .outOfGas := by
      rintro rfl
      rw [hstep, hgas] at houtOfGas
      cases houtOfGas.mp rfl
    have hpc := (machine.charge 1).serve_pc (machine.request program instruction)
    have hpaid := gas_of_step hstep (by simpa using hreason)
    rw [heq] at hstep
    cases effect with
    | advance => cases hstep
    | jump target => cases hstep
    | stop stop =>
        obtain ⟨hstop, rfl⟩ := Prod.mk.inj hstep
        cases hstop
        obtain ⟨hmemory, hregisters, hretry⟩ :=
          @serve_of_exit μ _ unchanged (machine.charge 1) served hfails program instruction
            reason hserve
        rw [hserve] at hpc
        refine ⟨hpc, hmemory, ?_, ?_, fun hcan => ?_⟩
        · rw [if_neg hreason, registersAtExit, hinstruction]
          exact hregisters
        · rw [if_neg hreason, hpaid]
          exact Gas.toInt_consume_one hgas
        · exact ⟨hpc.symm, (hretry hcan).symm, rfl, hmemory⟩

end Machine

/-- Exits are atomic, for every program and every step that ends in an exit.  On
any sparse memory, and on any zoned memory that operations lead to from one that
was laid out, the step leaves the program counter, the access of pages and the
contents of the memory as they were.  So it does with the registers, except that
the jumps which load an immediate have loaded it, and the gas is the same if it
was used up and else one unit less.  After a page fault or a host call the
machine is as before, but for that unit. -/
theorem exits_are_atomic (program : Program) :
    (∀ (machine after : Machine SparseMemory) (reason : Exit),
      machine.step program = (.stopped (.exit reason), after) →
        machine.AtomicExit SparseMemory.SameButCache program reason after) ∧
    ∀ (standard : StandardProgram) (argument : ByteArray) (capacity : Nat)
      (memory : ZonedMemory) (stored : Stored) (machine after : Machine ZonedMemory)
      (reason : Exit),
      ZonedMemory.initial? standard argument (.empty capacity) = some (.ok memory) →
      ZonedMemory.Reached memory (ZonedMemory.loaded standard argument) machine.memory stored →
      machine.step program = (.stopped (.exit reason), after) →
        machine.AtomicExit ZonedMemory.SameButCache program reason after := by
  refine ⟨fun machine after reason hstep => ?_, ?_⟩
  · exact Machine.atomicExit_of_step machine.memory.failsAtomically hstep
  · intro standard argument capacity memory stored machine after reason hinitial hreached hstep
    obtain ⟨hfits, rfl⟩ := ZonedMemory.fits_of_initial? hinitial
    have hstart : (ZonedMemory.layOut standard argument (.empty capacity)).Represents
        (ZonedMemory.loaded standard argument) :=
      hfits.represents fun _ => PageTable.get_empty _
    exact Machine.atomicExit_of_step (hreached.represents hstart).failsAtomically hstep

/-- A program that stores to its read-only data. -/
def readOnlyStore : StandardProgram where
  readOnly := [1, 2].toByteArray
  readWrite := ByteArray.empty
  heapPages := 0
  stackSize := 0
  program := .ofImage
    ⟨ByteArray.empty, 0, 0, [30, 3, 0, 0, 1, 7].toByteArray, [1].toByteArray⟩

def readOnlyStoreStart : Machine ZonedMemory :=
  ⟨0, .zero, ⟨5⟩, ZonedMemory.layOut readOnlyStore ByteArray.empty (.empty 8)⟩

theorem readOnlyStore_exits_atomically :
    ZonedMemory.initial? readOnlyStore ByteArray.empty (.empty 8) =
        some (.ok readOnlyStoreStart.memory) ∧
      ∃ after,
        readOnlyStoreStart.step readOnlyStore.program =
          (.stopped (.exit (.pageFault 0x10000)), after) ∧
        readOnlyStoreStart.AtomicExit ZonedMemory.SameButCache readOnlyStore.program
          (.pageFault 0x10000) after := by
  have hfits : ZonedMemory.Fits readOnlyStore ByteArray.empty := ⟨by decide, by decide⟩
  have hinitial : ZonedMemory.initial? readOnlyStore ByteArray.empty (.empty 8) =
      some (.ok readOnlyStoreStart.memory) := hfits.initial?_eq (.empty 8)
  have houtcome : (readOnlyStoreStart.step readOnlyStore.program).1 =
      .stopped (.exit (.pageFault 0x10000)) := by cbv
  have hstep : readOnlyStoreStart.step readOnlyStore.program =
      (.stopped (.exit (.pageFault 0x10000)),
        (readOnlyStoreStart.step readOnlyStore.program).2) := by rw [← houtcome]
  exact ⟨hinitial, _, hstep,
    (exits_are_atomic readOnlyStore.program).2 _ _ _ _ _ _ _ _ hinitial .start hstep⟩

end GasMachine
