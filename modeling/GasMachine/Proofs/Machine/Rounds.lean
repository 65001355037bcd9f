import GasMachine.Machine.Run

/-!
# Steps and rounds

What a step does is said here once.  A step that pays for an instruction serves
one request and then moves the program counter, and serving a request changes
neither the program counter nor the gas.  A run with a host is a sequence of
rounds, each of them one step and, where that step calls the host, its service.
-/

namespace GasMachine

/-- The actions that may send control elsewhere than to the next instruction. -/
def Action.mayJump : Action → Bool
  | .jump | .jumpIndirect | .loadImmediateJump | .loadImmediateJumpIndirect
  | .branchImmediate _ | .branch _ => true
  | _ => false

/-- What an action can do to control without the memory: go on, panic, call the
host, and for some actions halt or jump to the start of a block. -/
inductive Action.Leads (action : Action) (program : Program) : Effect → Prop where
  | advance : Leads action program .advance
  | panic (reason : PanicReason) : Leads action program (.panic reason)
  | call (index : UInt32) : Leads action program (.exit (.hostCall index))
  | halt (hmay : action.mayJump = true) : Leads action program (.exit .halt)
  | jump {target : UInt32} (hmay : action.mayJump = true)
      (hstart : program.isBlockStart target = true) : Leads action program (.jump target)

namespace Action.Leads

variable {action : Action} {program : Program}

theorem staticBranch (hmay : action.mayJump = true) (pc offset : UInt32) (taken : Bool) :
    action.Leads program (program.staticBranch pc offset taken) := by
  unfold Program.staticBranch
  split
  · next hstart =>
      split
      · exact .jump hmay hstart
      · exact .advance
  · exact .panic _

theorem dynamicJump (hmay : action.mayJump = true) (address : UInt32) :
    action.Leads program (program.dynamicJump address) := by
  unfold Program.dynamicJump
  split
  · exact .halt hmay
  · split
    · exact .panic _
    · split
      · split
        · next hstart => exact .jump hmay hstart
        · exact .panic _
      · exact .panic _

theorem of_jump {target : UInt32} (hleads : action.Leads program (.jump target)) :
    action.mayJump = true ∧ program.isBlockStart target = true := by
  cases hleads with
  | jump hmay hstart => exact ⟨hmay, hstart⟩

theorem ne_aborted {effect : Effect} (hleads : action.Leads program effect) :
    effect ≠ .stop .aborted := by
  cases hleads <;> nofun

end Action.Leads

/-- What an instruction that does not ask the memory does to control. -/
theorem Request.leads_of_ofAction {program : Program} {pc : UInt32} {effect : Effect}
    {registers after : Registers} {action : Action} {operands : Operands}
    (hfinish : ofAction program pc registers action operands = .finish effect after) :
    action.Leads program effect := by
  unfold ofAction at hfinish
  split at hfinish
  case h_4 | h_6 | h_16 | h_17 =>
    obtain ⟨rfl, -⟩ := Request.finish.inj hfinish
    exact .staticBranch rfl _ _ _
  case h_5 | h_7 =>
    obtain ⟨rfl, -⟩ := Request.finish.inj hfinish
    exact .dynamicJump rfl _
  case h_22 | h_25 =>
    unfold assignIf at hfinish
    split at hfinish <;> cases hfinish <;> exact .advance
  all_goals cases hfinish <;> constructor

def Action.width? : Action → Option Nat
  | .storeImmediate width | .storeImmediateIndirect width | .load width _ | .store width
  | .loadIndirect width _ | .storeIndirect width => some width
  | _ => none

theorem Opcode.width_mem {opcode : Opcode} {width : Nat}
    (hwidth : opcode.action.width? = some width) : width ∈ [1, 2, 4, 8] := by
  cases opcode <;> cases hwidth <;> decide

/-- What a request does with which bytes, if it loads or stores. -/
def Request.range? : Request → Option (AccessKind × UInt32 × Nat)
  | .load _ address width _ => some (.read, address, width)
  | .store address _ width => some (.write, address, width)
  | _ => none

/-- Instructions load and store one, two, four or eight bytes. -/
theorem Request.width_mem {program : Program} {pc : UInt32} {registers : Registers}
    {opcode : Opcode} {operands : Operands} {kind : AccessKind} {address : UInt32} {width : Nat}
    (hrange : (ofAction program pc registers opcode.action operands).range? =
      some (kind, address, width)) : width ∈ [1, 2, 4, 8] := by
  apply @Opcode.width_mem opcode
  generalize opcode.action = action at hrange ⊢
  rw [ofAction.eq_def] at hrange
  split at hrange
  case h_22 | h_25 =>
    rw [assignIf] at hrange
    split at hrange <;> cases hrange
  all_goals cases hrange
  all_goals rfl

/-- Only the instruction for it asks for a larger heap. -/
theorem Request.opcode_eq_sbrk {program : Program} {pc : UInt32} {registers : Registers}
    {opcode : Opcode} {operands : Operands} {target : Reg} {increment : UInt32}
    (hrequest : ofAction program pc registers opcode.action operands = .grow target increment) :
    opcode = .sbrk := by
  have haction : opcode.action = .growHeap := by
    generalize opcode.action = action at hrequest
    rw [ofAction.eq_def] at hrequest
    split at hrequest
    case h_19 => rfl
    case h_22 | h_25 =>
      rw [assignIf] at hrequest
      split at hrequest <;> cases hrequest
    all_goals cases hrequest
  cases opcode
  case sbrk => rfl
  all_goals cases haction

namespace Machine

variable {σ μ : Type}

/-- The end of a step whose instruction stood at `pc`. -/
def settle (program : Program) (pc : UInt32) : Effect × Machine μ → Outcome × Machine μ
  | (.advance, machine) => (.running, { machine with pc := program.following pc })
  | (.jump target, machine) => (.running, { machine with pc := target })
  | (.stop stop, machine) => (.stopped stop, machine)

theorem memory_settle (program : Program) (pc : UInt32)
    (served : Effect × Machine μ) : (settle program pc served).2.memory = served.2.memory := by
  rcases served with ⟨effect, machine⟩
  cases effect <;> rfl

theorem width_mem {program : Program} {machine : Machine μ} {instruction : Instruction}
    {kind : AccessKind} {address : UInt32} {width : Nat}
    (hrange : (machine.request program instruction).range? = some (kind, address, width)) :
    1 ≤ width ∧ width ≤ 8 := by
  have hmem := Request.width_mem hrange
  simp only [List.mem_cons, List.not_mem_nil, or_false] at hmem
  omega

variable [Memory μ]

theorem step_of_exhausted (program : Program) {machine : Machine μ}
    (hgas : machine.gas.exhausted = true) :
    machine.step program = (.stopped (.exit .outOfGas), machine) := by
  rw [step, if_pos hgas]

theorem step_of_error {program : Program} {machine : Machine μ} {error : DecodeError}
    (hgas : machine.gas.exhausted = false)
    (hinstruction : program.instructionAt machine.pc = .error error) :
    machine.step program =
      (.stopped (.exit (.panic .invalidInstruction)), machine.charge 1) := by
  rw [step, if_neg (by simp [hgas]), hinstruction]

theorem step_of_instruction {program : Program} {machine : Machine μ}
    {instruction : Instruction} (hgas : machine.gas.exhausted = false)
    (hinstruction : program.instructionAt machine.pc = .ok instruction) :
    machine.step program =
      settle program machine.pc
        ((machine.charge 1).serve (machine.request program instruction)) := by
  rw [step, if_neg (by simp [hgas]), hinstruction]
  simp only [Opcode.gasCost]
  generalize (machine.charge 1).serve (machine.request program instruction) = served
  rcases served with ⟨effect, after⟩
  cases effect <;> rfl

/-- What a step can do: find no gas, pay for a byte that is no opcode, or pay for
an instruction and serve its request. -/
theorem step_cases (program : Program) (machine : Machine μ) :
    (machine.gas.exhausted = true ∧
        machine.step program = (.stopped (.exit .outOfGas), machine)) ∨
      (machine.gas.exhausted = false ∧ ∃ error,
        program.instructionAt machine.pc = .error error ∧
        machine.step program =
          (.stopped (.exit (.panic .invalidInstruction)), machine.charge 1)) ∨
      (machine.gas.exhausted = false ∧ ∃ instruction effect served,
        program.instructionAt machine.pc = .ok instruction ∧
        (machine.charge 1).serve (machine.request program instruction) = (effect, served) ∧
        machine.step program = settle program machine.pc (effect, served)) := by
  cases hgas : machine.gas.exhausted with
  | true => exact Or.inl ⟨rfl, step_of_exhausted program hgas⟩
  | false =>
      cases hinstruction : program.instructionAt machine.pc with
      | error error => exact Or.inr (Or.inl ⟨rfl, error, rfl, step_of_error hgas hinstruction⟩)
      | ok instruction =>
          refine Or.inr (Or.inr ⟨rfl, instruction, _, _, rfl, rfl, ?_⟩)
          exact step_of_instruction hgas hinstruction

/-- A load changes at most the memory. -/
theorem load_frame (machine : Machine μ) (address : UInt32) (width : Nat) :
    ∃ memory, (machine.load address width).2 = { machine with memory := memory } := by
  unfold load
  split
  · exact ⟨machine.memory, rfl⟩
  · exact ⟨_, rfl⟩

/-- A store changes at most the memory. -/
theorem store_frame (machine : Machine μ) (address : UInt32) (bytes : ByteArray) :
    ∃ memory, (machine.store address bytes).2 = { machine with memory := memory } := by
  unfold store
  split
  · exact ⟨machine.memory, rfl⟩
  · exact ⟨_, rfl⟩

/-- Serving a request changes at most the registers and the memory. -/
theorem serve_frame (machine : Machine μ) (request : Request) :
    ∃ registers memory, (machine.serve request).2 =
      { machine with registers := registers, memory := memory } := by
  cases request with
  | finish effect registers => exact ⟨registers, machine.memory, rfl⟩
  | load target address width signed =>
      obtain ⟨memory, hframe⟩ := machine.load_frame address width
      simp only [serve, loadWord]
      split <;> rename_i hload <;> rw [hload] at hframe <;> obtain rfl := hframe
      · exact ⟨_, memory, rfl⟩
      · exact ⟨machine.registers, memory, rfl⟩
      · exact ⟨machine.registers, memory, rfl⟩
  | store address value width =>
      obtain ⟨memory, hframe⟩ :=
        machine.store_frame address (LittleEndian.encode value width).toByteArray
      simp only [serve, storeWord]
      split <;> rename_i hstore <;> rw [hstore] at hframe <;> obtain rfl := hframe
      · exact ⟨machine.registers, memory, rfl⟩
      · exact ⟨machine.registers, memory, rfl⟩
  | grow target increment =>
      simp only [serve, growHeap]
      split
      · exact ⟨_, _, rfl⟩
      · exact ⟨machine.registers, _, rfl⟩

theorem serve_pc (machine : Machine μ) (request : Request) :
    (machine.serve request).2.pc = machine.pc := by
  obtain ⟨registers, memory, hframe⟩ := machine.serve_frame request
  rw [hframe]

theorem memory_loadWord (machine : Machine μ) (target : Reg)
    (address : UInt32) (width : Nat) (signed : Bool) :
    (machine.loadWord target address width signed).2.memory =
      (machine.load address width).2.memory := by
  unfold loadWord
  split <;> rename_i hload <;> rw [hload]
  rfl

theorem memory_storeWord (machine : Machine μ) (address : UInt32)
    (value : UInt64) (width : Nat) :
    (machine.storeWord address value width).2.memory =
      (machine.store address (LittleEndian.encode value width).toByteArray).2.memory := by
  unfold storeWord
  split <;> rename_i hstore <;> rw [hstore]

theorem loadWord_of_refused {machine : Machine μ} {address : UInt32} {width : Nat}
    {error : MemoryError} (hload : (machine.load address width).1 = .error (.refused error))
    (target : Reg) (signed : Bool) :
    (machine.loadWord target address width signed).1 = .exit (.ofMemoryError error) := by
  rw [loadWord]
  split <;> rename_i hresult <;> rw [hresult] at hload <;> cases hload
  rfl

theorem storeWord_of_error {machine : Machine μ} {address : UInt32} {value : UInt64}
    {width : Nat} {error : MemoryError}
    (hstore : (machine.store address (LittleEndian.encode value width).toByteArray).1 =
      .error error) :
    (machine.storeWord address value width).1 = .exit (.ofMemoryError error) := by
  rw [storeWord]
  split <;> rename_i hresult <;> rw [hresult] at hstore <;> cases hstore
  rfl

theorem memory_growHeap (machine : Machine μ) (target : Reg)
    (increment : UInt32) :
    (machine.growHeap target increment).2.memory =
      (Memory.grow machine.memory increment).2 := by
  unfold growHeap
  split <;> rename_i hgrow <;> rw [hgrow]
  rfl

/-- Serving a request is at most one operation on the memory. -/
theorem memory_serve_cases (machine : Machine μ) (request : Request) :
    (machine.serve request).2.memory = machine.memory ∨
      (∃ address buffer, (machine.serve request).2.memory =
        (Memory.readInto machine.memory address buffer).memory) ∨
      (∃ address bytes, (machine.serve request).2.memory =
        (Memory.write machine.memory address bytes).2) ∨
      ∃ target increment, request = .grow target increment ∧
        (machine.serve request).2.memory = (Memory.grow machine.memory increment).2 := by
  cases request with
  | finish effect registers => exact Or.inl rfl
  | load target address width signed =>
      rw [serve, memory_loadWord, load]
      split
      · exact Or.inl rfl
      · exact Or.inr (Or.inl ⟨address, Bytes.zeros width, rfl⟩)
  | store address value width =>
      rw [serve, memory_storeWord, store]
      split
      · exact Or.inl rfl
      · exact Or.inr (Or.inr (Or.inl ⟨address, _, rfl⟩))
  | grow target increment =>
      rw [serve, memory_growHeap]
      exact Or.inr (Or.inr (Or.inr ⟨target, increment, rfl, rfl⟩))

/-- The step of a machine pays for the instruction that grows the heap. -/
def GrowsHeap (program : Program) (machine : Machine μ) : Prop :=
  machine.gas.exhausted = false ∧
    ∃ instruction, program.instructionAt machine.pc = .ok instruction ∧
      instruction.opcode = .sbrk

instance (program : Program) (machine : Machine μ) : Decidable (machine.GrowsHeap program) :=
  decidable_of_iff
    (machine.gas.exhausted = false ∧
      (program.instructionAt machine.pc).toOption.map Instruction.opcode = some .sbrk) <| by
    rw [GrowsHeap]
    cases program.instructionAt machine.pc <;> simp [Except.toOption]

/-- A step is at most one operation on the memory, and only the instruction for it
grows the heap. -/
theorem memory_step_cases (program : Program) (machine : Machine μ) :
    (machine.step program).2.memory = machine.memory ∨
      (∃ address buffer, (machine.step program).2.memory =
        (Memory.readInto machine.memory address buffer).memory) ∨
      (∃ address bytes, (machine.step program).2.memory =
        (Memory.write machine.memory address bytes).2) ∨
      machine.GrowsHeap program ∧ ∃ increment,
        (machine.step program).2.memory = (Memory.grow machine.memory increment).2 := by
  rcases machine.step_cases program with ⟨-, hstep⟩ | ⟨-, error, -, hstep⟩ |
    ⟨hgas, instruction, effect, served, hinstruction, hserve, hstep⟩
  · rw [hstep]
    exact Or.inl rfl
  · rw [hstep]
    exact Or.inl rfl
  · have hcases := (machine.charge 1).memory_serve_cases (machine.request program instruction)
    rw [hserve] at hcases
    rw [hstep, memory_settle]
    rcases hcases with hsame | hread | hwrite | ⟨target, increment, hrequest, hgrow⟩
    · exact Or.inl hsame
    · exact Or.inr (Or.inl hread)
    · exact Or.inr (Or.inr (Or.inl hwrite))
    · exact Or.inr (Or.inr (Or.inr ⟨⟨hgas, instruction, hinstruction,
        Request.opcode_eq_sbrk hrequest⟩, increment, hgrow⟩))

/-- Only requests that leave the memory alone jump. -/
theorem eq_finish_of_serve_jump {machine : Machine μ} {request : Request} {target : UInt32}
    (hjump : (machine.serve request).1 = .jump target) :
    ∃ registers, request = .finish (.jump target) registers := by
  cases request with
  | finish effect registers =>
      obtain rfl : effect = .jump target := hjump
      exact ⟨registers, rfl⟩
  | load address width signed =>
      simp only [serve, loadWord] at hjump
      split at hjump <;> cases hjump
  | store address value width =>
      simp only [serve, storeWord] at hjump
      split at hjump <;> cases hjump
  | grow target increment =>
      simp only [serve, growHeap] at hjump
      split at hjump <;> cases hjump

inductive Round (σ μ : Type) where
  | continues (state : σ) (machine : Machine μ)
  | ends (stop : Stop) (state : σ) (machine : Machine μ)

def Round.machine : Round σ μ → Machine μ
  | .continues _ machine => machine
  | .ends _ _ machine => machine

/-- One step and, where it calls the host, the service of the call. -/
def round (program : Program) (host : Host σ μ) (state : σ) (machine : Machine μ) :
    Round σ μ :=
  match machine.step program with
  | (.running, machine) => .continues state machine
  | (.stopped (.exit (.hostCall index)), machine) =>
    match host index state machine with
    | (.resume, state, machine) => .continues state (machine.skipHostCall program)
    | (.stop stop, state, machine) => .ends stop state machine
  | (.stopped stop, machine) => .ends stop state machine

theorem runWith_succ (program : Program) (host : Host σ μ) (fuel : Nat) (state : σ)
    (machine : Machine μ) :
    runWith program host (fuel + 1) state machine =
      match round program host state machine with
      | .continues state machine => runWith program host fuel state machine
      | .ends stop state machine => some (stop, state, machine) := by
  rw [runWith, round]
  rcases machine.step program with ⟨outcome, after⟩
  rcases outcome with _ | stop
  · rfl
  · rcases stop with reason | _
    · cases reason with
      | hostCall index =>
          dsimp only
          rcases host index state after with ⟨verdict, served, resumed⟩
          cases verdict <;> rfl
      | halt => rfl
      | panic reason => rfl
      | outOfGas => rfl
      | pageFault address => rfl
    · rfl

/-- The machines on which a run of at most `fuel` rounds takes a step, in order. -/
def visited (program : Program) (host : Host σ μ) :
    (fuel : Nat) → σ → Machine μ → List (Machine μ)
  | 0, _, _ => []
  | fuel + 1, state, machine =>
    machine ::
      match round program host state machine with
      | .continues state machine => visited program host fuel state machine
      | .ends _ _ _ => []

/-- What holds at the start of a run, and after each round that goes on, holds
wherever the run takes a step. -/
theorem visited_induction {program : Program} {host : Host σ μ}
    {holds : Machine μ → Prop}
    (hround : ∀ state machine after afterMachine, holds machine →
      round program host state machine = .continues after afterMachine →
        holds afterMachine)
    (fuel : Nat) (state : σ) {machine : Machine μ} (hstart : holds machine) :
    ∀ later ∈ visited program host fuel state machine, holds later := by
  induction fuel generalizing state machine with
  | zero => exact fun _ hmem => absurd hmem List.not_mem_nil
  | succ fuel ih =>
      intro later hmem
      rcases List.mem_cons.mp hmem with rfl | hrest
      · exact hstart
      · cases hnext : round program host state machine with
        | continues after afterMachine =>
            rw [hnext] at hrest
            exact ih after (hround _ _ _ _ hstart hnext) later hrest
        | ends stop after afterMachine =>
            rw [hnext] at hrest
            exact absurd hrest List.not_mem_nil

/-- What holds at the start of a run and after each round holds at its end. -/
theorem runWith_induction {program : Program} {host : Host σ μ} {holds : Machine μ → Prop}
    (hround : ∀ state machine, holds machine →
      holds (round program host state machine).machine)
    (fuel : Nat) (state : σ) {machine : Machine μ} (hstart : holds machine) :
    ∀ stop after final, runWith program host fuel state machine = some (stop, after, final) →
      holds final := by
  induction fuel generalizing state machine with
  | zero => exact fun _ _ _ hrun => nomatch hrun
  | succ fuel ih =>
      intro stop after final hrun
      have hnext := hround state machine hstart
      rw [runWith_succ] at hrun
      split at hrun
      · next hcontinues =>
          rw [hcontinues] at hnext
          exact ih _ hnext _ _ _ hrun
      · next hends =>
          rw [hends] at hnext
          obtain ⟨-, -, rfl⟩ : _ ∧ _ ∧ _ := by simpa using hrun
          exact hnext

end Machine

end GasMachine
