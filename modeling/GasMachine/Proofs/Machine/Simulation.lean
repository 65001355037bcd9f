import GasMachine.Invocation.Basic
import GasMachine.Proofs.Machine.Rounds

/-!
# Machines on related memories

Two memories are related if every operation answers alike on both and leaves
related memories behind.  Machines that differ in related memories only then
take the same steps, make the same host calls and end alike, under hosts that do
not tell related memories apart.  A claim about two runs is thereby a claim
about the four operations of a memory.
-/

namespace GasMachine

variable {σ μ ν : Type}

/-- Equal answers, with related memories or machines left behind. -/
def Alike {α : Type} (related : μ → ν → Prop) (left : α × μ) (right : α × ν) : Prop :=
  ∃ answer leftAfter rightAfter,
    left = (answer, leftAfter) ∧ right = (answer, rightAfter) ∧ related leftAfter rightAfter

theorem Alike.of_eq {α : Type} {related : μ → ν → Prop} {left : α × μ} {right : α × ν}
    (hanswer : left.1 = right.1) (hrelated : related left.2 right.2) :
    Alike related left right :=
  ⟨left.1, left.2, right.2, rfl, by rw [hanswer], hrelated⟩

section Memories

variable [Memory μ] [Memory ν]

/-- What makes a relation of memories invisible to a machine. -/
structure Memory.Simulates (related : μ → ν → Prop) : Prop where
  check : ∀ {left right}, related left right → ∀ kind address length,
    Alike related (Memory.check left kind address length)
      (Memory.check right kind address length)
  readInto : ∀ {left right}, related left right → ∀ address buffer,
    ∃ result filled leftAfter rightAfter,
      Memory.readInto left address buffer = ⟨result, filled, leftAfter⟩ ∧
      Memory.readInto right address buffer = ⟨result, filled, rightAfter⟩ ∧
      related leftAfter rightAfter
  write : ∀ {left right}, related left right → ∀ address bytes,
    Alike related (Memory.write left address bytes) (Memory.write right address bytes)
  grow : ∀ {left right}, related left right → ∀ increment,
    Alike related (Memory.grow left increment) (Memory.grow right increment)

/-- Reading a range checks it and then fills a buffer, so it too answers alike. -/
theorem Memory.Simulates.read {related : μ → ν → Prop}
    (hsimulates : Memory.Simulates related) {left : μ} {right : ν}
    (hrelated : related left right) (address : UInt32) (length : UInt64) :
    Alike related (Memory.read left address length) (Memory.read right address length) := by
  obtain ⟨verdict, leftChecked, rightChecked, hleft, hright, hchecked⟩ :=
    hsimulates.check hrelated .read address length
  unfold Memory.read
  rw [hleft, hright]
  cases verdict with
  | error fault => exact ⟨_, _, _, rfl, rfl, hchecked⟩
  | ok allowed =>
      obtain ⟨result, filled, leftRead, rightRead, hleftRead, hrightRead, hread⟩ :=
        hsimulates.readInto hchecked address (Bytes.zeros length.toNat)
      dsimp only
      rw [hleftRead, hrightRead]
      exact ⟨_, _, _, rfl, rfl, hread⟩

end Memories

namespace Machine

/-- The same machine on related memories. -/
structure Related (related : μ → ν → Prop) (left : Machine μ) (right : Machine ν) : Prop where
  pc : left.pc = right.pc
  registers : left.registers = right.registers
  gas : left.gas = right.gas
  memory : related left.memory right.memory

theorem Related.charge {related : μ → ν → Prop} {left : Machine μ} {right : Machine ν}
    (hrelated : Related related left right) :
    Related related (left.charge 1) (right.charge 1) :=
  ⟨hrelated.pc, hrelated.registers, congrArg (Gas.consume · 1) hrelated.gas, hrelated.memory⟩

theorem Related.request_eq {related : μ → ν → Prop} {left : Machine μ} {right : Machine ν}
    (hrelated : Related related left right) (program : Program) (instruction : Instruction) :
    right.request program instruction = left.request program instruction := by
  rw [request, request, hrelated.pc, hrelated.registers]

end Machine

/-- Hosts that do the same to machines on related memories. -/
def Host.Related (related : μ → ν → Prop) (left : Host σ μ) (right : Host σ ν) : Prop :=
  ∀ index state leftMachine rightMachine,
    Machine.Related related leftMachine rightMachine →
      (left index state leftMachine).1 = (right index state rightMachine).1 ∧
      (left index state leftMachine).2.1 = (right index state rightMachine).2.1 ∧
      Machine.Related related (left index state leftMachine).2.2
        (right index state rightMachine).2.2

namespace Machine

variable [Memory μ] [Memory ν] {related : μ → ν → Prop}
variable {left : Machine μ} {right : Machine ν}

/-- Bytes are loaded alike if the memories fill a buffer alike. -/
theorem load_alike_of_readInto (hrelated : Related related left right) {address : UInt32}
    {width : Nat}
    (hread : isReserved address = false → ∃ result filled leftAfter rightAfter,
      Memory.readInto left.memory address (Bytes.zeros width) = ⟨result, filled, leftAfter⟩ ∧
      Memory.readInto right.memory address (Bytes.zeros width) = ⟨result, filled, rightAfter⟩ ∧
      related leftAfter rightAfter) :
    Alike (Related related) (left.load address width) (right.load address width) := by
  simp only [load]
  cases haddress : isReserved address with
  | true => exact ⟨_, _, _, rfl, rfl, hrelated⟩
  | false =>
      obtain ⟨result, filled, leftRead, rightRead, hleft, hright, hafter⟩ := hread haddress
      rw [hleft, hright]
      exact ⟨_, _, _, rfl, rfl, hrelated.pc, hrelated.registers, hrelated.gas, hafter⟩

/-- Bytes are stored alike if the memories are written to alike. -/
theorem store_alike_of_write (hrelated : Related related left right) {address : UInt32}
    {bytes : ByteArray}
    (hwrite : Alike related (Memory.write left.memory address bytes)
      (Memory.write right.memory address bytes)) :
    Alike (Related related) (left.store address bytes) (right.store address bytes) := by
  obtain ⟨result, leftWritten, rightWritten, hleft, hright, hafter⟩ := hwrite
  simp only [store, hleft, hright]
  cases isReserved address with
  | true => exact ⟨_, _, _, rfl, rfl, hrelated⟩
  | false => exact ⟨_, _, _, rfl, rfl, hrelated.pc, hrelated.registers, hrelated.gas, hafter⟩

/-- The heap of a machine grows alike if that of the memory does. -/
theorem growHeap_alike_of_grow (hrelated : Related related left right) {increment : UInt32}
    (hgrow : Alike related (Memory.grow left.memory increment)
      (Memory.grow right.memory increment)) (target : Reg) :
    Alike (Related related) (left.growHeap target increment)
      (right.growHeap target increment) := by
  obtain ⟨grown, leftAfter, rightAfter, hleft, hright, hafter⟩ := hgrow
  simp only [growHeap, hleft, hright]
  cases grown with
  | ok address =>
      refine ⟨_, _, _, rfl, rfl, hrelated.pc, ?_, hrelated.gas, hafter⟩
      exact congrArg (Registers.set · target _) hrelated.registers
  | error error =>
      exact ⟨_, _, _, rfl, rfl, hrelated.pc, hrelated.registers, hrelated.gas, hafter⟩

/-- A word is loaded alike if its bytes are. -/
theorem loadWord_alike {address : UInt32} {width : Nat}
    (hload : Alike (Related related) (left.load address width) (right.load address width))
    (target : Reg) (signed : Bool) :
    Alike (Related related) (left.loadWord target address width signed)
      (right.loadWord target address width signed) := by
  obtain ⟨loaded, leftAfter, rightAfter, hleft, hright, hafter⟩ := hload
  simp only [loadWord, hleft, hright]
  cases loaded with
  | ok bytes =>
      refine ⟨_, _, _, rfl, rfl, hafter.pc, ?_, hafter.gas, hafter.memory⟩
      exact congrArg (Registers.set · target _) hafter.registers
  | error failure => cases failure <;> exact ⟨_, _, _, rfl, rfl, hafter⟩

/-- A word is stored alike if its bytes are. -/
theorem storeWord_alike {address : UInt32} {value : UInt64} {width : Nat}
    (hstore : Alike (Related related)
      (left.store address (LittleEndian.encode value width).toByteArray)
      (right.store address (LittleEndian.encode value width).toByteArray)) :
    Alike (Related related) (left.storeWord address value width)
      (right.storeWord address value width) := by
  obtain ⟨stored, leftAfter, rightAfter, hleft, hright, hafter⟩ := hstore
  simp only [storeWord, hleft, hright]
  cases stored <;> exact ⟨_, _, _, rfl, rfl, hafter⟩

/-- Machines take the same step if the instruction that they pay for is served
alike. -/
theorem step_alike_of_serve {program : Program} (hrelated : Related related left right)
    (hserve : ∀ instruction, left.gas.exhausted = false →
      program.instructionAt left.pc = .ok instruction →
        Alike (Related related) ((left.charge 1).serve (left.request program instruction))
          ((right.charge 1).serve (left.request program instruction))) :
    Alike (Related related) (left.step program) (right.step program) := by
  cases hgas : left.gas.exhausted with
  | true =>
      rw [step_of_exhausted program hgas, step_of_exhausted program (hrelated.gas ▸ hgas)]
      exact ⟨_, _, _, rfl, rfl, hrelated⟩
  | false =>
      have hgasRight : right.gas.exhausted = false := hrelated.gas ▸ hgas
      cases hinstruction : program.instructionAt left.pc with
      | error error =>
          rw [step_of_error hgas hinstruction,
            step_of_error hgasRight (hrelated.pc ▸ hinstruction)]
          exact ⟨_, _, _, rfl, rfl, hrelated.charge⟩
      | ok instruction =>
          obtain ⟨effect, leftServed, rightServed, hleft, hright, hserved⟩ :=
            hserve instruction hgas hinstruction
          rw [step_of_instruction hgas hinstruction,
            step_of_instruction hgasRight (hrelated.pc ▸ hinstruction), hrelated.request_eq,
            hleft, hright, hrelated.pc]
          cases effect with
          | advance =>
              exact ⟨_, _, _, rfl, rfl, rfl, hserved.registers, hserved.gas, hserved.memory⟩
          | jump target =>
              exact ⟨_, _, _, rfl, rfl, rfl, hserved.registers, hserved.gas, hserved.memory⟩
          | stop stop => exact ⟨_, _, _, rfl, rfl, hserved⟩

section Steps

variable (hsimulates : Memory.Simulates related)
include hsimulates

theorem serve_alike (hrelated : Related related left right) (request : Request) :
    Alike (Related related) (left.serve request) (right.serve request) := by
  cases request with
  | finish effect registers =>
      exact ⟨effect, _, _, rfl, rfl, hrelated.pc, rfl, hrelated.gas, hrelated.memory⟩
  | load target address width signed =>
      apply loadWord_alike
      apply load_alike_of_readInto hrelated
      exact fun _ => hsimulates.readInto hrelated.memory address _
  | store address value width =>
      apply storeWord_alike
      apply store_alike_of_write hrelated
      exact hsimulates.write hrelated.memory address _
  | grow target increment =>
      apply growHeap_alike_of_grow hrelated
      exact hsimulates.grow hrelated.memory increment

/-- Machines on related memories take the same step. -/
theorem step_alike (program : Program) (hrelated : Related related left right) :
    Alike (Related related) (left.step program) (right.step program) :=
  step_alike_of_serve hrelated fun instruction _ _ =>
    serve_alike hsimulates hrelated.charge (left.request program instruction)

/-- Runs on related memories that a host call ends, end alike. -/
theorem runFor_alike (program : Program) (budget : Nat) (hrelated : Related related left right) :
    Alike (Related related) (runFor program budget left) (runFor program budget right) := by
  induction budget generalizing left right with
  | zero => exact ⟨_, _, _, rfl, rfl, hrelated⟩
  | succ budget ih =>
      obtain ⟨outcome, leftAfter, rightAfter, hleft, hright, hafter⟩ :=
        step_alike hsimulates program hrelated
      rw [runFor, runFor, hleft, hright]
      cases outcome with
      | running => exact ih hafter
      | stopped stop => exact ⟨stop, _, _, rfl, rfl, hafter⟩

end Steps

/-- What a host is told of a call, the memory apart. -/
structure HostCall where
  index : UInt32
  pc : UInt32
  registers : Registers
  gas : Gas

def hostCall? (program : Program) (machine : Machine μ) : Option HostCall :=
  match machine.step program with
  | (.stopped (.exit (.hostCall index)), after) =>
    some ⟨index, after.pc, after.registers, after.gas⟩
  | _ => none

def hostCalls (program : Program) (host : Host σ μ) (fuel : Nat) (state : σ)
    (machine : Machine μ) : List HostCall :=
  (visited program host fuel state machine).filterMap (hostCall? program)

theorem hostCalls_succ (program : Program) (host : Host σ μ) (fuel : Nat) (state : σ)
    (machine : Machine μ) :
    hostCalls program host (fuel + 1) state machine =
      (machine.hostCall? program).toList ++
        match round program host state machine with
        | .continues state machine => hostCalls program host fuel state machine
        | .ends _ _ _ => [] := by
  rw [hostCalls, visited, List.filterMap_cons]
  cases machine.hostCall? program <;> cases round program host state machine <;> rfl

/-- Rounds that lead to the same from machines on related memories. -/
inductive Round.Alike (related : μ → ν → Prop) : Round σ μ → Round σ ν → Prop where
  | continues (state : σ) {left : Machine μ} {right : Machine ν} :
      Related related left right →
        Alike related (.continues state left) (.continues state right)
  | ends (stop : Stop) (state : σ) {left : Machine μ} {right : Machine ν} :
      Related related left right →
        Alike related (.ends stop state left) (.ends stop state right)

section Runs

variable {leftHost : Host σ μ} {rightHost : Host σ ν}
variable (hsimulates : Memory.Simulates related)
variable (hhosts : Host.Related related leftHost rightHost)
include hsimulates

theorem hostCall?_eq (program : Program) (hrelated : Related related left right) :
    left.hostCall? program = right.hostCall? program := by
  obtain ⟨outcome, leftAfter, rightAfter, hleft, hright, hafter⟩ :=
    step_alike hsimulates program hrelated
  rw [hostCall?, hostCall?, hleft, hright]
  cases outcome with
  | running => rfl
  | stopped stop =>
      cases stop with
      | aborted => rfl
      | exit reason =>
          cases reason with
          | hostCall index => simp only [hafter.pc, hafter.registers, hafter.gas]
          | halt => rfl
          | panic reason => rfl
          | outOfGas => rfl
          | pageFault address => rfl

include hhosts

theorem round_alike (program : Program) (state : σ) (hrelated : Related related left right) :
    Round.Alike related (round program leftHost state left)
      (round program rightHost state right) := by
  obtain ⟨outcome, leftAfter, rightAfter, hleft, hright, hafter⟩ :=
    step_alike hsimulates program hrelated
  rw [round, round, hleft, hright]
  cases outcome with
  | running => exact .continues state hafter
  | stopped stop =>
      cases stop with
      | aborted => exact .ends _ state hafter
      | exit reason =>
          cases reason with
          | hostCall index =>
              obtain ⟨hverdict, hstate, hserved⟩ := hhosts index state _ _ hafter
              dsimp only
              rcases hreply : leftHost index state leftAfter with ⟨verdict, served, machine⟩
              rcases hanswer : rightHost index state rightAfter with ⟨_, _, other⟩
              rw [hreply, hanswer] at hverdict hstate hserved
              obtain rfl := hverdict
              obtain rfl := hstate
              cases verdict with
              | resume =>
                  refine .continues served ⟨?_, hserved.registers, hserved.gas, hserved.memory⟩
                  exact congrArg program.following hserved.pc
              | stop stop => exact .ends stop served hserved
          | halt => exact .ends _ state hafter
          | panic reason => exact .ends _ state hafter
          | outOfGas => exact .ends _ state hafter
          | pageFault address => exact .ends _ state hafter

/-- Runs on related memories end alike, or both go on past the fuel. -/
theorem runWith_alike (program : Program) (fuel : Nat) (state : σ)
    (hrelated : Related related left right) :
    (runWith program leftHost fuel state left = none ∧
        runWith program rightHost fuel state right = none) ∨
      ∃ stop after leftAfter rightAfter,
        runWith program leftHost fuel state left = some (stop, after, leftAfter) ∧
        runWith program rightHost fuel state right = some (stop, after, rightAfter) ∧
        Related related leftAfter rightAfter := by
  induction fuel generalizing state left right with
  | zero => exact Or.inl ⟨rfl, rfl⟩
  | succ fuel ih =>
      have hround := round_alike hsimulates hhosts program state hrelated
      rw [runWith_succ, runWith_succ]
      generalize round program leftHost state left = leftRound at hround ⊢
      generalize round program rightHost state right = rightRound at hround ⊢
      cases hround with
      | continues state hnext => exact ih state hnext
      | ends stop state hnext => exact Or.inr ⟨stop, state, _, _, rfl, rfl, hnext⟩

/-- Runs on related memories make the same calls. -/
theorem hostCalls_eq (program : Program) (fuel : Nat) (state : σ)
    (hrelated : Related related left right) :
    hostCalls program leftHost fuel state left =
      hostCalls program rightHost fuel state right := by
  induction fuel generalizing state left right with
  | zero => rfl
  | succ fuel ih =>
      have hround := round_alike hsimulates hhosts program state hrelated
      rw [hostCalls_succ, hostCalls_succ, hostCall?_eq hsimulates program hrelated]
      generalize round program leftHost state left = leftRound at hround ⊢
      generalize round program rightHost state right = rightRound at hround ⊢
      cases hround with
      | continues state hnext => exact congrArg _ (ih state hnext)
      | ends stop state hnext => rfl

end Runs

end Machine

namespace Invocation

variable [Memory μ] [Memory ν] {related : μ → ν → Prop}
variable {left : Machine μ} {right : Machine ν}

theorem readOutput_eq (hsimulates : Memory.Simulates related)
    (hrelated : Machine.Related related left right) : readOutput left = readOutput right := by
  have hregister : ∀ register, left.register register = right.register register :=
    fun register => congrArg (Registers.get · register) hrelated.registers
  unfold readOutput
  rw [hregister, hregister]
  split
  · obtain ⟨result, _, _, hleft, hright, _⟩ :=
      hsimulates.read hrelated.memory (right.register Reg.dataPointer).toUInt32
        (right.register Reg.dataSize)
    rw [hleft, hright]
  · rfl

/-- Machines on related memories conclude alike. -/
theorem conclude_eq (hsimulates : Memory.Simulates related)
    (hrelated : Machine.Related related left right) (stop : Stop) :
    conclude stop left = conclude stop right := by
  unfold conclude
  rw [readOutput_eq hsimulates hrelated, hrelated.gas, hrelated.registers]

end Invocation

end GasMachine
