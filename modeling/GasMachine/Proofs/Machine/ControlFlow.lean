import GasMachine.Memory.Sparse
import GasMachine.Proofs.Machine.Rounds
import GasMachine.Proofs.Program.Boundaries

/-!
# Control-flow integrity

Wherever a bitmask puts the instruction starts, a machine that starts on a
boundary stays on boundaries: it moves on by whole instructions, and every jump
leads to a block start, which is a boundary too.  Hence a run only ever executes
instructions that the listing of the program shows.
-/

namespace GasMachine

/-- Every opcode that may jump ends its block. -/
theorem Opcode.endsBlock_of_mayJump {opcode : Opcode}
    (hjump : opcode.action.mayJump = true) : opcode.endsBlock = true := by
  cases opcode <;> first | rfl | cases hjump

namespace Program

/-- A fetch past the code finds a trap. -/
theorem instructionAt_of_size_le {program : Program} {pc : UInt32}
    (hpc : program.image.code.size ≤ pc.toNat) :
    program.instructionAt pc = .ok .trap := by
  unfold instructionAt CodeImage.instructionAt Instruction.decode
  rw [dif_neg (Nat.not_lt.mpr hpc)]

end Program

/-- A host that answers calls without moving the program counter. -/
def Host.KeepsPc {σ μ : Type} (host : Host σ μ) : Prop :=
  ∀ index state machine, (host index state machine).2.2.pc = machine.pc

namespace Machine

variable {σ μ : Type} [Memory μ]

/-- A step that stops the machine leaves the program counter alone. -/
theorem step_pc_of_stopped {program : Program} {machine after : Machine μ} {stop : Stop}
    (hstep : machine.step program = (.stopped stop, after)) : after.pc = machine.pc := by
  rcases machine.step_cases program with
    ⟨_, heq⟩ | ⟨_, _, _, heq⟩ | ⟨_, instruction, effect, served, _, hserve, heq⟩
  · rw [heq] at hstep
    rw [← (Prod.mk.inj hstep).2]
  · rw [heq] at hstep
    rw [← (Prod.mk.inj hstep).2]
    rfl
  · rw [heq] at hstep
    have hpc := (machine.charge 1).serve_pc (machine.request program instruction)
    rw [hserve] at hpc
    cases effect with
    | advance => cases hstep
    | jump target => cases hstep
    | stop stop =>
        obtain ⟨_, rfl⟩ := Prod.mk.inj hstep
        exact hpc

/-- A step at the end of the code finds no gas or a trap. -/
theorem step_of_size_le {program : Program} {machine : Machine μ}
    (hpc : program.image.code.size ≤ machine.pc.toNat) :
    machine.step program = (.stopped (.exit .outOfGas), machine) ∨
      machine.step program = (.stopped (.exit (.panic .trap)), machine.charge 1) := by
  cases hgas : machine.gas.exhausted with
  | true => exact Or.inl (step_of_exhausted program hgas)
  | false =>
      right
      rw [step_of_instruction hgas (Program.instructionAt_of_size_le hpc)]
      rfl

/-- A step that goes on leads to the next instruction, or its instruction ends a
block and it leads to a block start. -/
theorem step_pc_of_running {program : Program} {machine after : Machine μ}
    (hstep : machine.step program = (.running, after)) :
    after.pc = program.following machine.pc ∨
      ∃ instruction, program.instructionAt machine.pc = .ok instruction ∧
        instruction.opcode.endsBlock = true ∧ program.isBlockStart after.pc = true := by
  rcases machine.step_cases program with
    ⟨_, heq⟩ | ⟨_, _, _, heq⟩ | ⟨_, instruction, effect, served, hinstruction, hserve, heq⟩
  · rw [heq] at hstep
    cases hstep
  · rw [heq] at hstep
    cases hstep
  · rw [heq] at hstep
    cases effect with
    | advance =>
        obtain ⟨_, rfl⟩ := Prod.mk.inj hstep
        exact Or.inl rfl
    | jump target =>
        obtain ⟨_, rfl⟩ := Prod.mk.inj hstep
        obtain ⟨registers, hrequest⟩ := eq_finish_of_serve_jump (congrArg Prod.fst hserve)
        obtain ⟨hmay, hstart⟩ := (Request.leads_of_ofAction hrequest).of_jump
        exact Or.inr ⟨instruction, hinstruction, Opcode.endsBlock_of_mayJump hmay, hstart⟩
    | stop stop => cases hstep

theorem pc_lt_size_of_running {program : Program} {machine after : Machine μ}
    (hstep : machine.step program = (.running, after)) :
    machine.pc.toNat < program.image.code.size := by
  rcases Nat.lt_or_ge machine.pc.toNat program.image.code.size with hpc | hpc
  · exact hpc
  · rcases step_of_size_le hpc with hend | hend <;> rw [hend] at hstep <;> cases hstep

theorem pc_lt_size_of_hostCall {program : Program} {machine after : Machine μ} {index : UInt32}
    (hstep : machine.step program = (.stopped (.exit (.hostCall index)), after)) :
    machine.pc.toNat < program.image.code.size := by
  rcases Nat.lt_or_ge machine.pc.toNat program.image.code.size with hpc | hpc
  · exact hpc
  · rcases step_of_size_le hpc with hend | hend <;> rw [hend] at hstep <;> cases hstep

section Boundaries

variable {program : Program} (hsize : program.image.code.size ≤ Program.maxCodeSize)
include hsize

/-- From a boundary inside the code, the next instruction is a boundary. -/
theorem isBoundary_following {pc : UInt32} (hboundary : program.IsBoundary pc)
    (hpc : pc.toNat < program.image.code.size) :
    program.IsBoundary (program.following pc) := by
  rw [Program.isBoundary_iff_meets] at hboundary ⊢
  rw [Program.toNat_following hsize hpc]
  exact hboundary.next hpc

/-- A step keeps the machine on boundaries. -/
theorem isBoundary_step {machine : Machine μ} (hboundary : program.IsBoundary machine.pc) :
    program.IsBoundary (machine.step program).2.pc := by
  rcases hstep : machine.step program with ⟨outcome, after⟩
  cases outcome with
  | running =>
      rcases step_pc_of_running hstep with hnext | ⟨_, _, _, hstart⟩
      · rw [hnext]
        exact isBoundary_following hsize hboundary (pc_lt_size_of_running hstep)
      · rw [Program.isBoundary_iff_meets]
        exact program.meets_of_mem_blockStarts ((program.isBlockStart_iff_mem _).mp hstart)
  | stopped stop => rwa [step_pc_of_stopped hstep]

/-- A round with a host that leaves the program counter alone keeps the machine
on boundaries. -/
theorem isBoundary_round {host : Host σ μ}
    (hhost : Host.KeepsPc host)
    (state : σ) (machine : Machine μ) (after : σ) (afterMachine : Machine μ)
    (hboundary : program.IsBoundary machine.pc)
    (hround : round program host state machine = .continues after afterMachine) :
    program.IsBoundary afterMachine.pc := by
  have hafter := isBoundary_step hsize hboundary
  unfold round at hround
  rcases hstep : machine.step program with ⟨outcome, stepped⟩
  rw [hstep] at hround hafter
  split at hround
  · next heq =>
      obtain ⟨_, rfl⟩ := Prod.mk.inj heq
      obtain ⟨_, rfl⟩ := Round.continues.inj hround
      exact hafter
  · next index called heq =>
      obtain ⟨rfl, rfl⟩ := Prod.mk.inj heq
      split at hround
      · next served resumed hreply =>
          obtain ⟨_, rfl⟩ := Round.continues.inj hround
          have hpc : resumed.pc = machine.pc := by
            have hkept := hhost index state stepped
            rw [hreply] at hkept
            exact hkept.trans (step_pc_of_stopped hstep)
          have hinside := pc_lt_size_of_hostCall hstep
          rw [← hpc] at hboundary hinside
          exact isBoundary_following hsize hboundary hinside
      · cases hround
  · cases hround

end Boundaries

/-- Control-flow integrity of every program that is read from a blob, whatever
its bitmask.  A step from a boundary ends on a boundary.  A step that goes on
moves over its instruction, or its opcode ends a block and it enters a block.  So
a run that starts on a boundary, under a host that leaves the program counter
alone, only takes steps on boundaries: on a listed instruction, or at the end of
the code, where the machine runs out of gas or traps. -/
theorem steps_stay_on_listed_instructions {blob : ByteArray} {program : Program}
    (hparse : Program.parse blob = .ok program) :
    (∀ machine : Machine μ, program.IsBoundary machine.pc →
      program.IsBoundary (machine.step program).2.pc) ∧
    (∀ machine after : Machine μ, machine.step program = (.running, after) →
      after.pc.toNat = machine.pc.toNat + (program.skip machine.pc).toNat + 1 ∨
        ∃ instruction, program.instructionAt machine.pc = .ok instruction ∧
          instruction.opcode.endsBlock = true ∧ after.pc.toNat ∈ program.blockStarts) ∧
    (∀ host : Host σ μ, Host.KeepsPc host →
      ∀ (fuel : Nat) (state : σ) (machine : Machine μ), program.IsBoundary machine.pc →
        ∀ later ∈ visited program host fuel state machine,
          (later.pc.toNat < program.image.code.size ∧
            (later.pc.toNat, program.instructionAt later.pc) ∈ program.instructions) ∨
          (later.pc.toNat = program.image.code.size ∧
            ((later.step program).1 = .stopped (.exit .outOfGas) ∨
              (later.step program).1 = .stopped (.exit (.panic .trap))))) := by
  have hsize := Program.size_code_le_of_parse hparse
  refine ⟨fun machine => isBoundary_step hsize, ?_, ?_⟩
  · intro machine after hstep
    rcases step_pc_of_running hstep with hnext | ⟨instruction, hinstruction, hends, hstart⟩
    · left
      rw [hnext, Program.toNat_following hsize (pc_lt_size_of_running hstep),
        Program.toNat_skip, CodeImage.next]
    · exact Or.inr ⟨instruction, hinstruction, hends, (program.isBlockStart_iff_mem _).mp hstart⟩
  · intro host hhost fuel state machine hboundary later hlater
    have hvisited := visited_induction (isBoundary_round hsize hhost) fuel state hboundary
    rcases hvisited later hlater with ⟨⟨offset, decoded⟩, hmem, hoffset⟩ | hend
    · left
      obtain rfl : offset = later.pc.toNat := hoffset
      obtain ⟨⟨_, hinside⟩, rfl⟩ := (program.mem_instructions_iff _ _).mp hmem
      exact ⟨hinside, hmem⟩
    · right
      refine ⟨hend, ?_⟩
      rcases step_of_size_le (Nat.le_of_eq hend.symm) with hstep | hstep <;> simp [hstep]

/-- A fall-through and a jump back to it. -/
def loopImage : CodeImage :=
  ⟨ByteArray.empty, 0, 0, [1, 40, 0xFF].toByteArray, [3].toByteArray⟩

def loopBlob : ByteArray :=
  [0, 0, 3, 1, 40, 0xFF, 3].toByteArray

theorem loop_stays_on_listed_instructions :
    Program.parse loopBlob = .ok (.ofImage loopImage) ∧
      ∀ later ∈ visited (.ofImage loopImage)
          (fun _ state machine => (.resume, state, machine)) 4 ()
          (⟨0, .zero, ⟨3⟩, SparseMemory.empty 0⟩ : Machine SparseMemory),
        (later.pc.toNat < loopImage.code.size ∧
          (later.pc.toNat, (Program.ofImage loopImage).instructionAt later.pc) ∈
            (Program.ofImage loopImage).instructions) ∨
        (later.pc.toNat = loopImage.code.size ∧
          ((later.step (.ofImage loopImage)).1 = .stopped (.exit .outOfGas) ∨
            (later.step (.ofImage loopImage)).1 = .stopped (.exit (.panic .trap)))) := by
  have hparse : Program.parse loopBlob = .ok (.ofImage loopImage) := by rfl
  have hstart : (Program.ofImage loopImage).IsBoundary 0 :=
    (Program.isBoundary_iff_meets _ _).mpr Relation.ReflTransGen.refl
  exact ⟨hparse,
    (steps_stay_on_listed_instructions hparse).2.2 _ (fun _ _ _ => rfl) 4 () _ hstart⟩

end Machine

end GasMachine
