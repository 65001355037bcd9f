import Mathlib.Logic.Relation
import GasMachine.Memory.Sparse
import GasMachine.Proofs.Machine.AtomicExits
import GasMachine.Proofs.Machine.ControlFlow

/-!
# Where a run stops

A run takes steps until one of them stops it, and the machine stays at the
instruction of that step.  If the host is called there, the instruction is the
call.  On a sparse memory every run ends in an exit.
-/

namespace GasMachine

/-- Only the instruction that calls the host comes down to a call. -/
theorem Request.eq_callHost_of_ofAction {program : Program} {pc index : UInt32}
    {registers after : Registers} {action : Action} {operands : Operands}
    (hrequest : ofAction program pc registers action operands =
      .finish (.exit (.hostCall index)) after) :
    action = .callHost ∧ operands = .imm index := by
  rw [ofAction.eq_def] at hrequest
  split at hrequest
  case h_3 =>
    obtain ⟨heffect, -⟩ := Request.finish.inj hrequest
    cases heffect
    exact ⟨rfl, rfl⟩
  case h_4 | h_6 | h_16 | h_17 =>
    obtain ⟨why, hreason⟩ :=
      Program.eq_panic_of_staticBranch (Request.finish.inj hrequest).1
    cases hreason
  case h_5 | h_7 =>
    rcases Program.eq_halt_or_panic_of_dynamicJump (Request.finish.inj hrequest).1 with
      hreason | ⟨why, hreason⟩ <;> cases hreason
  case h_22 | h_25 =>
    rw [assignIf] at hrequest
    split at hrequest <;> cases hrequest
  all_goals cases hrequest

theorem Opcode.eq_ecalli {opcode : Opcode} (haction : opcode.action = .callHost) :
    opcode = .ecalli := by
  cases opcode
  case ecalli => rfl
  all_goals cases haction

namespace Machine

variable {μ : Type} [Memory μ]

/-- Steps that all go on lead from one machine to the other. -/
def StepsTo (program : Program) : Machine μ → Machine μ → Prop :=
  Relation.ReflTransGen fun machine after => machine.step program = (.running, after)

/-- A run leads to a step that stops it. -/
theorem exists_stopping_step (program : Program) (machine : Machine μ) :
    ∃ last stop stopped, StepsTo program machine last ∧
      last.step program = (.stopped stop, stopped) ∧ machine.run program = (stop, stopped) := by
  induction machine using @run_induction μ _ program with
  | hstopped machine stop after hstep =>
      exact ⟨machine, stop, after, .refl, hstep, run_of_stopped hstep⟩
  | hrunning machine after hstep ih =>
      obtain ⟨last, stop, stopped, hsteps, hlast, hrun⟩ := ih
      exact ⟨last, stop, stopped, .head hstep hsteps, hlast, (run_of_running hstep).trans hrun⟩

/-- A machine that calls its host is at the instruction for it. -/
theorem instructionAt_of_hostCall {program : Program} {machine after : Machine μ}
    {index : UInt32} (hstep : machine.step program = (.stopped (.exit (.hostCall index)), after)) :
    program.instructionAt machine.pc = .ok ⟨.ecalli, .imm index⟩ := by
  rcases step_cases program machine with ⟨-, hcase⟩ | ⟨-, _, -, hcase⟩ |
    ⟨-, instruction, effect, served, hinstruction, hserve, hcase⟩
  · rw [hcase] at hstep
    cases hstep
  · rw [hcase] at hstep
    cases hstep
  · rw [hcase] at hstep
    cases effect with
    | advance => cases hstep
    | jump target => cases hstep
    | stop stop =>
        obtain ⟨hstop, rfl⟩ := Prod.mk.inj hstep
        cases hstop
        obtain ⟨registers, hfinish⟩ := eq_finish_of_serve_exit hserve (by simp) (by simp)
        obtain ⟨haction, hoperands⟩ := Request.eq_callHost_of_ofAction hfinish
        obtain ⟨opcode, operands⟩ := instruction
        obtain rfl := Opcode.eq_ecalli haction
        obtain rfl : operands = .imm index := hoperands
        exact hinstruction

end Machine

/-! ## Sparse memories -/

theorem SparseMemory.readInto_ne_aborted (memory : SparseMemory) (address : UInt32)
    (buffer : ByteArray) : (memory.readInto address buffer).result ≠ .error .aborted := by
  unfold readInto
  split <;> simp

namespace Machine

theorem load_ne_aborted (machine : Machine SparseMemory) (address : UInt32) (width : Nat) :
    (machine.load address width).1 ≠ .error .aborted := by
  have hread := machine.memory.readInto_ne_aborted address (Bytes.zeros width)
  unfold load
  split
  · simp
  · show Except.map _ (machine.memory.readInto address (Bytes.zeros width)).result ≠ _
    cases hresult : (machine.memory.readInto address (Bytes.zeros width)).result with
    | ok _ => simp [Except.map]
    | error failure =>
        intro habort
        cases habort
        exact hread hresult

/-- On a sparse memory no step stops the host. -/
theorem step_ne_aborted (program : Program) (machine : Machine SparseMemory) :
    (machine.step program).1 ≠ .stopped .aborted := by
  rcases step_cases program machine with ⟨-, hcase⟩ | ⟨-, _, -, hcase⟩ |
    ⟨-, instruction, effect, served, -, hserve, hcase⟩
  · simp [hcase]
  · simp [hcase]
  · rw [hcase]
    cases effect with
    | advance => simp [settle]
    | jump target => simp [settle]
    | stop stop =>
        intro habort
        obtain rfl : stop = .aborted := by simpa [settle] using habort
        cases hrequest : machine.request program instruction with
        | finish effect registers =>
            rw [hrequest] at hserve
            obtain rfl := (Prod.mk.inj hserve).1
            exact (Request.leads_of_ofAction hrequest).ne_aborted rfl
        | load target address width signed =>
            rw [hrequest, serve, loadWord] at hserve
            split at hserve
            · cases hserve
            · cases hserve
            · next hload => exact load_ne_aborted _ _ _ (congrArg Prod.fst hload)
        | store address value width =>
            rw [hrequest, serve, storeWord] at hserve
            split at hserve <;> cases hserve
        | grow target increment =>
            rw [hrequest, serve, growHeap] at hserve
            split at hserve <;> cases hserve

end Machine

end GasMachine
