import GasMachine.Memory.Sparse
import GasMachine.Proofs.Instruction.Decoding
import GasMachine.Proofs.Machine.GasMetering

/-!
# Operand forms and actions

Three tables have to fit together: the form of operands that an opcode asks for,
the way operands of a form are read, and the form on which the opcode's action can
be carried out.  An action that meets operands of another form faults as if the
byte were no opcode.  The tables agree, so a machine faults that way just on the
bytes that are not assigned.
-/

namespace GasMachine

/-- The form of the operands that an action takes, if it looks at them at all. -/
def Action.form? : Action → Option Form
  | .trap | .proceed => none
  | .callHost => some .imm
  | .jump => some .offset
  | .jumpIndirect | .loadImmediate | .load _ _ | .store _ => some .regImm
  | .loadImmediateJump | .branchImmediate _ => some .regImmOffset
  | .loadImmediateJumpIndirect => some .regRegImmImm
  | .loadWide => some .regWide
  | .storeImmediate _ => some .immImm
  | .storeImmediateIndirect _ => some .regImmImm
  | .loadIndirect _ _ | .storeIndirect _ | .immediate32 _ | .immediate64 _
  | .moveImmediateIf _ => some .regRegImm
  | .branch _ => some .regRegOffset
  | .unary _ | .growHeap => some .regReg
  | .binary32 _ | .binary64 _ | .moveIf _ => some .regRegReg

def Action.Takes (action : Action) (operands : Operands) : Prop :=
  ∀ form, action.form? = some form → operands.form = form

/-- The table of forms and the table of actions agree. -/
theorem Opcode.form_eq_of_action {opcode : Opcode} {form : Form}
    (hform : opcode.action.form? = some form) : opcode.form = form := by
  cases opcode <;> cases hform <;> rfl

theorem Instruction.WellFormed.takes {instruction : Instruction}
    (hwellFormed : instruction.WellFormed) :
    instruction.opcode.action.Takes instruction.operands := by
  intro form hform
  rw [← Opcode.form_eq_of_action hform]
  exact hwellFormed.symm

namespace Program

theorem staticBranch_ne_invalid (program : Program) (pc offset : UInt32) (taken : Bool) :
    program.staticBranch pc offset taken ≠ .panic .invalidInstruction := by
  rw [staticBranch]
  split
  · split <;> nofun
  · nofun

theorem dynamicJump_ne_invalid (program : Program) (address : UInt32) :
    program.dynamicJump address ≠ .panic .invalidInstruction := by
  rw [dynamicJump]
  split
  · nofun
  · split
    · nofun
    · split
      · split <;> nofun
      · nofun

end Program

/-- Actions fault on operands of other forms than the one they take, and on no
others. -/
theorem Request.ofAction_eq_invalid_iff {program : Program} {pc : UInt32}
    {registers after : Registers} {action : Action} {operands : Operands} :
    ofAction program pc registers action operands =
        .finish (.panic .invalidInstruction) after ↔
      after = registers ∧ ¬ action.Takes operands := by
  by_cases htakes : action.Takes operands
  · refine iff_of_false (fun hinvalid => ?_) fun hmismatch => hmismatch.2 htakes
    cases action
    case trap | proceed => cases hinvalid
    all_goals
      have hform := htakes _ rfl
      cases operands <;> simp only [Operands.form, reduceCtorEq] at hform
    -- Each action is left with operands of its own form; only jumps can panic there at all.
    case jump.offset | loadImmediateJump.regImmOffset | branchImmediate.regImmOffset
        | branch.regRegOffset =>
      exact program.staticBranch_ne_invalid _ _ _ (finish.inj hinvalid).1
    case jumpIndirect.regImm | loadImmediateJumpIndirect.regRegImmImm =>
      exact program.dynamicJump_ne_invalid _ (finish.inj hinvalid).1
    case moveImmediateIf.regRegImm | moveIf.regRegReg =>
      rw [ofAction, assignIf] at hinvalid
      split at hinvalid <;> cases hinvalid
    all_goals cases hinvalid
  · have hfault : ofAction program pc registers action operands =
        .finish (.panic .invalidInstruction) registers := by
      cases action <;> cases operands
      all_goals first | rfl | exact absurd (fun _ hform => by cases hform <;> rfl) htakes
    rw [hfault, finish.injEq]
    exact ⟨fun heq => ⟨heq.2.symm, htakes⟩, fun heq => ⟨rfl, heq.1.symm⟩⟩

namespace Machine

variable {μ : Type}

/-- No instruction that is fetched meets the fault for operands of another form. -/
theorem request_ne_invalid {program : Program} (machine : Machine μ) {pc : UInt32}
    {instruction : Instruction} (hinstruction : program.instructionAt pc = .ok instruction)
    (after : Registers) :
    machine.request program instruction ≠ .finish (.panic .invalidInstruction) after := by
  intro hinvalid
  exact (Request.ofAction_eq_invalid_iff.mp hinvalid).2
    (Instruction.wellFormed_of_decode hinstruction).takes

variable [Memory μ]

/-- A step faults this way if and only if the fetch does. -/
theorem step_invalid_iff {program : Program} {machine : Machine μ}
    (hgas : machine.gas.exhausted = false) :
    (machine.step program).1 = .stopped (.exit (.panic .invalidInstruction)) ↔
      ∃ error, program.instructionAt machine.pc = .error error := by
  cases hinstruction : program.instructionAt machine.pc with
  | error error =>
      rw [step_of_error hgas hinstruction]
      exact iff_of_true rfl ⟨error, rfl⟩
  | ok instruction =>
      refine iff_of_false (fun hstep => ?_) nofun
      rw [step_of_instruction hgas hinstruction] at hstep
      rcases hserve : (machine.charge 1).serve (machine.request program instruction) with
        ⟨effect, served⟩
      rw [hserve] at hstep
      cases effect with
      | advance => cases hstep
      | jump target => cases hstep
      | stop stop =>
          cases hstep
          obtain ⟨registers, hfinish⟩ := eq_finish_of_serve_exit hserve (by simp) (by simp)
          exact machine.request_ne_invalid hinstruction registers hfinish

/-- Decoding reads its operands inside their window and gives well-formed
instructions only.  A machine that can pay finds the instruction invalid if and
only if its program counter is on a byte of the code that is no opcode; operands
are never the reason. -/
theorem invalid_instructions_are_unassigned_bytes (program : Program) (machine : Machine μ)
    (hgas : 0 < machine.gas.value.toInt) :
    (∀ code pc count,
      Instruction.decodeInWindow? code pc count = some (Instruction.decode code pc count) ∧
        ∀ instruction, Instruction.decode code pc count = .ok instruction →
          instruction.WellFormed) ∧
      (∀ instruction, program.instructionAt machine.pc = .ok instruction →
        ∀ after, machine.request program instruction ≠
          .finish (.panic .invalidInstruction) after) ∧
      ((machine.step program).1 = .stopped (.exit (.panic .invalidInstruction)) ↔
        ∃ byte, program.image.code[machine.pc.toNat]? = some byte ∧
          ∀ opcode : Opcode, opcode.byte ≠ byte) := by
  refine ⟨fun code pc count => ⟨Instruction.decodeInWindow?_eq code pc count, ?_⟩, ?_, ?_⟩
  · intro instruction hdecode
    exact Instruction.wellFormed_of_decode hdecode
  · intro instruction hinstruction
    exact machine.request_ne_invalid hinstruction
  · rw [step_invalid_iff (Gas.exhausted_eq_false_iff.mpr hgas)]
    exact Instruction.exists_decode_eq_error_iff

/-- One byte that is no opcode. -/
def unassignedImage : CodeImage where
  jumpTable := .empty
  entryCount := 0
  entryWidth := 0
  code := ⟨#[2]⟩
  bitmask := ⟨#[1]⟩

def unassignedMachine : Machine SparseMemory :=
  ⟨0, .zero, ⟨1⟩, .empty 0⟩

theorem unassigned_byte_is_invalid :
    0 < unassignedMachine.gas.value.toInt ∧
      (unassignedMachine.step (.ofImage unassignedImage)).1 =
        .stopped (.exit (.panic .invalidInstruction)) := by
  have hgas : 0 < unassignedMachine.gas.value.toInt := by decide
  obtain ⟨-, -, hinvalid⟩ := invalid_instructions_are_unassigned_bytes
    (.ofImage unassignedImage) unassignedMachine hgas
  refine ⟨hgas, hinvalid.mpr ⟨2, rfl, fun opcode => ?_⟩⟩
  cases opcode <;> decide

end Machine

end GasMachine
