import Mathlib
import GasMachine.Proofs.Instruction.Relocation
import GasMachine.Proofs.Machine.Arithmetic

/-!
# Immediates and registers

An opcode with an immediate is a short way to write an opcode on registers, one of
which holds the immediate with its sign extended.  The opcodes are listed one by one
in two tables, and their operands stand in different orders: a comparison with an
immediate may be another comparison with its sides exchanged, and an absolute
address is an offset from a base of zero.  Whatever the opcode, an instruction and
its form on registers come down to the same request.
-/

namespace GasMachine

/-! ## The tables -/

/-- What the registers of the register form stand for. -/
inductive Placement where
  /-- The register with the immediate is the first source. -/
  | firstSource
  | secondSource
  /-- The register with the immediate is on the left of a comparison. -/
  | leftSide
  | rightSide
  /-- A register with zero is the base of an address. -/
  | base
  /-- The register with the immediate is stored. -/
  | stored
  /-- The register with the immediate is stored, and a register with zero is the base. -/
  | storedAtBase
  deriving DecidableEq

/-- The opcode on registers that does what this one does with an immediate. -/
def Opcode.registerForm? : Opcode → Option (Placement × Opcode)
  | .addImm32 => some (.secondSource, .add32)
  | .mulImm32 => some (.secondSource, .mul32)
  | .shloLImm32 => some (.secondSource, .shloL32)
  | .shloRImm32 => some (.secondSource, .shloR32)
  | .sharRImm32 => some (.secondSource, .sharR32)
  | .rotR32Imm => some (.secondSource, .rotR32)
  | .addImm64 => some (.secondSource, .add64)
  | .mulImm64 => some (.secondSource, .mul64)
  | .andImm => some (.secondSource, .and)
  | .xorImm => some (.secondSource, .xor)
  | .orImm => some (.secondSource, .or)
  | .setLtUImm => some (.secondSource, .setLtU)
  | .setLtSImm => some (.secondSource, .setLtS)
  | .shloLImm64 => some (.secondSource, .shloL64)
  | .shloRImm64 => some (.secondSource, .shloR64)
  | .sharRImm64 => some (.secondSource, .sharR64)
  | .rotR64Imm => some (.secondSource, .rotR64)
  | .negAddImm32 => some (.firstSource, .sub32)
  | .shloLImmAlt32 => some (.firstSource, .shloL32)
  | .shloRImmAlt32 => some (.firstSource, .shloR32)
  | .sharRImmAlt32 => some (.firstSource, .sharR32)
  | .rotR32ImmAlt => some (.firstSource, .rotR32)
  | .negAddImm64 => some (.firstSource, .sub64)
  | .setGtUImm => some (.firstSource, .setLtU)
  | .setGtSImm => some (.firstSource, .setLtS)
  | .shloLImmAlt64 => some (.firstSource, .shloL64)
  | .shloRImmAlt64 => some (.firstSource, .shloR64)
  | .sharRImmAlt64 => some (.firstSource, .sharR64)
  | .rotR64ImmAlt => some (.firstSource, .rotR64)
  | .cmovIzImm => some (.firstSource, .cmovIz)
  | .cmovNzImm => some (.firstSource, .cmovNz)
  | .branchEqImm => some (.rightSide, .branchEq)
  | .branchNeImm => some (.rightSide, .branchNe)
  | .branchLtUImm => some (.rightSide, .branchLtU)
  | .branchLtSImm => some (.rightSide, .branchLtS)
  | .branchGeUImm => some (.rightSide, .branchGeU)
  | .branchGeSImm => some (.rightSide, .branchGeS)
  | .branchLeUImm => some (.leftSide, .branchGeU)
  | .branchLeSImm => some (.leftSide, .branchGeS)
  | .branchGtUImm => some (.leftSide, .branchLtU)
  | .branchGtSImm => some (.leftSide, .branchLtS)
  | .loadU8 => some (.base, .loadIndU8)
  | .loadI8 => some (.base, .loadIndI8)
  | .loadU16 => some (.base, .loadIndU16)
  | .loadI16 => some (.base, .loadIndI16)
  | .loadU32 => some (.base, .loadIndU32)
  | .loadI32 => some (.base, .loadIndI32)
  | .loadU64 => some (.base, .loadIndU64)
  | .storeU8 => some (.base, .storeIndU8)
  | .storeU16 => some (.base, .storeIndU16)
  | .storeU32 => some (.base, .storeIndU32)
  | .storeU64 => some (.base, .storeIndU64)
  | .storeImmIndU8 => some (.stored, .storeIndU8)
  | .storeImmIndU16 => some (.stored, .storeIndU16)
  | .storeImmIndU32 => some (.stored, .storeIndU32)
  | .storeImmIndU64 => some (.stored, .storeIndU64)
  | .storeImmU8 => some (.storedAtBase, .storeIndU8)
  | .storeImmU16 => some (.storedAtBase, .storeIndU16)
  | .storeImmU32 => some (.storedAtBase, .storeIndU32)
  | .storeImmU64 => some (.storedAtBase, .storeIndU64)
  | _ => none

/-- Whether an action works on an immediate, or on memory at an address that is one.  Of the other
actions that take immediates, some only load them and some jump. -/
def Action.worksOnImmediate : Action → Bool
  | .storeImmediate _ | .storeImmediateIndirect _ | .load _ _ | .store _ | .branchImmediate _
  | .immediate32 _ | .immediate64 _ | .moveImmediateIf _ => true
  | _ => false

/-- How the action of an opcode and that of its register form are related. -/
inductive Placement.Relates : Placement → Action → Action → Prop
  | second32 (compute : UInt32 → UInt32 → UInt32) :
      Relates .secondSource (.immediate32 compute) (.binary32 compute)
  | second64 (compute : UInt64 → UInt64 → UInt64) :
      Relates .secondSource (.immediate64 compute) (.binary64 compute)
  | first32 (compute : UInt32 → UInt32 → UInt32) :
      Relates .firstSource (.immediate32 fun value immediate => compute immediate value)
        (.binary32 compute)
  | first64 (compute : UInt64 → UInt64 → UInt64) :
      Relates .firstSource (.immediate64 fun value immediate => compute immediate value)
        (.binary64 compute)
  | move (zero : Bool) : Relates .firstSource (.moveImmediateIf zero) (.moveIf zero)
  | right (holds : UInt64 → UInt64 → Bool) :
      Relates .rightSide (.branchImmediate holds) (.branch holds)
  | left (holds : UInt64 → UInt64 → Bool) :
      Relates .leftSide (.branchImmediate fun value immediate => holds immediate value)
        (.branch holds)
  | load (width : Nat) (signed : Bool) :
      Relates .base (.load width signed) (.loadIndirect width signed)
  | store (width : Nat) : Relates .base (.store width) (.storeIndirect width)
  | stored (width : Nat) : Relates .stored (.storeImmediateIndirect width) (.storeIndirect width)
  | storedAtBase (width : Nat) :
      Relates .storedAtBase (.storeImmediate width) (.storeIndirect width)

theorem Opcode.relates_of_registerForm {special general : Opcode} {placement : Placement}
    (hform : special.registerForm? = some (placement, general)) :
    placement.Relates special.action general.action := by
  cases special <;> cases hform <;> constructor

theorem Opcode.exists_registerForm {opcode : Opcode}
    (hworks : opcode.action.worksOnImmediate = true) :
    ∃ placement general, opcode.registerForm? = some (placement, general) := by
  cases opcode <;> cases hworks <;> exact ⟨_, _, rfl⟩

/-! ## Instructions -/

/-- The operands of an instruction and of its register form, when the registers hold what they have
to: the immediate with its sign extended, or zero. -/
inductive Placement.Places (registers : Registers) : Placement → Operands → Operands → Prop
  | firstSource {held : Reg} {value : UInt32} (target source : Reg)
      (hheld : registers.get held = Word.signExtend value) :
      Places registers .firstSource (.regRegImm target source value)
        (.regRegReg held source target)
  | secondSource {held : Reg} {value : UInt32} (target source : Reg)
      (hheld : registers.get held = Word.signExtend value) :
      Places registers .secondSource (.regRegImm target source value)
        (.regRegReg source held target)
  | leftSide {held : Reg} {value : UInt32} (source : Reg) (offset : UInt32)
      (hheld : registers.get held = Word.signExtend value) :
      Places registers .leftSide (.regImmOffset source value offset)
        (.regRegOffset held source offset)
  | rightSide {held : Reg} {value : UInt32} (source : Reg) (offset : UInt32)
      (hheld : registers.get held = Word.signExtend value) :
      Places registers .rightSide (.regImmOffset source value offset)
        (.regRegOffset source held offset)
  | base {zero : Reg} (register : Reg) (address : UInt32) (hzero : registers.get zero = 0) :
      Places registers .base (.regImm register address) (.regRegImm register zero address)
  | stored {held : Reg} {value : UInt32} (base : Reg) (offset : UInt32)
      (hheld : registers.get held = Word.signExtend value) :
      Places registers .stored (.regImmImm base offset value) (.regRegImm held base offset)
  | storedAtBase {held zero : Reg} {value : UInt32} (address : UInt32)
      (hheld : registers.get held = Word.signExtend value) (hzero : registers.get zero = 0) :
      Places registers .storedAtBase (.immImm address value) (.regRegImm held zero address)

/-- `general` does with registers what `special` does with an immediate. -/
def Instruction.RegisterForm (registers : Registers) (special general : Instruction) : Prop :=
  ∃ placement, special.opcode.registerForm? = some (placement, general.opcode) ∧
    placement.Places registers special.operands general.operands

theorem Registers.indirect_of_zero {registers : Registers} {zero : Reg}
    (hzero : registers.get zero = 0) (address : UInt32) :
    registers.indirect zero address = address := by
  rw [indirect, hzero]
  exact UInt32.zero_add address

/-- Programs that agree on whether a block starts at a target treat a branch there alike. -/
theorem Program.staticBranch_congr {direct indirect : Program} {pc offset : UInt32}
    (hblocks : direct.isBlockStart (pc + offset) = indirect.isBlockStart (pc + offset))
    (taken : Bool) :
    direct.staticBranch pc offset taken = indirect.staticBranch pc offset taken := by
  rw [staticBranch, staticBranch, hblocks]

theorem Request.ofAction_eq_of_relates {placement : Placement} {special general : Action}
    {direct indirect : Program} {pc : UInt32} {registers : Registers}
    {operands placed : Operands} (hrelates : placement.Relates special general)
    (hplaces : placement.Places registers operands placed)
    (hblocks : ∀ offset, operands.offset? = some offset →
      direct.isBlockStart (pc + offset) = indirect.isBlockStart (pc + offset)) :
    ofAction direct pc registers special operands =
      ofAction indirect pc registers general placed := by
  -- The operands decide where the immediate goes, and the actions that are left differ in width.
  -- On narrow words, cutting the register off gives back what was extended.
  cases hplaces with
  | firstSource target source hheld =>
      cases hrelates with
      | first32 compute => rw [ofAction, ofAction, hheld, Word.low_signExtend]
      | first64 compute => rw [ofAction, ofAction, hheld]
      | move zero => rw [ofAction, ofAction, hheld]
  | secondSource target source hheld =>
      cases hrelates with
      | second32 compute => rw [ofAction, ofAction, hheld, Word.low_signExtend]
      | second64 compute => rw [ofAction, ofAction, hheld]
  | leftSide source offset hheld =>
      cases hrelates with
      | left holds => rw [ofAction, ofAction, hheld, Program.staticBranch_congr (hblocks _ rfl)]
  | rightSide source offset hheld =>
      cases hrelates with
      | right holds => rw [ofAction, ofAction, hheld, Program.staticBranch_congr (hblocks _ rfl)]
  | base register address hzero =>
      cases hrelates with
      | load width signed => rw [ofAction, ofAction, Registers.indirect_of_zero hzero]
      | store width => rw [ofAction, ofAction, Registers.indirect_of_zero hzero]
  | stored base offset hheld =>
      cases hrelates with
      | stored width => rw [ofAction, ofAction, hheld]
  | storedAtBase address hheld hzero =>
      cases hrelates with
      | storedAtBase width => rw [ofAction, ofAction, hheld, Registers.indirect_of_zero hzero]

/-- An instruction and its form on registers come down to the same request. -/
theorem Instruction.RegisterForm.request_eq {μ : Type} {machine : Machine μ}
    {direct indirect : Program} {special general : Instruction}
    (hform : special.RegisterForm machine.registers general)
    (hblocks : ∀ offset, special.operands.offset? = some offset →
      direct.isBlockStart (machine.pc + offset) = indirect.isBlockStart (machine.pc + offset)) :
    machine.request direct special = machine.request indirect general := by
  obtain ⟨placement, hopcode, hplaces⟩ := hform
  exact Request.ofAction_eq_of_relates (Opcode.relates_of_registerForm hopcode) hplaces hblocks

/-! ## Steps -/

/-- Immediates can be held in registers.  Every opcode that works on an immediate has a register
form.  Whatever machine executes an instruction of one program, and in another program, at the
same place, its register form, the two steps have the same effect and leave the same registers,
memory and gas: both go on to the next instruction, or both jump to the same target, or both
stop for the same reason.  The programs only have to agree on whether a block starts at the
target of the branch, if the instruction is one. -/
theorem immediates_can_be_held_in_registers {μ : Type} [Memory μ] :
    (∀ opcode : Opcode, opcode.action.worksOnImmediate = true →
      ∃ placement general, opcode.registerForm? = some (placement, general)) ∧
    ∀ (machine : Machine μ) (direct indirect : Program) (special general : Instruction),
      direct.instructionAt machine.pc = .ok special →
      indirect.instructionAt machine.pc = .ok general →
      special.RegisterForm machine.registers general →
      (∀ offset, special.operands.offset? = some offset →
        direct.isBlockStart (machine.pc + offset) =
          indirect.isBlockStart (machine.pc + offset)) →
      ∃ effect after,
        machine.step direct = Machine.settle direct machine.pc (effect, after) ∧
          machine.step indirect = Machine.settle indirect machine.pc (effect, after) := by
  refine ⟨fun opcode => Opcode.exists_registerForm, ?_⟩
  intro machine direct indirect special general hspecial hgeneral hform hblocks
  -- Without gas no instruction is looked at, so that the two steps stop alike.
  cases hgas : machine.gas.exhausted with
  | true =>
      exact ⟨.exit .outOfGas, machine, Machine.step_of_exhausted direct hgas,
        Machine.step_of_exhausted indirect hgas⟩
  | false =>
      rcases hserve : (machine.charge 1).serve (machine.request indirect general) with
        ⟨effect, after⟩
      refine ⟨effect, after, ?_, ?_⟩
      · rw [Machine.step_of_instruction hgas hspecial, hform.request_eq hblocks, hserve]
      · rw [Machine.step_of_instruction hgas hgeneral, hserve]

def alone (code : List UInt8) : Program :=
  .ofImage ⟨ByteArray.empty, 0, 0, code.toByteArray, [0x01].toByteArray⟩

/-- A negative number is shifted as far as a register says, and a register is compared with a
negative number, which a further register holds. -/
theorem negative_immediates_held_in_register :
    (∃ effect after,
      (withWords 0xFFFFFFFFFFFFFFF0 0xFFFFFFFFFFFFFFF8).step
          (alone [Opcode.sharRImmAlt32.byte, 0x70, 0xF8]) =
        Machine.settle (alone [Opcode.sharRImmAlt32.byte, 0x70, 0xF8]) 0 (effect, after) ∧
      (withWords 0xFFFFFFFFFFFFFFF0 0xFFFFFFFFFFFFFFF8).step
          (alone [Opcode.sharR32.byte, 0x78, 0x00]) =
        Machine.settle (alone [Opcode.sharR32.byte, 0x78, 0x00]) 0 (effect, after)) ∧
    ∃ effect after,
      (withWords 0xFFFFFFFFFFFFFFF0 0xFFFFFFFFFFFFFFF8).step
          (alone [Opcode.branchLeSImm.byte, 0x17, 0xF8, 0x00]) =
        Machine.settle (alone [Opcode.branchLeSImm.byte, 0x17, 0xF8, 0x00]) 0 (effect, after) ∧
      (withWords 0xFFFFFFFFFFFFFFF0 0xFFFFFFFFFFFFFFF8).step
          (alone [Opcode.branchGeS.byte, 0x78, 0x00]) =
        Machine.settle (alone [Opcode.branchGeS.byte, 0x78, 0x00]) 0 (effect, after) := by
  obtain ⟨-, hsteps⟩ := immediates_can_be_held_in_registers (μ := SparseMemory)
  have hheld : (withWords 0xFFFFFFFFFFFFFFF0 0xFFFFFFFFFFFFFFF8).registers.get Reg.dataSize =
      Word.signExtend 0xFFFFFFF8 := by cbv
  constructor
  · refine hsteps (withWords _ _) _ _
      ⟨.sharRImmAlt32, .regRegImm Reg.returnAddress Reg.dataPointer 0xFFFFFFF8⟩
      ⟨.sharR32, .regRegReg Reg.dataSize Reg.dataPointer Reg.returnAddress⟩ (by cbv) (by cbv)
      ⟨.firstSource, rfl, .firstSource _ _ hheld⟩ ?_
    rintro offset ⟨⟩
  · refine hsteps (withWords _ _) _ _
      ⟨.branchLeSImm, .regImmOffset Reg.dataPointer 0xFFFFFFF8 0⟩
      ⟨.branchGeS, .regRegOffset Reg.dataSize Reg.dataPointer 0⟩ (by cbv) (by cbv)
      ⟨.leftSide, rfl, .leftSide _ _ hheld⟩ ?_
    rintro offset ⟨⟩
    cbv

end GasMachine
