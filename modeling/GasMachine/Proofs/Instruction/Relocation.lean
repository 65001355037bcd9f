import GasMachine.Proofs.Program.BuiltPrograms

/-!
# Moving instructions

An offset is relative to the instruction that has it.  To compare instructions at
different places, the offset is replaced by the place that it leads to; laying such
instructions out again gives each of them the offset that leads there from its new
place.
-/

namespace GasMachine

namespace Operands

def offset? : Operands → Option UInt32
  | .offset distance => some distance
  | .regImmOffset _ _ distance => some distance
  | .regRegOffset _ _ distance => some distance
  | _ => none

def shift (operands : Operands) (distance : UInt32) : Operands :=
  match operands.offset? with
  | some current => operands.withOffset (current + distance)
  | none => operands

theorem form_withOffset (operands : Operands) (distance : UInt32) :
    (operands.withOffset distance).form = operands.form := by
  cases operands <;> rfl

theorem form_shift (operands : Operands) (distance : UInt32) :
    (operands.shift distance).form = operands.form := by
  cases operands <;> rfl

theorem shift_shift (operands : Operands) (first second : UInt32) :
    (operands.shift first).shift second = operands.shift (first + second) := by
  cases operands <;> simp only [shift, offset?, withOffset, UInt32.add_assoc]

theorem shift_zero (operands : Operands) : operands.shift 0 = operands := by
  cases operands <;> simp only [shift, offset?, withOffset, UInt32.add_zero]

theorem withOffset_withOffset (operands : Operands) (first second : UInt32) :
    (operands.withOffset first).withOffset second = operands.withOffset second := by
  cases operands <;> rfl

/-- Without an offset there is nothing to replace. -/
theorem withOffset_of_offset?_eq_none {operands : Operands} (hnone : operands.offset? = none)
    (distance : UInt32) : operands.withOffset distance = operands := by
  cases operands <;> first | rfl | cases hnone

theorem offset?_withOffset {operands : Operands} (hsome : operands.offset?.isSome)
    (distance : UInt32) : (operands.withOffset distance).offset? = some distance := by
  cases operands <;> first | rfl | cases hsome

end Operands

namespace Instruction

def shift (instruction : Instruction) (distance : UInt32) : Instruction :=
  { instruction with operands := instruction.operands.shift distance }

/-- The instruction with the place that it leads to from `pc` instead of its offset. -/
def absolute (instruction : Instruction) (pc : UInt32) : Instruction :=
  instruction.shift pc

/-- The instruction with the offset that leads from `pc` to the place that it has instead of
one. -/
def relative (instruction : Instruction) (pc : UInt32) : Instruction :=
  instruction.shift (-pc)

theorem shift_shift (instruction : Instruction) (first second : UInt32) :
    (instruction.shift first).shift second = instruction.shift (first + second) := by
  rw [shift, shift, shift, Operands.shift_shift]

theorem shift_zero (instruction : Instruction) : instruction.shift 0 = instruction := by
  rw [shift, Operands.shift_zero]

theorem absolute_relative (instruction : Instruction) (pc : UInt32) :
    (instruction.relative pc).absolute pc = instruction := by
  rw [absolute, relative, shift_shift, UInt32.add_left_neg, shift_zero]

theorem relative_absolute (instruction : Instruction) (pc : UInt32) :
    (instruction.absolute pc).relative pc = instruction := by
  rw [absolute, relative, shift_shift, UInt32.add_right_neg, shift_zero]

/-- An instruction does not get longer or shorter when it is moved. -/
theorem length_encode_shift (instruction : Instruction) (distance : UInt32) :
    (instruction.shift distance).encode.length = instruction.encode.length := by
  rw [shift, encode, encode, List.length_cons, List.length_cons, Operands.shift]
  split
  · rw [length_encodeOperands_withOffset]
  · rfl

theorem wellFormed_shift (instruction : Instruction) (distance : UInt32) :
    (instruction.shift distance).WellFormed ↔ instruction.WellFormed := by
  rw [WellFormed, WellFormed, shift, Operands.form_shift]

end Instruction

namespace Program

def absolutes (pc : Nat) (instructions : List Instruction) : List Instruction :=
  (laidOut pc instructions).map fun entry => entry.2.absolute (UInt32.ofNat entry.1)

/-- The instructions that lead to the places they have instead of offsets when they are laid out
from `pc` on. -/
def relocated (pc : Nat) : List Instruction → List Instruction
  | [] => []
  | instruction :: rest =>
    instruction.relative (UInt32.ofNat pc) :: relocated (pc + instruction.encode.length) rest

theorem absolutes_cons (pc : Nat) (instruction : Instruction) (rest : List Instruction) :
    absolutes pc (instruction :: rest) =
      instruction.absolute (UInt32.ofNat pc) ::
        absolutes (pc + instruction.encode.length) rest :=
  rfl

theorem relocated_absolutes (pc : Nat) (instructions : List Instruction) :
    relocated pc (absolutes pc instructions) = instructions := by
  induction instructions generalizing pc with
  | nil => rfl
  | cons instruction rest ih =>
      have hlength : (instruction.absolute (UInt32.ofNat pc)).encode.length =
          instruction.encode.length := instruction.length_encode_shift _
      rw [absolutes_cons, relocated, hlength, ih, Instruction.relative_absolute]

theorem absolutes_relocated (pc : Nat) (instructions : List Instruction) :
    absolutes pc (relocated pc instructions) = instructions := by
  induction instructions generalizing pc with
  | nil => rfl
  | cons instruction rest ih =>
      have hlength : (instruction.relative (UInt32.ofNat pc)).encode.length =
          instruction.encode.length := instruction.length_encode_shift _
      rw [relocated, absolutes_cons, hlength, ih, Instruction.absolute_relative]

theorem wellFormed_of_mem_relocated {pc : Nat} {instructions : List Instruction}
    (hwellFormed : ∀ instruction ∈ instructions, instruction.WellFormed)
    {moved : Instruction} (hmoved : moved ∈ relocated pc instructions) : moved.WellFormed := by
  induction instructions generalizing pc with
  | nil => cases hmoved
  | cons instruction rest ih =>
      rcases List.mem_cons.mp hmoved with rfl | hrest
      · exact (instruction.wellFormed_shift _).mpr (hwellFormed _ List.mem_cons_self)
      · exact ih (fun later hlater => hwellFormed later (List.mem_cons_of_mem _ hlater)) hrest

end Program

end GasMachine
