import Mathlib
import GasMachine.Memory.Sparse
import GasMachine.Proofs.Machine.Rounds

/-!
# Exact arithmetic

Division and the upper half of a product are where word arithmetic has exceptions
on other machines.  Here there are none.  A quotient by zero and the one quotient
that does not fit obey the same law as all others, because the law is read modulo
the width of the operands.  A product of two words fits twice the width, whichever
of its factors are signed, so that its upper half and the wrapped product make up
the whole of it.
-/

namespace GasMachine

/-! ## What an opcode writes -/

/-- The machine past an instruction that was paid for and has written a register. -/
def Machine.written {μ : Type} (program : Program) (machine : Machine μ) (target : Reg)
    (value : UInt64) : Machine μ where
  pc := program.following machine.pc
  registers := machine.registers.set target value
  gas := machine.gas.consume 1
  memory := machine.memory

theorem Machine.register_written {μ : Type} (program : Program) (machine : Machine μ)
    (target : Reg) (value : UInt64) :
    (machine.written program target value).register target = value :=
  Registers.get_set_self _ _ _

/-- Whatever machine executes the opcode on two registers with the given words goes on, and has
only written the result. -/
def Opcode.Computes (opcode : Opcode) (left right result : UInt64) : Prop :=
  ∀ {μ : Type} [Memory μ] (program : Program) (machine : Machine μ) (first second target : Reg),
    machine.gas.exhausted = false →
    program.instructionAt machine.pc = .ok ⟨opcode, .regRegReg first second target⟩ →
    machine.register first = left → machine.register second = right →
      machine.step program = (.running, machine.written program target result)

/-- What an action makes of the words in two source registers. -/
def Action.result? : Action → UInt64 → UInt64 → Option UInt64
  | .binary32 compute, left, right =>
    some (Word.signExtend (compute (Word.low left) (Word.low right)))
  | .binary64 compute, left, right => some (compute left right)
  | _, _, _ => none

theorem Request.ofAction_of_result {action : Action} {left right result : UInt64}
    (hresult : action.result? left right = some result) (program : Program) (pc : UInt32)
    {registers : Registers} {first second : Reg} (target : Reg)
    (hleft : registers.get first = left) (hright : registers.get second = right) :
    ofAction program pc registers action (.regRegReg first second target) =
      .assign registers target result := by
  subst hleft hright
  cases action
  case binary32 | binary64 =>
    obtain rfl := Option.some.inj hresult
    rfl
  all_goals cases hresult

theorem Opcode.computes_of_result {opcode : Opcode} {left right result : UInt64}
    (hresult : opcode.action.result? left right = some result) :
    opcode.Computes left right result := by
  intro μ _ program machine first second target hgas hinstruction hleft hright
  rw [Machine.step_of_instruction hgas hinstruction, Machine.request,
    Request.ofAction_of_result hresult program machine.pc target hleft hright]
  rfl

/-! ## Numbers -/

namespace Word

/-- The number that bits stand for, with or without a sign. -/
def reading {bits : Nat} (signed : Bool) (word : BitVec bits) : Int :=
  if signed then word.toInt else word.toNat

@[simp] theorem reading_false {bits : Nat} (word : BitVec bits) :
    reading false word = word.toNat := rfl

@[simp] theorem reading_true {bits : Nat} (word : BitVec bits) :
    reading true word = word.toInt := rfl

theorem ofInt_reading {bits : Nat} (signed : Bool) (word : BitVec bits) :
    BitVec.ofInt bits (reading signed word) = word := by
  cases signed with
  | false => rw [reading_false, BitVec.ofInt_natCast, BitVec.ofNat_toNat, BitVec.setWidth_eq]
  | true => exact BitVec.ofInt_toInt

theorem reading_zero (bits : Nat) (signed : Bool) : reading signed (BitVec.ofNat bits 0) = 0 := by
  cases signed <;> simp

theorem reading_ne_zero {bits : Nat} (signed : Bool) {word : BitVec bits}
    (hword : word ≠ BitVec.ofNat bits 0) : reading signed word ≠ 0 := by
  intro hzero
  rw [← ofInt_reading signed word, hzero] at hword
  exact hword (BitVec.ofInt_ofNat bits 0)

/-- Cutting off what a sign extension added gives the word back. -/
theorem setWidth_signExtend {bits wider : Nat} (hwider : bits ≤ wider) (word : BitVec bits) :
    (word.signExtend wider).setWidth bits = word := by
  apply BitVec.eq_of_getLsbD_eq
  intro index hindex
  simp only [BitVec.getLsbD_setWidth, BitVec.getLsbD_signExtend, hindex, if_true,
    Nat.lt_of_lt_of_le hindex hwider, decide_true, Bool.true_and]

theorem low_signExtend (value : UInt32) : low (signExtend value) = value :=
  UInt32.toBitVec_inj.mp (setWidth_signExtend (show 32 ≤ 64 by decide) value.toBitVec)

/-! ## Quotients and remainders -/

/-- The quotient of two words, which has all bits one if the divisor is zero. -/
def quotient {bits : Nat} (signed : Bool) (left right : BitVec bits) : BitVec bits :=
  if right = BitVec.ofNat bits 0 then BitVec.allOnes bits
  else if signed then left.sdiv right else left / right

/-- The remainder of two words, which is the dividend if the divisor is zero. -/
def remainder {bits : Nat} (signed : Bool) (left right : BitVec bits) : BitVec bits :=
  if right = BitVec.ofNat bits 0 then left else if signed then left.srem right else left % right

section Division

variable {bits : Nat} (signed : Bool) (left right : BitVec bits)

/-- Division rounds towards zero, and wraps around where the quotient does not fit. -/
theorem quotient_eq_ofInt (hright : right ≠ BitVec.ofNat bits 0) :
    quotient signed left right =
      BitVec.ofInt bits ((reading signed left).tdiv (reading signed right)) := by
  rw [quotient, if_neg hright]
  cases signed with
  | false =>
      rw [reading_false, reading_false, ← Int.ofNat_tdiv, BitVec.ofInt_natCast,
        ← BitVec.toNat_udiv, BitVec.ofNat_toNat, BitVec.setWidth_eq]
      rfl
  | true =>
      -- The least word by minus one is included: both sides are taken modulo the width.
      apply BitVec.eq_of_toInt_eq
      exact (BitVec.toInt_sdiv left right).trans (BitVec.toInt_ofInt _).symm

/-- The remainder always fits, and that of a division by zero is no exception. -/
theorem reading_remainder :
    reading signed (remainder signed left right) =
      (reading signed left).tmod (reading signed right) := by
  rw [remainder]
  split
  · next hright => rw [hright, reading_zero, Int.tmod_zero]
  · cases signed with
    | false =>
        rw [if_neg Bool.false_ne_true, reading_false, reading_false, reading_false,
          BitVec.toNat_umod, Int.ofNat_tmod]
    | true => exact BitVec.toInt_srem left right

/-- Quotient and remainder make up the dividend again, whatever the divisor is. -/
theorem quotient_mul_add_remainder :
    quotient signed left right * right + remainder signed left right = left := by
  by_cases hright : right = BitVec.ofNat bits 0
  · rw [remainder, if_pos hright, hright, BitVec.mul_zero, BitVec.zero_add]
  · calc quotient signed left right * right + remainder signed left right
        = BitVec.ofInt bits ((reading signed left).tdiv (reading signed right)) *
              BitVec.ofInt bits (reading signed right) +
            BitVec.ofInt bits ((reading signed left).tmod (reading signed right)) := by
          rw [quotient_eq_ofInt signed left right hright, ← reading_remainder, ofInt_reading,
            ofInt_reading]
      _ = BitVec.ofInt bits (reading signed left) := by
          rw [← BitVec.ofInt_mul, ← BitVec.ofInt_add, Int.tdiv_mul_add_tmod]
      _ = left := ofInt_reading signed left

end Division

theorem signExtend_ite_eq_zero (word most rest : UInt32) :
    signExtend (if word = 0 then most else rest) =
      ⟨(if word.toBitVec = BitVec.ofNat 32 0 then most.toBitVec
        else rest.toBitVec).signExtend 64⟩ := by
  have hbits := (apply_ite UInt32.toBitVec (word = 0) most rest).trans
    (if_congr UInt32.toBitVec_inj.symm rfl rfl)
  exact UInt64.toBitVec_inj.mp (congrArg (BitVec.signExtend 64) hbits)

theorem ite_eq_zero_eq_signExtend (word most rest : UInt64) :
    (if word = 0 then most else rest) =
      ⟨(if word.toBitVec = BitVec.ofNat 64 0 then most.toBitVec
        else rest.toBitVec).signExtend 64⟩ := by
  have hbits := (apply_ite UInt64.toBitVec (word = 0) most rest).trans
    (if_congr UInt64.toBitVec_inj.symm rfl rfl)
  exact UInt64.toBitVec_inj.mp (hbits.trans (BitVec.signExtend_eq _).symm)

end Word

structure Division where
  wide : Bool
  signed : Bool

namespace Division

def quotient : Division → Opcode
  | ⟨false, false⟩ => .divU32
  | ⟨false, true⟩ => .divS32
  | ⟨true, false⟩ => .divU64
  | ⟨true, true⟩ => .divS64

def remainder : Division → Opcode
  | ⟨false, false⟩ => .remU32
  | ⟨false, true⟩ => .remS32
  | ⟨true, false⟩ => .remU64
  | ⟨true, true⟩ => .remS64

def bits (division : Division) : Nat :=
  if division.wide then 64 else 32

/-- The low bits of a register, which are all that is looked at. -/
def operand (division : Division) (word : UInt64) : BitVec division.bits :=
  word.toBitVec.setWidth division.bits

def number (division : Division) (word : UInt64) : Int :=
  Word.reading division.signed (division.operand word)

def extended (division : Division) (result : BitVec division.bits) : UInt64 :=
  ⟨result.signExtend 64⟩

theorem operand_extended (division : Division) (result : BitVec division.bits) :
    division.operand (division.extended result) = result := by
  have hbits : division.bits ≤ 64 := by
    rw [bits]
    split <;> decide
  exact Word.setWidth_signExtend hbits result

theorem computes_quotient (division : Division) (left right : UInt64) :
    division.quotient.Computes left right
      (division.extended
        (Word.quotient division.signed (division.operand left) (division.operand right))) := by
  apply Opcode.computes_of_result
  rcases division with ⟨_ | _, _ | _⟩
  · exact congrArg some (Word.signExtend_ite_eq_zero _ _ _)
  · exact congrArg some (Word.signExtend_ite_eq_zero _ _ _)
  · exact congrArg some (Word.ite_eq_zero_eq_signExtend _ _ _)
  · exact congrArg some (Word.ite_eq_zero_eq_signExtend _ _ _)

theorem computes_remainder (division : Division) (left right : UInt64) :
    division.remainder.Computes left right
      (division.extended
        (Word.remainder division.signed (division.operand left) (division.operand right))) := by
  apply Opcode.computes_of_result
  rcases division with ⟨_ | _, _ | _⟩
  · exact congrArg some (Word.signExtend_ite_eq_zero _ _ _)
  · exact congrArg some (Word.signExtend_ite_eq_zero _ _ _)
  · exact congrArg some (Word.ite_eq_zero_eq_signExtend _ _ _)
  · exact congrArg some (Word.ite_eq_zero_eq_signExtend _ _ _)

theorem signExtend_low_extended {division : Division} (hnarrow : division.wide = false)
    (result : BitVec division.bits) :
    Word.signExtend (Word.low (division.extended result)) = division.extended result := by
  obtain ⟨wide, signed⟩ := division
  obtain rfl : wide = false := hnarrow
  exact congrArg Word.signExtend
    (UInt32.toBitVec_inj.mp (operand_extended ⟨false, signed⟩ result))

theorem modEq_of_operand {division : Division} {quotient right remainder left : UInt64}
    (hlaw : division.operand quotient * division.operand right + division.operand remainder =
      division.operand left) :
    quotient.toNat * right.toNat + remainder.toNat ≡ left.toNat [MOD 2 ^ division.bits] := by
  have hlow := congrArg BitVec.toNat hlaw
  simp only [operand, BitVec.toNat_add, BitVec.toNat_mul, BitVec.toNat_setWidth,
    UInt64.toNat_toBitVec] at hlow
  rw [Nat.ModEq, ← hlow]
  simp [Nat.add_mod, Nat.mul_mod]

/-- Quotients and remainders obey one law without exceptions.  Whatever the registers hold, both
opcodes of a pair go on and write words, sign-extended if the operands are narrow.  The quotient
times the divisor plus the remainder is the dividend, modulo the width of the operands.  Where
the divisor is not zero, the remainder is smaller than it and has the sign of the dividend, if
any. -/
theorem divisions_obey_one_law (division : Division) (left right : UInt64) :
    ∃ quotient remainder : UInt64,
      division.quotient.Computes left right quotient ∧
      division.remainder.Computes left right remainder ∧
      (division.wide = false →
        Word.signExtend (Word.low quotient) = quotient ∧
          Word.signExtend (Word.low remainder) = remainder) ∧
      (quotient.toNat * right.toNat + remainder.toNat ≡ left.toNat [MOD 2 ^ division.bits]) ∧
      (right.toNat % 2 ^ division.bits ≠ 0 →
        (division.number remainder).natAbs < (division.number right).natAbs ∧
          (division.number remainder = 0 ∨
            (division.number remainder).sign = (division.number left).sign)) := by
  refine ⟨_, _, division.computes_quotient left right, division.computes_remainder left right,
    fun hnarrow => ⟨signExtend_low_extended hnarrow _, signExtend_low_extended hnarrow _⟩, ?_, ?_⟩
  · apply modEq_of_operand
    rw [operand_extended, operand_extended]
    exact Word.quotient_mul_add_remainder _ _ _
  · intro hright
    have hdivisor : division.number right ≠ 0 := by
      apply Word.reading_ne_zero
      intro hzero
      have hnat := congrArg BitVec.toNat hzero
      simp only [operand, BitVec.toNat_setWidth, UInt64.toNat_toBitVec, BitVec.toNat_zero] at hnat
      exact hright hnat
    have hremainder : division.number (division.extended (Word.remainder division.signed
        (division.operand left) (division.operand right))) =
          (division.number left).tmod (division.number right) := by
      rw [number, operand_extended]
      exact Word.reading_remainder _ _ _
    rw [hremainder]
    constructor
    · rw [Int.natAbs_tmod]
      exact Nat.mod_lt _ (Int.natAbs_pos.mpr hdivisor)
    · have hsign := Int.sign_tmod (division.number left) (division.number right)
      split at hsign
      · exact .inl (Int.sign_eq_zero_iff_zero.mp hsign)
      · exact .inr hsign

end Division

def onTwoWords (opcode : Opcode) : Program :=
  .ofImage ⟨ByteArray.empty, 0, 0, [opcode.byte, 0x87, 0].toByteArray, [0x01].toByteArray⟩

def withWords (left right : UInt64) : Machine SparseMemory where
  pc := 0
  registers := (Registers.zero.set Reg.dataPointer left).set Reg.dataSize right
  gas := ⟨1⟩
  memory := .empty 0

/-- The quotient of the least signed word by minus one does not fit, but obeys the law. -/
theorem least_word_by_minus_one :
    ∃ divided reduced,
      (withWords 0x8000000000000000 0xFFFFFFFFFFFFFFFF).step (onTwoWords .divS64) =
        (.running, divided) ∧
      (withWords 0x8000000000000000 0xFFFFFFFFFFFFFFFF).step (onTwoWords .remS64) =
        (.running, reduced) ∧
      reduced.register Reg.returnAddress = 0 ∧
      (divided.register Reg.returnAddress).toNat * (0xFFFFFFFFFFFFFFFF : UInt64).toNat +
        (reduced.register Reg.returnAddress).toNat ≡
          (0x8000000000000000 : UInt64).toNat [MOD 2 ^ 64] := by
  obtain ⟨quotient, remainder, hquotient, hremainder, -, hlaw, hsmall⟩ :=
    Division.divisions_obey_one_law ⟨true, true⟩ 0x8000000000000000 0xFFFFFFFFFFFFFFFF
  have hdivided := hquotient (onTwoWords .divS64) (withWords _ _) Reg.dataPointer
    Reg.dataSize Reg.returnAddress (by cbv) (by cbv) (by cbv) (by cbv)
  have hreduced := hremainder (onTwoWords .remS64) (withWords _ _) Reg.dataPointer
    Reg.dataSize Reg.returnAddress (by cbv) (by cbv) (by cbv) (by cbv)
  have hzero : remainder = 0 := by
    have hlt : (Word.reading true remainder.toBitVec).natAbs < 1 := (hsmall (by decide)).1
    by_contra hne
    have hreading := Word.reading_ne_zero true fun h => hne (UInt64.toBitVec_inj.mp h)
    omega
  refine ⟨_, _, hdivided, hreduced, ?_, ?_⟩
  · rw [Machine.register_written, hzero]
  · rw [Machine.register_written, Machine.register_written]
    exact hlaw

/-! ## Wide products -/

namespace Word

/-- A number that bits stand for, with or without a sign. -/
def Fits (bits : Nat) (signed : Bool) (number : Int) : Prop :=
  if signed then -2 ^ (bits - 1) ≤ number ∧ number < 2 ^ (bits - 1)
  else 0 ≤ number ∧ number < 2 ^ bits

/-- The 128-bit word with the number that a word stands for. -/
def widened (signed : Bool) (word : UInt64) : BitVec 128 :=
  if signed then word.toBitVec.signExtend 128 else word.toBitVec.setWidth 128

theorem fits_reading {bits : Nat} (signed : Bool) (word : BitVec bits) :
    Fits bits signed (reading signed word) := by
  cases signed with
  | false =>
      have hlt : (word.toNat : Int) < 2 ^ bits := by exact_mod_cast word.isLt
      exact ⟨Int.natCast_nonneg _, hlt⟩
  | true => exact ⟨BitVec.le_toInt word, BitVec.toInt_lt⟩

theorem reading_ofInt {bits : Nat} (hbits : 0 < bits) {signed : Bool} {number : Int}
    (hfits : Fits bits signed number) : reading signed (BitVec.ofInt bits number) = number := by
  cases signed with
  | false =>
      obtain ⟨hnonneg, hlt⟩ := hfits
      have hcast : ((2 ^ bits : Nat) : Int) = 2 ^ bits := by push_cast; rfl
      rw [reading_false, BitVec.toNat_ofInt, hcast, Int.emod_eq_of_lt hnonneg hlt,
        Int.toNat_of_nonneg hnonneg]
  | true =>
      obtain ⟨hleast, hlt⟩ := hfits
      exact BitVec.toInt_ofInt_eq_self hbits hleast hlt

/-- The upper half of a number that fits both halves fits one. -/
theorem Fits.upper {signed : Bool} {number : Int} (hfits : Fits 128 signed number) :
    Fits 64 signed (number / 2 ^ 64) := by
  cases signed with
  | false =>
      obtain ⟨hnonneg, hlt⟩ := hfits
      exact ⟨Int.ediv_nonneg hnonneg (by decide), Int.ediv_lt_of_lt_mul (by decide) hlt⟩
  | true =>
      obtain ⟨hleast, hlt⟩ := hfits
      exact ⟨Int.le_ediv_of_mul_le (by decide) hleast, Int.ediv_lt_of_lt_mul (by decide) hlt⟩

theorem abs_reading_le (signed : Bool) (word : BitVec 64) :
    |reading signed word| ≤ if signed then 2 ^ 63 else 2 ^ 64 - 1 := by
  have hfits := fits_reading signed word
  cases signed with
  | false =>
      obtain ⟨hnonneg, hlt⟩ := hfits
      rw [abs_of_nonneg hnonneg]
      exact Int.le_sub_one_of_lt hlt
  | true =>
      obtain ⟨hleast, hlt⟩ := hfits
      exact abs_le.mpr ⟨hleast, hlt.le⟩

theorem widened_eq_ofInt (signed : Bool) (word : UInt64) :
    widened signed word = BitVec.ofInt 128 (reading signed word.toBitVec) := by
  cases signed with
  | false =>
      rw [reading_false, BitVec.ofInt_natCast]
      exact (BitVec.ofNat_toNat 128 word.toBitVec).symm
  | true => rfl

/-- Widening keeps the number, also where it gets a sign that it did not have. -/
theorem reading_widened {signed wide : Bool} (hsigned : signed = true → wide = true)
    (word : UInt64) : reading wide (widened signed word) = reading signed word.toBitVec := by
  rw [widened_eq_ofInt]
  apply reading_ofInt (by decide)
  have hbounds := abs_le.mp (abs_reading_le signed word.toBitVec)
  cases signed with
  | false =>
      have hnonneg : 0 ≤ reading false word.toBitVec := Int.natCast_nonneg _
      have hlt := hbounds.2.trans_lt (show (2 ^ 64 - 1 : Int) < 2 ^ 127 by decide)
      cases wide with
      | false => exact ⟨hnonneg, hlt.trans (by decide)⟩
      | true => exact ⟨le_trans (by decide) hnonneg, hlt⟩
  | true =>
      rw [hsigned rfl]
      exact ⟨le_trans (by decide) hbounds.1, hbounds.2.trans_lt (by decide)⟩

theorem toBitVec_ofInt (number : Int) :
    (UInt64.ofInt number).toBitVec = BitVec.ofInt 64 number := by
  apply BitVec.eq_of_toNat_eq
  rw [BitVec.toNat_ofInt]
  show (number % 2 ^ 64).toNat % 2 ^ 64 = _
  omega

/-- A product of 128-bit words whose number fits does not overflow. -/
theorem not_overflow_of_fits {left right : BitVec 128} {signed : Bool}
    (hfits : Fits 128 signed (reading signed left * reading signed right)) :
    (if signed then left.smulOverflow right else left.umulOverflow right) = false := by
  cases signed with
  | false =>
      obtain ⟨-, hlt⟩ := hfits
      rw [reading_false, reading_false] at hlt
      have hnat : left.toNat * right.toNat < 2 ^ 128 := by exact_mod_cast hlt
      simpa [BitVec.umulOverflow] using hnat
  | true =>
      obtain ⟨hleast, hlt⟩ := hfits
      simpa [BitVec.smulOverflow] using ⟨hlt, hleast⟩

end Word

/-- The opcodes for the upper half of a product, by the factors that are signed. -/
inductive WideProduct where
  | unsigned
  | signed
  /-- Only the first factor is signed. -/
  | mixed

namespace WideProduct

open Word

def upper : WideProduct → Opcode
  | unsigned => .mulUpperUU
  | signed => .mulUpperSS
  | mixed => .mulUpperSU

/-- Whether the first factor is signed, and so is the product. -/
def leftSigned : WideProduct → Bool
  | unsigned => false
  | signed | mixed => true

def rightSigned : WideProduct → Bool
  | signed => true
  | unsigned | mixed => false

def exact (product : WideProduct) (left right : UInt64) : Int :=
  reading product.leftSigned left.toBitVec * reading product.rightSigned right.toBitVec

def overflows (product : WideProduct) (left right : BitVec 128) : Bool :=
  if product.leftSigned then left.smulOverflow right else left.umulOverflow right

theorem fits_exact (product : WideProduct) (left right : UInt64) :
    Fits 128 product.leftSigned (product.exact left right) := by
  have hleft := abs_reading_le product.leftSigned left.toBitVec
  have hright := abs_reading_le product.rightSigned right.toBitVec
  -- The magnitudes are multiplied before the cases are split: the mixed product, of at most
  -- `2 ^ 63 * (2 ^ 64 - 1)`, is the one that leaves the least room.
  have hmost := mul_le_mul hleft hright (abs_nonneg _) ((abs_nonneg _).trans hleft)
  rw [← abs_mul, ← exact] at hmost
  have hbounds := abs_le.mp hmost
  cases product with
  | unsigned =>
      have hnonneg : 0 ≤ unsigned.exact left right :=
        mul_nonneg (Int.natCast_nonneg _) (Int.natCast_nonneg _)
      exact ⟨hnonneg, hbounds.2.trans_lt (by decide)⟩
  | signed | mixed =>
      exact ⟨le_trans (by decide) hbounds.1, hbounds.2.trans_lt (by decide)⟩

theorem computes_upper (product : WideProduct) (left right : UInt64) :
    product.upper.Computes left right (.ofInt (product.exact left right / 2 ^ 64)) := by
  apply Opcode.computes_of_result
  cases product with
  | unsigned =>
      refine congrArg some (UInt64.toBitVec_inj.mp ?_)
      rw [toBitVec_ofInt]
      exact (BitVec.ofInt_natCast 64 (left.toNat * right.toNat / 2 ^ 64)).symm
  | signed => rfl
  | mixed => rfl

/-- Whatever the signs, the wrapped product is the lower half. -/
theorem toNat_mul_eq_emod (product : WideProduct) (left right : UInt64) :
    ((left * right).toNat : Int) = product.exact left right % 2 ^ 64 := by
  have hwrapped : (left * right).toBitVec = BitVec.ofInt 64 (product.exact left right) := by
    rw [exact, BitVec.ofInt_mul, ofInt_reading, ofInt_reading]
    rfl
  rw [← UInt64.toNat_toBitVec, hwrapped, BitVec.toNat_ofInt]
  exact Int.toNat_of_nonneg (Int.emod_nonneg _ (by decide))

theorem widened_mul_widened (product : WideProduct) (left right : UInt64) :
    widened product.leftSigned left * widened product.rightSigned right =
      BitVec.ofInt 128 (product.exact left right) := by
  rw [widened_eq_ofInt, widened_eq_ofInt, ← BitVec.ofInt_mul, exact]

theorem overflows_eq_false (product : WideProduct) (left right : UInt64) :
    product.overflows (widened product.leftSigned left) (widened product.rightSigned right) =
      false := by
  have hsigned : product.rightSigned = true → product.leftSigned = true := by
    cases product <;> decide
  apply not_overflow_of_fits
  rw [reading_widened id, reading_widened hsigned]
  exact product.fits_exact left right

/-- Wide products are exact.  The upper half, read as a number with the sign of the product, and
the wrapped product, read without a sign, make up the product of the two numbers.  That number
fits 128 bits, so multiplying words of that width does not overflow, and its upper half is what
is written. -/
theorem wide_products_are_exact (product : WideProduct) (left right : UInt64) :
    ∃ upper lower : UInt64,
      product.upper.Computes left right upper ∧ Opcode.mul64.Computes left right lower ∧
      reading product.leftSigned upper.toBitVec * 2 ^ 64 + lower.toNat =
        reading product.leftSigned left.toBitVec * reading product.rightSigned right.toBitVec ∧
      product.overflows (widened product.leftSigned left) (widened product.rightSigned right) =
        false ∧
      upper.toBitVec = BitVec.extractLsb' 64 64
        (widened product.leftSigned left * widened product.rightSigned right) := by
  refine ⟨_, _, product.computes_upper left right, Opcode.computes_of_result rfl, ?_,
    product.overflows_eq_false left right, ?_⟩
  · have hupper := (product.fits_exact left right).upper
    rw [toBitVec_ofInt, reading_ofInt (by decide) hupper, product.toNat_mul_eq_emod left right]
    exact Int.ediv_mul_add_emod _ _
  · rw [toBitVec_ofInt, widened_mul_widened]
    apply BitVec.eq_of_toNat_eq
    rw [BitVec.extractLsb'_toNat, BitVec.toNat_ofInt, BitVec.toNat_ofInt,
      Nat.shiftRight_eq_div_pow]
    omega

end WideProduct

/-- The least signed word times the greatest unsigned one, which comes closest to not fitting. -/
theorem least_word_by_greatest :
    ∃ upper lower,
      (withWords 0x8000000000000000 0xFFFFFFFFFFFFFFFF).step (onTwoWords .mulUpperSU) =
        (.running, upper) ∧
      (withWords 0x8000000000000000 0xFFFFFFFFFFFFFFFF).step (onTwoWords .mul64) =
        (.running, lower) ∧
      (upper.register Reg.returnAddress).toInt64.toInt * 2 ^ 64 +
        (lower.register Reg.returnAddress).toNat = -2 ^ 127 + 2 ^ 63 := by
  obtain ⟨upper, lower, hupper, hlower, hwhole, -⟩ :=
    WideProduct.mixed.wide_products_are_exact 0x8000000000000000 0xFFFFFFFFFFFFFFFF
  have hhigh := hupper (onTwoWords .mulUpperSU) (withWords _ _) Reg.dataPointer
    Reg.dataSize Reg.returnAddress (by cbv) (by cbv) (by cbv) (by cbv)
  have hlow := hlower (onTwoWords .mul64) (withWords _ _) Reg.dataPointer
    Reg.dataSize Reg.returnAddress (by cbv) (by cbv) (by cbv) (by cbv)
  refine ⟨_, _, hhigh, hlow, ?_⟩
  rw [Machine.register_written, Machine.register_written]
  exact hwhole

end GasMachine
