import Mathlib.Data.List.GetD
import GasMachine.Program.Basic
import GasMachine.Proofs.Bytes.ByteAt

/-!
# Counting operand bytes

The number of operand bytes is read off a window of mask bits.  It is the number
of clear bits in front of the next set one, as long as that is within the limit;
so whoever knows the bits of a mask knows where the walk over the code goes on.
-/

namespace GasMachine

/-! ## Bits -/

theorem LittleEndian.testBit_toNat (bytes : List UInt8) (index : Nat) :
    (toNat bytes).testBit index = (bytes.getD (index / 8) 0).toNat.testBit (index % 8) := by
  induction bytes generalizing index with
  | nil => simp [toNat]
  | cons byte rest ih =>
      have hsum : toNat (byte :: rest) = 2 ^ 8 * toNat rest + byte.toNat :=
        Nat.add_comm _ _
      rw [hsum, Nat.testBit_two_pow_mul_add _ byte.toNat_lt]
      split
      · next hindex =>
          rw [Nat.div_eq_of_lt hindex, Nat.mod_eq_of_lt hindex, List.getD_cons_zero]
      · next hindex =>
          have hdiv : index / 8 = (index - 8) / 8 + 1 := by omega
          have hmod : index % 8 = (index - 8) % 8 := by omega
          rw [ih, hdiv, hmod, List.getD_cons_succ]

/-- The trailing zeros end at the first set bit, if it is within the width. -/
theorem Word.trailingZeros_spec (width value : Nat) :
    (∀ index < trailingZeros width value, value.testBit index = false) ∧
      (trailingZeros width value < width → value.testBit (trailingZeros width value) = true) := by
  induction width generalizing value with
  | zero => simp [trailingZeros]
  | succ width ih =>
      rw [trailingZeros]
      split
      · next hodd => simp [Nat.testBit_zero, hodd]
      · next heven =>
          obtain ⟨hclear, hset⟩ := ih (value / 2)
          constructor
          · intro index hindex
            cases index with
            | zero => simp [Nat.testBit_zero, heven]
            | succ index =>
                rw [Nat.testBit_succ]
                exact hclear index (Nat.lt_of_succ_lt_succ hindex)
          · intro hwidth
            rw [Nat.testBit_succ]
            exact hset (Nat.lt_of_succ_lt_succ hwidth)

namespace Bitmask

/-- Whether a bit of the mask is set.  All bits past the end are. -/
def isSet (bitmask : ByteArray) (index : Nat) : Bool :=
  (byteAt bitmask (index / 8)).toNat.testBit (index % 8)

theorem testBit_window (bitmask : ByteArray) (first : Nat) {index : Nat} (hindex : index < 32) :
    (window bitmask first).testBit index = isSet bitmask (8 * first + index) := by
  have hbyte : (8 * first + index) / 8 = first + index / 8 := by omega
  have hbit : (8 * first + index) % 8 = index % 8 := by omega
  rw [window, LittleEndian.testBit_toNat, isSet, hbyte, hbit]
  have hcases : index / 8 = 0 ∨ index / 8 = 1 ∨ index / 8 = 2 ∨ index / 8 = 3 := by omega
  rcases hcases with h | h | h | h <;> rw [h] <;> rfl

theorem isSet_of_size_le {bitmask : ByteArray} {index : Nat} (hindex : bitmask.size ≤ index / 8) :
    isSet bitmask index = true := by
  have hall : ∀ bit : Fin 8, (0xFF : UInt8).toNat.testBit bit = true := by decide
  rw [isSet, byteAt, dif_neg (Nat.not_lt.mpr hindex)]
  exact hall ⟨index % 8, Nat.mod_lt _ (by decide)⟩

/-- The bits that are skipped are clear, and a skip below the limit ends at a set bit. -/
theorem skip_spec (bitmask : ByteArray) (start : Nat) :
    (∀ count < skip bitmask start, isSet bitmask (start + 1 + count) = false) ∧
      (skip bitmask start < maxSkip →
        isSet bitmask (start + 1 + skip bitmask start) = true) := by
  rw [skip]
  split
  · next hpast =>
      simp only [Nat.not_lt_zero, false_imp_iff, implies_true, true_and, Nat.add_zero]
      intro
      exact isSet_of_size_le hpast
  · -- Seven bits of alignment and the limit together stay within the window.
    have hwindow {count : Nat} (hcount : count ≤ maxSkip) :
        (window bitmask ((start + 1) / 8) >>> ((start + 1) % 8)).testBit count =
          isSet bitmask (start + 1 + count) := by
      rw [maxSkip] at hcount
      rw [Nat.testBit_shiftRight, testBit_window _ _ (by omega)]
      congr 1
      omega
    generalize window bitmask ((start + 1) / 8) >>> ((start + 1) % 8) = bits at hwindow ⊢
    obtain ⟨hclear, hset⟩ := Word.trailingZeros_spec 32 bits
    constructor
    · intro count hcount
      rw [← hwindow (by omega)]
      exact hclear count (by omega)
    · intro hskip
      have hbelow : Word.trailingZeros 32 bits < maxSkip := by omega
      rw [Nat.min_eq_left (Nat.le_of_lt hbelow), ← hwindow (Nat.le_of_lt hbelow)]
      exact hset (Nat.lt_trans hbelow (by decide))

theorem skip_le_maxSkip (bitmask : ByteArray) (start : Nat) :
    skip bitmask start ≤ maxSkip := by
  rw [skip]
  split
  · exact Nat.zero_le _
  · exact Nat.min_le_right _ _

section Skipped

variable {bitmask : ByteArray} {start count : Nat}

theorem le_skip (hcount : count ≤ maxSkip)
    (hclear : ∀ index < count, isSet bitmask (start + 1 + index) = false) :
    count ≤ skip bitmask start := by
  obtain ⟨-, hstop⟩ := skip_spec bitmask start
  refine Nat.le_of_not_lt fun hless => ?_
  have hset := hstop (Nat.lt_of_lt_of_le hless hcount)
  rw [hclear _ hless] at hset
  cases hset

theorem skip_le (hset : isSet bitmask (start + 1 + count) = true) : skip bitmask start ≤ count := by
  obtain ⟨hskipped, -⟩ := skip_spec bitmask start
  refine Nat.le_of_not_lt fun hmore => ?_
  rw [hskipped _ hmore] at hset
  cases hset

/-- A start that is no further away than the limit is found. -/
theorem skip_eq (hcount : count ≤ maxSkip)
    (hclear : ∀ index < count, isSet bitmask (start + 1 + index) = false)
    (hset : isSet bitmask (start + 1 + count) = true) : skip bitmask start = count :=
  Nat.le_antisymm (skip_le hset) (le_skip hcount hclear)

end Skipped

/-! ## Marks -/

theorem isSet_zeros {count index : Nat} (hindex : index / 8 < count) :
    isSet (Bytes.zeros count) index = false := by
  have hbound : index / 8 < (Bytes.zeros count).size := by rwa [Bytes.size_zeros]
  rw [isSet, byteAt, dif_pos hbound, ← Bytes.byteAt_of_lt hbound, Bytes.byteAt_zeros]
  exact Nat.zero_testBit _

theorem size_mark (bitmask : ByteArray) (position : Nat) :
    (mark bitmask position).size = bitmask.size := by
  rw [mark]
  split
  · next hposition => exact Array.size_set hposition
  · rfl

theorem testBit_marked (byte : UInt8) (bit marked : Fin 8) :
    (byte ||| 1 <<< UInt8.ofNat marked).toNat.testBit bit =
      (byte.toNat.testBit bit || decide (bit = marked)) := by
  have hone : ∀ bit marked : Fin 8,
      ((1 : UInt8) <<< UInt8.ofNat marked).toNat.testBit bit = decide (bit = marked) := by
    decide
  rw [UInt8.toNat_or, Nat.testBit_or, hone]

theorem byteAt_mark {bitmask : ByteArray} {position : Nat}
    (hposition : position / 8 < bitmask.size) (index : Nat) :
    byteAt (mark bitmask position) index =
      if index = position / 8 then
        byteAt bitmask index ||| 1 <<< UInt8.ofNat (position % 8)
      else byteAt bitmask index := by
  simp only [byteAt, size_mark]
  by_cases hindex : index < bitmask.size
  · rw [dif_pos hindex, dif_pos hindex, ByteArray.getElem_eq_getElem_data]
    simp only [mark, dif_pos hposition, ByteArray.set, Array.getElem_set]
    split
    · next heq =>
        subst heq
        rw [if_pos rfl]
    · next hne =>
        rw [if_neg (Ne.symm hne)]
        rfl
  · have hne : index ≠ position / 8 := fun heq => hindex (heq ▸ hposition)
    rw [dif_neg hindex, dif_neg hindex, if_neg hne]

/-- Marking sets one bit and leaves the others. -/
theorem isSet_mark {bitmask : ByteArray} {position : Nat}
    (hposition : position / 8 < bitmask.size) (index : Nat) :
    isSet (mark bitmask position) index = (isSet bitmask index || decide (index = position)) := by
  rw [isSet, isSet, byteAt_mark hposition]
  split
  · next hbyte =>
      have hbit := testBit_marked (byteAt bitmask (index / 8))
        ⟨index % 8, Nat.mod_lt _ (by decide)⟩ ⟨position % 8, Nat.mod_lt _ (by decide)⟩
      have hiff : index % 8 = position % 8 ↔ index = position := by omega
      simpa only [Fin.mk.injEq, hiff] using hbit
  · next hbyte =>
      have hne : index ≠ position := fun heq => hbyte (congrArg (· / 8) heq)
      rw [decide_eq_false hne, Bool.or_false]

theorem isSet_foldl_mark (starts : List Nat) {bitmask : ByteArray}
    (hstarts : ∀ start ∈ starts, start / 8 < bitmask.size) (index : Nat) :
    isSet (starts.foldl mark bitmask) index =
      (isSet bitmask index || decide (index ∈ starts)) := by
  induction starts generalizing bitmask with
  | nil => simp
  | cons start rest ih =>
      have hstart := hstarts start List.mem_cons_self
      rw [List.foldl_cons, ih, isSet_mark hstart, Bool.or_assoc]
      · simp [← Bool.decide_or]
      · intro later hlater
        rw [size_mark]
        exact hstarts later (List.mem_cons_of_mem _ hlater)

end Bitmask

/-- The operand bytes of an instruction reach up to the next marked start or the end of the
code. -/
theorem CodeImage.skip_eq {image : CodeImage} {pc count : Nat} (hcount : count ≤ Bitmask.maxSkip)
    (hclear : ∀ index < count, Bitmask.isSet image.bitmask (pc + 1 + index) = false)
    (hsize : pc + 1 + count ≤ image.code.size)
    (hend : pc + 1 + count < image.code.size →
      Bitmask.isSet image.bitmask (pc + 1 + count) = true) :
    image.skip pc = count := by
  have hlower : count ≤ Bitmask.skip image.bitmask pc := Bitmask.le_skip hcount hclear
  have hupper (hinside : pc + 1 + count < image.code.size) :
      Bitmask.skip image.bitmask pc ≤ count :=
    Bitmask.skip_le (hend hinside)
  rw [CodeImage.skip]
  omega

end GasMachine
