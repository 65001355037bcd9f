import GasMachine.Word

/-!
# Words and their bytes

The bytes of a word and the word of some bytes determine each other.  This holds
of narrow words as well, whose sign is extended when they are loaded.
-/

namespace GasMachine

namespace LittleEndian

theorem toNat_lt (bytes : List UInt8) : toNat bytes < 1 <<< (8 * bytes.length) := by
  induction bytes with
  | nil => simp [toNat]
  | cons byte rest ih =>
      have hbyte := byte.toNat_lt
      have hshift : 1 <<< (8 * (rest.length + 1)) = 256 * (1 <<< (8 * rest.length)) := by
        simp only [Nat.one_shiftLeft, Nat.mul_add, Nat.pow_add]
        omega
      rw [toNat, List.length_cons, hshift]
      omega

/-- A number has one representation of each length. -/
theorem eq_of_toNat_eq {left right : List UInt8} (hlength : left.length = right.length)
    (hvalue : toNat left = toNat right) : left = right := by
  induction left generalizing right with
  | nil => exact (List.length_eq_zero_iff.mp hlength.symm).symm
  | cons byte rest ih =>
      cases right with
      | nil => cases hlength
      | cons other others =>
          have hbyte := byte.toNat_lt
          have hother := other.toNat_lt
          simp only [toNat] at hvalue
          have hfirst : byte.toNat = other.toNat := by omega
          have hrest : toNat rest = toNat others := by omega
          rw [UInt8.toNat_inj.mp hfirst, ih (Nat.succ.inj hlength) hrest]

theorem toNat_decode {bytes : List UInt8} (hlength : bytes.length ≤ 8) :
    (decode bytes).toNat = toNat bytes := by
  have hshift : 1 <<< (8 * bytes.length) ≤ UInt64.size := by
    rw [Nat.one_shiftLeft]
    exact Nat.pow_le_pow_right Nat.two_pos (Nat.mul_le_mul_left 8 hlength)
  rw [decode, List.take_of_length_le hlength]
  exact UInt64.toNat_ofNat_of_lt' (Nat.lt_of_lt_of_le (toNat_lt bytes) hshift)

theorem eq_of_decode_eq {left right : List UInt8} (hlength : left.length = right.length)
    (hshort : left.length ≤ 8) (hdecode : decode left = decode right) : left = right := by
  apply eq_of_toNat_eq hlength
  rw [← toNat_decode hshort, hdecode, toNat_decode (hlength ▸ hshort)]

theorem size_encode (value : UInt64) (width : Nat) :
    (encode value width).toByteArray.size = min width 8 := by
  rw [encode, List.size_toByteArray, length_ofNat]

end LittleEndian

namespace Word

/-- Shifting up again takes back an arithmetic shift down by as much. -/
theorem shiftLeft_sshiftRight_shiftLeft (value : BitVec 64) (distance : Nat) :
    ((value <<< distance).sshiftRight distance) <<< distance = value <<< distance := by
  apply BitVec.eq_of_getLsbD_eq
  intro index hindex
  simp only [BitVec.getLsbD_shiftLeft, BitVec.getLsbD_sshiftRight]
  by_cases hlow : index < distance
  · simp [hlow]
  · have hback : distance + (index - distance) = index := by omega
    have hinside : ¬ 64 ≤ index - distance := by omega
    simp [hindex, hlow, hback, hinside]

/-- Shifting a word up and down again leaves the signed value of its low bits. -/
theorem toInt_sshiftRight_shiftLeft {width : Nat} (value : BitVec width) (bits : Nat)
    (hpos : 0 < bits) (hbits : bits ≤ width) :
    ((value <<< (width - bits)).sshiftRight (width - bits)).toInt =
      (value.toNat : Int).bmod (1 <<< bits) := by
  have hextend : (value <<< (width - bits)).sshiftRight (width - bits) =
      (value.setWidth bits).signExtend width := by
    apply BitVec.eq_of_getLsbD_eq
    intro index hindex
    simp only [BitVec.getLsbD_sshiftRight, BitVec.getLsbD_shiftLeft, BitVec.getLsbD_signExtend,
      BitVec.msb_eq_getLsbD_last]
    grind
  rw [hextend, BitVec.toInt_signExtend_of_le hbits, BitVec.toInt_eq_toNat_bmod,
    BitVec.toNat_setWidth, Nat.one_shiftLeft, Int.natCast_emod, Int.emod_bmod]

theorem shiftLeft_signExtendLow {width : Nat} (hwidth : width ∈ [1, 2, 4]) (value : UInt64) :
    signExtendLow (8 * UInt64.ofNat width) value <<< (64 - 8 * UInt64.ofNat width) =
      value <<< (64 - 8 * UInt64.ofNat width) := by
  apply UInt64.toBitVec_inj.mp
  simp only [List.mem_cons, List.not_mem_nil, or_false] at hwidth
  rcases hwidth with rfl | rfl | rfl
  · exact shiftLeft_sshiftRight_shiftLeft value.toBitVec 56
  · exact shiftLeft_sshiftRight_shiftLeft value.toBitVec 48
  · exact shiftLeft_sshiftRight_shiftLeft value.toBitVec 32

/-- Extending the sign of one, two or four bytes loses nothing. -/
theorem eq_of_signExtendLow_eq {width : Nat} (hwidth : width ∈ [1, 2, 4]) {left right : UInt64}
    (hleft : left.toNat < 1 <<< (8 * width)) (hright : right.toNat < 1 <<< (8 * width))
    (hvalue : signExtendLow (8 * UInt64.ofNat width) left =
      signExtendLow (8 * UInt64.ofNat width) right) : left = right := by
  have hshift : left <<< (64 - 8 * UInt64.ofNat width) =
      right <<< (64 - 8 * UInt64.ofNat width) := by
    rw [← shiftLeft_signExtendLow hwidth, hvalue, shiftLeft_signExtendLow hwidth]
  have hnat := congrArg UInt64.toNat hshift
  apply UInt64.toNat_inj.mp
  simp only [List.mem_cons, List.not_mem_nil, or_false] at hwidth
  rcases hwidth with rfl | rfl | rfl
  all_goals
    simp [UInt64.toNat_shiftLeft, Nat.shiftLeft_eq] at hnat hleft hright
    omega

end Word

end GasMachine
