import Mathlib
import GasMachine.Proofs.Instruction.Encoding

/-!
# Signed immediates

The bytes of an immediate are a number in two's complement: the last of them counts
with its sign.  Decoding computes that number by shifting the bytes to the top of a
word and back, and loses none of them.  A byte string that fits a word is therefore
the low end of the word that it decodes to, and since the encoder takes the first low
end from which a word is decoded, no other byte string undercuts it.
-/

namespace GasMachine

namespace LittleEndian

/-- The signed number whose little-endian bytes are given.  The last byte counts with
its sign, and no bytes are zero. -/
def toInt : List UInt8 → Int
  | [] => 0
  | [last] => last.toInt8.toInt
  | byte :: next :: rest => byte.toNat + 256 * toInt (next :: rest)

/-- A byte below a signed number leaves its sign where it was. -/
theorem bmod_cons (byte : UInt8) (value : Int) {size : Nat} (hsize : 0 < size)
    (heven : 2 ∣ size) :
    (byte.toNat + 256 * value).bmod (256 * size) = byte.toNat + 256 * value.bmod size := by
  have hbyte := byte.toNat_lt
  have hlower := Int.le_bmod (x := value) hsize
  have hupper := Int.bmod_lt (x := value) hsize
  have hwhole : (byte.toNat : Int) + 256 * value =
      byte.toNat + 256 * value.bmod size + (256 * size : Nat) * value.bdiv size := by
    have hparts := Int.bmod_add_bdiv value size
    push_cast
    linear_combination -256 * hparts
  rw [hwhole, Int.add_mul_bmod_self_left]
  apply Int.bmod_eq_of_le <;> push_cast <;> omega

/-- The signed number is the unsigned one, wrapped at half the range of the bytes. -/
theorem toInt_eq_bmod (bytes : List UInt8) :
    toInt bytes = (toNat bytes : Int).bmod (2 ^ (8 * bytes.length)) := by
  induction bytes using toInt.induct with
  | case1 => rfl
  | case2 last =>
      rw [toInt, toNat, toNat, Nat.mul_zero, Nat.add_zero]
      exact BitVec.toInt_eq_toNat_bmod last.toBitVec
  | case3 byte next rest ih =>
      have hrange : 2 ^ (8 * (byte :: next :: rest).length) =
          256 * 2 ^ (8 * (next :: rest).length) := by
        rw [List.length_cons, Nat.mul_add, Nat.pow_add, Nat.mul_comm]
      have heven : 2 ∣ 2 ^ (8 * (next :: rest).length) :=
        dvd_pow_self 2 (by simp)
      rw [toInt, ih, hrange, toNat, Nat.cast_add, Nat.cast_mul]
      exact (bmod_cons byte _ (Nat.two_pow_pos _) heven).symm

/-- Fewer low bytes of a number are the front of more. -/
theorem take_ofNat {count width : Nat} (hcount : count ≤ width) (value : Nat) :
    (ofNat width value).take count = ofNat count value := by
  induction count generalizing width value with
  | zero => rfl
  | succ count ih =>
      cases width with
      | zero => cases hcount
      | succ width => rw [ofNat, ofNat, List.take_succ_cons, ih (Nat.le_of_succ_le_succ hcount)]

end LittleEndian

namespace Immediate

/-- Shifting one to four bytes to the top of a word and back extends their sign. -/
theorem toInt_shifted (word : UInt32) {count : Nat} (hpos : 0 < count) (hcount : count ≤ 4) :
    ((word <<< UInt32.ofNat (32 - 8 * count)).toInt32 >>>
        (UInt32.ofNat (32 - 8 * count)).toInt32).toUInt32.toInt32.toInt =
      (word.toNat : Int).bmod (2 ^ (8 * count)) := by
  have hcases : count = 1 ∨ count = 2 ∨ count = 3 ∨ count = 4 := by omega
  rcases hcases with rfl | rfl | rfl | rfl
  · exact Word.toInt_sshiftRight_shiftLeft word.toBitVec 8 (by decide) (by decide)
  · exact Word.toInt_sshiftRight_shiftLeft word.toBitVec 16 (by decide) (by decide)
  · exact Word.toInt_sshiftRight_shiftLeft word.toBitVec 24 (by decide) (by decide)
  · exact Word.toInt_sshiftRight_shiftLeft word.toBitVec 32 (by decide) (by decide)

/-- A decoded immediate has the signed value of its bytes. -/
theorem toInt_decode (bytes : List UInt8) :
    (decode bytes).toInt32.toInt = LittleEndian.toInt (bytes.take 4) := by
  have hlength : (bytes.take 4).length ≤ 4 := List.length_take_le 4 bytes
  rw [decode, LittleEndian.toInt_eq_bmod]
  generalize bytes.take 4 = stored at hlength
  rcases Nat.eq_zero_or_pos stored.length with hnone | hsome
  · -- Both shifts are by the whole width, which counts as none, and the word is zero anyway.
    rw [List.length_eq_zero_iff.mp hnone]
    rfl
  · have hfits : LittleEndian.toNat stored < 2 ^ 32 := by
      refine Nat.lt_of_lt_of_le (LittleEndian.toNat_lt stored) ?_
      rw [Nat.one_shiftLeft]
      exact Nat.pow_le_pow_right Nat.two_pos (Nat.mul_le_mul_left 8 hlength)
    have hword := toInt_shifted (UInt32.ofNat (LittleEndian.toNat stored)) hsome hlength
    rwa [UInt32.toNat_ofNat_of_lt' hfits] at hword

/-- Extending the sign of an immediate leaves its bytes at the low end of the word. -/
theorem toNat_decode_mod {bytes : List UInt8} (hlength : bytes.length ≤ 4) :
    (decode bytes).toNat % 2 ^ (8 * bytes.length) = LittleEndian.toNat bytes := by
  have hsigned : ((decode bytes).toNat : Int).bmod (2 ^ 32) =
      (LittleEndian.toNat bytes : Int).bmod (2 ^ (8 * bytes.length)) := by
    have hdecode := toInt_decode bytes
    rw [List.take_of_length_le hlength, LittleEndian.toInt_eq_bmod] at hdecode
    exact (BitVec.toInt_eq_toNat_bmod (decode bytes).toBitVec).symm.trans hdecode
  have hdivides : ((2 ^ (8 * bytes.length) : Nat) : Int) ∣ (2 ^ 32 : Nat) :=
    Int.natCast_dvd_natCast.mpr (Nat.pow_dvd_pow 2 (by omega))
  -- A signed value is congruent to the unsigned one, for the word as for the bytes.
  have hlow : ((decode bytes).toNat : Int) % (2 ^ (8 * bytes.length) : Nat) =
      (LittleEndian.toNat bytes : Int) % (2 ^ (8 * bytes.length) : Nat) := by
    calc ((decode bytes).toNat : Int) % (2 ^ (8 * bytes.length) : Nat)
        = ((decode bytes).toNat : Int).bmod (2 ^ 32) % (2 ^ (8 * bytes.length) : Nat) := by
          rw [← Int.emod_emod_of_dvd _ hdivides, ← Int.emod_emod_of_dvd (Int.bmod _ _) hdivides,
            Int.bmod_emod]
      _ = (LittleEndian.toNat bytes : Int).bmod (2 ^ (8 * bytes.length)) %
            (2 ^ (8 * bytes.length) : Nat) := by
          rw [hsigned]
      _ = (LittleEndian.toNat bytes : Int) % (2 ^ (8 * bytes.length) : Nat) := Int.bmod_emod
  have hrange : LittleEndian.toNat bytes < 2 ^ (8 * bytes.length) := by
    rw [← Nat.one_shiftLeft]
    exact LittleEndian.toNat_lt bytes
  rw [← Nat.mod_eq_of_lt hrange]
  exact_mod_cast hlow

/-- The bytes of an immediate are the low bytes of the word that they decode to. -/
theorem ofNat_toNat_decode {bytes : List UInt8} (hlength : bytes.length ≤ 4) :
    LittleEndian.ofNat bytes.length (decode bytes).toNat = bytes := by
  apply LittleEndian.eq_of_toNat_eq (LittleEndian.length_ofNat _ _)
  rw [LittleEndian.toNat_ofNat, toNat_decode_mod hlength]

/-- No byte string is shorter than the encoding of what it decodes to. -/
theorem length_decode_le (bytes : List UInt8) : length (decode bytes) ≤ bytes.length := by
  obtain ⟨hlength, -, hshorter⟩ := length_spec (decode bytes)
  refine Nat.le_of_not_lt fun hless => hshorter bytes.length hless ?_
  rw [ofNat_toNat_decode (Nat.le_trans (Nat.le_of_lt hless) hlength)]

/-- Immediates are signed and shortest.  A byte string decodes to the word with the
two's-complement value of its first four bytes, or of all of them if there are fewer.
A word is decoded from as many of its low bytes as its length says, and from no byte
string that is shorter. -/
theorem immediates_are_signed_and_shortest :
    (∀ bytes : List UInt8,
      (decode bytes).toInt32.toInt = LittleEndian.toInt (bytes.take 4)) ∧
    ∀ value : UInt32,
      decode ((LittleEndian.ofNat 4 value.toNat).take (length value)) = value ∧
      ∀ bytes : List UInt8, decode bytes = value → length value ≤ bytes.length := by
  refine ⟨toInt_decode, fun value => ⟨?_, ?_⟩⟩
  · rw [LittleEndian.take_ofNat (length_le value)]
    exact decode_encode value
  · rintro bytes rfl
    exact length_decode_le bytes

/-- The least number of two bytes may be given a third one, but takes two only. -/
theorem leastHalfWord_takes_two_bytes :
    decode [0x00, 0x80, 0xFF] = 0xFFFF8000 ∧
      (0xFFFF8000 : UInt32).toInt32.toInt = -0x8000 ∧ length 0xFFFF8000 = 2 ∧
      decode ((LittleEndian.ofNat 4 0xFFFF8000).take 2) = 0xFFFF8000 ∧
      length 0xFFFF8000 ≤ [0x00, 0x80, (0xFF : UInt8)].length := by
  have hlength : length 0xFFFF8000 = 2 := by decide +kernel
  have hdecode : decode [0x00, 0x80, 0xFF] = 0xFFFF8000 := by decide +kernel
  obtain ⟨hsigned, hshortest⟩ := immediates_are_signed_and_shortest
  obtain ⟨hfront, hleast⟩ := hshortest 0xFFFF8000
  refine ⟨hdecode, ?_, hlength, ?_, hleast _ hdecode⟩
  · rw [← hdecode, hsigned]
    rfl
  · rwa [hlength] at hfront

end Immediate

end GasMachine
