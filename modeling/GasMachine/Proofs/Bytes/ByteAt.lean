import GasMachine.Bytes.Basic

/-!
# Byte strings by position

A byte string is known by its size and by the byte at each position, where
positions past the end hold zero.  Each operation on byte strings is described
here by what it does to size and bytes, so that later proofs go position by
position and never look inside.
-/

namespace GasMachine.Bytes

variable {bytes left right source target : ByteArray} {index : Nat}

theorem byteAt_of_lt (hindex : index < bytes.size) : byteAt bytes index = bytes[index] := by
  rw [byteAt, dif_pos hindex]

theorem byteAt_of_size_le (hindex : bytes.size ≤ index) : byteAt bytes index = 0 := by
  rw [byteAt, dif_neg (Nat.not_lt.mpr hindex)]

theorem ext_byteAt (hsize : left.size = right.size)
    (hbytes : ∀ index < left.size, byteAt left index = byteAt right index) :
    left = right := by
  apply ByteArray.ext_getElem hsize
  intro index hleft hright
  rw [← byteAt_of_lt hleft, ← byteAt_of_lt hright]
  exact hbytes index hleft

@[simp]
theorem size_zeros (count : Nat) : (zeros count).size = count := by
  simp [zeros, ByteArray.size]

@[simp]
theorem byteAt_zeros (count index : Nat) : byteAt (zeros count) index = 0 := by
  rcases Nat.lt_or_ge index (zeros count).size with hindex | hindex
  · rw [byteAt_of_lt hindex, ByteArray.getElem_eq_getElem_data]
    simp [zeros]
  · exact byteAt_of_size_le hindex

theorem byteAt_append (left right : ByteArray) (index : Nat) :
    byteAt (left ++ right) index =
      if index < left.size then byteAt left index else byteAt right (index - left.size) := by
  have hsize : (left ++ right).size = left.size + right.size := ByteArray.size_append
  rcases Nat.lt_or_ge index (left ++ right).size with hindex | hindex
  · rw [byteAt_of_lt hindex]
    split
    · next hleft => rw [byteAt_of_lt hleft, ByteArray.getElem_append_left hleft]
    · next hleft =>
        have hright : index - left.size < right.size := by omega
        rw [byteAt_of_lt hright, ByteArray.getElem_append_right (Nat.not_lt.mp hleft)]
  · rw [byteAt_of_size_le hindex, if_neg (by omega), byteAt_of_size_le (by omega)]

theorem byteAt_extract (bytes : ByteArray) (start stop index : Nat) :
    byteAt (bytes.extract start stop) index =
      if start + index < stop then byteAt bytes (start + index) else 0 := by
  have hsize : (bytes.extract start stop).size = min stop bytes.size - start :=
    ByteArray.size_extract
  rcases Nat.lt_or_ge index (bytes.extract start stop).size with hindex | hindex
  · rw [byteAt_of_lt hindex, ByteArray.getElem_extract, if_pos (by omega),
      byteAt_of_lt (by omega)]
  · rw [byteAt_of_size_le hindex]
    split
    · rw [byteAt_of_size_le (by omega)]
    · rfl

section Slices

variable {sourceStart targetStart count : Nat}
variable (hsource : sourceStart + count ≤ source.size)
include hsource

/-- A slice that its source has replaces as many bytes as it takes. -/
theorem copySlice_eq :
    source.copySlice sourceStart target targetStart count =
      target.extract 0 targetStart ++ source.extract sourceStart (sourceStart + count) ++
        target.extract (targetStart + count) target.size := by
  have hcount : min count (source.size - sourceStart) = count := by omega
  rw [ByteArray.copySlice_eq_append, ByteArray.size_data, ByteArray.size_data, hcount]

variable (htarget : targetStart + count ≤ target.size)
include htarget

theorem size_copySlice :
    (source.copySlice sourceStart target targetStart count).size = target.size := by
  rw [copySlice_eq hsource]
  simp only [ByteArray.size_append, ByteArray.size_extract]
  omega

theorem byteAt_copySlice (index : Nat) :
    byteAt (source.copySlice sourceStart target targetStart count) index =
      if targetStart ≤ index ∧ index < targetStart + count then
        byteAt source (sourceStart + (index - targetStart))
      else byteAt target index := by
  have hfront : (target.extract 0 targetStart).size = targetStart := by
    rw [ByteArray.size_extract]
    omega
  have hmiddle : (source.extract sourceStart (sourceStart + count)).size = count := by
    rw [ByteArray.size_extract]
    omega
  rw [copySlice_eq hsource]
  simp only [byteAt_append, byteAt_extract, ByteArray.size_append, hfront, hmiddle]
  by_cases hbefore : index < targetStart
  · rw [if_pos (by omega), if_pos hbefore, if_pos (by omega), if_neg (by omega),
      Nat.zero_add]
  · by_cases hinside : index < targetStart + count
    · rw [if_pos hinside, if_neg hbefore, if_pos (by omega), if_pos (by omega)]
    · have hposition : targetStart + count + (index - (targetStart + count)) = index := by
        omega
      have hrange : ¬ (targetStart ≤ index ∧ index < targetStart + count) := by omega
      rw [if_neg hinside, if_neg hrange, hposition]
      split
      · rfl
      · next hpast => rw [byteAt_of_size_le (Nat.not_lt.mp hpast)]

end Slices

end GasMachine.Bytes
