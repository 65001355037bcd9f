import GasMachine.Program.Standard
import GasMachine.Proofs.Bytes.Words

/-!
# Limits of programs that were read from blobs

Parsing refuses sizes over its limits, and the fields of a standard program are
too narrow for large ones.  Everything later that computes addresses in words
relies on these bounds.
-/

namespace GasMachine

namespace Program

theorem naturalAt_le {blob : ByteArray} {position limit value stop : Nat}
    (hnatural : naturalAt blob position limit = some (value, stop)) : value ≤ limit := by
  unfold naturalAt at hnatural
  split at hnatural
  · split at hnatural
    · next hle =>
        obtain ⟨rfl, _⟩ := Prod.mk.inj (Option.some.inj hnatural)
        exact hle
    · cases hnatural
  · cases hnatural

theorem parseHeader_codeSize_le {blob : ByteArray} {header : Header}
    (hheader : parseHeader blob = .ok header) : header.codeSize ≤ maxCodeSize := by
  unfold parseHeader at hheader
  split at hheader
  · cases hheader
  · split at hheader
    · split at hheader
      · split at hheader
        · cases hheader
        · next hcode =>
            obtain rfl := Except.ok.inj hheader
            exact naturalAt_le hcode
      · cases hheader
    · cases hheader

/-- The code of a program that was read from a blob is within the limit. -/
theorem size_code_le_of_parse {blob : ByteArray} {program : Program}
    (hparse : parse blob = .ok program) : program.image.code.size ≤ maxCodeSize := by
  unfold parse at hparse
  split at hparse
  · cases hparse
  · next header hheader =>
      split at hparse
      · obtain rfl := Except.ok.inj hparse
        have hcode := parseHeader_codeSize_le hheader
        simp only [ofImage, ByteArray.size_extract, Header.bitmaskStart]
        omega
      · cases hparse

end Program

namespace StandardProgram

/-- A field of `width` bytes holds a number of that width. -/
theorem field_lt (blob : ByteArray) (position width : Nat) (hwidth : width ≤ 8) :
    field blob position width < 1 <<< (8 * width) := by
  have hlength : ((Bytes.present blob position width).take 8).length ≤ width := by
    simp only [Bytes.present, List.length_take, Array.length_toList]
    have hsize : (blob.extract position (position + width)).data.size =
        min (position + width) blob.size - position := ByteArray.size_extract
    omega
  have hvalue : LittleEndian.toNat ((Bytes.present blob position width).take 8) <
      1 <<< (8 * width) := by
    refine Nat.lt_of_lt_of_le (LittleEndian.toNat_lt _) ?_
    simp only [Nat.one_shiftLeft]
    exact Nat.pow_le_pow_right (by decide) (Nat.mul_le_mul_left 8 hlength)
  have hword : 1 <<< (8 * width) ≤ UInt64.size := by
    rw [Nat.one_shiftLeft]
    exact Nat.pow_le_pow_right (by decide) (by omega : 8 * width ≤ 64)
  rw [field, LittleEndian.decode, UInt64.toNat_ofNat_of_lt' (Nat.lt_of_lt_of_le hvalue hword)]
  exact hvalue

/-- A standard program that was read from a blob leaves room in the address
space. -/
theorem footprint_le_of_parse {blob : ByteArray} {standard : StandardProgram}
    (hparse : parse blob = .ok standard) :
    footprint standard.readOnly.size standard.readWrite.size standard.heapPages.toNat
      standard.stackSize.toNat ≤ AddressSpace.size := by
  have hpages := field_lt blob 6 2 (by decide)
  have hstack := field_lt blob 8 3 (by decide)
  unfold parse at hparse
  extract_lets readOnlySize readWriteSize heapPages stackSize required readWriteStart sizeStart
    programStart programEnd at hparse
  split at hparse
  · cases hparse
  split at hparse
  · cases hparse
  next hrequired =>
  split at hparse
  · cases hparse
  next hprogram =>
  split at hparse
  · cases hparse
  split at hparse
  · cases hparse
  · obtain rfl := Except.ok.inj hparse
    have hreadOnly : (blob.extract headerSize readWriteStart).size = readOnlySize := by
      rw [ByteArray.size_extract]
      omega
    have hreadWrite : (blob.extract readWriteStart sizeStart).size = readWriteSize := by
      rw [ByteArray.size_extract]
      omega
    have hpages : (UInt16.ofNat heapPages).toNat = heapPages := UInt16.toNat_ofNat_of_lt' hpages
    have hstack : (UInt32.ofNat stackSize).toNat = stackSize :=
      UInt32.toNat_ofNat_of_lt' (Nat.lt_trans hstack (by decide))
    dsimp only
    rw [hreadOnly, hreadWrite, hpages, hstack]
    exact Nat.not_lt.mp hrequired

end StandardProgram

end GasMachine
