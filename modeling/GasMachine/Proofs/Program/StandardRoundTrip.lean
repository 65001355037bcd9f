import GasMachine.Proofs.Bytes.ByteAt
import GasMachine.Proofs.Program.BlobFormat
import GasMachine.Proofs.Program.BlobLimits
import GasMachine.Proofs.Program.BuiltPrograms

/-!
# Standard programs and their blobs

Writing a standard program cuts each size to the width of its field, so what is
written is read back as the same program exactly if nothing was cut and the
nested program is within its own limits.  Bytes behind the blob do not count.
The fields are too narrow for a layout that does not fit the address space.
-/

namespace GasMachine

namespace Program

/-- A program within its limits takes far fewer bytes than its size field counts. -/
theorem size_encode_lt {image : CodeImage} (hproportioned : image.Proportioned)
    (hlimits : image.WithinLimits) : (ofImage image).encode.size < 2 ^ 32 := by
  have hwritten := spells_encode hproportioned hlimits
  have hcount := hwritten.countForm.length_le
  have hlength := hwritten.lengthForm.length_le
  have htable : image.entryCount * image.entryWidth.toNat ≤ 2 ^ 20 * 8 :=
    Nat.mul_le_mul hlimits.entryCount hlimits.entryWidth
  have hcode := hlimits.code
  rw [hwritten.blob_eq]
  simp only [ByteArray.size_append, List.size_toByteArray, List.length_singleton,
    hproportioned.jumpTable, hproportioned.bitmask]
  omega

theorem parse_ne_layoutTooLarge (blob : ByteArray) (required : Nat) :
    parse blob ≠ .error (.layoutTooLarge required) := by
  intro hparse
  rw [parse] at hparse
  split at hparse
  · next error hheader =>
      obtain rfl := Except.error.inj hparse
      rw [parseHeader] at hheader
      repeat' split at hheader
      all_goals cases hheader
  · split at hparse <;> cases hparse

/-- Whether it was read or built, the sections of a program fit together and its entries are
within their limit. -/
theorem proportioned_of_parse_or_build {program : Program}
    (hprogram : (∃ blob, parse blob = .ok program) ∨
      ∃ builder : Builder, builder.build = program) :
    program.image.Proportioned ∧ program.image.entryWidth.toNat ≤ 8 := by
  cases hprogram with
  | inl hparsed =>
      obtain ⟨blob, hparse⟩ := hparsed
      obtain ⟨count, length, hspells⟩ := exists_spells_of_parse hparse
      exact ⟨hspells.proportioned, hspells.withinLimits.entryWidth⟩
  | inr hbuilt =>
      obtain ⟨builder, rfl⟩ := hbuilt
      refine ⟨builder.proportioned, ?_⟩
      calc builder.image.entryWidth.toNat
        _ = builder.entryWidth := builder.toNat_entryWidth
        _ ≤ 4 := builder.entryWidth_le
        _ ≤ 8 := by decide

end Program

namespace StandardProgram

/-! ## Fields -/

/-- A field holds what of a number fits its width. -/
theorem field_eq (front : ByteArray) {blob rest : ByteArray} {position width value : Nat}
    (hblob : blob = front ++ ((LittleEndian.ofNat width value).toByteArray ++ rest))
    (hposition : position = front.size) (hwidth : width ≤ 8) :
    field blob position width = value % 2 ^ (8 * width) := by
  rw [field, hblob, hposition, Bytes.present_append, ByteArray.toList_data_append,
    List.toList_data_toByteArray, List.take_left' (LittleEndian.length_ofNat width value),
    LittleEndian.toNat_decode, LittleEndian.toNat_ofNat]
  rwa [LittleEndian.length_ofNat]

/-- The fields of a header are too narrow for a layout beyond the address space. -/
theorem footprint_fields_le (blob : ByteArray) :
    footprint (field blob 0 3) (field blob 3 3) (field blob 6 2) (field blob 8 3) ≤
      AddressSpace.size := by
  have hreadOnly := field_lt blob 0 3 (by decide)
  have hreadWrite := field_lt blob 3 3 (by decide)
  have hpages := field_lt blob 6 2 (by decide)
  have hstack := field_lt blob 8 3 (by decide)
  simp only [footprint, AddressSpace.roundUpToZone, AddressSpace.roundUp, AddressSpace.zoneSize,
    AddressSpace.pageSize, AddressSpace.argumentLimit, AddressSpace.size]
  simp only [Nat.reduceMul, Nat.reduceShiftLeft] at hreadOnly hreadWrite hpages hstack
  omega

def sizeStart (blob : ByteArray) : Nat :=
  headerSize + field blob 0 3 + field blob 3 3

def programEnd (blob : ByteArray) : Nat :=
  sizeStart blob + 4 + field blob (sizeStart blob) 4

/-- The layout always fits, so a blob is read exactly if it holds all its sections and the
section of the program is one. -/
theorem parse_eq_ok_iff (blob : ByteArray) (standard : StandardProgram) :
    parse blob = .ok standard ↔
      programEnd blob ≤ blob.size ∧
      Program.parse (blob.extract (sizeStart blob + 4) (programEnd blob)) =
        .ok standard.program ∧
      standard.readOnly = blob.extract headerSize (headerSize + field blob 0 3) ∧
      standard.readWrite = blob.extract (headerSize + field blob 0 3) (sizeStart blob) ∧
      standard.heapPages = UInt16.ofNat (field blob 6 2) ∧
      standard.stackSize = UInt32.ofNat (field blob 8 3) := by
  have hends : programEnd blob = sizeStart blob + 4 + field blob (sizeStart blob) 4 := rfl
  have hstarts : sizeStart blob = headerSize + field blob 0 3 + field blob 3 3 := rfl
  constructor
  · intro hparse
    rw [parse] at hparse
    dsimp only at hparse
    rw [if_neg (Nat.not_lt.mpr (footprint_fields_le blob))] at hparse
    split at hparse
    · cases hparse
    · split at hparse
      · cases hparse
      · split at hparse
        · cases hparse
        · next hend =>
            split at hparse
            · cases hparse
            · next program hprogram =>
                obtain rfl := Except.ok.inj hparse
                exact ⟨Nat.not_lt.mp hend, hprogram, rfl, rfl, rfl, rfl⟩
  · intro ⟨hend, hprogram, hreadOnly, hreadWrite, hpages, hstack⟩
    rw [parse, if_neg (by omega)]
    dsimp only
    rw [if_neg (Nat.not_lt.mpr (footprint_fields_le blob)), ← hstarts, ← hends,
      if_neg (by omega), if_neg (Nat.not_lt.mpr hend), hprogram, ← hreadOnly, ← hreadWrite,
      ← hpages, ← hstack]

/-- What was read is within the widths of its fields. -/
theorem sizes_lt_of_parse {blob : ByteArray} {standard : StandardProgram}
    (hparse : parse blob = .ok standard) :
    standard.readOnly.size < 2 ^ 24 ∧ standard.readWrite.size < 2 ^ 24 ∧
      standard.stackSize.toNat < 2 ^ 24 := by
  obtain ⟨-, -, hreadOnly, hreadWrite, -, hstack⟩ := (parse_eq_ok_iff blob standard).mp hparse
  have hfirst := field_lt blob 0 3 (by decide)
  have hsecond := field_lt blob 3 3 (by decide)
  have hthird := field_lt blob 8 3 (by decide)
  rw [hreadOnly, hreadWrite, hstack, ByteArray.size_extract, ByteArray.size_extract,
    UInt32.toNat_ofNat_of_lt' (Nat.lt_trans hthird (by decide)), sizeStart]
  simp only [Nat.reduceMul, Nat.reduceShiftLeft] at hfirst hsecond hthird
  refine ⟨?_, ?_, ?_⟩ <;> omega

/-! ## Reading what was written -/

/-- A written blob, section by section. -/
theorem encode_append (standard : StandardProgram) (trailing : ByteArray) :
    standard.encode ++ trailing =
      (LittleEndian.ofNat 3 standard.readOnly.size).toByteArray ++
      ((LittleEndian.ofNat 3 standard.readWrite.size).toByteArray ++
      ((LittleEndian.ofNat 2 standard.heapPages.toNat).toByteArray ++
      ((LittleEndian.ofNat 3 standard.stackSize.toNat).toByteArray ++
      (standard.readOnly ++ (standard.readWrite ++
      ((LittleEndian.ofNat 4 standard.program.encode.size).toByteArray ++
      (standard.program.encode ++ trailing))))))) := by
  rw [encode]
  simp only [List.toByteArray_append, ByteArray.append_assoc]

section Written

variable (standard : StandardProgram) (trailing : ByteArray)

theorem field_readOnly :
    field (standard.encode ++ trailing) 0 3 = standard.readOnly.size % 2 ^ 24 := by
  apply field_eq ByteArray.empty
  · rw [encode_append, ByteArray.empty_append]
  · rfl
  · decide

theorem field_readWrite :
    field (standard.encode ++ trailing) 3 3 = standard.readWrite.size % 2 ^ 24 := by
  apply field_eq (LittleEndian.ofNat 3 standard.readOnly.size).toByteArray
  · exact encode_append standard trailing
  · rfl
  · decide

theorem field_heapPages :
    field (standard.encode ++ trailing) 6 2 = standard.heapPages.toNat % 2 ^ 16 := by
  apply field_eq ((LittleEndian.ofNat 3 standard.readOnly.size).toByteArray ++
    (LittleEndian.ofNat 3 standard.readWrite.size).toByteArray)
  · rw [encode_append]
    simp only [ByteArray.append_assoc]
    rfl
  · simp only [ByteArray.size_append, List.size_toByteArray, LittleEndian.length_ofNat]
  · decide

theorem field_stackSize :
    field (standard.encode ++ trailing) 8 3 = standard.stackSize.toNat % 2 ^ 24 := by
  apply field_eq ((LittleEndian.ofNat 3 standard.readOnly.size).toByteArray ++
    (LittleEndian.ofNat 3 standard.readWrite.size).toByteArray ++
    (LittleEndian.ofNat 2 standard.heapPages.toNat).toByteArray)
  · rw [encode_append]
    simp only [ByteArray.append_assoc]
    rfl
  · simp only [ByteArray.size_append, List.size_toByteArray, LittleEndian.length_ofNat]
  · decide

def header : ByteArray :=
  (LittleEndian.ofNat 3 standard.readOnly.size ++ LittleEndian.ofNat 3 standard.readWrite.size ++
    LittleEndian.ofNat 2 standard.heapPages.toNat ++
    LittleEndian.ofNat 3 standard.stackSize.toNat).toByteArray

theorem size_header : standard.header.size = headerSize := by
  simp only [header, List.size_toByteArray, List.length_append, LittleEndian.length_ofNat,
    headerSize]

variable {standard}

variable (standard) in
/-- A written blob, with the header in one. -/
theorem encode_append_eq_header :
    standard.encode ++ trailing =
      standard.header ++ standard.readOnly ++ standard.readWrite ++
        (LittleEndian.ofNat 4 standard.program.encode.size).toByteArray ++
        standard.program.encode ++ trailing := rfl

section Uncut

variable (hreadOnly : standard.readOnly.size < 2 ^ 24)
variable (hreadWrite : standard.readWrite.size < 2 ^ 24)
include hreadOnly hreadWrite

theorem sizeStart_encode :
    sizeStart (standard.encode ++ trailing) =
      headerSize + standard.readOnly.size + standard.readWrite.size := by
  rw [sizeStart, field_readOnly, field_readWrite, Nat.mod_eq_of_lt hreadOnly,
    Nat.mod_eq_of_lt hreadWrite]

variable (hsize : standard.program.encode.size < 2 ^ 32)
include hsize

theorem programEnd_encode :
    programEnd (standard.encode ++ trailing) =
      headerSize + standard.readOnly.size + standard.readWrite.size + 4 +
        standard.program.encode.size := by
  have hstart := sizeStart_encode trailing hreadOnly hreadWrite
  have hfield : field (standard.encode ++ trailing)
      (sizeStart (standard.encode ++ trailing)) 4 =
        standard.program.encode.size % 2 ^ (8 * 4) := by
    apply field_eq (standard.header ++ standard.readOnly ++ standard.readWrite)
    · rw [encode_append_eq_header]
      simp only [ByteArray.append_assoc]
      rfl
    · rw [hstart, ByteArray.size_append, ByteArray.size_append, size_header]
    · decide
  rw [programEnd, hfield, Nat.mod_eq_of_lt hsize, hstart]

/-- What was written without a cut is read back, whatever follows it. -/
theorem parse_encode_append (hstack : standard.stackSize.toNat < 2 ^ 24)
    (hprogram : Program.parse standard.program.encode = .ok standard.program) :
    parse (standard.encode ++ trailing) = .ok standard := by
  have hheader := standard.size_header
  have hsections := encode_append_eq_header standard trailing
  rw [parse_eq_ok_iff, programEnd_encode trailing hreadOnly hreadWrite hsize,
    sizeStart_encode trailing hreadOnly hreadWrite, field_readOnly, Nat.mod_eq_of_lt hreadOnly]
  refine ⟨?_, ?_, ?_, ?_, ?_, ?_⟩
  · simp only [hsections, ByteArray.size_append, List.size_toByteArray, LittleEndian.length_ofNat,
      hheader]
    exact Nat.le_add_right _ _
  · suffices hblob : (standard.encode ++ trailing).extract _ _ = standard.program.encode by
      rw [hblob, hprogram]
    rw [hsections]
    apply Bytes.extract_between <;>
      simp only [ByteArray.size_append, List.size_toByteArray, LittleEndian.length_ofNat, hheader]
  · rw [hsections, ByteArray.append_assoc, ByteArray.append_assoc, ByteArray.append_assoc]
    exact (Bytes.extract_between hheader.symm (by rw [hheader])).symm
  · rw [hsections, ByteArray.append_assoc, ByteArray.append_assoc]
    apply (Bytes.extract_between _ _).symm <;> simp only [ByteArray.size_append, hheader]
  · rw [field_heapPages, Nat.mod_eq_of_lt standard.heapPages.toNat_lt, UInt16.ofNat_toNat]
  · rw [field_stackSize, Nat.mod_eq_of_lt hstack, UInt32.ofNat_toNat]

end Uncut

end Written

theorem parse_ne_layoutTooLarge (blob : ByteArray) (required : Nat) :
    parse blob ≠ .error (.layoutTooLarge required) := by
  intro hparse
  rw [parse] at hparse
  dsimp only at hparse
  rw [if_neg (Nat.not_lt.mpr (footprint_fields_le blob))] at hparse
  split at hparse
  · cases hparse
  · split at hparse
    · cases hparse
    · split at hparse
      · cases hparse
      · split at hparse
        · next error hprogram =>
            obtain rfl := Except.error.inj hparse
            exact Program.parse_ne_layoutTooLarge _ _ hprogram
        · cases hparse

/-- Standard blobs round-trip exactly within the widths of their fields.  For a program that
was read or built, what is written is read back as the same, whatever follows it, exactly if
the three sizes fit three bytes each and the program is within its own limits; and no blob at
all is refused for a layout that is too large. -/
theorem parse_encode_append_iff (standard : StandardProgram)
    (hprogram : (∃ blob, Program.parse blob = .ok standard.program) ∨
      ∃ builder : Program.Builder, builder.build = standard.program)
    (trailing : ByteArray) :
    (parse (standard.encode ++ trailing) = .ok standard ↔
      standard.readOnly.size < 2 ^ 24 ∧ standard.readWrite.size < 2 ^ 24 ∧
        standard.stackSize.toNat < 2 ^ 24 ∧ standard.program.image.code.size ≤ 2 ^ 22 ∧
        standard.program.image.entryCount ≤ 2 ^ 20) ∧
    ∀ blob required, parse blob ≠ .error (.layoutTooLarge required) := by
  refine ⟨⟨?_, ?_⟩, parse_ne_layoutTooLarge⟩
  · intro hparse
    obtain ⟨hreadOnly, hreadWrite, hstack⟩ := sizes_lt_of_parse hparse
    obtain ⟨-, hnested, -⟩ := (parse_eq_ok_iff _ standard).mp hparse
    obtain ⟨_, _, hspells⟩ := Program.exists_spells_of_parse hnested
    exact ⟨hreadOnly, hreadWrite, hstack, hspells.withinLimits.code,
      hspells.withinLimits.entryCount⟩
  · rintro ⟨hreadOnly, hreadWrite, hstack, hcode, hentries⟩
    obtain ⟨hproportioned, hwidth⟩ := Program.proportioned_of_parse_or_build hprogram
    have hlimits : standard.program.image.WithinLimits := ⟨hentries, hwidth, hcode⟩
    have hsame : Program.ofImage standard.program.image = standard.program :=
      Program.eq_of_image_eq rfl
    have hsize := Program.size_encode_lt hproportioned hlimits
    have hnested := (Program.spells_encode hproportioned hlimits).parse_eq
    rw [hsame] at hsize hnested
    exact parse_encode_append trailing hreadOnly hreadWrite hsize hstack hnested

/-- A standard program of two instructions whose stack is one byte too large for its field. -/
def wideStack : StandardProgram where
  readOnly := [1, 2, 3].toByteArray
  readWrite := [4].toByteArray
  heapPages := 2
  stackSize := 0x1000000
  program :=
    Program.Builder.build
      { code := [1, 0].toByteArray
        starts := #[0, 1]
        targets := #[0, 1] }

theorem only_wideStack_is_cut :
    parse (wideStack.encode ++ [7].toByteArray) ≠ .ok wideStack ∧
      parse ({ wideStack with stackSize := 0xFFFFFF }.encode ++ [7].toByteArray) =
        .ok { wideStack with stackSize := 0xFFFFFF } := by
  constructor
  · intro hparse
    have hfits := (parse_encode_append_iff wideStack (.inr ⟨_, rfl⟩) [7].toByteArray).1.mp hparse
    exact absurd hfits.2.2.1 (by decide)
  · exact (parse_encode_append_iff { wideStack with stackSize := 0xFFFFFF } (.inr ⟨_, rfl⟩)
      [7].toByteArray).1.mpr (by decide)

end StandardProgram

end GasMachine
