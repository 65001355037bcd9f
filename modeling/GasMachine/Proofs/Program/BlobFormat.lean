import GasMachine.Program.Blob
import GasMachine.Proofs.Bytes.NaturalForms

/-!
# The format of program blobs

A blob is a program exactly if it is a header, in which each of the two numbers
may be written in any of its forms, followed by three sections of the sizes that
the header gives.  Since no form of a number is the beginning of another one, a
blob can be taken apart in one way only, and it is what is written for its
program exactly if both numbers are in shortest form.
-/

namespace GasMachine

namespace Bytes

/-- The bytes behind a front part. -/
theorem present_append (front rest : ByteArray) (count : Nat) :
    present (front ++ rest) front.size count = rest.data.toList.take count := by
  have hextract : (front ++ rest).extract (front.size + 0) (front.size + count) =
      rest.extract 0 count := ByteArray.extract_append_size_add
  rw [Nat.add_zero] at hextract
  rw [present, hextract, ByteArray.data_extract, Array.toList_extract, List.extract_eq_take_drop,
    List.drop_zero, Nat.sub_zero]

/-- The part of a byte string that lies between two others. -/
theorem extract_between {before part after : ByteArray} {start stop : Nat}
    (hstart : start = before.size) (hstop : stop = before.size + part.size) :
    (before ++ part ++ after).extract start stop = part := by
  rw [ByteArray.extract_append, ByteArray.extract_append_eq_right hstart hstop]
  rw [ByteArray.size_append, hstart, hstop, Nat.sub_self,
    Nat.sub_eq_zero_of_le (Nat.le_add_right _ _), ByteArray.extract_same, ByteArray.append_empty]

end Bytes

namespace CodeImage

/-- The sections are as large as a header can say: the table has the entries that
are counted, and the bitmask one bit for each byte of code, in whole bytes. -/
structure Proportioned (image : CodeImage) : Prop where
  jumpTable : image.jumpTable.size = image.entryCount * image.entryWidth.toNat
  bitmask : image.bitmask.size = (image.code.size + 7) / 8

/-- The sections are as small as a header may say. -/
structure WithinLimits (image : CodeImage) : Prop where
  entryCount : image.entryCount ≤ 2 ^ 20
  entryWidth : image.entryWidth.toNat ≤ 8
  code : image.code.size ≤ 2 ^ 22

end CodeImage

namespace Program

/-- A blob is spelled with the given forms of its two numbers. -/
structure Spells (blob : ByteArray) (count length : List UInt8) (image : CodeImage) : Prop where
  countForm : Natural.Encodes count image.entryCount
  lengthForm : Natural.Encodes length image.code.size
  proportioned : image.Proportioned
  withinLimits : image.WithinLimits
  blob_eq : blob = count.toByteArray ++ [image.entryWidth].toByteArray ++ length.toByteArray
    ++ image.jumpTable ++ image.code ++ image.bitmask

/-! ## Numbers in a blob -/

theorem naturalAt_append {bytes : List UInt8} {value limit : Nat}
    (hencodes : Natural.Encodes bytes value) (hlimit : value ≤ limit)
    (front rest : ByteArray) :
    naturalAt (front ++ (bytes.toByteArray ++ rest)) front.size limit =
      some (value, front.size + bytes.length) := by
  have hpresent : Bytes.present (front ++ (bytes.toByteArray ++ rest)) front.size 9 =
      bytes ++ rest.data.toList.take (9 - bytes.length) := by
    rw [Bytes.present_append, ByteArray.toList_data_append, List.toList_data_toByteArray,
      List.take_append, List.take_of_length_le hencodes.length_le]
  have hvalue : (UInt64.ofNat value).toNat = value :=
    UInt64.toNat_ofNat_of_lt' hencodes.lt_size
  rw [naturalAt, hpresent, Natural.decode_append hencodes]
  simp only [hvalue, if_pos hlimit]

/-- A number that is found has its form there. -/
theorem encodes_of_naturalAt {blob : ByteArray} {position limit value stop : Nat}
    (hnatural : naturalAt blob position limit = some (value, stop)) :
    ∃ bytes, Natural.Encodes bytes value ∧ value ≤ limit ∧ stop = position + bytes.length ∧
      blob.extract position stop = bytes.toByteArray := by
  rw [naturalAt] at hnatural
  split at hnatural
  · next word length hdecode =>
      split at hnatural
      · next hlimit =>
          cases hnatural
          obtain ⟨bytes, rest, value, hpresent, rfl, hencodes, rfl⟩ :=
            Natural.encodes_of_decode hdecode
          have hvalue : (UInt64.ofNat value).toNat = value :=
            UInt64.toNat_ofNat_of_lt' hencodes.lt_size
          rw [hvalue] at hlimit ⊢
          have hwindow : blob.extract position (position + 9) =
              bytes.toByteArray ++ rest.toByteArray := by
            apply ByteArray.ext
            apply Array.toList_inj.mp
            rw [ByteArray.toList_data_append, List.toList_data_toByteArray,
              List.toList_data_toByteArray]
            exact hpresent
          refine ⟨bytes, hencodes, hlimit, rfl, ?_⟩
          calc blob.extract position (position + bytes.length)
              = (blob.extract position (position + 9)).extract 0 bytes.length := by
                rw [ByteArray.extract_extract, Nat.add_zero,
                  Nat.min_eq_left (Nat.add_le_add_left hencodes.length_le position)]
            _ = bytes.toByteArray := by
                rw [hwindow, ByteArray.extract_append_eq_left List.size_toByteArray.symm]
      · cases hnatural
  · cases hnatural

/-! ## From a spelling to the program -/

section Spelled

variable {blob : ByteArray} {count length : List UInt8} {image : CodeImage}
variable (hspells : Spells blob count length image)
include hspells

theorem Spells.parseHeader_eq :
    parseHeader blob = .ok
      ⟨image.entryCount, image.entryWidth, image.code.size, count.length + 1 + length.length⟩ := by
  obtain ⟨hcount, hlength, -, hlimits, hblob⟩ := hspells
  have hentries : image.entryCount ≤ maxEntryCount := hlimits.entryCount
  have hwidth : image.entryWidth.toNat ≤ maxEntryWidth := hlimits.entryWidth
  have hcode : image.code.size ≤ maxCodeSize := hlimits.code
  have hfirst := naturalAt_append hcount hentries ByteArray.empty
    ([image.entryWidth].toByteArray ++ length.toByteArray ++ image.jumpTable ++ image.code
      ++ image.bitmask)
  have hsecond := naturalAt_append hlength hcode
    (count.toByteArray ++ [image.entryWidth].toByteArray)
    (image.jumpTable ++ image.code ++ image.bitmask)
  simp only [ByteArray.append_assoc] at hblob hfirst hsecond
  simp only [← hblob, ByteArray.empty_append, ByteArray.size_append, ByteArray.size_empty,
    List.size_toByteArray, List.length_singleton, Nat.zero_add] at hfirst hsecond
  have hsize : count.length < blob.size := by
    simp only [hblob, ByteArray.size_append, List.size_toByteArray, List.length_singleton]
    omega
  have hbyte : blob[count.length] = image.entryWidth := by
    subst hblob
    rw [ByteArray.getElem_append_right (Nat.le_of_eq List.size_toByteArray),
      ByteArray.getElem_append_left (by simp)]
    simp
  rw [parseHeader]
  simp only [hfirst, dif_pos hsize, hbyte, if_pos hwidth, hsecond]

/-- A blob is read as its spelling says. -/
theorem Spells.parse_eq : parse blob = .ok (ofImage image) := by
  have hheader := hspells.parseHeader_eq
  obtain ⟨-, -, ⟨htable, hmask⟩, -, hblob⟩ := hspells
  have hfront : (count.toByteArray ++ [image.entryWidth].toByteArray ++ length.toByteArray).size =
      count.length + 1 + length.length := by
    simp only [ByteArray.size_append, List.size_toByteArray, List.length_singleton]
  generalize count.toByteArray ++ [image.entryWidth].toByteArray ++ length.toByteArray = front
    at hblob hfront
  rw [parse, hheader]
  simp only [Header.blobSize, Header.bitmaskStart, Header.codeStart, Bitmask.sizeFor,
    ← htable, ← hmask, ← hfront]
  have hsize : blob.size =
      front.size + image.jumpTable.size + image.code.size + image.bitmask.size := by
    simp only [hblob, ByteArray.size_append]
  have htableSection : blob.extract front.size (front.size + image.jumpTable.size) =
      image.jumpTable := by
    rw [hblob, ByteArray.append_assoc]
    exact Bytes.extract_between rfl rfl
  have hcodeSection : blob.extract (front.size + image.jumpTable.size)
      (front.size + image.jumpTable.size + image.code.size) = image.code := by
    rw [hblob]
    exact Bytes.extract_between ByteArray.size_append.symm (by rw [ByteArray.size_append])
  have hmaskSection : blob.extract
      (front.size + image.jumpTable.size + image.code.size) blob.size = image.bitmask := by
    rw [hsize, hblob]
    apply ByteArray.extract_append_eq_right <;> simp only [ByteArray.size_append]
  rw [if_pos hsize, htableSection, hcodeSection, hmaskSection]

end Spelled

/-! ## From the program to a spelling -/

theorem parseHeader_cases {blob : ByteArray} {header : Header}
    (hheader : parseHeader blob = .ok header) :
    ∃ count length, Natural.Encodes count header.entryCount ∧
      Natural.Encodes length header.codeSize ∧ header.entryCount ≤ 2 ^ 20 ∧
      header.entryWidth.toNat ≤ 8 ∧ header.codeSize ≤ 2 ^ 22 ∧
      header.size = count.length + 1 + length.length ∧
      blob.extract 0 header.size =
        count.toByteArray ++ [header.entryWidth].toByteArray ++ length.toByteArray := by
  rw [parseHeader] at hheader
  split at hheader
  · cases hheader
  next entryCount widthAt hfirst =>
  split at hheader
  next hsize =>
    split at hheader
    next hwidth =>
      split at hheader
      · cases hheader
      next codeSize size hsecond =>
      cases hheader
      obtain ⟨count, hcount, hentries, hwidthAt, hcountBytes⟩ := encodes_of_naturalAt hfirst
      obtain ⟨length, hlength, hcode, hstop, hlengthBytes⟩ := encodes_of_naturalAt hsecond
      rw [Nat.zero_add] at hwidthAt
      subst hwidthAt hstop
      refine ⟨count, length, hcount, hlength, hentries, hwidth, hcode, rfl, ?_⟩
      dsimp only
      rw [ByteArray.extract_eq_extract_append_extract (count.length + 1) (Nat.zero_le _)
          (Nat.le_add_right _ _),
        ByteArray.extract_eq_extract_append_extract count.length (Nat.zero_le _) (Nat.le_succ _),
        ByteArray.extract_add_one hsize, hcountBytes, hlengthBytes]
    · cases hheader
  · cases hheader

/-- A blob that is read is spelled as the format says. -/
theorem exists_spells_of_parse {blob : ByteArray} {program : Program}
    (hparse : parse blob = .ok program) :
    ∃ count length, Spells blob count length program.image := by
  rw [parse] at hparse
  split at hparse
  · cases hparse
  next header hheader =>
  split at hparse
  next hsize =>
    cases hparse
    obtain ⟨count, length, hcount, hlength, hentries, hwidth, hcode, hfront, hbytes⟩ :=
      parseHeader_cases hheader
    have hcodeStart : header.size ≤ header.codeStart := Nat.le_add_right _ _
    have hbitmaskStart : header.codeStart ≤ header.bitmaskStart := Nat.le_add_right _ _
    have hend : header.bitmaskStart ≤ blob.size := hsize ▸ Nat.le_add_right _ _
    have htableSize : (blob.extract header.size header.codeStart).size =
        header.entryCount * header.entryWidth.toNat := by
      rw [ByteArray.size_extract, Nat.min_eq_left (Nat.le_trans hbitmaskStart hend),
        Header.codeStart, Nat.add_sub_cancel_left]
    have hcodeSize : (blob.extract header.codeStart header.bitmaskStart).size =
        header.codeSize := by
      rw [ByteArray.size_extract, Nat.min_eq_left hend, Header.bitmaskStart,
        Nat.add_sub_cancel_left]
    have hmaskSize : (blob.extract header.bitmaskStart blob.size).size =
        (header.codeSize + 7) / 8 := by
      rw [ByteArray.size_extract, Nat.min_self, hsize, Header.blobSize, Nat.add_sub_cancel_left,
        Bitmask.sizeFor]
    refine ⟨count, length, hcount, ?_, ⟨htableSize, ?_⟩, ⟨hentries, hwidth, ?_⟩, ?_⟩
    · exact hcodeSize ▸ hlength
    · exact hmaskSize.trans (by rw [← hcodeSize]; rfl)
    · exact hcodeSize ▸ hcode
    · dsimp only [ofImage]
      rw [← hbytes,
        ← ByteArray.extract_eq_extract_append_extract header.size (Nat.zero_le _) hcodeStart,
        ← ByteArray.extract_eq_extract_append_extract header.codeStart (Nat.zero_le _)
          hbitmaskStart,
        ← ByteArray.extract_eq_extract_append_extract header.bitmaskStart (Nat.zero_le _) hend,
        ByteArray.extract_zero_size]
  · cases hparse

/-! ## Writing -/

theorem encode_eq (image : CodeImage) :
    (ofImage image).encode =
      (Natural.encode (UInt64.ofNat image.entryCount)).toByteArray
        ++ [image.entryWidth].toByteArray
        ++ (Natural.encode (UInt64.ofNat image.code.size)).toByteArray
        ++ image.jumpTable ++ image.code ++ image.bitmask := by
  rw [encode, encodeHeader, ← List.toByteArray_append, ← List.toByteArray_append,
    List.append_assoc, List.singleton_append]
  rfl

/-- What is written for a program of fitting sections is a spelling of it. -/
theorem spells_encode {image : CodeImage} (hproportioned : image.Proportioned)
    (hlimits : image.WithinLimits) :
    Spells (ofImage image).encode (Natural.encode (UInt64.ofNat image.entryCount))
      (Natural.encode (UInt64.ofNat image.code.size)) image := by
  have hcount : (UInt64.ofNat image.entryCount).toNat = image.entryCount :=
    UInt64.toNat_ofNat_of_lt' (Nat.lt_of_le_of_lt hlimits.entryCount (by decide))
  have hlength : (UInt64.ofNat image.code.size).toNat = image.code.size :=
    UInt64.toNat_ofNat_of_lt' (Nat.lt_of_le_of_lt hlimits.code (by decide))
  refine ⟨?_, ?_, hproportioned, hlimits, encode_eq image⟩
  · have hform := Natural.encodes_encode (UInt64.ofNat image.entryCount)
    rwa [hcount] at hform
  · have hform := Natural.encodes_encode (UInt64.ofNat image.code.size)
    rwa [hlength] at hform

/-- What is written for a program is read again exactly if it is within the limits. -/
theorem parse_encode_eq_iff {image : CodeImage} (hproportioned : image.Proportioned) :
    parse (ofImage image).encode = .ok (ofImage image) ↔ image.WithinLimits := by
  constructor
  · intro hparse
    obtain ⟨_, _, hspells⟩ := exists_spells_of_parse hparse
    exact hspells.withinLimits
  · intro hlimits
    exact (spells_encode hproportioned hlimits).parse_eq

/-- The two numbers of a header can be told apart from the rest of it. -/
theorem Spells.encode_eq_iff {blob : ByteArray} {count length : List UInt8} {image : CodeImage}
    (hspells : Spells blob count length image) :
    (ofImage image).encode = blob ↔
      Natural.Shortest count image.entryCount ∧ Natural.Shortest length image.code.size := by
  have hwritten := spells_encode hspells.proportioned hspells.withinLimits
  rw [Natural.shortest_iff hspells.countForm, Natural.shortest_iff hspells.lengthForm,
    hspells.blob_eq, encode_eq]
  simp only [ByteArray.append_left_inj, ← List.toByteArray_append, List.toByteArray_inj,
    List.append_assoc]
  constructor
  · intro hheaders
    have hcount := hwritten.countForm.eq_of_append_eq hspells.countForm hheaders
    rw [← hcount] at hheaders
    have hlength := List.append_cancel_left (List.append_cancel_left hheaders)
    exact ⟨hcount.symm, hlength.symm⟩
  · rintro ⟨hcount, hlength⟩
    rw [← hcount, ← hlength]

/-- Parsing accepts exactly the format, and writing inverts it.  A blob is read
exactly if it can be taken apart into two numbers, in any of their forms, the
width of an entry and three sections, all of them within the limits and the
sections of the sizes that the numbers give.  The program that is read has these
sections.  What is written for it is read as the same program, and it is the blob
itself exactly if both numbers are in shortest form. -/
theorem parse_accepts_exactly_the_format (blob : ByteArray) :
    ((∃ program, parse blob = .ok program) ↔
      ∃ count length image, Spells blob count length image) ∧
    ∀ count length image, Spells blob count length image →
      parse blob = .ok (ofImage image) ∧
      parse (ofImage image).encode = .ok (ofImage image) ∧
      ((ofImage image).encode = blob ↔
        Natural.Shortest count image.entryCount ∧ Natural.Shortest length image.code.size) := by
  refine ⟨⟨?_, ?_⟩, ?_⟩
  · rintro ⟨program, hparse⟩
    obtain ⟨count, length, hspells⟩ := exists_spells_of_parse hparse
    exact ⟨count, length, program.image, hspells⟩
  · rintro ⟨count, length, image, hspells⟩
    exact ⟨ofImage image, hspells.parse_eq⟩
  · intro count length image hspells
    have hwritten := spells_encode hspells.proportioned hspells.withinLimits
    exact ⟨hspells.parse_eq, hwritten.parse_eq, hspells.encode_eq_iff⟩

/-- A program of three instructions, with a table of two entries. -/
def tableImage : CodeImage where
  jumpTable := [0, 2].toByteArray
  entryCount := 2
  entryWidth := 1
  code := [1, 1, 0].toByteArray
  bitmask := [7].toByteArray

/-- A blob that counts its two entries in a byte more than it takes. -/
def overlongBlob : ByteArray :=
  [0x80, 2, 1, 3, 0, 2, 1, 1, 0, 7].toByteArray

theorem overlongBlob_spells : Spells overlongBlob [0x80, 2] [3] tableImage where
  countForm := Natural.encodes_cons_iff.mpr ⟨rfl, rfl⟩
  lengthForm := Natural.encodes_cons_iff.mpr ⟨rfl, rfl⟩
  proportioned := ⟨rfl, rfl⟩
  withinLimits := ⟨by decide, by decide, by decide⟩
  blob_eq := rfl

theorem overlongBlob_is_read_and_shortened :
    Spells overlongBlob [0x80, 2] [3] tableImage ∧
      parse overlongBlob = .ok (ofImage tableImage) ∧
      parse (ofImage tableImage).encode = .ok (ofImage tableImage) ∧
      (ofImage tableImage).encode ≠ overlongBlob := by
  obtain ⟨hparse, hencode, hsame⟩ :=
    (parse_accepts_exactly_the_format overlongBlob).2 _ _ _ overlongBlob_spells
  refine ⟨overlongBlob_spells, hparse, hencode, fun heq => ?_⟩
  have hshorter : Natural.Encodes [2] 2 := Natural.encodes_cons_iff.mpr ⟨rfl, rfl⟩
  exact absurd ((hsame.mp heq).1.2 [2] hshorter) (by decide)

end Program

end GasMachine
