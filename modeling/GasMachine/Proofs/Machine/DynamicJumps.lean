import Mathlib
import GasMachine.Machine.Step
import GasMachine.Proofs.Bytes.Slices
import GasMachine.Proofs.Bytes.Words
import GasMachine.Proofs.Program.BlobFormat
import GasMachine.Proofs.Program.Boundaries

/-!
# Where dynamic jumps lead

An address selects an entry of the jump table, and the value of the entry is the
target.  Entries may have up to eight bytes, but targets have four: a jump goes by
the low word of its entry.  So an entry whose value does not fit into a word leads
somewhere whenever its low word starts a block, and this is the only way in which
a jump departs from the value of its entry.
-/

namespace GasMachine

namespace Bytes

/-- A slice that does not run over the end consists of the bytes there. -/
theorem slice_eq_present {bytes : ByteArray} {start count : Nat}
    (hend : start + count ≤ bytes.size) : slice bytes start count = present bytes start count := by
  have hsize : (bytes.extract start (start + count)).size = count := by
    rw [ByteArray.size_extract, Nat.min_eq_left hend, Nat.add_sub_cancel_left]
  apply List.ext_getElem
  · rw [length_slice]
    exact hsize.symm
  · intro index hleft hright
    have hindex : index < count := by rwa [length_slice] at hleft
    have hbyte : byteAt (bytes.extract start (start + count)) index =
        byteAt bytes (start + index) := by
      rw [byteAt_extract, if_pos (Nat.add_lt_add_left hindex start)]
    rw [byteAt_of_lt (hsize.symm ▸ hindex), ByteArray.getElem_eq_getElem_data,
      ← Array.getElem_toList] at hbyte
    simpa only [slice, present, List.getElem_map, List.getElem_range] using hbyte.symm

end Bytes

namespace Program

variable {program : Program} {address : UInt32}

/-- The number that an entry of the jump table stands for, all its bytes counted. -/
def entryValue (program : Program) (index : Nat) : Nat :=
  let width := program.image.entryWidth.toNat
  LittleEndian.toNat (Bytes.present program.image.jumpTable (index * width) width)

/-- The address selects an entry, and this is its value. -/
structure Selects (program : Program) (address : UInt32) (value : Nat) : Prop where
  even : address.toNat % 2 = 0
  positive : 0 < address.toNat
  withinTable : address.toNat ≤ 2 * program.image.entryCount
  value_eq : program.entryValue (address.toNat / 2 - 1) = value

/-- What a dynamic jump does if the target is what `reading` makes of the value of
the entry: it halts at one address, goes to the target if that starts a block, and
panics in every other case. -/
inductive Leads (program : Program) (reading : Nat → Nat) (address : UInt32) : Effect → Prop
  | halt (hhalt : address = 0xFFFF0000) : Leads program reading address (.exit .halt)
  | jump {value : Nat} {target : UInt32} (hhalt : address ≠ 0xFFFF0000)
      (hselects : program.Selects address value) (hreading : reading value = target.toNat)
      (hblock : target.toNat ∈ program.blockStarts) : Leads program reading address (.jump target)
  | invalid (hhalt : address ≠ 0xFFFF0000)
      (hnowhere : ∀ (value : Nat) (target : UInt32), program.Selects address value →
        reading value = target.toNat → target.toNat ∉ program.blockStarts) :
      Leads program reading address (.panic .invalidDynamicJump)

/-! ## Rules of reading -/

theorem Selects.unique {left right : Nat} (hleft : program.Selects address left)
    (hright : program.Selects address right) : left = right :=
  hleft.value_eq.symm.trans hright.value_eq

/-- A rule of reading leaves no choice. -/
theorem Leads.unique {reading : Nat → Nat} {left right : Effect}
    (hleft : program.Leads reading address left) (hright : program.Leads reading address right) :
    left = right := by
  cases hleft with
  | halt hhalt =>
      cases hright with
      | halt _ => rfl
      | jump hne _ _ _ => exact absurd hhalt hne
      | invalid hne _ => exact absurd hhalt hne
  | jump hne hselects hreading hblock =>
      cases hright with
      | halt hhalt => exact absurd hhalt hne
      | jump _ hselects' hreading' _ =>
          rw [hselects.unique hselects', hreading'] at hreading
          rw [UInt32.toNat_inj.mp hreading]
      | invalid _ hnowhere => exact absurd hblock (hnowhere _ _ hselects hreading)
  | invalid hne hnowhere =>
      cases hright with
      | halt hhalt => exact absurd hhalt hne
      | jump _ hselects hreading hblock => exact absurd hblock (hnowhere _ _ hselects hreading)
      | invalid _ _ => rfl

/-- Two rules of reading lead to the same place if they do so for the selected
entry. -/
theorem Leads.congr {reading other : Nat → Nat} {effect : Effect}
    (hsame : ∀ (value : Nat) (target : UInt32), program.Selects address value →
      target.toNat ∈ program.blockStarts →
        (reading value = target.toNat ↔ other value = target.toNat))
    (hleads : program.Leads reading address effect) : program.Leads other address effect := by
  cases hleads with
  | halt hhalt => exact .halt hhalt
  | jump hne hselects hreading hblock =>
      exact .jump hne hselects ((hsame _ _ hselects hblock).mp hreading) hblock
  | invalid hne hnowhere =>
      refine .invalid hne fun value target hselects hother hblock => ?_
      exact hnowhere value target hselects ((hsame _ _ hselects hblock).mpr hother) hblock

/-! ## The rule that is followed -/

theorem dynamicJump_of_not_selects (hhalt : address ≠ 0xFFFF0000)
    (hnone : ∀ value, ¬program.Selects address value) :
    program.dynamicJump address = .panic .invalidDynamicJump := by
  have hinvalid : address = 0 ∨
      program.image.entryCount * AddressSpace.jumpAlignment < address.toNat ∨
      address.toNat % AddressSpace.jumpAlignment ≠ 0 := by
    by_contra hvalid
    rw [AddressSpace.jumpAlignment, ← UInt32.toNat_inj, UInt32.toNat_zero] at hvalid
    exact hnone _ ⟨by omega, by omega, by omega, rfl⟩
  rw [dynamicJump, AddressSpace.haltAddress, if_neg hhalt, if_pos hinvalid]

/-- A jump to the address of an entry goes to its target, if that starts a block. -/
theorem dynamicJump_of_jumpTarget? {index : Nat} {target : UInt32} (hhalt : address ≠ 0xFFFF0000)
    (haddress : address.toNat = (index + 1) * 2)
    (htarget : program.jumpTarget? index = some target) :
    program.dynamicJump address =
      if target.toNat ∈ program.blockStarts then .jump target
      else .panic .invalidDynamicJump := by
  have hindex : index < program.image.entryCount := by
    by_contra hpast
    rw [jumpTarget?, if_neg hpast] at htarget
    cases htarget
  have hvalid : ¬(address = 0 ∨
      program.image.entryCount * AddressSpace.jumpAlignment < address.toNat ∨
      address.toNat % AddressSpace.jumpAlignment ≠ 0) := by
    rw [AddressSpace.jumpAlignment, ← UInt32.toNat_inj, UInt32.toNat_zero]
    omega
  have hentry : address.toNat / AddressSpace.jumpAlignment - 1 = index := by
    rw [AddressSpace.jumpAlignment]
    omega
  rw [dynamicJump, AddressSpace.haltAddress, if_neg hhalt, if_neg hvalid, hentry, htarget]
  simp only [isBlockStart_iff_mem]

section Proportioned

variable (hproportioned : program.image.Proportioned) (hlimits : program.image.WithinLimits)
include hproportioned hlimits

/-- A target is the low word of its entry. -/
theorem jumpTarget?_eq {index : Nat} (hindex : index < program.image.entryCount) :
    program.jumpTarget? index = some (UInt32.ofNat (program.entryValue index)) := by
  have hend : index * program.image.entryWidth.toNat + program.image.entryWidth.toNat ≤
      program.image.jumpTable.size := by
    rw [hproportioned.jumpTable, ← Nat.succ_mul]
    exact Nat.mul_le_mul_right _ hindex
  have hlength : (Bytes.slice program.image.jumpTable
      (index * program.image.entryWidth.toNat) program.image.entryWidth.toNat).length ≤ 8 := by
    rw [Bytes.length_slice]
    exact hlimits.entryWidth
  rw [jumpTarget?, if_pos hindex, entryValue, ← Bytes.slice_eq_present hend,
    ← LittleEndian.toNat_decode hlength]
  rfl

theorem dynamicJump_of_selects {value : Nat} (hhalt : address ≠ 0xFFFF0000)
    (hselects : program.Selects address value) :
    program.dynamicJump address =
      if (UInt32.ofNat value).toNat ∈ program.blockStarts then .jump (UInt32.ofNat value)
      else .panic .invalidDynamicJump := by
  obtain ⟨heven, hpositive, hwithin, hvalue⟩ := hselects
  have htarget := jumpTarget?_eq hproportioned hlimits
    (show address.toNat / 2 - 1 < program.image.entryCount by omega)
  rw [hvalue] at htarget
  exact dynamicJump_of_jumpTarget? hhalt (by omega) htarget

/-- A jump goes by the low word of the entry. -/
theorem leads_dynamicJump :
    program.Leads (· % 2 ^ 32) address (program.dynamicJump address) := by
  by_cases hhalt : address = 0xFFFF0000
  · rw [dynamicJump, AddressSpace.haltAddress, if_pos hhalt]
    exact .halt hhalt
  by_cases hentry : ∃ value, program.Selects address value
  · obtain ⟨value, hselects⟩ := hentry
    rw [dynamicJump_of_selects hproportioned hlimits hhalt hselects]
    split
    · next hblock => exact .jump hhalt hselects UInt32.toNat_ofNat'.symm hblock
    · next hblock =>
        refine .invalid hhalt fun other target hother hreading => ?_
        rw [← hreading, hother.unique hselects]
        rwa [UInt32.toNat_ofNat'] at hblock
  · rw [dynamicJump_of_not_selects hhalt (not_exists.mp hentry)]
    exact .invalid hhalt fun value _ hselects => absurd ⟨value, hselects⟩ hentry

end Proportioned

/-! ## Entries that are too large for a target -/

/-- The value of an entry has no more bytes than the table gives it. -/
theorem entryValue_lt (program : Program) (index : Nat) :
    program.entryValue index < 2 ^ (8 * program.image.entryWidth.toNat) := by
  let width := program.image.entryWidth.toNat
  let bytes := Bytes.present program.image.jumpTable (index * width) width
  have hlength : bytes.length ≤ width := by
    calc bytes.length
        = min (index * width + width) program.image.jumpTable.size - index * width :=
          ByteArray.size_extract
      _ ≤ index * width + width - index * width :=
          Nat.sub_le_sub_right (Nat.min_le_left _ _) _
      _ = width := Nat.add_sub_cancel_left _ _
  calc program.entryValue index
      < 1 <<< (8 * bytes.length) := LittleEndian.toNat_lt bytes
    _ = 2 ^ (8 * bytes.length) := Nat.one_shiftLeft _
    _ ≤ 2 ^ (8 * width) := Nat.pow_le_pow_right Nat.two_pos (Nat.mul_le_mul_left 8 hlength)

/-- The address selects an entry whose value is too large for a target, although
its low word starts a block. -/
def Overruns (program : Program) (address : UInt32) : Prop :=
  ∃ value, program.Selects address value ∧ 2 ^ 32 ≤ value ∧ value % 2 ^ 32 ∈ program.blockStarts

theorem not_overruns_of_entryWidth_le (hwidth : program.image.entryWidth.toNat ≤ 4) :
    ¬program.Overruns address := by
  rintro ⟨value, hselects, hlarge, -⟩
  have hsmall : value < 2 ^ 32 := by
    calc value = program.entryValue (address.toNat / 2 - 1) := hselects.value_eq.symm
      _ < 2 ^ (8 * program.image.entryWidth.toNat) := program.entryValue_lt _
      _ ≤ 2 ^ 32 := Nat.pow_le_pow_right Nat.two_pos (Nat.mul_le_mul_left 8 hwidth)
  exact Nat.not_lt.mpr hlarge hsmall

/-- The whole entry and its low word lead to the same place, unless the entry is
too large. -/
theorem leads_id_of_not_overruns {effect : Effect} (hfits : ¬program.Overruns address)
    (hleads : program.Leads (· % 2 ^ 32) address effect) : program.Leads id address effect := by
  refine hleads.congr fun value target hselects hblock => ?_
  rcases Nat.lt_or_ge value (2 ^ 32) with hsmall | hlarge
  · simp only [Nat.mod_eq_of_lt hsmall, id_eq]
  · have hlow : value % 2 ^ 32 ≠ target.toNat :=
      fun heq => hfits ⟨value, hselects, hlarge, heq ▸ hblock⟩
    have hwhole : id value ≠ target.toNat :=
      Nat.ne_of_gt (Nat.lt_of_lt_of_le target.toNat_lt hlarge)
    exact iff_of_false hlow hwhole

/-- An entry that is too large is not followed as a whole. -/
theorem not_leads_id_of_overruns {effect : Effect} (hhalt : address ≠ 0xFFFF0000)
    (hoverruns : program.Overruns address) (hleads : program.Leads (· % 2 ^ 32) address effect) :
    ¬program.Leads id address effect := by
  obtain ⟨value, hselects, hlarge, hblock⟩ := hoverruns
  have hlow : value % 2 ^ 32 = (UInt32.ofNat value).toNat := UInt32.toNat_ofNat'.symm
  intro hwhole
  rw [hleads.unique (.jump hhalt hselects hlow (hlow ▸ hblock))] at hwhole
  cases hwhole with
  | jump _ hselects' hreading _ =>
      rw [hselects'.unique hselects, id_eq] at hreading
      exact Nat.not_lt.mpr hlarge (hreading ▸ UInt32.toNat_lt _)

/-- Dynamic jumps go by the low word of the table's entry, and by nothing else: at
the halting address they halt, at an even address within the table whose entry has
the number of a block start as its low word they go there, and in every other case
they panic.  They go by the whole entry exactly if no entry that is too large for a
target has the number of a block start as its low word, so always in a table whose
entries have at most four bytes. -/
theorem dynamic_jumps_follow_low_words {blob : ByteArray} {program : Program}
    (hparse : parse blob = .ok program) (address : UInt32) :
    (∀ effect, program.dynamicJump address = effect ↔
      program.Leads (· % 2 ^ 32) address effect) ∧
    ((∀ effect, program.dynamicJump address = effect ↔ program.Leads id address effect) ↔
      ¬program.Overruns address) ∧
    (program.image.entryWidth.toNat ≤ 4 → ¬program.Overruns address) := by
  obtain ⟨_, _, hspells⟩ := exists_spells_of_parse hparse
  have hleads : program.Leads (· % 2 ^ 32) address (program.dynamicJump address) :=
    leads_dynamicJump hspells.proportioned hspells.withinLimits
  refine ⟨fun effect => ⟨?_, hleads.unique⟩, ⟨?_, ?_⟩, not_overruns_of_entryWidth_le⟩
  · rintro rfl
    exact hleads
  · intro hwhole hoverruns
    have hhalt : address ≠ 0xFFFF0000 := by
      rintro rfl
      -- The table is too small to reach up to the halting address.
      obtain ⟨_, hselects, -, -⟩ := hoverruns
      have hwithin := hselects.withinTable
      have hcount := hspells.withinLimits.entryCount
      have hhalting : (0xFFFF0000 : UInt32).toNat = 0xFFFF0000 := rfl
      omega
    exact not_leads_id_of_overruns hhalt hoverruns hleads ((hwhole _).mp rfl)
  · intro hfits effect
    have hwhole := leads_id_of_not_overruns hfits hleads
    refine ⟨?_, hwhole.unique⟩
    rintro rfl
    exact hwhole

/-- A jump to the only entry of the table, of five bytes with the highest one set. -/
def overrunBlob : ByteArray :=
  [1, 5, 2, 2, 0, 0, 0, 1, 0x32, 1, 1].toByteArray

def overrunProgram : Program :=
  ofImage ⟨[2, 0, 0, 0, 1].toByteArray, 1, 5, [0x32, 1].toByteArray, [1].toByteArray⟩

theorem parse_overrunBlob : parse overrunBlob = .ok overrunProgram := by
  decide +kernel

theorem overrunProgram_selects : overrunProgram.Selects 2 (2 ^ 32 + 2) :=
  ⟨rfl, by decide, by decide, by decide +kernel⟩

theorem overrunProgram_overruns : overrunProgram.Overruns 2 :=
  ⟨_, overrunProgram_selects, by decide, by decide +kernel⟩

theorem overrunProgram_jumps_by_low_word :
    parse overrunBlob = .ok overrunProgram ∧ overrunProgram.dynamicJump 2 = .jump 2 ∧
      ¬∀ effect, overrunProgram.dynamicJump 2 = effect ↔ overrunProgram.Leads id 2 effect := by
  obtain ⟨hlow, hwhole, -⟩ := dynamic_jumps_follow_low_words parse_overrunBlob 2
  refine ⟨parse_overrunBlob, (hlow _).mpr ?_, ?_⟩
  · exact .jump (by decide) overrunProgram_selects rfl (by decide +kernel)
  · exact fun hall => hwhole.mp hall overrunProgram_overruns

/-- By its whole entry the jump is invalid, and yet it is made. -/
theorem overrunProgram_jumps_past_its_entry :
    parse overrunBlob = .ok overrunProgram ∧
      overrunProgram.Leads id 2 (.panic .invalidDynamicJump) ∧
      overrunProgram.dynamicJump 2 = .jump 2 := by
  refine ⟨parse_overrunBlob, .invalid (by decide) ?_, by decide +kernel⟩
  intro value target hselects hreading
  rw [hselects.unique overrunProgram_selects, id_eq] at hreading
  exact absurd target.toNat_lt (by omega)

end Program

end GasMachine
