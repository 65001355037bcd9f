import GasMachine.Memory.Zone
import GasMachine.Proofs.Memory.FlatMemory

/-!
# What a zone holds

A zone keeps the bytes from its start up to the last one that was ever stored in
it.  Here it is compared with the record of what was stored where: writing a
zone stores bytes in the record, and reading it gives the bytes of the record
with zeros for those never stored, unless the read starts further on than right
behind the last stored byte.
-/

namespace GasMachine

open AddressSpace

/-- The byte that was last stored at each address, if one ever was. -/
abbrev Stored := UInt32 → Option UInt8

namespace Stored

def nothing : Stored := fun _ => none

def store (stored : Stored) (address : UInt32) (bytes : ByteArray) : Stored := fun target =>
  if (target - address).toNat < bytes.size then
    some (Bytes.byteAt bytes (target - address).toNat)
  else stored target

/-- What is read: the stored bytes, and zeros where nothing was stored. -/
def image (stored : Stored) : Image := fun address => (stored address).getD 0

theorem image_store (stored : Stored) (address : UInt32) (bytes : ByteArray) :
    (stored.store address bytes).image = stored.image.store address bytes := by
  funext target
  rw [image, store, Image.store, image]
  split <;> rfl

/-- Where a range ends below the top of the address space, it stores to the
addresses between its ends. -/
theorem store_apply (stored : Stored) {address : UInt32} {bytes : ByteArray}
    (hfits : address.toNat + bytes.size ≤ size) (target : UInt32) :
    stored.store address bytes target =
      if address.toNat ≤ target.toNat ∧ target.toNat < address.toNat + bytes.size then
        some (Bytes.byteAt bytes (target.toNat - address.toNat))
      else stored target := by
  have haddress := address.toNat_lt
  have htarget := target.toNat_lt
  have hdistance := toNat_sub target address
  unfold size at *
  unfold store
  by_cases hinside : address.toNat ≤ target.toNat ∧
      target.toNat < address.toNat + bytes.size
  · have hoffset : (target - address).toNat = target.toNat - address.toNat := by omega
    rw [if_pos hinside, hoffset, if_pos (by omega)]
  · rw [if_neg hinside, if_neg (by omega)]

theorem store_empty (stored : Stored) (address : UInt32) {bytes : ByteArray}
    (hsize : bytes.size = 0) : stored.store address bytes = stored := by
  funext target
  rw [store, if_neg (by omega)]

/-- Bytes can be stored in two pieces. -/
theorem store_append (stored : Stored) {address : UInt32} {left right : ByteArray}
    (hfits : address.toNat + (left.size + right.size) < size) :
    stored.store address (left ++ right) =
      (stored.store address left).store (address + UInt32.ofNat left.size) right := by
  have hsize : (left ++ right).size = left.size + right.size := ByteArray.size_append
  have hsecond : (address + UInt32.ofNat left.size).toNat = address.toNat + left.size := by
    rw [toNat_add_ofNat, Nat.mod_eq_of_lt (by omega)]
  funext target
  rw [store_apply _ (by omega), store_apply _ (by omega), store_apply _ (by omega), hsize,
    hsecond, Bytes.byteAt_append]
  grind

end Stored

namespace Zone

variable {zone : Zone} {address : UInt32}

theorem contains_iff :
    zone.contains address = true ↔
      zone.start.toNat ≤ address.toNat ∧ address.toNat < zone.stop.toNat := by
  simp only [contains, Bool.and_eq_true, decide_eq_true_eq, UInt32.le_iff_toNat_le,
    UInt32.lt_iff_toNat_lt]

theorem offset_eq (hstart : zone.start.toNat ≤ address.toNat) :
    zone.offset address = address.toNat - zone.start.toNat := by
  have haddress := address.toNat_lt
  rw [offset, toNat_sub]
  unfold size
  omega

/-! ## The stored bytes -/

@[simp]
theorem start_write (zone : Zone) (address : UInt32) (bytes : ByteArray) :
    (zone.write address bytes).start = zone.start := rfl

@[simp]
theorem stop_write (zone : Zone) (address : UInt32) (bytes : ByteArray) :
    (zone.write address bytes).stop = zone.stop := rfl

@[simp]
theorem contains_write (zone : Zone) (address : UInt32) (bytes : ByteArray) (target : UInt32) :
    (zone.write address bytes).contains target = zone.contains target := rfl

@[simp]
theorem offset_write (zone : Zone) (address : UInt32) (bytes : ByteArray) (target : UInt32) :
    (zone.write address bytes).offset target = zone.offset target := rfl

theorem size_write (zone : Zone) (address : UInt32) (bytes : ByteArray) :
    (zone.write address bytes).data.size =
      max zone.data.size (zone.offset address + bytes.size) := by
  unfold write Bytes.overwrite
  rw [Bytes.size_copySlice (by omega)
    (by simp only [ByteArray.size_append, Bytes.size_zeros]; omega)]
  simp only [ByteArray.size_append, Bytes.size_zeros]
  omega

theorem byteAt_write (zone : Zone) (address : UInt32) (bytes : ByteArray) (index : Nat) :
    Bytes.byteAt (zone.write address bytes).data index =
      if zone.offset address ≤ index ∧ index < zone.offset address + bytes.size then
        Bytes.byteAt bytes (index - zone.offset address)
      else Bytes.byteAt zone.data index := by
  unfold write Bytes.overwrite
  rw [Bytes.byteAt_copySlice (by omega)
    (by simp only [ByteArray.size_append, Bytes.size_zeros]; omega)]
  split
  · rw [Nat.zero_add]
  · rw [Bytes.byteAt_append, Bytes.byteAt_zeros]
    split
    · rfl
    · next hpast => rw [Bytes.byteAt_of_size_le (Nat.not_lt.mp hpast)]

theorem read?_of_lt (count : Nat) (hbehind : zone.data.size < zone.offset address) :
    zone.read? address count = none := by
  rw [read?, if_pos hbehind]

/-- A read that starts no further than right behind the stored bytes gives the
byte at each position, which is zero past the stored ones. -/
theorem exists_read?_eq (count : Nat) (hoffset : zone.offset address ≤ zone.data.size) :
    ∃ bytes : ByteArray, zone.read? address count = some bytes ∧ bytes.size = count ∧
      ∀ index < count,
        Bytes.byteAt bytes index = Bytes.byteAt zone.data (zone.offset address + index) := by
  unfold read?
  dsimp only
  rw [if_neg (Nat.not_lt.mpr hoffset)]
  refine ⟨_, rfl, ?_, ?_⟩
  · simp only [ByteArray.size_append, ByteArray.size_extract, Bytes.size_zeros]
    omega
  · intro index hindex
    rw [Bytes.byteAt_append, Bytes.byteAt_extract, Bytes.byteAt_zeros,
      if_pos (Nat.add_lt_add_left hindex _)]
    split
    · rfl
    · next hpast =>
        rw [ByteArray.size_extract] at hpast
        rw [Bytes.byteAt_of_size_le (by omega)]

/-! ## Against the record -/

/-- The zone has the bytes that the record has for its addresses, and keeps them
up to the last one that was stored. -/
structure Holds (zone : Zone) (stored : Stored) : Prop where
  fits : zone.data.size ≤ zone.stop.toNat - zone.start.toNat
  byte : ∀ address, zone.contains address = true →
    stored.image address = Bytes.byteAt zone.data (zone.offset address)
  before : ∀ address, zone.contains address = true → stored address ≠ none →
    zone.offset address < zone.data.size
  last : ∀ address, zone.contains address = true →
    zone.offset address + 1 = zone.data.size → stored address ≠ none

variable {stored : Stored}

/-- A zone whose data is all that was stored at its addresses. -/
theorem holds_of_eq (hfits : zone.data.size ≤ zone.stop.toNat - zone.start.toNat)
    (heq : ∀ address, zone.contains address = true →
      stored address = if zone.offset address < zone.data.size then
        some (Bytes.byteAt zone.data (zone.offset address)) else none) :
    zone.Holds stored := by
  refine ⟨hfits, fun address haddress => ?_, fun address haddress hstored => ?_,
    fun address haddress hlast => ?_⟩
  · rw [Stored.image, heq address haddress]
    split
    · rfl
    · next hpast => exact (Bytes.byteAt_of_size_le (Nat.not_lt.mp hpast)).symm
  · rw [heq address haddress] at hstored
    split at hstored
    · assumption
    · exact absurd rfl hstored
  · rw [heq address haddress, if_pos (by omega)]
    exact Option.some_ne_none _

/-- Every position of a zone has an address. -/
theorem exists_offset_eq {index : Nat} (hindex : index < zone.stop.toNat - zone.start.toNat) :
    ∃ address, zone.contains address = true ∧ zone.offset address = index := by
  have hstop := zone.stop.toNat_lt
  have haddress : (UInt32.ofNat (zone.start.toNat + index)).toNat =
      zone.start.toNat + index := by
    rw [UInt32.toNat_ofNat', Nat.mod_eq_of_lt (by omega)]
  refine ⟨UInt32.ofNat (zone.start.toNat + index), contains_iff.mpr (by omega), ?_⟩
  rw [offset_eq (by omega), haddress]
  omega

/-- An address lies further on than right behind what was stored in a zone. -/
def Behind (zone : Zone) (stored : Stored) (address : UInt32) : Prop :=
  zone.contains address = true ∧ zone.start ≠ address ∧
    ∀ target, zone.contains target = true → stored target ≠ none →
      target.toNat + 1 < address.toNat

theorem Holds.behind_iff (hholds : zone.Holds stored) (hcontains : zone.contains address = true) :
    zone.Behind stored address ↔ zone.data.size < zone.offset address := by
  have hbounds := contains_iff.mp hcontains
  have hoffset := offset_eq hbounds.1
  constructor
  · rintro ⟨-, hstart, hstored⟩
    have hstart : zone.start.toNat ≠ address.toNat := fun h => hstart (UInt32.toNat_inj.mp h)
    rcases Nat.eq_zero_or_pos zone.data.size with hempty | hpos
    · omega
    · have hfits := hholds.fits
      obtain ⟨target, htarget, hlast⟩ :=
        exists_offset_eq (show zone.data.size - 1 < zone.stop.toNat - zone.start.toNat by omega)
      have hbefore := hstored target htarget (hholds.last target htarget (by omega))
      have hstart := (contains_iff.mp htarget).1
      rw [offset_eq hstart] at hlast
      omega
  · intro hbehind
    refine ⟨hcontains, fun hstart => ?_, fun target htarget hstored => ?_⟩
    · rw [hstart] at hoffset
      omega
    · have hbefore := hholds.before target htarget hstored
      have htarget := (contains_iff.mp htarget).1
      rw [offset_eq htarget] at hbefore
      omega

/-- A read finds nothing to start from where it starts behind the stored bytes. -/
theorem Holds.read?_eq_none (hholds : zone.Holds stored) (count : Nat)
    (hbehind : zone.Behind stored address) : zone.read? address count = none :=
  read?_of_lt count ((hholds.behind_iff hbehind.1).mp hbehind)

/-- A read within the zone gives what the record says. -/
theorem Holds.read?_eq_some (hholds : zone.Holds stored)
    (hcontains : zone.contains address = true) {count : Nat}
    (hroom : count ≤ zone.room address) (hbehind : ¬ zone.Behind stored address) :
    zone.read? address count = some (stored.image.contents address count) := by
  rw [hholds.behind_iff hcontains] at hbehind
  obtain ⟨bytes, hread, hsize, hbyte⟩ := exists_read?_eq count (Nat.not_lt.mp hbehind)
  have hbounds := contains_iff.mp hcontains
  have hstop := zone.stop.toNat_lt
  unfold room at hroom
  rw [hread]
  refine congrArg some (Bytes.ext_byteAt (by rw [hsize, Image.size_contents]) ?_)
  intro index hindex
  rw [hsize] at hindex
  have htarget : (address + UInt32.ofNat index).toNat = address.toNat + index := by
    rw [toNat_add_ofNat, Nat.mod_eq_of_lt (by unfold size; omega)]
  have hinside : zone.contains (address + UInt32.ofNat index) = true :=
    contains_iff.mpr (by omega)
  have hoffset : zone.offset (address + UInt32.ofNat index) = zone.offset address + index := by
    rw [offset_eq (contains_iff.mp hinside).1, offset_eq hbounds.1]
    omega
  rw [hbyte index hindex, Image.byteAt_contents _ _ hindex, hholds.byte _ hinside, hoffset]

/-- Writing to the zone stores to the record. -/
theorem Holds.write (hholds : zone.Holds stored) (hcontains : zone.contains address = true)
    {bytes : ByteArray} (hroom : bytes.size ≤ zone.room address) (hbytes : 0 < bytes.size) :
    (zone.write address bytes).Holds (stored.store address bytes) := by
  have hbounds := contains_iff.mp hcontains
  have hstop := zone.stop.toNat_lt
  have hfits := hholds.fits
  have hoffset := offset_eq hbounds.1
  have hsize := zone.size_write address bytes
  unfold room at hroom
  have hstore := @Stored.store_apply stored address bytes (by unfold size; omega)
  constructor
  · rw [stop_write, start_write]
    omega
  · intro target htarget
    rw [contains_write] at htarget
    have hstart := (contains_iff.mp htarget).1
    have hkept := hholds.byte target htarget
    rw [Stored.image] at hkept
    rw [offset_write, byteAt_write, ← hkept, Stored.image, hstore target, offset_eq hstart, hoffset]
    grind
  · intro target htarget hstored
    rw [contains_write] at htarget
    have hstart := (contains_iff.mp htarget).1
    have hkept := hholds.before target htarget
    rw [hstore target] at hstored
    rw [offset_write, hsize, offset_eq hstart, hoffset]
    rw [offset_eq hstart] at hkept
    grind
  · intro target htarget hlast
    rw [contains_write] at htarget
    have hstart := (contains_iff.mp htarget).1
    have hkept := hholds.last target htarget
    rw [offset_write, hsize, offset_eq hstart, hoffset] at hlast
    rw [offset_eq hstart] at hkept
    rw [hstore target]
    grind

/-- Storing elsewhere is nothing to the zone. -/
theorem Holds.store_outside (hholds : zone.Holds stored) {bytes : ByteArray}
    (houtside : ∀ target, zone.contains target = true →
      stored.store address bytes target = stored target) :
    zone.Holds (stored.store address bytes) := by
  refine ⟨hholds.fits, fun target htarget => ?_, fun target htarget => ?_,
    fun target htarget => ?_⟩
  · rw [Stored.image, houtside target htarget]
    exact hholds.byte target htarget
  · rw [houtside target htarget]
    exact hholds.before target htarget
  · rw [houtside target htarget]
    exact hholds.last target htarget

/-- A zone can end later if nothing was stored there. -/
theorem Holds.extend (hholds : zone.Holds stored) {stop : UInt32} {last : Nat}
    (hlater : zone.stop.toNat < last) (hstop : stop.toNat = last)
    (hnew : ∀ address, zone.stop.toNat ≤ address.toNat ∧ address.toNat < last →
      stored address = none) :
    Holds { zone with stop := stop } stored := by
  have hfits := hholds.fits
  -- An address of the longer zone is one of the zone, or nothing was stored there.
  have hcases : ∀ address, contains { zone with stop := stop } address = true →
      zone.contains address = true ∨
        stored address = none ∧ zone.data.size ≤ zone.offset address := by
    intro address haddress
    obtain ⟨hstart, hbefore⟩ := contains_iff.mp haddress
    dsimp only at hstart hbefore
    rw [contains_iff]
    rcases Nat.lt_or_ge address.toNat zone.stop.toNat with hlt | hge
    · exact Or.inl ⟨hstart, hlt⟩
    · refine Or.inr ⟨hnew address (by omega), ?_⟩
      rw [offset_eq hstart]
      omega
  refine ⟨?_, fun address haddress => ?_, fun address haddress hstored => ?_,
    fun address haddress hlast => ?_⟩
  · dsimp only
    omega
  · rcases hcases address haddress with hold | ⟨hnone, hpast⟩
    · exact hholds.byte address hold
    · rw [Stored.image, hnone]
      exact (Bytes.byteAt_of_size_le hpast).symm
  · rcases hcases address haddress with hold | ⟨hnone, -⟩
    · exact hholds.before address hold hstored
    · exact absurd hnone hstored
  · rcases hcases address haddress with hold | ⟨-, hpast⟩
    · exact hholds.last address hold hlast
    · change zone.offset address + 1 = zone.data.size at hlast
      omega

end Zone

end GasMachine
