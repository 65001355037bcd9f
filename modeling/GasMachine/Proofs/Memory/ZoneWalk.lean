import GasMachine.Memory.Zoned

/-!
# Walking over zones

Reads and writes of a zoned memory go from zone to zone.  The equations of the
two walks are given here, one for each way on, and with them what the walks
leave alone: neither looks at the page map nor changes it.
-/

namespace GasMachine.ZonedMemory

variable {memory : ZonedMemory} {position : UInt32} {remaining done : Nat}
variable {filled bytes : ByteArray} {region : Region}

theorem readFrom_zero (memory : ZonedMemory) (position : UInt32) (filled : ByteArray) :
    memory.readFrom position 0 filled = (.ok (), filled) := by
  rw [readFrom, if_pos rfl]

theorem readFrom_of_none (hremaining : remaining ≠ 0)
    (hregion : memory.regionAt? position = none) :
    memory.readFrom position remaining filled =
      (.error (.refused (.notReadable position)), filled) := by
  rw [readFrom, if_neg hremaining]
  split
  · rfl
  · next region hsome =>
      rw [hregion] at hsome
      cases hsome

theorem readFrom_of_some (hremaining : remaining ≠ 0)
    (hregion : memory.regionAt? position = some region) :
    memory.readFrom position remaining filled =
      match (memory.zone region).read? position
          (min remaining ((memory.zone region).room position)) with
      | none => (.error .aborted, filled)
      | some bytes =>
        memory.readFrom
          (position + UInt32.ofNat (min remaining ((memory.zone region).room position)))
          (remaining - min remaining ((memory.zone region).room position)) (filled ++ bytes) := by
  rw [readFrom, if_neg hremaining]
  split
  · next hnone =>
      rw [hregion] at hnone
      cases hnone
  · next other hsome =>
      obtain rfl : region = other := Option.some.inj (hregion.symm.trans hsome)
      rfl

theorem writeFrom_of_size_le (position : UInt32) (hdone : bytes.size ≤ done) :
    memory.writeFrom position bytes done = (.ok (), memory) := by
  rw [writeFrom, if_pos hdone]

theorem writeFrom_of_none (hdone : done < bytes.size)
    (hregion : memory.regionAt? position = none) :
    memory.writeFrom position bytes done = (.error (.notWritable position), memory) := by
  rw [writeFrom, if_neg (Nat.not_le.mpr hdone)]
  split
  · rfl
  · next region hsome =>
      rw [hregion] at hsome
      cases hsome

theorem writeFrom_of_some (hdone : done < bytes.size)
    (hregion : memory.regionAt? position = some region) :
    memory.writeFrom position bytes done =
      (memory.updateZone region fun zone =>
          zone.write position (bytes.extract done
            (done + min (bytes.size - done) ((memory.zone region).room position)))).writeFrom
        (position +
          UInt32.ofNat (min (bytes.size - done) ((memory.zone region).room position)))
        bytes (done + min (bytes.size - done) ((memory.zone region).room position)) := by
  rw [writeFrom, if_neg (Nat.not_le.mpr hdone)]
  split
  · next hnone =>
      rw [hregion] at hnone
      cases hnone
  · next other hsome =>
      obtain rfl : region = other := Option.some.inj (hregion.symm.trans hsome)
      rfl

section PageMaps

variable (memory) (map : PageMap)

theorem zone_setPageMap (region : Region) :
    { memory with pageMap := map }.zone region = memory.zone region := by
  cases region <;> rfl

theorem regionAt?_setPageMap (address : UInt32) :
    { memory with pageMap := map }.regionAt? address = memory.regionAt? address := rfl

theorem updateZone_setPageMap (region : Region) (update : Zone → Zone) :
    { memory with pageMap := map }.updateZone region update =
      { memory.updateZone region update with pageMap := map } := by
  cases region <;> rfl

/-- A read walks over the zones whatever the page map says. -/
theorem readFrom_setPageMap (position : UInt32) (remaining : Nat) (filled : ByteArray) :
    { memory with pageMap := map }.readFrom position remaining filled =
      memory.readFrom position remaining filled := by
  fun_induction memory.readFrom position remaining filled with
  | case1 position filled => rw [readFrom_zero]
  | case2 position remaining filled hremaining hregion =>
      exact readFrom_of_none hremaining hregion
  | case3 position remaining filled hremaining region hregion count hread =>
      rw [← regionAt?_setPageMap memory map] at hregion
      rw [readFrom_of_some hremaining hregion, zone_setPageMap, hread]
  | case4 position remaining filled hremaining region hregion count bytes hread ih =>
      rw [← regionAt?_setPageMap memory map] at hregion
      rw [readFrom_of_some hremaining hregion, zone_setPageMap, hread]
      exact ih

/-- A write walks over the zones whatever the page map says, and leaves it. -/
theorem writeFrom_setPageMap (position : UInt32) (bytes : ByteArray) (done : Nat) :
    { memory with pageMap := map }.writeFrom position bytes done =
      ((memory.writeFrom position bytes done).1,
        { (memory.writeFrom position bytes done).2 with pageMap := map }) := by
  fun_induction memory.writeFrom position bytes done with
  | case1 memory position done hdone => rw [writeFrom_of_size_le position hdone]
  | case2 memory position done hdone hregion =>
      exact writeFrom_of_none (Nat.not_le.mp hdone) hregion
  | case3 memory position done hdone region hregion count piece ih =>
      rw [← regionAt?_setPageMap memory map] at hregion
      rw [writeFrom_of_some (Nat.not_le.mp hdone) hregion, zone_setPageMap,
        updateZone_setPageMap]
      exact ih

end PageMaps

end GasMachine.ZonedMemory
