import Mathlib.Data.List.GetD
import GasMachine.Proofs.Bytes.ByteAt

/-!
# Byte strings inside byte strings

What is decoded was written piece by piece.  `HasAt` says that a piece stands at
a position of a byte string; it splits along the pieces, so that each can be read
on its own.
-/

namespace GasMachine.Bytes

variable {bytes : ByteArray} {start : Nat}

/-- The bytes of `part` stand in `bytes` from `start` on. -/
def HasAt (bytes : ByteArray) (start : Nat) (part : List UInt8) : Prop :=
  slice bytes start part.length = part

theorem slice_add (bytes : ByteArray) (start first second : Nat) :
    slice bytes start (first + second) =
      slice bytes start first ++ slice bytes (start + first) second := by
  simp only [slice, List.range_add, List.map_append, List.map_map, Function.comp_def,
    Nat.add_assoc]

@[simp]
theorem length_slice (bytes : ByteArray) (start count : Nat) :
    (slice bytes start count).length = count := by
  rw [slice, List.length_map, List.length_range]

theorem hasAt_append {front rest : List UInt8} :
    HasAt bytes start (front ++ rest) ↔
      HasAt bytes start front ∧ HasAt bytes (start + front.length) rest := by
  simp only [HasAt, List.length_append, slice_add]
  constructor
  · intro heq
    exact List.append_inj heq (length_slice _ _ _)
  · rintro ⟨hfront, hrest⟩
    rw [hfront, hrest]

theorem hasAt_cons {first : UInt8} {rest : List UInt8} :
    HasAt bytes start (first :: rest) ↔
      byteAt bytes start = first ∧ HasAt bytes (start + 1) rest := by
  have hfirst : HasAt bytes start [first] ↔ byteAt bytes start = first := by
    simp [HasAt, slice]
  rw [← List.singleton_append, hasAt_append, hfirst, List.length_singleton]

theorem byteAt_toByteArray (part : List UInt8) (index : Nat) :
    byteAt part.toByteArray index = part.getD index 0 := by
  have hsize : part.toByteArray.size = part.length := List.size_toByteArray
  rcases Nat.lt_or_ge index part.toByteArray.size with hindex | hindex
  · rw [byteAt_of_lt hindex, ByteArray.getElem_eq_getElem_data, ← Array.getElem_toList,
      List.getD_eq_getElem _ _ (hsize ▸ hindex)]
    simp only [List.toList_data_toByteArray]
  · rw [byteAt_of_size_le hindex, List.getD_eq_default _ _ (hsize ▸ hindex)]

/-- A part of a list stands where the parts before it end. -/
theorem hasAt_toByteArray (front part rest : List UInt8) :
    HasAt (front ++ part ++ rest).toByteArray front.length part := by
  apply List.ext_getElem (length_slice _ _ _)
  intro index hindex hpart
  have happend : front.length + index < (front ++ part).length := by
    rw [List.length_append]
    omega
  simp only [slice, List.getElem_map, List.getElem_range]
  rw [byteAt_toByteArray, List.getD_append _ _ _ _ happend,
    List.getD_append_right _ _ _ _ (Nat.le_add_right _ _), Nat.add_sub_cancel_left,
    List.getD_eq_getElem _ _ hpart]

theorem toByteArray_toList (bytes : ByteArray) : bytes.data.toList.toByteArray = bytes := by
  apply ByteArray.ext
  apply Array.toList_inj.mp
  rw [List.toList_data_toByteArray]

/-- What is put between two byte strings stands where the first one ends. -/
theorem hasAt_between (front : ByteArray) (part : List UInt8) (rest : ByteArray) :
    HasAt (front ++ part.toByteArray ++ rest) front.size part := by
  have hhas := hasAt_toByteArray front.data.toList part rest.data.toList
  rwa [List.toByteArray_append, List.toByteArray_append, toByteArray_toList,
    toByteArray_toList] at hhas

end GasMachine.Bytes
