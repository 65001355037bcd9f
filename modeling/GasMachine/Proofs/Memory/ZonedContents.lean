import GasMachine.Proofs.Memory.ZonedLayout

/-!
# What a zoned memory holds

A zoned memory stands for the record of what was stored in it.  Writes that
succeed store to the record, and nothing else changes it.  A read of addresses
that have access gives the bytes of the record, except where it starts behind
all that was stored in its zone, which stops the host.  So what a read gives is
known from the operations that led to the memory.
-/

namespace GasMachine

open AddressSpace

theorem Transfer.bytes_eq_error_iff {μ : Type} (transfer : Transfer μ) (failure : ReadFailure) :
    (transfer.result.map fun _ => transfer.buffer) = .error failure ↔
      transfer.result = .error failure := by
  cases transfer.result <;> simp [Except.map]

namespace ZonedMemory

variable {memory : ZonedMemory} {stored : Stored}

/-- The record of what was stored in a memory. -/
structure Represents (memory : ZonedMemory) (stored : Stored) : Prop where
  layout : memory.Layout
  holds : ∀ region, (memory.zone region).Holds stored
  outside : ∀ address, memory.regionAt? address = none → stored address = none

theorem Represents.setCache (hstored : memory.Represents stored) (cache : AccessCache)
    (hsound : cache.Sound memory.pageMap.table) :
    Represents { memory with pageMap := ⟨memory.pageMap.table, cache, hsound⟩ } stored := by
  refine ⟨hstored.layout.setCache cache hsound, fun region => ?_, hstored.outside⟩
  rw [zone_setPageMap]
  exact hstored.holds region

/-- A check changes at most what is remembered. -/
theorem Represents.checkRange (hstored : memory.Represents stored) (kind : AccessKind)
    (address : UInt32) (length : Nat) :
    Represents { memory with pageMap := (memory.pageMap.checkRange kind address length).2 }
      stored := by
  obtain ⟨cache, hsound, hcheck⟩ := memory.pageMap.checkRange_eq kind address length
  rw [hcheck]
  exact hstored.setCache cache hsound

def Mapped (memory : ZonedMemory) (address : UInt32) (length : Nat) : Prop :=
  ∀ offset < length, memory.regionAt? (address + UInt32.ofNat offset) ≠ none

/-- A range that passes a check is mapped. -/
theorem Layout.mapped_of_checkRange (hlayout : memory.Layout) {kind : AccessKind}
    {address : UInt32} {length : Nat}
    (hcheck : (memory.pageMap.checkRange kind address length).1 = .ok ()) :
    memory.Mapped address length := by
  obtain ⟨cache, hsound, hverdict⟩ := memory.pageMap.checkRange_eq kind address length
  rw [hverdict] at hcheck
  obtain ⟨-, hallowed⟩ := AccessKind.verdict_eq_ok_iff.mp hcheck
  intro offset hoffset hnone
  have hallowed := hallowed offset hoffset
  rw [hlayout.access, hnone] at hallowed
  cases kind <;> cases hallowed

namespace Mapped

variable {address : UInt32} {length : Nat}

theorem exists_contains (hmapped : memory.Mapped address length) (hlength : length ≠ 0) :
    ∃ region, memory.regionAt? address = some region ∧
      (memory.zone region).contains address = true := by
  have hfirst := hmapped 0 (Nat.pos_of_ne_zero hlength)
  obtain ⟨region, hregion⟩ := Option.ne_none_iff_exists'.mp hfirst
  have hzero : address + UInt32.ofNat 0 = address := UInt32.add_zero address
  rw [hzero] at hregion
  exact ⟨region, hregion,
    List.find?_some (p := fun region => (memory.zone region).contains address) hregion⟩

/-- The last address has no access, so mapped ranges end before it. -/
theorem end_lt (hmapped : memory.Mapped address length) : address.toNat + length < size := by
  have haddress := address.toNat_lt
  rcases Nat.lt_or_ge (address.toNat + length) size with hlt | hge
  · exact hlt
  · exfalso
    unfold size at hge
    have hlast : (address + UInt32.ofNat (size - 1 - address.toNat)).toNat = size - 1 := by
      rw [toNat_add_ofNat]
      unfold size
      omega
    obtain ⟨region, hregion⟩ := Option.ne_none_iff_exists'.mp
      (hmapped (size - 1 - address.toNat) (by unfold size; omega))
    have hcontains := List.find?_some
      (p := fun region => (memory.zone region).contains
        (address + UInt32.ofNat (size - 1 - address.toNat))) hregion
    have hbounds := Zone.contains_iff.mp hcontains
    have hstop := (memory.zone region).stop.toNat_lt
    unfold size at *
    omega

theorem drop (hmapped : memory.Mapped address length) (count : Nat) :
    memory.Mapped (address + UInt32.ofNat count) (length - count) := by
  intro offset hoffset
  have hlater := hmapped (count + offset) (by omega)
  rwa [UInt32.ofNat_add, ← UInt32.add_assoc] at hlater

end Mapped

/-! ## Reads -/

/-- An address lies further on than right behind all that was stored in its zone. -/
def BehindStored (memory : ZonedMemory) (stored : Stored) (address : UInt32) : Prop :=
  ∃ region, (memory.zone region).Behind stored address

/-- Where a zone ends, the address is outside or starts another zone. -/
theorem Layout.not_behindStored_stop (hlayout : memory.Layout) {region : Region}
    {position next : UInt32} (hcontains : (memory.zone region).contains position = true)
    (hnext : next.toNat = (memory.zone region).stop.toNat) :
    ¬ memory.BehindStored stored next := by
  rintro ⟨other, hother, hstart, -⟩
  have hbounds := Zone.contains_iff.mp hcontains
  have hotherBounds := Zone.contains_iff.mp hother
  have hregions : region ≠ other := by
    rintro rfl
    omega
  have hstart : (memory.zone other).start.toNat ≠ next.toNat :=
    fun heq => hstart (UInt32.toNat_inj.mp heq)
  have hseparate := hlayout.separate hregions
  omega

theorem Represents.readFrom_of_behind (hstored : memory.Represents stored) {position : UInt32}
    {remaining : Nat} (filled : ByteArray) (hremaining : remaining ≠ 0)
    (hbehind : memory.BehindStored stored position) :
    memory.readFrom position remaining filled = (.error .aborted, filled) := by
  obtain ⟨region, hbehind⟩ := hbehind
  have hregion := hstored.layout.regionAt?_eq_some_iff.mpr hbehind.1
  rw [readFrom_of_some hremaining hregion, (hstored.holds region).read?_eq_none _ hbehind]

/-- A read of a mapped range gives what the record says.  Only its first piece
can start behind the stored bytes, since the others start at the start of a zone. -/
theorem Represents.readFrom_eq (hstored : memory.Represents stored) {position : UInt32}
    {remaining : Nat} (filled : ByteArray) (hmapped : memory.Mapped position remaining)
    (hbehind : remaining = 0 ∨ ¬ memory.BehindStored stored position) :
    memory.readFrom position remaining filled =
      (.ok (), filled ++ stored.image.contents position remaining) := by
  induction remaining using Nat.strongRecOn generalizing position filled with
  | ind remaining ih =>
      by_cases hremaining : remaining = 0
      · subst hremaining
        rw [readFrom_zero]
        exact congrArg (Prod.mk _) ByteArray.append_empty.symm
      · obtain ⟨region, hregion, hcontains⟩ := hmapped.exists_contains hremaining
        have hroom := Zone.room_pos hcontains
        have hfront : ¬ (memory.zone region).Behind stored position :=
          fun hfront => (hbehind.resolve_left hremaining) ⟨region, hfront⟩
        rw [readFrom_of_some hremaining hregion]
        generalize hcount : min remaining ((memory.zone region).room position) = count
        have hrest : remaining - count = 0 ∨
            ¬ memory.BehindStored stored (position + UInt32.ofNat count) := by
          rcases Nat.eq_zero_or_pos (remaining - count) with hdone | hmore
          · exact Or.inl hdone
          · refine Or.inr (hstored.layout.not_behindStored_stop hcontains ?_)
            have hbounds := Zone.contains_iff.mp hcontains
            have hstop := (memory.zone region).stop.toNat_lt
            unfold Zone.room at hcount
            rw [toNat_add_ofNat]
            unfold size
            omega
        have hread := (hstored.holds region).read?_eq_some hcontains
          (show count ≤ (memory.zone region).room position by omega) hfront
        have hsum : count + (remaining - count) = remaining := by omega
        rw [hread]
        dsimp only
        rw [ih (remaining - count) (by omega) _ (hmapped.drop count) hrest,
          ByteArray.append_assoc, ← Image.contents_add, hsum]

/-- A read changes at most what is remembered. -/
theorem memory_readInto (memory : ZonedMemory) (address : UInt32) (buffer : ByteArray) :
    (memory.readInto address buffer).memory =
      { memory with
        pageMap := (memory.pageMap.checkRange .read address buffer.size).2 } := by
  unfold readInto
  rcases memory.pageMap.checkRange .read address buffer.size with ⟨verdict, map⟩
  cases verdict <;> rfl

theorem readInto_of_readable {address : UInt32} {buffer : ByteArray}
    (hreadable : (memory.pageMap.checkRange .read address buffer.size).1 = .ok ())
    {result : Except ReadFailure Unit} {filled : ByteArray}
    (hread : memory.readFrom address buffer.size ByteArray.empty = (result, filled)) :
    (memory.readInto address buffer).result = result ∧
      (memory.readInto address buffer).buffer =
        filled ++ buffer.extract filled.size buffer.size := by
  unfold readInto
  rcases hcheck : memory.pageMap.checkRange .read address buffer.size with ⟨verdict, map⟩
  rw [hcheck] at hreadable
  obtain rfl : verdict = .ok () := hreadable
  simp only [hread, and_self]

/-- A read that starts behind the stored bytes stops the host and leaves the
buffer as it was. -/
theorem Represents.readInto_of_behind (hstored : memory.Represents stored) {address : UInt32}
    {buffer : ByteArray}
    (hreadable : (memory.pageMap.checkRange .read address buffer.size).1 = .ok ())
    (hbuffer : buffer.size ≠ 0) (hbehind : memory.BehindStored stored address) :
    (memory.readInto address buffer).result = .error .aborted ∧
      (memory.readInto address buffer).buffer = buffer := by
  obtain ⟨hresult, hfilled⟩ := readInto_of_readable hreadable
    (hstored.readFrom_of_behind ByteArray.empty hbuffer hbehind)
  refine ⟨hresult, hfilled.trans ?_⟩
  rw [ByteArray.empty_append, ByteArray.size_empty, ByteArray.extract_zero_size]

/-- Any other read of a readable range gives the bytes of the record. -/
theorem Represents.readInto_eq (hstored : memory.Represents stored) {address : UInt32}
    {buffer : ByteArray}
    (hreadable : (memory.pageMap.checkRange .read address buffer.size).1 = .ok ())
    (hbehind : buffer.size = 0 ∨ ¬ memory.BehindStored stored address) :
    (memory.readInto address buffer).result = .ok () ∧
      (memory.readInto address buffer).buffer =
        stored.image.contents address buffer.size := by
  obtain ⟨hresult, hfilled⟩ := readInto_of_readable hreadable
    (hstored.readFrom_eq ByteArray.empty (hstored.layout.mapped_of_checkRange hreadable)
      hbehind)
  refine ⟨hresult, hfilled.trans ?_⟩
  rw [ByteArray.empty_append, Image.size_contents, ByteArray.extract_same,
    ByteArray.append_empty]

/-- A range has bytes, all of them can be read, and it starts behind all that was
stored in its zone. -/
def ReadsBehind (memory : ZonedMemory) (stored : Stored) (address : UInt32) (length : Nat) :
    Prop :=
  (memory.pageMap.checkRange .read address length).1 = .ok () ∧ length ≠ 0 ∧
    memory.BehindStored stored address

/-- Exactly the reads of such ranges stop the host. -/
theorem Represents.readInto_aborted_iff (hstored : memory.Represents stored)
    (address : UInt32) (buffer : ByteArray) :
    (memory.readInto address buffer).result = .error .aborted ↔
      memory.ReadsBehind stored address buffer.size := by
  constructor
  · intro haborted
    have hreadable : (memory.pageMap.checkRange .read address buffer.size).1 = .ok () := by
      unfold readInto at haborted
      rcases hcheck : memory.pageMap.checkRange .read address buffer.size with ⟨verdict, map⟩
      rw [hcheck] at haborted
      cases verdict with
      | error fault => cases haborted
      | ok allowed => rfl
    refine ⟨hreadable, ?_⟩
    rcases Nat.eq_zero_or_pos buffer.size with hempty | hbuffer
    · rw [(hstored.readInto_eq hreadable (Or.inl hempty)).1] at haborted
      cases haborted
    · refine ⟨Nat.ne_of_gt hbuffer, Classical.byContradiction fun hbehind => ?_⟩
      rw [(hstored.readInto_eq hreadable (Or.inr hbehind)).1] at haborted
      cases haborted
  · rintro ⟨hreadable, hbuffer, hbehind⟩
    exact (hstored.readInto_of_behind hreadable hbuffer hbehind).1

/-- Reads of readable ranges give the bytes last stored and zeros for those never
stored, except that those which start behind all that was stored stop the host
and leave the buffer. -/
structure ReadsAsStored (memory : ZonedMemory) (stored : Stored) : Prop where
  ok : ∀ address buffer,
    (memory.pageMap.checkRange .read address buffer.size).1 = .ok () →
      ¬ memory.ReadsBehind stored address buffer.size →
        (memory.readInto address buffer).result = .ok () ∧
          (memory.readInto address buffer).buffer = stored.image.contents address buffer.size
  aborted : ∀ address buffer, memory.ReadsBehind stored address buffer.size →
    (memory.readInto address buffer).result = .error .aborted ∧
      (memory.readInto address buffer).buffer = buffer

theorem Represents.readsAsStored (hstored : memory.Represents stored) :
    memory.ReadsAsStored stored := by
  constructor
  · intro address buffer hreadable hbehind
    refine hstored.readInto_eq hreadable ?_
    rcases Nat.eq_zero_or_pos buffer.size with hempty | hbuffer
    · exact Or.inl hempty
    · exact Or.inr fun hstart => hbehind ⟨hreadable, Nat.ne_of_gt hbuffer, hstart⟩
  · rintro address buffer ⟨hreadable, hbuffer, hbehind⟩
    exact hstored.readInto_of_behind hreadable hbuffer hbehind

theorem check_eq (memory : ZonedMemory) (kind : AccessKind) (address : UInt32)
    (length : UInt64) :
    Memory.check memory kind address length =
      ((memory.pageMap.checkRange kind address length.toNat).1,
        { memory with pageMap := (memory.pageMap.checkRange kind address length.toNat).2 }) :=
  rfl

/-- The same holds of reads that make room for the bytes only once the range has
passed its check. -/
theorem Represents.read_aborted_iff (hstored : memory.Represents stored) (address : UInt32)
    (length : UInt64) :
    (Memory.read memory address length).1 = .error .aborted ↔
      memory.ReadsBehind stored address length.toNat := by
  have hchecked := hstored.checkRange .read address length.toNat
  have hagain := memory.pageMap.checkRange_checkRange .read address length.toNat
  have haborted := hchecked.readInto_aborted_iff address (Bytes.zeros length.toNat)
  unfold ReadsBehind at *
  dsimp only at haborted
  rw [Bytes.size_zeros, hagain] at haborted
  rw [Memory.read, check_eq]
  cases hverdict : (memory.pageMap.checkRange .read address length.toNat).1 with
  | error fault => exact ⟨nofun, fun hreadable => nomatch hreadable.1⟩
  | ok allowed =>
      rw [hverdict] at haborted
      exact (Transfer.bytes_eq_error_iff _ _).trans haborted

/-! ## Writes -/

theorem regionAt?_updateZone_write (memory : ZonedMemory) (region : Region)
    (position : UInt32) (bytes : ByteArray) (address : UInt32) :
    (memory.updateZone region fun zone => zone.write position bytes).regionAt? address =
      memory.regionAt? address := by
  refine regionAt?_congr fun other => ?_
  rw [zone_updateZone]
  split <;> rfl

/-- Writing a piece to the zone that has room for it stores it. -/
theorem Represents.writePiece (hstored : memory.Represents stored) {region : Region}
    {position : UInt32} (hcontains : (memory.zone region).contains position = true)
    {piece : ByteArray} (hroom : piece.size ≤ (memory.zone region).room position)
    (hpiece : 0 < piece.size) :
    Represents (memory.updateZone region fun zone => zone.write position piece)
      (stored.store position piece) := by
  have hbounds := Zone.contains_iff.mp hcontains
  have hstop := (memory.zone region).stop.toNat_lt
  have hsize : position.toNat + piece.size ≤ (memory.zone region).stop.toNat := by
    unfold Zone.room at hroom
    omega
  -- Outside the zone the record stays as it is.
  have houtside : ∀ target, ¬ (memory.zone region).contains target = true →
      stored.store position piece target = stored target := by
    intro target htarget
    rw [Zone.contains_iff] at htarget
    rw [Stored.store_apply _ (by unfold size; omega), if_neg (by omega)]
  refine ⟨hstored.layout.updateZone (fun _ => rfl) (fun _ => rfl), fun other => ?_,
    fun target htarget => ?_⟩
  · rw [zone_updateZone]
    split
    · next hother =>
        subst hother
        exact (hstored.holds other).write hcontains hroom hpiece
    · next hother =>
        refine (hstored.holds other).store_outside fun target htarget =>
          houtside target fun hregion => hother ?_
        exact hstored.layout.eq_of_contains htarget hregion
  · rw [regionAt?_updateZone_write] at htarget
    rw [houtside target fun hregion => ?_]
    · exact hstored.outside target htarget
    · rw [hstored.layout.regionAt?_eq_some_iff.mpr hregion] at htarget
      cases htarget

/-- A write to a mapped range succeeds and stores the bytes. -/
theorem Represents.writeFrom (hstored : memory.Represents stored) {position : UInt32}
    {bytes : ByteArray} {done : Nat} (hmapped : memory.Mapped position (bytes.size - done)) :
    ∃ after, memory.writeFrom position bytes done = (.ok (), after) ∧
      after.Represents (stored.store position (bytes.extract done bytes.size)) := by
  fun_induction memory.writeFrom position bytes done generalizing stored with
  | case1 memory position done hdone =>
      refine ⟨memory, rfl, ?_⟩
      rw [Stored.store_empty _ _ (by rw [ByteArray.size_extract]; omega)]
      exact hstored
  | case2 memory position done hdone hregion =>
      obtain ⟨region, hsome, -⟩ := hmapped.exists_contains (by omega)
      rw [hregion] at hsome
      cases hsome
  | case3 memory position done hdone region hregion count piece =>
      rename_i ih
      have hcontains := hstored.layout.regionAt?_eq_some_iff.mp hregion
      have hroom := Zone.room_pos hcontains
      have hend := hmapped.end_lt
      have hcount : count = min (bytes.size - done) ((memory.zone region).room position) := rfl
      have hpiece : piece.size = count := by
        simp only [piece, ByteArray.size_extract]
        omega
      have hremains : (bytes.extract (done + count) bytes.size).size =
          bytes.size - (done + count) := by
        rw [ByteArray.size_extract]
        omega
      have hsplit : bytes.extract done bytes.size =
          piece ++ bytes.extract (done + count) bytes.size :=
        ByteArray.extract_eq_extract_append_extract (done + count) (by omega) (by omega)
      have hwritten := hstored.writePiece hcontains (show piece.size ≤ _ by omega) (by omega)
      have hrest : Mapped (memory.updateZone region fun zone => zone.write position piece)
          (position + UInt32.ofNat count) (bytes.size - (done + count)) := by
        intro offset hoffset
        rw [regionAt?_updateZone_write]
        exact hmapped.drop count offset (by omega)
      obtain ⟨after, hafter, hrepresents⟩ := ih hwritten hrest
      refine ⟨after, hafter, ?_⟩
      rwa [hsplit, Stored.store_append _ (by omega), hpiece]

/-- A write answers as the access of its addresses says.  One that is refused
changes at most what is remembered, and one that succeeds stores the bytes. -/
theorem Represents.write_eq (hstored : memory.Represents stored) (address : UInt32)
    (bytes : ByteArray) :
    (∃ fault,
        AccessKind.write.verdict memory.pageMap.table.accessAt address bytes.size =
          .error fault ∧
        memory.write address bytes =
          (.error (.notWritable fault),
            { memory with
              pageMap := (memory.pageMap.checkRange .write address bytes.size).2 })) ∨
      (AccessKind.write.verdict memory.pageMap.table.accessAt address bytes.size = .ok () ∧
        ∃ after, memory.write address bytes = (.ok (), after) ∧
          after.Represents (stored.store address bytes)) := by
  obtain ⟨cache, hsound, hcheck⟩ := memory.pageMap.checkRange_eq .write address bytes.size
  have hchecked := hstored.checkRange .write address bytes.size
  have hallowed := @Layout.mapped_of_checkRange memory hstored.layout .write address bytes.size
  rw [ZonedMemory.write]
  rw [hcheck] at hchecked hallowed ⊢
  cases hverdict : AccessKind.write.verdict memory.pageMap.table.accessAt address bytes.size with
  | error fault => exact Or.inl ⟨fault, rfl, rfl⟩
  | ok allowed =>
      have hmapped : Mapped { memory with pageMap := ⟨memory.pageMap.table, cache, hsound⟩ }
          address (bytes.size - 0) := hallowed hverdict
      have hwritten := hchecked.writeFrom hmapped
      rw [ByteArray.extract_zero_size] at hwritten
      exact Or.inr ⟨rfl, hwritten⟩

/-- A write is refused and changes nothing, or succeeds and stores the bytes. -/
theorem Represents.write_cases (hstored : memory.Represents stored) (address : UInt32)
    (bytes : ByteArray) :
    (∃ fault after, memory.write address bytes = (.error (.notWritable fault), after) ∧
        after.Represents stored) ∨
      ∃ after, memory.write address bytes = (.ok (), after) ∧
        after.Represents (stored.store address bytes) := by
  rcases hstored.write_eq address bytes with ⟨fault, -, hrefused⟩ | ⟨-, hwritten⟩
  · exact Or.inl ⟨fault, _, hrefused, hstored.checkRange .write address bytes.size⟩
  · exact Or.inr hwritten

/-! ## Growing the heap -/

theorem Represents.setHeapEnd (hstored : memory.Represents stored) (heapEnd : UInt32) :
    Represents { memory with heapEnd := heapEnd } stored := by
  refine ⟨hstored.layout.setHeapEnd heapEnd, fun region => ?_, hstored.outside⟩
  rw [zone_setHeapEnd]
  exact hstored.holds region

theorem Represents.extendHeap (hstored : memory.Represents stored) {mappedEnd : Nat}
    (hextends : memory.Extends mappedEnd) :
    (memory.extendHeap mappedEnd).Represents stored := by
  -- Nothing was stored in the new part of the heap, which lay in no zone.
  have hnew : ∀ address, (memory.zone .heap).stop.toNat ≤ address.toNat ∧
      address.toNat < mappedEnd → stored address = none :=
    fun address hrange =>
      hstored.outside address (hextends.regionAt?_eq_none hstored.layout hrange)
  refine ⟨hextends.layout hstored.layout, fun region => ?_, fun address haddress => ?_⟩
  · have hholds := hstored.holds region
    cases region with
    | heap => exact hholds.extend hextends.above hextends.toNat_ofNat hnew
    | readOnly => exact hholds
    | stack => exact hholds
    | argument => exact hholds
  · rw [hextends.regionAt?_eq hstored.layout] at haddress
    split at haddress
    · cases haddress
    · exact hstored.outside address haddress

/-- Growing the heap stores nothing. -/
theorem Represents.grow (hstored : memory.Represents stored) (increment : UInt32) :
    (memory.grow increment).2.Represents stored := by
  rcases memory.grow_cases increment with
    ⟨heapEnd, hafter⟩ | ⟨heapEnd, mappedEnd, hextends, hafter⟩
  · rw [hafter]
    exact hstored.setHeapEnd heapEnd
  · rw [hafter]
    exact (hstored.extendHeap hextends).setHeapEnd heapEnd

/-! ## The record at the start -/

def loaded (standard : StandardProgram) (argument : ByteArray) : Stored :=
  [Region.readOnly, .heap, .stack, .argument].foldl
    (fun stored region =>
      stored.store (UInt32.ofNat (startOf standard region)) (dataOf standard argument region))
    .nothing

section Start

variable {standard : StandardProgram} {argument : ByteArray}

theorem size_dataOf_le (standard : StandardProgram) (argument : ByteArray) (region : Region) :
    (dataOf standard argument region).size ≤ roomOf standard argument region := by
  cases region with
  | readOnly => exact le_roundUpToPage _
  | heap => exact Nat.le_trans (le_roundUpToPage _) (Nat.le_add_right _ _)
  | stack => exact Nat.zero_le _
  | argument => exact le_roundUpToPage _

/-- The data of a region is stored at its addresses. -/
theorem Fits.store_dataOf (hfits : Fits standard argument) (stored : Stored) (region : Region)
    (target : UInt32) :
    stored.store (UInt32.ofNat (startOf standard region)) (dataOf standard argument region)
        target =
      if startOf standard region ≤ target.toNat ∧
          target.toNat < startOf standard region + (dataOf standard argument region).size then
        some (Bytes.byteAt (dataOf standard argument region)
          (target.toNat - startOf standard region))
      else stored target := by
  have hend := hfits.end_lt region
  have hsize := size_dataOf_le standard argument region
  have hexact : (UInt32.ofNat (startOf standard region)).toNat = startOf standard region :=
    UInt32.toNat_ofNat_of_lt' (Nat.lt_of_add_right_lt hend)
  rw [Stored.store_apply _ (by omega), hexact]

variable {map : PageMap} {target : UInt32}

theorem Fits.store_outside (hfits : Fits standard argument) (map : PageMap)
    (stored : Stored) {region : Region}
    (houtside : ¬ ((layOut standard argument map).zone region).contains target = true) :
    stored.store (UInt32.ofNat (startOf standard region)) (dataOf standard argument region)
      target = stored target := by
  have hsize := size_dataOf_le standard argument region
  rw [hfits.contains_iff] at houtside
  rw [hfits.store_dataOf, if_neg (by omega)]

/-- Where a region lies, its data is all that is stored. -/
theorem Fits.loaded_of_contains (hfits : Fits standard argument)
    (hmap : ∀ address, map.table.accessAt address = none) {region : Region}
    (htarget : ((layOut standard argument map).zone region).contains target = true) :
    loaded standard argument target =
      if target.toNat - startOf standard region < (dataOf standard argument region).size then
        some (Bytes.byteAt (dataOf standard argument region)
          (target.toNat - startOf standard region))
      else none := by
  have hother : ∀ (stored : Stored) (other : Region), region ≠ other →
      stored.store (UInt32.ofNat (startOf standard other)) (dataOf standard argument other)
        target = stored target := fun stored other hregions =>
    hfits.store_outside map stored fun hcontains =>
      hregions ((hfits.layout hmap).eq_of_contains htarget hcontains)
  have hself : ∀ stored : Stored, stored target = none →
      stored.store (UInt32.ofNat (startOf standard region)) (dataOf standard argument region)
          target =
        if target.toNat - startOf standard region < (dataOf standard argument region).size then
          some (Bytes.byteAt (dataOf standard argument region)
            (target.toNat - startOf standard region))
        else none := by
    intro stored hnone
    have hbounds := (hfits.contains_iff map region target).mp htarget
    rw [hfits.store_dataOf, hnone]
    refine ite_congr (propext ?_) (fun _ => rfl) (fun _ => rfl)
    omega
  simp only [loaded, List.foldl_cons, List.foldl_nil]
  cases region with
  | readOnly =>
      rw [hother _ .argument nofun, hother _ .stack nofun, hother _ .heap nofun]
      exact hself _ rfl
  | heap =>
      rw [hother _ .argument nofun, hother _ .stack nofun]
      exact hself _ (hother _ .readOnly nofun)
  | stack =>
      rw [hother _ .argument nofun]
      refine hself _ ?_
      rw [hother _ .heap nofun, hother _ .readOnly nofun]
      rfl
  | argument =>
      refine hself _ ?_
      rw [hother _ .stack nofun, hother _ .heap nofun, hother _ .readOnly nofun]
      rfl

theorem Fits.loaded_of_none (hfits : Fits standard argument)
    (hmap : ∀ address, map.table.accessAt address = none)
    (htarget : (layOut standard argument map).regionAt? target = none) :
    loaded standard argument target = none := by
  have houtside : ∀ (stored : Stored) (region : Region),
      stored.store (UInt32.ofNat (startOf standard region)) (dataOf standard argument region)
        target = stored target := by
    intro stored region
    refine hfits.store_outside map stored fun hcontains => ?_
    rw [(hfits.layout hmap).regionAt?_eq_some_iff.mpr hcontains] at htarget
    cases htarget
  simp only [loaded, List.foldl_cons, List.foldl_nil, houtside]
  rfl

/-- A memory that is laid out over an empty page map holds what is loaded. -/
theorem Fits.represents (hfits : Fits standard argument)
    (hmap : ∀ address, map.table.accessAt address = none) :
    (layOut standard argument map).Represents (loaded standard argument) := by
  refine ⟨hfits.layout hmap, fun region => ?_, fun address => hfits.loaded_of_none hmap⟩
  have hdata : ((layOut standard argument map).zone region).data =
      dataOf standard argument region := by rw [zone_layOut, Zone.ofSize]
  refine Zone.holds_of_eq ?_ fun address haddress => ?_
  · rw [hdata, hfits.start_zone, hfits.stop_zone, Nat.add_sub_cancel_left]
    exact size_dataOf_le standard argument region
  · rw [hfits.loaded_of_contains hmap haddress, hdata,
      Zone.offset_eq (Zone.contains_iff.mp haddress).1, hfits.start_zone]

end Start

/-! ## Operations one after the other -/

/-- The memories that operations on `memory` lead to, with the record of what
was stored when `stored` is the record at the start.  Only writes that succeed
store. -/
inductive Reached (memory : ZonedMemory) (stored : Stored) : ZonedMemory → Stored → Prop where
  | start : Reached memory stored memory stored
  | check {after record} (hreached : Reached memory stored after record) (kind : AccessKind)
      (address : UInt32) (length : UInt64) :
      Reached memory stored (Memory.check after kind address length).2 record
  | read {after record} (hreached : Reached memory stored after record) (address : UInt32)
      (buffer : ByteArray) :
      Reached memory stored (after.readInto address buffer).memory record
  | write {after record} (hreached : Reached memory stored after record) (address : UInt32)
      (bytes : ByteArray) (hwritten : (after.write address bytes).1 = .ok ()) :
      Reached memory stored (after.write address bytes).2 (record.store address bytes)
  | refused {after record} (hreached : Reached memory stored after record) (address : UInt32)
      (bytes : ByteArray) {error : MemoryError}
      (hrefused : (after.write address bytes).1 = .error error) :
      Reached memory stored (after.write address bytes).2 record
  | grow {after record} (hreached : Reached memory stored after record) (increment : UInt32) :
      Reached memory stored (after.grow increment).2 record

theorem Reached.trans {after later : ZonedMemory} {record newest : Stored}
    (hfirst : Reached memory stored after record) (hsecond : Reached after record later newest) :
    Reached memory stored later newest := by
  induction hsecond with
  | start => exact hfirst
  | check _ kind address length ih => exact ih.check kind address length
  | read _ address buffer ih => exact ih.read address buffer
  | write _ address bytes hwritten ih => exact ih.write address bytes hwritten
  | refused _ address bytes hrefused ih => exact ih.refused address bytes hrefused
  | grow _ increment ih => exact ih.grow increment

/-- Every operation keeps the memory in step with the record. -/
theorem Reached.represents (hstored : memory.Represents stored) {after : ZonedMemory}
    {record : Stored} (hreached : Reached memory stored after record) :
    after.Represents record := by
  induction hreached with
  | start => exact hstored
  | check _ kind address length ih => exact ih.checkRange kind address length.toNat
  | read _ address buffer ih =>
      rw [memory_readInto]
      exact ih.checkRange .read address buffer.size
  | write _ address bytes hwritten ih =>
      rcases ih.write_cases address bytes with ⟨fault, after, hwrite, -⟩ | ⟨after, hwrite, hafter⟩
      · rw [hwrite] at hwritten
        cases hwritten
      · rwa [hwrite]
  | refused _ address bytes hrefused ih =>
      rcases ih.write_cases address bytes with ⟨fault, after, hwrite, hafter⟩ | ⟨after, hwrite, -⟩
      · rwa [hwrite]
      · rw [hwrite] at hrefused
        cases hrefused
  | grow _ increment ih => exact ih.grow increment

end ZonedMemory

end GasMachine
