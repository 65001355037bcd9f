import Mathlib
import GasMachine.Proofs.Machine.ReservedZone
import GasMachine.Proofs.Nested.GuestMemories
import GasMachine.Proofs.Nested.Isolation

/-!
# Nested machines stay out of the reserved zone

The pages of a machine are mapped by its host, which is refused the lowest ones,
and by its program, whose heap grows in gaps above them.  So the lowest pages of
a nested machine are never mapped, and an access that reaches one of their bytes
fails, also if it starts at the top of the address space and wraps around.
-/

namespace GasMachine

open AddressSpace

/-- One of the `length` bytes from `address` on lies in the reserved zone. -/
def ReachesReserved (address : UInt32) (length : Nat) : Prop :=
  ∃ offset < length, Machine.isReserved (address + UInt32.ofNat offset) = true

namespace SparseMemory

/-- No page of the reserved zone is mapped. -/
def ReservedUnmapped (memory : SparseMemory) : Prop :=
  ∀ page < firstUserPage, memory.pageMap.access page = none

variable {memory : SparseMemory}

theorem ReservedUnmapped.accessAt (hunmapped : memory.ReservedUnmapped) {address : UInt32}
    (haddress : Machine.isReserved address = true) :
    memory.pageMap.table.accessAt address = none := by
  rw [← PageMap.access_pageOf]
  apply hunmapped
  rw [← Bool.not_eq_false, Machine.isReserved_eq_false_iff] at haddress
  unfold pageOf firstUserPage zoneSize pageSize at *
  omega

/-- A range that reaches the reserved zone may not be used in any way. -/
theorem ReservedUnmapped.exists_fault (hunmapped : memory.ReservedUnmapped) (kind : AccessKind)
    {address : UInt32} {length : Nat} (hreaches : ReachesReserved address length) :
    ∃ fault, kind.verdict memory.pageMap.table.accessAt address length = .error fault := by
  cases hverdict : kind.verdict memory.pageMap.table.accessAt address length with
  | error fault => exact ⟨fault, rfl⟩
  | ok allowed =>
      obtain ⟨offset, hoffset, hreserved⟩ := hreaches
      have hallowed := (AccessKind.verdict_eq_ok_iff.mp hverdict).2 offset hoffset
      rw [hunmapped.accessAt hreserved] at hallowed
      cases kind <;> cases hallowed

/-- Neither the host nor the program of a machine can map a page of the reserved zone. -/
theorem reservedUnmapped_invariant : Registry.MemoryInvariant ReservedUnmapped where
  empty capacity page hpage := if_pos (hpage.trans (by decide))
  remember := by
    intro memory after hsame hunmapped page hpage
    rw [PageMap.access, ← hsame.table]
    exact hunmapped page hpage
  write := by
    intro memory hunmapped address bytes page hpage
    rw [PageMap.access, table_write]
    exact hunmapped page hpage
  grow := by
    intro memory hunmapped increment page hpage
    rcases memory.grow_cases increment with hsame | ⟨first, count, habove, hisGap, hafter⟩
    · rw [hsame]
      exact hunmapped page hpage
    · rw [hafter]
      rcases access_grantPages habove hisGap page with hkept | ⟨-, -, hfresh, -⟩
      · exact hkept.trans (hunmapped page hpage)
      · exact absurd hpage (Nat.not_lt.mpr hfresh)
  setPages := by
    intro memory first count mode hunmapped hadmits page hpage
    obtain ⟨habove, hfits, -⟩ := Registry.admitsPages_iff.mp hadmits
    have houtside : ¬ PageSpan.Covers ⟨first.toNat, count.toNat⟩ page := by
      rw [PageSpan.covers_iff_of_le hfits]
      omega
    rw [setPages, PageMap.access_assign, if_neg houtside]
    exact hunmapped page hpage

theorem ReservedUnmapped.exists_write_error (hunmapped : memory.ReservedUnmapped)
    {address : UInt32} {bytes : ByteArray} (hreaches : ReachesReserved address bytes.size) :
    ∃ error, (memory.write address bytes).1 = .error error := by
  obtain ⟨fault, hfault⟩ := hunmapped.exists_fault .write hreaches
  obtain ⟨cache, hsound, hcheck⟩ := memory.pageMap.checkRange_eq .write address bytes.size
  rw [write, hcheck, hfault]
  exact ⟨_, rfl⟩

theorem ReservedUnmapped.exists_readInto_error (hunmapped : memory.ReservedUnmapped)
    {address : UInt32} {buffer : ByteArray} (hreaches : ReachesReserved address buffer.size) :
    ∃ error, (memory.readInto address buffer).result = .error (.refused error) := by
  obtain ⟨fault, hfault⟩ := hunmapped.exists_fault .read hreaches
  obtain ⟨cache, hsound, hcheck⟩ := memory.pageMap.checkRange_eq .read address buffer.size
  rw [readInto, hcheck, hfault]
  exact ⟨_, rfl⟩

end SparseMemory

/-! ## Accesses -/

namespace Machine

variable {guest : Machine SparseMemory} (hunmapped : guest.memory.ReservedUnmapped)
include hunmapped

theorem exists_load_error {address : UInt32} {width : Nat}
    (hreaches : ReachesReserved address width) :
    ∃ error, (guest.load address width).1 = .error (.refused error) := by
  rw [load]
  split
  · exact ⟨_, rfl⟩
  · rw [← Bytes.size_zeros width] at hreaches
    obtain ⟨error, herror⟩ := hunmapped.exists_readInto_error hreaches
    have hresult : (Memory.readInto guest.memory address (Bytes.zeros width)).result =
        .error (.refused error) := herror
    dsimp only
    rw [hresult]
    exact ⟨error, rfl⟩

theorem exists_store_error {address : UInt32} {bytes : ByteArray}
    (hreaches : ReachesReserved address bytes.size) :
    ∃ error, (guest.store address bytes).1 = .error error := by
  rw [store]
  split
  · exact ⟨_, rfl⟩
  · exact hunmapped.exists_write_error hreaches

/-- An instruction that loads or stores a byte of the reserved zone stops the machine. -/
theorem exists_exit_of_reachesReserved {program : Program} {instruction : Instruction}
    (hinstruction : program.instructionAt guest.pc = .ok instruction)
    {kind : AccessKind} {address : UInt32} {width : Nat}
    (hrange : (guest.request program instruction).range? = some (kind, address, width))
    (hreaches : ReachesReserved address width) :
    ∃ reason, (guest.step program).1 = .stopped (.exit reason) := by
  cases hgas : guest.gas.exhausted with
  | true => exact ⟨.outOfGas, congrArg Prod.fst (step_of_exhausted program hgas)⟩
  | false =>
      rw [step_of_instruction hgas hinstruction]
      have hwidth := (width_mem hrange).2
      have hcharged : (guest.charge 1).memory.ReservedUnmapped := hunmapped
      suffices ∃ reason, ((guest.charge 1).serve (guest.request program instruction)).1 =
          .exit reason by
        obtain ⟨reason, hserved⟩ := this
        generalize (guest.charge 1).serve (guest.request program instruction) = served at hserved
        obtain ⟨effect, after⟩ := served
        obtain rfl : effect = .exit reason := hserved
        exact ⟨reason, rfl⟩
      cases hrequest : guest.request program instruction with
      | finish effect registers =>
          rw [hrequest] at hrange
          cases hrange
      | load target address width signed =>
          rw [hrequest] at hrange
          cases hrange
          obtain ⟨error, herror⟩ := exists_load_error hcharged hreaches
          exact ⟨_, loadWord_of_refused herror target signed⟩
      | store address value width =>
          rw [hrequest] at hrange
          cases hrange
          have hsize : (LittleEndian.encode value width).toByteArray.size = width := by
            rw [LittleEndian.size_encode, min_eq_left hwidth]
          rw [← hsize] at hreaches
          obtain ⟨error, herror⟩ := exists_store_error hcharged hreaches
          exact ⟨_, storeWord_of_error herror⟩
      | grow target increment =>
          rw [hrequest] at hrange
          cases hrange

end Machine

namespace Registry

variable {registry : Registry}

theorem exists_peek_error (hreachable : registry.Reachable) (id : UInt64) {address : UInt32}
    {length : UInt64} (hreaches : ReachesReserved address length.toNat) :
    ∃ error, (registry.peek id address length).1 = .error error := by
  rw [peek]
  cases hget : registry.get? id with
  | none => exact ⟨_, rfl⟩
  | some machine =>
      have hunmapped := SparseMemory.reservedUnmapped_invariant.memory hreachable hget
      obtain ⟨fault, hfault⟩ := hunmapped.exists_fault .read hreaches
      obtain ⟨cache, hsound, hcheck⟩ :=
        machine.memory.pageMap.checkRange_eq .read address length.toNat
      rw [hfault] at hcheck
      have hchecked : (Memory.check machine.memory .read address length).1 = .error fault :=
        congrArg Prod.fst hcheck
      dsimp only
      rw [hchecked]
      exact ⟨_, rfl⟩

theorem exists_poke_error (hreachable : registry.Reachable) (id : UInt64) {address : UInt32}
    {bytes : ByteArray} (hreaches : ReachesReserved address bytes.size) :
    ∃ error, (registry.poke id address bytes).1 = .error error := by
  rw [poke]
  cases hget : registry.get? id with
  | none => exact ⟨_, rfl⟩
  | some machine =>
      have hunmapped := SparseMemory.reservedUnmapped_invariant.memory hreachable hget
      obtain ⟨error, herror⟩ := hunmapped.exists_write_error hreaches
      dsimp only
      rw [herror]
      exact ⟨_, rfl⟩

/-- Nested machines stay out of the reserved zone.  In every registry that operations lead to, no
page of that zone is mapped in any machine, between its runs or at any step of them.  Whatever is
peeked or poked, and whatever an instruction loads or stores, fails if one of its bytes lies in the
zone, the bytes being counted around the top of the address space. -/
theorem nested_machines_avoid_reserved_zone (hreachable : registry.Reachable) :
    (∀ id machine, registry.get? id = some machine → machine.memory.ReservedUnmapped) ∧
    (∀ id address length, ReachesReserved address length.toNat →
      ∃ error, (registry.peek id address length).1 = .error error) ∧
    (∀ id address bytes, ReachesReserved address bytes.size →
      ∃ error, (registry.poke id address bytes).1 = .error error) ∧
    ∀ id machine guest, registry.get? id = some machine → machine.Visits guest →
      guest.memory.ReservedUnmapped ∧
      (∀ address width, ReachesReserved address width →
        ∃ error, (guest.load address width).1 = .error (.refused error)) ∧
      (∀ address bytes, ReachesReserved address bytes.size →
        ∃ error, (guest.store address bytes).1 = .error error) ∧
      ∀ instruction kind address width,
        machine.program.instructionAt guest.pc = .ok instruction →
        (guest.request machine.program instruction).range? = some (kind, address, width) →
        ReachesReserved address width →
          ∃ reason, (guest.step machine.program).1 = .stopped (.exit reason) := by
  refine ⟨?_, ?_, ?_, ?_⟩
  · intro id machine hget
    exact SparseMemory.reservedUnmapped_invariant.memory hreachable hget
  · intro id address length hreaches
    exact exists_peek_error hreachable id hreaches
  · intro id address bytes hreaches
    exact exists_poke_error hreachable id hreaches
  · intro id machine guest hget hvisits
    have hunmapped := SparseMemory.reservedUnmapped_invariant.visits hreachable hget hvisits
    refine ⟨hunmapped, ?_, ?_, ?_⟩
    · intro address width hreaches
      exact Machine.exists_load_error hunmapped hreaches
    · intro address bytes hreaches
      exact Machine.exists_store_error hunmapped hreaches
    · intro instruction kind address width hinstruction hrange hreaches
      exact Machine.exists_exit_of_reachesReserved hunmapped hinstruction hrange hreaches

/-- A program that stores two bytes at the top of the address space. -/
def topStoreBlob : ByteArray := [0, 0, 5, 31, 1, 0xFF, 1, 2, 1].toByteArray

/-- The machine of that program, whose last page can be written. -/
def topStoreMachine : NestedMachine :=
  ⟨topStore, (SparseMemory.empty 8).setPages 0xFFFFF 1 .zeroReadWrite, 0⟩

def topMapped : Registry where
  slots := [some topStoreMachine]
  cacheCapacity := 8

theorem reachable_topMapped : topMapped.Reachable := by
  have hparse : Program.parse topStoreBlob = .ok topStore := by cbv
  have hcreated : (⟨[], 8⟩ : Registry).perform (.create topStoreBlob 0) =
      some (.ok (.created 0), ⟨[some ⟨topStore, .empty 8, 0⟩], 8⟩) := by
    rw [perform, create?_of_ok hparse]
    rfl
  have hmapped : (⟨[some ⟨topStore, .empty 8, 0⟩], 8⟩ : Registry).perform
      (.request 0 (.pages 0xFFFFF 1 2)) = some (.ok .done, topMapped) := rfl
  exact .perform (.perform (.start 8) hcreated) hmapped

/-- The last byte of the address space can be used, but not together with the first one. -/
theorem topMapped_avoids_reserved_zone :
    topMapped.Reachable ∧
      (topMapped.peek 0 0xFFFFFFFF 1).1 = .ok [0].toByteArray ∧
      (∃ error, (topMapped.peek 0 0xFFFFFFFF 2).1 = .error error) ∧
      (∃ error, (topMapped.poke 0 0xFFFFFFFF [1, 2].toByteArray).1 = .error error) ∧
      ∃ reason, (Machine.step topStore
        (⟨0, Registers.zero, ⟨5⟩, topStoreMachine.memory⟩ : Machine SparseMemory)).1 =
          .stopped (.exit reason) := by
  have hlast : (topMapped.peek 0 0xFFFFFFFF 1).1 = .ok [0].toByteArray := by cbv
  have hinstruction : topStore.instructionAt 0 = .ok ⟨.storeImmU16, .immImm 0xFFFFFFFF 0x0201⟩ := by
    cbv
  have hreaches : ReachesReserved 0xFFFFFFFF 2 := ⟨1, by decide, by decide⟩
  obtain ⟨-, hpeek, hpoke, hguest⟩ := nested_machines_avoid_reserved_zone reachable_topMapped
  obtain ⟨-, -, -, hstep⟩ := hguest 0 topStoreMachine _ rfl ⟨⟨5⟩, Registers.zero, .refl⟩
  exact ⟨reachable_topMapped, hlast, hpeek 0 _ 2 hreaches,
    hpoke 0 _ [1, 2].toByteArray hreaches, hstep _ .write 0xFFFFFFFF 2 hinstruction rfl hreaches⟩

end Registry

end GasMachine
