import Mathlib
import GasMachine.Proofs.Machine.MemoryIsolation
import GasMachine.Proofs.Memory.PageRanges
import GasMachine.Proofs.Nested.GuestMemories
import GasMachine.Proofs.Nested.Isolation

/-!
# Fresh pages of nested machines are zero

The heap of a program grows over pages that are mapped as they are, and some
changes of access leave the contents of pages alone.  No old data shows all the
same: what a page holds is dropped with its access, and only mapped pages are
written.  So there is nothing on a page without access that could be there when
it is mapped again.
-/

namespace GasMachine

open AddressSpace

namespace SparseMemory

/-- Every byte that a chunk holds lies in a mapped page. -/
def HoldsMappedOnly (memory : SparseMemory) : Prop :=
  ∀ chunk ∈ memory.chunks, ∀ address, chunk.start ≤ address → address < chunk.stop →
    memory.pageMap.access (address / pageSize) ≠ none

/-- The chunks are in order, and hold no byte of an address without access. -/
structure Tidy (memory : SparseMemory) : Prop where
  orderly : memory.Orderly
  mapped : ∀ address : UInt32, memory.pageMap.table.accessAt address = none →
    Chunk.held? memory.chunks address.toNat = none

variable {memory after : SparseMemory}

theorem Tidy.holdsMappedOnly (htidy : memory.Tidy) : memory.HoldsMappedOnly := by
  intro chunk hmem address hstart hstop hnone
  have hinside : address < size := hstop.trans_le (htidy.orderly.proper chunk hmem).inside
  have htoNat : (UInt32.ofNat address).toNat = address := UInt32.toNat_ofNat_of_lt' hinside
  have haccess : memory.pageMap.table.accessAt (UInt32.ofNat address) = none := by
    rw [← PageMap.access_pageOf, pageOf, htoNat]
    exact hnone
  have hheld : Chunk.held? memory.chunks address = some _ :=
    (Chunk.held?_eq_some_iff htidy.orderly.touch.ordered).mpr
      ⟨chunk, hmem, Chunk.byte?_of_mem hstart hstop⟩
  have hfree := htidy.mapped _ haccess
  rw [htoNat, hheld] at hfree
  cases hfree

/-- Nothing is held at the addresses that got access. -/
def FreshIn (before after : SparseMemory) : Prop :=
  ∀ address : UInt32, before.pageMap.table.accessAt address = none →
    after.pageMap.table.accessAt address ≠ none → Chunk.held? after.chunks address.toNat = none

theorem FreshIn.of_table_eq (htable : after.pageMap.table = memory.pageMap.table) :
    memory.FreshIn after := by
  intro address hbefore hafter
  rw [htable] at hafter
  exact absurd hbefore hafter

/-! ## Operations -/

theorem Tidy.write (htidy : memory.Tidy) (address : UInt32) (bytes : ByteArray) :
    (memory.write address bytes).2.Tidy := by
  refine ⟨htidy.orderly.perform (.offered (.write address bytes)), ?_⟩
  intro target hnone
  rcases memory.write_cases address bytes with hsame | ⟨hverdict, htable, hchunks⟩
  · rw [← hsame.table] at hnone
    rw [← hsame.chunks]
    exact htidy.mapped target hnone
  · obtain ⟨hsize, hallowed⟩ := AccessKind.verdict_eq_ok_iff.mp hverdict
    rw [htable] at hnone
    rw [hchunks, held?_store htidy.orderly.touch.ordered address hsize]
    split
    · next hinside =>
        have htarget := hallowed _ hinside
        rw [UInt32.ofNat_toNat, UInt32.add_comm, UInt32.sub_add_cancel, hnone] at htarget
        cases htarget
    · exact htidy.mapped target hnone

/-- Growing the heap takes access from no address. -/
theorem accessAt_of_grow {increment : UInt32} {address : UInt32}
    (hnone : (memory.grow increment).2.pageMap.table.accessAt address = none) :
    memory.pageMap.table.accessAt address = none := by
  rcases memory.grow_cases increment with hsame | ⟨first, count, habove, hisGap, hafter⟩
  · rwa [hsame] at hnone
  · rw [hafter] at hnone
    rw [← PageMap.access_pageOf] at hnone ⊢
    rcases access_grantPages habove hisGap (pageOf address) with hkept | ⟨hbefore, -⟩
    · rw [← hkept]
      exact hnone
    · exact hbefore

theorem Tidy.grow (htidy : memory.Tidy) (increment : UInt32) :
    (memory.grow increment).2.Tidy ∧ memory.FreshIn (memory.grow increment).2 := by
  refine ⟨⟨htidy.orderly.perform (.offered (.grow increment)), ?_⟩, ?_⟩
  · intro address hnone
    rw [chunks_grow]
    exact htidy.mapped address (accessAt_of_grow hnone)
  · intro address hnone _
    rw [chunks_grow]
    exact htidy.mapped address hnone

theorem Tidy.setPages (htidy : memory.Tidy) {first count : UInt32}
    (hfits : first.toNat + count.toNat ≤ pageCount) (mode : PageMode) :
    (memory.setPages first.toNat count.toNat mode).Tidy ∧
      memory.FreshIn (memory.setPages first.toNat count.toNat mode) := by
  have hheld := held?_setPages htidy.orderly.touch.ordered first.toNat count.toNat mode
  refine ⟨⟨htidy.orderly.perform (.setPages first count mode), ?_⟩, ?_⟩
  · intro address hnone
    have haccess : (memory.setPages first.toNat count.toNat mode).pageMap.table.accessAt address =
        if FlatMemory.inPages first.toNat count.toNat address then mode.access
        else memory.pageMap.table.accessAt address :=
      PageTable.accessAt_assign _ hfits mode.access address
    rw [hheld]
    split
    · rfl
    · next hkept =>
        apply htidy.mapped
        rw [haccess] at hnone
        split at hnone
        · next hinside =>
            -- Only the mode that drops the contents takes access.
            have hvoid : mode.keepsContents = false := by
              cases mode with
              | void => rfl
              | _ => cases hnone
            exact absurd ⟨hvoid, hinside⟩ hkept
        · exact hnone
  · intro address hnone _
    rw [hheld, htidy.mapped address hnone, ite_self]

/-- What a registry does to the memories of its machines keeps them tidy. -/
theorem tidy_invariant : Registry.MemoryInvariant Tidy where
  empty capacity := ⟨orderly_of_no_chunks _, fun _ _ => rfl⟩
  remember := by
    intro memory after hsame htidy
    obtain ⟨⟨htouch, hproper⟩, hmapped⟩ := htidy
    rw [hsame.table, hsame.chunks] at hmapped
    rw [hsame.chunks] at htouch hproper
    exact ⟨⟨htouch, hproper⟩, hmapped⟩
  write := by
    intro memory htidy address bytes
    exact htidy.write address bytes
  grow := by
    intro memory htidy increment
    exact (htidy.grow increment).1
  setPages := by
    intro memory page count mode htidy hadmits
    exact (htidy.setPages (Registry.admitsPages_iff.mp hadmits).2.1 mode).1

/-! ## Reading a page -/

/-- A mapped page on which nothing is held can be read, and all its bytes are zero. -/
theorem Tidy.reads_zero (htidy : memory.Tidy) {page : Nat}
    (hmapped : memory.pageMap.access page ≠ none)
    (hfree : ∀ address : UInt32, pageOf address = page →
      Chunk.held? memory.chunks address.toNat = none) :
    AccessKind.read.verdict memory.pageMap.table.accessAt (UInt32.ofNat (page * pageSize))
        pageSize = .ok () ∧
      memory.contents (UInt32.ofNat (page * pageSize)) pageSize = Bytes.zeros pageSize := by
  have hpage : page < pageCount := by
    by_contra hpage
    exact hmapped (PageMap.access_of_le _ (Nat.not_lt.mp hpage))
  have hpageOf : ∀ offset < pageSize,
      pageOf (UInt32.ofNat (page * pageSize) + UInt32.ofNat offset) = page := by
    intro offset hoffset
    rw [pageOf_add_ofNat, UInt32.toNat_ofNat']
    unfold pageSize pageCount at *
    omega
  constructor
  · apply AccessKind.verdict_eq_ok_iff.mpr
    refine ⟨by decide, fun offset hoffset => ?_⟩
    rw [← PageMap.access_pageOf, hpageOf offset hoffset]
    cases haccess : memory.pageMap.access page with
    | none => exact absurd haccess hmapped
    | some access => rfl
  · have hrepresents := represents_flatten htidy.orderly.touch.ordered
    rw [contents_eq hrepresents _ (by decide)]
    apply Bytes.ext_byteAt
    · rw [Image.size_contents, Bytes.size_zeros]
    · intro offset hoffset
      rw [Image.size_contents] at hoffset
      rw [Image.byteAt_contents _ _ hoffset, hrepresents.image, hfree _ (hpageOf offset hoffset),
        Bytes.byteAt_zeros]
      rfl

theorem Tidy.read_eq_zeros (htidy : memory.Tidy) {page : Nat}
    (hmapped : memory.pageMap.access page ≠ none)
    (hfree : ∀ address : UInt32, pageOf address = page →
      Chunk.held? memory.chunks address.toNat = none) :
    (Memory.read memory (UInt32.ofNat (page * pageSize)) (UInt64.ofNat pageSize)).1 =
      .ok (Bytes.zeros pageSize) := by
  have hrepresents := represents_flatten htidy.orderly.touch.ordered
  obtain ⟨hverdict, hcontents⟩ := htidy.reads_zero hmapped hfree
  rw [contents_eq hrepresents _ (by decide)] at hcontents
  have hlength : (UInt64.ofNat pageSize).toNat = pageSize := rfl
  rw [(hrepresents.read _ _).1, FlatMemory.read, hlength, hrepresents.access, hverdict, hcontents]

/-- A page that got access has nothing on it. -/
theorem FreshIn.held?_eq_none (hfresh : memory.FreshIn after) {page : Nat}
    (hbefore : memory.pageMap.access page = none) (hafter : after.pageMap.access page ≠ none)
    {address : UInt32} (haddress : pageOf address = page) :
    Chunk.held? after.chunks address.toNat = none := by
  subst haddress
  rw [PageMap.access_pageOf] at hbefore hafter
  exact hfresh address hbefore hafter

end SparseMemory

/-! ## Steps and requests -/

/-- Nothing is held at the addresses to which a step gives access. -/
theorem Machine.freshIn_step {guest : Machine SparseMemory} (htidy : guest.memory.Tidy)
    (program : Program) : guest.memory.FreshIn (guest.step program).2.memory := by
  rcases guest.memory_step_cases program with hsame | ⟨address, buffer, hread⟩ |
    ⟨address, bytes, hwrite⟩ | ⟨-, increment, hgrow⟩
  · rw [hsame]
    exact .of_table_eq rfl
  · rw [hread]
    exact .of_table_eq (guest.memory.sameButCache_readInto address buffer).table.symm
  · rw [hwrite]
    exact .of_table_eq (guest.memory.table_write address bytes)
  · rw [hgrow]
    exact (htidy.grow increment).2

def NestedRequest.Runs : NestedRequest → Prop
  | .invoke _ _ => True
  | _ => False

/-- Nothing is held at the addresses to which a request gives access at once. -/
theorem NestedRequest.freshIn_serve {request : NestedRequest} {machine after : NestedMachine}
    (htidy : machine.memory.Tidy) (hruns : ¬ request.Runs)
    (hserve : (request.serve machine).2 = some after) : machine.memory.FreshIn after.memory := by
  cases request with
  | peek address length =>
      obtain rfl := Option.some.inj hserve
      have hsame := machine.memory.sameButCache_checkRange .read address length.toNat
      exact .of_table_eq hsame.table.symm
  | poke address bytes =>
      obtain rfl := Option.some.inj hserve
      exact .of_table_eq (machine.memory.table_write address bytes)
  | pages page count mode =>
      rw [serve] at hserve
      split at hserve
      · obtain rfl := Option.some.inj hserve
        exact .of_table_eq rfl
      · split at hserve
        · next hadmits =>
            obtain rfl := Option.some.inj hserve
            exact (htidy.setPages (Registry.admitsPages_iff.mp hadmits).2.1 _).2
        · obtain rfl := Option.some.inj hserve
          exact .of_table_eq rfl
  | invoke gas registers => exact absurd trivial hruns
  | expunge => cases hserve

namespace Registry

def Operation.Runs : Operation → Prop
  | .create _ _ => False
  | .request _ asked => asked.Runs

def accessOf (registry : Registry) (id : UInt64) (page : Nat) : Option PageAccess :=
  (registry.get? id).bind fun machine => machine.memory.pageMap.access page

variable {registry after : Registry} {id : UInt64}

theorem accessOf_of_get? {machine : NestedMachine} (hget : registry.get? id = some machine)
    (page : Nat) : registry.accessOf id page = machine.memory.pageMap.access page := by
  rw [accessOf, hget, Option.bind_some]

/-- An operation gives access to a page of a machine only if the machine is there, and then
nothing is held at the addresses that got access. -/
theorem exists_freshIn_of_perform (hreachable : registry.Reachable) {operation : Operation}
    {answer : Except NestedError NestedAnswer}
    (hperform : registry.perform operation = some (answer, after)) (hruns : ¬ operation.Runs)
    {page : Nat} (hbefore : registry.accessOf id page = none)
    (hafter : after.accessOf id page ≠ none) :
    ∃ machine later, registry.get? id = some machine ∧ after.get? id = some later ∧
      machine.memory.FreshIn later.memory := by
  rcases perform_cases hperform with ⟨-, rfl⟩ | ⟨_, program, pc, -, -, -, rfl⟩ |
    ⟨named, request, machine, rfl, hget, -, rfl⟩
  · exact absurd hbefore hafter
  · -- The machine that is created has no page with access, and the others stay as they were.
    rw [accessOf, get?_insert] at hafter
    split at hafter
    · have hnone : (PageMap.empty registry.cacheCapacity).access page = none := by
        rw [PageMap.access]
        split <;> rfl
      exact absurd hnone hafter
    · exact absurd hbefore hafter
  · by_cases hid : id = named
    · subst hid
      have hlater := get?_replace_self hget (request.serve machine).2
      rw [accessOf, hlater] at hafter
      cases hserve : (request.serve machine).2 with
      | none =>
          rw [hserve] at hafter
          exact absurd rfl hafter
      | some later =>
          have htidy := SparseMemory.tidy_invariant.memory hreachable hget
          refine ⟨machine, later, hget, ?_, NestedRequest.freshIn_serve htidy hruns hserve⟩
          rw [← hserve]
          exact hlater
    · rw [accessOf, registry.get?_replace_of_ne hid] at hafter
      exact absurd hbefore hafter

/-- A peek at bytes that may be read shows what the memory holds there. -/
theorem peek_of_verdict {machine : NestedMachine} (hget : registry.get? id = some machine)
    {address : UInt32} {length : UInt64} {count : Nat} (hlength : length.toNat = count)
    (hverdict : AccessKind.read.verdict machine.memory.pageMap.table.accessAt address count =
      .ok ()) :
    (registry.peek id address length).1 = .ok (machine.memory.contents address count) := by
  subst hlength
  obtain ⟨cache, hsound, hcheck⟩ :=
    machine.memory.pageMap.checkRange_eq .read address length.toNat
  rw [hverdict] at hcheck
  have hchecked : (Memory.check machine.memory .read address length).1 = .ok () :=
    congrArg Prod.fst hcheck
  rw [peek, hget]
  dsimp only
  rw [hchecked]
  rfl

/-- Fresh pages of nested machines are zero.  In every registry that operations lead to, each byte
that the memory of a machine holds lies in a page with access, between its runs and at any step of
them.  When an operation gives a machine access to a page that had none, and when a step of a run
does, all bytes of the page read as zero right after it, whatever was there before. -/
theorem fresh_pages_read_zero (hreachable : registry.Reachable) :
    (∀ id machine, registry.get? id = some machine → machine.memory.HoldsMappedOnly) ∧
    (∀ operation answer after id page, registry.perform operation = some (answer, after) →
      ¬ operation.Runs → registry.accessOf id page = none → after.accessOf id page ≠ none →
        (after.peek id (UInt32.ofNat (page * pageSize)) (UInt64.ofNat pageSize)).1 =
          .ok (Bytes.zeros pageSize)) ∧
    ∀ id machine guest, registry.get? id = some machine → machine.Visits guest →
      guest.memory.HoldsMappedOnly ∧
      ∀ page, guest.memory.pageMap.access page = none →
        (guest.step machine.program).2.memory.pageMap.access page ≠ none →
          (Memory.read (guest.step machine.program).2.memory (UInt32.ofNat (page * pageSize))
            (UInt64.ofNat pageSize)).1 = .ok (Bytes.zeros pageSize) := by
  refine ⟨?_, ?_, ?_⟩
  · intro id machine hget
    exact (SparseMemory.tidy_invariant.memory hreachable hget).holdsMappedOnly
  · intro operation answer after id page hperform hruns hbefore hafter
    obtain ⟨machine, later, hget, hlater, hfresh⟩ :=
      exists_freshIn_of_perform hreachable hperform hruns hbefore hafter
    rw [accessOf_of_get? hget] at hbefore
    rw [accessOf_of_get? hlater] at hafter
    have htidy := SparseMemory.tidy_invariant.memory (hreachable.perform hperform) hlater
    obtain ⟨hverdict, hcontents⟩ :=
      htidy.reads_zero hafter fun _ => hfresh.held?_eq_none hbefore hafter
    have hlength : (UInt64.ofNat pageSize).toNat = pageSize := rfl
    rw [peek_of_verdict hlater hlength hverdict, hcontents]
  · intro id machine guest hget hvisits
    have htidy := SparseMemory.tidy_invariant.visits hreachable hget hvisits
    refine ⟨htidy.holdsMappedOnly, fun page hbefore hafter => ?_⟩
    have hfresh := Machine.freshIn_step htidy machine.program
    exact (SparseMemory.tidy_invariant.step htidy machine.program).read_eq_zeros hafter
      fun _ => hfresh.held?_eq_none hbefore hafter

/-- A program that has its heap grown. -/
def growBlob : ByteArray := [0, 0, 2, 101, 0x87, 1].toByteArray

def growProgram : Program :=
  .ofImage ⟨.empty, 0, 0, [101, 0x87].toByteArray, [1].toByteArray⟩

/-- A memory whose first page was mapped and written. -/
def writtenMemory : SparseMemory :=
  (((SparseMemory.empty 8).setPages 16 1 .zeroReadWrite).write 0x10000 [1, 2, 3].toByteArray).2

/-- The machine of that program, with this page unmapped again. -/
def recycledMachine : NestedMachine :=
  ⟨growProgram, writtenMemory.setPages 16 1 .void, 0⟩

def recycledGuest : Machine SparseMemory :=
  ⟨0, Registers.zero.set Reg.dataSize 1, ⟨5⟩, recycledMachine.memory⟩

def recycled : Registry where
  slots := [some recycledMachine]
  cacheCapacity := 8

theorem reachable_recycled : recycled.Reachable := by
  have hparse : Program.parse growBlob = .ok growProgram := by cbv
  have hcreated : (⟨[], 8⟩ : Registry).perform (.create growBlob 0) =
      some (.ok (.created 0), ⟨[some ⟨growProgram, .empty 8, 0⟩], 8⟩) := by
    rw [perform, create?_of_ok hparse]
    rfl
  have hmapped : (⟨[some ⟨growProgram, .empty 8, 0⟩], 8⟩ : Registry).perform
      (.request 0 (.pages 16 1 2)) =
        some (.ok .done,
          ⟨[some ⟨growProgram, (SparseMemory.empty 8).setPages 16 1 .zeroReadWrite, 0⟩], 8⟩) := rfl
  have hwritten : ∃ answer,
      (⟨[some ⟨growProgram, (SparseMemory.empty 8).setPages 16 1 .zeroReadWrite, 0⟩], 8⟩ :
        Registry).perform (.request 0 (.poke 0x10000 [1, 2, 3].toByteArray)) =
          some (answer, ⟨[some ⟨growProgram, writtenMemory, 0⟩], 8⟩) := ⟨_, rfl⟩
  have hunmapped : (⟨[some ⟨growProgram, writtenMemory, 0⟩], 8⟩ : Registry).perform
      (.request 0 (.pages 16 1 0)) = some (.ok .done, recycled) := rfl
  obtain ⟨answer, hwritten⟩ := hwritten
  exact .perform (.perform (.perform (.perform (.start 8) hcreated) hmapped) hwritten) hunmapped

/-- The page is mapped again, by the host or by the program, and the bytes that were written there
do not show. -/
theorem recycled_page_reads_zero :
    recycled.Reachable ∧ writtenMemory.image 0x10000 = 1 ∧
      ((recycled.pages 0 16 1 2).2.peek 0 0x10000 4096).1 = .ok (Bytes.zeros 4096) ∧
      (Memory.read (recycledGuest.step growProgram).2.memory 0x10000 4096).1 =
        .ok (Bytes.zeros 4096) := by
  have himage : writtenMemory.image 0x10000 = 1 := by cbv
  have hbefore : recycledMachine.memory.pageMap.access 16 = none := by cbv
  have hmapped : recycled.perform (.request 0 (.pages 16 1 2)) =
      some (.ok .done, (recycled.pages 0 16 1 2).2) := rfl
  have hafter : (recycled.pages 0 16 1 2).2.accessOf 0 16 ≠ none := by
    have hsome : (recycled.pages 0 16 1 2).2.accessOf 0 16 = some .readWrite := by cbv
    simp [hsome]
  have hgrown : (recycledGuest.step growProgram).2.memory.pageMap.access 16 ≠ none := by
    have hsome : (recycledGuest.step growProgram).2.memory.pageMap.access 16 =
        some .readWrite := by cbv
    simp [hsome]
  obtain ⟨-, hperform, hguest⟩ := fresh_pages_read_zero reachable_recycled
  obtain ⟨-, hstep⟩ := hguest 0 recycledMachine recycledGuest rfl ⟨_, _, .refl⟩
  exact ⟨reachable_recycled, himage,
    hperform _ _ _ 0 16 hmapped id hbefore hafter, hstep 16 hbefore hgrown⟩

end Registry

end GasMachine
