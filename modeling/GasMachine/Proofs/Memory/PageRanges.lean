import Mathlib
import GasMachine.Proofs.Memory.ChunkSeparation
import GasMachine.Proofs.Memory.PageHistories
import GasMachine.Proofs.Memory.SparseContents

/-!
# What a range of pages means to a sparse memory

The pages whose access is changed are named by the first one and their number.  The
page map counts them around the top of the address space.  What they hold is dropped
up to the top only, and the test whether they are mapped finds no page above the top.
So a range means the same to all three exactly if it ends at or below the top, and
above it old bytes show up on pages that should be zero.
-/

namespace GasMachine

open AddressSpace

/-- Each of the pages is looked up by its own number, which wraps at 32 bits only. -/
theorem PageMap.allMapped_iff (map : PageMap) {page : Nat} (hpage : page < size) (count : Nat) :
    map.allMapped page count = true ↔
      ∀ index < count, map.isPageReadable ((page + index) % size) = true := by
  induction count generalizing page with
  | zero => simp [allMapped]
  | succ count ih =>
      have hfirst : (page + 0) % size = page := Nat.mod_eq_of_lt hpage
      rw [allMapped, Bool.and_eq_true, ih (Nat.mod_lt _ (by decide)), Nat.forall_lt_succ_left,
        hfirst]
      refine and_congr_right fun _ => forall₂_congr fun index _ => ?_
      rw [Nat.mod_add_mod, Nat.add_assoc, Nat.add_comm 1 index]

namespace SparseMemory

variable {memory : SparseMemory}

/-! ## Whether the pages are mapped -/

theorem access_setPages (memory : SparseMemory) (first count : Nat) (mode : PageMode)
    (page : Nat) :
    (memory.setPages first count mode).pageMap.access page =
      if PageSpan.Covers ⟨first, count⟩ page then mode.access
      else memory.pageMap.access page :=
  memory.pageMap.access_assign first count mode.access page

/-- Pages that were just mapped count as mapped exactly if they lie below the top. -/
theorem pagesMapped_setPages_iff (memory : SparseMemory) (first count : UInt32)
    {mode : PageMode} (hmode : mode ≠ .void) :
    (memory.setPages first.toNat count.toNat mode).pagesMapped first.toNat count.toNat = true ↔
      count = 0 ∨ first.toNat + count.toNat ≤ pageCount := by
  have hfirst : first.toNat < size := first.toNat_lt
  have hempty : count = 0 ↔ count.toNat = 0 := by rw [← UInt32.toNat_inj, UInt32.toNat_zero]
  rw [pagesMapped, PageMap.allMapped_iff _ hfirst, hempty]
  constructor
  · intro hmapped
    by_contra! habove
    -- The first page of the range that lies above the top has no access.
    have hindex : pageCount - first.toNat < count.toNat := by omega
    have hreadable := hmapped _ hindex
    have hpage : pageCount ≤ (first.toNat + (pageCount - first.toNat)) % size := by
      unfold size pageCount at *
      omega
    rw [PageMap.isPageReadable, PageMap.access_of_le _ hpage] at hreadable
    cases hreadable
  · intro hfits index hindex
    have hbelow : first.toNat + index < pageCount := by omega
    have hcovers : PageSpan.Covers ⟨first.toNat, count.toNat⟩ (first.toNat + index) :=
      ⟨index, hindex, Nat.mod_eq_of_lt hbelow⟩
    rw [Nat.mod_eq_of_lt (hbelow.trans (by decide)), PageMap.isPageReadable, access_setPages,
      if_pos hcovers]
    cases mode with
    | void => exact absurd rfl hmode
    | _ => rfl

/-! ## What the pages hold -/

/-- Changing access drops what the pages hold, or leaves it as it is. -/
theorem held?_setPages (hordered : Chunk.Ordered memory.chunks) (first count : Nat)
    (mode : PageMode) (address : UInt32) :
    Chunk.held? (memory.setPages first count mode).chunks address.toNat =
      if mode.keepsContents = false ∧ FlatMemory.inPages first count address = true then none
      else Chunk.held? memory.chunks address.toNat := by
  rw [chunks_setPages]
  cases mode.keepsContents with
  | true => simp
  | false =>
      rw [if_neg Bool.false_ne_true,
        Chunk.held?_clear (Nat.mul_le_mul_right _ (Nat.le_add_right _ _)) hordered]
      simp [FlatMemory.inPages]

/-- Dropped bytes count as zero, and all others stay. -/
theorem image_setPages (hordered : Chunk.Ordered memory.chunks) (first count : Nat)
    {mode : PageMode} (hdrops : mode.keepsContents = false) (address : UInt32) :
    (memory.setPages first count mode).image address =
      if first ≤ pageOf address ∧ pageOf address < first + count then 0
      else memory.image address := by
  have hbefore := (represents_flatten hordered).image address
  have hafter := (represents_flatten (ordered_setPages hordered first count mode)).image address
  rw [image_flatten] at hbefore hafter
  rw [hafter, hbefore, held?_setPages hordered]
  simp only [hdrops, FlatMemory.inPages_iff, true_and]
  split <;> rfl

/-- A byte on a mapped page can be read. -/
theorem read_one (hordered : Chunk.Ordered memory.chunks) {address : UInt32}
    (hmapped : memory.pageMap.access (pageOf address) ≠ none) :
    (Memory.read memory address 1).1 = .ok [memory.image address].toByteArray := by
  have hverdict : AccessKind.read.verdict memory.flatten.access address (1 : UInt64).toNat =
      .ok () := by
    refine AccessKind.verdict_eq_ok_iff.mpr ⟨by decide, fun offset hoffset => ?_⟩
    obtain rfl : offset = 0 := Nat.lt_one_iff.mp hoffset
    rw [PageMap.access_pageOf] at hmapped
    obtain ⟨access, haccess⟩ := Option.ne_none_iff_exists'.mp hmapped
    change AccessKind.read.allowedBy (memory.pageMap.table.accessAt (address + 0)) = true
    rw [UInt32.add_zero, haccess]
    rfl
  have hcontents : memory.image.contents address 1 = [memory.image address].toByteArray :=
    congrArg (fun target => [memory.image target].toByteArray) (UInt32.add_zero address)
  rw [((represents_flatten hordered).read address 1).1, FlatMemory.read, hverdict]
  exact congrArg Except.ok hcontents

/-- Some chunk holds a byte of the page. -/
def KeepsBytes (memory : SparseMemory) (page : Nat) : Prop :=
  ∃ chunk ∈ memory.chunks, ∃ address : UInt32, pageOf address = page ∧
    chunk.start ≤ address.toNat ∧ address.toNat < chunk.stop

theorem keepsBytes_iff (hordered : Chunk.Ordered memory.chunks) {page : Nat} :
    memory.KeepsBytes page ↔
      ∃ address : UInt32, pageOf address = page ∧
        Chunk.held? memory.chunks address.toNat ≠ none := by
  constructor
  · rintro ⟨chunk, hmem, address, hpage, hstart, hstop⟩
    have hheld := (Chunk.held?_eq_some_iff hordered).mpr
      ⟨chunk, hmem, Chunk.byte?_of_mem hstart hstop⟩
    exact ⟨address, hpage, by simp [hheld]⟩
  · rintro ⟨address, hpage, hheld⟩
    obtain ⟨byte, hbyte⟩ := Option.ne_none_iff_exists'.mp hheld
    obtain ⟨chunk, hmem, hbyte⟩ := (Chunk.held?_eq_some_iff hordered).mp hbyte
    obtain ⟨hstart, hstop, -⟩ := Chunk.byte?_eq_some_iff.mp hbyte
    exact ⟨chunk, hmem, address, hpage, hstart, hstop⟩

/-- Unmapping drops the bytes of the pages that lie in the range below the top. -/
theorem keepsBytes_setPages_void (hordered : Chunk.Ordered memory.chunks) (first count page : Nat) :
    (memory.setPages first count .void).KeepsBytes page ↔
      ¬ (first ≤ page ∧ page < first + count) ∧ memory.KeepsBytes page := by
  rw [keepsBytes_iff (ordered_setPages hordered first count .void), keepsBytes_iff hordered]
  simp only [held?_setPages hordered, FlatMemory.inPages_iff]
  constructor
  · rintro ⟨address, rfl, hheld⟩
    split at hheld
    · exact absurd rfl hheld
    · next houtside =>
        exact ⟨fun hinside => houtside ⟨rfl, hinside⟩, address, rfl, hheld⟩
  · rintro ⟨houtside, address, rfl, hheld⟩
    refine ⟨address, rfl, ?_⟩
    rwa [if_neg fun hinside => houtside hinside.2]

/-! ## Where the operations agree -/

/-- A range of pages means the same to all operations on a memory: once its pages are mapped they
count as mapped, once they are zeroed all their bytes read as zero, and once they are unmapped
none of them keeps bytes. -/
structure AgreesOn (memory : SparseMemory) (first count : UInt32) : Prop where
  mapped : ∀ mode, mode ≠ .void →
    (memory.setPages first.toNat count.toNat mode).pagesMapped first.toNat count.toNat = true
  zeroed : ∀ mode, mode = .zeroReadOnly ∨ mode = .zeroReadWrite → ∀ address,
    PageSpan.Covers ⟨first.toNat, count.toNat⟩ (pageOf address) →
      (Memory.read (memory.setPages first.toNat count.toNat mode) address 1).1 =
        .ok [0].toByteArray
  dropped : ∀ page, PageSpan.Covers ⟨first.toNat, count.toNat⟩ page →
    ¬ (memory.setPages first.toNat count.toNat .void).KeepsBytes page

/-- What can be read on pages that were zeroed: they are zero below the top, and as they were on
the other side of it. -/
theorem read_zeroed (hordered : Chunk.Ordered memory.chunks) {first count : Nat} {mode : PageMode}
    (hmode : mode = .zeroReadOnly ∨ mode = .zeroReadWrite) {address : UInt32}
    (hcovers : PageSpan.Covers ⟨first, count⟩ (pageOf address)) :
    (Memory.read (memory.setPages first count mode) address 1).1 =
      .ok [if first ≤ pageOf address ∧ pageOf address < first + count then 0
        else memory.image address].toByteArray := by
  obtain ⟨hdrops, access, haccess⟩ :
      mode.keepsContents = false ∧ ∃ access, mode.access = some access := by
    rcases hmode with rfl | rfl
    · exact ⟨rfl, _, rfl⟩
    · exact ⟨rfl, _, rfl⟩
  have hmapped : (memory.setPages first count mode).pageMap.access (pageOf address) ≠ none := by
    rw [access_setPages, if_pos hcovers, haccess]
    exact Option.some_ne_none access
  rw [read_one (ordered_setPages hordered _ _ mode) hmapped, image_setPages hordered _ _ hdrops]

/-- The operations agree on a range exactly if it has no pages or ends at or below the top. -/
theorem agreesOn_iff (hordered : Chunk.Ordered memory.chunks) (first count : UInt32) :
    memory.AgreesOn first count ↔ count = 0 ∨ first.toNat + count.toNat ≤ pageCount := by
  constructor
  · intro hagrees
    have hmapped := hagrees.mapped .readWrite (by decide)
    exact (memory.pagesMapped_setPages_iff first count (by decide)).mp hmapped
  · intro hfits
    have hinside : ∀ page, PageSpan.Covers ⟨first.toNat, count.toNat⟩ page →
        first.toNat ≤ page ∧ page < first.toNat + count.toNat := by
      intro page hcovers
      rcases hfits with rfl | hfits
      · obtain ⟨index, hindex, -⟩ := hcovers
        exact absurd hindex (Nat.not_lt_zero index)
      · exact (PageSpan.covers_iff_of_le hfits).mp hcovers
    constructor
    · intro mode hmode
      exact (memory.pagesMapped_setPages_iff first count hmode).mpr hfits
    · intro mode hmode address hcovers
      rw [read_zeroed hordered hmode hcovers, if_pos (hinside _ hcovers)]
    · intro page hcovers hkeeps
      exact ((keepsBytes_setPages_void hordered _ _ _).mp hkeeps).1 (hinside page hcovers)

/-- Page ranges mean the same to all operations on a memory exactly below the top of the address
space.  In every memory that operations lead to, the operations agree on a range if and only if it
has no pages or ends at or below the top.  Otherwise the pages of the range do not count as mapped
although they are, bytes on the other side of the top stay as they were although their pages were
to be zero, and there the bytes of unmapped pages are kept. -/
theorem page_ranges_agree_iff_below_top (hreachable : memory.Reachable) (first count : UInt32) :
    (memory.AgreesOn first count ↔ count = 0 ∨ first.toNat + count.toNat ≤ pageCount) ∧
    (∀ mode, mode ≠ .void →
      ((memory.setPages first.toNat count.toNat mode).pagesMapped first.toNat count.toNat =
          true ↔ count = 0 ∨ first.toNat + count.toNat ≤ pageCount)) ∧
    (∀ mode, mode = .zeroReadOnly ∨ mode = .zeroReadWrite → ∀ address,
      PageSpan.Covers ⟨first.toNat, count.toNat⟩ (pageOf address) →
        (Memory.read (memory.setPages first.toNat count.toNat mode) address 1).1 =
          .ok [if first.toNat ≤ pageOf address ∧
              pageOf address < first.toNat + count.toNat then 0
            else memory.image address].toByteArray) ∧
    ∀ page, PageSpan.Covers ⟨first.toNat, count.toNat⟩ page →
      ((memory.setPages first.toNat count.toNat .void).KeepsBytes page ↔
        ¬ (first.toNat ≤ page ∧ page < first.toNat + count.toNat) ∧
          memory.KeepsBytes page) := by
  have hordered := hreachable.ordered
  exact ⟨agreesOn_iff hordered first count,
    fun _ hmode => memory.pagesMapped_setPages_iff first count hmode,
    fun _ hmode _ hcovers => read_zeroed hordered hmode hcovers,
    fun page _ => keepsBytes_setPages_void hordered _ _ page⟩

def lowByte : SparseMemory :=
  (((empty PageMap.defaultCapacity).setPages 0 1 .zeroReadWrite).write 0 [5].toByteArray).2

theorem reachable_lowByte : lowByte.Reachable :=
  ((Reachable.start (.empty PageMap.defaultCapacity)).setPages 0 1 .zeroReadWrite).write 0
    [5].toByteArray

/-- Two pages from the highest one on are to be zeroed, or unmapped.  The second one is the lowest
page, and its byte stays. -/
theorem lowByte_stays_behind_the_top :
    PageSpan.Covers ⟨0xFFFFF, 2⟩ 0 ∧
      (Memory.read (lowByte.setPages 0xFFFFF 2 .zeroReadWrite) 0 1).1 = .ok [5].toByteArray ∧
      (lowByte.setPages 0xFFFFF 2 .zeroReadWrite).pagesMapped 0xFFFFF 2 = false ∧
      (lowByte.setPages 0xFFFFF 2 .void).KeepsBytes 0 ∧
      ¬ lowByte.AgreesOn 0xFFFFF 2 := by
  have hread : (Memory.read (lowByte.setPages 0xFFFFF 2 .zeroReadWrite) 0 1).1 =
      .ok [5].toByteArray := by cbv
  have hmapped : (lowByte.setPages 0xFFFFF 2 .zeroReadWrite).pagesMapped 0xFFFFF 2 = false := by
    cbv
  have hchunks : (lowByte.setPages 0xFFFFF 2 .void).chunks = [⟨0, [5].toByteArray⟩] := by cbv
  have hkeeps : (lowByte.setPages 0xFFFFF 2 .void).KeepsBytes 0 := by
    refine ⟨⟨0, [5].toByteArray⟩, ?_, 0, rfl, by decide, by decide⟩
    rw [hchunks]
    exact List.mem_singleton_self _
  refine ⟨by decide, hread, hmapped, hkeeps, fun hagrees => ?_⟩
  exact hagrees.dropped 0 (by decide) hkeeps

/-- The same range, and one that ends at the top. -/
theorem lowByte_agrees_up_to_the_top :
    lowByte.Reachable ∧ ¬ lowByte.AgreesOn 0xFFFFF 2 ∧ lowByte.AgreesOn 0xFFFFE 2 := by
  obtain ⟨hacross, -⟩ := page_ranges_agree_iff_below_top reachable_lowByte 0xFFFFF 2
  obtain ⟨hbelow, -⟩ := page_ranges_agree_iff_below_top reachable_lowByte 0xFFFFE 2
  exact ⟨reachable_lowByte, mt hacross.mp (by decide), hbelow.mpr (by decide)⟩

end SparseMemory

end GasMachine
