import Mathlib
import GasMachine.Proofs.Memory.GapSearch
import GasMachine.Proofs.Memory.PageHistories
import GasMachine.Proofs.Memory.SparseContents

/-!
# First fit

A sparse memory grows by as many whole pages as hold the bytes it is asked for.
The pages come from the lowest run of unmapped pages that is long enough, however
the mapped pages lie, and a memory without such a run stays as it is.
-/

namespace GasMachine

open AddressSpace

namespace PageMap

variable {map : PageMap} {count start page : Nat}

/-- The pages at or above `start` from which `count` pages are unmapped, all of them below the top
of the address space. -/
def gaps (map : PageMap) (count start : Nat) : Set Nat :=
  {page | start ≤ page ∧ page + count ≤ pageCount ∧
    ∀ inside ∈ Set.Ico page (page + count), map.access inside = none}

theorem mem_gaps_iff : page ∈ map.gaps count start ↔ start ≤ page ∧ map.IsGap count page := by
  refine and_congr_right fun _ => and_congr_right fun hfits => forall_congr' fun inside => ?_
  rw [Set.mem_Ico, and_imp]
  refine imp_congr_right fun _ => imp_congr_right fun hlast => ?_
  rw [access, if_pos (Nat.lt_of_lt_of_le hlast hfits)]

/-- The search finds the lowest gap. -/
theorem findGap_eq_some_iff :
    map.findGap count start = some page ↔ IsLeast (map.gaps count start) page := by
  have hfirst := map.firstGap_findGap count start
  constructor
  · intro hfound
    rw [hfound] at hfirst
    obtain ⟨habove, hgap, hearlier⟩ := hfirst
    refine ⟨mem_gaps_iff.mpr ⟨habove, hgap⟩, fun other hother => ?_⟩
    obtain ⟨hother, hisGap⟩ := mem_gaps_iff.mp hother
    exact Nat.le_of_not_lt fun hlt => hearlier other hother hlt hisGap
  · rintro ⟨hmem, hleast⟩
    obtain ⟨habove, hgap⟩ := mem_gaps_iff.mp hmem
    refine hfirst.eq ⟨habove, hgap, fun earlier hearlier hlt hisGap => ?_⟩
    exact Nat.not_le_of_lt hlt (hleast (mem_gaps_iff.mpr ⟨hearlier, hisGap⟩))

/-- The search finds nothing only where there is no gap. -/
theorem findGap_eq_none_iff : map.findGap count start = none ↔ map.gaps count start = ∅ := by
  have hfirst := map.firstGap_findGap count start
  rw [Set.eq_empty_iff_forall_notMem]
  constructor
  · intro hnone page hpage
    rw [hnone] at hfirst
    obtain ⟨habove, hgap⟩ := mem_gaps_iff.mp hpage
    exact hfirst page habove hgap
  · intro hempty
    exact hfirst.eq fun page habove hgap => hempty page (mem_gaps_iff.mpr ⟨habove, hgap⟩)

/-- Granting a gap maps the pages of the gap and no others. -/
theorem answersFor_grantPages (map : PageMap) (hfits : page + count ≤ pageCount)
    (access : PageAccess) :
    (map.grantPages page count access).AnswersFor fun other =>
      if other ∈ Set.Ico page (page + count) then some access else map.access other := by
  apply answersFor_of_access
  intro other
  rw [grantPages, access_assign]
  exact ite_congr (propext (PageSpan.covers_iff_of_le hfits)) (fun _ => rfl) fun _ => rfl

end PageMap

namespace SparseMemory

/-- The gaps that hold `increment` bytes, from the first page above the reserved zone on. -/
def room (memory : SparseMemory) (increment : UInt32) : Set Nat :=
  memory.pageMap.gaps (increment.toNat ⌈/⌉ pageSize) firstUserPage

/-- `after` is `memory` with the pages that hold `increment` bytes from `page` on mapped for reading
and writing.  All other pages and all bytes are as they were. -/
structure MapsFrom (memory : SparseMemory) (increment : UInt32) (page : Nat)
    (after : SparseMemory) : Prop where
  access : after.pageMap.AnswersFor fun other =>
    if other ∈ Set.Ico page (page + increment.toNat ⌈/⌉ pageSize) then some .readWrite
    else memory.pageMap.access other
  chunks : after.chunks = memory.chunks
  image : after.image = memory.image

/-- Growing by `increment` bytes takes the lowest gap that holds them, and is refused only where
there is none, which changes nothing. -/
structure GrowsFirstFit (memory : SparseMemory) (increment : UInt32) : Prop where
  granted : ∀ page, IsLeast (memory.room increment) page →
    ∃ address after, memory.grow increment = (.ok address, after) ∧
      address.toNat = page * pageSize ∧ memory.MapsFrom increment page after
  refused_iff : (∃ error after, memory.grow increment = (.error error, after)) ↔
    memory.room increment = ∅
  refused : ∀ error after, memory.grow increment = (.error error, after) →
    error = .outOfMemory 0 ∧ after = memory

variable {increment : UInt32}

/-- A number of bytes other than zero needs a page. -/
theorem pagesFor_pos (hsome : increment ≠ 0) : 0 < pagesFor increment.toNat := by
  have hpos : increment.toNat ≠ 0 := fun hzero => hsome (UInt32.toNat_inj.mp hzero)
  exact Nat.div_pos (by unfold pageSize; omega) (by decide)

variable {memory : SparseMemory} {page : Nat}

/-- A memory with room grows by the lowest gap. -/
theorem grow_of_isLeast (hsome : increment ≠ 0) (hleast : IsLeast (memory.room increment) page) :
    memory.grow increment =
      (.ok (UInt32.ofNat (page * pageSize)),
        { memory with
          pageMap :=
            memory.pageMap.grantPages page (increment.toNat ⌈/⌉ pageSize) .readWrite }) := by
  have hpos := pagesFor_pos hsome
  have hfound : memory.pageMap.findGap (pagesFor increment.toNat) firstUserPage = some page :=
    PageMap.findGap_eq_some_iff.mpr hleast
  rw [grow, Nat.max_eq_left hpos, hfound]
  exact congrArg _ (if_neg hpos.ne')

/-- A memory without room does not grow. -/
theorem grow_of_room_eq_empty (hsome : increment ≠ 0) (hempty : memory.room increment = ∅) :
    memory.grow increment = (.error (.outOfMemory 0), memory) := by
  have hnone : memory.pageMap.findGap (pagesFor increment.toNat) firstUserPage = none :=
    PageMap.findGap_eq_none_iff.mpr hempty
  rw [grow, Nat.max_eq_left (pagesFor_pos hsome), hnone]

/-- There is a lowest gap or none at all. -/
theorem room_eq_empty_or_isLeast (memory : SparseMemory) (increment : UInt32) :
    memory.room increment = ∅ ∨ ∃ page, IsLeast (memory.room increment) page := by
  rcases (memory.room increment).eq_empty_or_nonempty with hempty | hroom
  · exact Or.inl hempty
  · exact Or.inr ⟨_, isLeast_csInf hroom⟩

theorem growsFirstFit (memory : SparseMemory) (hsome : increment ≠ 0) :
    memory.GrowsFirstFit increment where
  granted page hleast := by
    obtain ⟨-, hfits, -⟩ := hleast.1
    have hpage : page < pageCount :=
      Nat.lt_of_lt_of_le (Nat.lt_add_of_pos_right (pagesFor_pos hsome)) hfits
    refine ⟨_, _, grow_of_isLeast hsome hleast, ?_, ?_, rfl, rfl⟩
    · rw [UInt32.toNat_ofNat']
      unfold pageCount pageSize at *
      omega
    · exact memory.pageMap.answersFor_grantPages hfits .readWrite
  refused_iff := by
    rcases memory.room_eq_empty_or_isLeast increment with hempty | ⟨page, hleast⟩
    · exact iff_of_true ⟨_, _, grow_of_room_eq_empty hsome hempty⟩ hempty
    · apply iff_of_false
      · rintro ⟨error, after, hgrow⟩
        rw [grow_of_isLeast hsome hleast] at hgrow
        cases hgrow
      · exact Set.Nonempty.ne_empty ⟨page, hleast.1⟩
  refused error after hgrow := by
    rcases memory.room_eq_empty_or_isLeast increment with hempty | ⟨page, hleast⟩
    · rw [grow_of_room_eq_empty hsome hempty] at hgrow
      cases hgrow
      exact ⟨rfl, rfl⟩
    · rw [grow_of_isLeast hsome hleast] at hgrow
      cases hgrow

/-- The search for a gap and the growth of a sparse memory are exact.  For every map, length and
start the search finds the lowest gap, and nothing exactly if there is none.  So a memory that is
asked for some bytes maps the lowest gap above the reserved zone that holds them for reading and
writing and answers with its address, and leaves all other pages and all bytes as they are.  It
refuses exactly if there is no such gap, and then nothing changes. -/
theorem growth_takes_the_lowest_gap :
    (∀ (map : PageMap) (count start : Nat),
      (∀ page, map.findGap count start = some page ↔ IsLeast (map.gaps count start) page) ∧
      (map.findGap count start = none ↔ map.gaps count start = ∅)) ∧
    ∀ (memory : SparseMemory) (increment : UInt32), increment ≠ 0 →
      memory.GrowsFirstFit increment :=
  ⟨fun _ _ _ => ⟨fun _ => PageMap.findGap_eq_some_iff, PageMap.findGap_eq_none_iff⟩,
    fun memory _ hsome => memory.growsFirstFit hsome⟩

/-- A memory in which only the second page above the reserved zone is mapped. -/
def secondMapped : SparseMemory := (empty 0).setPages 17 1 .zeroReadOnly

/-- There is one page below the mapped one, so more bytes than it holds go behind the mapped
one. -/
theorem isLeast_room_secondMapped : IsLeast (secondMapped.room 4097) 18 := by
  have haccess : ∀ page, secondMapped.pageMap.access page =
      if PageSpan.Covers ⟨17, 1⟩ page then some .readOnly else none := fun page => by
    have hempty : (PageMap.empty 0).access page = none := ite_self none
    rw [← hempty]
    exact PageMap.access_assign (.empty 0) 17 1 (some .readOnly) page
  refine ⟨⟨by decide, by decide, fun inside hinside => ?_⟩, ?_⟩
  · have hcovers : ¬ PageSpan.Covers ⟨17, 1⟩ inside := by
      rw [PageSpan.covers_iff_of_le (by decide)]
      have := hinside.1
      omega
    rw [haccess, if_neg hcovers]
  · rintro page ⟨habove, -, hunmapped⟩
    by_contra hlt
    have hinside : 17 ∈ Set.Ico page (page + (4097 : UInt32).toNat ⌈/⌉ pageSize) := by
      have hcount : (4097 : UInt32).toNat ⌈/⌉ pageSize = 2 := rfl
      have hfirst : firstUserPage = 16 := rfl
      rw [hcount, Set.mem_Ico]
      omega
    have hmapped := hunmapped 17 hinside
    rw [haccess, if_pos (by decide)] at hmapped
    cases hmapped

theorem growth_behind_a_mapped_page :
    ∃ address after, secondMapped.grow 4097 = (.ok address, after) ∧
      address.toNat = 0x12000 ∧
      [16, 17, 18, 19, 20].map after.pageMap.access =
        [none, some .readOnly, some .readWrite, some .readWrite, none] := by
  obtain ⟨-, hgrows⟩ := growth_takes_the_lowest_gap
  obtain ⟨address, after, hgrow, haddress, hmaps⟩ :=
    (hgrows secondMapped 4097 (by decide)).granted 18 isLeast_room_secondMapped
  refine ⟨address, after, hgrow, haddress, ?_⟩
  rw [funext hmaps.access.page]
  decide

end SparseMemory

end GasMachine
