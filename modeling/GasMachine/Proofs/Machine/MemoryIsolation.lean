import Mathlib
import GasMachine.Proofs.Machine.GasMetering
import GasMachine.Proofs.Memory.PageHistories
import GasMachine.Proofs.Memory.SparseContents
import GasMachine.Proofs.Memory.ZonedRefinement

/-!
# Runs keep to their memory

A program can write where it may write, and it can have the heap grown.  So a
run leaves every mapped page with its access, and every byte that could not be
written with its value, unless the heap grew over its page in between.  This is
a relation between the memories before and after.  It is shown of each operation
of a memory, and it composes along the steps of a run.
-/

namespace GasMachine

open AddressSpace

/-! ## Isolation -/

section Isolation

variable {μ : Type} [Memory μ]

def Memory.accessOf (memory : μ) (page : Nat) : Option PageAccess :=
  (Memory.pageMap memory).access page

open Memory (accessOf)

/-- What a program may have done to a memory whose bytes `image` shows, if the
pages that it had mapped are among `mapped`.  Pages with access have kept it.
Pages that got access can be written, and lie above the reserved zone and below
`limit`.  No byte has changed that could not be written, except on pages without
access that were mapped. -/
structure Memory.Isolated (image : μ → Image) (limit : Nat) (mapped : Nat → Prop)
    (before after : μ) : Prop where
  kept : ∀ page, accessOf before page ≠ none → accessOf after page = accessOf before page
  fresh : ∀ page, accessOf before page = none → accessOf after page ≠ none →
    accessOf after page = some .readWrite ∧ firstUserPage ≤ page ∧ page < limit ∧ mapped page
  bytes : ∀ address, accessOf before (pageOf address) ≠ some .readWrite →
    image after address ≠ image before address →
      accessOf before (pageOf address) = none ∧ mapped (pageOf address)

namespace Memory.Isolated

variable {image : μ → Image} {limit : Nat} {mapped later : Nat → Prop}
variable {before between after : μ}

/-- Access stays, and so do the bytes that cannot be written. -/
theorem of_access_eq (haccess : accessOf after = accessOf before)
    (hbytes : ∀ address, accessOf before (pageOf address) ≠ some .readWrite →
      image after address = image before address) :
    Isolated image limit mapped before after where
  kept page _ := congrFun haccess page
  fresh page hnone hsome := absurd (congrFun haccess page ▸ hnone) hsome
  bytes address hwritable hchanged := absurd (hbytes address hwritable) hchanged

theorem refl (memory : μ) : Isolated image limit mapped memory memory :=
  of_access_eq rfl fun _ _ => rfl

theorem mono (hisolated : Isolated image limit mapped before after)
    (hmapped : ∀ page, mapped page → later page) : Isolated image limit later before after where
  kept := hisolated.kept
  fresh page hnone hsome := by
    obtain ⟨haccess, habove, hbelow, hpage⟩ := hisolated.fresh page hnone hsome
    exact ⟨haccess, habove, hbelow, hmapped page hpage⟩
  bytes address hwritable hchanged := by
    obtain ⟨hnone, hpage⟩ := hisolated.bytes address hwritable hchanged
    exact ⟨hnone, hmapped _ hpage⟩

theorem access_eq_none (hisolated : Isolated image limit mapped before after) {page : Nat}
    (hnone : accessOf after page = none) : accessOf before page = none := by
  by_contra hsome
  exact hsome ((hisolated.kept page hsome).symm.trans hnone)

/-- What is done in two parts maps what either of them maps. -/
theorem trans (hfirst : Isolated image limit mapped before between)
    (hsecond : Isolated image limit later between after) :
    Isolated image limit (fun page => mapped page ∨ later page) before after where
  kept page hsome := by
    have hbetween := hfirst.kept page hsome
    exact (hsecond.kept page (hbetween ▸ hsome)).trans hbetween
  fresh page hnone hsome := by
    by_cases hbetween : accessOf between page = none
    · obtain ⟨haccess, habove, hbelow, hpage⟩ := hsecond.fresh page hbetween hsome
      exact ⟨haccess, habove, hbelow, Or.inr hpage⟩
    · obtain ⟨haccess, habove, hbelow, hpage⟩ := hfirst.fresh page hnone hbetween
      exact ⟨(hsecond.kept page hbetween).trans haccess, habove, hbelow, Or.inl hpage⟩
  bytes address hwritable hchanged := by
    by_cases hearlier : image between address = image before address
    · by_cases hbetween : accessOf between (pageOf address) = some .readWrite
      · -- The byte became writable in the first part, which mapped its page.
        have hnone : accessOf before (pageOf address) = none := by
          by_contra hsome
          exact hwritable ((hfirst.kept _ hsome).symm.trans hbetween)
        have hfresh := hfirst.fresh _ hnone (by simp [hbetween])
        exact ⟨hnone, Or.inl hfresh.2.2.2⟩
      · obtain ⟨hnone, hpage⟩ := hsecond.bytes address hbetween (hearlier ▸ hchanged)
        exact ⟨hfirst.access_eq_none hnone, Or.inr hpage⟩
    · obtain ⟨hnone, hpage⟩ := hfirst.bytes address hwritable hearlier
      exact ⟨hnone, Or.inl hpage⟩

end Memory.Isolated

/-- Memories of which some are `valid`, and whose operations lead from valid
memories to valid ones that are isolated from them. -/
structure Memory.Isolates (image : μ → Image) (limit : Nat) (valid : μ → Prop) : Prop where
  readInto : ∀ {memory : μ}, valid memory → ∀ address buffer,
    valid (Memory.readInto memory address buffer).memory ∧
      Memory.Isolated image limit (fun _ => False) memory
        (Memory.readInto memory address buffer).memory
  write : ∀ {memory : μ}, valid memory → ∀ address bytes,
    valid (Memory.write memory address bytes).2 ∧
      Memory.Isolated image limit (fun _ => False) memory (Memory.write memory address bytes).2
  grow : ∀ {memory : μ}, valid memory → ∀ increment,
    valid (Memory.grow memory increment).2 ∧
      Memory.Isolated image limit
        (fun page => accessOf memory page = none ∧
          accessOf (Memory.grow memory increment).2 page = some .readWrite)
        memory (Memory.grow memory increment).2

/-! ## Steps and runs -/

namespace Machine

variable {image : μ → Image} {limit : Nat} {valid : μ → Prop}

/-- The step of a machine grows the heap, and this maps the page, which had no
access. -/
def MapsPage (program : Program) (machine : Machine μ) (page : Nat) : Prop :=
  machine.GrowsHeap program ∧ accessOf machine.memory page = none ∧
    accessOf (machine.step program).2.memory page = some .readWrite

def RunMapsPage (program : Program) (machine : Machine μ) (page : Nat) : Prop :=
  ∃ attempt ∈ machine.attempts program, attempt.MapsPage program page

section Runs

variable (hisolates : Memory.Isolates image limit valid)
include hisolates

/-- A step maps the pages over which it grows the heap, and no others. -/
theorem step_isolated (program : Program) {machine : Machine μ}
    (hvalid : valid machine.memory) :
    valid (machine.step program).2.memory ∧
      Memory.Isolated image limit (machine.MapsPage program) machine.memory
        (machine.step program).2.memory := by
  rcases machine.memory_step_cases program with hsame | ⟨address, buffer, hread⟩ |
    ⟨address, bytes, hwrite⟩ | ⟨hgrows, increment, hgrow⟩
  · rw [hsame]
    exact ⟨hvalid, .refl _⟩
  · rw [hread]
    obtain ⟨hafter, hisolated⟩ := hisolates.readInto hvalid address buffer
    exact ⟨hafter, hisolated.mono fun _ => False.elim⟩
  · rw [hwrite]
    obtain ⟨hafter, hisolated⟩ := hisolates.write hvalid address bytes
    exact ⟨hafter, hisolated.mono fun _ => False.elim⟩
  · obtain ⟨hafter, hisolated⟩ := hisolates.grow hvalid increment
    rw [← hgrow] at hafter hisolated
    exact ⟨hafter, hisolated.mono fun _ hgrown => ⟨hgrows, hgrown⟩⟩

/-- A run maps the pages over which one of its steps grows the heap, and no
others. -/
theorem run_isolated (program : Program) (machine : Machine μ) (hvalid : valid machine.memory) :
    Memory.Isolated image limit (machine.RunMapsPage program) machine.memory
      (machine.run program).2.memory := by
  induction machine using @run_induction μ _ program with
  | hstopped machine stop after hstep =>
      have hisolated := (step_isolated hisolates program hvalid).2
      rw [hstep] at hisolated
      rw [run_of_stopped hstep]
      apply hisolated.mono
      intro page hpage
      exact ⟨machine, by simp [attempts_of_stopped hstep], hpage⟩
  | hrunning machine after hstep ih =>
      obtain ⟨hafter, hisolated⟩ := step_isolated hisolates program hvalid
      rw [hstep] at hafter hisolated
      rw [run_of_running hstep]
      apply (hisolated.trans (ih hafter)).mono
      rintro page (hpage | ⟨attempt, hattempt, hpage⟩)
      · exact ⟨machine, by simp [attempts_of_running hstep], hpage⟩
      · exact ⟨attempt, by simp [attempts_of_running hstep, hattempt], hpage⟩

end Runs

end Machine

end Isolation

/-! ## Operations on memories -/

theorem FlatMemory.access_write (flat : FlatMemory) (address : UInt32) (bytes : ByteArray) :
    (flat.write address bytes).2.access = flat.access := by
  rw [write]
  split <;> rfl

/-- A write changes only bytes that can be written. -/
theorem FlatMemory.image_write (flat : FlatMemory) (address : UInt32) (bytes : ByteArray)
    {target : UInt32} (hwritable : flat.access target ≠ some .readWrite) :
    (flat.write address bytes).2.image target = flat.image target := by
  rw [write]
  cases hverdict : AccessKind.write.verdict flat.access address bytes.size with
  | error fault => rfl
  | ok allowed =>
      have hallowed := (AccessKind.verdict_eq_ok_iff.mp hverdict).2
      have houtside : ¬ (target - address).toNat < bytes.size := by
        intro hinside
        have htarget := hallowed _ hinside
        rw [UInt32.ofNat_toNat, UInt32.add_comm, UInt32.sub_add_cancel] at htarget
        exact hwritable (AccessKind.allowedBy_write_iff.mp htarget)
      exact if_neg houtside

section Operations

variable {μ : Type} [Memory μ] {image : μ → Image} {limit : Nat} {mapped : Nat → Prop}
variable {before after : μ}

open Memory (accessOf)

theorem Memory.accessOf_eq (haccess : (Memory.pageMap after).table.accessAt =
      (Memory.pageMap before).table.accessAt) : accessOf after = accessOf before := by
  funext page
  simp only [accessOf]
  rcases Nat.lt_or_ge page pageCount with hpage | hpage
  · rw [PageMap.access_of_lt _ hpage, PageMap.access_of_lt _ hpage, haccess]
  · rw [PageMap.access_of_le _ hpage, PageMap.access_of_le _ hpage]

/-- Writing to the flat memory that a memory stands for isolates. -/
theorem Memory.isolated_of_write (flat : FlatMemory) (address : UInt32) (bytes : ByteArray)
    (hbefore : flat.access = (Memory.pageMap before).table.accessAt ∧ flat.image = image before)
    (hafter : (flat.write address bytes).2.access = (Memory.pageMap after).table.accessAt ∧
      (flat.write address bytes).2.image = image after) :
    Memory.Isolated image limit mapped before after := by
  have haccess : (Memory.pageMap after).table.accessAt =
      (Memory.pageMap before).table.accessAt := by
    rw [← hafter.1, ← hbefore.1, flat.access_write]
  apply Memory.Isolated.of_access_eq (Memory.accessOf_eq haccess)
  intro target hwritable
  rw [accessOf, PageMap.access_pageOf, ← hbefore.1] at hwritable
  rw [← hafter.2, ← hbefore.2]
  exact flat.image_write address bytes hwritable

/-- Granting access to pages that had none isolates. -/
theorem Memory.isolated_of_grant
    (haccess : ∀ page, accessOf after page = accessOf before page ∨
      accessOf before page = none ∧ accessOf after page = some .readWrite ∧
        firstUserPage ≤ page ∧ page < limit)
    (himage : image after = image before) :
    Memory.Isolated image limit
      (fun page => accessOf before page = none ∧ accessOf after page = some .readWrite)
      before after where
  kept page hsome := (haccess page).resolve_right fun hgrant => hsome hgrant.1
  fresh page hnone hsome := by
    rcases haccess page with hsame | ⟨-, hgranted, habove, hbelow⟩
    · exact absurd (hsame.trans hnone) hsome
    · exact ⟨hgranted, habove, hbelow, hnone, hgranted⟩
  bytes address _ hchanged := absurd (congrFun himage address) hchanged

end Operations

/-! ## Sparse memories -/

namespace SparseMemory

/-- Growing the heap changes at most the access of pages, which had none before. -/
theorem grow_cases (memory : SparseMemory) (increment : UInt32) :
    (memory.grow increment).2 = memory ∨
      ∃ first count, firstUserPage ≤ first ∧ memory.pageMap.IsGap count first ∧
        (memory.grow increment).2 =
          { memory with pageMap := memory.pageMap.grantPages first count .readWrite } := by
  simp only [grow]
  generalize pagesFor increment.toNat = count
  have hfirst := memory.pageMap.firstGap_findGap (max count 1) firstUserPage
  cases hgap : memory.pageMap.findGap (max count 1) firstUserPage with
  | none => exact Or.inl rfl
  | some first =>
      rw [hgap] at hfirst
      obtain ⟨habove, hisGap, -⟩ := hfirst
      by_cases hcount : count = 0
      · simp [hcount]
      · rw [max_eq_left (Nat.one_le_iff_ne_zero.mpr hcount)] at hisGap
        exact Or.inr ⟨first, count, habove, hisGap, if_neg hcount⟩

theorem access_grantPages {map : PageMap} {first count : Nat} (habove : firstUserPage ≤ first)
    (hisGap : map.IsGap count first) (page : Nat) :
    (map.grantPages first count .readWrite).access page = map.access page ∨
      map.access page = none ∧
        (map.grantPages first count .readWrite).access page = some .readWrite ∧
        firstUserPage ≤ page ∧ page < pageCount := by
  rw [PageMap.grantPages, PageMap.access_assign]
  split
  · next hcovers =>
      obtain ⟨hfirst, hlast⟩ := (PageSpan.covers_iff_of_le hisGap.1).mp hcovers
      have hpage : page < pageCount := Nat.lt_of_lt_of_le hlast hisGap.1
      have hunmapped : map.access page = none :=
        (if_pos hpage).trans (hisGap.2 page hfirst hlast)
      exact Or.inr ⟨hunmapped, rfl, habove.trans hfirst, hpage⟩
  · exact Or.inl rfl

/-- Sparse memories are isolated by their operations. -/
theorem isolates : Memory.Isolates image pageCount fun memory => Chunk.Ordered memory.chunks where
  readInto := by
    intro memory hordered address buffer
    obtain ⟨after, hread, hafter⟩ := (represents_flatten hordered).readInto address buffer
    have hinto : Memory.readInto memory address buffer = _ := hread
    rw [hinto]
    refine ⟨hafter.ordered, .of_access_eq (Memory.accessOf_eq hafter.access.symm) ?_⟩
    exact fun target _ => congrFun hafter.image_eq target
  write := by
    intro memory hordered address bytes
    have hafter := ((represents_flatten hordered).write address bytes).2
    refine ⟨hafter.ordered, ?_⟩
    exact Memory.isolated_of_write memory.flatten address bytes ⟨rfl, rfl⟩
      ⟨hafter.access, hafter.image_eq.symm⟩
  grow := by
    intro memory hordered increment
    have hgrow : Memory.grow memory increment = memory.grow increment := rfl
    rw [hgrow]
    rcases memory.grow_cases increment with hsame | ⟨first, count, habove, hisGap, hafter⟩
    · rw [hsame]
      exact ⟨hordered, .refl memory⟩
    · rw [hafter]
      exact ⟨hordered, Memory.isolated_of_grant (access_grantPages habove hisGap) rfl⟩

end SparseMemory

/-! ## Zoned memories -/

namespace ZonedMemory

variable {memory : ZonedMemory} {standard : StandardProgram} {argument : ByteArray}

/-- A memory in step whose zones start where those of a standard program do. -/
structure Placed (standard : StandardProgram) (memory : ZonedMemory) : Prop where
  inStep : memory.InStep
  start : ∀ region, (memory.zone region).start.toNat = startOf standard region

theorem SameShape.placed {after : ZonedMemory} (hshape : memory.SameShape after)
    (hplaced : memory.Placed standard) (hinStep : after.InStep) : after.Placed standard where
  inStep := hinStep
  start region := by rw [hshape.start, hplaced.start]

theorem zone_grow_start (memory : ZonedMemory) (increment : UInt32) (region : Region) :
    ((memory.grow increment).2.zone region).start = (memory.zone region).start := by
  rcases memory.grow_cases increment with ⟨heapEnd, hafter⟩ | ⟨heapEnd, mappedEnd, -, hafter⟩
  · rw [hafter, zone_setHeapEnd]
  · rw [hafter, zone_setHeapEnd]
    cases region <;> rfl

/-- A check changes nothing but what is remembered. -/
theorem Placed.checkRange (hplaced : memory.Placed standard) (kind : AccessKind)
    (address : UInt32) (length : Nat) (limit : Nat) :
    Placed standard
        { memory with pageMap := (memory.pageMap.checkRange kind address length).2 } ∧
      Memory.Isolated image limit (fun _ => False) memory
        { memory with pageMap := (memory.pageMap.checkRange kind address length).2 } := by
  have hshape := memory.sameShape_checkRange kind address length
  have hflatten := memory.flatten_checkRange kind address length
  refine ⟨hshape.placed hplaced (hplaced.inStep.checkRange kind address length),
    .of_access_eq (Memory.accessOf_eq ?_) fun target _ => ?_⟩
  · exact congrArg PageTable.accessAt hshape.table
  · exact congrFun (congrArg (fun heap => heap.image) hflatten) target

/-- The page at `page` gets access from the heap that grows up to `mappedEnd`, or
its access stays. -/
theorem Placed.access_extendHeap (hplaced : memory.Placed standard) {mappedEnd : Nat}
    (hextends : memory.Extends mappedEnd) (page : Nat) :
    (memory.extendHeap mappedEnd).pageMap.access page = memory.pageMap.access page ∨
      memory.pageMap.access page = none ∧
        (memory.extendHeap mappedEnd).pageMap.access page = some .readWrite ∧
        firstUserPage ≤ page ∧ page < startOf standard .stack / pageSize := by
  obtain ⟨stored, hstored⟩ := hplaced.inStep.represents
  rcases Nat.lt_or_ge page pageCount with hpage | hpage
  · rw [PageMap.access_of_lt _ hpage, PageMap.access_of_lt _ hpage,
      (hextends.layout hstored.layout).access, hstored.layout.access,
      hextends.regionAt?_eq hstored.layout]
    by_cases hnew : (memory.zone .heap).stop.toNat ≤ (UInt32.ofNat (page * pageSize)).toNat ∧
        (UInt32.ofNat (page * pageSize)).toNat < mappedEnd
    · right
      rw [if_pos hnew, hextends.regionAt?_eq_none hstored.layout hnew]
      have hheap := hstored.layout.bounds .heap
      have hbelow := hextends.below
      have haligned := startOf_mod standard .stack
      have habove : zoneSize ≤ startOf standard .heap := by
        simp only [startOf, heapStart, zoneSize]
        omega
      rw [hplaced.start] at hheap hbelow
      rw [UInt32.toNat_ofNat'] at hnew
      refine ⟨rfl, rfl, ?_, ?_⟩ <;>
      · simp only [firstUserPage, zoneSize, pageSize, pageCount] at *
        omega
    · exact Or.inl (by rw [if_neg hnew])
  · exact Or.inl ((PageMap.access_of_le _ hpage).trans (PageMap.access_of_le _ hpage).symm)

/-- Zoned memories are isolated by their operations. -/
theorem isolates (standard : StandardProgram) :
    Memory.Isolates image (startOf standard .stack / pageSize) (Placed standard) where
  readInto := by
    intro memory hplaced address buffer
    have hread : Memory.readInto memory address buffer = memory.readInto address buffer := rfl
    rw [hread, memory_readInto]
    exact hplaced.checkRange .read address buffer.size _
  write := by
    intro memory hplaced address bytes
    obtain ⟨-, hflatten, hinStep⟩ := hplaced.inStep.write_eq address bytes
    have hafter := congrArg FlatHeap.toFlatMemory hflatten
    refine ⟨(memory.sameShape_write address bytes).placed hplaced hinStep, ?_⟩
    exact Memory.isolated_of_write memory.flatten.toFlatMemory address bytes ⟨rfl, rfl⟩
      ⟨(congrArg FlatMemory.access hafter).symm, (congrArg FlatMemory.image hafter).symm⟩
  grow := by
    intro memory hplaced increment
    obtain ⟨stored, hstored⟩ := hplaced.inStep.represents
    have himage := (hstored.grow increment).image_eq.trans hstored.image_eq.symm
    have hgrow : Memory.grow memory increment = memory.grow increment := rfl
    rw [hgrow]
    refine ⟨⟨(hplaced.inStep.grow increment).2.2, fun region => ?_⟩, ?_⟩
    · rw [memory.zone_grow_start, hplaced.start]
    · apply Memory.isolated_of_grant _ himage
      intro page
      rcases memory.grow_cases increment with
        ⟨heapEnd, hafter⟩ | ⟨heapEnd, mappedEnd, hextends, hafter⟩
      · rw [hafter]
        exact Or.inl rfl
      · rw [hafter]
        exact hplaced.access_extendHeap hextends page

/-- Operations one after the other isolate. -/
theorem Reached.isolated {stored record : Stored} {after : ZonedMemory}
    (hplaced : memory.Placed standard) (hreached : Reached memory stored after record) :
    after.Placed standard ∧
      Memory.Isolated image (startOf standard .stack / pageSize) (fun _ => True) memory after := by
  induction hreached with
  | start => exact ⟨hplaced, .refl memory⟩
  | check _ kind address length ih =>
      obtain ⟨hafter, hisolated⟩ := ih.1.checkRange kind address length.toNat _
      exact ⟨hafter, (ih.2.trans hisolated).mono fun _ _ => trivial⟩
  | read _ address buffer ih =>
      obtain ⟨hafter, hisolated⟩ := (isolates standard).readInto ih.1 address buffer
      exact ⟨hafter, (ih.2.trans hisolated).mono fun _ _ => trivial⟩
  | write _ address bytes _ ih | refused _ address bytes _ ih =>
      obtain ⟨hafter, hisolated⟩ := (isolates standard).write ih.1 address bytes
      exact ⟨hafter, (ih.2.trans hisolated).mono fun _ _ => trivial⟩
  | grow _ increment ih =>
      obtain ⟨hafter, hisolated⟩ := (isolates standard).grow ih.1 increment
      exact ⟨hafter, (ih.2.trans hisolated).mono fun _ _ => trivial⟩

/-- What is in a region that cannot be written stays there. -/
theorem Fits.contents_eq {map : PageMap} {limit : Nat} {mapped : Nat → Prop}
    {after : ZonedMemory} (hfits : Fits standard argument)
    (hmap : ∀ address, map.table.accessAt address = none) (region : Region)
    (hregion : region.access = .readOnly)
    (hisolated : Memory.Isolated image limit mapped (layOut standard argument map) after) :
    after.image.contents (UInt32.ofNat (startOf standard region))
      (dataOf standard argument region).size = dataOf standard argument region := by
  have hstored := hfits.represents hmap
  have hend := hfits.end_lt region
  have hsize := size_dataOf_le standard argument region
  apply Bytes.ext_byteAt (Image.size_contents _ _ _)
  intro index hindex
  rw [Image.size_contents] at hindex
  have htoNat : (UInt32.ofNat (startOf standard region) + UInt32.ofNat index).toNat =
      startOf standard region + index := by
    rw [toNat_add_ofNat, UInt32.toNat_ofNat_of_lt' (Nat.lt_of_add_right_lt hend),
      Nat.mod_eq_of_lt (by omega)]
  rw [Image.byteAt_contents _ _ hindex]
  generalize UInt32.ofNat (startOf standard region) + UInt32.ofNat index = target at htoNat
  have hcontains : ((layOut standard argument map).zone region).contains target = true := by
    rw [hfits.contains_iff, htoNat]
    omega
  have haccess : Memory.accessOf (layOut standard argument map) (pageOf target) =
      some .readOnly := by
    rw [← hregion, ← hstored.layout.accessAt_of_contains hcontains]
    exact PageMap.access_pageOf _ target
  have hkept : after.image target = (layOut standard argument map).image target := by
    by_contra hchanged
    have hnone := (hisolated.bytes target (by simp [haccess]) hchanged).1
    simp [haccess] at hnone
  rw [hkept, hstored.image_eq, Stored.image, hfits.loaded_of_contains hmap hcontains, htoNat,
    Nat.add_sub_cancel_left, if_pos hindex, Option.getD_some]

end ZonedMemory

/-! ## Memory isolation -/

/-- Runs keep to their memory, whatever the program.  On a sparse memory that
operations lead to, and on a zoned memory that operations lead to from one that
was laid out for a standard program: a page that had access at the start has the
same access at the end; a page that got access was mapped by a step of the run
that grew the heap, can be written, and lies at page 16 or above and, in a zoned
memory, below the stack; a byte that could not be written at the start is the same
at the end, unless its page had no access and a step of the run mapped it.  So the
read-only data and the argument of a standard program stay what they were. -/
theorem runs_keep_to_their_memory (program : Program) :
    (∀ machine : Machine SparseMemory, machine.memory.Reachable →
      Memory.Isolated SparseMemory.image pageCount (machine.RunMapsPage program)
        machine.memory (machine.run program).2.memory) ∧
    ∀ (standard : StandardProgram) (argument : ByteArray) (capacity : Nat)
      (start : ZonedMemory) (stored : Stored) (machine : Machine ZonedMemory),
      ZonedMemory.initial? standard argument (.empty capacity) = some (.ok start) →
      ZonedMemory.Reached start (ZonedMemory.loaded standard argument) machine.memory stored →
        Memory.Isolated ZonedMemory.image (pageOf machine.memory.stack.start)
          (machine.RunMapsPage program) machine.memory (machine.run program).2.memory ∧
        (machine.run program).2.memory.image.contents (UInt32.ofNat ZonedMemory.readOnlyStart)
          standard.readOnly.size = standard.readOnly ∧
        (machine.run program).2.memory.image.contents argumentStart argument.size =
          argument := by
  constructor
  · intro machine hreachable
    exact Machine.run_isolated SparseMemory.isolates program machine hreachable.ordered
  · intro standard argument capacity start stored machine hinitial hreached
    obtain ⟨hfits, rfl⟩ := ZonedMemory.fits_of_initial? hinitial
    have hmap : ∀ address, (PageMap.empty capacity).table.accessAt address = none :=
      fun _ => PageTable.get_empty _
    have hstart : (ZonedMemory.layOut standard argument (.empty capacity)).Placed standard :=
      ⟨hfits.inStep hmap, hfits.start_zone _⟩
    obtain ⟨hplaced, hearlier⟩ := hreached.isolated hstart
    have hrun := Machine.run_isolated (ZonedMemory.isolates standard) program machine hplaced
    have hwhole := hearlier.trans hrun
    have hlimit : pageOf machine.memory.stack.start =
        ZonedMemory.startOf standard .stack / pageSize :=
      congrArg (· / pageSize) (hplaced.start .stack)
    rw [hlimit]
    refine ⟨hrun, ?_, ?_⟩
    · exact hfits.contents_eq hmap .readOnly rfl hwhole
    · exact hfits.contents_eq hmap .argument rfl hwhole

/-- A program that grows the heap and stores to the page behind the first that a
program may use. -/
def growAndStore : Program :=
  .ofImage
    ⟨ByteArray.empty, 0, 0, [101, 2, 30, 3, 0, 0x10, 1, 7].toByteArray, [5].toByteArray⟩

def growAndStoreSparse : Machine SparseMemory :=
  ⟨0, Registers.zero.set Reg.returnAddress 1, ⟨5⟩,
    SparseMemory.setPages ⟨.empty 8, []⟩ 16 1 .zeroReadOnly⟩

def growAndStoreZoned : Machine ZonedMemory :=
  ⟨0, Registers.zero.set Reg.returnAddress 1, ⟨5⟩,
    ZonedMemory.layOut ZonedMemory.dataProgram [1, 2, 3].toByteArray (.empty 8)⟩

theorem growAndStore_keeps_to_its_memory :
    (growAndStoreSparse.memory.Reachable ∧
      Memory.accessOf growAndStoreSparse.memory 17 = none ∧
      Memory.accessOf (growAndStoreSparse.run growAndStore).2.memory 17 = some .readWrite ∧
      (growAndStoreSparse.run growAndStore).2.memory.image 0x11000 = 7 ∧
      Memory.Isolated SparseMemory.image pageCount
        (growAndStoreSparse.RunMapsPage growAndStore) growAndStoreSparse.memory
        (growAndStoreSparse.run growAndStore).2.memory) ∧
    ZonedMemory.initial? ZonedMemory.dataProgram [1, 2, 3].toByteArray (.empty 8) =
      some (.ok growAndStoreZoned.memory) ∧
    Memory.Isolated ZonedMemory.image (pageOf growAndStoreZoned.memory.stack.start)
      (growAndStoreZoned.RunMapsPage growAndStore) growAndStoreZoned.memory
      (growAndStoreZoned.run growAndStore).2.memory := by
  have hreachable : growAndStoreSparse.memory.Reachable :=
    (SparseMemory.Reachable.start _).setPages _ _ _
  have hbefore : Memory.accessOf growAndStoreSparse.memory 17 = none := by cbv
  have hafter : Memory.accessOf (growAndStoreSparse.run growAndStore).2.memory 17 =
      some .readWrite := by cbv
  have hbyte : (growAndStoreSparse.run growAndStore).2.memory.image 0x11000 = 7 := by cbv
  have hfits : ZonedMemory.Fits ZonedMemory.dataProgram [1, 2, 3].toByteArray :=
    ⟨by decide, by decide⟩
  have hinitial : ZonedMemory.initial? ZonedMemory.dataProgram [1, 2, 3].toByteArray (.empty 8) =
      some (.ok growAndStoreZoned.memory) := hfits.initial?_eq (.empty 8)
  obtain ⟨hsparse, hzoned⟩ := runs_keep_to_their_memory growAndStore
  exact ⟨⟨hreachable, hbefore, hafter, hbyte, hsparse _ hreachable⟩, hinitial,
    (hzoned _ _ _ _ _ _ hinitial .start).1⟩

end GasMachine
