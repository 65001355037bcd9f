import Mathlib
import GasMachine.Proofs.Memory.ChunkContents
import GasMachine.Proofs.Memory.Operations

/-!
# How the chunks of a sparse memory lie

A write joins every chunk that it overlaps or touches, and dropping pages leaves
a gap between what was before and after them.  Dropping no pages leaves no gap:
if the page at which they would start lies inside a chunk, the chunk is cut in
two that touch.  This is the only way in which chunks come to touch, and they
never overlap.
-/

namespace GasMachine

open AddressSpace

namespace Chunk

/-- What ends at `stop` lies before what begins at `start`, and touches it only at an allowed
address. -/
def Before (allowed : Nat → Prop) (stop start : Nat) : Prop :=
  stop < start ∨ stop = start ∧ allowed stop

/-- The chunks lie one after the other, and touch only at allowed addresses. -/
def TouchOnlyAt (allowed : Nat → Prop) (chunks : List Chunk) : Prop :=
  chunks.Pairwise fun chunk later => Before allowed chunk.stop later.start

/-- The chunks lie one after the other, and there is a gap after each. -/
def Separated (chunks : List Chunk) : Prop :=
  chunks.Pairwise fun chunk later => chunk.stop < later.start

/-- The chunk has bytes, and all of them are in the address space. -/
structure Proper (chunk : Chunk) : Prop where
  nonempty : 0 < chunk.data.size
  inside : chunk.stop ≤ AddressSpace.size

section Before

variable {allowed : Nat → Prop} {chunks : List Chunk}

theorem Before.le {stop start : Nat} (hbefore : Before allowed stop start) : stop ≤ start := by
  cases hbefore with
  | inl hlt => exact Nat.le_of_lt hlt
  | inr htouch => exact Nat.le_of_eq htouch.1

theorem Before.mono {stop start stop' start' : Nat} (hbefore : Before allowed stop start)
    (hstop : stop' ≤ stop) (hstart : start ≤ start') : Before allowed stop' start' := by
  rcases Nat.lt_or_ge stop' start' with hlt | hge
  · exact .inl hlt
  · have hle := hbefore.le
    have hsame : stop' = stop := by omega
    have htouch : stop = start := by omega
    cases hbefore with
    | inl hlt => omega
    | inr hallowed => exact .inr ⟨by omega, hsame ▸ hallowed.2⟩

theorem TouchOnlyAt.ordered (htouch : TouchOnlyAt allowed chunks) : Ordered chunks :=
  htouch.imp Before.le

theorem touchOnlyAt_never_iff :
    TouchOnlyAt (fun _ => False) chunks ↔ Separated chunks := by
  simp only [TouchOnlyAt, Before, and_false, or_false, Separated]

end Before

/-! ## Writing -/

section Join

variable {touched : List Chunk} {start : Nat} {bytes : ByteArray}

variable (touched start bytes) in
/-- The joined chunk begins with the written bytes or with a chunk that they touch. -/
theorem start_join_cases :
    (join touched start bytes).start = start ∨
      ∃ chunk ∈ touched, (join touched start bytes).start = chunk.start := by
  unfold join
  split
  · next first last hfirst hlast =>
      rcases Nat.le_total first.start start with hle | hle
      · exact .inr ⟨first, List.mem_of_head? hfirst, Nat.min_eq_left hle⟩
      · exact .inl (Nat.min_eq_right hle)
  · exact .inl rfl

/-- The joined chunk ends with the written bytes or with a chunk that they touch. -/
theorem stop_join_cases (htouched : ∀ chunk ∈ touched,
      start ≤ chunk.stop ∧ chunk.start ≤ start + bytes.size) :
    (join touched start bytes).stop = start + bytes.size ∨
      ∃ chunk ∈ touched, (join touched start bytes).stop = chunk.stop := by
  cases hfirst : touched.head? with
  | none =>
      obtain rfl := List.head?_eq_none_iff.mp hfirst
      exact .inl rfl
  | some first =>
      have hmemFirst : first ∈ touched := List.mem_of_head? hfirst
      obtain ⟨last, hlast⟩ : ∃ last, touched.getLast? = some last :=
        ⟨_, List.getLast?_eq_some_getLast (List.ne_nil_of_mem hmemFirst)⟩
      have hmemLast : last ∈ touched := List.mem_of_getLast? hlast
      have hstop := stop_join hfirst hlast (htouched first hmemFirst).1 (htouched last hmemLast).2
      rcases Nat.le_total (start + bytes.size) last.stop with hle | hle
      · exact .inr ⟨last, hmemLast, hstop.trans (Nat.max_eq_right hle)⟩
      · exact .inl (hstop.trans (Nat.max_eq_left hle))

theorem size_le_size_join : bytes.size ≤ (join touched start bytes).data.size := by
  unfold join
  split
  · simp only [ByteArray.size_append]
    omega
  · exact Nat.le_refl _

end Join

variable {allowed : Nat → Prop} {chunks : List Chunk}

/-- Writing makes no two chunks touch that did not. -/
theorem touchOnlyAt_write (htouch : TouchOnlyAt allowed chunks) (start : Nat)
    (bytes : ByteArray) : TouchOnlyAt allowed (write chunks start bytes) := by
  by_cases hbytes : bytes.size = 0
  · rw [write, if_pos hbytes]
    exact htouch
  · obtain ⟨before, touched, after, rfl, hwrite, hbefore, htouched, hafter⟩ :=
      exists_write_eq htouch.ordered start hbytes
    obtain ⟨htouchBefore, htouchRest, hcross⟩ := List.pairwise_append.mp htouch
    obtain ⟨_, htouchAfter, hcrossRest⟩ := List.pairwise_append.mp htouchRest
    rw [hwrite]
    -- The ends of the joined chunk are those of the bytes, from which there are gaps, or of chunks
    -- that were there before.
    refine List.pairwise_append.mpr ⟨htouchBefore, List.pairwise_cons.mpr ⟨?_, htouchAfter⟩, ?_⟩
    · intro chunk hmem
      rcases stop_join_cases htouched with hstop | ⟨joined, hjoined, hstop⟩
      · rw [hstop]
        exact .inl (hafter chunk hmem)
      · rw [hstop]
        exact hcrossRest joined hjoined chunk hmem
    · intro chunk hmem other hother
      rcases List.mem_cons.mp hother with rfl | hother
      · rcases start_join_cases touched start bytes with hstart | ⟨joined, hjoined, hstart⟩
        · rw [hstart]
          exact .inl (hbefore chunk hmem)
        · rw [hstart]
          exact hcross chunk hmem joined (List.mem_append_left _ hjoined)
      · exact hcross chunk hmem other (List.mem_append_right _ hother)

/-- A chunk after a write was there before, or joins the bytes to the chunks that they touch. -/
theorem mem_write_cases (hordered : Ordered chunks) {start : Nat} {bytes : ByteArray}
    {chunk : Chunk} (hmem : chunk ∈ write chunks start bytes) :
    chunk ∈ chunks ∨ 0 < bytes.size ∧ ∃ touched ⊆ chunks,
      (∀ joined ∈ touched, start ≤ joined.stop ∧ joined.start ≤ start + bytes.size) ∧
      chunk = join touched start bytes := by
  by_cases hbytes : bytes.size = 0
  · rw [write, if_pos hbytes] at hmem
    exact .inl hmem
  · obtain ⟨before, touched, after, rfl, hwrite, -, htouched, -⟩ :=
      exists_write_eq hordered start hbytes
    rw [hwrite, List.mem_append, List.mem_cons] at hmem
    rcases hmem with hmem | hjoin | hmem
    · exact .inl (List.mem_append_left _ hmem)
    · refine .inr ⟨Nat.pos_of_ne_zero hbytes, touched, fun joined hjoined => ?_, htouched, hjoin⟩
      exact List.mem_append_right _ (List.mem_append_left _ hjoined)
    · exact .inl (List.mem_append_right _ (List.mem_append_right _ hmem))

theorem proper_write (hordered : Ordered chunks) (hproper : ∀ chunk ∈ chunks, chunk.Proper)
    {start : Nat} {bytes : ByteArray} (hinside : start + bytes.size ≤ AddressSpace.size) :
    ∀ chunk ∈ write chunks start bytes, chunk.Proper := by
  intro chunk hmem
  rcases mem_write_cases hordered hmem with hmem | ⟨hbytes, touched, hsubset, htouched, rfl⟩
  · exact hproper chunk hmem
  · constructor
    · exact Nat.lt_of_lt_of_le hbytes size_le_size_join
    · apply stop_join_le htouched hinside
      intro joined hjoined
      exact (hproper joined (hsubset hjoined)).inside

/-! ## Clearing -/

section Clear

variable {start stop : Nat} {chunk : Chunk}

/-- The part of a chunk before an address inside it. -/
theorem stop_front (hstart : chunk.start ≤ start) (hstop : start ≤ chunk.stop) :
    (⟨chunk.start, chunk.data.extract 0 (start - chunk.start)⟩ : Chunk).stop = start := by
  simp only [Chunk.stop, ByteArray.size_extract] at *
  omega

/-- A range inside a chunk leaves what is before and after it. -/
theorem without_of_inside (hle : start ≤ stop) (hstart : chunk.start < start)
    (hstop : stop < chunk.stop) :
    chunk.without start stop =
      [⟨chunk.start, chunk.data.extract 0 (start - chunk.start)⟩,
        ⟨stop, chunk.data.extract (stop - chunk.start) chunk.data.size⟩] := by
  rw [without, if_neg (by omega), if_pos hstart, if_pos hstop]
  rfl

/-- A range that reaches over an end of a chunk leaves one part of it at most. -/
theorem length_without_le (hreaches : start ≤ chunk.start ∨ chunk.stop ≤ stop) :
    (chunk.without start stop).length ≤ 1 := by
  unfold without
  split
  · exact Nat.le_refl 1
  · cases hreaches with
    | inl hstart =>
        rw [if_neg (Nat.not_lt.mpr hstart)]
        split <;> simp
    | inr hstop =>
        rw [if_neg (Nat.not_lt.mpr hstop)]
        split <;> simp

/-- The parts that are left of a chunk touch only if nothing was dropped between them. -/
theorem touchOnlyAt_without (hle : start ≤ stop)
    (hcut : start = stop → chunk.start < start → start < chunk.stop → allowed start) :
    TouchOnlyAt allowed (chunk.without start stop) := by
  by_cases hinside : chunk.start < start ∧ stop < chunk.stop
  · obtain ⟨hstart, hstop⟩ := hinside
    rw [without_of_inside hle hstart hstop]
    apply List.pairwise_pair.mpr
    rw [stop_front (Nat.le_of_lt hstart) (Nat.le_of_lt (Nat.lt_of_le_of_lt hle hstop))]
    rcases Nat.lt_or_eq_of_le hle with hlt | heq
    · exact .inl hlt
    · exact .inr ⟨heq, hcut heq hstart (heq ▸ hstop)⟩
  · have hlength : (chunk.without start stop).length ≤ 1 := length_without_le (by omega)
    match chunk.without start stop, hlength with
    | [], _ => exact List.Pairwise.nil
    | [part], _ => exact List.pairwise_singleton _ _

theorem proper_without (hproper : chunk.Proper) {part : Chunk}
    (hpart : part ∈ chunk.without start stop) : part.Proper := by
  refine ⟨?_, Nat.le_trans (without_between hpart).2 hproper.inside⟩
  have hsize := hproper.nonempty
  unfold without at hpart
  split at hpart
  · obtain rfl := List.mem_singleton.mp hpart
    exact hsize
  · simp only [List.mem_append, List.mem_ite_nil_right, List.mem_singleton] at hpart
    rcases hpart with ⟨_, rfl⟩ | ⟨_, rfl⟩
    · simp only [Chunk.stop, ByteArray.size_extract] at *
      omega
    · simp only [Chunk.stop, ByteArray.size_extract] at *
      omega

/-- Clearing makes chunks touch only if it drops nothing from the middle of one. -/
theorem touchOnlyAt_clear (hle : start ≤ stop) (htouch : TouchOnlyAt allowed chunks)
    (hcut : start = stop → ∀ chunk ∈ chunks, chunk.start < start → start < chunk.stop →
      allowed start) :
    TouchOnlyAt allowed (clear chunks start stop) := by
  refine List.pairwise_flatMap.mpr ⟨?_, ?_⟩
  · intro chunk hmem
    exact touchOnlyAt_without hle fun heq => hcut heq chunk hmem
  · refine htouch.imp ?_
    intro chunk later hbefore part hpart other hother
    exact hbefore.mono (without_between hpart).2 (without_between hother).1

/-- There are gaps between the chunks after clearing exactly if no chunk was cut in two with
nothing dropped. -/
theorem separated_clear_iff (hle : start ≤ stop) (hseparated : Separated chunks) :
    Separated (clear chunks start stop) ↔
      ¬ (start = stop ∧ ∃ chunk ∈ chunks, chunk.start < start ∧ start < chunk.stop) := by
  constructor
  · rintro hafter ⟨rfl, chunk, hmem, hstart, hstop⟩
    have hparts := (List.pairwise_flatMap.mp hafter).1 chunk hmem
    rw [without_of_inside hle hstart hstop, List.pairwise_pair,
      stop_front (Nat.le_of_lt hstart) (Nat.le_of_lt hstop)] at hparts
    exact Nat.lt_irrefl start hparts
  · intro huncut
    rw [← touchOnlyAt_never_iff] at hseparated ⊢
    apply touchOnlyAt_clear hle hseparated
    intro heq chunk hmem hstart hstop
    exact huncut ⟨heq, chunk, hmem, hstart, hstop⟩

end Clear

end Chunk

/-! ## Operations on a memory -/

namespace SparseMemory

/-- The operation drops no pages, at a page that begins inside a chunk. -/
def Operation.Cuts (memory : SparseMemory) : Operation → Prop
  | .setPages first count mode =>
    mode.keepsContents = false ∧ count = 0 ∧
      ∃ chunk ∈ memory.chunks,
        chunk.start < first.toNat * pageSize ∧ first.toNat * pageSize < chunk.stop
  | .offered _ => False

/-- The chunks of the memory are in order, not empty and in the address space, and where two of
them touch a page begins. -/
structure Orderly (memory : SparseMemory) : Prop where
  touch : Chunk.TouchOnlyAt (pageSize ∣ ·) memory.chunks
  proper : ∀ chunk ∈ memory.chunks, chunk.Proper

variable {memory : SparseMemory}

/-- A write stores its bytes, no more than the address space has, or leaves the chunks alone. -/
theorem chunks_write_cases (memory : SparseMemory) (address : UInt32) (bytes : ByteArray) :
    (memory.write address bytes).2.chunks = memory.chunks ∨
      bytes.size ≤ AddressSpace.size ∧
        (memory.write address bytes).2.chunks = store memory.chunks address bytes := by
  unfold write
  split
  · exact .inl rfl
  · next map hcheck =>
      dsimp only
      refine .inr ⟨?_, rfl⟩
      rw [PageMap.checkRange] at hcheck
      split at hcheck
      · cases hcheck
      · next hsize => exact Nat.not_lt.mp hsize

theorem chunks_readInto (memory : SparseMemory) (address : UInt32) (buffer : ByteArray) :
    (memory.readInto address buffer).memory.chunks = memory.chunks := by
  unfold readInto
  split <;> rfl

theorem chunks_read (memory : SparseMemory) (address : UInt32) (length : UInt64) :
    (Memory.read memory address length).2.chunks = memory.chunks := by
  have hcheck : (Memory.check memory .read address length).2.chunks = memory.chunks := rfl
  unfold Memory.read
  split
  · next fault after hchecked =>
      rw [hchecked] at hcheck
      exact hcheck
  · next allowed after hchecked =>
      rw [hchecked] at hcheck
      exact (after.chunks_readInto address _).trans hcheck

theorem chunks_grow (memory : SparseMemory) (increment : UInt32) :
    (memory.grow increment).2.chunks = memory.chunks := by
  unfold grow
  split
  · rfl
  · dsimp only
    split <;> rfl

/-- Whatever every memory offers stores bytes, no more than the address space has, or leaves the
chunks alone. -/
theorem chunks_perform_cases (memory : SparseMemory) (operation : Memory.Operation) :
    (operation.perform memory).2.chunks = memory.chunks ∨
      ∃ address bytes, bytes.size ≤ AddressSpace.size ∧
        (operation.perform memory).2.chunks = store memory.chunks address bytes := by
  cases operation with
  | write address bytes =>
      exact (memory.chunks_write_cases address bytes).imp_right fun hstored =>
        ⟨address, bytes, hstored⟩
  | readInto address buffer => exact .inl (memory.chunks_readInto address buffer)
  | read address length => exact .inl (memory.chunks_read address length)
  | grow increment => exact .inl (memory.chunks_grow increment)

theorem chunks_setPages (memory : SparseMemory) (first count : Nat) (mode : PageMode) :
    (memory.setPages first count mode).chunks =
      if mode.keepsContents then memory.chunks
      else Chunk.clear memory.chunks (first * pageSize) ((first + count) * pageSize) := rfl

theorem touchOnlyAt_store {allowed : Nat → Prop} {chunks : List Chunk}
    (htouch : Chunk.TouchOnlyAt allowed chunks) (address : UInt32) (bytes : ByteArray) :
    Chunk.TouchOnlyAt allowed (store chunks address bytes) :=
  Chunk.touchOnlyAt_write (Chunk.touchOnlyAt_write htouch _ _) _ _

theorem proper_store {chunks : List Chunk} (hordered : Chunk.Ordered chunks)
    (hproper : ∀ chunk ∈ chunks, chunk.Proper) (address : UInt32) {bytes : ByteArray}
    (hsize : bytes.size ≤ AddressSpace.size) :
    ∀ chunk ∈ store chunks address bytes, chunk.Proper := by
  have haddress : address.toNat < AddressSpace.size := address.toNat_lt
  apply Chunk.proper_write (Chunk.ordered_write hordered _ _)
  · apply Chunk.proper_write hordered hproper
    rw [ByteArray.size_extract, beforeTop]
    omega
  · rw [ByteArray.size_extract]
    omega

/-- One operation keeps the chunks of a memory in order. -/
theorem Orderly.perform (horderly : memory.Orderly) (operation : Operation) :
    (operation.perform memory).2.Orderly := by
  cases operation with
  | offered operation =>
      show (operation.perform memory).2.Orderly
      rcases memory.chunks_perform_cases operation with hsame | ⟨address, bytes, hsize, hstored⟩
      · exact ⟨hsame ▸ horderly.touch, hsame ▸ horderly.proper⟩
      · constructor
        · rw [hstored]
          exact touchOnlyAt_store horderly.touch address bytes
        · rw [hstored]
          exact proper_store horderly.touch.ordered horderly.proper address hsize
  | setPages first count mode =>
      show (memory.setPages first.toNat count.toNat mode).Orderly
      have hchunks := memory.chunks_setPages first.toNat count.toNat mode
      split at hchunks
      · exact ⟨hchunks ▸ horderly.touch, hchunks ▸ horderly.proper⟩
      · constructor
        · rw [hchunks]
          apply Chunk.touchOnlyAt_clear (Nat.mul_le_mul_right _ (Nat.le_add_right _ _))
            horderly.touch
          intro _ _ _ _ _
          exact Nat.dvd_mul_left _ _
        · rw [hchunks]
          intro part hpart
          obtain ⟨chunk, hmem, hpart⟩ := List.mem_flatMap.mp hpart
          exact Chunk.proper_without (horderly.proper chunk hmem) hpart

/-- One operation closes a gap between chunks exactly if it cuts one. -/
theorem separated_perform_iff (hseparated : Chunk.Separated memory.chunks)
    (operation : Operation) :
    Chunk.Separated (operation.perform memory).2.chunks ↔ ¬ operation.Cuts memory := by
  cases operation with
  | offered operation =>
      refine ⟨fun _ => id, fun _ => ?_⟩
      show Chunk.Separated (operation.perform memory).2.chunks
      rcases memory.chunks_perform_cases operation with hsame | ⟨address, bytes, -, hstored⟩
      · exact hsame ▸ hseparated
      · rw [← Chunk.touchOnlyAt_never_iff] at hseparated ⊢
        rw [hstored]
        exact touchOnlyAt_store hseparated address bytes
  | setPages first count mode =>
      show Chunk.Separated (memory.setPages first.toNat count.toNat mode).chunks ↔ _
      rw [chunks_setPages]
      cases hkeeps : mode.keepsContents with
      | true => simpa [Operation.Cuts, hkeeps] using hseparated
      | false =>
          have hempty : first.toNat * pageSize = (first.toNat + count.toNat) * pageSize ↔
              count = 0 := by
            rw [← UInt32.toNat_inj, UInt32.toNat_zero, pageSize]
            omega
          rw [if_neg Bool.false_ne_true, Chunk.separated_clear_iff
            (Nat.mul_le_mul_right _ (Nat.le_add_right _ _)) hseparated, hempty]
          simp only [Operation.Cuts, hkeeps, true_and]

/-! ## Histories -/

theorem performAll_append (memory : SparseMemory) (earlier : List Operation)
    (operation : Operation) :
    memory.performAll (earlier ++ [operation]) =
      (operation.perform (memory.performAll earlier)).2 := by
  rw [performAll, List.foldl_append]
  rfl

theorem Orderly.performAll (horderly : memory.Orderly) (operations : List Operation) :
    (memory.performAll operations).Orderly := by
  induction operations generalizing memory with
  | nil => exact horderly
  | cons operation rest ih => exact ih (horderly.perform operation)

theorem orderly_of_no_chunks (map : PageMap) : Orderly ⟨map, []⟩ where
  touch := List.Pairwise.nil
  proper := by simp

/-- Wherever operations lead from a memory in which nothing was written, its chunks are in order,
not empty and in the address space, they do not overlap, and they touch only where a page
begins.  There were gaps between them all along exactly if no operation cut one. -/
theorem chunks_separated_iff_never_cut (map : PageMap) (operations : List Operation) :
    (performAll ⟨map, []⟩ operations).Orderly ∧
    ((∀ earlier later, operations = earlier ++ later →
        Chunk.Separated (performAll ⟨map, []⟩ earlier).chunks) ↔
      ∀ earlier operation later, operations = earlier ++ operation :: later →
        ¬ operation.Cuts (performAll ⟨map, []⟩ earlier)) := by
  refine ⟨(orderly_of_no_chunks map).performAll operations, ?_, ?_⟩
  · intro hseparated earlier operation later hoperations
    have hbefore := hseparated earlier (operation :: later) hoperations
    have hafter := hseparated (earlier ++ [operation]) later (by simp [hoperations])
    rw [performAll_append] at hafter
    exact (separated_perform_iff hbefore operation).mp hafter
  · intro huncut earlier
    -- By induction on the operations so far, the last one split off.
    induction earlier using List.reverseRecOn with
    | nil =>
        intro _ _
        exact List.Pairwise.nil
    | append_singleton earlier operation ih =>
        intro later hoperations
        rw [List.append_assoc, List.singleton_append] at hoperations
        have hbefore := ih (operation :: later) hoperations
        rw [performAll_append]
        exact (separated_perform_iff hbefore operation).mpr
          (huncut earlier operation later hoperations)

/-- Two pages are mapped and two bytes written over the border between them; then no pages are
dropped from the border on. -/
def cutHistory : List Operation :=
  [.setPages 16 2 .zeroReadWrite, .offered (.write 0x10FFF [1, 2].toByteArray),
    .setPages 17 0 .zeroReadWrite]

/-- The two bytes end up in two chunks that touch. -/
theorem cutHistory_makes_chunks_touch :
    (performAll (empty PageMap.defaultCapacity) cutHistory).chunks =
        [⟨0x10FFF, [1].toByteArray⟩, ⟨0x11000, [2].toByteArray⟩] ∧
      ¬ Chunk.Separated (performAll (empty PageMap.defaultCapacity) cutHistory).chunks := by
  have hchunks : (performAll (empty PageMap.defaultCapacity) cutHistory).chunks =
      [⟨0x10FFF, [1].toByteArray⟩, ⟨0x11000, [2].toByteArray⟩] := by cbv
  refine ⟨hchunks, ?_⟩
  rw [hchunks, Chunk.Separated, List.pairwise_pair]
  decide

theorem cutHistory_touches_by_its_cut :
    (performAll (empty PageMap.defaultCapacity) cutHistory).Orderly ∧
      Operation.Cuts (performAll (empty PageMap.defaultCapacity) (cutHistory.take 2))
        (.setPages 17 0 .zeroReadWrite) ∧
      ¬ ∀ earlier later, cutHistory = earlier ++ later →
        Chunk.Separated (performAll (empty PageMap.defaultCapacity) earlier).chunks := by
  obtain ⟨horderly, hseparated⟩ :=
    chunks_separated_iff_never_cut (.empty PageMap.defaultCapacity) cutHistory
  have hchunks : (performAll (empty PageMap.defaultCapacity) (cutHistory.take 2)).chunks =
      [⟨0x10FFF, [1, 2].toByteArray⟩] := by cbv
  have hcuts : Operation.Cuts (performAll (empty PageMap.defaultCapacity) (cutHistory.take 2))
      (.setPages 17 0 .zeroReadWrite) := by
    refine ⟨rfl, rfl, ⟨0x10FFF, [1, 2].toByteArray⟩, ?_, by decide, by decide⟩
    rw [hchunks]
    exact List.mem_singleton_self _
  refine ⟨horderly, hcuts, fun hall => ?_⟩
  exact hseparated.mp hall (cutHistory.take 2) _ [] rfl hcuts

end SparseMemory

end GasMachine
