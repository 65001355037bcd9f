import GasMachine.Memory.Chunk
import GasMachine.Proofs.Bytes.ByteAt

/-!
# What a list of chunks holds

A list of chunks stands for the bytes at some addresses.  As long as its chunks
lie one after the other, writing and clearing change exactly the bytes of their
range, keep the chunks in order, and reading shows the bytes that are held, with
zeros between.
-/

namespace GasMachine.Chunk

open Bytes

def byte? (chunk : Chunk) (address : Nat) : Option UInt8 :=
  if chunk.start ≤ address ∧ address < chunk.stop then
    some (byteAt chunk.data (address - chunk.start))
  else none

/-- The byte that is held at an address by the first chunk that has it. -/
def held? (chunks : List Chunk) (address : Nat) : Option UInt8 :=
  chunks.findSome? fun chunk => chunk.byte? address

def Ordered (chunks : List Chunk) : Prop :=
  chunks.Pairwise fun chunk later => chunk.stop ≤ later.start

theorem start_le_stop (chunk : Chunk) : chunk.start ≤ chunk.stop :=
  Nat.le_add_right _ _

theorem byte?_eq_some_iff {chunk : Chunk} {address : Nat} {byte : UInt8} :
    chunk.byte? address = some byte ↔
      chunk.start ≤ address ∧ address < chunk.stop ∧
        byteAt chunk.data (address - chunk.start) = byte := by
  unfold byte?
  split
  · next hinside => simp [hinside]
  · next houtside =>
      constructor
      · intro himpossible
        cases himpossible
      · rintro ⟨hstart, hstop, _⟩
        exact absurd ⟨hstart, hstop⟩ houtside

theorem byte?_of_mem {chunk : Chunk} {address : Nat} (hstart : chunk.start ≤ address)
    (hstop : address < chunk.stop) :
    chunk.byte? address = some (byteAt chunk.data (address - chunk.start)) := by
  rw [byte?, if_pos ⟨hstart, hstop⟩]

theorem byte?_of_lt_start {chunk : Chunk} {address : Nat} (hlt : address < chunk.start) :
    chunk.byte? address = none := by
  rw [byte?, if_neg (by omega)]

theorem byte?_of_stop_le {chunk : Chunk} {address : Nat} (hle : chunk.stop ≤ address) :
    chunk.byte? address = none := by
  rw [byte?, if_neg (by omega)]

theorem held?_cons (chunk : Chunk) (rest : List Chunk) (address : Nat) :
    held? (chunk :: rest) address = (chunk.byte? address).or (held? rest address) := by
  rw [held?, List.findSome?_cons]
  cases chunk.byte? address <;> rfl

/-- What an ordered list holds is what one of its chunks holds. -/
theorem held?_eq_some_iff {chunks : List Chunk} (hordered : Ordered chunks) {address : Nat}
    {byte : UInt8} :
    held? chunks address = some byte ↔ ∃ chunk ∈ chunks, chunk.byte? address = some byte := by
  induction chunks with
  | nil => simp [held?]
  | cons chunk rest ih =>
      obtain ⟨hafter, hrest⟩ := List.pairwise_cons.mp hordered
      rw [held?_cons]
      cases hbyte : chunk.byte? address with
      | none => simp [hbyte, ih hrest]
      | some found =>
          -- The chunk has the byte, so none that comes after it has one.
          obtain ⟨_, hstop, _⟩ := byte?_eq_some_iff.mp hbyte
          rw [Option.some_or]
          constructor
          · intro hfound
            exact ⟨chunk, List.mem_cons_self, hbyte.trans hfound⟩
          · rintro ⟨other, hmem, hother⟩
            rcases List.mem_cons.mp hmem with rfl | hmem
            · exact hbyte.symm.trans hother
            · have hstart := hafter other hmem
              rw [byte?_of_lt_start (by omega)] at hother
              cases hother

/-! ## Parts of a chunk -/

theorem byte?_mk (start : Nat) (data : ByteArray) (address : Nat) :
    byte? ⟨start, data⟩ address =
      if start ≤ address ∧ address < start + data.size then
        some (byteAt data (address - start))
      else none := rfl

theorem byte?_append (start : Nat) (left right : ByteArray) (address : Nat) :
    byte? ⟨start, left ++ right⟩ address =
      if address < start + left.size then byte? ⟨start, left⟩ address
      else byte? ⟨start + left.size, right⟩ address := by
  simp only [byte?_mk, ByteArray.size_append, byteAt_append]
  grind

/-- The front of a chunk has its bytes below the bound. -/
theorem byte?_front (chunk : Chunk) (bound address : Nat) :
    byte? ⟨chunk.start, chunk.data.extract 0 (bound - chunk.start)⟩ address =
      if address < bound then chunk.byte? address else none := by
  obtain ⟨start, data⟩ := chunk
  simp only [byte?_mk, ByteArray.size_extract, byteAt_extract]
  grind

/-- The back of a chunk has its bytes from the bound on. -/
theorem byte?_back (chunk : Chunk) {bound : Nat} (hbound : chunk.start ≤ bound)
    (address : Nat) :
    byte? ⟨bound, chunk.data.extract (bound - chunk.start) chunk.data.size⟩ address =
      if bound ≤ address then chunk.byte? address else none := by
  obtain ⟨start, data⟩ := chunk
  simp only [byte?_mk, ByteArray.size_extract, byteAt_extract]
  grind

/-! ## Joining chunks -/

section Join

variable {touched : List Chunk} {start : Nat} {bytes : ByteArray}

theorem join_eq {first last : Chunk} (hfirst : touched.head? = some first)
    (hlast : touched.getLast? = some last) :
    join touched start bytes =
      { start := min first.start start
        data := first.data.extract 0 (start - first.start) ++ bytes
          ++ last.data.extract (start + bytes.size - last.start) last.data.size } := by
  simp only [join, hfirst, hlast]

section Ends

variable {first last : Chunk}

/-- The bytes before the written ones reach up to them. -/
theorem min_add_size_front (hstop : start ≤ first.stop) :
    min first.start start + (first.data.extract 0 (start - first.start)).size = start := by
  unfold stop at hstop
  rw [ByteArray.size_extract]
  omega

variable (hfirst : touched.head? = some first) (hlast : touched.getLast? = some last)
variable (hstop : start ≤ first.stop) (hstart : last.start ≤ start + bytes.size)
include hfirst hlast hstop hstart

theorem stop_join : (join touched start bytes).stop = max (start + bytes.size) last.stop := by
  have hfront := min_add_size_front hstop
  rw [join_eq hfirst hlast]
  simp only [stop, ByteArray.size_append, ByteArray.size_extract] at hfront ⊢
  omega

/-- The joined chunk has the written bytes, before them what the first touched
chunk has, and after them what the last one has. -/
theorem byte?_join_of_ends (address : Nat) :
    (join touched start bytes).byte? address =
      if start ≤ address ∧ address < start + bytes.size then
        some (byteAt bytes (address - start))
      else if address < start then first.byte? address
      else last.byte? address := by
  have hfront := min_add_size_front hstop
  have hmiddle : min first.start start +
      (first.data.extract 0 (start - first.start) ++ bytes).size = start + bytes.size := by
    rw [ByteArray.size_append, ← Nat.add_assoc, hfront]
  rw [join_eq hfirst hlast, byte?_append, byte?_append, hmiddle, hfront]
  by_cases hbefore : address < start
  · have hrange : ¬ (start ≤ address ∧ address < start + bytes.size) := by omega
    rw [if_pos (by omega), if_pos hbefore, if_neg hrange, if_pos hbefore]
    by_cases hfirstStart : first.start ≤ start
    · rw [Nat.min_eq_left hfirstStart, byte?_front, if_pos hbefore]
    · rw [Nat.min_eq_right (by omega), byte?_of_lt_start hbefore, byte?_of_lt_start (by omega)]
  · by_cases hinside : address < start + bytes.size
    · rw [if_pos hinside, if_neg hbefore, if_pos ⟨Nat.not_lt.mp hbefore, hinside⟩,
        byte?_of_mem (Nat.not_lt.mp hbefore) hinside]
    · have hrange : ¬ (start ≤ address ∧ address < start + bytes.size) := by omega
      rw [if_neg hinside, if_neg hrange, if_neg hbefore, byte?_back last hstart,
        if_pos (Nat.not_lt.mp hinside)]

end Ends

variable (hordered : Ordered touched)
variable (htouched : ∀ chunk ∈ touched,
  start ≤ chunk.stop ∧ chunk.start ≤ start + bytes.size)
include hordered htouched

/-- Outside the written bytes the joined chunk has what the touched ones had. -/
theorem byte?_join_eq_some_iff (address : Nat) (byte : UInt8) :
    (join touched start bytes).byte? address = some byte ↔
      if start ≤ address ∧ address < start + bytes.size then
        byteAt bytes (address - start) = byte
      else ∃ chunk ∈ touched, chunk.byte? address = some byte := by
  cases hfirst : touched.head? with
  | none =>
      obtain rfl := List.head?_eq_none_iff.mp hfirst
      simp [join, byte?_mk]
  | some first =>
      obtain ⟨rest, rfl⟩ : ∃ rest, touched = first :: rest := List.head?_eq_some_iff.mp hfirst
      obtain ⟨last, hlast⟩ : ∃ last, (first :: rest).getLast? = some last :=
        ⟨_, List.getLast?_eq_some_getLast (List.cons_ne_nil _ _)⟩
      obtain ⟨init, hinit⟩ := List.getLast?_eq_some_iff.mp hlast
      have hmemLast : last ∈ first :: rest := List.mem_of_getLast? hlast
      have hstop := (htouched first List.mem_cons_self).1
      have hstart := (htouched last hmemLast).2
      rw [byte?_join_of_ends hfirst hlast hstop hstart]
      by_cases hrange : start ≤ address ∧ address < start + bytes.size
      · rw [if_pos hrange, if_pos hrange, Option.some_inj]
      · rw [if_neg hrange, if_neg hrange]
        by_cases hbefore : address < start
        · rw [if_pos hbefore]
          constructor
          · intro hbyte
            exact ⟨first, List.mem_cons_self, hbyte⟩
          · rintro ⟨chunk, hmem, hbyte⟩
            rcases List.mem_cons.mp hmem with rfl | hmem
            · exact hbyte
            · -- Only the first touched chunk begins before the written bytes.
              have hlater := (List.pairwise_cons.mp hordered).1 chunk hmem
              rw [byte?_of_lt_start (by omega)] at hbyte
              cases hbyte
        · rw [if_neg hbefore]
          constructor
          · intro hbyte
            exact ⟨last, hmemLast, hbyte⟩
          · rintro ⟨chunk, hmem, hbyte⟩
            rw [hinit] at hmem hordered
            rcases List.mem_append.mp hmem with hmem | hmem
            · -- Only the last touched chunk ends after the written bytes.
              have hearlier := (List.pairwise_append.mp hordered).2.2 chunk hmem last
                (List.mem_singleton.mpr rfl)
              rw [byte?_of_stop_le (by omega)] at hbyte
              cases hbyte
            · obtain rfl := List.mem_singleton.mp hmem
              exact hbyte

omit hordered htouched in
theorem le_start_join {bound : Nat} (hbound : bound ≤ start)
    (hbounds : ∀ chunk ∈ touched, bound ≤ chunk.start) :
    bound ≤ (join touched start bytes).start := by
  unfold join
  split
  · next first last hfirst hlast =>
      exact Nat.le_min.mpr ⟨hbounds first (List.mem_of_head? hfirst), hbound⟩
  · exact hbound

omit hordered in
theorem stop_join_le {bound : Nat} (hbound : start + bytes.size ≤ bound)
    (hbounds : ∀ chunk ∈ touched, chunk.stop ≤ bound) :
    (join touched start bytes).stop ≤ bound := by
  cases hfirst : touched.head? with
  | none =>
      obtain rfl := List.head?_eq_none_iff.mp hfirst
      exact hbound
  | some first =>
      have hmemFirst : first ∈ touched := List.mem_of_head? hfirst
      obtain ⟨last, hlast⟩ : ∃ last, touched.getLast? = some last :=
        ⟨_, List.getLast?_eq_some_getLast (List.ne_nil_of_mem hmemFirst)⟩
      have hmemLast : last ∈ touched := List.mem_of_getLast? hlast
      rw [stop_join hfirst hlast (htouched first hmemFirst).1 (htouched last hmemLast).2]
      exact Nat.max_le.mpr ⟨hbound, hbounds last hmemLast⟩

end Join

/-! ## Writing -/

/-- What an antitone test drops from the front of an ordered list is all that it
accepts. -/
theorem eq_false_of_mem_dropWhile {p : Chunk → Bool}
    (hp : ∀ chunk later : Chunk, chunk.stop ≤ later.start →
      p later = true → p chunk = true)
    {chunks : List Chunk} (hordered : Ordered chunks) :
    ∀ chunk ∈ chunks.dropWhile p, p chunk = false := by
  induction chunks with
  | nil => simp
  | cons head rest ih =>
      obtain ⟨hafter, hrest⟩ := List.pairwise_cons.mp hordered
      rw [List.dropWhile_cons]
      split
      · exact ih hrest
      · next hhead =>
          intro chunk hmem
          rcases List.mem_cons.mp hmem with rfl | hmem
          · simpa using hhead
          · cases hchunk : p chunk with
            | false => rfl
            | true => exact absurd (hp head chunk (hafter chunk hmem) hchunk) hhead

variable {chunks : List Chunk}

/-- A write replaces the chunks that its range touches by one chunk. -/
theorem exists_write_eq (hordered : Ordered chunks) (start : Nat) {bytes : ByteArray}
    (hbytes : bytes.size ≠ 0) :
    ∃ before touched after, chunks = before ++ (touched ++ after) ∧
      write chunks start bytes = before ++ join touched start bytes :: after ∧
      (∀ chunk ∈ before, chunk.stop < start) ∧
      (∀ chunk ∈ touched, start ≤ chunk.stop ∧ chunk.start ≤ start + bytes.size) ∧
      ∀ chunk ∈ after, start + bytes.size < chunk.start := by
  have hsplit := List.takeWhile_append_dropWhile (p := fun chunk : Chunk =>
    decide (chunk.stop < start)) (l := chunks)
  have hrest := List.takeWhile_append_dropWhile (p := fun chunk : Chunk =>
    decide (chunk.start ≤ start + bytes.size))
    (l := chunks.dropWhile fun chunk => decide (chunk.stop < start))
  have horderedRest : Ordered (chunks.dropWhile fun chunk => decide (chunk.stop < start)) :=
    hordered.sublist (List.dropWhile_sublist _)
  refine ⟨_, _, _, (congrArg _ hrest).trans hsplit |>.symm, ?_, ?_, ?_, ?_⟩
  · rw [write, if_neg hbytes]
  · intro chunk hmem
    exact of_decide_eq_true (List.all_eq_true.mp List.all_takeWhile chunk hmem)
  · intro chunk hmem
    have hmemRest := (List.takeWhile_sublist _).subset hmem
    have hstop := eq_false_of_mem_dropWhile (p := fun chunk => decide (chunk.stop < start))
      (fun chunk later hle hlater => by
        have := later.start_le_stop
        simp only [decide_eq_true_eq] at hlater ⊢
        omega) hordered chunk hmemRest
    exact ⟨Nat.not_lt.mp (of_decide_eq_false hstop),
      of_decide_eq_true (List.all_eq_true.mp List.all_takeWhile chunk hmem)⟩
  · intro chunk hmem
    have hstart := eq_false_of_mem_dropWhile
      (p := fun chunk => decide (chunk.start ≤ start + bytes.size))
      (fun chunk later hle hlater => by
        have := chunk.start_le_stop
        simp only [decide_eq_true_eq] at hlater ⊢
        omega) horderedRest chunk hmem
    exact Nat.not_le.mp (of_decide_eq_false hstart)

/-- Writing keeps the chunks in order. -/
theorem ordered_write (hordered : Ordered chunks) (start : Nat) (bytes : ByteArray) :
    Ordered (write chunks start bytes) := by
  by_cases hbytes : bytes.size = 0
  · rw [write, if_pos hbytes]
    exact hordered
  · obtain ⟨before, touched, after, rfl, hwrite, hbefore, htouched, hafter⟩ :=
      exists_write_eq hordered start hbytes
    obtain ⟨horderedBefore, horderedRest, hcross⟩ := List.pairwise_append.mp hordered
    obtain ⟨_, horderedAfter, hcrossRest⟩ := List.pairwise_append.mp horderedRest
    rw [hwrite]
    refine List.pairwise_append.mpr ⟨horderedBefore, List.pairwise_cons.mpr ⟨?_, horderedAfter⟩, ?_⟩
    · intro chunk hmem
      apply stop_join_le htouched (Nat.le_of_lt (hafter chunk hmem))
      intro joined hjoined
      exact hcrossRest joined hjoined chunk hmem
    · intro chunk hmem other hother
      rcases List.mem_cons.mp hother with rfl | hother
      · apply le_start_join (Nat.le_of_lt (hbefore chunk hmem))
        intro joined hjoined
        exact hcross chunk hmem joined (List.mem_append_left _ hjoined)
      · exact hcross chunk hmem other (List.mem_append_right _ hother)

/-- Writing changes the bytes of its range and no others. -/
theorem held?_write (hordered : Ordered chunks) (start : Nat) (bytes : ByteArray)
    (address : Nat) :
    held? (write chunks start bytes) address =
      if start ≤ address ∧ address < start + bytes.size then
        some (byteAt bytes (address - start))
      else held? chunks address := by
  by_cases hbytes : bytes.size = 0
  · have hrange : ¬ (start ≤ address ∧ address < start + bytes.size) := by omega
    rw [write, if_pos hbytes, if_neg hrange]
  · have horderedWrite := ordered_write hordered start bytes
    obtain ⟨before, touched, after, rfl, hwrite, hbefore, htouched, hafter⟩ :=
      exists_write_eq hordered start hbytes
    have horderedTouched : Ordered touched :=
      (List.pairwise_append.mp (List.pairwise_append.mp hordered).2.1).1
    apply Option.ext
    intro byte
    rw [held?_eq_some_iff horderedWrite, hwrite]
    simp only [List.mem_append, List.mem_cons, or_and_right, exists_or, exists_eq_left,
      byte?_join_eq_some_iff horderedTouched htouched]
    by_cases hrange : start ≤ address ∧ address < start + bytes.size
    · -- No chunk beside the joined one reaches into the written range.
      have hnotBefore : ¬ ∃ chunk, chunk ∈ before ∧ chunk.byte? address = some byte := by
        rintro ⟨chunk, hmem, hbyte⟩
        have hstop := hbefore chunk hmem
        rw [byte?_of_stop_le (by omega)] at hbyte
        cases hbyte
      have hnotAfter : ¬ ∃ chunk, chunk ∈ after ∧ chunk.byte? address = some byte := by
        rintro ⟨chunk, hmem, hbyte⟩
        have hstart := hafter chunk hmem
        rw [byte?_of_lt_start (by omega)] at hbyte
        cases hbyte
      simp only [hnotBefore, hnotAfter, if_pos hrange, false_or, or_false, Option.some_inj]
    · simp only [if_neg hrange]
      rw [held?_eq_some_iff hordered]
      simp only [List.mem_append, or_and_right, exists_or]

/-! ## Clearing -/

section Clear

variable {start stop : Nat} (hle : start ≤ stop)
include hle

/-- What is left of a chunk has its bytes outside the cleared range. -/
theorem byte?_without_eq_some_iff (chunk : Chunk) (address : Nat) (byte : UInt8) :
    (∃ part ∈ chunk.without start stop, part.byte? address = some byte) ↔
      ¬ (start ≤ address ∧ address < stop) ∧ chunk.byte? address = some byte := by
  unfold without
  split
  · next hapart =>
      simp only [List.mem_singleton, exists_eq_left, byte?_eq_some_iff]
      grind
  · next hmeets =>
      have hstart : chunk.start ≤ stop := by omega
      simp only [List.mem_append, List.mem_ite_nil_right, List.mem_singleton, or_and_right,
        and_assoc, exists_or, exists_and_left, exists_eq_left, byte?_front,
        byte?_back chunk hstart]
      grind [byte?_eq_some_iff]

omit hle in
/-- What is left of a chunk lies within it. -/
theorem without_between {chunk part : Chunk} (hpart : part ∈ chunk.without start stop) :
    chunk.start ≤ part.start ∧ part.stop ≤ chunk.stop := by
  unfold without at hpart
  split at hpart
  · obtain rfl := List.mem_singleton.mp hpart
    exact ⟨Nat.le_refl _, Nat.le_refl _⟩
  · next hmeets =>
      simp only [List.mem_append, List.mem_ite_nil_right, List.mem_singleton] at hpart
      rcases hpart with ⟨_, rfl⟩ | ⟨_, rfl⟩
      · simp only [Chunk.stop, ByteArray.size_extract] at *
        omega
      · simp only [Chunk.stop, ByteArray.size_extract] at *
        omega

theorem ordered_without (chunk : Chunk) : Ordered (chunk.without start stop) := by
  unfold without
  split
  · exact List.pairwise_singleton _ _
  · next hmeets =>
      unfold Ordered
      split <;> split <;> simp [Chunk.stop, ByteArray.size_extract]
      omega

/-- Clearing keeps the chunks in order. -/
theorem ordered_clear (hordered : Ordered chunks) : Ordered (clear chunks start stop) := by
  refine List.pairwise_flatMap.mpr ⟨fun chunk _ => ordered_without hle chunk, ?_⟩
  refine hordered.imp ?_
  intro chunk later hbefore part hpart other hother
  have hfirst := without_between hpart
  have hsecond := without_between hother
  omega

/-- Clearing drops the bytes of its range and no others. -/
theorem held?_clear (hordered : Ordered chunks) (address : Nat) :
    held? (clear chunks start stop) address =
      if start ≤ address ∧ address < stop then none else held? chunks address := by
  have hclear : ∀ byte, held? (clear chunks start stop) address = some byte ↔
      ¬ (start ≤ address ∧ address < stop) ∧ held? chunks address = some byte := by
    intro byte
    rw [held?_eq_some_iff (ordered_clear hle hordered), held?_eq_some_iff hordered]
    simp only [clear, List.mem_flatMap]
    constructor
    · rintro ⟨part, ⟨chunk, hmem, hpart⟩, hbyte⟩
      obtain ⟨houtside, hchunk⟩ :=
        (byte?_without_eq_some_iff hle chunk address byte).mp ⟨part, hpart, hbyte⟩
      exact ⟨houtside, chunk, hmem, hchunk⟩
    · rintro ⟨houtside, chunk, hmem, hchunk⟩
      obtain ⟨part, hpart, hbyte⟩ :=
        (byte?_without_eq_some_iff hle chunk address byte).mpr ⟨houtside, hchunk⟩
      exact ⟨part, ⟨chunk, hmem, hpart⟩, hbyte⟩
  apply Option.ext
  intro byte
  rw [hclear]
  by_cases hrange : start ≤ address ∧ address < stop
  · simp [hrange]
  · simp only [hrange, not_false_eq_true, true_and, if_false]

end Clear

/-! ## Reading -/

theorem size_overlay (start : Nat) (buffer : ByteArray) (chunk : Chunk) :
    (overlay start buffer chunk).size = buffer.size := by
  unfold overlay stop
  dsimp only
  split
  · exact size_copySlice (by omega) (by omega)
  · rfl

/-- A buffer shows the bytes of a chunk that is laid over it. -/
theorem byteAt_overlay (start : Nat) (buffer : ByteArray) (chunk : Chunk) {index : Nat}
    (hindex : index < buffer.size) :
    byteAt (overlay start buffer chunk) index =
      (chunk.byte? (start + index)).getD (byteAt buffer index) := by
  unfold overlay
  dsimp only
  split
  · next hmeets =>
      have hstop : chunk.start + chunk.data.size = chunk.stop := rfl
      rw [byteAt_copySlice (by omega) (by omega)]
      by_cases hinside : chunk.start ≤ start + index ∧ start + index < chunk.stop
      · have hposition : max start chunk.start - chunk.start +
            (index - (max start chunk.start - start)) = start + index - chunk.start := by
          omega
        rw [byte?_of_mem hinside.1 hinside.2, if_pos (by omega), hposition, Option.getD_some]
      · rw [byte?, if_neg hinside, if_neg (by omega), Option.getD_none]
  · next hapart =>
      have hnone : chunk.byte? (start + index) = none := by
        rw [byte?, if_neg (by omega)]
      rw [hnone, Option.getD_none]

/-- A read shows what the chunks hold, over what the buffer held. -/
theorem byteAt_foldl_overlay (hordered : Ordered chunks) (start : Nat) (buffer : ByteArray)
    {index : Nat} (hindex : index < buffer.size) :
    byteAt (chunks.foldl (overlay start) buffer) index =
      (held? chunks (start + index)).getD (byteAt buffer index) := by
  induction chunks generalizing buffer with
  | nil => rfl
  | cons chunk rest ih =>
      obtain ⟨hafter, hrest⟩ := List.pairwise_cons.mp hordered
      rw [List.foldl_cons, ih hrest _ (by rw [size_overlay]; exact hindex),
        byteAt_overlay start buffer chunk hindex, held?_cons]
      cases hbyte : chunk.byte? (start + index) with
      | none => rfl
      | some byte =>
          -- No later chunk has a byte here that could cover this one.
          have hnone : held? rest (start + index) = none := by
            obtain ⟨_, hstop, _⟩ := byte?_eq_some_iff.mp hbyte
            apply List.findSome?_eq_none_iff.mpr
            intro later hlater
            have hstart := hafter later hlater
            exact byte?_of_lt_start (by omega)
          rw [hnone]
          rfl

theorem size_read (chunks : List Chunk) (start count : Nat) :
    (read chunks start count).size = count := by
  have hsize : ∀ buffer : ByteArray,
      (chunks.foldl (overlay start) buffer).size = buffer.size := by
    induction chunks with
    | nil => exact fun _ => rfl
    | cons chunk rest ih =>
        intro buffer
        rw [List.foldl_cons, ih, size_overlay]
  rw [read, hsize, size_zeros]

/-- A read shows what the chunks hold, and zeros where they hold nothing. -/
theorem byteAt_read (hordered : Ordered chunks) (start : Nat) {count index : Nat}
    (hindex : index < count) :
    byteAt (read chunks start count) index = (held? chunks (start + index)).getD 0 := by
  rw [read, byteAt_foldl_overlay hordered start _ (by rw [size_zeros]; exact hindex),
    byteAt_zeros]

end GasMachine.Chunk
