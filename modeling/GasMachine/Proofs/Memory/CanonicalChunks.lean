import Mathlib
import GasMachine.Proofs.Memory.ChunkSeparation

/-!
# Chunks as a normal form

Chunks that are not empty and have gaps between them are the only such chunks that
hold what they hold: each is a longest run of held addresses.  Writing overwrites
what is held and keeps this form.  So the chunks do not tell in which order, or
in how many pieces, their bytes were written.
-/

namespace GasMachine.Chunk

open Bytes

/-- The chunks are in order, none is empty, and there is a gap after each. -/
structure Canonical (chunks : List Chunk) : Prop where
  separated : Separated chunks
  nonempty : ∀ chunk ∈ chunks, 0 < chunk.data.size

namespace Canonical

variable {chunk : Chunk} {chunks rest : List Chunk}

theorem ordered (hcanonical : Canonical chunks) : Ordered chunks :=
  hcanonical.separated.imp Nat.le_of_lt

theorem tail (hcanonical : Canonical (chunk :: rest)) : Canonical rest where
  separated := hcanonical.separated.tail
  nonempty other hother := hcanonical.nonempty other (List.mem_cons_of_mem _ hother)

theorem start_lt_stop (hcanonical : Canonical (chunk :: rest)) : chunk.start < chunk.stop :=
  Nat.lt_add_of_pos_right (hcanonical.nonempty chunk List.mem_cons_self)

/-! ## What is held decides about the chunks -/

/-- The chunks after the first hold nothing up to its end, and what all of them hold from there
on. -/
theorem held?_tail (hcanonical : Canonical (chunk :: rest)) (address : Nat) :
    held? rest address = if address ≤ chunk.stop then none else held? (chunk :: rest) address := by
  split
  · next hle =>
      apply List.findSome?_eq_none_iff.mpr
      intro later hlater
      have hgap := (List.pairwise_cons.mp hcanonical.separated).1 later hlater
      exact byte?_of_lt_start (Nat.lt_of_le_of_lt hle hgap)
  · next hlt => rw [held?_cons, byte?_of_stop_le (by omega), Option.none_or]

/-- Up to the gap after it, what is held is what the first chunk holds. -/
theorem held?_of_le_stop (hcanonical : Canonical (chunk :: rest)) {address : Nat}
    (hle : address ≤ chunk.stop) : held? (chunk :: rest) address = chunk.byte? address := by
  rw [held?_cons, hcanonical.held?_tail, if_pos hle, Option.or_none]

theorem isLeast_start (hcanonical : Canonical (chunk :: rest)) :
    IsLeast {address | held? (chunk :: rest) address ≠ none} chunk.start := by
  have hbyte := byte?_of_mem (Nat.le_refl chunk.start) hcanonical.start_lt_stop
  refine ⟨?_, fun address hheld => Nat.le_of_not_lt fun hlt => hheld ?_⟩
  · rw [Set.mem_ofPred_eq, hcanonical.held?_of_le_stop chunk.start_le_stop, hbyte]
    exact Option.some_ne_none _
  · rw [hcanonical.held?_of_le_stop (hlt.le.trans chunk.start_le_stop), byte?_of_lt_start hlt]

theorem isLeast_stop (hcanonical : Canonical (chunk :: rest)) :
    IsLeast {address | chunk.start ≤ address ∧ held? (chunk :: rest) address = none}
      chunk.stop := by
  refine ⟨⟨chunk.start_le_stop, ?_⟩, fun address ⟨hstart, hnone⟩ => Nat.le_of_not_lt fun hlt => ?_⟩
  · rw [hcanonical.held?_of_le_stop (Nat.le_refl _), byte?_of_stop_le (Nat.le_refl _)]
  · rw [hcanonical.held?_of_le_stop hlt.le, byte?_of_mem hstart hlt] at hnone
    cases hnone

theorem held?_ne_none (hcanonical : Canonical (chunk :: rest)) :
    held? (chunk :: rest) ≠ held? [] := fun hsame =>
  hcanonical.isLeast_start.1 (congrFun hsame chunk.start)

/-- The first chunk follows from what is held. -/
theorem head_eq {other : Chunk} {others : List Chunk} (hcanonical : Canonical (chunk :: rest))
    (hother : Canonical (other :: others))
    (hsame : held? (chunk :: rest) = held? (other :: others)) : chunk = other := by
  have hstart : chunk.start = other.start :=
    hcanonical.isLeast_start.unique (hsame ▸ hother.isLeast_start)
  have hstop : chunk.stop = other.stop :=
    hcanonical.isLeast_stop.unique (hsame ▸ hstart ▸ hother.isLeast_stop)
  have hsize : chunk.data.size = other.data.size := by
    unfold stop at hstop
    omega
  have hdata : chunk.data = other.data := by
    apply ext_byteAt hsize
    intro index hindex
    have hinside : chunk.start + index < chunk.stop := Nat.add_lt_add_left hindex _
    have hbyte := congrFun hsame (chunk.start + index)
    rw [hcanonical.held?_of_le_stop hinside.le, hother.held?_of_le_stop (hstop ▸ hinside.le),
      byte?_of_mem (Nat.le_add_right _ _) hinside,
      byte?_of_mem (hstart ▸ Nat.le_add_right _ _) (hstop ▸ hinside), ← hstart,
      Nat.add_sub_cancel_left] at hbyte
    exact Option.some.inj hbyte
  cases chunk
  cases other
  cases hstart
  cases hdata
  rfl

/-- Canonical chunks that hold the same are the same. -/
theorem eq_of_held?_eq {left right : List Chunk} (hleft : Canonical left)
    (hright : Canonical right) (hsame : held? left = held? right) : left = right := by
  induction left generalizing right with
  | nil =>
      cases right with
      | nil => rfl
      | cons other others => exact absurd hsame.symm hright.held?_ne_none
  | cons chunk rest ih =>
      cases right with
      | nil => exact absurd hsame hleft.held?_ne_none
      | cons other others =>
          obtain rfl := hleft.head_eq hright hsame
          have hrest : held? rest = held? others := by
            funext address
            rw [hleft.held?_tail, hright.held?_tail, hsame]
          rw [ih hleft.tail hright.tail hrest]

/-! ## Writing -/

/-- Writing keeps the form. -/
theorem write (hcanonical : Canonical chunks) (start : Nat) (bytes : ByteArray) :
    Canonical (write chunks start bytes) where
  separated :=
    touchOnlyAt_never_iff.mp
      (touchOnlyAt_write (touchOnlyAt_never_iff.mpr hcanonical.separated) start bytes)
  nonempty chunk hmem := by
    rcases mem_write_cases hcanonical.ordered hmem with hmem | ⟨hbytes, touched, -, -, rfl⟩
    · exact hcanonical.nonempty chunk hmem
    · exact Nat.lt_of_lt_of_le hbytes size_le_size_join

end Canonical

/-- What is held after the bytes of a piece are put over what was held before. -/
def overwrite (held : Nat → Option UInt8) (piece : Chunk) : Nat → Option UInt8 := fun address =>
  (piece.byte? address).or (held address)

/-- Writing puts the bytes over what is held. -/
theorem held?_write_eq_overwrite {chunks : List Chunk} (hordered : Ordered chunks) (start : Nat)
    (bytes : ByteArray) :
    held? (write chunks start bytes) = overwrite (held? chunks) ⟨start, bytes⟩ := by
  funext address
  rw [held?_write hordered, overwrite, byte?_mk]
  split <;> rfl

def writeAll (chunks pieces : List Chunk) : List Chunk :=
  pieces.foldl (fun chunks piece => write chunks piece.start piece.data) chunks

/-- Writing one piece after the other keeps the form and puts one after the other over what is
held. -/
theorem Canonical.writeAll {chunks : List Chunk} (hcanonical : Canonical chunks)
    (pieces : List Chunk) :
    Canonical (writeAll chunks pieces) ∧
      held? (writeAll chunks pieces) = pieces.foldl overwrite (held? chunks) := by
  induction pieces generalizing chunks with
  | nil => exact ⟨hcanonical, rfl⟩
  | cons piece rest ih =>
      rw [List.foldl_cons, ← held?_write_eq_overwrite hcanonical.ordered]
      exact ih (hcanonical.write piece.start piece.data)

/-! ## The order of the pieces -/

def Apart (left right : Chunk) : Prop :=
  ∀ address, left.byte? address = none ∨ right.byte? address = none

def Commutes (left right : Chunk) : Prop :=
  ∀ held, overwrite (overwrite held left) right = overwrite (overwrite held right) left

instance : Std.Symm Commutes := ⟨fun _ _ hcomm held => (hcomm held).symm⟩

theorem Apart.commutes {left right : Chunk} (hapart : Apart left right) :
    Commutes left right := by
  intro held
  funext address
  unfold overwrite
  rcases hapart address with hnone | hnone
  · rw [hnone, Option.none_or, Option.none_or]
  · rw [hnone, Option.none_or, Option.none_or]

theorem foldl_overwrite_of_perm {pieces others : List Chunk} (hapart : pieces.Pairwise Apart)
    (hperm : pieces.Perm others) (held : Nat → Option UInt8) :
    pieces.foldl overwrite held = others.foldl overwrite held := by
  have hcommutes : pieces.Pairwise Commutes := hapart.imp Apart.commutes
  apply hperm.foldl_eq'
  intro left hleft right hright
  exact hcommutes.forall_of_forall (fun _ _ _ => rfl) hleft hright

/-- Writing to canonical chunks gives canonical chunks again, which hold what was held before with
the written bytes over it and nothing else.  Such chunks are determined by what they hold.  So two
sequences of writes that lead to the same bytes, from wherever they start, lead to the same chunks,
and the order of writes that do not overlap makes no difference. -/
theorem writes_are_canonical_overwrites {chunks : List Chunk} (hcanonical : Canonical chunks) :
    (∀ start bytes, Canonical (write chunks start bytes) ∧
      held? (write chunks start bytes) = overwrite (held? chunks) ⟨start, bytes⟩) ∧
    (∀ other, Canonical other → held? other = held? chunks → other = chunks) ∧
    (∀ other, Canonical other → ∀ pieces others,
      pieces.foldl overwrite (held? chunks) = others.foldl overwrite (held? other) →
        writeAll chunks pieces = writeAll other others) ∧
    ∀ pieces others, pieces.Pairwise Apart → pieces.Perm others →
      writeAll chunks pieces = writeAll chunks others := by
  have hsequences : ∀ other, Canonical other → ∀ pieces others,
      pieces.foldl overwrite (held? chunks) = others.foldl overwrite (held? other) →
        writeAll chunks pieces = writeAll other others := by
    intro other hother pieces others hsame
    obtain ⟨hleft, hheldLeft⟩ := hcanonical.writeAll pieces
    obtain ⟨hright, hheldRight⟩ := hother.writeAll others
    exact hleft.eq_of_held?_eq hright (hheldLeft.trans (hsame.trans hheldRight.symm))
  refine ⟨fun start bytes => ⟨hcanonical.write start bytes, ?_⟩, ?_, hsequences, ?_⟩
  · exact held?_write_eq_overwrite hcanonical.ordered start bytes
  · exact fun other hother hsame => hother.eq_of_held?_eq hcanonical hsame
  · intro pieces others hapart hperm
    exact hsequences chunks hcanonical pieces others (foldl_overwrite_of_perm hapart hperm _)

/-- Two chunks with a gap of four bytes between them. -/
def gapped : List Chunk := [⟨0, [1, 1].toByteArray⟩, ⟨6, [2, 2].toByteArray⟩]

/-- The gap is filled from both sides, in either order. -/
theorem gap_filled_in_any_order :
    writeAll gapped [⟨2, [3, 3].toByteArray⟩, ⟨4, [4, 4].toByteArray⟩] =
        [⟨0, [1, 1, 3, 3, 4, 4, 2, 2].toByteArray⟩] ∧
      writeAll gapped [⟨4, [4, 4].toByteArray⟩, ⟨2, [3, 3].toByteArray⟩] =
        [⟨0, [1, 1, 3, 3, 4, 4, 2, 2].toByteArray⟩] := by
  have hcanonical : Canonical gapped := ⟨by unfold Separated gapped; decide, by decide⟩
  have hapart : Apart ⟨2, [3, 3].toByteArray⟩ ⟨4, [4, 4].toByteArray⟩ := by
    intro address
    rcases Nat.lt_or_ge address 4 with hlt | hge
    · exact Or.inr (byte?_of_lt_start hlt)
    · exact Or.inl (byte?_of_stop_le hge)
  obtain ⟨-, -, -, horder⟩ := writes_are_canonical_overwrites hcanonical
  have hsame := horder _ _ (List.pairwise_pair.mpr hapart) (List.Perm.swap _ _ _)
  have hfilled : writeAll gapped [⟨2, [3, 3].toByteArray⟩, ⟨4, [4, 4].toByteArray⟩] =
      [⟨0, [1, 1, 3, 3, 4, 4, 2, 2].toByteArray⟩] := by cbv
  exact ⟨hfilled, hsame ▸ hfilled⟩

end GasMachine.Chunk
