import Mathlib
import GasMachine.Proofs.Instruction.Encoding
import GasMachine.Proofs.Program.Boundaries

/-!
# Instructions tile the code

The listing of a program's instructions is a walk in steps of one instruction
with its operand bytes.  Each step is as long as the clear bits of the mask, the
limit on operand bytes and the end of the code leave it, so the listed
instructions cut the code into pieces with nothing left over.  Blocks start at
both ends of the code and after the pieces whose first byte ends a block.
-/

namespace GasMachine

namespace CodeImage

/-- The operand bytes end in front of the first marked position, and no later than
the limit or the code. -/
theorem isLeast_skip (image : CodeImage) {pc : Nat} (hpc : pc < image.code.size) :
    IsLeast {count | count = Bitmask.maxSkip ∨ pc + 1 + count = image.code.size ∨
      Bitmask.isSet image.bitmask (pc + 1 + count) = true} (image.skip pc) := by
  have hlimit := Bitmask.skip_le_maxSkip image.bitmask pc
  constructor
  · obtain ⟨-, hstop⟩ := Bitmask.skip_spec image.bitmask pc
    rcases Nat.le_total (Bitmask.skip image.bitmask pc) (image.code.size - (pc + 1)) with
      hmask | hend
    · rw [skip, Nat.min_eq_left hmask]
      rcases Nat.lt_or_eq_of_le hlimit with hless | heq
      · exact Or.inr (Or.inr (hstop hless))
      · exact Or.inl heq
    · rw [skip, Nat.min_eq_right hend]
      exact Or.inr (Or.inl (Nat.add_sub_cancel' hpc))
  · rintro count (rfl | hend | hset)
    · exact Nat.le_trans (Nat.min_le_left _ _) hlimit
    · refine Nat.le_trans (Nat.min_le_right _ _) (Nat.sub_le_iff_le_add'.mpr ?_)
      exact Nat.le_of_eq hend.symm
    · exact Nat.le_trans (Nat.min_le_left _ _) (Bitmask.skip_le hset)

/-- The offsets of the walk from `pc` on, as long as it is inside the code. -/
def walkFrom (image : CodeImage) (pc : Nat) : List Nat :=
  if pc < image.code.size then pc :: image.walkFrom (image.next pc) else []
termination_by image.code.size - pc
decreasing_by
  have := image.lt_next pc
  omega

theorem walkFrom_of_lt {image : CodeImage} {pc : Nat} (hpc : pc < image.code.size) :
    image.walkFrom pc = pc :: image.walkFrom (image.next pc) := by
  rw [walkFrom, if_pos hpc]

theorem walkFrom_of_size_le {image : CodeImage} {pc : Nat} (hpc : image.code.size ≤ pc) :
    image.walkFrom pc = [] := by
  rw [walkFrom, if_neg (Nat.not_lt.mpr hpc)]

theorem toList_offsetsFrom (image : CodeImage) (pc : Nat) (found : Array Nat) :
    (image.offsetsFrom pc found).toList = found.toList ++ image.walkFrom pc := by
  induction pc, found using offsetsFrom.induct image with
  | case1 pc found hpc ih =>
      rw [offsetsFrom, if_pos hpc, ih, walkFrom_of_lt hpc, Array.toList_push,
        List.append_assoc, List.singleton_append]
  | case2 pc found hpc =>
      rw [offsetsFrom, if_neg hpc, walkFrom_of_size_le (Nat.not_lt.mp hpc), List.append_nil]

theorem isChain_walkFrom (image : CodeImage) (pc : Nat) :
    (image.walkFrom pc).IsChain fun earlier later => later = image.next earlier := by
  induction pc using walkFrom.induct image with
  | case1 pc hpc ih =>
      rw [walkFrom_of_lt hpc]
      rcases Nat.lt_or_ge (image.next pc) image.code.size with hnext | hnext
      · rw [walkFrom_of_lt hnext] at ih ⊢
        exact List.isChain_cons_cons.mpr ⟨rfl, ih⟩
      · rw [walkFrom_of_size_le hnext]
        exact List.isChain_singleton _
  | case2 pc hpc =>
      rw [walkFrom_of_size_le (Nat.not_lt.mp hpc)]
      exact List.isChain_nil

/-- The positions of the bytes of the instruction at `pc`, its operands included. -/
def extent (image : CodeImage) (pc : Nat) : List Nat :=
  List.range' pc (image.skip pc + 1)

/-- The instructions of a walk take every byte from its start to the end of the
code, one after the other. -/
theorem flatMap_extent_walkFrom (image : CodeImage) {pc : Nat} (hpc : pc ≤ image.code.size) :
    (image.walkFrom pc).flatMap image.extent = List.range' pc (image.code.size - pc) := by
  induction pc using walkFrom.induct image with
  | case1 pc hinside ih =>
      have hnext := image.next_le_size hinside
      have hlength : image.code.size - pc =
          (image.skip pc + 1) + (image.code.size - image.next pc) := by
        rw [next] at hnext ⊢
        omega
      calc (image.walkFrom pc).flatMap image.extent
        _ = image.extent pc ++ (image.walkFrom (image.next pc)).flatMap image.extent := by
            rw [walkFrom_of_lt hinside, List.flatMap_cons]
        _ = List.range' pc (image.skip pc + 1) ++
              List.range' (pc + (image.skip pc + 1)) (image.code.size - image.next pc) := by
            rw [ih hnext]
            rfl
        _ = List.range' pc (image.code.size - pc) := by
            rw [hlength, List.range'_append_1]
  | case2 pc hpast =>
      have hend := Nat.not_lt.mp hpast
      rw [walkFrom_of_size_le hend, Nat.sub_eq_zero_of_le hend]
      rfl

/-- A byte that is no opcode ends no block. -/
theorem endsBlockAt_iff (image : CodeImage) {pc : Nat} (hpc : pc < image.code.size) :
    image.endsBlockAt pc = true ↔
      ∃ opcode : Opcode, opcode.byte = image.code[pc] ∧ opcode.endsBlock = true := by
  rw [endsBlockAt, dif_pos hpc]
  cases hfound : Opcode.ofByte? image.code[pc] with
  | none =>
      simp only [Bool.false_eq_true, false_iff, not_exists, not_and]
      intro opcode hbyte
      rw [Opcode.ofByte?_eq_some_iff.mpr hbyte] at hfound
      cases hfound
  | some opcode =>
      have hbyte := Opcode.ofByte?_eq_some_iff.mp hfound
      constructor
      · intro hends
        exact ⟨opcode, hbyte, hends⟩
      · rintro ⟨other, hother, hends⟩
        rwa [Opcode.byte_injective (hbyte.trans hother.symm)]

end CodeImage

namespace Program

def listedOffsets (program : Program) : List Nat :=
  program.instructions.toList.map Prod.fst

theorem listedOffsets_eq (program : Program) :
    program.listedOffsets = program.image.walkFrom 0 := by
  rw [listedOffsets, instructions, Array.toList_map, List.map_map]
  simpa [CodeImage.offsets, Function.comp_def] using
    program.image.toList_offsetsFrom 0 #[]

theorem mem_listedOffsets_iff (program : Program) (offset : Nat) :
    offset ∈ program.listedOffsets ↔
      program.image.Meets 0 offset ∧ offset < program.image.code.size := by
  rw [listedOffsets_eq, ← CodeImage.mem_offsets_iff, CodeImage.offsets, ← Array.mem_toList_iff,
    CodeImage.toList_offsetsFrom]
  simp

/-- Blocks start at both ends of the code and after the listed instructions whose
opcode ends one. -/
theorem mem_blockStarts_iff_listed (program : Program) (offset : Nat) :
    offset ∈ program.blockStarts ↔
      offset = 0 ∨ offset = program.image.code.size ∨
        ∃ pc ∈ program.listedOffsets, ∃ opcode : Opcode,
          program.image.code[pc]? = some opcode.byte ∧ opcode.endsBlock = true ∧
            offset = pc + program.image.skip pc + 1 := by
  rw [mem_blockStarts_iff]
  refine or_congr_right (or_congr_right ?_)
  constructor
  · rintro ⟨last, hmeets, hlast, hends, rfl⟩
    obtain ⟨opcode, hbyte, hterminates⟩ := (program.image.endsBlockAt_iff hlast).mp hends
    refine ⟨last, (program.mem_listedOffsets_iff last).mpr ⟨hmeets, hlast⟩, opcode, ?_,
      hterminates, rfl⟩
    rw [hbyte, getElem?_pos program.image.code last hlast]
  · rintro ⟨pc, hlisted, opcode, hbyte, hterminates, rfl⟩
    obtain ⟨hmeets, hpc⟩ := (program.mem_listedOffsets_iff pc).mp hlisted
    rw [getElem?_pos program.image.code pc hpc, Option.some.injEq] at hbyte
    exact ⟨pc, hmeets, hpc,
      (program.image.endsBlockAt_iff hpc).mpr ⟨opcode, hbyte.symm, hterminates⟩, rfl⟩

/-- The instructions of a program that was read from a blob lie in its code one
after the other, from the first byte to the last.  Each has the operand bytes up to
the next marked position, the limit on their number or the end of the code, and a
machine moves from each to the next without wrapping.  The listed opcodes decide
where blocks start. -/
theorem listed_instructions_tile_code {blob : ByteArray} {program : Program}
    (hparse : parse blob = .ok program) :
    (0 < program.image.code.size → program.listedOffsets.head? = some 0) ∧
      (program.listedOffsets.IsChain fun pc later =>
        later = pc + program.image.skip pc + 1) ∧
      program.listedOffsets.flatMap program.image.extent =
        List.range program.image.code.size ∧
      (∀ pc ∈ program.listedOffsets,
        IsLeast {count | count = 24 ∨ pc + 1 + count = program.image.code.size ∨
          Bitmask.isSet program.image.bitmask (pc + 1 + count) = true}
          (program.image.skip pc)) ∧
      (∀ pc : UInt32, pc.toNat ∈ program.listedOffsets →
        (program.skip pc).toNat = program.image.skip pc.toNat ∧
          (program.following pc).toNat = pc.toNat + program.image.skip pc.toNat + 1) ∧
      ∀ offset, offset ∈ program.blockStarts ↔
        offset = 0 ∨ offset = program.image.code.size ∨
          ∃ pc ∈ program.listedOffsets, ∃ opcode : Opcode,
            program.image.code[pc]? = some opcode.byte ∧ opcode.endsBlock = true ∧
              offset = pc + program.image.skip pc + 1 := by
  have hinside {pc : Nat} (hlisted : pc ∈ program.listedOffsets) :
      pc < program.image.code.size :=
    ((program.mem_listedOffsets_iff pc).mp hlisted).2
  refine ⟨?_, ?_, ?_, ?_, ?_, program.mem_blockStarts_iff_listed⟩
  · intro hsize
    rw [listedOffsets_eq, CodeImage.walkFrom_of_lt hsize, List.head?_cons]
  · rw [listedOffsets_eq]
    exact program.image.isChain_walkFrom 0
  · rw [listedOffsets_eq, CodeImage.flatMap_extent_walkFrom _ (Nat.zero_le _), Nat.sub_zero,
      List.range_eq_range']
  · intro pc hlisted
    exact program.image.isLeast_skip (hinside hlisted)
  · intro pc hlisted
    exact ⟨program.toNat_skip pc, toNat_following (size_code_le_of_parse hparse) (hinside hlisted)⟩

/-- Thirty bytes of code with a mark at the first only: a fallthrough with as many
operand bytes as there may be, then a byte that is no opcode. -/
def cappedImage : CodeImage where
  jumpTable := .empty
  entryCount := 0
  entryWidth := 0
  code := ⟨#[1] ++ Array.replicate 24 7 ++ #[2] ++ Array.replicate 4 7⟩
  bitmask := ⟨#[1, 0, 0, 0]⟩

def cappedProgram : Program :=
  .ofImage cappedImage

theorem cappedProgram_tiles_code :
    parse cappedProgram.encode = .ok cappedProgram ∧
      cappedProgram.listedOffsets = [0, 25] ∧
      cappedProgram.listedOffsets.flatMap cappedProgram.image.extent = List.range 30 ∧
      25 ∈ cappedProgram.blockStarts := by
  have hparse : parse cappedProgram.encode = .ok cappedProgram := by cbv
  have hlisted : cappedProgram.listedOffsets = [0, 25] := by cbv
  obtain ⟨-, -, htiles, -, -, hblocks⟩ := listed_instructions_tile_code hparse
  refine ⟨hparse, hlisted, htiles, (hblocks 25).mpr (Or.inr (Or.inr ⟨0, ?_, .fallthrough, ?_⟩))⟩
  · rw [hlisted]
    exact List.mem_cons_self
  · decide +kernel

end Program

end GasMachine
