import Mathlib.Logic.Relation
import GasMachine.Proofs.Program.BlobLimits
import GasMachine.Proofs.Program.InstructionStarts

/-!
# Instruction boundaries

The bitmask of a program is not trusted: it may disagree with the opcodes.
What counts as an instruction is therefore decided by the walk from offset zero
alone.  This module says which offsets the walk meets, and that the listing of
the instructions and the marks of the block starts record exactly those.
-/

namespace GasMachine

namespace CodeImage

/-- One step of the walk: from an offset inside the code to the one after its
instruction. -/
def Follows (image : CodeImage) (pc later : Nat) : Prop :=
  pc < image.code.size ∧ later = image.next pc

/-- The walk that starts at `pc` comes to `later`. -/
def Meets (image : CodeImage) : Nat → Nat → Prop :=
  Relation.ReflTransGen image.Follows

theorem Meets.next {image : CodeImage} {start pc : Nat}
    (hmeets : image.Meets start pc) (hpc : pc < image.code.size) :
    image.Meets start (image.next pc) :=
  hmeets.tail ⟨hpc, rfl⟩

/-- The walk never runs over the end of the code. -/
theorem Meets.le_size {image : CodeImage} {start later : Nat}
    (hmeets : image.Meets start later) (hstart : start ≤ image.code.size) :
    later ≤ image.code.size := by
  induction hmeets with
  | refl => exact hstart
  | tail _ hfollows _ =>
      obtain ⟨hpc, rfl⟩ := hfollows
      exact image.next_le_size hpc

/-- The walk from inside the code either has not left its start or goes on from
the next offset. -/
theorem meets_iff_of_lt {image : CodeImage} {pc later : Nat}
    (hpc : pc < image.code.size) :
    image.Meets pc later ↔ later = pc ∨ image.Meets (image.next pc) later := by
  constructor
  · intro hmeets
    rcases Relation.ReflTransGen.cases_head hmeets with heq | ⟨middle, hfollows, hrest⟩
    · exact Or.inl heq.symm
    · obtain ⟨_, rfl⟩ := hfollows
      exact Or.inr hrest
  · rintro (rfl | hrest)
    · exact Relation.ReflTransGen.refl
    · exact Relation.ReflTransGen.head ⟨hpc, rfl⟩ hrest

/-- Nothing follows an offset past the code. -/
theorem meets_iff_of_size_le {image : CodeImage} {pc later : Nat}
    (hpc : image.code.size ≤ pc) : image.Meets pc later ↔ later = pc := by
  constructor
  · intro hmeets
    rcases Relation.ReflTransGen.cases_head hmeets with heq | ⟨middle, hfollows, _⟩
    · exact heq.symm
    · exact absurd hfollows.1 (Nat.not_lt.mpr hpc)
  · rintro rfl
    exact Relation.ReflTransGen.refl

/-- The walk always comes to the end of the code. -/
theorem meets_size (image : CodeImage) {pc : Nat} (hpc : pc ≤ image.code.size) :
    image.Meets pc image.code.size := by
  rcases Nat.lt_or_eq_of_le hpc with hlt | rfl
  · exact (meets_iff_of_lt hlt).mpr (Or.inr (image.meets_size (image.next_le_size hlt)))
  · exact Relation.ReflTransGen.refl
termination_by image.code.size - pc
decreasing_by
  have := image.lt_next pc
  omega

theorem mem_offsetsFrom (image : CodeImage) (pc : Nat) (found : Array Nat) (offset : Nat) :
    offset ∈ image.offsetsFrom pc found ↔
      offset ∈ found ∨ (image.Meets pc offset ∧ offset < image.code.size) := by
  induction pc, found using offsetsFrom.induct image with
  | case1 pc found hpc ih =>
      rw [offsetsFrom, if_pos hpc, ih, Array.mem_push, meets_iff_of_lt hpc]
      constructor
      · rintro ((hfound | rfl) | ⟨hmeets, hoffset⟩)
        · exact Or.inl hfound
        · exact Or.inr ⟨Or.inl rfl, hpc⟩
        · exact Or.inr ⟨Or.inr hmeets, hoffset⟩
      · rintro (hfound | ⟨rfl | hmeets, hoffset⟩)
        · exact Or.inl (Or.inl hfound)
        · exact Or.inl (Or.inr rfl)
        · exact Or.inr ⟨hmeets, hoffset⟩
  | case2 pc found hpc =>
      rw [offsetsFrom, if_neg hpc, meets_iff_of_size_le (Nat.not_lt.mp hpc)]
      constructor
      · exact Or.inl
      · rintro (hfound | ⟨rfl, hoffset⟩)
        · exact hfound
        · exact absurd hoffset hpc

/-- The listed offsets are those inside the code that the walk meets. -/
theorem mem_offsets_iff (image : CodeImage) (offset : Nat) :
    offset ∈ image.offsets ↔ image.Meets 0 offset ∧ offset < image.code.size := by
  simp [offsets, mem_offsetsFrom]

/-- `offset` comes right after an instruction that ends a block, on the walk from
`pc`. -/
def BlockEndsBefore (image : CodeImage) (pc offset : Nat) : Prop :=
  ∃ last, image.Meets pc last ∧ last < image.code.size ∧
    image.endsBlockAt last = true ∧ offset = image.next last

theorem blockEndsBefore_iff_of_lt {image : CodeImage} {pc offset : Nat}
    (hpc : pc < image.code.size) :
    image.BlockEndsBefore pc offset ↔
      (image.endsBlockAt pc = true ∧ offset = image.next pc) ∨
        image.BlockEndsBefore (image.next pc) offset := by
  constructor
  · rintro ⟨last, hmeets, hlast, hends, rfl⟩
    rcases (meets_iff_of_lt hpc).mp hmeets with rfl | hrest
    · exact Or.inl ⟨hends, rfl⟩
    · exact Or.inr ⟨last, hrest, hlast, hends, rfl⟩
  · rintro (⟨hends, rfl⟩ | ⟨last, hmeets, hlast, hends, rfl⟩)
    · exact ⟨pc, Relation.ReflTransGen.refl, hpc, hends, rfl⟩
    · exact ⟨last, (meets_iff_of_lt hpc).mpr (Or.inr hmeets), hlast, hends, rfl⟩

theorem BlockEndsBefore.meets {image : CodeImage} {pc offset : Nat}
    (hends : image.BlockEndsBefore pc offset) : image.Meets pc offset := by
  obtain ⟨last, hmeets, hlast, _, rfl⟩ := hends
  exact hmeets.next hlast

theorem not_blockEndsBefore_of_size_le {image : CodeImage} {pc offset : Nat}
    (hpc : image.code.size ≤ pc) : ¬ image.BlockEndsBefore pc offset := by
  rintro ⟨last, hmeets, hlast, _, _⟩
  rw [meets_iff_of_size_le hpc] at hmeets
  omega

@[simp]
theorem size_markBlocksFrom (image : CodeImage) (pc : Nat) (marks : Array Bool) :
    (image.markBlocksFrom pc marks).size = marks.size := by
  induction pc, marks using markBlocksFrom.induct image with
  | case1 pc marks hpc ih =>
      rw [markBlocksFrom, if_pos hpc]
      by_cases hends : image.endsBlockAt pc = true
      · rw [dif_pos hends] at ih
        rw [if_pos hends, ih, Array.size_setIfInBounds]
      · rw [dif_neg hends] at ih
        rw [if_neg hends, ih]
  | case2 pc marks hpc => rw [markBlocksFrom, if_neg hpc]

/-- A mark that is set shows, and no other mark changes. -/
theorem getD_setIfInBounds_true {marks : Array Bool} {position : Nat}
    (hposition : position < marks.size) (offset : Nat) :
    (marks.setIfInBounds position true).getD offset false = true ↔
      offset = position ∨ marks.getD offset false = true := by
  by_cases heq : offset = position
  · subst heq
    simp [Array.getD_eq_getD_getElem?, hposition]
  · have hne : position ≠ offset := fun h => heq h.symm
    simp [Array.getD_eq_getD_getElem?, Array.getElem?_setIfInBounds_ne hne, heq]

theorem getD_markBlocksFrom (image : CodeImage) (pc : Nat) (marks : Array Bool)
    (hsize : image.code.size < marks.size) (offset : Nat) :
    (image.markBlocksFrom pc marks).getD offset false = true ↔
      marks.getD offset false = true ∨ image.BlockEndsBefore pc offset := by
  induction pc, marks using markBlocksFrom.induct image with
  | case1 pc marks hpc ih =>
      rw [markBlocksFrom, if_pos hpc, blockEndsBefore_iff_of_lt hpc]
      have hnext : image.next pc < marks.size :=
        Nat.lt_of_le_of_lt (image.next_le_size hpc) hsize
      by_cases hends : image.endsBlockAt pc = true
      · rw [dif_pos hends] at ih
        rw [if_pos hends, ih (by simpa using hsize), getD_setIfInBounds_true hnext]
        simp only [hends, true_and]
        exact ⟨by rintro ((h | h) | h) <;> simp [h], by rintro (h | h | h) <;> simp [h]⟩
      · rw [dif_neg hends] at ih
        rw [if_neg hends, ih hsize]
        simp [hends]
  | case2 pc marks hpc =>
      rw [markBlocksFrom, if_neg hpc]
      simp [not_blockEndsBefore_of_size_le (Nat.not_lt.mp hpc)]

/-- Blocks start at zero, at the end of the code, and after each listed
instruction that ends a block. -/
theorem getD_markBlocks (image : CodeImage) (offset : Nat) :
    image.markBlocks.getD offset false = true ↔
      offset = 0 ∨ offset = image.code.size ∨ image.BlockEndsBefore 0 offset := by
  unfold markBlocks
  rw [getD_setIfInBounds_true (by simp), getD_markBlocksFrom _ _ _ (by simp),
    getD_setIfInBounds_true (by simp)]
  have hfalse : (Array.replicate (image.code.size + 1) false).getD offset false = false := by
    simp only [Array.getD_eq_getD_getElem?, Array.getElem?_replicate]
    split <;> rfl
  simp only [hfalse, Bool.false_eq_true, or_false]
  exact or_left_comm

end CodeImage

namespace Program

/-- An offset at which a machine may stand: that of a listed instruction, or the
end of the code. -/
def IsBoundary (program : Program) (pc : UInt32) : Prop :=
  (∃ entry ∈ program.instructions, entry.1 = pc.toNat) ∨
    pc.toNat = program.image.code.size

/-- The listing has the instruction of each offset that the walk meets. -/
theorem mem_instructions_iff (program : Program) (offset : Nat)
    (decoded : Except DecodeError Instruction) :
    (offset, decoded) ∈ program.instructions ↔
      (program.image.Meets 0 offset ∧ offset < program.image.code.size) ∧
        decoded = program.image.instructionAt offset := by
  rw [← CodeImage.mem_offsets_iff]
  constructor
  · intro hmem
    obtain ⟨pc, hpc, heq⟩ := Array.mem_map.mp hmem
    obtain ⟨rfl, rfl⟩ := Prod.mk.inj heq
    exact ⟨hpc, rfl⟩
  · rintro ⟨hoffset, rfl⟩
    exact Array.mem_map.mpr ⟨offset, hoffset, rfl⟩

/-- Boundaries are the offsets that the walk from zero meets. -/
theorem isBoundary_iff_meets (program : Program) (pc : UInt32) :
    program.IsBoundary pc ↔ program.image.Meets 0 pc.toNat := by
  constructor
  · rintro (⟨⟨offset, decoded⟩, hmem, rfl⟩ | hend)
    · exact ((program.mem_instructions_iff _ _).mp hmem).1.1
    · rw [hend]
      exact program.image.meets_size (Nat.zero_le _)
  · intro hmeets
    rcases Nat.lt_or_eq_of_le (hmeets.le_size (Nat.zero_le _)) with hlt | heq
    · exact Or.inl ⟨_, (program.mem_instructions_iff _ _).mpr ⟨⟨hmeets, hlt⟩, rfl⟩, rfl⟩
    · exact Or.inr heq

/-- The block starts, by the walk and the opcodes on it. -/
theorem mem_blockStarts_iff (program : Program) (offset : Nat) :
    offset ∈ program.blockStarts ↔
      offset = 0 ∨ offset = program.image.code.size ∨
        program.image.BlockEndsBefore 0 offset := by
  rw [blockStarts, List.mem_filter, List.mem_range, program.blockMarks_eq,
    CodeImage.getD_markBlocks]
  constructor
  · exact And.right
  · intro hstart
    refine ⟨?_, hstart⟩
    rcases hstart with rfl | rfl | hends
    · exact Nat.succ_pos _
    · exact Nat.lt_succ_self _
    · exact Nat.lt_succ_of_le (hends.meets.le_size (Nat.zero_le _))

theorem isBlockStart_iff_mem (program : Program) (offset : UInt32) :
    program.isBlockStart offset = true ↔ offset.toNat ∈ program.blockStarts := by
  rw [mem_blockStarts_iff, isBlockStart, program.blockMarks_eq, CodeImage.getD_markBlocks]

/-- Every block start is a boundary. -/
theorem meets_of_mem_blockStarts (program : Program) {offset : Nat}
    (hstart : offset ∈ program.blockStarts) : program.image.Meets 0 offset := by
  rcases (program.mem_blockStarts_iff offset).mp hstart with rfl | rfl | hends
  · exact Relation.ReflTransGen.refl
  · exact program.image.meets_size (Nat.zero_le _)
  · exact hends.meets

theorem toNat_skip (program : Program) (pc : UInt32) :
    (program.skip pc).toNat = program.image.skip pc.toNat := by
  have hskip : program.image.skip pc.toNat ≤ Bitmask.maxSkip :=
    Nat.le_trans (Nat.min_le_left _ _) (Bitmask.skip_le_maxSkip _ _)
  simp only [Bitmask.maxSkip] at hskip
  simp only [skip, UInt32.toNat_ofNat']
  omega

/-- In code within the limit of a blob, moving on does not wrap. -/
theorem toNat_following {program : Program} (hsize : program.image.code.size ≤ maxCodeSize)
    {pc : UInt32} (hpc : pc.toNat < program.image.code.size) :
    (program.following pc).toNat = program.image.next pc.toNat := by
  have hskip : program.image.skip pc.toNat ≤ program.image.code.size - (pc.toNat + 1) :=
    Nat.min_le_right _ _
  simp only [maxCodeSize] at hsize
  simp only [following, skip, CodeImage.next, UInt32.toNat_add, UInt32.toNat_ofNat',
    UInt32.toNat_one]
  omega

end Program

end GasMachine
