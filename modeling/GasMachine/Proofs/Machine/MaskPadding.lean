import Mathlib
import GasMachine.Invocation.Basic
import GasMachine.Proofs.Program.BlobFormat
import GasMachine.Proofs.Program.Boundaries

/-!
# Padding of the mask

A mask has whole bytes, so its last one may have bits that stand for no byte of the
code.  The window in which clear bits are counted contains them, but the count is cut
where they begin.  Programs that differ in such bits only are therefore taken apart
into the same instructions and blocks.  A machine reads nothing else of a program, so
it cannot tell them apart either.
-/

namespace GasMachine

/-! ## Counting bit by bit -/

namespace Bitmask

theorem exists_isLeast_isSet (bitmask : ByteArray) (start : Nat) :
    ∃ count, IsLeast {count | isSet bitmask (start + count) = true} count := by
  have hset : ∃ count, isSet bitmask (start + count) = true :=
    ⟨8 * bitmask.size, isSet_of_size_le (by omega)⟩
  exact ⟨Nat.find hset, Nat.isLeast_find hset⟩

/-- The window gives the number of clear bits, up to the limit. -/
theorem skip_eq_min {bitmask : ByteArray} {start count : Nat}
    (hleast : IsLeast {count | isSet bitmask (start + 1 + count) = true} count) :
    skip bitmask start = min count maxSkip := by
  apply Nat.le_antisymm
  · exact Nat.le_min.mpr ⟨skip_le hleast.1, skip_le_maxSkip bitmask start⟩
  · apply le_skip (Nat.min_le_right _ _)
    intro index hindex
    refine Bool.eq_false_of_not_eq_true fun hset => ?_
    have hcount : count ≤ index := hleast.2 hset
    omega

end Bitmask

namespace CodeImage

/-- Whether an instruction has to end in front of a position: it is past the code, or
marked. -/
def CountsAsStart (image : CodeImage) (position : Nat) : Prop :=
  image.code.size ≤ position ∨ Bitmask.isSet image.bitmask position = true

/-- Operand bytes are counted up to the limit, with the end of the code as a start. -/
theorem exists_isLeast_skip (image : CodeImage) (pc : Nat) :
    ∃ count, IsLeast {count | image.CountsAsStart (pc + 1 + count)} count ∧
      image.skip pc = min count Bitmask.maxSkip := by
  obtain ⟨first, hfirst⟩ := Bitmask.exists_isLeast_isSet image.bitmask (pc + 1)
  refine ⟨min first (image.code.size - (pc + 1)), ⟨?_, ?_⟩, ?_⟩
  · rcases Nat.le_total first (image.code.size - (pc + 1)) with hmask | hend
    · rw [Nat.min_eq_left hmask]
      exact Or.inr hfirst.1
    · rw [Nat.min_eq_right hend]
      exact Or.inl (Nat.sub_le_iff_le_add'.mp (Nat.le_refl _))
  · rintro count (hend | hset)
    · exact Nat.le_trans (Nat.min_le_right _ _) (Nat.sub_le_iff_le_add'.mpr hend)
    · exact Nat.le_trans (Nat.min_le_left _ _) (hfirst.2 hset)
  · -- It makes no difference whether the limit or the end of the code cuts first.
    rw [skip, Bitmask.skip_eq_min hfirst, Nat.min_right_comm]

def withMask (image : CodeImage) (mask : ByteArray) : CodeImage :=
  { image with bitmask := mask }

/-- Another mask for the same code: it has as many bytes and the bits that stand for
bytes of the code, while the bits behind them are free. -/
structure Repads (image : CodeImage) (mask : ByteArray) : Prop where
  size : mask.size = image.bitmask.size
  marks : ∀ position < image.code.size,
    Bitmask.isSet mask position = Bitmask.isSet image.bitmask position

namespace Repads

variable {image : CodeImage} {mask : ByteArray} (hrepads : image.Repads mask)
include hrepads

theorem countsAsStart_iff (position : Nat) :
    (image.withMask mask).CountsAsStart position ↔ image.CountsAsStart position := by
  rcases Nat.lt_or_ge position image.code.size with hinside | hpast
  · refine or_congr_right ?_
    rw [← hrepads.marks position hinside]
    rfl
  · exact iff_of_true (Or.inl hpast) (Or.inl hpast)

theorem skip_eq (pc : Nat) : (image.withMask mask).skip pc = image.skip pc := by
  obtain ⟨count, hcount, hskip⟩ := image.exists_isLeast_skip pc
  obtain ⟨other, hother, hotherSkip⟩ := (image.withMask mask).exists_isLeast_skip pc
  -- Both counts are the least one for the same positions.
  simp only [hrepads.countsAsStart_iff] at hother
  rw [hskip, hotherSkip, hother.unique hcount]

theorem next_eq (pc : Nat) : (image.withMask mask).next pc = image.next pc := by
  rw [next, next, hrepads.skip_eq]

theorem instructionAt_eq (pc : Nat) :
    (image.withMask mask).instructionAt pc = image.instructionAt pc := by
  rw [instructionAt, instructionAt, hrepads.skip_eq]
  rfl

/-- The walks over the code are the same, from wherever they start. -/
theorem offsetsFrom_eq (pc : Nat) (found : Array Nat) :
    (image.withMask mask).offsetsFrom pc found = image.offsetsFrom pc found := by
  induction pc, found using offsetsFrom.induct image with
  | case1 pc found hpc ih =>
      have hother : pc < (image.withMask mask).code.size := hpc
      rw [offsetsFrom, if_pos hother, hrepads.next_eq, ih, offsetsFrom.eq_def image pc,
        if_pos hpc]
  | case2 pc found hpc =>
      have hother : ¬ pc < (image.withMask mask).code.size := hpc
      rw [offsetsFrom, if_neg hother, offsetsFrom, if_neg hpc]

theorem markBlocksFrom_eq (pc : Nat) (marks : Array Bool) :
    (image.withMask mask).markBlocksFrom pc marks = image.markBlocksFrom pc marks := by
  induction pc, marks using markBlocksFrom.induct image with
  | case1 pc marks hpc ih =>
      have hother : pc < (image.withMask mask).code.size := hpc
      have hends : (image.withMask mask).endsBlockAt pc = image.endsBlockAt pc := rfl
      rw [dite_eq_ite] at ih
      rw [markBlocksFrom, if_pos hother, hrepads.next_eq, hends, ih, markBlocksFrom.eq_def image pc,
        if_pos hpc]
  | case2 pc marks hpc =>
      have hother : ¬ pc < (image.withMask mask).code.size := hpc
      rw [markBlocksFrom, if_neg hother, markBlocksFrom, if_neg hpc]

theorem markBlocks_eq : (image.withMask mask).markBlocks = image.markBlocks := by
  rw [markBlocks, hrepads.markBlocksFrom_eq]
  rfl

end Repads

end CodeImage

/-! ## What a machine reads of a program -/

namespace Program

/-- Two programs of which a machine reads the same. -/
structure ReadsAs (left right : Program) : Prop where
  instructionAt : ∀ pc, left.instructionAt pc = right.instructionAt pc
  following : ∀ pc, left.following pc = right.following pc
  isBlockStart : ∀ offset, left.isBlockStart offset = right.isBlockStart offset
  jumpTarget? : ∀ index, left.jumpTarget? index = right.jumpTarget? index
  entryCount : left.image.entryCount = right.image.entryCount

namespace ReadsAs

variable {left right : Program} (hreads : left.ReadsAs right)
include hreads

theorem staticBranch_eq : left.staticBranch = right.staticBranch := by
  funext pc offset taken
  rw [staticBranch, staticBranch, hreads.isBlockStart]

theorem dynamicJump_eq : left.dynamicJump = right.dynamicJump := by
  funext address
  simp only [dynamicJump, hreads.entryCount, hreads.jumpTarget?, hreads.isBlockStart]

theorem ofAction_eq (pc : UInt32) (registers : Registers) (action : Action)
    (operands : Operands) :
    Request.ofAction left pc registers action operands =
      Request.ofAction right pc registers action operands := by
  -- Only branches and jumps look at the program.
  simp only [Request.ofAction.eq_def, hreads.staticBranch_eq, hreads.dynamicJump_eq]

variable {σ μ : Type} [Memory μ]

theorem step_eq (machine : Machine μ) : machine.step left = machine.step right := by
  simp only [Machine.step, Machine.request, hreads.instructionAt, hreads.ofAction_eq,
    hreads.following]

theorem runFor_eq (budget : Nat) (machine : Machine μ) :
    machine.runFor left budget = machine.runFor right budget := by
  induction budget generalizing machine with
  | zero => rfl
  | succ budget ih => simp only [Machine.runFor, hreads.step_eq, ih]

theorem run_eq (machine : Machine μ) : machine.run left = machine.run right :=
  hreads.runFor_eq machine.gas.budget machine

theorem runWith_eq (host : Host σ μ) (fuel : Nat) (state : σ) (machine : Machine μ) :
    machine.runWith left host fuel state = machine.runWith right host fuel state := by
  induction fuel generalizing state machine with
  | zero => rfl
  | succ fuel ih =>
      simp only [Machine.runWith, Machine.skipHostCall, hreads.step_eq, hreads.following, ih]

end ReadsAs

/-! ## Programs with other padding -/

def withMask (program : Program) (mask : ByteArray) : Program :=
  .ofImage (program.image.withMask mask)

/-- The program has the instructions and blocks of another one, and whatever runs on
it runs as on the other. -/
structure RunsAs (program other : Program) : Prop where
  skip : ∀ pc, program.skip pc = other.skip pc
  instructionAt : ∀ pc, program.instructionAt pc = other.instructionAt pc
  instructions : program.instructions = other.instructions
  isBlockStart : ∀ offset, program.isBlockStart offset = other.isBlockStart offset
  blockStarts : program.blockStarts = other.blockStarts
  step : ∀ {μ : Type} [Memory μ] (machine : Machine μ),
    machine.step program = machine.step other
  run : ∀ {μ : Type} [Memory μ] (machine : Machine μ), machine.run program = machine.run other
  runWith : ∀ {σ μ : Type} [Memory μ] (host : Host σ μ) (fuel : Nat) (state : σ)
    (machine : Machine μ),
    machine.runWith program host fuel state = machine.runWith other host fuel state

section Repadded

variable {program : Program} {mask : ByteArray} (hrepads : program.image.Repads mask)
include hrepads

theorem blockMarks_withMask : (program.withMask mask).blockMarks = program.blockMarks := by
  rw [program.blockMarks_eq]
  exact hrepads.markBlocks_eq

theorem skip_withMask (pc : UInt32) : (program.withMask mask).skip pc = program.skip pc :=
  congrArg UInt32.ofNat (hrepads.skip_eq pc.toNat)

theorem readsAs_withMask : (program.withMask mask).ReadsAs program where
  instructionAt pc := hrepads.instructionAt_eq pc.toNat
  following pc := by rw [following, following, skip_withMask hrepads]
  isBlockStart offset := by rw [isBlockStart, isBlockStart, blockMarks_withMask hrepads]
  jumpTarget? _ := rfl
  entryCount := rfl

theorem instructions_withMask : (program.withMask mask).instructions = program.instructions := by
  have hoffsets : (program.image.withMask mask).offsets = program.image.offsets :=
    hrepads.offsetsFrom_eq 0 #[]
  have hlisted : (program.image.withMask mask).instructionAt = program.image.instructionAt :=
    funext hrepads.instructionAt_eq
  rw [instructions, instructions, withMask, ofImage, hoffsets, hlisted]

theorem blockStarts_withMask : (program.withMask mask).blockStarts = program.blockStarts := by
  rw [blockStarts, blockStarts, blockMarks_withMask hrepads]
  rfl

theorem runsAs_withMask : (program.withMask mask).RunsAs program where
  skip := skip_withMask hrepads
  instructionAt := (readsAs_withMask hrepads).instructionAt
  instructions := instructions_withMask hrepads
  isBlockStart := (readsAs_withMask hrepads).isBlockStart
  blockStarts := blockStarts_withMask hrepads
  step := (readsAs_withMask hrepads).step_eq
  run := (readsAs_withMask hrepads).run_eq
  runWith := (readsAs_withMask hrepads).runWith_eq

/-- No choice of the padding is refused. -/
theorem parse_encode_withMask {blob : ByteArray} (hparse : parse blob = .ok program) :
    parse (program.withMask mask).encode = .ok (program.withMask mask) := by
  obtain ⟨_, _, hspells⟩ := exists_spells_of_parse hparse
  have hproportioned : (program.image.withMask mask).Proportioned :=
    ⟨hspells.proportioned.jumpTable, hrepads.size.trans hspells.proportioned.bitmask⟩
  have hlimits : (program.image.withMask mask).WithinLimits :=
    ⟨hspells.withinLimits.entryCount, hspells.withinLimits.entryWidth,
      hspells.withinLimits.code⟩
  exact (parse_encode_eq_iff hproportioned).mpr hlimits

end Repadded

/-! ## Invocations -/

section Invocations

variable {blob other : ByteArray} {standard : StandardProgram} {program : Program}
variable (hblob : StandardProgram.parse blob = .ok standard)
variable (hother : StandardProgram.parse other = .ok { standard with program := program })
include hblob hother

/-- Blobs that differ in their programs only fail to load in the same way, or give the
same machine. -/
theorem load?_cases (settings : Settings) (argument : ByteArray) :
    Invocation.load? settings other argument = Invocation.load? settings blob argument ∨
      ∃ machine,
        Invocation.load? settings blob argument = some (.ok (standard.program, machine)) ∧
        Invocation.load? settings other argument = some (.ok (program, machine)) := by
  -- The memory to start from is laid out without a look at the program.
  have hmemory : Invocation.initialMemory? settings { standard with program := program } argument =
      Invocation.initialMemory? settings standard argument := rfl
  simp only [Invocation.load?, hblob, hother, hmemory]
  rcases Invocation.initialMemory? settings standard argument with _ | error | memory
  · exact Or.inl rfl
  · exact Or.inl rfl
  · exact Or.inr ⟨_, rfl, rfl⟩

variable (hreads : program.ReadsAs standard.program)
include hreads

theorem invoke_eq (settings : Settings) (argument : ByteArray) :
    invoke settings other argument = invoke settings blob argument := by
  rcases load?_cases hblob hother settings argument with hsame | ⟨machine, hfirst, hsecond⟩
  · rw [invoke, invoke, hsame]
  · simp only [invoke, hfirst, hsecond, hreads.run_eq]

theorem invokeWith_eq {σ : Type} (settings : Settings) (argument : ByteArray)
    (host : Host σ ZonedMemory) (fuel : Nat) (state : σ) :
    invokeWith settings other argument host fuel state =
      invokeWith settings blob argument host fuel state := by
  rcases load?_cases hblob hother settings argument with hsame | ⟨machine, hfirst, hsecond⟩
  · rw [invokeWith, invokeWith, hsame]
  · simp only [invokeWith, hfirst, hsecond, hreads.runWith_eq]

end Invocations

/-- Operand bytes are counted bit by bit, in the code alone.  The window on a mask gives
the number of clear bits in front of the next set one, where all bits past the mask are
set, or the limit if that is less.  For a program that was read from a blob the
positions past its code count as set too.  Whatever is put into the padding of its mask,
it remains a program, with the same instructions and blocks and the same runs; and the
invocations of a standard program with it stay the same. -/
theorem skips_count_bits_of_the_code :
    (∀ (bitmask : ByteArray) (start : Nat), ∃ count,
      IsLeast {count | Bitmask.isSet bitmask (start + 1 + count) = true} count ∧
        Bitmask.skip bitmask start = min count 24) ∧
    (∀ {blob : ByteArray} {program : Program}, parse blob = .ok program →
      (∀ pc : UInt32, ∃ count,
        IsLeast {count | program.image.CountsAsStart (pc.toNat + 1 + count)} count ∧
          (program.skip pc).toNat = min count 24) ∧
      ∀ mask, program.image.Repads mask →
        parse (program.withMask mask).encode = .ok (program.withMask mask) ∧
          (program.withMask mask).RunsAs program) ∧
    ∀ {blob other : ByteArray} {standard : StandardProgram} {mask : ByteArray},
      StandardProgram.parse blob = .ok standard →
      StandardProgram.parse other =
        .ok { standard with program := standard.program.withMask mask } →
      standard.program.image.Repads mask →
      ∀ (settings : Settings) (argument : ByteArray),
        invoke settings other argument = invoke settings blob argument ∧
        ∀ {σ : Type} (host : Host σ ZonedMemory) (fuel : Nat) (state : σ),
          invokeWith settings other argument host fuel state =
            invokeWith settings blob argument host fuel state := by
  refine ⟨?_, ?_, ?_⟩
  · intro bitmask start
    obtain ⟨count, hleast⟩ := Bitmask.exists_isLeast_isSet bitmask (start + 1)
    exact ⟨count, hleast, Bitmask.skip_eq_min hleast⟩
  · intro blob program hparse
    refine ⟨fun pc => ?_, fun mask hrepads => ?_⟩
    · rw [toNat_skip]
      exact program.image.exists_isLeast_skip pc.toNat
    · exact ⟨parse_encode_withMask hrepads hparse, runsAs_withMask hrepads⟩
  · intro blob other standard mask hblob hother hrepads settings argument
    have hreads := readsAs_withMask hrepads
    exact ⟨invoke_eq hblob hother hreads settings argument,
      invokeWith_eq hblob hother hreads settings argument⟩

/-- A load of an immediate in two bytes of code.  Its mask has six bits of padding, all of
them clear. -/
def loadImage : CodeImage :=
  ⟨ByteArray.empty, 0, 0, [51, 7].toByteArray, [0x01].toByteArray⟩

def loadStandard : StandardProgram where
  readOnly := ByteArray.empty
  readWrite := ByteArray.empty
  heapPages := 0
  stackSize := 0
  program := .ofImage loadImage

def loadBlob : ByteArray :=
  [0, 0, 0, 0, 0, 0, 0, 0, 0, 0, 0, 6, 0, 0, 0, 0, 0, 2, 51, 7, 0x01].toByteArray

def paddedBlob : ByteArray :=
  [0, 0, 0, 0, 0, 0, 0, 0, 0, 0, 0, 6, 0, 0, 0, 0, 0, 2, 51, 7, 0xFD].toByteArray

/-- The padding can make the window end earlier, but not the instruction. -/
theorem loadImage_with_padding_set :
    Bitmask.skip [0x01].toByteArray 0 = 7 ∧ Bitmask.skip [0xFD].toByteArray 0 = 1 ∧
      ((ofImage loadImage).withMask [0xFD].toByteArray).skip 0 = (ofImage loadImage).skip 0 ∧
      parse ((ofImage loadImage).withMask [0xFD].toByteArray).encode =
        .ok ((ofImage loadImage).withMask [0xFD].toByteArray) ∧
      invoke {} paddedBlob ByteArray.empty = invoke {} loadBlob ByteArray.empty := by
  have hparse : parse (ofImage loadImage).encode = .ok (ofImage loadImage) := by cbv
  have hrepads : loadImage.Repads [0xFD].toByteArray := ⟨rfl, by decide +kernel⟩
  have hblob : StandardProgram.parse loadBlob = .ok loadStandard := by cbv
  have hother : StandardProgram.parse paddedBlob =
      .ok { loadStandard with program := loadStandard.program.withMask [0xFD].toByteArray } := by
    cbv
  obtain ⟨-, hprograms, hinvocations⟩ := skips_count_bits_of_the_code
  obtain ⟨hagain, hruns⟩ := (hprograms hparse).2 _ hrepads
  exact ⟨by decide +kernel, by decide +kernel, hruns.skip 0, hagain,
    (hinvocations hblob hother hrepads {} ByteArray.empty).1⟩

end Program

end GasMachine
