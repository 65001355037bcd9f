import GasMachine.Instruction.Codec
import GasMachine.Program.Bitmask

/-!
# Programs

A program is code with a bitmask of instruction starts and a table of dynamic-jump targets.  The
instructions are those met when walking from offset zero, each step over one instruction and its
operands.  A basic block starts at offset zero, at the end of the code and after each instruction
that ends a block; these offsets are the only jump targets.
-/

namespace GasMachine

structure CodeImage where
  /-- The dynamic-jump targets, each in `entryWidth` little-endian bytes. -/
  jumpTable : ByteArray
  entryCount : Nat
  entryWidth : UInt8
  code : ByteArray
  bitmask : ByteArray
  deriving DecidableEq

namespace CodeImage

/-- The number of operand bytes at `pc`.  Positions past the end of the code count as starts, so
that no instruction reaches beyond it. -/
def skip (image : CodeImage) (pc : Nat) : Nat :=
  min (Bitmask.skip image.bitmask pc) (image.code.size - (pc + 1))

def next (image : CodeImage) (pc : Nat) : Nat :=
  pc + image.skip pc + 1

theorem lt_next (image : CodeImage) (pc : Nat) : pc < image.next pc := by
  unfold next
  omega

theorem next_le_size (image : CodeImage) {pc : Nat} (hpc : pc < image.code.size) :
    image.next pc ≤ image.code.size := by
  unfold next skip
  omega

def instructionAt (image : CodeImage) (pc : Nat) : Except DecodeError Instruction :=
  Instruction.decode image.code pc (image.skip pc)

def endsBlockAt (image : CodeImage) (pc : Nat) : Bool :=
  if h : pc < image.code.size then
    match Opcode.ofByte? image.code[pc] with
    | some opcode => opcode.endsBlock
    | none => false
  else false

/-- The instruction offsets from `pc` on, after those `found` so far. -/
def offsetsFrom (image : CodeImage) (pc : Nat) (found : Array Nat) : Array Nat :=
  if pc < image.code.size then offsetsFrom image (image.next pc) (found.push pc) else found
termination_by image.code.size - pc
decreasing_by
  have := image.lt_next pc
  omega

def offsets (image : CodeImage) : Array Nat :=
  image.offsetsFrom 0 #[]

/-- Marks the block starts that instructions from `pc` on bring about. -/
def markBlocksFrom (image : CodeImage) (pc : Nat) (marks : Array Bool) : Array Bool :=
  if pc < image.code.size then
    markBlocksFrom image (image.next pc)
      (if image.endsBlockAt pc then marks.setIfInBounds (image.next pc) true else marks)
  else marks
termination_by image.code.size - pc
decreasing_by
  have := image.lt_next pc
  omega

/-- For each offset up to the end of the code, whether a basic block starts there. -/
def markBlocks (image : CodeImage) : Array Bool :=
  let marks := (Array.replicate (image.code.size + 1) false).setIfInBounds 0 true
  (image.markBlocksFrom 0 marks).setIfInBounds image.code.size true

end CodeImage

/-- A program that is ready to run: its sections, with the block starts found once. -/
structure Program where
  image : CodeImage
  blockMarks : Array Bool
  blockMarks_eq : blockMarks = image.markBlocks

namespace Program

def ofImage (image : CodeImage) : Program :=
  ⟨image, image.markBlocks, rfl⟩

theorem eq_of_image_eq {left right : Program} (himage : left.image = right.image) :
    left = right := by
  rcases left with ⟨leftImage, leftMarks, hleft⟩
  rcases right with ⟨rightImage, rightMarks, hright⟩
  cases himage
  subst hleft hright
  rfl

instance : DecidableEq Program := fun left right =>
  decidable_of_iff (left.image = right.image) ⟨eq_of_image_eq, fun h => h ▸ rfl⟩

def skip (program : Program) (pc : UInt32) : UInt32 :=
  UInt32.ofNat (program.image.skip pc.toNat)

/-- The offset after the instruction at `pc`, wrapping around the address space. -/
def following (program : Program) (pc : UInt32) : UInt32 :=
  pc + (program.skip pc + 1)

def instructionAt (program : Program) (pc : UInt32) : Except DecodeError Instruction :=
  program.image.instructionAt pc.toNat

def instructions (program : Program) : Array (Nat × Except DecodeError Instruction) :=
  program.image.offsets.map fun pc => (pc, program.image.instructionAt pc)

def isBlockStart (program : Program) (offset : UInt32) : Bool :=
  program.blockMarks.getD offset.toNat false

def blockStarts (program : Program) : List Nat :=
  (List.range (program.image.code.size + 1)).filter fun offset =>
    program.blockMarks.getD offset false

/-- The low 32 bits of the jump-table entry at `index`. -/
def jumpTarget? (program : Program) (index : Nat) : Option UInt32 :=
  if index < program.image.entryCount then
    let width := program.image.entryWidth.toNat
    some (LittleEndian.decode (Bytes.slice program.image.jumpTable (index * width) width)).toUInt32
  else none

end Program

end GasMachine
