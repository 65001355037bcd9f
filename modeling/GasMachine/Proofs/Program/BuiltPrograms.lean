import GasMachine.Program.Builder
import GasMachine.Proofs.Instruction.Encoding
import GasMachine.Proofs.Program.BlobFormat
import GasMachine.Proofs.Program.InstructionStarts

/-!
# Built programs

A builder lays out instructions one after another and marks where each starts.
The walk over the finished program meets exactly these starts and finds at each of
them the instruction that was pushed there, and the jump table gives back the
targets: nothing but what was pushed decides what the program is.
-/

namespace GasMachine

/-! ## Sections -/

namespace Program.Builder

/-- A number takes no more bytes than hold it. -/
theorem bytesFor_le_iff (value width : Nat) : bytesFor value ≤ width ↔ value < 2 ^ (8 * width) := by
  rw [bytesFor]
  split
  · next hzero => simp [hzero]
  · next hzero =>
      rw [← Nat.log2_lt hzero]
      omega

theorem foldl_max_lt_iff (targets : List UInt32) (least bound : Nat) :
    targets.foldl (fun widest target => max widest target.toNat) least < bound ↔
      least < bound ∧ ∀ target ∈ targets, target.toNat < bound := by
  induction targets generalizing least with
  | nil => simp
  | cons first rest ih =>
      rw [List.foldl_cons, ih, Nat.max_lt, List.forall_mem_cons, and_assoc]

/-- The entries are as narrow as their targets allow. -/
theorem entryWidth_le_iff (builder : Builder) (width : Nat) :
    builder.entryWidth ≤ width ↔
      ∀ target ∈ builder.targets.toList, target.toNat < 2 ^ (8 * width) := by
  rw [entryWidth, bytesFor_le_iff, ← Array.foldl_toList, foldl_max_lt_iff]
  exact and_iff_right (Nat.two_pow_pos _)

/-- A target takes at most four bytes. -/
theorem entryWidth_le (builder : Builder) : builder.entryWidth ≤ 4 :=
  (builder.entryWidth_le_iff 4).mpr fun target _ => target.toNat_lt

theorem size_jumpTable (builder : Builder) :
    builder.image.jumpTable.size = builder.targets.size * builder.entryWidth := by
  dsimp only [image]
  simp only [List.size_toByteArray, List.length_flatMap, LittleEndian.length_ofNat,
    List.map_const', List.sum_replicate_nat, Array.length_toList]

theorem size_bitmask (builder : Builder) :
    builder.image.bitmask.size = Bitmask.sizeFor builder.code.size := by
  dsimp only [image]
  apply Array.foldl_induction
    (motive := fun _ (mask : ByteArray) => mask.size = Bitmask.sizeFor builder.code.size)
  · exact Bytes.size_zeros _
  · intro index mask hmask
    rw [Bitmask.size_mark, hmask]

theorem toNat_entryWidth (builder : Builder) :
    builder.image.entryWidth.toNat = builder.entryWidth :=
  UInt8.toNat_ofNat_of_lt' (Nat.lt_of_le_of_lt builder.entryWidth_le (by decide))

/-- The sections of a built program fit together. -/
theorem proportioned (builder : Builder) : builder.image.Proportioned := by
  constructor
  · rw [size_jumpTable, toNat_entryWidth]
    rfl
  · exact builder.size_bitmask

end Program.Builder

namespace Program

/-! ## What was pushed -/

/-- Instructions with their offsets, laid out one after another from `pc` on. -/
def laidOut (pc : Nat) : List Instruction → List (Nat × Instruction)
  | [] => []
  | instruction :: rest =>
    (pc, instruction) :: laidOut (pc + instruction.encode.length) rest

theorem laidOut_append (pc : Nat) (first second : List Instruction) :
    laidOut pc (first ++ second) =
      laidOut pc first ++ laidOut (pc + (first.flatMap Instruction.encode).length) second := by
  induction first generalizing pc with
  | nil => rfl
  | cons instruction rest ih =>
      rw [List.cons_append, laidOut, ih, laidOut, List.flatMap_cons, List.length_append,
        Nat.add_assoc]
      rfl

/-- Each instruction starts within the bytes of all of them. -/
theorem bounds_of_mem_laidOut {pc : Nat} {instructions : List Instruction}
    {entry : Nat × Instruction} (hentry : entry ∈ laidOut pc instructions) :
    pc ≤ entry.1 ∧ entry.1 < pc + (instructions.flatMap Instruction.encode).length := by
  induction instructions generalizing pc with
  | nil => cases hentry
  | cons instruction rest ih =>
      have hencode : instruction.encode.length ≠ 0 := Nat.succ_ne_zero _
      rw [List.flatMap_cons, List.length_append]
      rcases List.mem_cons.mp hentry with rfl | hrest
      · exact ⟨Nat.le_refl _, by omega⟩
      · have hbounds := ih hrest
        omega

namespace Builder

def holding (instructions : List Instruction) (targets : List UInt32) : Builder :=
  targets.foldl pushTarget (instructions.foldl push {})

theorem foldl_pushTarget (builder : Builder) (targets : List UInt32) :
    targets.foldl pushTarget builder =
      { builder with targets := builder.targets ++ targets.toArray } := by
  induction targets generalizing builder with
  | nil => simp
  | cons target rest ih => simp [ih, pushTarget]

theorem foldl_push (builder : Builder) (instructions : List Instruction) :
    instructions.foldl push builder =
      { builder with
        code := builder.code ++ (instructions.flatMap Instruction.encode).toByteArray
        starts := builder.starts ++
          ((laidOut builder.code.size instructions).map Prod.fst).toArray } := by
  induction instructions generalizing builder with
  | nil => simp [laidOut]
  | cons instruction rest ih =>
      simp [ih, push, laidOut, ByteArray.append_assoc]

/-- The sections follow from what was pushed, in whatever order. -/
theorem holding_eq (instructions : List Instruction) (targets : List UInt32) :
    holding instructions targets =
      { code := (instructions.flatMap Instruction.encode).toByteArray
        starts := ((laidOut 0 instructions).map Prod.fst).toArray
        targets := targets.toArray } := by
  rw [holding, foldl_pushTarget, foldl_push]
  simp

theorem offset_holding (instructions : List Instruction) (targets : List UInt32) :
    (holding instructions targets).offset =
      UInt32.ofNat (instructions.flatMap Instruction.encode).length := by
  rw [offset, holding_eq, List.size_toByteArray]

theorem push_holding (instructions : List Instruction) (targets : List UInt32)
    (instruction : Instruction) :
    (holding instructions targets).push instruction =
      holding (instructions ++ [instruction]) targets := by
  simp [holding_eq, push, laidOut_append, laidOut]

theorem pushTarget_holding (instructions : List Instruction) (targets : List UInt32)
    (target : UInt32) :
    (holding instructions targets).pushTarget target =
      holding instructions (targets ++ [target]) := by
  simp [holding_eq, pushTarget]

end Builder

end Program

/-! ## The walk over the code -/

/-- The walk from `pc` meets the given instructions, one after another, and then the end of the
code. -/
def CodeImage.Lists (image : CodeImage) (pc : Nat) : List Instruction → Prop
  | [] => pc = image.code.size
  | instruction :: rest =>
    pc < image.code.size ∧ image.next pc = pc + instruction.encode.length ∧
      image.instructionAt pc = .ok instruction ∧
      image.Lists (pc + instruction.encode.length) rest

namespace CodeImage

variable {image : CodeImage} {instructions : List Instruction}

theorem Lists.offsetsFrom_eq {pc : Nat} (hlists : image.Lists pc instructions)
    (found : Array Nat) :
    image.offsetsFrom pc found =
      found ++ ((Program.laidOut pc instructions).map Prod.fst).toArray := by
  induction instructions generalizing pc found with
  | nil =>
      rw [offsetsFrom, if_neg (Nat.not_lt.mpr (Nat.le_of_eq hlists.symm))]
      simp [Program.laidOut]
  | cons instruction rest ih =>
      obtain ⟨hpc, hnext, -, hrest⟩ := hlists
      rw [offsetsFrom, if_pos hpc, hnext, ih hrest]
      simp [Program.laidOut]

theorem Lists.instructionAt_eq {pc : Nat} (hlists : image.Lists pc instructions)
    {entry : Nat × Instruction} (hentry : entry ∈ Program.laidOut pc instructions) :
    image.instructionAt entry.1 = .ok entry.2 := by
  induction instructions generalizing pc with
  | nil => cases hentry
  | cons instruction rest ih =>
      obtain ⟨-, -, hinstruction, hrest⟩ := hlists
      rcases List.mem_cons.mp hentry with rfl | hlater
      · exact hinstruction
      · exact ih hrest hlater

theorem Lists.instructions_eq (hlists : image.Lists 0 instructions) :
    (Program.ofImage image).instructions.toList =
      (Program.laidOut 0 instructions).map fun entry => (entry.1, .ok entry.2) := by
  rw [Program.instructions, Array.toList_map, Program.ofImage, offsets, hlists.offsetsFrom_eq]
  simp only [Array.toList_append, List.nil_append, List.map_map]
  apply List.map_congr_left
  intro entry hentry
  exact congrArg (Prod.mk entry.1) (hlists.instructionAt_eq hentry)

end CodeImage

namespace Program.Builder

section Walk

variable (before : List Instruction) (instruction : Instruction) (after : List Instruction)
variable (targets : List UInt32)

/-- Within the code, exactly the starts of instructions are marked. -/
theorem isSet_holding (instructions : List Instruction) {index : Nat}
    (hindex : index < (instructions.flatMap Instruction.encode).length) :
    Bitmask.isSet (holding instructions targets).image.bitmask index =
      decide (index ∈ (laidOut 0 instructions).map Prod.fst) := by
  have hsize : (instructions.flatMap Instruction.encode).toByteArray.size =
      (instructions.flatMap Instruction.encode).length := List.size_toByteArray
  have hcover {position : Nat}
      (hposition : position < (instructions.flatMap Instruction.encode).length) :
      position / 8 < Bitmask.sizeFor (instructions.flatMap Instruction.encode).length := by
    rw [Bitmask.sizeFor]
    omega
  rw [holding_eq, image]
  dsimp only
  rw [hsize, List.foldl_toArray, Bitmask.isSet_foldl_mark, Bitmask.isSet_zeros (hcover hindex),
    Bool.false_or]
  intro start hstart
  obtain ⟨entry, hentry, rfl⟩ := List.mem_map.mp hstart
  rw [Bytes.size_zeros]
  have hbounds := bounds_of_mem_laidOut hentry
  exact hcover (by omega)

/-- No instruction starts inside another one. -/
theorem not_mem_starts_inside {index : Nat} (hindex : index < instruction.encode.length - 1) :
    (before.flatMap Instruction.encode).length + 1 + index ∉
      (laidOut 0 (before ++ instruction :: after)).map Prod.fst := by
  intro hmem
  obtain ⟨entry, hentry, hstart⟩ := List.mem_map.mp hmem
  rw [laidOut_append, laidOut, Nat.zero_add] at hentry
  rcases List.mem_append.mp hentry with hbefore | hrest
  · have hbounds := bounds_of_mem_laidOut hbefore
    omega
  · rcases List.mem_cons.mp hrest with rfl | hafter
    · simp only at hstart
      omega
    · have hbounds := bounds_of_mem_laidOut hafter
      omega

/-- The operand bytes of a pushed instruction are those that were written for it. -/
theorem skip_holding :
    (holding (before ++ instruction :: after) targets).image.skip
        (before.flatMap Instruction.encode).length =
      instruction.encode.length - 1 := by
  have hencode : instruction.encode.length =
      (Instruction.encodeOperands instruction.operands).length + 1 := rfl
  have hoperands := Instruction.length_encodeOperands_le instruction.operands
  have hcode : (holding (before ++ instruction :: after) targets).image.code.size =
      (before.flatMap Instruction.encode).length + instruction.encode.length +
        (after.flatMap Instruction.encode).length := by
    rw [holding_eq, image, List.size_toByteArray]
    simp only [List.flatMap_append, List.flatMap_cons, List.length_append, Nat.add_assoc]
  have hlength : ((before ++ instruction :: after).flatMap Instruction.encode).length =
      (holding (before ++ instruction :: after) targets).image.code.size := by
    rw [holding_eq, image, List.size_toByteArray]
  apply CodeImage.skip_eq
  · rw [Bitmask.maxSkip]
    omega
  · intro index hindex
    rw [isSet_holding targets _ (by omega)]
    exact decide_eq_false (not_mem_starts_inside before instruction after hindex)
  · omega
  · intro hinside
    rw [isSet_holding targets _ (by omega)]
    -- Code goes on behind the instruction, so another one starts there.
    cases after with
    | nil =>
        rw [List.flatMap_nil, List.length_nil] at hcode
        omega
    | cons following rest =>
        rw [laidOut_append, laidOut, laidOut]
        apply decide_eq_true
        simp only [List.map_append, List.map_cons, List.mem_append, List.mem_cons]
        omega

end Walk

section Pushed

variable {instructions : List Instruction} (targets : List UInt32)

theorem lists_holding (before : List Instruction) {after : List Instruction}
    (hinstructions : instructions = before ++ after)
    (hwellFormed : ∀ instruction ∈ after, instruction.WellFormed) :
    (holding instructions targets).image.Lists (before.flatMap Instruction.encode).length
      after := by
  induction after generalizing before with
  | nil =>
      rw [List.append_nil] at hinstructions
      rw [CodeImage.Lists, holding_eq, image, List.size_toByteArray, hinstructions]
  | cons instruction rest ih =>
      have hskip := skip_holding before instruction rest targets
      have hrest := ih (before ++ [instruction]) (by simp [hinstructions]) fun later hlater =>
        hwellFormed later (List.mem_cons_of_mem _ hlater)
      rw [← hinstructions] at hskip
      have hcode : (holding instructions targets).image.code =
          (before.flatMap Instruction.encode ++ instruction.encode ++
            rest.flatMap Instruction.encode).toByteArray := by
        rw [holding_eq, image, hinstructions]
        simp only [List.flatMap_append, List.flatMap_cons, List.append_assoc]
      have hencode : instruction.encode.length ≠ 0 := Nat.succ_ne_zero _
      have hpc : (before.flatMap Instruction.encode).length <
          (holding instructions targets).image.code.size := by
        rw [hcode, List.size_toByteArray, List.length_append, List.length_append]
        omega
      refine ⟨hpc, ?_, ?_, ?_⟩
      · rw [CodeImage.next, hskip]
        omega
      · rw [CodeImage.instructionAt, hskip]
        apply Instruction.decode_of_hasAt (hwellFormed instruction List.mem_cons_self) hpc
        rw [hcode]
        exact Bytes.hasAt_toByteArray _ _ _
      · simpa only [List.flatMap_append, List.flatMap_singleton, List.length_append] using hrest

/-- A built program has the instructions that were pushed, where they were laid out. -/
theorem instructions_holding (hwellFormed : ∀ instruction ∈ instructions, instruction.WellFormed) :
    (holding instructions targets).build.instructions.toList =
      (laidOut 0 instructions).map fun entry => (entry.1, .ok entry.2) :=
  (lists_holding targets [] (List.nil_append instructions).symm hwellFormed).instructions_eq

end Pushed

/-! ## Jump targets -/

/-- Every target fits the width of the entries. -/
theorem toNat_lt_of_mem_targets {builder : Builder} {target : UInt32}
    (htarget : target ∈ builder.targets.toList) :
    target.toNat < 2 ^ (8 * builder.entryWidth) :=
  (builder.entryWidth_le_iff builder.entryWidth).mp (Nat.le_refl _) target htarget

/-- An entry stands in the jump table after those of the targets before it. -/
theorem hasAt_jumpTable {builder : Builder} {before after : List UInt32} {target : UInt32}
    (htargets : builder.targets.toList = before ++ target :: after) :
    Bytes.HasAt builder.image.jumpTable (before.length * builder.entryWidth)
      (LittleEndian.ofNat builder.entryWidth target.toNat) := by
  have hlength : (before.flatMap fun target =>
      LittleEndian.ofNat builder.entryWidth target.toNat).length =
        before.length * builder.entryWidth := by
    simp only [List.length_flatMap, LittleEndian.length_ofNat, List.map_const',
      List.sum_replicate_nat]
  rw [image, htargets, List.flatMap_append, List.flatMap_cons, ← List.append_assoc, ← hlength]
  exact Bytes.hasAt_toByteArray _ _ _

/-- The jump table gives back the targets, and nothing past them. -/
theorem jumpTarget?_build (builder : Builder) (index : Nat) :
    builder.build.jumpTarget? index = builder.targets[index]? := by
  have hcount : builder.build.image.entryCount = builder.targets.size := rfl
  rw [jumpTarget?, hcount]
  split
  · next hindex =>
      have htargets : builder.targets.toList = builder.targets.toList.take index ++
          builder.targets[index] :: builder.targets.toList.drop (index + 1) := by
        rw [← Array.getElem_toList, List.getElem_cons_drop, List.take_append_drop]
      have hentry := hasAt_jumpTable htargets
      rw [List.length_take_of_le (Nat.le_of_lt hindex), Bytes.HasAt,
        LittleEndian.length_ofNat] at hentry
      have hlength : (LittleEndian.ofNat builder.entryWidth
          builder.targets[index].toNat).length ≤ 8 := by
        rw [LittleEndian.length_ofNat]
        exact Nat.le_trans builder.entryWidth_le (by decide)
      have hfits := toNat_lt_of_mem_targets (Array.getElem_mem_toList hindex)
      have hwidth : builder.build.image.entryWidth.toNat = builder.entryWidth :=
        builder.toNat_entryWidth
      have htable : builder.build.image.jumpTable = builder.image.jumpTable := rfl
      dsimp only
      rw [hwidth, htable, hentry, Array.getElem?_eq_getElem hindex, Option.some_inj]
      apply UInt32.toNat_inj.mp
      rw [UInt64.toNat_toUInt32, LittleEndian.toNat_decode hlength, LittleEndian.toNat_ofNat,
        Nat.mod_eq_of_lt hfits, Nat.mod_eq_of_lt builder.targets[index].toNat_lt]
  · next hindex => rw [Array.getElem?_eq_none (Nat.not_lt.mp hindex)]

end Program.Builder

end GasMachine
