import GasMachine.Proofs.Assembly.AssembledPrograms
import GasMachine.Proofs.Assembly.PrintedLines

/-!
# Assembling listings

The listing of any program can be assembled.  What comes out has the instructions
that could be decoded, leading to the same places, and the same jump table; if
nothing was lost, which is the case for every program that was built or assembled,
it is the same program.
-/

namespace GasMachine

/-! ## What a listing shows -/

namespace Program

def jumpTargets (program : Program) : List UInt32 :=
  (List.range program.image.entryCount).filterMap program.jumpTarget?

theorem jumpTarget?_of_lt {program : Program} {index : Nat}
    (hindex : index < program.image.entryCount) :
    program.jumpTarget? index = some ((program.jumpTarget? index).getD 0) := by
  rw [jumpTarget?, if_pos hindex]
  rfl

/-- The table has one target for each of its entries. -/
theorem jumpTargets_eq_map (program : Program) :
    program.jumpTargets = (List.range program.image.entryCount).map fun index =>
      (program.jumpTarget? index).getD 0 := by
  have hentries : ∀ index ∈ List.range program.image.entryCount,
      program.jumpTarget? index = some ((program.jumpTarget? index).getD 0) :=
    fun index hindex => jumpTarget?_of_lt (List.mem_range.mp hindex)
  rw [jumpTargets, List.filterMap_congr hentries, List.filterMap_eq_map']

theorem length_jumpTargets (program : Program) :
    program.jumpTargets.length = program.image.entryCount := by
  rw [jumpTargets_eq_map, List.length_map, List.length_range]

theorem getElem?_jumpTargets (program : Program) (index : Nat) :
    program.jumpTargets[index]? = program.jumpTarget? index := by
  rw [jumpTargets_eq_map, List.getElem?_map]
  rcases Nat.lt_or_ge index program.image.entryCount with hindex | hindex
  · rw [List.getElem?_range hindex, jumpTarget?_of_lt hindex]
    rfl
  · rw [List.getElem?_eq_none (by simpa using hindex), jumpTarget?,
      if_neg (Nat.not_lt.mpr hindex)]
    rfl

/-- What the listing shows at each offset: an instruction, with the place that it leads to instead
of its offset, or why there is none. -/
def shown (program : Program) : List (Except DecodeError Instruction) :=
  program.instructions.toList.map fun entry =>
    entry.2.map fun instruction => instruction.absolute (UInt32.ofNat entry.1)

def shownInstructions (program : Program) : List Instruction :=
  program.shown.filterMap Except.toOption

theorem wellFormed_of_mem_instructions {program : Program}
    {entry : Nat × Except DecodeError Instruction} (hentry : entry ∈ program.instructions.toList)
    {instruction : Instruction} (hinstruction : entry.2 = .ok instruction) :
    instruction.WellFormed := by
  obtain ⟨pc, -, rfl⟩ := Array.mem_map.mp (Array.mem_toList_iff.mp hentry)
  exact Instruction.wellFormed_of_decode hinstruction

theorem filter_isOk_shown (program : Program) :
    program.shown.filter Except.isOk = program.shownInstructions.map .ok := by
  rw [shownInstructions]
  induction program.shown with
  | nil => rfl
  | cons first rest ih =>
      cases first with
      | error error => exact ih
      | ok instruction => exact congrArg (Except.ok instruction :: ·) ih

theorem shownInstructions_eq {program : Program} {instructions : List Instruction}
    (hshown : program.shown = instructions.map .ok) :
    program.shownInstructions = instructions := by
  rw [shownInstructions, hshown, List.filterMap_map]
  exact List.filterMap_some

/-- A built program shows the instructions that it was built from. -/
theorem shown_holding {instructions : List Instruction} (targets : List UInt32)
    (hwellFormed : ∀ instruction ∈ instructions, instruction.WellFormed) :
    (Builder.holding instructions targets).build.shown = (absolutes 0 instructions).map .ok := by
  rw [shown, Builder.instructions_holding targets hwellFormed, absolutes, List.map_map,
    List.map_map]
  rfl

theorem jumpTargets_holding (instructions : List Instruction) (targets : List UInt32) :
    (Builder.holding instructions targets).build.jumpTargets = targets := by
  apply List.ext_getElem?
  intro index
  rw [getElem?_jumpTargets, Builder.jumpTarget?_build, Builder.holding_eq, List.getElem?_toArray]

theorem wellFormed_of_mem_shownInstructions {program : Program} {instruction : Instruction}
    (hinstruction : instruction ∈ program.shownInstructions) : instruction.WellFormed := by
  obtain ⟨shown, hshown, heq⟩ := List.mem_filterMap.mp hinstruction
  obtain ⟨⟨pc, error | original⟩, hentry, rfl⟩ := List.mem_map.mp hshown
  · cases heq
  · obtain rfl := Option.some.inj heq
    exact (original.wellFormed_shift _).mpr (wellFormed_of_mem_instructions hentry rfl)

end Program

namespace Assembly

open Program (relocated)
open Program.Builder (holding)

/-! ## The text of a program -/

theorem toList_showJumpTable (program : Program) :
    (showJumpTable program).toList =
      (jumpTableLines program.jumpTargets).flatMap (· ++ ['\n']) := by
  have hempty : program.jumpTargets = [] ↔ program.image.entryCount = 0 := by
    rw [← List.length_eq_zero_iff, Program.length_jumpTargets]
  rw [showJumpTable, jumpTableLines]
  by_cases hnone : program.image.entryCount = 0
  · rw [if_pos hnone, if_pos (hempty.mpr hnone)]
    rfl
  · rw [if_neg hnone, if_neg (mt hempty.mp hnone), List.flatMap_singleton,
      String.toList_append, Program.jumpTargets]
    rfl

theorem toList_foldl_showLine (entries : List (Nat × Except DecodeError Instruction))
    (text : String) :
    (entries.foldl (fun text (pc, decoded) => text ++ showLine pc decoded) text).toList =
      text.toList ++ (entries.map fun entry => lineOf entry.1 entry.2).flatMap (· ++ ['\n']) := by
  induction entries generalizing text with
  | nil => simp
  | cons entry rest ih =>
      rw [List.foldl_cons, ih]
      simp [toList_showLine]

/-- The text of a program is its lines, each with a line feed. -/
theorem disassemble_eq (program : Program) :
    disassemble program =
      String.ofList ((listing program.jumpTargets program.instructions.toList).flatMap
        (· ++ ['\n'])) := by
  rw [← String.toList_inj, String.toList_ofList, disassemble, ← Array.foldl_toList,
    toList_foldl_showLine, toList_showJumpTable, listing, List.flatMap_append]

theorem lines_disassemble (program : Program) :
    lines (disassemble program) = listing program.jumpTargets program.instructions.toList := by
  rw [disassemble_eq, lines_ofList fun _ => lineFeed_not_mem_listing]

/-! ## Assembling lines -/

theorem addLine_of_readsAs {chars : List Char} {statement : Option Statement}
    (hreads : ReadsAs chars statement) (outline : Outline) (line : Nat) :
    outline.addLine line chars = .ok (statement.elim outline (outline.append line)) := by
  obtain ⟨read, htokens, hparse⟩ := hreads
  rw [Outline.addLine, htokens, ok_bind, hparse, ok_bind, Outline.define, ok_bind]
  cases statement <;> rfl

/-- Lines that define no labels add their statements and nothing else. -/
theorem exists_addLines {texts : List (List Char)} {statements : List (Option Statement)}
    (hreads : List.Forall₂ ReadsAs texts statements) (outline : Outline) (line : Nat) :
    ∃ after, outline.addLines line texts = .ok after ∧ after.labels = outline.labels ∧
      after.statements.toList.map Prod.snd =
        outline.statements.toList.map Prod.snd ++ statements.reduceOption := by
  induction hreads generalizing outline line with
  | nil => exact ⟨outline, rfl, rfl, by simp⟩
  | @cons chars statement rest later hread _ ih =>
      obtain ⟨after, hlines, hlabels, hstatements⟩ :=
        ih (statement.elim outline (outline.append line)) (line + 1)
      refine ⟨after, ?_, ?_, ?_⟩
      · rw [Outline.addLines, addLine_of_readsAs hread]
        exact hlines
      · rw [hlabels]
        cases statement <;> rfl
      · rw [hstatements]
        cases statement with
        | none => rw [List.reduceOption_cons_of_none]; rfl
        | some statement => simp [Outline.append]

/-- The numbers of the lines do not matter unless something is wrong in one of them. -/
theorem placeAll_of_foldlM {labels : Labels} {statements : List (Nat × Statement)}
    {builder after : Program.Builder}
    (hplaced : (statements.map Prod.snd).foldlM (place labels) builder = .ok after) :
    placeAll labels builder statements = .ok after := by
  induction statements generalizing builder with
  | nil =>
      obtain rfl := Except.ok.inj hplaced
      rfl
  | cons entry rest ih =>
      rw [List.map_cons, List.foldlM_cons] at hplaced
      obtain ⟨next, hplace, hplaced⟩ := exists_of_bind_eq_ok hplaced
      rw [placeAll, hplace]
      exact ih hplaced

/-- A text without labels is assembled by placing its statements one after another. -/
theorem assemble_of_readsAs {text : String} {statements : List (Option Statement)}
    {builder : Program.Builder} (hreads : List.Forall₂ ReadsAs (lines text) statements)
    (hplaced : statements.reduceOption.foldlM (place []) {} = .ok builder) :
    assemble text = .ok builder.build := by
  obtain ⟨outline, hlines, hlabels, hstatements⟩ := exists_addLines hreads {} 1
  have hall : placeAll outline.labels {} outline.statements.toList = .ok builder := by
    apply placeAll_of_foldlM
    rw [hlabels, hstatements]
    exact hplaced
  rw [assemble, hlines, ok_bind, hall, ok_bind]
  rfl

/-! ## Placing instructions -/

section Placing

variable (labels : Labels) (instructions : List Instruction) (targets : List UInt32)

/-- An instruction gets the offset that leads from where it is placed to where it should. -/
theorem place_statementOf (instruction : Instruction) :
    place labels (holding instructions targets) (statementOf instruction) =
      .ok (holding (instructions ++
        [instruction.relative (UInt32.ofNat (instructions.flatMap Instruction.encode).length)])
        targets) := by
  rw [← Program.Builder.push_holding, Instruction.relative, Instruction.shift, Operands.shift,
    statementOf]
  cases hoffset : instruction.operands.offset? with
  | none =>
      rw [Option.map_none, place, Operands.withOffset_of_offset?_eq_none hoffset]
  | some target =>
      rw [Option.map_some, place, Target.resolve, ok_bind]
      dsimp only
      rw [Operands.withOffset_withOffset, Program.Builder.offsetTo,
        Program.Builder.offset_holding, UInt32.sub_eq_add_neg]
      rfl

theorem foldlM_place (placed : List Instruction) :
    (placed.map statementOf).foldlM (place labels) (holding instructions targets) =
      .ok (holding (instructions ++
        relocated (instructions.flatMap Instruction.encode).length placed) targets) := by
  induction placed generalizing instructions with
  | nil =>
      rw [relocated, List.append_nil]
      rfl
  | cons instruction rest ih =>
      -- Its offset changes when it is placed, but not how much room it takes.
      have hlength (pc : UInt32) : (instruction.relative pc).encode.length =
          instruction.encode.length := instruction.length_encode_shift _
      rw [List.map_cons, List.foldlM_cons, place_statementOf, ok_bind, ih, relocated,
        List.flatMap_append, List.flatMap_singleton, List.length_append, hlength,
        List.append_assoc, List.singleton_append]

theorem mapM_resolve :
    (targets.map Target.absolute).mapM (Target.resolve labels) = .ok targets := by
  induction targets with
  | nil => rfl
  | cons target rest ih =>
      rw [List.map_cons, List.mapM_cons, Target.resolve, ok_bind, ih]
      rfl

theorem place_jumpTable :
    place labels {} (.jumpTable (targets.map Target.absolute)) = .ok (holding [] targets) := by
  rw [place, mapM_resolve, ok_bind]
  rfl

end Placing

/-! ## Reassembled programs -/

def reassembled (program : Program) : Program.Builder :=
  holding (relocated 0 program.shownInstructions) program.jumpTargets

def listedStatements (program : Program) : List (Option Statement) :=
  (if program.jumpTargets = [] then []
    else [some (.jumpTable (program.jumpTargets.map Target.absolute))]) ++
    program.shown.map fun shown => shown.toOption.map statementOf

theorem forall₂_listedStatements (program : Program) :
    List.Forall₂ ReadsAs (lines (disassemble program)) (listedStatements program) := by
  rw [lines_disassemble, listing, listedStatements]
  apply List.rel_append
  · rw [jumpTableLines]
    split
    · exact List.Forall₂.nil
    · exact List.Forall₂.cons (readsAs_jumpTable _) List.Forall₂.nil
  · rw [Program.shown, List.map_map, List.forall₂_map_left_iff, List.forall₂_map_right_iff,
      List.forall₂_same]
    intro entry hentry
    rcases entry with ⟨pc, error | instruction⟩
    · exact readsAs_comment _
    · exact readsAs_instruction _ (Program.wellFormed_of_mem_instructions hentry rfl)

theorem reduceOption_listedStatements (program : Program) :
    (listedStatements program).reduceOption =
      (if program.jumpTargets = [] then []
        else [.jumpTable (program.jumpTargets.map Target.absolute)]) ++
        program.shownInstructions.map statementOf := by
  rw [listedStatements, List.reduceOption_append, Program.shownInstructions]
  congr 1
  · split <;> rfl
  · rw [List.reduceOption, List.filterMap_map, List.map_filterMap]
    rfl

/-- Every listing can be assembled. -/
theorem assemble_disassemble (program : Program) :
    assemble (disassemble program) = .ok (reassembled program).build := by
  apply assemble_of_readsAs (forall₂_listedStatements program)
  have htable : (if program.jumpTargets = [] then []
      else [.jumpTable (program.jumpTargets.map Target.absolute)]).foldlM (place []) {} =
        .ok (holding [] program.jumpTargets) := by
    split
    · next hempty =>
        rw [hempty]
        rfl
    · rw [List.foldlM_cons, place_jumpTable, ok_bind]
      rfl
  rw [reduceOption_listedStatements, List.foldlM_append, htable, ok_bind, foldlM_place]
  rfl

section Reassembled

variable (program : Program)

theorem wellFormed_reassembled :
    ∀ instruction ∈ relocated 0 program.shownInstructions, instruction.WellFormed :=
  fun _ hmoved => Program.wellFormed_of_mem_relocated
    (fun _ hshown => Program.wellFormed_of_mem_shownInstructions hshown) hmoved

/-- The instructions that could be decoded are still there, and lead where they led. -/
theorem shown_reassembled :
    (reassembled program).build.shown = program.shownInstructions.map .ok := by
  rw [reassembled, Program.shown_holding _ (wellFormed_reassembled program),
    Program.absolutes_relocated]

theorem jumpTargets_reassembled :
    (reassembled program).build.jumpTargets = program.jumpTargets :=
  Program.jumpTargets_holding _ _

end Reassembled

/-- A program that was built from well-formed instructions is given back. -/
theorem reassembled_holding {instructions : List Instruction} (targets : List UInt32)
    (hwellFormed : ∀ instruction ∈ instructions, instruction.WellFormed) :
    reassembled (holding instructions targets).build = holding instructions targets := by
  have hshown : (holding instructions targets).build.shownInstructions =
      Program.absolutes 0 instructions :=
    Program.shownInstructions_eq (Program.shown_holding targets hwellFormed)
  rw [reassembled, hshown, Program.relocated_absolutes, Program.jumpTargets_holding]

/-! ## Comments -/

def isComment (line : List Char) : Bool :=
  line.head? == some ';'

def withoutComments (text : String) : String :=
  String.ofList (((lines text).filter fun line => !isComment line).flatMap (· ++ ['\n']))

theorem not_isComment {line : List Char} (hline : ';' ∉ line) : (!isComment line) = true := by
  rw [Bool.not_eq_true', isComment, beq_eq_false_iff_ne]
  exact fun hhead => hline (List.mem_of_head? hhead)

/-- Without its comments, a listing has a line for each instruction that is shown. -/
theorem filter_listing (program : Program) :
    (listing program.jumpTargets program.instructions.toList).filter (fun line => !isComment line) =
      jumpTableLines program.jumpTargets ++
        program.shownInstructions.map fun instruction =>
          (showInstruction 0 instruction).toList := by
  rw [listing, List.filter_append]
  congr 1
  · rw [List.filter_eq_self]
    intro line hline
    exact not_isComment (not_mem_jumpTableLines (by decide) (by decide) hline)
  · rw [Program.shownInstructions, Program.shown]
    induction program.instructions.toList with
    | nil => rfl
    | cons entry rest ih =>
        rcases entry with ⟨pc, error | instruction⟩
        · exact ih
        · have hkept : (!isComment (lineOf pc (.ok instruction))) = true :=
            not_isComment (not_mem_showInstruction (by decide) (by decide) _ instruction)
          have hline : lineOf pc (.ok instruction) =
              (showInstruction 0 (instruction.absolute (UInt32.ofNat pc))).toList := by
            rw [showInstruction_absolute, lineOf]
          rw [List.map_cons, List.filter_cons_of_pos (p := fun line => !isComment line) hkept, ih,
            hline]
          rfl

theorem withoutComments_disassemble (program : Program) :
    withoutComments (disassemble program) =
      String.ofList ((jumpTableLines program.jumpTargets ++
        program.shownInstructions.map fun instruction =>
          (showInstruction 0 instruction).toList).flatMap (· ++ ['\n'])) := by
  rw [withoutComments, lines_disassemble, filter_listing]

/-- The listing of a built program has no comments. -/
theorem withoutComments_holding {instructions : List Instruction} (targets : List UInt32)
    (hwellFormed : ∀ instruction ∈ instructions, instruction.WellFormed) :
    withoutComments (disassemble (holding instructions targets).build) =
      disassemble (holding instructions targets).build := by
  have hlines : ∀ line ∈ lines (disassemble (holding instructions targets).build),
      (!isComment line) = true := by
    intro line hline
    rw [lines_disassemble, Program.Builder.instructions_holding targets hwellFormed] at hline
    rcases List.mem_append.mp hline with htable | hentry
    · exact not_isComment (not_mem_jumpTableLines (by decide) (by decide) htable)
    · obtain ⟨shown, hshown, rfl⟩ := List.mem_map.mp hentry
      obtain ⟨entry, -, rfl⟩ := List.mem_map.mp hshown
      exact not_isComment (not_mem_showInstruction (by decide) (by decide) _ entry.2)
  rw [withoutComments, List.filter_eq_self.mpr hlines, lines_disassemble, ← disassemble_eq]

/-- Reassembling loses the comments and nothing else. -/
theorem disassemble_reassembled (program : Program) :
    disassemble (reassembled program).build = withoutComments (disassemble program) := by
  have hshown : (reassembled program).build.shownInstructions = program.shownInstructions :=
    Program.shownInstructions_eq (shown_reassembled program)
  -- Both listings are compared without their comments, where only what is shown counts.
  calc disassemble (reassembled program).build
    _ = withoutComments (disassemble (reassembled program).build) :=
        (withoutComments_holding _ (wellFormed_reassembled program)).symm
    _ = withoutComments (disassemble program) := by
        rw [withoutComments_disassemble, withoutComments_disassemble, hshown,
          jumpTargets_reassembled]

/-- Every listing can be assembled.  The outcome has the instructions that could be decoded, in
order, with the same operands and leading to the same places, and the same jump table; its own
listing is the one it came from without the comments on undecodable bytes, and gives it back. -/
theorem listings_reassemble (program : Program) :
    ∃ again, assemble (disassemble program) = .ok again ∧
      again.shown = program.shown.filter Except.isOk ∧
      (∀ index, again.jumpTarget? index = program.jumpTarget? index) ∧
      disassemble again = withoutComments (disassemble program) ∧
      assemble (disassemble again) = .ok again := by
  have hagain : reassembled (reassembled program).build = reassembled program :=
    reassembled_holding _ (wellFormed_reassembled program)
  refine ⟨(reassembled program).build, assemble_disassemble program, ?_, ?_,
    disassemble_reassembled program, ?_⟩
  · rw [shown_reassembled, Program.filter_isOk_shown]
  · intro index
    rw [← Program.getElem?_jumpTargets, ← Program.getElem?_jumpTargets, jumpTargets_reassembled]
  · rw [assemble_disassemble, hagain]

/-- The listing of a program that was built from well-formed instructions assembles to that very
program, and so does the listing of every program that was assembled. -/
theorem canonical_programs_reassemble :
    (∀ (instructions : List Instruction) (targets : List UInt32),
      (∀ instruction ∈ instructions, instruction.WellFormed) →
        assemble (disassemble (holding instructions targets).build) =
          .ok (holding instructions targets).build) ∧
      ∀ (text : String) (program : Program), assemble text = .ok program →
        assemble (disassemble program) = .ok program := by
  have hbuilt : ∀ (instructions : List Instruction) (targets : List UInt32),
      (∀ instruction ∈ instructions, instruction.WellFormed) →
        assemble (disassemble (holding instructions targets).build) =
          .ok (holding instructions targets).build := by
    intro instructions targets hwellFormed
    rw [assemble_disassemble, reassembled_holding targets hwellFormed]
  refine ⟨hbuilt, ?_⟩
  intro text program hassemble
  obtain ⟨builder, ⟨instructions, targets, hwellFormed, rfl⟩, rfl⟩ :=
    canonical_of_assemble hassemble
  exact hbuilt instructions targets hwellFormed

/-- Instructions with short, long, negative and wide operands and with offsets in both
directions. -/
def assorted : List Instruction :=
  [⟨.loadImmJump, .regImmOffset .returnAddress 0xFFFFFFFE 300⟩,
    ⟨.loadImm64, .regWide .dataPointer 0x8000000000000001⟩,
    ⟨.storeImmU32, .immImm 0x20000 0⟩,
    ⟨.branchEq, .regRegOffset .stackPointer .dataSize 0xFFFFFFFC⟩,
    ⟨.add64, .regRegReg .dataPointer .dataSize .stackPointer⟩,
    ⟨.trap, .bare⟩]

/-- A text with a label that its jump table and its jump lead to. -/
def labelled : String :=
  "again: load_imm r3, -2\n.jump_table again, 7\njump again"

theorem assorted_and_labelled_reassemble :
    ((∀ instruction ∈ assorted, instruction.WellFormed) ∧
      assemble (disassemble (holding assorted [0, 70000, 5]).build) =
        .ok (holding assorted [0, 70000, 5]).build) ∧
      ∃ program, assemble labelled = .ok program ∧
        assemble (disassemble program) = .ok program := by
  have hwellFormed : ∀ instruction ∈ assorted, instruction.WellFormed := by decide
  have hlabelled : (assemble labelled).isOk = true := by decide +kernel
  refine ⟨⟨hwellFormed, canonical_programs_reassemble.1 assorted _ hwellFormed⟩, ?_⟩
  cases hprogram : assemble labelled with
  | error error =>
      rw [hprogram] at hlabelled
      cases hlabelled
  | ok program => exact ⟨program, rfl, canonical_programs_reassemble.2 _ _ hprogram⟩

end Assembly

end GasMachine
