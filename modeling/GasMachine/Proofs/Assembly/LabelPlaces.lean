import Mathlib
import GasMachine.Proofs.Assembly.RoundTrip

/-!
# The places of labels

A label names the place where the next instruction starts, whichever line writes it.  The first
pass notes the places of all labels before a target is known; the second pass lays the instructions
out again, with their offsets filled in.  Both count the same bytes, because filling in an offset
does not make an instruction longer or shorter.
-/

namespace GasMachine

namespace Program

/-! ## Where instructions start -/

/-- The offset of the instruction with the given number, or the end of the code past the last
one. -/
def startOf (program : Program) (index : Nat) : Nat :=
  (program.instructions[index]?.map Prod.fst).getD program.image.code.size

theorem getD_laidOut (pc : Nat) (instructions : List Instruction) (index : Nat) :
    ((laidOut pc instructions)[index]?.map Prod.fst).getD
        (pc + (instructions.flatMap Instruction.encode).length) =
      pc + ((instructions.take index).flatMap Instruction.encode).length := by
  induction instructions generalizing pc index with
  | nil => simp [laidOut]
  | cons instruction rest ih =>
      cases index with
      | zero => simp [laidOut]
      | succ index =>
          rw [laidOut, List.getElem?_cons_succ, List.take_succ_cons, List.flatMap_cons,
            List.flatMap_cons, List.length_append, List.length_append, ← Nat.add_assoc,
            ← Nat.add_assoc]
          exact ih (pc + instruction.encode.length) index

theorem map_snd_laidOut (pc : Nat) (instructions : List Instruction) :
    (laidOut pc instructions).map Prod.snd = instructions := by
  induction instructions generalizing pc with
  | nil => rfl
  | cons instruction rest ih => rw [laidOut, List.map_cons, ih]

/-- An instruction starts behind the bytes of those in front of it. -/
theorem startOf_holding {instructions : List Instruction} (targets : List UInt32)
    (hwellFormed : ∀ instruction ∈ instructions, instruction.WellFormed) (index : Nat) :
    (Builder.holding instructions targets).build.startOf index =
      ((instructions.take index).flatMap Instruction.encode).length := by
  have hcode : (Builder.holding instructions targets).build.image.code.size =
      (instructions.flatMap Instruction.encode).length := by
    rw [Builder.holding_eq]
    exact List.size_toByteArray
  have hstart := getD_laidOut 0 instructions index
  simp only [Nat.zero_add] at hstart
  rw [startOf, hcode, ← Array.getElem?_toList, Builder.instructions_holding targets hwellFormed,
    List.getElem?_map, Option.map_map]
  exact hstart

end Program

namespace Assembly

open Program.Builder (holding)

/-! ## Lines -/

def readLine (chars : List Char) : Except Fault Line := do
  parseLine (← tokens chars)

def readLines (text : String) : Except Fault (List Line) :=
  (lines text).mapM readLine

namespace Statement

/-- The instruction that is written, with the target of its offset. -/
def written? : Statement → Option (Instruction × Option Target)
  | .instruction written target => some (written, target)
  | .jumpTable _ => none

def entries : Statement → List Target
  | .instruction _ _ => []
  | .jumpTable entries => entries

/-- Exactly an instruction with an offset has a target. -/
def Targeted : Statement → Prop
  | .instruction written target => target.isSome = written.operands.offset?.isSome
  | .jumpTable _ => True

end Statement

def writtenInstructions (parsed : List Line) : List (Instruction × Option Target) :=
  (parsed.filterMap Line.statement).filterMap Statement.written?

def writtenEntries (parsed : List Line) : List Target :=
  (parsed.filterMap Line.statement).flatMap Statement.entries

def bytesOf (parsed : List Line) : Nat :=
  ((writtenInstructions parsed).map fun written => written.1.encode.length).sum

theorem writtenInstructions_append (front back : List Line) :
    writtenInstructions (front ++ back) =
      writtenInstructions front ++ writtenInstructions back := by
  rw [writtenInstructions, List.filterMap_append, List.filterMap_append]
  rfl

theorem bytesOf_append (front back : List Line) :
    bytesOf (front ++ back) = bytesOf front + bytesOf back := by
  rw [bytesOf, writtenInstructions_append, List.map_append, List.sum_append]
  rfl

/-! ## Parsing -/

theorem OperandReader.yields_targeted (opcode : Opcode) :
    Yields (OperandReader.operands opcode) fun outcome =>
      outcome.2.isSome = outcome.1.offset?.isSome := by
  rw [OperandReader.operands]
  cases hform : opcode.form <;> dsimp only <;>
    (repeat' refine yields_bind fun _ => ?_) <;>
    exact yields_pure rfl

/-- A line that is read has operands of the form that the opcode asks for, with a target if there
is an offset. -/
theorem sound_of_readLine {chars : List Char} {line : Line} {statement : Statement}
    (hread : readLine chars = .ok line) (hstatement : line.statement = some statement) :
    statement.WellFormed ∧ statement.Targeted := by
  obtain ⟨read, -, hparse⟩ := exists_of_bind_eq_ok hread
  obtain ⟨parsed, hparsed, rfl⟩ := exists_of_map_eq_ok hparse
  obtain rfl : parsed = some statement := hstatement
  refine ⟨wellFormed_of_parseStatement hparsed, ?_⟩
  rcases parseStatement_cases hparsed with ⟨entries, rfl⟩ | ⟨opcode, _, _, _, rfl, hrun⟩
  · trivial
  · exact OperandReader.yields_targeted opcode _ _ _ hrun

theorem forall₂_of_mapM {α β ε : Type} {function : α → Except ε β} {sources : List α}
    {results : List β} (hresults : sources.mapM function = .ok results) :
    List.Forall₂ (fun source result => function source = .ok result) sources results := by
  induction sources generalizing results with
  | nil =>
      obtain rfl := Except.ok.inj hresults
      exact .nil
  | cons source rest ih =>
      rw [List.mapM_cons] at hresults
      obtain ⟨first, hfirst, hresults⟩ := exists_of_bind_eq_ok hresults
      obtain ⟨others, hothers, hresults⟩ := exists_of_bind_eq_ok hresults
      obtain rfl := Except.ok.inj hresults
      exact .cons hfirst (ih hothers)

theorem sound_of_readLines {text : String} {parsed : List Line}
    (hread : readLines text = .ok parsed) :
    ∀ statement ∈ parsed.filterMap Line.statement, statement.WellFormed ∧ statement.Targeted := by
  have hlines : List.Forall₂ (fun line chars =>
      (∀ statement, line.statement = some statement →
        statement.WellFormed ∧ statement.Targeted) ∧ readLine chars = .ok line)
      parsed (lines text) :=
    (forall₂_of_mapM hread).flip.imp fun _ _ hline => ⟨fun _ => sound_of_readLine hline, hline⟩
  intro statement hstatement
  obtain ⟨line, hline, heq⟩ := List.mem_filterMap.mp hstatement
  exact ((List.forall₂_and_left _ _).mp hlines).1 line hline statement heq

/-! ## The first pass -/

/-- A label stands in a line in front of which so many bytes are written. -/
def Marks (parsed : List Line) (name : String) (place : Nat) : Prop :=
  ∃ before line after, parsed = before ++ line :: after ∧ name ∈ line.labels ∧
    place = bytesOf before

namespace Outline

variable {outline after : Outline}

theorem offset_define {names : List String} (hdefine : outline.define names = .ok after) :
    after.offset = outline.offset := by
  induction names generalizing outline with
  | nil => rw [← Except.ok.inj hdefine]
  | cons label rest ih =>
      rw [define] at hdefine
      split at hdefine
      · cases hdefine
      · exact (ih hdefine :)

theorem lookup_define {names : List String} (hdefine : outline.define names = .ok after)
    (name : String) :
    after.labels.lookup name =
      if name ∈ names then some outline.offset else outline.labels.lookup name := by
  induction names generalizing outline with
  | nil => rw [← Except.ok.inj hdefine, if_neg List.not_mem_nil]
  | cons label rest ih =>
      rw [define] at hdefine
      split at hdefine
      · cases hdefine
      · rw [ih hdefine]
        dsimp only
        rw [List.lookup_cons]
        grind

/-- The labels of a line are new, and each is there once. -/
theorem distinct_define {names : List String} (hdefine : outline.define names = .ok after) :
    names.Nodup ∧ ∀ name ∈ names, outline.labels.lookup name = none := by
  induction names generalizing outline with
  | nil => simp
  | cons label rest ih =>
      rw [define] at hdefine
      split at hdefine
      · cases hdefine
      · next hnew =>
          obtain ⟨hdistinct, hlater⟩ := ih hdefine
          have hrest : ∀ name ∈ rest, name ≠ label ∧ outline.labels.lookup name = none := by
            intro name hname
            have hnone := hlater name hname
            rw [List.lookup_cons] at hnone
            grind
          constructor
          · exact List.nodup_cons.mpr ⟨fun hlabel => (hrest label hlabel).1 rfl, hdistinct⟩
          · rw [List.forall_mem_cons]
            exact ⟨Option.not_isSome_iff_eq_none.mp hnew, fun name hname => (hrest name hname).2⟩

/-- An added line is read, its labels are defined, and its statement is taken up. -/
theorem exists_readLine_of_addLine {number : Nat} {chars : List Char}
    (hadd : outline.addLine number chars = .ok after) :
    ∃ line defined, readLine chars = .ok line ∧ outline.define line.labels = .ok defined ∧
      after.labels = defined.labels ∧
      after.statements.toList =
        defined.statements.toList ++ line.statement.toList.map (Prod.mk number) ∧
      after.offset = defined.offset + UInt32.ofNat (bytesOf [line]) := by
  rw [addLine] at hadd
  obtain ⟨read, hread, hadd⟩ := exists_of_bind_eq_ok hadd
  obtain ⟨line, hparse, hadd⟩ := exists_of_bind_eq_ok hadd
  obtain ⟨defined, hdefine, hadd⟩ := exists_of_bind_eq_ok hadd
  refine ⟨line, defined, ?_, hdefine, ?_⟩
  · rw [readLine, hread, ok_bind, hparse]
  rcases line with ⟨labels, _ | _ | _⟩
  all_goals
    obtain rfl := Except.ok.inj hadd
    simp [append, bytesOf, writtenInstructions, List.filterMap_cons, Statement.written?]

structure Describes (outline : Outline) (parsed : List Line) : Prop where
  statements : outline.statements.toList.map Prod.snd = parsed.filterMap Line.statement
  offset : outline.offset = UInt32.ofNat (bytesOf parsed)
  distinct : (parsed.flatMap Line.labels).Nodup
  labels : ∀ name place, outline.labels.lookup name = some place ↔
    ∃ count, Marks parsed name count ∧ place = UInt32.ofNat count

theorem describes_empty : Describes {} [] where
  statements := rfl
  offset := rfl
  distinct := List.nodup_nil
  labels := by simp [Marks]

end Outline

theorem exists_marks_iff {parsed : List Line} {name : String} :
    (∃ place, Marks parsed name place) ↔ name ∈ parsed.flatMap Line.labels := by
  rw [List.mem_flatMap]
  constructor
  · rintro ⟨_, before, line, after, rfl, hname, -⟩
    exact ⟨line, by simp, hname⟩
  · rintro ⟨line, hline, hname⟩
    obtain ⟨before, after, hparsed⟩ := List.append_of_mem hline
    exact ⟨_, before, line, after, hparsed, hname, rfl⟩

/-- A further line adds its own labels behind all the bytes so far. -/
theorem marks_concat_iff {parsed : List Line} {line : Line} {name : String} {place : Nat} :
    Marks (parsed ++ [line]) name place ↔
      Marks parsed name place ∨ (name ∈ line.labels ∧ place = bytesOf parsed) := by
  constructor
  · rintro ⟨before, marked, after, hparsed, hname, rfl⟩
    rcases List.eq_nil_or_concat after with rfl | ⟨middle, last, rfl⟩
    · obtain ⟨rfl, hlast⟩ := List.append_inj' hparsed rfl
      obtain rfl := List.singleton_inj.mp hlast
      exact .inr ⟨hname, rfl⟩
    · rw [List.concat_eq_append, ← List.cons_append, ← List.append_assoc] at hparsed
      obtain ⟨rfl, -⟩ := List.append_inj' hparsed rfl
      exact .inl ⟨before, marked, middle, rfl, hname, rfl⟩
  · rintro (⟨before, marked, after, rfl, hname, hplace⟩ | ⟨hname, hplace⟩)
    · exact ⟨before, marked, after ++ [line], by simp, hname, hplace⟩
    · exact ⟨parsed, line, [], rfl, hname, hplace⟩

namespace Outline

variable {outline after : Outline} {parsed : List Line}

theorem Describes.lookup_eq_none_iff (hdescribes : outline.Describes parsed) (name : String) :
    outline.labels.lookup name = none ↔ name ∉ parsed.flatMap Line.labels := by
  rw [← exists_marks_iff, Option.eq_none_iff_forall_not_mem]
  simp only [Option.mem_def, hdescribes.labels]
  grind

/-- A line that is added is described with the others. -/
theorem Describes.addLine (hdescribes : outline.Describes parsed) {number : Nat}
    {chars : List Char} (hadd : outline.addLine number chars = .ok after) :
    ∃ line, readLine chars = .ok line ∧ after.Describes (parsed ++ [line]) := by
  obtain ⟨line, defined, hread, hdefine, hlabels, hstatements, hoffset⟩ :=
    exists_readLine_of_addLine hadd
  obtain ⟨hdistinct, hnew⟩ := distinct_define hdefine
  have hfresh : ∀ name ∈ line.labels, name ∉ parsed.flatMap Line.labels := fun name hname =>
    (hdescribes.lookup_eq_none_iff name).mp (hnew name hname)
  refine ⟨line, hread, ?_, ?_, ?_, ?_⟩
  · rw [hstatements, statements_define hdefine, List.map_append, hdescribes.statements,
      List.filterMap_append]
    cases hline : line.statement <;> simp [hline]
  · rw [hoffset, offset_define hdefine, hdescribes.offset, bytesOf_append, UInt32.ofNat_add]
  · rw [List.flatMap_append, List.flatMap_singleton]
    exact hdescribes.distinct.append hdistinct fun name hparsed hline => hfresh name hline hparsed
  · intro name place
    rw [hlabels, lookup_define hdefine, hdescribes.offset]
    simp only [marks_concat_iff]
    split
    · next hname =>
        -- A label of the new line is not among the earlier ones.
        have hother : ∀ count, ¬Marks parsed name count := fun count hmarks =>
          hfresh name hname (exists_marks_iff.mp ⟨count, hmarks⟩)
        simp [hname, hother, eq_comm]
    · next hname => simp [hname, hdescribes.labels]

/-- What is added line by line is described as a whole. -/
theorem Describes.addLines (hdescribes : outline.Describes parsed) {number : Nat}
    {texts : List (List Char)} (hlines : outline.addLines number texts = .ok after) :
    ∃ rest, texts.mapM readLine = .ok rest ∧ after.Describes (parsed ++ rest) := by
  induction texts generalizing outline parsed number with
  | nil =>
      obtain rfl := Except.ok.inj hlines
      exact ⟨[], rfl, by rwa [List.append_nil]⟩
  | cons chars texts ih =>
      rw [Outline.addLines] at hlines
      split at hlines
      · cases hlines
      · next hadd =>
          obtain ⟨line, hread, hafter⟩ := hdescribes.addLine hadd
          obtain ⟨rest, hrest, hall⟩ := ih hafter hlines
          rw [List.append_assoc] at hall
          refine ⟨line :: rest, ?_, hall⟩
          rw [List.mapM_cons, hread, ok_bind, hrest]
          rfl

end Outline

/-! ## The second pass -/

inductive Placed (labels : Labels) : Instruction × Option Target → Nat × Instruction → Prop
  | whole {pc : Nat} {instruction : Instruction}
      (hoffset : instruction.operands.offset? = none) :
      Placed labels (instruction, none) (pc, instruction)
  | directed {pc : Nat} {instruction : Instruction} {target : Target} {place : UInt32}
      (hoffset : instruction.operands.offset?.isSome)
      (hresolve : target.resolve labels = .ok place) :
      Placed labels (instruction, some target)
        (pc, { instruction with
          operands := instruction.operands.withOffset (place - UInt32.ofNat pc) })

structure PlacedAll (labels : Labels) (statements : List Statement)
    (instructions : List Instruction) (targets : List UInt32) : Prop where
  wellFormed : ∀ instruction ∈ instructions, instruction.WellFormed
  placed : List.Forall₂ (Placed labels) (statements.filterMap Statement.written?)
    (Program.laidOut 0 instructions)
  resolved : List.Forall₂ (fun target place => Target.resolve labels target = .ok place)
    (statements.flatMap Statement.entries) targets

section Placing

variable {labels : Labels} {statements : List Statement} {instructions : List Instruction}
variable {targets : List UInt32}

theorem PlacedAll.push (hplaced : PlacedAll labels statements instructions targets)
    {written placed : Instruction} {target : Option Target} (hwellFormed : placed.WellFormed)
    (hlast : Placed labels (written, target)
      ((instructions.flatMap Instruction.encode).length, placed)) :
    PlacedAll labels (statements ++ [.instruction written target]) (instructions ++ [placed])
      targets where
  wellFormed := by
    rw [List.forall_mem_append, List.forall_mem_singleton]
    exact ⟨hplaced.wellFormed, hwellFormed⟩
  placed := by
    rw [List.filterMap_append, Program.laidOut_append, Nat.zero_add]
    exact List.rel_append hplaced.placed (.cons hlast .nil)
  resolved := by
    rw [List.flatMap_append, List.flatMap_singleton, Statement.entries, List.append_nil]
    exact hplaced.resolved

/-- One more statement is placed behind those that are there. -/
theorem PlacedAll.place (hplaced : PlacedAll labels statements instructions targets)
    {statement : Statement} {builder : Program.Builder} (hwellFormed : statement.WellFormed)
    (htargeted : statement.Targeted)
    (hplace : place labels (holding instructions targets) statement = .ok builder) :
    ∃ instructions targets, builder = holding instructions targets ∧
      PlacedAll labels (statements ++ [statement]) instructions targets := by
  match statement with
  | .instruction written none =>
      obtain rfl := Except.ok.inj hplace
      have hoffset : written.operands.offset? = none :=
        Option.isNone_iff_eq_none.mp (by simpa [Statement.Targeted] using htargeted)
      exact ⟨_, _, Program.Builder.push_holding .., hplaced.push hwellFormed (.whole hoffset)⟩
  | .instruction written (some target) =>
      obtain ⟨place, hresolve, hplace⟩ := exists_of_bind_eq_ok hplace
      obtain rfl := Except.ok.inj hplace
      rw [Program.Builder.offsetTo, Program.Builder.offset_holding, Program.Builder.push_holding]
      refine ⟨_, _, rfl, hplaced.push ?_ (.directed htargeted.symm hresolve)⟩
      exact hwellFormed.trans (Operands.form_withOffset _ _).symm
  | .jumpTable entries =>
      obtain ⟨places, hplaces, hplace⟩ := exists_of_bind_eq_ok hplace
      obtain rfl := Except.ok.inj hplace
      have hholding : places.foldl Program.Builder.pushTarget (holding instructions targets) =
          holding instructions (targets ++ places) := List.foldl_append.symm
      refine ⟨_, _, hholding, hplaced.wellFormed, ?_, ?_⟩
      · rw [List.filterMap_append]
        exact (List.append_nil _).symm ▸ hplaced.placed
      · rw [List.flatMap_append, List.flatMap_singleton]
        exact List.rel_append hplaced.resolved (forall₂_of_mapM hplaces)

/-- All statements are placed one behind the other. -/
theorem PlacedAll.placeAll (hplaced : PlacedAll labels statements instructions targets)
    {rest : List (Nat × Statement)} {builder : Program.Builder}
    (hsound : ∀ entry ∈ rest, entry.2.WellFormed ∧ entry.2.Targeted)
    (hplace : placeAll labels (holding instructions targets) rest = .ok builder) :
    ∃ instructions targets, builder = holding instructions targets ∧
      PlacedAll labels (statements ++ rest.map Prod.snd) instructions targets := by
  induction rest generalizing statements instructions targets with
  | nil =>
      obtain rfl := Except.ok.inj hplace
      exact ⟨instructions, targets, rfl, by rwa [List.map_nil, List.append_nil]⟩
  | cons entry rest ih =>
      obtain ⟨⟨hwellFormed, htargeted⟩, hrest⟩ := List.forall_mem_cons.mp hsound
      rw [Assembly.placeAll] at hplace
      split at hplace
      · cases hplace
      · next hfirst =>
          obtain ⟨instructions, targets, rfl, hplaced⟩ :=
            hplaced.place hwellFormed htargeted hfirst
          obtain ⟨instructions, targets, hbuilder, hall⟩ := ih hplaced hrest hplace
          rw [List.append_assoc, List.singleton_append] at hall
          exact ⟨instructions, targets, hbuilder, hall⟩

end Placing

/-! ## Both passes -/

/-- Where a target lies in a program that was assembled from the given lines: a label at the first
instruction that is written in its line or below, or at the end of the code. -/
inductive Target.LeadsTo (program : Program) (parsed : List Line) : Target → UInt32 → Prop
  | absolute (place : UInt32) : LeadsTo program parsed (.absolute place) place
  | label {before after : List Line} {line : Line} {name : String} {place : UInt32}
      (hparsed : parsed = before ++ line :: after) (hname : name ∈ line.labels)
      (hplace : place.toNat = program.startOf (writtenInstructions before).length) :
      LeadsTo program parsed (.label name) place

/-- An instruction of a program is a written one, with the offset filled in that leads from where
it is to its target. -/
inductive Carries (program : Program) (parsed : List Line) :
    Instruction × Option Target → Nat × Except DecodeError Instruction → Prop
  | whole {pc : Nat} {instruction : Instruction}
      (hoffset : instruction.operands.offset? = none) :
      Carries program parsed (instruction, none) (pc, .ok instruction)
  | directed {pc : Nat} {written instruction : Instruction} {target : Target} {offset : UInt32}
      (hinstruction : instruction =
        { written with operands := written.operands.withOffset offset })
      (hoffset : instruction.operands.offset? = some offset)
      (hleads : target.LeadsTo program parsed (UInt32.ofNat pc + offset)) :
      Carries program parsed (written, some target) (pc, .ok instruction)

theorem Placed.length_encode {labels : Labels} {written : Instruction × Option Target}
    {placed : Nat × Instruction} (hplaced : Placed labels written placed) :
    written.1.encode.length = placed.2.encode.length := by
  cases hplaced with
  | whole _ => rfl
  | directed _ _ =>
      rw [Instruction.length_encode, Instruction.length_encode,
        Instruction.length_encodeOperands_withOffset]

section Assembled

variable {outline : Outline} {parsed : List Line} {instructions : List Instruction}
variable {targets : List UInt32}

theorem PlacedAll.map_length_encode
    (hplaced : PlacedAll outline.labels (parsed.filterMap Line.statement) instructions targets) :
    instructions.map (fun instruction => instruction.encode.length) =
      (writtenInstructions parsed).map fun written => written.1.encode.length := by
  have hlengths : List.Forall₂ (· = ·)
      ((writtenInstructions parsed).map fun written => written.1.encode.length)
      ((Program.laidOut 0 instructions).map fun entry => entry.2.encode.length) := by
    rw [List.forall₂_map_left_iff, List.forall₂_map_right_iff]
    exact hplaced.placed.imp fun _ _ => Placed.length_encode
  rw [List.forall₂_eq_eq_eq] at hlengths
  calc instructions.map (fun instruction => instruction.encode.length)
      = ((Program.laidOut 0 instructions).map Prod.snd).map
          (fun instruction => instruction.encode.length) := by rw [Program.map_snd_laidOut]
    _ = (Program.laidOut 0 instructions).map fun entry => entry.2.encode.length := List.map_map
    _ = (writtenInstructions parsed).map fun written => written.1.encode.length := hlengths.symm

/-- The two passes count the same bytes. -/
theorem PlacedAll.startOf_eq
    (hplaced : PlacedAll outline.labels (parsed.filterMap Line.statement) instructions targets)
    {before rest : List Line} (hparsed : parsed = before ++ rest) :
    (holding instructions targets).build.startOf (writtenInstructions before).length =
      bytesOf before := by
  rw [Program.startOf_holding targets hplaced.wellFormed, List.length_flatMap, List.map_take,
    hplaced.map_length_encode, hparsed, writtenInstructions_append, List.map_append,
    List.take_left' (List.length_map _)]
  rfl

theorem PlacedAll.size_code
    (hplaced : PlacedAll outline.labels (parsed.filterMap Line.statement) instructions targets) :
    (holding instructions targets).build.image.code.size = bytesOf parsed := by
  rw [Program.Builder.holding_eq, bytesOf, ← hplaced.map_length_encode, ← List.length_flatMap]
  exact List.size_toByteArray

variable (hdescribes : outline.Describes parsed)
variable (hplaced : PlacedAll outline.labels (parsed.filterMap Line.statement) instructions targets)
variable (hsize : (holding instructions targets).build.image.code.size < 2 ^ 32)
include hdescribes hplaced hsize

/-- What the first pass notes for a target is where it lies in the program. -/
theorem leadsTo_of_resolve {target : Target} {place : UInt32}
    (hresolve : target.resolve outline.labels = .ok place) :
    target.LeadsTo (holding instructions targets).build parsed place := by
  cases target with
  | absolute offset =>
      obtain rfl := Except.ok.inj hresolve
      exact .absolute offset
  | label name =>
      rw [Target.resolve] at hresolve
      split at hresolve
      · next noted hlookup =>
          obtain rfl := Except.ok.inj hresolve
          obtain ⟨_, ⟨before, line, after, hparsed, hname, rfl⟩, rfl⟩ :=
            (hdescribes.labels name noted).mp hlookup
          have hbytes : bytesOf before < 2 ^ 32 := by
            calc bytesOf before ≤ bytesOf before + bytesOf (line :: after) := Nat.le_add_right _ _
              _ = bytesOf parsed := by rw [hparsed, bytesOf_append]
              _ < 2 ^ 32 := hplaced.size_code ▸ hsize
          refine .label hparsed hname ?_
          rw [hplaced.startOf_eq hparsed, UInt32.toNat_ofNat_of_lt' hbytes]
      · cases hresolve

theorem carries_of_placed {written : Instruction × Option Target} {placed : Nat × Instruction}
    (hplacedAt : Placed outline.labels written placed) :
    Carries (holding instructions targets).build parsed written (placed.1, .ok placed.2) := by
  cases hplacedAt with
  | whole hoffset => exact .whole hoffset
  | @directed pc written target place hoffset hresolve =>
      refine .directed rfl (Operands.offset?_withOffset hoffset _) ?_
      rw [UInt32.add_comm, UInt32.sub_add_cancel]
      exact leadsTo_of_resolve hdescribes hplaced hsize hresolve

end Assembled

/-- Labels lead to the right place.  The instructions of an assembled program are those of its
lines, in order; where one has an offset, its address and the offset together give the place of
the target that is written, and so do the entries of the jump table.  A label, of which there is
only one of its name, is at the first instruction that is written in its line or below, or at the
end of the code if there is none. -/
theorem labels_lead_to_their_places {text : String} {program : Program}
    (hassemble : assemble text = .ok program) (hsize : program.image.code.size < 2 ^ 32) :
    ∃ parsed, readLines text = .ok parsed ∧ (parsed.flatMap Line.labels).Nodup ∧
      List.Forall₂ (Carries program parsed) (writtenInstructions parsed)
        program.instructions.toList ∧
      List.Forall₂ (Target.LeadsTo program parsed) (writtenEntries parsed) program.jumpTargets := by
  obtain ⟨outline, hlines, hassemble⟩ := exists_of_bind_eq_ok hassemble
  obtain ⟨builder, hplace, hassemble⟩ := exists_of_bind_eq_ok hassemble
  obtain rfl := Except.ok.inj hassemble
  obtain ⟨parsed, hparsed, hdescribes⟩ := Outline.describes_empty.addLines hlines
  rw [List.nil_append] at hdescribes
  have hsound : ∀ entry ∈ outline.statements.toList,
      entry.2.WellFormed ∧ entry.2.Targeted := by
    intro entry hentry
    apply sound_of_readLines hparsed
    rw [← hdescribes.statements]
    exact List.mem_map_of_mem hentry
  have hnothing : PlacedAll outline.labels [] [] [] := ⟨List.forall_mem_nil _, .nil, .nil⟩
  obtain ⟨instructions, targets, rfl, hplaced⟩ := hnothing.placeAll hsound hplace
  rw [List.nil_append, hdescribes.statements] at hplaced
  refine ⟨parsed, hparsed, hdescribes.distinct, ?_, ?_⟩
  · rw [Program.Builder.instructions_holding targets hplaced.wellFormed,
      List.forall₂_map_right_iff]
    exact hplaced.placed.imp fun _ _ => carries_of_placed hdescribes hplaced hsize
  · rw [Program.jumpTargets_holding]
    exact hplaced.resolved.imp fun _ _ => leadsTo_of_resolve hdescribes hplaced hsize

/-- A text with jumps forwards, backwards and in place, two labels in a line, a label at the end
and a jump table in the middle. -/
def crossing : String :=
  "start: top: load_imm r3, 5\nself: jump self\n.jump_table top, last, 7, ahead\n" ++
    "branch_eq r1, r2, ahead\nfallthrough\nahead:\nalso: jump start\nlast:"

theorem crossing_leads_to_its_places :
    ∃ program, assemble crossing = .ok program ∧ program.image.code.size < 2 ^ 32 ∧
      program.instructions.toList.map Prod.fst = [0, 3, 8, 14, 15] ∧
      program.jumpTargets = [0, 20, 7, 15] ∧
      ∃ parsed, readLines crossing = .ok parsed ∧ (parsed.flatMap Line.labels).Nodup ∧
        List.Forall₂ (Carries program parsed) (writtenInstructions parsed)
          program.instructions.toList ∧
        List.Forall₂ (Target.LeadsTo program parsed) (writtenEntries parsed)
          program.jumpTargets := by
  have hfacts : (assemble crossing).toOption.map (fun program =>
      (program.image.code.size, program.instructions.toList.map Prod.fst, program.jumpTargets)) =
        some (20, [0, 3, 8, 14, 15], [0, 20, 7, 15]) := by
    decide +kernel
  cases hassemble : assemble crossing with
  | error error =>
      rw [hassemble] at hfacts
      cases hfacts
  | ok program =>
      rw [hassemble] at hfacts
      obtain ⟨hcode, hlists⟩ := Prod.mk.inj (Option.some.inj hfacts)
      obtain ⟨hstarts, htargets⟩ := Prod.mk.inj hlists
      have hsize : program.image.code.size < 2 ^ 32 := hcode ▸ by decide
      exact ⟨program, rfl, hsize, hstarts, htargets, labels_lead_to_their_places hassemble hsize⟩

end Assembly

end GasMachine
