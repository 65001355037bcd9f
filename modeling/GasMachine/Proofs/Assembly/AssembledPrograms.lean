import GasMachine.Assembly.Assemble
import GasMachine.Proofs.Instruction.Relocation
import GasMachine.Proofs.Program.BuiltPrograms

/-!
# Assembled programs

Whatever a text says, the assembler only emits instructions with the operands that their opcodes
ask for: the operand reader follows the form of the opcode, and filling in an offset keeps the
form.  Every program that comes out of the assembler is therefore the one built from some list of
well-formed instructions and some list of jump targets.
-/

namespace GasMachine

namespace Assembly

open Program.Builder (holding)

theorem exists_of_map_eq_ok {ε α β : Type} {first : Except ε α} {after : α → β} {value : β}
    (hmap : first.map after = .ok value) : ∃ middle, first = .ok middle ∧ after middle = value := by
  cases first with
  | error error => cases hmap
  | ok middle => exact ⟨middle, rfl, Except.ok.inj hmap⟩

theorem exists_of_bind_eq_ok {ε α β : Type} {first : Except ε α} {after : α → Except ε β}
    {value : β} (hbind : (first >>= after) = .ok value) :
    ∃ middle, first = .ok middle ∧ after middle = .ok value := by
  cases first with
  | error error => cases hbind
  | ok middle => exact ⟨middle, rfl, hbind⟩

/-! ## Parsing -/

namespace OperandReader

def Yields {α : Type} (reader : OperandReader α) (property : α → Prop) : Prop :=
  ∀ read value rest, reader.run read = .ok (value, rest) → property value

theorem yields_pure {α : Type} {value : α} {property : α → Prop} (hvalue : property value) :
    Yields (pure value) property := by
  intro read other rest hrun
  obtain ⟨rfl, -⟩ := Prod.mk.inj (Except.ok.inj hrun)
  exact hvalue

theorem yields_bind {α β : Type} {first : OperandReader α} {second : α → OperandReader β}
    {property : β → Prop} (hsecond : ∀ value, Yields (second value) property) :
    Yields (first >>= second) property := by
  intro read value rest hrun
  rw [StateT.run_bind] at hrun
  obtain ⟨middle, -, hrun⟩ := exists_of_bind_eq_ok hrun
  exact hsecond middle.1 middle.2 value rest hrun

/-- Operands are read in the form that the opcode asks for. -/
theorem yields_form (opcode : Opcode) :
    Yields (OperandReader.operands opcode) fun outcome => opcode.form = outcome.1.form := by
  -- Whatever is read on the way, the form is fixed by the last step.
  rw [OperandReader.operands]
  cases hform : opcode.form <;> dsimp only <;>
    (repeat' refine yields_bind fun _ => ?_) <;>
    exact yields_pure rfl

end OperandReader

/-- The instruction of a statement has the operands that its opcode asks for. -/
def Statement.WellFormed : Statement → Prop
  | .instruction pushed _ => pushed.WellFormed
  | .jumpTable _ => True

theorem exists_operands_of_parseInstruction {word : String} {read : List Token}
    {statement : Statement} (hparse : parseInstruction word read = .ok statement) :
    ∃ opcode operands target, statement = .instruction ⟨opcode, operands⟩ target ∧
      (OperandReader.operands opcode).run read = .ok ((operands, target), []) := by
  rw [parseInstruction] at hparse
  split at hparse
  · cases hparse
  · next opcode _ =>
      split at hparse
      · cases hparse
      · next operands target hrun =>
          exact ⟨opcode, operands, target, (Except.ok.inj hparse).symm, hrun⟩
      · cases hparse

/-- A statement is made of entries of the jump table, or of an opcode and the operands that were
read for it. -/
theorem parseStatement_cases {read : List Token} {statement : Statement}
    (hparse : parseStatement read = .ok (some statement)) :
    (∃ entries, statement = .jumpTable entries) ∨
      ∃ opcode operands target rest, statement = .instruction ⟨opcode, operands⟩ target ∧
        (OperandReader.operands opcode).run rest = .ok ((operands, target), []) := by
  unfold parseStatement at hparse
  split at hparse
  · cases hparse
  · split at hparse
    · obtain ⟨entries, -, hentries⟩ := exists_of_map_eq_ok hparse
      exact .inl ⟨entries, (Option.some.inj hentries).symm⟩
    · cases hparse
  · next rest =>
      obtain ⟨parsed, hinstruction, hparsed⟩ := exists_of_map_eq_ok hparse
      obtain rfl := Option.some.inj hparsed
      obtain ⟨opcode, operands, target, hstatement, hrun⟩ :=
        exists_operands_of_parseInstruction hinstruction
      exact .inr ⟨opcode, operands, target, rest, hstatement, hrun⟩
  · cases hparse

theorem wellFormed_of_parseStatement {read : List Token} {statement : Statement}
    (hparse : parseStatement read = .ok (some statement)) : statement.WellFormed := by
  rcases parseStatement_cases hparse with ⟨entries, rfl⟩ | ⟨opcode, _, _, _, rfl, hrun⟩
  · trivial
  · exact OperandReader.yields_form opcode _ _ _ hrun

/-! ## Outlines -/

namespace Outline

def WellFormed (outline : Outline) : Prop :=
  ∀ entry ∈ outline.statements.toList, entry.2.WellFormed

theorem statements_define {outline after : Outline} {names : List String}
    (hdefine : outline.define names = .ok after) : after.statements = outline.statements := by
  induction names generalizing outline with
  | nil =>
      obtain rfl := Except.ok.inj hdefine
      rfl
  | cons name rest ih =>
      rw [define] at hdefine
      split at hdefine
      · cases hdefine
      · exact (ih hdefine :)

theorem wellFormed_empty : WellFormed {} := List.forall_mem_nil _

theorem WellFormed.append {outline : Outline} (hwellFormed : outline.WellFormed) {line : Nat}
    {statement : Statement} (hstatement : statement.WellFormed) :
    (outline.append line statement).WellFormed := by
  intro entry hentry
  simp only [Outline.append, Array.toList_push, List.mem_append, List.mem_singleton] at hentry
  rcases hentry with hentry | rfl
  · exact hwellFormed entry hentry
  · exact hstatement

theorem WellFormed.addLine {outline after : Outline} (hwellFormed : outline.WellFormed)
    {line : Nat} {chars : List Char} (hline : outline.addLine line chars = .ok after) :
    after.WellFormed := by
  rw [Outline.addLine] at hline
  obtain ⟨read, -, hline⟩ := exists_of_bind_eq_ok hline
  obtain ⟨parsed, hparse, hline⟩ := exists_of_bind_eq_ok hline
  obtain ⟨defined, hdefine, hline⟩ := exists_of_bind_eq_ok hline
  obtain ⟨statement, hstatement, rfl⟩ := exists_of_map_eq_ok hparse
  have hdefined : defined.WellFormed := by
    rw [WellFormed, statements_define hdefine]
    exact hwellFormed
  cases statement with
  | none =>
      obtain rfl := Except.ok.inj hline
      exact hdefined
  | some statement =>
      obtain rfl := Except.ok.inj hline
      exact hdefined.append (wellFormed_of_parseStatement hstatement)

theorem WellFormed.addLines {outline after : Outline} (hwellFormed : outline.WellFormed)
    {line : Nat} {texts : List (List Char)} (hlines : outline.addLines line texts = .ok after) :
    after.WellFormed := by
  induction texts generalizing outline line with
  | nil =>
      obtain rfl := Except.ok.inj hlines
      exact hwellFormed
  | cons chars rest ih =>
      rw [Outline.addLines] at hlines
      split at hlines
      · cases hlines
      · next hline => exact ih (hwellFormed.addLine hline) hlines

end Outline

/-! ## Placing -/

/-- A builder that holds well-formed instructions and jump targets only. -/
def Canonical (builder : Program.Builder) : Prop :=
  ∃ instructions targets, (∀ instruction ∈ instructions, instruction.WellFormed) ∧
    builder = holding instructions targets

theorem canonical_empty : Canonical {} := ⟨[], [], List.forall_mem_nil _, rfl⟩

theorem Canonical.push {builder : Program.Builder} (hcanonical : Canonical builder)
    {instruction : Instruction} (hwellFormed : instruction.WellFormed) :
    Canonical (builder.push instruction) := by
  obtain ⟨instructions, targets, hinstructions, rfl⟩ := hcanonical
  refine ⟨instructions ++ [instruction], targets, ?_, Program.Builder.push_holding ..⟩
  rw [List.forall_mem_append, List.forall_mem_singleton]
  exact ⟨hinstructions, hwellFormed⟩

theorem Canonical.pushTargets {builder : Program.Builder} (hcanonical : Canonical builder)
    (targets : List UInt32) :
    Canonical (targets.foldl Program.Builder.pushTarget builder) := by
  induction targets generalizing builder with
  | nil => exact hcanonical
  | cons target rest ih =>
      obtain ⟨instructions, others, hinstructions, rfl⟩ := hcanonical
      exact ih ⟨instructions, others ++ [target], hinstructions,
        Program.Builder.pushTarget_holding ..⟩

theorem Canonical.place {labels : Labels} {builder after : Program.Builder}
    (hcanonical : Canonical builder) {statement : Statement} (hstatement : statement.WellFormed)
    (hplace : place labels builder statement = .ok after) : Canonical after := by
  match statement with
  | .instruction instruction none =>
      obtain rfl := Except.ok.inj hplace
      exact hcanonical.push hstatement
  | .instruction instruction (some target) =>
      obtain ⟨offset, -, hplace⟩ := exists_of_bind_eq_ok hplace
      obtain rfl := Except.ok.inj hplace
      exact hcanonical.push (hstatement.trans (Operands.form_withOffset _ _).symm)
  | .jumpTable entries =>
      obtain ⟨targets, -, hplace⟩ := exists_of_bind_eq_ok hplace
      obtain rfl := Except.ok.inj hplace
      exact hcanonical.pushTargets targets

theorem Canonical.placeAll {labels : Labels} {builder after : Program.Builder}
    (hcanonical : Canonical builder) {statements : List (Nat × Statement)}
    (hstatements : ∀ entry ∈ statements, entry.2.WellFormed)
    (hplaced : placeAll labels builder statements = .ok after) : Canonical after := by
  induction statements generalizing builder with
  | nil =>
      obtain rfl := Except.ok.inj hplaced
      exact hcanonical
  | cons entry rest ih =>
      obtain ⟨hentry, hrest⟩ := List.forall_mem_cons.mp hstatements
      rw [Assembly.placeAll] at hplaced
      split at hplaced
      · cases hplaced
      · next hplace => exact ih (hcanonical.place hentry hplace) hrest hplaced

/-- A text that assembles gives the program built from some well-formed instructions and some jump
targets. -/
theorem canonical_of_assemble {text : String} {program : Program}
    (hassemble : assemble text = .ok program) :
    ∃ builder, Canonical builder ∧ program = builder.build := by
  obtain ⟨outline, hlines, hassemble⟩ := exists_of_bind_eq_ok hassemble
  obtain ⟨builder, hplaced, hassemble⟩ := exists_of_bind_eq_ok hassemble
  have houtline : outline.WellFormed := Outline.wellFormed_empty.addLines hlines
  exact ⟨builder, canonical_empty.placeAll houtline hplaced, (Except.ok.inj hassemble).symm⟩

end Assembly

end GasMachine
