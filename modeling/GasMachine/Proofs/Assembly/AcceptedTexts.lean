import Mathlib
import GasMachine.Proofs.Assembly.LabelPlaces

/-!
# The language of the assembler

Three layers and two passes can refuse a text.  Words have to be tokens, the tokens of a line have
to make up a statement, labels must not be defined twice, and the labels that are used have to be
defined.  The first three are checked line by line in front of the last one, which can only be
checked when all lines are known.
-/

namespace GasMachine.Assembly

/-! ## What a text says -/

/-- The labels that lines define, in order.  A line that cannot be read defines none. -/
def definedIn (texts : List (List Char)) : List String :=
  texts.flatMap fun chars => (readLine chars).toOption.elim [] Line.labels

def statementsIn (texts : List (List Char)) : List (Nat × Statement) :=
  (texts.zipIdx 1).flatMap fun numbered =>
    ((readLine numbered.1).toOption.bind Line.statement).toList.map (Prod.mk numbered.2)

/-- The first of some names that is among the ones in front of it, or among those seen before. -/
def FirstRepeated (seen names : List String) (label : String) : Prop :=
  ∃ fresh later, names = fresh ++ label :: later ∧ (seen ++ fresh).Nodup ∧ label ∈ seen ++ fresh

/-- What is wrong with a line behind the given ones: a word is no token, the tokens are no line, or
a label is defined again. -/
inductive Rejected (before : List (List Char)) (chars : List Char) : Fault → Prop
  | word {fault : Fault} (htokens : tokens chars = .error fault) : Rejected before chars fault
  | statement {read : List Token} {fault : Fault} (htokens : tokens chars = .ok read)
      (hparse : parseLine read = .error fault) : Rejected before chars fault
  | label {read : List Token} {line : Line} {label : String} (htokens : tokens chars = .ok read)
      (hparse : parseLine read = .ok line)
      (hrepeated : FirstRepeated (definedIn before) line.labels label) :
      Rejected before chars (.duplicateLabel label)

/-- No line is rejected behind the given ones and those in front of it. -/
def AllAccepted (before texts : List (List Char)) : Prop :=
  ∀ front chars later, texts = front ++ chars :: later →
    ∀ fault, ¬Rejected (before ++ front) chars fault

theorem definedIn_append (before texts : List (List Char)) :
    definedIn (before ++ texts) = definedIn before ++ definedIn texts :=
  List.flatMap_append

theorem definedIn_concat {chars : List Char} {line : Line} (hread : readLine chars = .ok line)
    (before : List (List Char)) :
    definedIn (before ++ [chars]) = definedIn before ++ line.labels := by
  rw [definedIn_append, definedIn, definedIn, List.flatMap_singleton, hread]
  rfl

theorem statementsIn_concat {chars : List Char} {line : Line} (hread : readLine chars = .ok line)
    (before : List (List Char)) :
    statementsIn (before ++ [chars]) =
      statementsIn before ++ line.statement.toList.map (Prod.mk (before.length + 1)) := by
  rw [statementsIn, List.zipIdx_append, List.flatMap_append, List.zipIdx_singleton,
    List.flatMap_singleton, hread, Nat.add_comm 1]
  rfl

/-! ## Repeated labels -/

theorem nodup_concat_iff {seen : List String} {name : String} (hseen : seen.Nodup) :
    (seen ++ [name]).Nodup ↔ name ∉ seen := by
  rw [← List.concat_eq_append, List.nodup_concat]
  exact and_iff_left hseen

theorem firstRepeated_cons_iff {seen rest : List String} {name label : String}
    (hseen : seen.Nodup) :
    FirstRepeated seen (name :: rest) label ↔
      (name ∈ seen ∧ label = name) ∨
        (name ∉ seen ∧ FirstRepeated (seen ++ [name]) rest label) := by
  constructor
  · rintro ⟨fresh, later, hnames, hdistinct, hlabel⟩
    cases fresh with
    | nil =>
        obtain ⟨rfl, -⟩ := List.cons.inj hnames
        rw [List.append_nil] at hlabel
        exact .inl ⟨hlabel, rfl⟩
    | cons first fresh =>
        obtain ⟨rfl, hrest⟩ := List.cons.inj hnames
        rw [List.append_cons] at hdistinct hlabel
        have hname := (nodup_concat_iff hseen).mp hdistinct.of_append_left
        exact .inr ⟨hname, fresh, later, hrest, hdistinct, hlabel⟩
  · rintro (⟨hname, rfl⟩ | ⟨hname, fresh, later, rfl, hdistinct, hlabel⟩)
    · exact ⟨[], rest, rfl, by rwa [List.append_nil], by rwa [List.append_nil]⟩
    · rw [← List.append_cons] at hdistinct hlabel
      exact ⟨name :: fresh, later, rfl, hdistinct, hlabel⟩

/-- A line that can be read is rejected for a label only. -/
theorem rejected_iff {before : List (List Char)} {chars : List Char} {fault : Fault} :
    Rejected before chars fault ↔
      readLine chars = .error fault ∨
        ∃ line, readLine chars = .ok line ∧
          ∃ label, FirstRepeated (definedIn before) line.labels label ∧
            fault = .duplicateLabel label := by
  rw [readLine]
  constructor
  · rintro (htokens | ⟨htokens, hparse⟩ | ⟨htokens, hparse, hrepeated⟩)
    · exact .inl (by rw [htokens]; rfl)
    · exact .inl (by rw [htokens]; exact hparse)
    · exact .inr ⟨_, by rw [htokens]; exact hparse, _, hrepeated, rfl⟩
  · cases htokens : tokens chars with
    | error found =>
      rintro (hread | ⟨line, hread, -⟩)
      · obtain rfl := Except.error.inj hread
        exact .word htokens
      · cases hread
    | ok read =>
      rintro (hread | ⟨line, hread, label, hrepeated, rfl⟩)
      · exact .statement htokens hread
      · exact .label htokens hread hrepeated

theorem allAccepted_nil (before : List (List Char)) : AllAccepted before [] := by
  intro front chars later htexts
  simp at htexts

theorem allAccepted_cons_iff {before rest : List (List Char)} {chars : List Char} :
    AllAccepted before (chars :: rest) ↔
      (∀ fault, ¬Rejected before chars fault) ∧ AllAccepted (before ++ [chars]) rest := by
  constructor
  · intro haccepted
    constructor
    · intro fault hrejected
      exact haccepted [] chars rest rfl fault (by rwa [List.append_nil])
    · intro front other later hrest fault hrejected
      rw [← List.append_cons] at hrejected
      exact haccepted (chars :: front) other later (by rw [hrest]; rfl) fault hrejected
  · rintro ⟨hfirst, hrest⟩ front other later htexts fault hrejected
    cases front with
    | nil =>
        obtain ⟨rfl, -⟩ := List.cons.inj htexts
        rw [List.append_nil] at hrejected
        exact hfirst fault hrejected
    | cons first front =>
        obtain ⟨rfl, rfl⟩ := List.cons.inj htexts
        rw [List.append_cons] at hrejected
        exact hrest front other later rfl fault hrejected

namespace Outline

variable {outline after : Outline} {before : List (List Char)}

theorem addLine_eq_bind (outline : Outline) (number : Nat) (chars : List Char) :
    outline.addLine number chars = (do
      let line ← readLine chars
      let defined ← outline.define line.labels
      match line.statement with
      | some statement => return defined.append number statement
      | none => return defined) := by
  rw [readLine, bind_assoc]
  rfl

/-- Labels cannot be defined because of the first one that is there already. -/
theorem define_eq_error_iff {seen names : List String} {fault : Fault} (hseen : seen.Nodup)
    (hlabels : ∀ name, outline.labels.lookup name = none ↔ name ∉ seen) :
    outline.define names = .error fault ↔
      ∃ label, FirstRepeated seen names label ∧ fault = .duplicateLabel label := by
  induction names generalizing outline seen with
  | nil => simp [define, FirstRepeated]
  | cons name rest ih =>
      rw [define]
      simp only [firstRepeated_cons_iff hseen]
      by_cases hname : name ∈ seen
      · have hsome : (outline.labels.lookup name).isSome = true := by
          rw [Option.isSome_iff_ne_none, Ne, hlabels, not_not]
          exact hname
        simp [hsome, hname, eq_comm]
      · have hnone : (outline.labels.lookup name).isSome = false := by
          rw [(hlabels name).mpr hname]
          rfl
        have hmore : ∀ other, ((name, outline.offset) :: outline.labels).lookup other = none ↔
            other ∉ seen ++ [name] := by
          intro other
          rw [List.lookup_cons]
          have := hlabels other
          grind
        rw [hnone, if_neg Bool.false_ne_true, ih ((nodup_concat_iff hseen).mpr hname) hmore]
        simp [hname]

/-- The outline of the given lines: it knows their labels, which are distinct, and has their
statements. -/
structure Summarizes (outline : Outline) (before : List (List Char)) : Prop where
  distinct : (definedIn before).Nodup
  labels : ∀ name, outline.labels.lookup name = none ↔ name ∉ definedIn before
  statements : outline.statements.toList = statementsIn before

/-- A line is not added if and only if it is rejected. -/
theorem Summarizes.addLine_eq_error_iff (hsummarizes : outline.Summarizes before) (number : Nat)
    {chars : List Char} {fault : Fault} :
    outline.addLine number chars = .error fault ↔ Rejected before chars fault := by
  rw [rejected_iff, addLine_eq_bind]
  cases hread : readLine chars with
  | error found =>
      show Except.error found = Except.error fault ↔ _
      simp
  | ok line =>
      have hdefine : outline.define line.labels = .error fault ↔ _ :=
        define_eq_error_iff hsummarizes.distinct hsummarizes.labels
      cases hdefined : outline.define line.labels with
      | error found =>
          rw [hdefined] at hdefine
          rw [ok_bind, hdefined]
          exact hdefine.trans (by simp)
      | ok defined =>
          rw [hdefined] at hdefine
          rw [ok_bind, hdefined, ok_bind]
          refine iff_of_false (fun hadded => ?_) ?_
          · split at hadded <;> cases hadded
          · rintro (hunread | ⟨_, hline, hrepeated⟩)
            · cases hunread
            · obtain rfl := Except.ok.inj hline
              cases hdefine.mpr hrepeated

theorem Summarizes.addLine (hsummarizes : outline.Summarizes before) {chars : List Char}
    (hadd : outline.addLine (before.length + 1) chars = .ok after) :
    after.Summarizes (before ++ [chars]) := by
  obtain ⟨line, defined, hread, hdefine, hlabels, hstatements, -⟩ :=
    exists_readLine_of_addLine hadd
  obtain ⟨hdistinct, hnew⟩ := distinct_define hdefine
  constructor
  · rw [definedIn_concat hread]
    refine hsummarizes.distinct.append hdistinct fun name hbefore hline => ?_
    exact (hsummarizes.labels name).mp (hnew name hline) hbefore
  · intro name
    rw [definedIn_concat hread, hlabels, lookup_define hdefine, List.mem_append]
    have := hsummarizes.labels name
    split <;> simp_all
  · rw [hstatements, statements_define hdefine, hsummarizes.statements,
      statementsIn_concat hread]

/-- A line that is added is not rejected. -/
theorem Summarizes.not_rejected (hsummarizes : outline.Summarizes before) {number : Nat}
    {chars : List Char} (hadd : outline.addLine number chars = .ok after) (fault : Fault) :
    ¬Rejected before chars fault := by
  rw [← hsummarizes.addLine_eq_error_iff number, hadd]
  exact nofun

/-- If the first pass goes through, no line is rejected. -/
theorem Summarizes.addLines (hsummarizes : outline.Summarizes before)
    {texts : List (List Char)} (hlines : outline.addLines (before.length + 1) texts = .ok after) :
    after.Summarizes (before ++ texts) ∧ AllAccepted before texts := by
  induction texts generalizing outline before with
  | nil =>
      obtain rfl := Except.ok.inj hlines
      exact ⟨by rwa [List.append_nil], allAccepted_nil before⟩
  | cons chars rest ih =>
      rw [Outline.addLines] at hlines
      split at hlines
      · cases hlines
      · next more hadd =>
          rw [← List.length_singleton (a := chars), ← List.length_append] at hlines
          obtain ⟨hafter, hrest⟩ := ih (hsummarizes.addLine hadd) hlines
          rw [← List.append_cons] at hafter
          exact ⟨hafter, allAccepted_cons_iff.mpr ⟨hsummarizes.not_rejected hadd, hrest⟩⟩

end Outline

/-! ## The second pass -/

section Placing

variable (labels : Labels)

end Placing

/-! ## Both passes -/

theorem readable_iff {chars : List Char} :
    (∃ line, readLine chars = .ok line) ↔
      ∃ read line, tokens chars = .ok read ∧ parseLine read = .ok line := by
  rw [readLine]
  cases tokens chars <;> simp [bind, Except.bind]

section Texts

variable {text : String}

end Texts

-- The jump stands above the label, but undefined labels are looked for in the second pass only.
example : assemble "jump nowhere\na:\na:" = .error ⟨3, .duplicateLabel "a"⟩ := by cbv

end GasMachine.Assembly
