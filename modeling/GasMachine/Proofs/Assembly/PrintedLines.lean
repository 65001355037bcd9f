import GasMachine.Proofs.Assembly.PrintedWords
import GasMachine.Proofs.Instruction.Relocation

/-!
# Lines of listings

The line of an instruction is read as that instruction, with the place that it
leads to in place of its offset; the line of a jump table is read as its entries;
and the line of an undecodable byte adds nothing.
-/

namespace GasMachine.Assembly

/-! ## Tokens of a line -/

theorem mapM_ofWord {texts : List String} {read : List Token}
    (hprints : List.Forall₂ Prints texts read) :
    (texts.map String.toList).mapM Token.ofWord = .ok read := by
  induction hprints with
  | nil => rfl
  | cons hfirst _ ih => rw [List.map_cons, List.mapM_cons, hfirst.ofWord_eq, ih]; rfl

theorem isWord_of_forall₂ {texts : List String} {read : List Token}
    (hprints : List.Forall₂ Prints texts read) :
    ∀ word ∈ texts.map String.toList, IsWord word := by
  induction hprints with
  | nil => simp
  | cons hfirst _ ih =>
      rw [List.map_cons, List.forall_mem_cons]
      exact ⟨hfirst.isWord, ih⟩

/-- Printed words and what stands between them hold no comment and no line feed. -/
theorem not_mem_intercalate {char : Char} (hplain : isPlain char = false)
    (hcomma : char ∉ ", ".toList) {printed : List (List Char)}
    (hwords : ∀ word ∈ printed, IsWord word) : char ∉ ", ".toList.intercalate printed := by
  induction printed with
  | nil => simp
  | cons word rest ih =>
      have hword := (hwords word List.mem_cons_self).not_mem hplain
      have hrest := ih fun later hlater => hwords later (List.mem_cons_of_mem _ hlater)
      cases rest with
      | nil => rwa [List.intercalate_singleton]
      | cons next later =>
          rw [List.intercalate_cons_cons]
          simp only [List.mem_append, not_or]
          exact ⟨⟨hword, hcomma⟩, hrest⟩

theorem not_mem_line {char : Char} (hplain : isPlain char = false) (hcomma : char ∉ ", ".toList)
    {head : String} {token : Token} {texts : List String} {read : List Token}
    (hhead : Prints head token) (hprints : List.Forall₂ Prints texts read) :
    char ∉ (head ++ " " ++ String.intercalate ", " texts).toList := by
  have hspace : char ∉ " ".toList := fun hmem => hcomma (List.mem_cons_of_mem _ hmem)
  rw [String.toList_append, String.toList_append, String.toList_intercalate]
  simp only [List.mem_append, not_or]
  exact ⟨⟨hhead.isWord.not_mem hplain, hspace⟩,
    not_mem_intercalate hplain hcomma (isWord_of_forall₂ hprints)⟩

/-- A line of a head word and operands is read word by word. -/
theorem tokens_line {head : String} {token : Token} {texts : List String} {read : List Token}
    (hhead : Prints head token) (hprints : List.Forall₂ Prints texts read) :
    tokens (head ++ " " ++ String.intercalate ", " texts).toList = .ok (token :: read) := by
  have hwords := isWord_of_forall₂ hprints
  have hline : (head ++ " " ++ String.intercalate ", " texts).toList =
      head.toList ++ ' ' :: ", ".toList.intercalate (texts.map String.toList) := by
    rw [String.toList_append, String.toList_append, String.toList_intercalate]
    simp
  have hsplit : words (head ++ " " ++ String.intercalate ", " texts).toList =
      head.toList :: texts.map String.toList := by
    rw [hline, words_append hhead.isWord (by simp; decide), words_separator (by decide),
      words_intercalate hwords]
  apply tokens_of_words (not_mem_line (by decide) (by decide) hhead hprints) hsplit
  rw [List.mapM_cons, hhead.ofWord_eq, mapM_ofWord hprints]
  rfl

theorem tokens_head {head : String} {token : Token} (hhead : Prints head token) :
    tokens head.toList = .ok [token] := by
  apply tokens_of_words (hhead.isWord.not_mem (by decide)) (words_word hhead.isWord)
  rw [List.mapM_cons, hhead.ofWord_eq]
  rfl

/-! ## Operands -/

/-- The tokens of operands that have the place they lead to instead of an offset. -/
def operandTokens : Operands → List Token
  | .bare => []
  | .imm value => [.number value.toInt32.toInt]
  | .regWide register value => [.register register, .number value.toNat]
  | .immImm first second => [.number first.toInt32.toInt, .number second.toInt32.toInt]
  | .offset place => [.number place.toNat]
  | .regImm register value => [.register register, .number value.toInt32.toInt]
  | .regImmImm register first second =>
    [.register register, .number first.toInt32.toInt, .number second.toInt32.toInt]
  | .regImmOffset register value place =>
    [.register register, .number value.toInt32.toInt, .number place.toNat]
  | .regReg target source => [.register target, .register source]
  | .regRegImm left right value =>
    [.register left, .register right, .number value.toInt32.toInt]
  | .regRegOffset left right place => [.register left, .register right, .number place.toNat]
  | .regRegImmImm left right first second =>
    [.register left, .register right, .number first.toInt32.toInt,
      .number second.toInt32.toInt]
  | .regRegReg left right target => [.register target, .register left, .register right]

theorem forall₂_showOperands (pc : UInt32) (operands : Operands) :
    List.Forall₂ Prints (showOperands pc operands) (operandTokens (operands.shift pc)) := by
  have htarget (distance : UInt32) :
      Prints (toString (pc + distance).toNat) (.number (distance + pc).toNat) :=
    UInt32.add_comm pc distance ▸ prints_target _
  cases operands <;>
    simp only [showOperands, Operands.shift, Operands.offset?, Operands.withOffset, operandTokens,
      List.forall₂_cons, List.Forall₂.nil, prints_register, prints_immediate,
      prints_wideImmediate, htarget, and_self]

theorem ofInt_toInt32 (value : UInt32) : UInt32.ofInt value.toInt32.toInt = value := by
  have hsigned : value.toInt32.toInt = (value.toNat : Int).bmod (2 ^ 32) :=
    BitVec.toInt_eq_toNat_bmod _
  have hunsigned : value.toInt32.toInt % 2 ^ 32 = value.toNat := by
    have hlt := value.toNat_lt
    rw [hsigned, Int.bmod]
    split <;> omega
  rw [UInt32.ofInt, hunsigned, Int.toNat_natCast, UInt32.ofNat_toNat]

theorem ofInt_toNat (value : UInt64) : UInt64.ofInt value.toNat = value := by
  have hlt := value.toNat_lt
  have hunsigned : (value.toNat : Int) % 2 ^ 64 = value.toNat :=
    Int.emod_eq_of_lt (Int.natCast_nonneg _) (by omega)
  rw [UInt64.ofInt, hunsigned, Int.toNat_natCast, UInt64.ofNat_toNat]

theorem Target.ofToken_number {value : Int} (hleast : 0 ≤ value) (hmost : value < 0x100000000) :
    ofToken (.number value) = .ok (.absolute (UInt32.ofNat value.toNat)) := by
  rw [ofToken, if_pos ⟨hleast, hmost⟩]

/-- A place in the code is read back. -/
theorem Target.ofToken_place (place : UInt32) :
    ofToken (.number place.toNat) = .ok (.absolute place) := by
  have hlt := place.toNat_lt
  rw [ofToken_number (Int.natCast_nonneg _) (by omega), Int.toNat_natCast, UInt32.ofNat_toNat]

/-- What succeeds is followed by what is done with its result. -/
@[simp]
theorem ok_bind {ε α β : Type} (value : α) (next : α → Except ε β) :
    (Except.ok value >>= next) = next value := by
  simp only [bind, Except.bind]

namespace OperandReader

variable (opcode : Opcode) (rest : List Token)

theorem run_next (token : Token) : (next opcode).run (token :: rest) = .ok (token, rest) :=
  rfl

theorem run_register (register : Reg) :
    (OperandReader.register opcode).run (.register register :: rest) = .ok (register, rest) := by
  rw [OperandReader.register, StateT.run_bind, run_next, ok_bind]
  rfl

theorem run_number {least most value : Int} (hleast : least ≤ value) (hmost : value ≤ most) :
    (number opcode least most).run (.number value :: rest) = .ok (value, rest) := by
  rw [number, StateT.run_bind, run_next, ok_bind]
  dsimp only
  rw [if_pos ⟨hleast, hmost⟩]
  rfl

theorem run_immediate (value : UInt32) :
    (immediate opcode).run (.number value.toInt32.toInt :: rest) = .ok (value, rest) := by
  have hlower := value.toInt32.le_toInt
  have hupper := value.toInt32.toInt_lt
  rw [immediate, StateT.run_bind, run_number opcode rest (by omega) (by omega)]
  exact congrArg (fun word => Except.ok (word, rest)) (ofInt_toInt32 value)

theorem run_wideImmediate (value : UInt64) :
    (wideImmediate opcode).run (.number value.toNat :: rest) = .ok (value, rest) := by
  have hlt := value.toNat_lt
  rw [wideImmediate, StateT.run_bind, run_number opcode rest (by omega) (by omega)]
  exact congrArg (fun word => Except.ok (word, rest)) (ofInt_toNat value)

theorem run_target {token : Token} {target : Target} (htarget : Target.ofToken token = .ok target) :
    (OperandReader.target opcode).run (token :: rest) = .ok (target, rest) := by
  rw [OperandReader.target, StateT.run_bind, run_next, ok_bind]
  dsimp only
  rw [htarget]
  rfl

/-- Operands are read off their tokens, and the place they lead to is set apart. -/
theorem run_operands {operands : Operands} (hform : opcode.form = operands.form) :
    (OperandReader.operands opcode).run (operandTokens operands) =
      .ok ((operands.withOffset 0, operands.offset?.map Target.absolute), []) := by
  unfold OperandReader.operands
  rw [hform]
  cases operands <;>
    simp only [Operands.form, operandTokens, StateT.run_bind, StateT.run_pure, ok_bind,
      run_register, run_immediate, run_wideImmediate, run_target opcode _ (Target.ofToken_place _),
      Operands.withOffset,
      Operands.offset?, Option.map_some, Option.map_none] <;>
    rfl

end OperandReader

/-! ## Lines -/

/-- A line that defines no label and is read as a statement, or as nothing. -/
def ReadsAs (chars : List Char) (statement : Option Statement) : Prop :=
  ∃ read, tokens chars = .ok read ∧ parseLine read = .ok ⟨[], statement⟩

def statementOf (instruction : Instruction) : Statement :=
  .instruction { instruction with operands := instruction.operands.withOffset 0 }
    (instruction.operands.offset?.map Target.absolute)

theorem parseLine_of_statement {first : Token} {rest : List Token} {statement : Option Statement}
    (hlabel : labelOf? first = none) (hstatement : parseStatement (first :: rest) = .ok statement) :
    parseLine (first :: rest) = .ok ⟨[], statement⟩ := by
  have hfirst : ¬ (labelOf? first).isSome = true := by simp [hlabel]
  have hdrop : (first :: rest).dropWhile (fun token => (labelOf? token).isSome) = first :: rest :=
    List.dropWhile_cons_of_neg hfirst
  have htake : (first :: rest).takeWhile (fun token => (labelOf? token).isSome) = [] :=
    List.takeWhile_cons_of_neg hfirst
  rw [parseLine, hdrop, htake, hstatement]
  rfl

theorem tokens_showInstruction (pc : UInt32) (instruction : Instruction) :
    tokens (showInstruction pc instruction).toList =
      .ok (.name instruction.opcode.mnemonic ::
        operandTokens (instruction.absolute pc).operands) := by
  have hhead := prints_mnemonic instruction.opcode
  have hoperands := forall₂_showOperands pc instruction.operands
  rw [showInstruction]
  split
  · next hnone =>
      rw [hnone, List.forall₂_nil_left_iff] at hoperands
      rw [tokens_head hhead, Instruction.absolute, Instruction.shift, hoperands]
  · exact tokens_line hhead hoperands

/-- What is shown depends on where an instruction leads, not on where it lies. -/
theorem showInstruction_absolute (pc : UInt32) (instruction : Instruction) :
    showInstruction 0 (instruction.absolute pc) = showInstruction pc instruction := by
  have hoperands : showOperands 0 (instruction.operands.shift pc) =
      showOperands pc instruction.operands := by
    cases instruction.operands <;>
      simp only [Operands.shift, Operands.offset?, Operands.withOffset, showOperands,
        UInt32.add_zero, UInt32.add_comm]
  rw [showInstruction, showInstruction, Instruction.absolute, Instruction.shift, hoperands]

/-- The line of an instruction is read as that instruction. -/
theorem readsAs_instruction (pc : UInt32) {instruction : Instruction}
    (hwellFormed : instruction.WellFormed) :
    ReadsAs (showInstruction pc instruction).toList
      (some (statementOf (instruction.absolute pc))) := by
  refine ⟨_, tokens_showInstruction pc instruction, ?_⟩
  have hform : instruction.opcode.form = (instruction.absolute pc).operands.form :=
    hwellFormed.trans (Operands.form_shift _ _).symm
  have hparse : parseInstruction instruction.opcode.mnemonic
      (operandTokens (instruction.absolute pc).operands) =
        .ok (statementOf (instruction.absolute pc)) := by
    rw [parseInstruction, opcodeNamed?_mnemonic]
    dsimp only
    rw [OperandReader.run_operands _ hform]
    rfl
  apply parseLine_of_statement rfl
  rw [parseStatement, hparse]
  rfl

theorem forall₂_prints_targets (targets : List UInt32) :
    List.Forall₂ Prints (targets.map fun target => toString target.toNat)
      (targets.map fun target => Token.number target.toNat) := by
  rw [List.forall₂_map_left_iff, List.forall₂_map_right_iff, List.forall₂_same]
  exact fun target _ => prints_target target

theorem mapM_ofToken (targets : List UInt32) :
    (targets.map fun target => Token.number target.toNat).mapM Target.ofToken =
      .ok (targets.map Target.absolute) := by
  induction targets with
  | nil => rfl
  | cons target rest ih =>
      rw [List.map_cons, List.mapM_cons, Target.ofToken_place, ok_bind, ih]
      rfl

/-- The line of a jump table is read as its entries. -/
theorem readsAs_jumpTable (targets : List UInt32) :
    ReadsAs (".jump_table" ++ " " ++
        String.intercalate ", " (targets.map fun target => toString target.toNat)).toList
      (some (.jumpTable (targets.map Target.absolute))) := by
  refine ⟨_, tokens_line prints_directive (forall₂_prints_targets targets), ?_⟩
  apply parseLine_of_statement rfl
  rw [parseStatement, if_pos rfl, mapM_ofToken]
  rfl

/-- A comment adds nothing. -/
theorem readsAs_comment (rest : List Char) : ReadsAs (';' :: rest) none := by
  refine ⟨[], ?_, rfl⟩
  rw [tokens, List.takeWhile_cons_of_neg (by decide), words_of_nil List.dropWhile_nil]
  rfl

/-! ## Listings -/

def lineOf (pc : Nat) : Except DecodeError Instruction → List Char
  | .ok instruction => (showInstruction (UInt32.ofNat pc) instruction).toList
  | .error error => ';' :: (" " ++ toString pc ++ ": " ++ error.message).toList

theorem toList_showLine (pc : Nat) (decoded : Except DecodeError Instruction) :
    (showLine pc decoded).toList = lineOf pc decoded ++ ['\n'] := by
  cases decoded with
  | ok instruction =>
      rw [showLine, String.toList_append]
      rfl
  | error error =>
      rw [showLine, lineOf]
      simp [String.toList_append]

def jumpTableLines (targets : List UInt32) : List (List Char) :=
  if targets = [] then []
  else
    [(".jump_table" ++ " " ++
      String.intercalate ", " (targets.map fun target => toString target.toNat)).toList]

def listing (targets : List UInt32) (entries : List (Nat × Except DecodeError Instruction)) :
    List (List Char) :=
  jumpTableLines targets ++ entries.map fun entry => lineOf entry.1 entry.2

theorem not_mem_toList_append {char : Char} {left right : String} (hleft : char ∉ left.toList)
    (hright : char ∉ right.toList) : char ∉ (left ++ right).toList := by
  rw [String.toList_append, List.mem_append, not_or]
  exact ⟨hleft, hright⟩

theorem lineFeed_not_mem_digits {base : Nat} (hbase : 1 < base) (hsmall : base ≤ 16)
    (value : Nat) : '\n' ∉ Nat.toDigits base value :=
  (isWord_digits [] hbase hsmall rfl).not_mem (by decide)

theorem lineFeed_not_mem_message (error : DecodeError) : '\n' ∉ error.message.toList := by
  cases error with
  | unknownOpcode byte =>
      have hdigits : '\n' ∉ Nat.toDigits 16 byte.toNat :=
        lineFeed_not_mem_digits (by decide) (by decide) byte.toNat
      have hpadded : '\n' ∉ (Hex.padded 2 byte.toNat).toList := by
        rw [Hex.padded, String.toList_ofList, List.mem_append, not_or]
        exact ⟨fun hzero => absurd (List.eq_of_mem_replicate hzero) (by decide), hdigits⟩
      exact not_mem_toList_append (by decide) hpadded

theorem not_mem_showInstruction {char : Char} (hplain : isPlain char = false)
    (hcomma : char ∉ ", ".toList) (pc : UInt32) (instruction : Instruction) :
    char ∉ (showInstruction pc instruction).toList := by
  have hhead := prints_mnemonic instruction.opcode
  rw [showInstruction]
  split
  · exact hhead.isWord.not_mem hplain
  · exact not_mem_line hplain hcomma hhead (forall₂_showOperands _ _)

theorem not_mem_jumpTableLines {char : Char} (hplain : isPlain char = false)
    (hcomma : char ∉ ", ".toList) {targets : List UInt32} {line : List Char}
    (hline : line ∈ jumpTableLines targets) : char ∉ line := by
  rw [jumpTableLines] at hline
  split at hline
  · cases hline
  · rw [List.mem_singleton.mp hline]
    exact not_mem_line hplain hcomma prints_directive (forall₂_prints_targets targets)

theorem lineFeed_not_mem_lineOf (pc : Nat) (decoded : Except DecodeError Instruction) :
    '\n' ∉ lineOf pc decoded := by
  cases decoded with
  | ok instruction => exact not_mem_showInstruction (by decide) (by decide) _ instruction
  | error error =>
      have hpc : '\n' ∉ (toString pc).toList := by
        rw [toList_toString]
        exact lineFeed_not_mem_digits (by decide) (by decide) pc
      have hplace : '\n' ∉ (" " ++ toString pc).toList :=
        not_mem_toList_append (by decide) hpc
      have hcolon : '\n' ∉ (" " ++ toString pc ++ ": ").toList :=
        not_mem_toList_append hplace (by decide)
      have hrest := not_mem_toList_append hcolon (lineFeed_not_mem_message error)
      rw [lineOf, List.mem_cons, not_or]
      exact ⟨by decide, hrest⟩

theorem lineFeed_not_mem_listing {targets : List UInt32}
    {entries : List (Nat × Except DecodeError Instruction)} {line : List Char}
    (hline : line ∈ listing targets entries) : '\n' ∉ line := by
  rcases List.mem_append.mp hline with htable | hentry
  · exact not_mem_jumpTableLines (by decide) (by decide) htable
  · obtain ⟨entry, -, rfl⟩ := List.mem_map.mp hentry
    exact lineFeed_not_mem_lineOf entry.1 entry.2

end GasMachine.Assembly
