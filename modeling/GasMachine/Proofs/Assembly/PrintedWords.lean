import Mathlib
import GasMachine.Assembly.Listing
import GasMachine.Assembly.Statement
import GasMachine.Proofs.Instruction.Encoding
import GasMachine.Proofs.Text.Numerals

/-!
# Words of listings

What a listing prints is cut into the same words again, and each word is the token
it was printed for.  A word that was printed holds no separator and starts no
comment, so it does not matter what it stands next to.
-/

namespace GasMachine.Assembly

/-! ## Cutting text -/

/-- Whether a character neither ends a word nor starts a comment. -/
def isPlain (char : Char) : Bool :=
  !isSeparator char && char != ';'

/-- A text that is one word, whatever line it stands in. -/
structure IsWord (word : List Char) : Prop where
  ne_nil : word ≠ []
  plain : word.all isPlain = true

instance (word : List Char) : Decidable (IsWord word) :=
  decidable_of_iff (word ≠ [] ∧ word.all isPlain = true)
    ⟨fun ⟨hne, hplain⟩ => ⟨hne, hplain⟩, fun ⟨hne, hplain⟩ => ⟨hne, hplain⟩⟩

theorem IsWord.not_isSeparator {word : List Char} (hword : IsWord word) {char : Char}
    (hchar : char ∈ word) : (!isSeparator char) = true :=
  (Bool.and_eq_true_iff.mp (List.all_eq_true.mp hword.plain char hchar)).1

theorem IsWord.not_mem {word : List Char} (hword : IsWord word) {char : Char}
    (hplain : isPlain char = false) : char ∉ word := by
  intro hchar
  rw [List.all_eq_true.mp hword.plain char hchar] at hplain
  cases hplain

theorem words_of_nil {chars : List Char} (hrest : chars.dropWhile isSeparator = []) :
    words chars = [] := by
  rw [words]
  split
  · rfl
  · next heq => cases hrest.symm.trans heq

theorem words_of_cons {chars rest : List Char} {first : Char}
    (hrest : chars.dropWhile isSeparator = first :: rest) :
    words chars = (first :: rest.takeWhile fun char => !isSeparator char) ::
      words (rest.dropWhile fun char => !isSeparator char) := by
  rw [words]
  split
  · next heq => cases hrest.symm.trans heq
  · next heq =>
      obtain ⟨rfl, rfl⟩ := List.cons.inj (hrest.symm.trans heq)
      rfl

theorem words_separator {separator : Char} (hseparator : isSeparator separator = true)
    (rest : List Char) : words (separator :: rest) = words rest := by
  have hdrop : (separator :: rest).dropWhile isSeparator = rest.dropWhile isSeparator :=
    List.dropWhile_cons_of_pos hseparator
  cases hrest : rest.dropWhile isSeparator with
  | nil => rw [words_of_nil hrest, words_of_nil (hdrop.trans hrest)]
  | cons first tail => rw [words_of_cons hrest, words_of_cons (hdrop.trans hrest)]

/-- A word ends where a separator or the end of the line follows. -/
theorem words_append {word rest : List Char} (hword : IsWord word)
    (hrest : ∀ char ∈ rest.head?, isSeparator char = true) :
    words (word ++ rest) = word :: words rest := by
  obtain ⟨first, tail, rfl⟩ := List.exists_cons_of_ne_nil hword.ne_nil
  have hplain : ∀ char ∈ tail, (!isSeparator char) = true := fun char hchar =>
    hword.not_isSeparator (List.mem_cons_of_mem _ hchar)
  have htake : rest.takeWhile (fun char => !isSeparator char) = [] := by
    cases rest with
    | nil => rfl
    | cons char rest => simp [hrest char rfl]
  have hdrop : rest.dropWhile (fun char => !isSeparator char) = rest := by
    cases rest with
    | nil => rfl
    | cons char rest => simp [hrest char rfl]
  have hfirst : (first :: tail ++ rest).dropWhile isSeparator = first :: (tail ++ rest) :=
    List.dropWhile_cons_of_neg (by simpa using hword.not_isSeparator List.mem_cons_self)
  rw [words_of_cons hfirst, List.takeWhile_append_of_pos hplain, htake, List.append_nil,
    List.dropWhile_append_of_pos hplain, hdrop]

theorem words_word {word : List Char} (hword : IsWord word) : words word = [word] := by
  have hend : words (word ++ []) = word :: words [] := words_append hword (by simp)
  rw [List.append_nil] at hend
  rw [hend, words_of_nil List.dropWhile_nil]

theorem linesFrom_append (found : Array (List Char)) {line : List Char} (hline : '\n' ∉ line)
    (rest : List Char) :
    linesFrom found (line ++ '\n' :: rest) = linesFrom (found.push line) rest := by
  have hinside : ∀ char ∈ line, (char != '\n') = true := fun char hchar =>
    bne_iff_ne.mpr fun heq => hline (heq ▸ hchar)
  cases hchars : line ++ '\n' :: rest with
  | nil => simp at hchars
  | cons first tail =>
      rw [linesFrom, ← hchars, List.takeWhile_append_of_pos hinside,
        List.dropWhile_append_of_pos hinside]
      simp

/-- Lines that end in a line feed are found again. -/
theorem linesFrom_flatMap (found : Array (List Char)) {printed : List (List Char)}
    (hlines : ∀ line ∈ printed, '\n' ∉ line) :
    linesFrom found (printed.flatMap (· ++ ['\n'])) = found ++ printed.toArray := by
  induction printed generalizing found with
  | nil => rw [List.flatMap_nil, linesFrom, Array.append_empty]
  | cons line rest ih =>
      have hrest := fun later hlater => hlines later (List.mem_cons_of_mem line hlater)
      rw [List.flatMap_cons, List.append_assoc, List.singleton_append,
        linesFrom_append found (hlines line List.mem_cons_self), ih _ hrest]
      simp

theorem lines_ofList {printed : List (List Char)} (hlines : ∀ line ∈ printed, '\n' ∉ line) :
    lines (String.ofList (printed.flatMap (· ++ ['\n']))) = printed := by
  rw [lines, String.toList_ofList, linesFrom_flatMap #[] hlines]
  simp

/-- Words that are printed with commas between them are found again. -/
theorem words_intercalate {printed : List (List Char)} (hwords : ∀ word ∈ printed, IsWord word) :
    words (", ".toList.intercalate printed) = printed := by
  induction printed with
  | nil => exact words_of_nil rfl
  | cons word rest ih =>
      have hword := hwords word List.mem_cons_self
      have hrest := ih fun later hlater => hwords later (List.mem_cons_of_mem _ hlater)
      cases rest with
      | nil => rw [List.intercalate_singleton, words_word hword]
      | cons next later =>
          have hcomma : ", ".toList = [',', ' '] := rfl
          rw [hcomma] at hrest ⊢
          rw [List.intercalate_cons_cons, List.append_assoc, words_append hword (by simp; decide)]
          rw [List.cons_append, List.cons_append, List.nil_append,
            words_separator (by decide), words_separator (by decide), hrest]

/-- A line without a semicolon is read to its end. -/
theorem tokens_of_words {chars : List Char} {printed : List (List Char)} {read : List Token}
    (hcomment : ';' ∉ chars) (hwords : words chars = printed)
    (hread : printed.mapM Token.ofWord = .ok read) : tokens chars = .ok read := by
  have htake : chars.takeWhile (· != ';') = chars := by
    apply List.takeWhile_eq_self_iff.mpr
    intro char hchar
    exact bne_iff_ne.mpr fun heq => hcomment (heq ▸ hchar)
  rw [tokens, htake, hwords, hread]

/-! ## Numbers -/

/-- Printed digits are neither separators nor the start of a comment. -/
theorem isWord_digits {base value : Nat} (sign : List Char) (hbase : 1 < base)
    (hsmall : base ≤ 16) (hsign : sign.all isPlain = true) :
    IsWord (sign ++ Nat.toDigits base value) where
  ne_nil := List.append_ne_nil_of_right_ne_nil _ Nat.toDigits_ne_nil
  plain := by
    have hdigits : ∀ digit : Fin 16, isPlain (Nat.digitChar digit) = true := by decide
    rw [List.all_append, hsign, Bool.true_and, List.all_eq_true]
    intro char hchar
    obtain ⟨digit, hlt, rfl⟩ := Text.exists_digit_of_mem_toDigits hbase hchar
    exact hdigits ⟨digit, by omega⟩

/-- A character that is no digit of the base is not printed. -/
theorem not_mem_toDigits {base value : Nat} (char : Char) (hbase : 1 < base)
    (hchar : ∀ digit : Fin base, char ≠ Nat.digitChar digit) : char ∉ Nat.toDigits base value := by
  intro hmem
  obtain ⟨digit, hlt, heq⟩ := Text.exists_digit_of_mem_toDigits hbase hmem
  exact hchar ⟨digit, hlt⟩ heq

namespace Token

/-- What starts like a number is a number or nothing. -/
theorem ofWord_of_looksNumeric {word : List Char} (hlast : word.getLast? ≠ some ':')
    (hnumeric : looksNumeric word = true) :
    ofWord word = (number? word).elim (.error (.invalidNumber (String.ofList word)))
      fun value => .ok (.number value) := by
  have hstart : ∀ first ∈ word.head?, first = '-' ∨ first.isDigit = true := by
    intro first hfirst
    unfold looksNumeric at hnumeric
    split at hnumeric
    · exact Or.inl (Option.some.inj hfirst).symm
    · exact Or.inr (Option.some.inj hfirst ▸ hnumeric)
    · cases hfirst
  have hdirective : word.head? ≠ some '.' := fun hhead => absurd (hstart '.' hhead) (by decide)
  have hregister : registerDigits? word = none := by
    unfold registerDigits?
    split
    · exact absurd (hstart 'r' rfl) (by decide)
    · exact absurd (hstart 'R' rfl) (by decide)
    · rfl
  rw [ofWord, if_neg hlast, if_neg hdirective, hregister]
  dsimp only
  rw [if_pos hnumeric]
  cases number? word <;> rfl

/-- What starts like a number and is one is read as that number. -/
theorem ofWord_number {word : List Char} {value : Int} (hlabel : ':' ∉ word)
    (hnumeric : looksNumeric word = true) (hnumber : number? word = some value) :
    ofWord word = .ok (.number value) := by
  have hlast : word.getLast? ≠ some ':' := fun hlast => hlabel (List.mem_of_getLast? hlast)
  rw [ofWord_of_looksNumeric hlast hnumeric, hnumber]
  rfl

theorem looksNumeric_toDigits (value : Nat) : looksNumeric (Nat.toDigits 10 value) = true := by
  obtain ⟨first, rest, heq⟩ := List.exists_cons_of_ne_nil
    (Nat.toDigits_ne_nil (n := value) (b := 10))
  have hfirst : first.isDigit = true :=
    Nat.isDigit_of_mem_toDigits (by decide) (by decide) (heq ▸ List.mem_cons_self)
  have hminus : first ≠ '-' := fun hminus => absurd (hminus ▸ hfirst) (by decide)
  rw [heq]
  unfold looksNumeric
  split
  · next heq => exact absurd (List.cons.inj heq).1 hminus
  · next heq => exact (List.cons.inj heq).1 ▸ hfirst
  · next heq => cases heq

theorem magnitude?_toDigits {value : Nat} (hvalue : value < 1 <<< 64) :
    magnitude? (Nat.toDigits 10 value) = some value := by
  rw [magnitude?, Text.decimal?_toDigits hvalue]
  · intro digits heq
    exact not_mem_toDigits 'x' (by decide) (by decide)
      (heq ▸ List.mem_cons_of_mem _ List.mem_cons_self)
  · intro digits heq
    exact not_mem_toDigits 'X' (by decide) (by decide)
      (heq ▸ List.mem_cons_of_mem _ List.mem_cons_self)

theorem number?_toDigits {value : Nat} (hvalue : value < 1 <<< 64) :
    number? (Nat.toDigits 10 value) = some (value : Int) := by
  rw [number?, magnitude?_toDigits hvalue]
  · rfl
  · intro rest heq
    exact not_mem_toDigits '-' (by decide) (by decide) (heq ▸ List.mem_cons_self)

end Token

/-! ## Printed tokens -/

/-- A text that is one word and is read as the given token. -/
structure Prints (text : String) (token : Token) : Prop where
  isWord : IsWord text.toList
  ofWord_eq : Token.ofWord text.toList = .ok token

instance (text : String) (token : Token) : Decidable (Prints text token) :=
  decidable_of_iff (IsWord text.toList ∧ Token.ofWord text.toList = .ok token)
    ⟨fun ⟨hword, hread⟩ => ⟨hword, hread⟩, fun ⟨hword, hread⟩ => ⟨hword, hread⟩⟩

theorem toList_toString (value : Nat) : (toString value).toList = Nat.toDigits 10 value := by
  rw [Nat.toString_eq_ofList_toDigits, String.toList_ofList]

theorem prints_natural {value : Nat} (hvalue : value < 1 <<< 64) :
    Prints (toString value) (.number value) := by
  constructor <;> rw [toList_toString]
  · exact isWord_digits [] (by decide) (by decide) rfl
  · exact Token.ofWord_number (not_mem_toDigits ':' (by decide) (by decide))
      (Token.looksNumeric_toDigits value) (Token.number?_toDigits hvalue)

theorem prints_negative {value : Nat} (hvalue : value < 1 <<< 64) :
    Prints ("-" ++ toString value) (.number (-(value : Int))) := by
  have htext : ("-" ++ toString value).toList = '-' :: Nat.toDigits 10 value := by
    rw [String.toList_append, toList_toString]
    rfl
  constructor <;> rw [htext]
  · exact isWord_digits ['-'] (by decide) (by decide) (by decide)
  · apply Token.ofWord_number
    · have hdigits : ':' ∉ Nat.toDigits 10 value := not_mem_toDigits ':' (by decide) (by decide)
      simp [hdigits]
    · obtain ⟨first, rest, heq⟩ := List.exists_cons_of_ne_nil
        (Nat.toDigits_ne_nil (n := value) (b := 10))
      rw [heq]
      exact Nat.isDigit_of_mem_toDigits (by decide) (by decide) (heq ▸ List.mem_cons_self)
    · rw [Token.number?, Token.magnitude?_toDigits hvalue]
      rfl

/-- Immediates are printed with their sign. -/
theorem prints_immediate (value : UInt32) :
    Prints (showImmediate value) (.number value.toInt32.toInt) := by
  have hlower := value.toInt32.le_toInt
  have hupper := value.toInt32.toInt_lt
  rw [showImmediate]
  cases hvalue : value.toInt32.toInt with
  | ofNat magnitude =>
      rw [hvalue, Int.ofNat_eq_natCast] at hupper
      exact prints_natural (by omega)
  | negSucc magnitude =>
      rw [hvalue] at hlower
      exact prints_negative (by omega)

theorem prints_wideImmediate (value : UInt64) :
    Prints ("0x" ++ Hex.digits value.toNat) (.number value.toNat) := by
  have htext : ("0x" ++ Hex.digits value.toNat).toList =
      '0' :: 'x' :: Nat.toDigits 16 value.toNat := by
    rw [String.toList_append, Hex.digits, String.toList_ofList, String.toList_ofList]
    rfl
  constructor <;> rw [htext]
  · exact isWord_digits ['0', 'x'] (by decide) (by decide) (by decide)
  · apply Token.ofWord_number
    · have hdigits : ':' ∉ Nat.toDigits 16 value.toNat :=
        not_mem_toDigits ':' (by decide) (by decide)
      simp [hdigits]
    · rfl
    · rw [Token.number?, Token.magnitude?, Text.hexadecimal?_toDigits value.toNat_lt]
      · rfl
      · simp

theorem prints_target (target : UInt32) :
    Prints (toString target.toNat) (.number target.toNat) :=
  prints_natural (Nat.lt_trans target.toNat_lt (by decide))

theorem prints_register (register : Reg) : Prints register.name (.register register) := by
  revert register
  decide

theorem prints_directive : Prints ".jump_table" (.directive "jump_table") := by
  decide +kernel

/-! ## Mnemonics -/

/-- What holds of every character that a name can have is found by trying them. -/
theorem forall_isNameRest (property : Char → Bool)
    (htable : ∀ code : Fin 123, Token.isNameRest (Char.ofNat code) = true →
      property (Char.ofNat code) = true)
    {char : Char} (hname : Token.isNameRest char = true) : property char = true := by
  have hbound : char.toNat < 123 := by
    simp only [Token.isNameRest, Char.isAlphanum, Char.isAlpha, Char.isUpper, Char.isLower,
      Char.isDigit, Bool.or_eq_true, Bool.and_eq_true, decide_eq_true_eq, beq_iff_eq] at hname
    rcases hname with ((hupper | hlower) | hdigit) | hunderscore
    · exact Nat.lt_of_le_of_lt hupper.2 (by decide)
    · exact Nat.lt_of_le_of_lt hlower.2 (by decide)
    · exact Nat.lt_of_le_of_lt hdigit.2 (by decide)
    · rw [hunderscore]
      decide
  have hchar := htable ⟨char.toNat, hbound⟩
  rw [Char.ofNat_toNat] at hchar
  exact hchar hname

theorem Token.isNameRest_of_mem {word : List Char} (hname : isName word = true) {char : Char}
    (hchar : char ∈ word) : isNameRest char = true := by
  cases word with
  | nil => cases hchar
  | cons first rest =>
      obtain ⟨hfirst, hrest⟩ := Bool.and_eq_true_iff.mp hname
      rcases List.mem_cons.mp hchar with rfl | hlater
      · rw [isNameStart] at hfirst
        rw [isNameRest, Char.isAlphanum, Bool.or_assoc, Bool.or_left_comm, hfirst, Bool.or_true]
      · exact List.all_eq_true.mp hrest char hlater

theorem isWord_of_isName {word : List Char} (hname : Token.isName word = true) : IsWord word where
  ne_nil := by
    rintro rfl
    cases hname
  plain := List.all_eq_true.mpr fun _ hchar =>
    forall_isNameRest isPlain (by decide) (Token.isNameRest_of_mem hname hchar)

/-- A name does not start like a number. -/
theorem Token.looksNumeric_of_isName {word : List Char} (hname : isName word = true) :
    looksNumeric word = false := by
  cases word with
  | nil => rfl
  | cons first rest =>
      have hstart : isNameStart first = true := (Bool.and_eq_true_iff.mp hname).1
      have hminus : first ≠ '-' := fun hminus => absurd (hminus ▸ hstart) (by decide)
      have hdigit := forall_isNameRest
        (fun char => !(isNameStart char && char.isDigit)) (by decide)
        (isNameRest_of_mem hname List.mem_cons_self)
      rw [hstart, Bool.true_and, Bool.not_eq_true'] at hdigit
      rw [looksNumeric]
      · exact hdigit
      · intro second later heq
        exact absurd heq hminus

/-- A name is read as one, unless it is that of a register. -/
theorem Token.ofWord_name {word : List Char} (hname : isName word = true)
    (hregister : registerDigits? word = none) :
    ofWord word = .ok (.name (String.ofList word)) := by
  have hlast : word.getLast? ≠ some ':' := fun hlast =>
    absurd (isNameRest_of_mem hname (List.mem_of_getLast? hlast)) (by decide)
  have hdirective : word.head? ≠ some '.' := fun hhead =>
    absurd (isNameRest_of_mem hname (List.mem_of_head? hhead)) (by decide)
  rw [ofWord, if_neg hlast, if_neg hdirective, hregister]
  dsimp only
  rw [looksNumeric_of_isName hname, if_neg Bool.false_ne_true, if_pos hname]

/-- Whether a text can be a mnemonic: a name in lower case that is not that of a register. -/
def isMnemonic (chars : List Char) : Bool :=
  Token.isName chars && (Token.registerDigits? chars).isNone &&
    chars.all fun char => !char.isUpper

theorem isMnemonic_ofList {chars : List Char} (hchars : isMnemonic chars = true) :
    isMnemonic (String.ofList chars).toList = true := by
  rwa [String.toList_ofList]

theorem isMnemonic_mnemonic (opcode : Opcode) : isMnemonic opcode.mnemonic.toList = true := by
  cases opcode <;> exact isMnemonic_ofList rfl

theorem prints_mnemonic (opcode : Opcode) : Prints opcode.mnemonic (.name opcode.mnemonic) := by
  obtain ⟨hshape, -⟩ := Bool.and_eq_true_iff.mp (isMnemonic_mnemonic opcode)
  obtain ⟨hname, hregister⟩ := Bool.and_eq_true_iff.mp hshape
  refine ⟨isWord_of_isName hname, ?_⟩
  rw [Token.ofWord_name hname (Option.isNone_iff_eq_none.mp hregister), String.ofList_toList]

theorem mnemonic_injective : Function.Injective Opcode.mnemonic := by
  have hdistinct : (Opcode.all.map Opcode.mnemonic).Nodup := by
    -- With the names written out, the kernel compares literals instead of looking them up.
    simp only [Opcode.all, List.map_cons, List.map_nil, Opcode.mnemonic, Opcode.entry]
    decide +kernel
  intro left right heq
  exact List.inj_on_of_nodup_map hdistinct left.mem_all right.mem_all heq

/-- Mnemonics are in lower case already, so each names its opcode. -/
theorem opcodeNamed?_mnemonic (opcode : Opcode) : opcodeNamed? opcode.mnemonic = some opcode := by
  obtain ⟨-, hlower⟩ := Bool.and_eq_true_iff.mp (isMnemonic_mnemonic opcode)
  have hfixed : ∀ char ∈ opcode.mnemonic.toList, char.toLower = char := by
    intro char hchar
    have hcase := List.all_eq_true.mp hlower char hchar
    rw [Bool.not_eq_true', Char.isUpper] at hcase
    exact dif_neg (of_decide_eq_false hcase)
  rw [opcodeNamed?, List.map_congr_left hfixed, List.map_id', String.ofList_toList]
  exact Opcode.find?_all mnemonic_injective opcode

end GasMachine.Assembly
