import Mathlib
import GasMachine.Proofs.Assembly.PrintedWords

/-!
# Number literals

A number is written in decimal or, after `0x`, in hexadecimal, and may have a minus sign in front.
Every word that is written so and fits a word of the machine is read as its number.  The digits
after `0x` may have a plus sign in front as well.  No other word is a number, and one that starts
like a number is refused as such.
-/

namespace GasMachine.Assembly.Token

open Text (Numeral)

/-- How a magnitude is written: in decimal, or in hexadecimal after a marker. -/
inductive Magnitude : List Char → Nat → Prop where
  | decimal {digits : List Char} {value : Nat} (hdigits : Numeral 10 digits value) :
      Magnitude digits value
  | hexadecimal {marker : Char} {digits : List Char} {value : Nat}
      (hmarker : marker = 'x' ∨ marker = 'X') (hdigits : Numeral 16 digits value) :
      Magnitude ('0' :: marker :: digits) value

/-- A hexadecimal magnitude with a plus sign after its marker. -/
inductive PlusMagnitude : List Char → Nat → Prop where
  | hexadecimal {marker : Char} {digits : List Char} {value : Nat}
      (hmarker : marker = 'x' ∨ marker = 'X') (hdigits : Numeral 16 digits value) :
      PlusMagnitude ('0' :: marker :: '+' :: digits) value

/-- A literal is a magnitude that fits a word, with or without a minus sign in front. -/
inductive Literal (magnitude : List Char → Nat → Prop) : List Char → Int → Prop where
  | positive {chars : List Char} {value : Nat} (hmagnitude : magnitude chars value)
      (hfits : value < 2 ^ 64) : Literal magnitude chars value
  | negative {chars : List Char} {value : Nat} (hmagnitude : magnitude chars value)
      (hfits : value < 2 ^ 64) : Literal magnitude ('-' :: chars) (-value)

def StartsLikeNumber (word : List Char) : Prop :=
  ∃ first rest, first.isDigit = true ∧ (word = first :: rest ∨ word = '-' :: first :: rest)

/-- The word is a number exactly if it is a literal.  If it starts like a number, is no literal and
does not end like a label, it is refused as an invalid number. -/
structure ReadExactly (literal : List Char → Int → Prop) (word : List Char) : Prop where
  number_iff : ∀ value, ofWord word = .ok (.number value) ↔ literal word value
  refused : StartsLikeNumber word → word.getLast? ≠ some ':' → (∀ value, ¬ literal word value) →
    ofWord word = .error (.invalidNumber (String.ofList word))

/-! ## Magnitudes -/

section Magnitudes

variable {marker first : Char} {chars digits rest : List Char} {value : Nat}

theorem magnitude_marked_iff (hmarker : marker = 'x' ∨ marker = 'X') :
    Magnitude ('0' :: marker :: digits) value ↔ Numeral 16 digits value := by
  constructor
  · intro hmagnitude
    cases hmagnitude with
    | decimal hdecimal =>
        have hletter : ∀ digit : Fin 10, marker.toLower ≠ Nat.digitChar digit := by
          rcases hmarker with rfl | rfl <;> decide
        exact absurd (List.mem_cons_of_mem _ List.mem_cons_self)
          (hdecimal.not_mem marker hletter)
    | hexadecimal _ hdigits => exact hdigits
  · exact .hexadecimal hmarker

theorem plusMagnitude_marked_iff (hmarker : marker = 'x' ∨ marker = 'X') :
    PlusMagnitude ('0' :: marker :: digits) value ↔
      ∃ rest, digits = '+' :: rest ∧ Numeral 16 rest value := by
  constructor
  · intro hmagnitude
    cases hmagnitude with
    | hexadecimal _ hdigits => exact ⟨_, rfl, hdigits⟩
  · rintro ⟨rest, rfl, hdigits⟩
    exact .hexadecimal hmarker hdigits

/-- Besides digits and markers a magnitude holds nothing. -/
theorem Magnitude.not_mem (hmagnitude : Magnitude chars value) (char : Char)
    (hdigit : ∀ digit : Fin 16, char.toLower ≠ Nat.digitChar digit) (hx : char ≠ 'x')
    (hX : char ≠ 'X') : char ∉ chars := by
  cases hmagnitude with
  | decimal hdigits => exact hdigits.not_mem char fun digit => hdigit ⟨digit, by omega⟩
  | hexadecimal hmarker hdigits =>
      have hzero : char ≠ '0' := by
        rintro rfl
        exact hdigit 0 rfl
      have hrest := hdigits.not_mem char hdigit
      rcases hmarker with rfl | rfl <;> simp [hzero, hx, hX, hrest]

/-- What starts with a digit is read as the magnitude that it writes. -/
theorem magnitude?_eq_some_iff (hfirst : first.isDigit = true) :
    magnitude? (first :: rest) = some value ↔
      (Magnitude (first :: rest) value ∨ PlusMagnitude (first :: rest) value) ∧
        value < 2 ^ 64 := by
  by_cases hmarked : ∃ marker digits, (marker = 'x' ∨ marker = 'X') ∧
      first :: rest = '0' :: marker :: digits
  · obtain ⟨marker, digits, hmarker, heq⟩ := hmarked
    have hread : magnitude? ('0' :: marker :: digits) = Text.hexadecimal? 64 digits := by
      rcases hmarker with rfl | rfl <;> rfl
    rw [heq, hread, Text.hexadecimal?_eq_some_iff, Text.numeral_withoutPlus_iff le_rfl,
      magnitude_marked_iff hmarker, plusMagnitude_marked_iff hmarker]
  · have hread : magnitude? (first :: rest) = Text.decimal? 64 (first :: rest) := by
      rw [magnitude?]
      · exact fun digits heq => hmarked ⟨'x', digits, Or.inl rfl, heq⟩
      · exact fun digits heq => hmarked ⟨'X', digits, Or.inr rfl, heq⟩
    have hplus : first ≠ '+' := by
      rintro rfl
      exact absurd hfirst (by decide)
    have hnumeral : Magnitude (first :: rest) value ↔ Numeral 10 (first :: rest) value := by
      constructor
      · intro hmagnitude
        generalize hchars : first :: rest = chars at hmagnitude
        cases hmagnitude with
        | decimal hdigits => exact hchars ▸ hdigits
        | hexadecimal hmarker => exact absurd ⟨_, _, hmarker, hchars⟩ hmarked
      · exact .decimal
    have hunmarked : ¬ PlusMagnitude (first :: rest) value := by
      intro hmagnitude
      generalize hchars : first :: rest = chars at hmagnitude
      cases hmagnitude with
      | hexadecimal hmarker => exact hmarked ⟨_, _, hmarker, hchars⟩
    rw [hread, Text.decimal?_eq_some_iff, Text.numeral_withoutPlus_iff (by decide), hnumeral,
      or_iff_left hunmarked, or_iff_left]
    rintro ⟨digits, heq, -⟩
    exact hplus (List.cons.inj heq).1

end Magnitudes

/-! ## Literals -/

/-- Magnitudes of a kind start with a digit and hold no colon. -/
structure StartsWithDigit (magnitude : List Char → Nat → Prop) : Prop where
  first_digit : ∀ {chars value}, magnitude chars value →
    ∃ first rest, chars = first :: rest ∧ first.isDigit = true
  no_colon : ∀ {chars value}, magnitude chars value → ':' ∉ chars

theorem Magnitude.startsWithDigit : StartsWithDigit Magnitude where
  first_digit hmagnitude := by
    cases hmagnitude with
    | decimal hdigits =>
        obtain ⟨first, rest, rfl⟩ := List.exists_cons_of_ne_nil hdigits.ne_nil
        obtain ⟨digit, hdigit⟩ := hdigits.exists_digit List.mem_cons_self
        exact ⟨first, rest, rfl, Text.isDigit_of_isDigit_ten hdigit⟩
    | hexadecimal => exact ⟨'0', _, rfl, rfl⟩
  no_colon hmagnitude := hmagnitude.not_mem ':' (by decide) (by decide) (by decide)

theorem PlusMagnitude.startsWithDigit : StartsWithDigit PlusMagnitude where
  first_digit hmagnitude := by
    cases hmagnitude with
    | hexadecimal => exact ⟨'0', _, rfl, rfl⟩
  no_colon hmagnitude := by
    cases hmagnitude with
    | hexadecimal hmarker hdigits =>
        have hcolon := hdigits.not_mem ':' (by decide)
        rcases hmarker with rfl | rfl <;> simp [hcolon]

/-- A literal holds what its magnitude holds and a minus sign. -/
theorem Literal.not_mem {magnitude : List Char → Nat → Prop} {word : List Char} {value : Int}
    (hliteral : Literal magnitude word value) {char : Char} (hminus : char ≠ '-')
    (hmagnitude : ∀ {chars size}, magnitude chars size → char ∉ chars) : char ∉ word := by
  cases hliteral with
  | positive hsize => exact hmagnitude hsize
  | negative hsize => simp [hminus, hmagnitude hsize]

theorem Literal.plus_not_mem {word : List Char} {value : Int}
    (hliteral : Literal Magnitude word value) : '+' ∉ word :=
  hliteral.not_mem (by decide) fun hmagnitude =>
    hmagnitude.not_mem '+' (by decide) (by decide) (by decide)

theorem Literal.plus_mem {word : List Char} {value : Int}
    (hliteral : Literal PlusMagnitude word value) : '+' ∈ word := by
  cases hliteral with
  | positive hmagnitude => cases hmagnitude; simp
  | negative hmagnitude => cases hmagnitude; simp

theorem looksNumeric_iff {word : List Char} :
    looksNumeric word = true ↔ StartsLikeNumber word := by
  constructor
  · intro hnumeric
    unfold looksNumeric at hnumeric
    split at hnumeric
    · exact ⟨_, _, hnumeric, Or.inr rfl⟩
    · exact ⟨_, _, hnumeric, Or.inl rfl⟩
    · cases hnumeric
  · rintro ⟨first, rest, hfirst, rfl | rfl⟩
    · unfold looksNumeric
      split
      · next heq =>
          obtain ⟨rfl, -⟩ := List.cons.inj heq
          exact absurd hfirst (by decide)
      · next heq => exact (List.cons.inj heq).1 ▸ hfirst
      · next heq => cases heq
    · exact hfirst

section Literals

variable {magnitude : List Char → Nat → Prop} (hstarts : StartsWithDigit magnitude)
include hstarts

theorem Literal.looksNumeric {word : List Char} {value : Int}
    (hliteral : Literal magnitude word value) : looksNumeric word = true := by
  rw [looksNumeric_iff]
  cases hliteral with
  | positive hmagnitude =>
      obtain ⟨first, rest, rfl, hfirst⟩ := hstarts.first_digit hmagnitude
      exact ⟨first, rest, hfirst, Or.inl rfl⟩
  | negative hmagnitude =>
      obtain ⟨first, rest, rfl, hfirst⟩ := hstarts.first_digit hmagnitude
      exact ⟨first, rest, hfirst, Or.inr rfl⟩

theorem Literal.colon_not_mem {word : List Char} {value : Int}
    (hliteral : Literal magnitude word value) : ':' ∉ word :=
  hliteral.not_mem (by decide) hstarts.no_colon

theorem literal_minus_iff {rest : List Char} {value : Int} :
    Literal magnitude ('-' :: rest) value ↔
      ∃ size : Nat, magnitude rest size ∧ size < 2 ^ 64 ∧ -(size : Int) = value := by
  constructor
  · intro hliteral
    generalize hword : '-' :: rest = word at hliteral
    cases hliteral with
    | positive hmagnitude =>
        obtain ⟨first, _, rfl, hfirst⟩ := hstarts.first_digit hmagnitude
        obtain ⟨rfl, -⟩ := List.cons.inj hword
        exact absurd hfirst (by decide)
    | negative hmagnitude hfits =>
        obtain ⟨-, rfl⟩ := List.cons.inj hword
        exact ⟨_, hmagnitude, hfits, rfl⟩
  · rintro ⟨size, hmagnitude, hfits, rfl⟩
    exact .negative hmagnitude hfits

end Literals

theorem literal_digit_iff {magnitude : List Char → Nat → Prop} {first : Char} {rest : List Char}
    {value : Int} (hfirst : first.isDigit = true) :
    Literal magnitude (first :: rest) value ↔
      ∃ size : Nat, magnitude (first :: rest) size ∧ size < 2 ^ 64 ∧ (size : Int) = value := by
  constructor
  · intro hliteral
    generalize hword : first :: rest = word at hliteral
    cases hliteral with
    | positive hmagnitude hfits => exact ⟨_, hword ▸ hmagnitude, hfits, rfl⟩
    | negative =>
        obtain ⟨rfl, -⟩ := List.cons.inj hword
        exact absurd hfirst (by decide)
  · rintro ⟨size, hmagnitude, hfits, rfl⟩
    exact .positive hmagnitude hfits

theorem number?_eq_some_iff {word : List Char} {value : Int}
    (hnumeric : looksNumeric word = true) :
    number? word = some value ↔
      Literal Magnitude word value ∨ Literal PlusMagnitude word value := by
  obtain ⟨first, rest, hfirst, rfl | rfl⟩ := looksNumeric_iff.mp hnumeric
  · have hread : number? (first :: rest) =
        (magnitude? (first :: rest)).map fun size : Nat => (size : Int) := by
      rw [number?]
      · cases magnitude? (first :: rest) <;> rfl
      · intro rest heq
        obtain ⟨rfl, -⟩ := List.cons.inj heq
        exact absurd hfirst (by decide)
    rw [hread, Option.map_eq_some_iff, literal_digit_iff hfirst, literal_digit_iff hfirst,
      ← exists_or]
    exact exists_congr fun size => by
      rw [magnitude?_eq_some_iff hfirst, and_assoc, or_and_right]
  · have hread : number? ('-' :: first :: rest) =
        (magnitude? (first :: rest)).map fun size : Nat => -(size : Int) := by
      rw [number?]
      cases magnitude? (first :: rest) <;> rfl
    rw [hread, Option.map_eq_some_iff, literal_minus_iff Magnitude.startsWithDigit,
      literal_minus_iff PlusMagnitude.startsWithDigit, ← exists_or]
    exact exists_congr fun size => by
      rw [magnitude?_eq_some_iff hfirst, and_assoc, or_and_right]

/-! ## Words -/

/-- Only what starts like a number is read as one. -/
theorem ofWord_eq_number_iff {word : List Char} {value : Int} :
    ofWord word = .ok (.number value) ↔
      word.getLast? ≠ some ':' ∧ looksNumeric word = true ∧ number? word = some value := by
  constructor
  · intro hread
    by_cases hlast : word.getLast? = some ':'
    · rw [ofWord, if_pos hlast] at hread
      split at hread <;> simp at hread
    · by_cases hnumeric : looksNumeric word = true
      · rw [ofWord_of_looksNumeric hlast hnumeric] at hread
        cases hnumber : number? word with
        | none => simp [hnumber] at hread
        | some other =>
            obtain rfl : other = value := by simpa [hnumber] using hread
            exact ⟨hlast, hnumeric, rfl⟩
      · rw [ofWord, if_neg hlast, if_neg hnumeric] at hread
        split at hread
        · simp at hread
        · split at hread
          · split at hread <;> simp at hread
          · split at hread <;> simp at hread
  · rintro ⟨hlast, hnumeric, hnumber⟩
    rw [ofWord_of_looksNumeric hlast hnumeric, hnumber]
    rfl

theorem ofWord_eq_number_iff_literal {word : List Char} {value : Int} :
    ofWord word = .ok (.number value) ↔
      Literal Magnitude word value ∨ Literal PlusMagnitude word value := by
  rw [ofWord_eq_number_iff]
  constructor
  · rintro ⟨-, hnumeric, hnumber⟩
    exact (number?_eq_some_iff hnumeric).mp hnumber
  · intro hliteral
    have hnumeric : looksNumeric word = true := hliteral.elim
      (Literal.looksNumeric Magnitude.startsWithDigit)
      (Literal.looksNumeric PlusMagnitude.startsWithDigit)
    have hcolon : ':' ∉ word := hliteral.elim
      (Literal.colon_not_mem Magnitude.startsWithDigit)
      (Literal.colon_not_mem PlusMagnitude.startsWithDigit)
    exact ⟨fun hlast => hcolon (List.mem_of_getLast? hlast), hnumeric,
      (number?_eq_some_iff hnumeric).mpr hliteral⟩

/-- What starts like a number and is none is refused as such. -/
theorem readExactly_of_number_iff {literal : List Char → Int → Prop} {word : List Char}
    (hnumber : ∀ value, ofWord word = .ok (.number value) ↔ literal word value) :
    ReadExactly literal word where
  number_iff := hnumber
  refused := by
    intro hstarts hlast hno
    have hread := ofWord_of_looksNumeric hlast (looksNumeric_iff.mpr hstarts)
    cases hvalue : number? word with
    | none => rw [hread, hvalue]; rfl
    | some value =>
        rw [hvalue] at hread
        exact absurd ((hnumber value).mp hread) (hno value)

/-- The numbers among the words are the literals and the hexadecimal literals with a plus sign after
their marker.  So a word is read exactly if it is a literal, and refused if it only starts like
one, if and only if it is not one of the latter. -/
theorem literals_read_exactly_iff_no_plus (word : List Char) :
    ReadExactly
        (fun word value => Literal Magnitude word value ∨ Literal PlusMagnitude word value) word ∧
      (ReadExactly (Literal Magnitude) word ↔ ∀ value, ¬ Literal PlusMagnitude word value) := by
  refine ⟨readExactly_of_number_iff fun value => ofWord_eq_number_iff_literal, ?_, ?_⟩
  · intro hexact value hplus
    have hread := ofWord_eq_number_iff_literal.mpr (Or.inr hplus)
    have hliteral := (hexact.number_iff value).mp hread
    exact hliteral.plus_not_mem hplus.plus_mem
  · intro hplus
    apply readExactly_of_number_iff
    intro value
    rw [ofWord_eq_number_iff_literal, or_iff_left (hplus value)]

/-- A negative number in hexadecimal is read, and decimal digits with letters after them are
refused. -/
theorem unsigned_words_read_exactly :
    Literal Magnitude "-0X1F".toList (-31) ∧
      ofWord "12ab".toList = .error (.invalidNumber "12ab") := by
  have hexact : ∀ word : List Char, '+' ∉ word → ReadExactly (Literal Magnitude) word :=
    fun word hplus => (literals_read_exactly_iff_no_plus word).2.mpr
      fun value hliteral => hplus hliteral.plus_mem
  constructor
  · exact ((hexact _ (by decide)).number_iff (-31)).mp (by decide +kernel)
  · apply (hexact _ (by decide)).refused ⟨'1', _, rfl, Or.inl rfl⟩ (by decide)
    intro value hliteral
    have hread := ((hexact _ (by decide)).number_iff value).mpr hliteral
    have hnone : number? "12ab".toList = none := by decide +kernel
    cases hnone.symm.trans (ofWord_eq_number_iff.mp hread).2.2

/-- Digits with a plus sign after their marker are read as a number, although they are no
literal. -/
theorem markedPlus_is_read :
    ofWord "0x+5".toList = .ok (.number 5) ∧
      ∀ value, ¬ Literal Magnitude "0x+5".toList value :=
  ⟨by decide +kernel, fun _ hliteral => hliteral.plus_not_mem (by decide)⟩

end GasMachine.Assembly.Token
