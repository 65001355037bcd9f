import Mathlib
import GasMachine.Text.Numeral

/-!
# Numerals and their numbers

A numeral is made of the digits of its base, the most significant one first, and stands for one
number.  Text is read as a number exactly if it is a numeral after an optional plus sign, and the
number fits the word it is read into.  So a number that is printed and read back is the same.
-/

namespace GasMachine.Text

/-! ## Digits -/

/-- The character is the digit of the number in the base, in lower case or in upper case. -/
def IsDigit (base : Nat) (char : Char) (value : Nat) : Prop :=
  value < base ∧ char.toLower = Nat.digitChar value

theorem isDigit_digitChar {base value : Nat} (hbase : base ≤ 16) (hvalue : value < base) :
    IsDigit base (Nat.digitChar value) value := by
  have hlower : ∀ digit : Fin 16, (Nat.digitChar digit).toLower = Nat.digitChar digit := by decide
  exact ⟨hvalue, hlower ⟨value, Nat.lt_of_lt_of_le hvalue hbase⟩⟩

theorem IsDigit.toNat_lt {base : Nat} {char : Char} {value : Nat} (hbase : base ≤ 16)
    (hdigit : IsDigit base char value) : char.toNat < 128 := by
  obtain ⟨hvalue, hchar⟩ := hdigit
  by_cases hupper : char.isUpper = true
  · have hlast : char.toNat ≤ 'Z'.toNat := (of_decide_eq_true hupper).2
    exact Nat.lt_of_le_of_lt hlast (by decide)
  · have hdigits : ∀ digit : Fin 16, (Nat.digitChar digit).toNat < 128 := by decide
    rw [Char.toLower_eq_of_not_isUpper hupper] at hchar
    rw [hchar]
    exact hdigits ⟨value, by omega⟩

/-- A function that is right about the characters of seven bits, and knows no digit among the
others, finds the digits of the base. -/
theorem eq_some_iff_isDigit {base : Nat} {digit? : Char → Option Nat} (hbase : base ≤ 16)
    (hbounds : ∀ char value, digit? char = some value → char.toNat < 128 ∧ value < base)
    (htable : ∀ (code : Fin 128) (digit : Fin base),
      digit? (Char.ofNat code) = some digit.val ↔
        (Char.ofNat code).toLower = Nat.digitChar digit)
    {char : Char} {value : Nat} : digit? char = some value ↔ IsDigit base char value := by
  have hentry : char.toNat < 128 → value < base →
      (digit? char = some value ↔ char.toLower = Nat.digitChar value) := by
    intro hcode hvalue
    have hentry := htable ⟨char.toNat, hcode⟩ ⟨value, hvalue⟩
    rwa [Char.ofNat_toNat] at hentry
  constructor
  · intro hdigit
    obtain ⟨hcode, hvalue⟩ := hbounds char value hdigit
    exact ⟨hvalue, (hentry hcode hvalue).mp hdigit⟩
  · intro hdigit
    exact (hentry (hdigit.toNat_lt hbase) hdigit.1).mpr hdigit.2

theorem decimalDigit?_eq_some_iff {char : Char} {value : Nat} :
    decimalDigit? char = some value ↔ IsDigit 10 char value := by
  refine eq_some_iff_isDigit (by decide) ?_ (by decide +kernel)
  intro char value hdigit
  unfold decimalDigit? at hdigit
  split at hdigit
  · next hrange =>
      have hlast : char.toNat ≤ '9'.toNat := hrange.2
      simp at hdigit hlast
      omega
  · cases hdigit

theorem isDigit_of_isDigit_ten {char : Char} {value : Nat} (hdigit : IsDigit 10 char value) :
    char.isDigit = true := by
  have hread := decimalDigit?_eq_some_iff.mpr hdigit
  unfold decimalDigit? at hread
  split at hread
  · next hrange =>
      exact Bool.and_eq_true_iff.mpr ⟨decide_eq_true hrange.1, decide_eq_true hrange.2⟩
  · cases hread

theorem hexDigit?_eq_some_iff {char : Char} {value : Nat} :
    Hex.digit? char = some value ↔ IsDigit 16 char value := by
  refine eq_some_iff_isDigit (by decide) ?_ (by decide +kernel)
  intro char value hdigit
  unfold Hex.digit? at hdigit
  split at hdigit
  · next hrange =>
      have hlast : char.toNat ≤ '9'.toNat := hrange.2
      simp at hdigit hlast
      omega
  · split at hdigit
    · next hrange =>
        have hlast : char.toNat ≤ 'f'.toNat := hrange.2
        simp at hdigit hlast
        omega
    · split at hdigit
      · next hrange =>
          have hlast : char.toNat ≤ 'F'.toNat := hrange.2
          simp at hdigit hlast
          omega
      · cases hdigit

/-! ## Numerals -/

/-- The numerals of a base and their numbers: one digit or more, the most significant one
first. -/
inductive Numeral (base : Nat) : List Char → Nat → Prop where
  | digit {char : Char} {value : Nat} (hdigit : IsDigit base char value) :
      Numeral base [char] value
  | append {front : List Char} {char : Char} {value digit : Nat}
      (hfront : Numeral base front value) (hdigit : IsDigit base char digit) :
      Numeral base (front ++ [char]) (base * value + digit)

section Numerals

variable {base value : Nat} {chars : List Char}

theorem Numeral.exists_digit (hnumeral : Numeral base chars value) {char : Char}
    (hchar : char ∈ chars) : ∃ digit, IsDigit base char digit := by
  induction hnumeral with
  | digit hdigit => exact ⟨_, List.mem_singleton.mp hchar ▸ hdigit⟩
  | append hfront hdigit ih =>
      rcases List.mem_append.mp hchar with hbefore | hlast
      · exact ih hbefore
      · exact ⟨_, List.mem_singleton.mp hlast ▸ hdigit⟩

theorem Numeral.not_mem (hnumeral : Numeral base chars value) (char : Char)
    (hchar : ∀ digit : Fin base, char.toLower ≠ Nat.digitChar digit) : char ∉ chars := by
  intro hmem
  obtain ⟨digit, hlt, heq⟩ := hnumeral.exists_digit hmem
  exact hchar ⟨digit, hlt⟩ heq

theorem Numeral.ne_nil (hnumeral : Numeral base chars value) : chars ≠ [] := by
  cases hnumeral <;> simp

theorem Numeral.plus_not_mem (hbase : base ≤ 16) (hnumeral : Numeral base chars value) :
    '+' ∉ chars := by
  have htable : ∀ digit : Fin 16, '+'.toLower ≠ Nat.digitChar digit := by decide
  exact hnumeral.not_mem '+' fun digit => htable ⟨digit, by omega⟩

/-- What is printed for a number is a numeral of it. -/
theorem numeral_toDigits (hbase : 1 < base) (hsmall : base ≤ 16) (value : Nat) :
    Numeral base (Nat.toDigits base value) value := by
  induction value using Nat.strongRecOn with
  | ind value ih =>
      rw [Nat.toDigits_eq_if hbase]
      split
      · next hdigit => exact .digit (isDigit_digitChar hsmall hdigit)
      · next hlarge =>
          have hfront := ih (value / base) (Nat.div_lt_self (by omega) hbase)
          have hlast : value % base < base := Nat.mod_lt _ (by omega)
          have hnumeral := Numeral.append hfront (isDigit_digitChar hsmall hlast)
          rwa [Nat.div_add_mod] at hnumeral

/-- Printed numerals are made of the digits of their base. -/
theorem exists_digit_of_mem_toDigits (hbase : 1 < base) {char : Char}
    (hchar : char ∈ Nat.toDigits base value) : ∃ digit < base, char = Nat.digitChar digit := by
  induction value using Nat.strongRecOn with
  | ind value ih =>
      rw [Nat.toDigits_eq_if hbase] at hchar
      split at hchar
      · next hsmall => exact ⟨value, hsmall, List.mem_singleton.mp hchar⟩
      · next hlarge =>
          rcases List.mem_append.mp hchar with hfront | hlast
          · exact ih (value / base) (Nat.div_lt_self (by omega) hbase) hfront
          · exact ⟨value % base, Nat.mod_lt _ (by omega), List.mem_singleton.mp hlast⟩

end Numerals

/-! ## Reading -/

/-- A plus sign stands in front of a numeral or does not. -/
theorem numeral_withoutPlus_iff {base value : Nat} {chars : List Char} (hbase : base ≤ 16) :
    Numeral base (withoutPlus chars) value ↔
      Numeral base chars value ∨ ∃ digits, chars = '+' :: digits ∧ Numeral base digits value := by
  by_cases hplus : ∃ digits, chars = '+' :: digits
  · obtain ⟨digits, rfl⟩ := hplus
    have hsigned : ¬ Numeral base ('+' :: digits) value := fun hnumeral =>
      hnumeral.plus_not_mem hbase List.mem_cons_self
    simp [withoutPlus, hsigned]
  · have hplain : withoutPlus chars = chars := by
      rw [withoutPlus]
      exact fun digits heq => hplus ⟨digits, heq⟩
    rw [hplain, or_iff_left]
    exact fun ⟨digits, heq, _⟩ => hplus ⟨digits, heq⟩

section Reading

variable {base : Nat} {digit? : Char → Option Nat} {chars : List Char} {value : Nat}
variable (hdigit : ∀ char value, digit? char = some value ↔ IsDigit base char value)
include hdigit

/-- Digits are read as the number whose numeral they are. -/
theorem numeral_iff :
    Numeral base chars value ↔ chars ≠ [] ∧ digitsValue? base digit? chars = some value := by
  constructor
  · intro hnumeral
    induction hnumeral with
    | digit hchar => simp [digitsValue?, (hdigit _ _).mpr hchar]
    | append hfront hchar ih =>
        refine ⟨by simp, ?_⟩
        rw [digitsValue?] at ih ⊢
        rw [List.foldlM_append, ih.2]
        simp [(hdigit _ _).mpr hchar]
  · rintro ⟨hne, hread⟩
    induction chars using List.reverseRecOn generalizing value with
    | nil => exact absurd rfl hne
    | append_singleton front char ih =>
        rw [digitsValue?, List.foldlM_append] at hread
        obtain ⟨before, hbefore, hlast⟩ := Option.bind_eq_some_iff.mp hread
        obtain ⟨digit, hchar, rfl⟩ : ∃ digit, digit? char = some digit ∧
            base * before + digit = value := by
          simpa using hlast
        cases front with
        | nil =>
            obtain rfl : 0 = before := Option.some.inj hbefore
            rw [Nat.mul_zero, Nat.zero_add]
            exact .digit ((hdigit _ _).mp hchar)
        | cons first rest =>
            exact .append (ih (List.cons_ne_nil _ _) hbefore) ((hdigit _ _).mp hchar)

theorem unsigned?_eq_some_iff {bits : Nat} :
    unsigned? base digit? bits chars = some value ↔
      Numeral base (withoutPlus chars) value ∧ value < 2 ^ bits := by
  rw [numeral_iff hdigit, unsigned?]
  split
  · next hempty => simp [hempty]
  · next hne =>
      rw [Option.filter_eq_some_iff, Nat.one_shiftLeft, decide_eq_true_eq, and_assoc]
      exact (and_iff_right hne).symm

end Reading

section Words

variable {bits value : Nat} {chars : List Char}

theorem decimal?_eq_some_iff :
    decimal? bits chars = some value ↔ Numeral 10 (withoutPlus chars) value ∧ value < 2 ^ bits :=
  unsigned?_eq_some_iff fun _ _ => decimalDigit?_eq_some_iff

theorem hexadecimal?_eq_some_iff :
    hexadecimal? bits chars = some value ↔
      Numeral 16 (withoutPlus chars) value ∧ value < 2 ^ bits :=
  unsigned?_eq_some_iff fun _ _ => hexDigit?_eq_some_iff

theorem decimal?_toDigits (hvalue : value < 1 <<< bits) :
    decimal? bits (Nat.toDigits 10 value) = some value := by
  rw [decimal?_eq_some_iff, numeral_withoutPlus_iff (by decide), ← Nat.one_shiftLeft]
  exact ⟨Or.inl (numeral_toDigits (by decide) (by decide) value), hvalue⟩

theorem hexadecimal?_toDigits (hvalue : value < 1 <<< bits) :
    hexadecimal? bits (Nat.toDigits 16 value) = some value := by
  rw [hexadecimal?_eq_some_iff, numeral_withoutPlus_iff le_rfl, ← Nat.one_shiftLeft]
  exact ⟨Or.inl (numeral_toDigits (by decide) le_rfl value), hvalue⟩

end Words

end GasMachine.Text
