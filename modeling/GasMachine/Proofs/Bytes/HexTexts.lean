import Mathlib
import GasMachine.Proofs.Bytes.Slices
import GasMachine.Proofs.Text.Numerals

/-!
# Byte strings as hexadecimal text

A byte string is printed as two digits for each byte and read back from such pairs.  Reading also
takes a plus sign for the first digit of a pair, as if it were a zero.  So a text is read exactly
if it is made of pairs of digits after its marker, and printed again in lower case, unless such a
plus sign is in it.
-/

namespace GasMachine.Hex

def IsDigit (char : Char) : Prop :=
  ∃ value, Text.IsDigit 16 char value

/-- An even number of digits. -/
structure DigitPairs (chars : List Char) : Prop where
  even : chars.length % 2 = 0
  digits : ∀ char ∈ chars, IsDigit char

/-- Pairs of digits, where a plus sign may stand for the first digit of a pair. -/
structure SignedPairs (chars : List Char) : Prop where
  even : chars.length % 2 = 0
  digits : ∀ (index : Nat) (char : Char), chars[index]? = some char →
    IsDigit char ∨ char = '+' ∧ index % 2 = 0

/-- The digit, in lower case, that a character of a pair counts as. -/
def plainDigit (char : Char) : Char :=
  if char = '+' then '0' else char.toLower

/-! ## Digits -/

theorem digit?_eq_none_iff {char : Char} : digit? char = none ↔ ¬ IsDigit char := by
  rw [Option.eq_none_iff_forall_ne_some, IsDigit, not_exists]
  exact forall_congr' fun value => not_congr Text.hexDigit?_eq_some_iff

theorem not_isDigit_plus : ¬ IsDigit '+' :=
  digit?_eq_none_iff.mp (by decide)

theorem not_isDigit_x : ¬ IsDigit 'x' :=
  digit?_eq_none_iff.mp (by decide)

theorem IsDigit.utf8Size_eq {char : Char} (hdigit : IsDigit char) : char.utf8Size = 1 := by
  obtain ⟨value, hvalue⟩ := hdigit
  have hcode := hvalue.toNat_lt le_rfl
  rw [Char.utf8Size_eq_one_iff, UInt32.le_iff_toNat_le]
  exact Nat.le_of_lt_succ hcode

theorem plainDigit_plus : plainDigit '+' = Nat.digitChar 0 := rfl

theorem plainDigit_of_isDigit {char : Char} (hdigit : IsDigit char) :
    plainDigit char = char.toLower := by
  rw [plainDigit, if_neg]
  rintro rfl
  exact not_isDigit_plus hdigit

theorem digitChar_inj {left right : Nat} (hleft : left < 16) (hright : right < 16)
    (hchar : Nat.digitChar left = Nat.digitChar right) : left = right := by
  have htable : ∀ left right : Fin 16, Nat.digitChar left = Nat.digitChar right → left = right := by
    decide
  exact congrArg Fin.val (htable ⟨left, hleft⟩ ⟨right, hright⟩ hchar)

/-! ## Pairs -/

/-- A byte is printed as the digits of its halves. -/
theorem ofByte_eq_iff {byte : UInt8} {high low : Nat} (hhigh : high < 16) (hlow : low < 16) :
    ofByte byte = [Nat.digitChar high, Nat.digitChar low] ↔
      UInt8.ofNat (16 * high + low) = byte := by
  have hbyte := byte.toNat_lt
  rw [ofByte, List.cons.injEq, List.cons.injEq]
  constructor
  · rintro ⟨hfirst, hsecond, -⟩
    have hdiv := digitChar_inj (by omega) hhigh hfirst
    have hmod := digitChar_inj (by omega) hlow hsecond
    rw [← hdiv, ← hmod, Nat.div_add_mod, UInt8.ofNat_toNat]
  · rintro rfl
    have hvalue : (UInt8.ofNat (16 * high + low)).toNat = 16 * high + low :=
      UInt8.toNat_ofNat_of_lt' (by unfold UInt8.size; omega)
    rw [hvalue]
    exact ⟨congrArg _ (by omega), congrArg _ (by omega), rfl⟩

theorem pair?_eq_some_iff {first second : Char} {byte : UInt8} :
    pair? first second = some byte ↔
      (IsDigit first ∨ first = '+') ∧ IsDigit second ∧
        ofByte byte = [plainDigit first, plainDigit second] := by
  rw [pair?]
  cases hsecond : digit? second with
  | none => simp [digit?_eq_none_iff.mp hsecond]
  | some low =>
      have hlow := Text.hexDigit?_eq_some_iff.mp hsecond
      have hdigit : IsDigit second := ⟨low, hlow⟩
      rw [plainDigit_of_isDigit hdigit, hlow.2]
      cases hfirst : digit? first with
      | none =>
          have hfirst := digit?_eq_none_iff.mp hfirst
          by_cases hplus : first = '+'
          · subst hplus
            rw [plainDigit_plus, ofByte_eq_iff (by decide) hlow.1]
            simp [hdigit]
          · simp [hplus, hfirst]
      | some high =>
          have hhigh := Text.hexDigit?_eq_some_iff.mp hfirst
          have hdigits : IsDigit first := ⟨high, hhigh⟩
          rw [plainDigit_of_isDigit hdigits, hhigh.2, ofByte_eq_iff hhigh.1 hlow.1]
          simp [hdigits, hdigit]

theorem signedPairs_nil : SignedPairs [] :=
  ⟨rfl, by simp⟩

theorem signedPairs_cons_cons {first second : Char} {rest : List Char} :
    SignedPairs (first :: second :: rest) ↔
      (IsDigit first ∨ first = '+') ∧ IsDigit second ∧ SignedPairs rest := by
  have hlength : (first :: second :: rest).length % 2 = rest.length % 2 := Nat.add_mod_right _ 2
  constructor
  · rintro ⟨heven, hdigits⟩
    refine ⟨?_, ?_, hlength.symm.trans heven, fun index char hchar => ?_⟩
    · simpa using hdigits 0 first rfl
    · simpa using hdigits 1 second rfl
    · have hdigit := hdigits (index + 2) char hchar
      rwa [Nat.add_mod_right] at hdigit
  · rintro ⟨hfirst, hsecond, heven, hdigits⟩
    refine ⟨hlength.trans heven, ?_⟩
    rintro (_ | _ | index) char hchar
    · obtain rfl : first = char := by simpa using hchar
      simpa using hfirst
    · obtain rfl : second = char := by simpa using hchar
      exact Or.inl hsecond
    · rw [Nat.add_mod_right index 2]
      exact hdigits index char hchar

/-- Digits without a plus sign among them. -/
theorem digitPairs_iff {chars : List Char} :
    DigitPairs chars ↔ SignedPairs chars ∧ '+' ∉ chars := by
  constructor
  · rintro ⟨heven, hdigits⟩
    refine ⟨⟨heven, fun index char hchar => ?_⟩, fun hplus => ?_⟩
    · exact Or.inl (hdigits char (List.mem_of_getElem? hchar))
    · exact not_isDigit_plus (hdigits '+' hplus)
  · rintro ⟨⟨heven, hdigits⟩, hplus⟩
    refine ⟨heven, fun char hchar => ?_⟩
    obtain ⟨index, hindex⟩ := List.mem_iff_getElem?.mp hchar
    rcases hdigits index char hindex with hdigit | ⟨rfl, -⟩
    · exact hdigit
    · exact absurd hchar hplus

theorem DigitPairs.map_plainDigit {chars : List Char} (hdigits : DigitPairs chars) :
    chars.map plainDigit = chars.map Char.toLower :=
  List.map_congr_left fun char hchar => plainDigit_of_isDigit (hdigits.digits char hchar)

/-- Each pair is read by itself. -/
theorem decodePairs_cons_cons_eq_ok_iff {first second : Char} {rest : List Char}
    {bytes : List UInt8} :
    decodePairs (first :: second :: rest) = .ok bytes ↔
      ∃ byte tail, pair? first second = some byte ∧ decodePairs rest = .ok tail ∧
        bytes = byte :: tail := by
  have hsizes : ∀ {byte : UInt8}, pair? first second = some byte →
      first.utf8Size = 1 ∧ second.utf8Size = 1 := by
    intro byte hpair
    obtain ⟨hfirst, hsecond, -⟩ := pair?_eq_some_iff.mp hpair
    rcases hfirst with hdigit | rfl
    · exact ⟨hdigit.utf8Size_eq, hsecond.utf8Size_eq⟩
    · exact ⟨rfl, hsecond.utf8Size_eq⟩
  rw [decodePairs]
  cases hpair : pair? first second with
  | none =>
      simp only [reduceCtorEq, false_and, exists_false, iff_false]
      split
      · simp
      · split <;> simp
  | some byte =>
      obtain ⟨hfirst, hsecond⟩ := hsizes hpair
      rw [if_neg (by omega), if_pos ⟨hfirst, hsecond⟩]
      cases decodePairs rest with
      | error error => simp [Except.map]
      | ok tail => simp [Except.map, eq_comm]

theorem flatMap_ofByte_eq_iff {bytes : List UInt8} {first second : Char} {rest : List Char} :
    bytes.flatMap ofByte = first :: second :: rest ↔
      ∃ byte tail, ofByte byte = [first, second] ∧ tail.flatMap ofByte = rest ∧
        bytes = byte :: tail := by
  cases bytes with
  | nil => simp
  | cons byte tail =>
      rw [List.flatMap_cons]
      constructor
      · intro hprinted
        change ofByte byte ++ tail.flatMap ofByte = [first, second] ++ rest at hprinted
        obtain ⟨hpair, hrest⟩ := List.append_inj hprinted rfl
        exact ⟨byte, tail, hpair, hrest, rfl⟩
      · rintro ⟨_, _, hpair, hrest, heq⟩
        obtain ⟨rfl, rfl⟩ := List.cons.inj heq
        rw [hpair, hrest]
        rfl

/-- Pairs are read as the bytes that are printed as the digits they count as. -/
theorem decodePairs_eq_ok_iff {chars : List Char} {bytes : List UInt8} :
    decodePairs chars = .ok bytes ↔
      SignedPairs chars ∧ bytes.flatMap ofByte = chars.map plainDigit := by
  induction chars using List.twoStepInduction generalizing bytes with
  | nil =>
      rw [decodePairs, List.map_nil, and_iff_right signedPairs_nil, Except.ok.injEq]
      cases bytes with
      | nil => simp
      | cons byte tail => simp [ofByte]
  | singleton char =>
      have hodd : ¬ SignedPairs [char] := fun hpairs => absurd hpairs.even (by simp)
      rw [decodePairs]
      split <;> simp [hodd]
  | cons_cons first second rest ih _ =>
      rw [decodePairs_cons_cons_eq_ok_iff, signedPairs_cons_cons, List.map_cons, List.map_cons,
        flatMap_ofByte_eq_iff]
      constructor
      · rintro ⟨byte, tail, hpair, hrest, rfl⟩
        obtain ⟨hfirst, hsecond, hbyte⟩ := pair?_eq_some_iff.mp hpair
        obtain ⟨hpairs, htail⟩ := ih.mp hrest
        exact ⟨⟨hfirst, hsecond, hpairs⟩, byte, tail, hbyte, htail, rfl⟩
      · rintro ⟨⟨hfirst, hsecond, hpairs⟩, byte, tail, hbyte, htail, rfl⟩
        exact ⟨byte, tail, pair?_eq_some_iff.mpr ⟨hfirst, hsecond, hbyte⟩, ih.mpr ⟨hpairs, htail⟩,
          rfl⟩

theorem exists_plainDigit_eq {char : Char} (hchar : IsDigit char ∨ char = '+') :
    ∃ value < 16, plainDigit char = Nat.digitChar value := by
  rcases hchar with hdigit | rfl
  · obtain ⟨value, hvalue, hlower⟩ := hdigit
    exact ⟨value, hvalue, (plainDigit_of_isDigit ⟨value, hvalue, hlower⟩).trans hlower⟩
  · exact ⟨0, by decide, plainDigit_plus⟩

/-- Pairs are the digits of some bytes. -/
theorem SignedPairs.exists_bytes {chars : List Char} (hpairs : SignedPairs chars) :
    ∃ bytes : List UInt8, bytes.flatMap ofByte = chars.map plainDigit := by
  induction chars using List.twoStepInduction with
  | nil => exact ⟨[], rfl⟩
  | singleton char => exact absurd hpairs.even (by simp)
  | cons_cons first second rest ih _ =>
      obtain ⟨hfirst, hsecond, hrest⟩ := signedPairs_cons_cons.mp hpairs
      obtain ⟨high, hhigh, hplainFirst⟩ := exists_plainDigit_eq hfirst
      obtain ⟨low, hlow, hplainSecond⟩ := exists_plainDigit_eq (Or.inl hsecond)
      obtain ⟨tail, htail⟩ := ih hrest
      have hbyte := (ofByte_eq_iff hhigh hlow).mpr rfl
      refine ⟨UInt8.ofNat (16 * high + low) :: tail, flatMap_ofByte_eq_iff.mpr ?_⟩
      rw [hplainFirst, hplainSecond]
      exact ⟨_, tail, hbyte, htail, rfl⟩

/-! ## Texts -/

/-- The characters of pairs take one unit each. -/
theorem SignedPairs.utf8ByteSize_eq {chars : List Char} (hpairs : SignedPairs chars) :
    (String.ofList chars).utf8ByteSize = chars.length := by
  rw [String.utf8ByteSize_ofList]
  induction chars using List.twoStepInduction with
  | nil => rfl
  | singleton char => exact absurd hpairs.even (by simp)
  | cons_cons first second rest ih _ =>
      obtain ⟨hfirst, hsecond, hrest⟩ := signedPairs_cons_cons.mp hpairs
      have hsize : first.utf8Size = 1 := by
        rcases hfirst with hdigit | rfl
        · exact hdigit.utf8Size_eq
        · rfl
      rw [String.utf8Len_cons, String.utf8Len_cons, ih hrest, hsecond.utf8Size_eq, hsize]
      rfl

theorem encode_toByteArray (bytes : List UInt8) :
    encode bytes.toByteArray = String.ofList (bytes.flatMap ofByte) := by
  rw [encode, List.toList_data_toByteArray]

/-- A text is read exactly if it is made of pairs after its marker, as the bytes that are printed
as the digits these count as. -/
theorem decode_eq_ok_iff {text : String} {bytes : ByteArray} :
    decode text = .ok bytes ↔
      SignedPairs (withoutMarker text.toList) ∧
        encode bytes = String.ofList ((withoutMarker text.toList).map plainDigit) := by
  rw [decode]
  constructor
  · intro hread
    split at hread
    · cases hread
    · cases hpairs : decodePairs (withoutMarker text.toList) with
      | error error => simp [hpairs, Except.map] at hread
      | ok units =>
          obtain rfl : units.toByteArray = bytes := by simpa [hpairs, Except.map] using hread
          obtain ⟨hsigned, hprinted⟩ := decodePairs_eq_ok_iff.mp hpairs
          rw [encode_toByteArray, hprinted]
          exact ⟨hsigned, rfl⟩
  · rintro ⟨hsigned, hprinted⟩
    have hunits := String.ofList_inj.mp hprinted
    have heven : ¬ (String.ofList (withoutMarker text.toList)).utf8ByteSize % 2 = 1 := by
      rw [hsigned.utf8ByteSize_eq, hsigned.even]
      decide
    rw [if_neg heven, decodePairs_eq_ok_iff.mpr ⟨hsigned, hunits⟩, Except.map,
      Bytes.toByteArray_toList]

theorem exists_decode_iff {text : String} :
    (∃ bytes, decode text = .ok bytes) ↔ SignedPairs (withoutMarker text.toList) := by
  constructor
  · rintro ⟨bytes, hread⟩
    exact (decode_eq_ok_iff.mp hread).1
  · intro hsigned
    obtain ⟨units, hunits⟩ := hsigned.exists_bytes
    refine ⟨units.toByteArray, decode_eq_ok_iff.mpr ⟨hsigned, ?_⟩⟩
    rw [encode_toByteArray, hunits]

/-! ## Printed texts -/

theorem exists_digit_of_mem_flatMap {units : List UInt8} {char : Char}
    (hchar : char ∈ units.flatMap ofByte) : ∃ value < 16, char = Nat.digitChar value := by
  obtain ⟨unit, -, hunit⟩ := List.mem_flatMap.mp hchar
  have hlt := unit.toNat_lt
  simp only [ofByte, List.mem_cons, List.not_mem_nil, or_false] at hunit
  rcases hunit with rfl | rfl
  · exact ⟨unit.toNat / 16, by omega, rfl⟩
  · exact ⟨unit.toNat % 16, by omega, rfl⟩

theorem length_flatMap_ofByte (units : List UInt8) :
    (units.flatMap ofByte).length = 2 * units.length := by
  induction units with
  | nil => rfl
  | cons unit rest ih =>
      rw [List.flatMap_cons, List.length_append, ih, List.length_cons, Nat.mul_add, Nat.add_comm]
      rfl

theorem digitPairs_flatMap_ofByte (units : List UInt8) : DigitPairs (units.flatMap ofByte) where
  even := by rw [length_flatMap_ofByte, Nat.mul_mod_right]
  digits := by
    intro char hchar
    obtain ⟨value, hvalue, rfl⟩ := exists_digit_of_mem_flatMap hchar
    exact ⟨value, Text.isDigit_digitChar le_rfl hvalue⟩

/-- Digits are printed in lower case. -/
theorem map_plainDigit_flatMap_ofByte (units : List UInt8) :
    (units.flatMap ofByte).map plainDigit = units.flatMap ofByte := by
  conv_rhs => rw [← List.map_id (units.flatMap ofByte)]
  apply List.map_congr_left
  intro char hchar
  obtain ⟨value, hvalue, rfl⟩ := exists_digit_of_mem_flatMap hchar
  have hdigit := Text.isDigit_digitChar le_rfl hvalue
  exact (plainDigit_of_isDigit ⟨value, hdigit⟩).trans hdigit.2

theorem withoutMarker_of_not_mem {chars : List Char} (hmarker : 'x' ∉ chars) :
    withoutMarker chars = chars := by
  rw [withoutMarker]
  rintro rest rfl
  exact hmarker (List.mem_cons_of_mem _ List.mem_cons_self)

theorem decode_encode (bytes : ByteArray) : decode (encode bytes) = .ok bytes := by
  have hdigits := digitPairs_flatMap_ofByte bytes.data.toList
  have hmarker : withoutMarker (encode bytes).toList = bytes.data.toList.flatMap ofByte := by
    rw [encode, String.toList_ofList]
    exact withoutMarker_of_not_mem fun hx => not_isDigit_x (hdigits.digits 'x' hx)
  rw [decode_eq_ok_iff, hmarker, map_plainDigit_flatMap_ofByte]
  exact ⟨(digitPairs_iff.mp hdigits).1, rfl⟩

/-- A text is read exactly if it is made of pairs after its marker, and the bytes that are read are
printed as the digits of these pairs in lower case, a plus sign as a zero.  So a text is read
exactly if it is made of an even number of digits, and printed again in lower case, if and only if
it is not one of pairs with a plus sign among them.  Printed texts are read back. -/
theorem texts_read_exactly_iff_unsigned (text : String) :
    let shown := withoutMarker text.toList
    (∀ bytes, decode text = .ok bytes ↔
        SignedPairs shown ∧ encode bytes = String.ofList (shown.map plainDigit)) ∧
      ((((∃ bytes, decode text = .ok bytes) ↔ DigitPairs shown) ∧
          ∀ bytes, decode text = .ok bytes →
            encode bytes = String.ofList (shown.map Char.toLower)) ↔
        ¬ (SignedPairs shown ∧ '+' ∈ shown)) ∧
      ∀ bytes, decode (encode bytes) = .ok bytes := by
  intro shown
  refine ⟨fun bytes => decode_eq_ok_iff, ?_, decode_encode⟩
  rw [exists_decode_iff, digitPairs_iff]
  constructor
  · rintro ⟨hsame, -⟩ ⟨hsigned, hplus⟩
    exact (hsame.mp hsigned).2 hplus
  · intro hunsigned
    have hplus : SignedPairs shown → '+' ∉ shown := fun hsigned hplus =>
      hunsigned ⟨hsigned, hplus⟩
    refine ⟨⟨fun hsigned => ⟨hsigned, hplus hsigned⟩, And.left⟩, fun bytes hread => ?_⟩
    obtain ⟨hsigned, hprinted⟩ := decode_eq_ok_iff.mp hread
    have hdigits := digitPairs_iff.mpr ⟨hsigned, hplus hsigned⟩
    rw [hprinted, hdigits.map_plainDigit]

/-- Upper case is read, and printed in lower case. -/
theorem markedText_printed_in_lower_case :
    decode "0xAbCd" = .ok [0xAB, 0xCD].toByteArray ∧
      encode [0xAB, 0xCD].toByteArray = "abcd" := by
  obtain ⟨-, hexact, -⟩ := texts_read_exactly_iff_unsigned "0xAbCd"
  have hread : decode "0xAbCd" = .ok [0xAB, 0xCD].toByteArray := by decide +kernel
  exact ⟨hread, (hexact.mpr fun ⟨_, hplus⟩ => absurd hplus (by decide)).2 _ hread⟩

/-- A plus sign is read as a zero, although it is no digit. -/
theorem signedText_is_read :
    decode "+f" = .ok [0x0F].toByteArray ∧ ¬ DigitPairs (withoutMarker "+f".toList) ∧
      encode [0x0F].toByteArray ≠ "+f" := by
  refine ⟨by decide +kernel, ?_, by decide +kernel⟩
  exact fun hdigits => (digitPairs_iff.mp hdigits).2 (by decide)

end GasMachine.Hex
