import Mathlib
import GasMachine.Bytes.Natural
import GasMachine.Proofs.Bytes.Words

/-!
# Written forms of natural numbers

A number can be written in several forms, of one to nine bytes.  A form is known
by its first byte: the one bits at its top say how many bytes follow.  Reading
finds exactly the form at the front of its input, a number has at most one form
of each length, and the form that is written is the shortest one.
-/

namespace GasMachine

/-- The bytes of a number stand for what of it fits them. -/
theorem LittleEndian.toNat_ofNat (width value : Nat) :
    toNat (ofNat width value) = value % 2 ^ (8 * width) := by
  induction width generalizing value with
  | zero => rw [ofNat, toNat, Nat.mul_zero, Nat.pow_zero, Nat.mod_one]
  | succ width ih =>
      rw [ofNat, toNat, ih, UInt8.toNat_ofNat', Nat.mul_add, Nat.add_comm (8 * width),
        Nat.pow_add]
      exact Nat.mod_mul.symm

namespace Natural

/-- The forms of a number.  A first byte of `extra` one bits, a zero bit and the
most significant part of the number is followed by its `extra` lower bytes, the
least significant one first.  A first byte of one bits only is followed by eight
bytes. -/
inductive Encodes : List UInt8 → Nat → Prop where
  | short {extra high : Nat} {rest : List UInt8} (hextra : extra < 8)
      (hhigh : high < 2 ^ (7 - extra)) (hrest : rest.length = extra) :
      Encodes (UInt8.ofNat (256 - 2 ^ (8 - extra) + high) :: rest)
        (LittleEndian.toNat rest + high * 2 ^ (8 * extra))
  | full {rest : List UInt8} (hrest : rest.length = 8) :
      Encodes (0xFF :: rest) (LittleEndian.toNat rest)

/-- The form of a number than which no form of it is shorter. -/
def Shortest (bytes : List UInt8) (value : Nat) : Prop :=
  Encodes bytes value ∧ ∀ other, Encodes other value → bytes.length ≤ other.length

/-! ## First bytes -/

/-- The bytes with a given number of one bits at their top lie between those with
fewer and those with more. -/
theorem leadingOnes_bounds (byte : UInt8) :
    256 - 2 ^ (8 - leadingOnes byte) ≤ byte.toNat ∧
      (leadingOnes byte < 8 → byte.toNat < 256 - 2 ^ (7 - leadingOnes byte)) ∧
      leadingOnes byte ≤ 8 := by
  have hbyte := byte.toNat_lt
  unfold leadingOnes
  simp only [UInt8.lt_iff_toNat_lt]
  repeat' split
  all_goals simp at *
  all_goals omega

theorem two_pow_succ_sub {extra : Nat} (hextra : extra < 8) :
    2 ^ (8 - extra) = 2 * 2 ^ (7 - extra) := by
  rw [show 8 - extra = (7 - extra) + 1 by omega, Nat.pow_succ, Nat.mul_comm]

theorem toNat_first {extra high : Nat} (hextra : extra < 8) (hhigh : high < 2 ^ (7 - extra)) :
    (UInt8.ofNat (256 - 2 ^ (8 - extra) + high)).toNat = 256 - 2 ^ (8 - extra) + high := by
  have hle : 2 ^ (7 - extra) ≤ 2 ^ 7 := Nat.pow_le_pow_right Nat.two_pos (Nat.sub_le _ _)
  apply UInt8.toNat_ofNat_of_lt'
  rw [two_pow_succ_sub hextra]
  unfold UInt8.size
  omega

theorem leadingOnes_first {extra high : Nat} (hextra : extra < 8)
    (hhigh : high < 2 ^ (7 - extra)) :
    leadingOnes (UInt8.ofNat (256 - 2 ^ (8 - extra) + high)) = extra := by
  have hfirst := toNat_first hextra hhigh
  obtain ⟨hlower, hupper, hbound⟩ :=
    leadingOnes_bounds (UInt8.ofNat (256 - 2 ^ (8 - extra) + high))
  generalize leadingOnes (UInt8.ofNat (256 - 2 ^ (8 - extra) + high)) = ones at *
  rw [hfirst, two_pow_succ_sub hextra] at hlower hupper
  have hle : 2 ^ (7 - extra) ≤ 2 ^ 7 := Nat.pow_le_pow_right Nat.two_pos (Nat.sub_le _ _)
  rcases Nat.lt_trichotomy ones extra with hless | heq | hmore
  · have hpow : 2 ^ (8 - extra) ≤ 2 ^ (7 - ones) := Nat.pow_le_pow_right Nat.two_pos (by omega)
    have hones := hupper (by omega)
    rw [two_pow_succ_sub hextra] at hpow
    omega
  · exact heq
  · have hpow : 2 ^ (8 - ones) ≤ 2 ^ (7 - extra) := Nat.pow_le_pow_right Nat.two_pos (by omega)
    omega

theorem mod_first {extra high : Nat} (hextra : extra < 8) (hhigh : high < 2 ^ (7 - extra)) :
    (256 - 2 ^ (8 - extra) + high) % 2 ^ (7 - extra) = high := by
  have hdvd : 2 ^ (7 - extra) ∣ 256 - 2 ^ (8 - extra) := by
    apply Nat.dvd_sub
    · exact Nat.pow_dvd_pow 2 (by omega : 7 - extra ≤ 8)
    · exact Nat.pow_dvd_pow 2 (by omega)
  rw [Nat.add_mod, Nat.mod_eq_zero_of_dvd hdvd, Nat.zero_add, Nat.mod_mod,
    Nat.mod_eq_of_lt hhigh]

/-- A byte with a zero bit is the first byte of the forms with as many bytes
after it as it has one bits at its top. -/
theorem eq_first {byte : UInt8} (hones : leadingOnes byte < 8) :
    byte = UInt8.ofNat (256 - 2 ^ (8 - leadingOnes byte) +
      byte.toNat % 2 ^ (7 - leadingOnes byte)) := by
  obtain ⟨hlower, hupper, -⟩ := leadingOnes_bounds byte
  have hupper := hupper hones
  have hpow := two_pow_succ_sub hones
  have hle : 2 ^ (8 - leadingOnes byte) ≤ 2 ^ 8 :=
    Nat.pow_le_pow_right Nat.two_pos (Nat.sub_le _ _)
  obtain ⟨high, hsum⟩ := Nat.exists_eq_add_of_le hlower
  have hhigh : high < 2 ^ (7 - leadingOnes byte) := by omega
  have hmod : byte.toNat % 2 ^ (7 - leadingOnes byte) = high := by
    rw [hsum, mod_first hones hhigh]
  rw [hmod]
  apply UInt8.toNat.inj
  rw [toNat_first hones hhigh, hsum]

theorem eq_ones {byte : UInt8} (hones : leadingOnes byte = 8) : byte = 0xFF := by
  obtain ⟨hlower, -, -⟩ := leadingOnes_bounds byte
  have hbyte := byte.toNat_lt
  rw [hones] at hlower
  have hvalue : byte.toNat = 255 := by omega
  exact UInt8.toNat.inj hvalue

/-! ## Reading -/

def valueOf (first : UInt8) (lower : List UInt8) : Nat :=
  if leadingOnes first = 8 then LittleEndian.toNat lower
  else
    LittleEndian.toNat lower +
      first.toNat % 2 ^ (7 - leadingOnes first) * 2 ^ (8 * leadingOnes first)

theorem decode_cons (first : UInt8) (tail : List UInt8) :
    decode (first :: tail) =
      if tail.length < leadingOnes first then none
      else
        some (UInt64.ofNat (valueOf first (tail.take (leadingOnes first))),
          leadingOnes first + 1) := by
  rw [decode, valueOf]
  simp only [Nat.shiftLeft_eq, Nat.one_mul]
  split
  · rfl
  · split
    · next hfull => rw [hfull]
    · rfl

/-- A form is as long as its first byte says, and stands for one number. -/
theorem encodes_cons_iff {first : UInt8} {lower : List UInt8} {value : Nat} :
    Encodes (first :: lower) value ↔
      lower.length = leadingOnes first ∧ value = valueOf first lower := by
  constructor
  · intro hencodes
    cases hencodes with
    | short hextra hhigh hlower =>
        have hones := leadingOnes_first hextra hhigh
        refine ⟨hlower.trans hones.symm, ?_⟩
        rw [valueOf, hones, if_neg (Nat.ne_of_lt hextra), toNat_first hextra hhigh,
          mod_first hextra hhigh]
    | full hlower => exact ⟨hlower, rfl⟩
  · rintro ⟨hlower, rfl⟩
    unfold valueOf
    by_cases hfull : leadingOnes first = 8
    · rw [if_pos hfull, eq_ones hfull]
      exact .full (hlower.trans hfull)
    · have hones : leadingOnes first < 8 :=
        Nat.lt_of_le_of_ne (leadingOnes_bounds first).2.2 hfull
      rw [if_neg hfull]
      have hform := Encodes.short hones (Nat.mod_lt first.toNat (Nat.two_pow_pos _)) hlower
      rwa [← eq_first hones] at hform

variable {bytes other : List UInt8} {value : Nat}

theorem Encodes.exists_cons (hencodes : Encodes bytes value) :
    ∃ first lower, bytes = first :: lower ∧ lower.length = leadingOnes first ∧
      value = valueOf first lower := by
  cases bytes with
  | nil => cases hencodes
  | cons first lower => exact ⟨first, lower, rfl, encodes_cons_iff.mp hencodes⟩

/-- Reading finds the form at the front, whatever follows it. -/
theorem decode_append (hencodes : Encodes bytes value) (rest : List UInt8) :
    decode (bytes ++ rest) = some (UInt64.ofNat value, bytes.length) := by
  obtain ⟨first, lower, rfl, hlower, rfl⟩ := hencodes.exists_cons
  rw [List.cons_append, decode_cons, List.take_left' hlower, List.length_cons, hlower,
    if_neg (by simp [hlower])]

/-- What is read is a form at the front. -/
theorem encodes_of_decode {stream : List UInt8} {word : UInt64} {length : Nat}
    (hdecode : decode stream = some (word, length)) :
    ∃ bytes rest value, stream = bytes ++ rest ∧ bytes.length = length ∧
      Encodes bytes value ∧ word = UInt64.ofNat value := by
  cases stream with
  | nil => cases hdecode
  | cons first tail =>
      rw [decode_cons] at hdecode
      by_cases hshort : tail.length < leadingOnes first
      · rw [if_pos hshort] at hdecode
        cases hdecode
      · rw [if_neg hshort] at hdecode
        cases hdecode
        have hlower : (tail.take (leadingOnes first)).length = leadingOnes first :=
          List.length_take_of_le (Nat.not_lt.mp hshort)
        refine ⟨first :: tail.take (leadingOnes first), tail.drop (leadingOnes first), _, ?_, ?_,
          encodes_cons_iff.mpr ⟨hlower, rfl⟩, rfl⟩
        · rw [List.cons_append, List.take_append_drop]
        · rw [List.length_cons, hlower]

/-! ## Sizes -/

/-- A form of `length` bytes has seven bits for each of them, except that the
longest one has those of a word. -/
theorem Encodes.lt (hencodes : Encodes bytes value) :
    (bytes.length ≤ 8 ∧ value < 2 ^ (7 * bytes.length)) ∨
      (bytes.length = 9 ∧ value < 2 ^ 64) := by
  cases hencodes with
  | @short extra high lower hextra hhigh hlower =>
      left
      have hlow := LittleEndian.toNat_lt lower
      rw [Nat.one_shiftLeft, hlower] at hlow
      refine ⟨by rw [List.length_cons]; omega, ?_⟩
      calc LittleEndian.toNat lower + high * 2 ^ (8 * extra)
          < 2 ^ (8 * extra) + high * 2 ^ (8 * extra) := Nat.add_lt_add_right hlow _
        _ = (high + 1) * 2 ^ (8 * extra) := by
          rw [Nat.succ_mul high, Nat.add_comm]
        _ ≤ 2 ^ (7 - extra) * 2 ^ (8 * extra) := Nat.mul_le_mul_right _ hhigh
        _ = 2 ^ (7 * (UInt8.ofNat (256 - 2 ^ (8 - extra) + high) :: lower).length) := by
          rw [← Nat.pow_add, List.length_cons, hlower]
          congr 1
          omega
  | @full lower hlower =>
      right
      have hlow := LittleEndian.toNat_lt lower
      rw [Nat.one_shiftLeft, hlower] at hlow
      exact ⟨congrArg (· + 1) hlower, hlow⟩

theorem Encodes.lt_size (hencodes : Encodes bytes value) : value < UInt64.size := by
  rcases hencodes.lt with ⟨hlength, hvalue⟩ | ⟨-, hvalue⟩
  · apply Nat.lt_of_lt_of_le hvalue
    exact Nat.pow_le_pow_right Nat.two_pos (by omega : 7 * bytes.length ≤ 64)
  · exact hvalue

theorem Encodes.length_le (hencodes : Encodes bytes value) : bytes.length ≤ 9 := by
  rcases hencodes.lt with ⟨hlength, -⟩ | ⟨hlength, -⟩
  · exact Nat.le_succ_of_le hlength
  · exact Nat.le_of_eq hlength

/-- A number has at most one form of each length. -/
theorem Encodes.eq_of_length_eq (hencodes : Encodes bytes value) (hother : Encodes other value)
    (hlength : bytes.length = other.length) : bytes = other := by
  cases hencodes with
  | @short extra high lower hextra hhigh hlower =>
      generalize hvalue :
        LittleEndian.toNat lower + high * 2 ^ (8 * extra) = value at hother
      cases hother with
      | @short otherExtra otherHigh otherLower hotherExtra hotherHigh hotherLower =>
          obtain rfl : otherExtra = extra := by
            simp only [List.length_cons] at hlength
            omega
          -- The lower bytes are the remainder by their span, the first byte the quotient.
          have hlow := LittleEndian.toNat_lt lower
          have hotherLow := LittleEndian.toNat_lt otherLower
          rw [Nat.one_shiftLeft, hlower] at hlow
          rw [Nat.one_shiftLeft, hotherLower] at hotherLow
          have hsame : high = otherHigh := by
            have hdiv := congrArg (· / 2 ^ (8 * otherExtra)) hvalue
            simpa [Nat.add_mul_div_right, Nat.two_pow_pos, Nat.div_eq_of_lt, hlow, hotherLow]
              using hdiv
          subst hsame
          rw [LittleEndian.eq_of_toNat_eq (hlower.trans hotherLower.symm)
            (Nat.add_right_cancel hvalue)]
      | full hotherLower =>
          simp only [List.length_cons] at hlength
          omega
  | full hlower =>
      generalize hvalue : LittleEndian.toNat _ = value at hother
      cases hother with
      | short hextra hhigh hotherLower =>
          simp only [List.length_cons] at hlength
          omega
      | full hotherLower =>
          rw [LittleEndian.eq_of_toNat_eq (hlower.trans hotherLower.symm) hvalue]

/-- No form is the beginning of another one. -/
theorem Encodes.eq_of_append_eq {otherValue : Nat} {rest otherRest : List UInt8}
    (hencodes : Encodes bytes value) (hother : Encodes other otherValue)
    (happend : bytes ++ rest = other ++ otherRest) : bytes = other := by
  have hread := decode_append hencodes rest
  rw [happend, decode_append hother otherRest] at hread
  have hlength : other.length = bytes.length := by
    simpa using congrArg (Option.map Prod.snd) hread
  exact (List.append_inj happend hlength.symm).1

/-! ## Writing -/

/-- The shortest form has as few bytes as seven bits for each of them allow. -/
theorem extraBytes_spec (value : UInt64) :
    (extraBytes value < 8 ∧ value.toNat < 2 ^ (7 * (extraBytes value + 1)) ∨
        extraBytes value = 8) ∧
      ∀ extra < extraBytes value, 2 ^ (7 * (extra + 1)) ≤ value.toNat := by
  unfold extraBytes
  cases hfind : (List.range 8).find? fun extra =>
      decide (value.toNat < 1 <<< (7 * (extra + 1))) with
  | none =>
      have hnone := List.find?_range_eq_none.mp hfind
      refine ⟨Or.inr rfl, fun extra hextra => ?_⟩
      simpa [Nat.one_shiftLeft] using hnone extra hextra
  | some extra =>
      obtain ⟨hfits, hmem, hbefore⟩ := List.find?_range_eq_some.mp hfind
      refine ⟨Or.inl ⟨List.mem_range.mp hmem, ?_⟩, fun earlier hearlier => ?_⟩
      · simpa [Nat.one_shiftLeft] using hfits
      · simpa [Nat.one_shiftLeft] using hbefore earlier hearlier

theorem length_encode (value : UInt64) : (encode value).length = extraBytes value + 1 := by
  rw [encode]
  split
  · next hfull => rw [hfull, List.length_cons, LittleEndian.length_ofNat]
  · rw [List.length_cons, LittleEndian.length_ofNat]

/-- What is written for a number is one of its forms. -/
theorem encodes_encode (value : UInt64) : Encodes (encode value) value.toNat := by
  obtain ⟨hfits, -⟩ := extraBytes_spec value
  rw [encode]
  rcases hfits with ⟨hextra, hvalue⟩ | hfull
  · have hhigh : value.toNat / 2 ^ (8 * extraBytes value) < 2 ^ (7 - extraBytes value) := by
      apply Nat.div_lt_of_lt_mul
      rw [← Nat.pow_add]
      exact Nat.lt_of_lt_of_le hvalue (Nat.pow_le_pow_right Nat.two_pos (by omega))
    have hform := Encodes.short hextra hhigh (LittleEndian.length_ofNat _ value.toNat)
    rw [LittleEndian.toNat_ofNat, Nat.mod_add_div'] at hform
    rwa [if_neg (Nat.ne_of_lt hextra), Nat.one_shiftLeft, Nat.shiftRight_eq_div_pow]
  · have hform := Encodes.full (LittleEndian.length_ofNat 8 value.toNat)
    rw [LittleEndian.toNat_ofNat, Nat.mod_eq_of_lt value.toNat_lt] at hform
    rwa [if_pos hfull]

/-- No form is shorter than the one that is written. -/
theorem length_encode_le {value : UInt64} (hencodes : Encodes bytes value.toNat) :
    (encode value).length ≤ bytes.length := by
  obtain ⟨hextra, hleast⟩ := extraBytes_spec value
  obtain ⟨first, lower, hbytes, -, -⟩ := hencodes.exists_cons
  have hlength : bytes.length = lower.length + 1 := congrArg List.length hbytes
  rw [length_encode]
  apply Nat.not_lt.mp
  intro hshorter
  rcases hencodes.lt with ⟨-, hvalue⟩ | ⟨hlong, -⟩
  · have hlarge := hleast lower.length (by omega)
    rw [hlength] at hvalue
    exact Nat.not_lt.mpr hlarge hvalue
  · omega

/-- The shortest form of a number is the one that is written. -/
theorem shortest_iff (hencodes : Encodes bytes value) :
    Shortest bytes value ↔ bytes = encode (UInt64.ofNat value) := by
  have hvalue : (UInt64.ofNat value).toNat = value :=
    UInt64.toNat_ofNat_of_lt' hencodes.lt_size
  have hwritten := encodes_encode (UInt64.ofNat value)
  have hleast : ∀ other, Encodes other (UInt64.ofNat value).toNat →
      (encode (UInt64.ofNat value)).length ≤ other.length := fun _ => length_encode_le
  rw [hvalue] at hwritten hleast
  constructor
  · rintro ⟨-, hshortest⟩
    apply hencodes.eq_of_length_eq hwritten
    exact Nat.le_antisymm (hshortest _ hwritten) (hleast _ hencodes)
  · rintro rfl
    exact ⟨hencodes, hleast⟩

/-! ## The codec -/

def bitsFromTop (byte : UInt8) : List Bool :=
  (List.range 8).map fun place => byte.toNat.testBit (7 - place)

theorem leadingOnes_eq_length (byte : UInt8) :
    leadingOnes byte = ((bitsFromTop byte).takeWhile id).length := by
  have htable : ∀ code : Fin 256, leadingOnes (UInt8.ofFin code) =
      ((bitsFromTop (UInt8.ofFin code)).takeWhile id).length := by
    decide +kernel
  exact htable byte.toFin

/-- Nothing is read exactly if the input ends before the form that its first byte starts. -/
theorem decode_eq_none_iff :
    decode bytes = none ↔
      bytes = [] ∨ ∃ first ∈ bytes.head?,
        bytes.length < 1 + ((bitsFromTop first).takeWhile id).length := by
  cases bytes with
  | nil => simp [decode]
  | cons first tail =>
      rw [decode_cons, leadingOnes_eq_length]
      simp [Nat.add_comm 1]

theorem decode_encode_append (value : UInt64) (rest : List UInt8) :
    decode (encode value ++ rest) = some (value, (encode value).length) := by
  rw [decode_append (encodes_encode value), UInt64.ofNat_toNat]

/-- What is read is the form that the input starts with. -/
theorem encodes_take_of_decode {word : UInt64} {length : Nat}
    (hdecode : decode bytes = some (word, length)) :
    length ≤ bytes.length ∧ Encodes (bytes.take length) word.toNat := by
  obtain ⟨form, rest, value, rfl, rfl, hencodes, rfl⟩ := encodes_of_decode hdecode
  rw [List.take_left, UInt64.toNat_ofNat_of_lt' hencodes.lt_size, List.length_append]
  exact ⟨Nat.le_add_right _ _, hencodes⟩

/-- Only the form that is read is looked at. -/
theorem decode_eq_of_take_eq {word : UInt64} {length : Nat}
    (hdecode : decode bytes = some (word, length)) (htake : other.take length = bytes.take length) :
    decode other = some (word, length) := by
  obtain ⟨hlength, hencodes⟩ := encodes_take_of_decode hdecode
  rw [← List.take_append_drop length other, htake, decode_append hencodes,
    List.length_take_of_le hlength, UInt64.ofNat_toNat]

/-- What is written is read back, whatever follows it.  What is read lies in the input,
does not depend on what comes after it, and is no shorter than what is written for the
same number, which is its only form of that length.  Nothing is read exactly if the
input has no first byte, or fewer bytes after it than that byte has one bits at its
top. -/
theorem codec_has_one_shortest_form :
    (∀ (value : UInt64) (rest : List UInt8),
        decode (encode value ++ rest) = some (value, (encode value).length)) ∧
      (∀ (bytes : List UInt8) (value : UInt64) (length : Nat),
        decode bytes = some (value, length) →
          length ≤ bytes.length ∧
          (∀ other : List UInt8, other.take length = bytes.take length →
            decode other = some (value, length)) ∧
          (encode value).length ≤ length ∧
          (length = (encode value).length → bytes.take length = encode value)) ∧
      ∀ bytes : List UInt8, decode bytes = none ↔
        bytes = [] ∨ ∃ first ∈ bytes.head?,
          bytes.length < 1 + ((bitsFromTop first).takeWhile id).length := by
  refine ⟨decode_encode_append, ?_, fun _ => decode_eq_none_iff⟩
  intro bytes value length hdecode
  obtain ⟨hlength, hencodes⟩ := encodes_take_of_decode hdecode
  have hform : (bytes.take length).length = length := List.length_take_of_le hlength
  refine ⟨hlength, fun other => decode_eq_of_take_eq hdecode, ?_, ?_⟩
  · exact hform ▸ length_encode_le hencodes
  · intro hshortest
    exact hencodes.eq_of_length_eq (encodes_encode value) (hform.trans hshortest)

/-- A number in a form that is longer than need be, and in its shortest form. -/
theorem threeHundred_read_from_two_forms :
    decode [0xC0, 0x2C, 0x01, 0xFF] = some (300, 3) ∧ decode [0xC0, 0x2C, 0x01] = some (300, 3) ∧
      (encode 300).length ≤ 3 ∧
      decode [0x81, 0x2C, 0xFF] = some (300, 2) ∧ [0x81, 0x2C] = encode 300 := by
  obtain ⟨-, hread, -⟩ := codec_has_one_shortest_form
  obtain ⟨-, hlocal, hshortest, -⟩ := hread [0xC0, 0x2C, 0x01, 0xFF] 300 3 (by decide)
  obtain ⟨-, -, -, hunique⟩ := hread [0x81, 0x2C, 0xFF] 300 2 (by decide)
  exact ⟨by decide, hlocal _ rfl, hshortest, by decide, hunique (by decide)⟩

end Natural

end GasMachine
