import GasMachine.Instruction.Codec
import GasMachine.Proofs.Bytes.NaturalForms
import GasMachine.Proofs.Bytes.Slices
import GasMachine.Proofs.Program.InstructionStarts

/-!
# Encoded instructions

The bytes of a well-formed instruction are decoded to the instruction they were
written for, wherever they stand in the code and whatever follows them.  The
proof goes through the byte strings that operand bytes span: each part of an
instruction is read off the part of the string that was written for it.
-/

namespace GasMachine

/-! ## The table of opcodes -/

namespace Opcode

theorem mem_all (opcode : Opcode) : opcode ∈ all := by
  cases opcode <;> decide

/-- What tells opcodes apart finds each of them in the table. -/
theorem find?_all {κ : Type} [BEq κ] [LawfulBEq κ] {key : Opcode → κ}
    (hinjective : Function.Injective key) (opcode : Opcode) :
    all.find? (fun other => key other == key opcode) = some opcode := by
  have hsome : (all.find? fun other => key other == key opcode).isSome :=
    List.find?_isSome.mpr ⟨opcode, opcode.mem_all, beq_self_eq_true (key opcode)⟩
  obtain ⟨found, hfound⟩ := Option.isSome_iff_exists.mp hsome
  have hkey : (key found == key opcode) = true :=
    List.find?_some (p := fun other => key other == key opcode) hfound
  rw [hfound, hinjective (eq_of_beq hkey)]

/-- The table is in the order of the bytes, so no two opcodes share one. -/
theorem byte_injective : Function.Injective byte := by
  have hordered : (all.map byte).IsChain (· < ·) := by decide +kernel
  have hdistinct : (all.map byte).Nodup :=
    (List.isChain_iff_pairwise.mp hordered).imp fun hlt => UInt8.ne_of_lt hlt
  intro left right heq
  exact List.inj_on_of_nodup_map hdistinct left.mem_all right.mem_all heq

@[simp]
theorem ofByte?_byte (opcode : Opcode) : ofByte? opcode.byte = some opcode :=
  find?_all byte_injective opcode

theorem ofByte?_eq_some_iff {value : UInt8} {opcode : Opcode} :
    ofByte? value = some opcode ↔ opcode.byte = value := by
  constructor
  · intro hfound
    exact eq_of_beq (List.find?_some (p := fun other : Opcode => other.byte == value) hfound)
  · rintro rfl
    exact ofByte?_byte opcode

end Opcode

/-! ## Immediates -/

namespace Immediate

/-- Four bytes hold the whole word. -/
theorem decode_ofNat_four (value : UInt32) :
    decode (LittleEndian.ofNat 4 value.toNat) = value := by
  have htake : (LittleEndian.ofNat 4 value.toNat).take 4 = LittleEndian.ofNat 4 value.toNat :=
    List.take_of_length_le (Nat.le_of_eq (LittleEndian.length_ofNat _ _))
  have hvalue : value.toNat % 2 ^ (8 * 4) = value.toNat :=
    Nat.mod_eq_of_lt value.toNat_lt
  have hunused : UInt32.ofNat (32 - 8 * 4) = 0 := rfl
  have hshift : (0 : UInt32).toInt32 = 0 := rfl
  rw [decode, htake, LittleEndian.length_ofNat, LittleEndian.toNat_ofNat, hvalue,
    UInt32.ofNat_toNat, hunused, UInt32.shiftLeft_zero, hshift, Int32.shiftRight_zero,
    UInt32.toUInt32_toInt32]

/-- The length of a word is the first number of its low bytes that decode to it. -/
theorem length_spec (value : UInt32) :
    length value ≤ 4 ∧ decode (LittleEndian.ofNat (length value) value.toNat) = value ∧
      ∀ count < length value, decode (LittleEndian.ofNat count value.toNat) ≠ value := by
  rw [length]
  cases hfound : (List.range 4).find? fun count =>
      decode (LittleEndian.ofNat count value.toNat) = value with
  | none =>
      refine ⟨Nat.le_refl 4, decode_ofNat_four value, fun count hcount hdecode => ?_⟩
      have hnever := List.find?_eq_none.mp hfound count (List.mem_range.mpr hcount)
      exact hnever (decide_eq_true hdecode)
  | some first =>
      obtain ⟨hfirst, hrange, hbefore⟩ := List.find?_range_eq_some.mp hfound
      refine ⟨Nat.le_of_lt (List.mem_range.mp hrange), of_decide_eq_true hfirst,
        fun count hcount hdecode => ?_⟩
      have hnot := hbefore count hcount
      rw [decide_eq_true hdecode] at hnot
      cases hnot

theorem length_le (value : UInt32) : length value ≤ 4 :=
  (length_spec value).1

@[simp]
theorem length_encode (value : UInt32) : (encode value).length = length value :=
  LittleEndian.length_ofNat _ _

@[simp]
theorem decode_encode (value : UInt32) : decode (encode value) = value :=
  (length_spec value).2.1

end Immediate

/-! ## Operands -/

namespace Instruction

/-- A register and what shares its byte are told apart again. -/
theorem packed_halves (low : Reg) (high : Fin 16) :
    Reg.clamp (packed low high &&& 0x0F) = low ∧ packed low high >>> 4 = UInt8.ofNat high := by
  revert low high
  decide

theorem clamp_byte (register : Reg) :
    Reg.clamp register.byte = register ∧ Reg.clamp (register.byte &&& 0x0F) = register := by
  revert register
  decide

/-- The length of an immediate fits the three bits that it is read from. -/
theorem toNat_lengthBits (value : UInt32) :
    (UInt8.ofNat (Immediate.length value) &&& 7).toNat = Immediate.length value := by
  have hfits : ∀ length : Fin 5, (UInt8.ofNat length &&& 7).toNat = length := by decide
  exact hfits ⟨Immediate.length value, Nat.lt_succ_of_le (Immediate.length_le value)⟩

namespace OperandBytes

variable {operand : OperandBytes} {index position : Nat}

/-- A register alone in its byte. -/
theorem lowRegister_byte {register : Reg}
    (hbyte : Bytes.byteAt operand.code operand.start = register.byte) :
    operand.lowRegister = register := by
  rw [lowRegister, byte, Nat.add_zero, hbyte, (clamp_byte register).2]

section Packed

variable {low : Reg} {high : Nat} (hhigh : high < 16)
variable (hbyte : Bytes.byteAt operand.code operand.start = packed low high)
include hhigh hbyte

theorem lowRegister_packed : operand.lowRegister = low := by
  rw [lowRegister, byte, Nat.add_zero, hbyte]
  exact (packed_halves low ⟨high, hhigh⟩).1

theorem byte_shiftRight_packed : operand.byte 0 >>> 4 = UInt8.ofNat high := by
  rw [byte, Nat.add_zero, hbyte]
  exact (packed_halves low ⟨high, hhigh⟩).2

end Packed

theorem registers_packed {low high : Reg}
    (hbyte : Bytes.byteAt operand.code operand.start = packed low high.val) :
    operand.lowRegister = low ∧ operand.highRegister = high := by
  have hhigh : high.val < 16 := by omega
  refine ⟨lowRegister_packed hhigh hbyte, ?_⟩
  rw [highRegister, byte_shiftRight_packed hhigh hbyte]
  exact (clamp_byte high).1

/-- The last immediate takes what remains. -/
theorem trailing_immediate {value : UInt32}
    (hhas : Bytes.HasAt operand.code position (Immediate.encode value))
    (hposition : position = operand.start + index)
    (hcount : operand.count = index + (Immediate.encode value).length) :
    operand.trailing index = value := by
  have hlength := Immediate.length_le value
  have hrest : min (operand.count - index) 4 = (Immediate.encode value).length := by
    rw [Immediate.length_encode] at hcount ⊢
    omega
  rw [trailing, hrest, immediate, ← hposition, hhas, Immediate.decode_encode]

/-- An offset takes all its four bytes. -/
theorem trailing_offset {offset : UInt32}
    (hhas : Bytes.HasAt operand.code position (offsetBytes offset))
    (hposition : position = operand.start + index)
    (hcount : operand.count = index + (offsetBytes offset).length) :
    operand.trailing index = offset := by
  have hlength : (offsetBytes offset).length = 4 := LittleEndian.length_ofNat _ _
  have hrest : min (operand.count - index) 4 = (offsetBytes offset).length := by
    omega
  rw [trailing, hrest, immediate, ← hposition, hhas, offsetBytes, Immediate.decode_ofNat_four]

/-- The first of two immediates has the length that is written in front of it. -/
theorem pair_eq {first second : UInt32} {lengthBits : UInt8}
    (hhas : Bytes.HasAt operand.code (operand.start + index) (Immediate.encode first))
    (hbits : lengthBits = UInt8.ofNat (Immediate.length first))
    (hsecond : operand.trailing (index + (Immediate.encode first).length) = second) :
    operand.pair index lengthBits = (first, second) := by
  have hlength : min (lengthBits &&& 7).toNat 4 = (Immediate.encode first).length := by
    rw [hbits, toNat_lengthBits, Immediate.length_encode]
    exact Nat.min_eq_left (Immediate.length_le first)
  rw [pair, hlength, immediate, hhas, Immediate.decode_encode, hsecond]

theorem length_lt (value : UInt32) : Immediate.length value < 16 :=
  Nat.lt_of_le_of_lt (Immediate.length_le value) (by decide)

/-- Operands are read off the bytes that were written for them. -/
theorem decode_of_hasAt {operands : Operands}
    (hhas : Bytes.HasAt operand.code operand.start (encodeOperands operands))
    (hcount : operand.count = (encodeOperands operands).length) :
    operand.decode operands.form = operands := by
  cases operands with
  | bare => rfl
  | imm value =>
      rw [encodeOperands] at hhas hcount
      rw [Operands.form, decode, trailing_immediate hhas rfl (by omega)]
  | offset offset =>
      rw [encodeOperands] at hhas hcount
      rw [Operands.form, decode, trailing_offset hhas rfl (by omega)]
  | regWide register value =>
      obtain ⟨hregister, hvalue⟩ := Bytes.hasAt_cons.mp hhas
      have hword : LittleEndian.decode (LittleEndian.ofNat 8 value.toNat) = value := by
        apply UInt64.toNat_inj.mp
        rw [LittleEndian.toNat_decode (Nat.le_of_eq (LittleEndian.length_ofNat _ _)),
          LittleEndian.toNat_ofNat, Nat.mod_eq_of_lt value.toNat_lt]
      rw [Bytes.HasAt, LittleEndian.length_ofNat] at hvalue
      rw [Operands.form, decode, lowRegister_byte hregister, hvalue, hword]
  | regImm register value =>
      obtain ⟨hregister, hvalue⟩ := Bytes.hasAt_cons.mp hhas
      rw [encodeOperands, List.length_cons] at hcount
      rw [Operands.form, decode, lowRegister_byte hregister,
        trailing_immediate hvalue rfl (by omega)]
  | immImm first second =>
      obtain ⟨hlength, hvalues⟩ := Bytes.hasAt_cons.mp hhas
      obtain ⟨hfirst, hsecond⟩ := Bytes.hasAt_append.mp hvalues
      rw [encodeOperands, List.length_cons, List.length_append] at hcount
      have hlast := trailing_immediate hsecond (Nat.add_assoc _ _ _) (by omega)
      have hpair : operand.pair 1 (operand.byte 0) = (first, second) :=
        pair_eq hfirst hlength hlast
      rw [Operands.form, decode, hpair]
  | regImmImm register first second =>
      obtain ⟨hpacked, hvalues⟩ := Bytes.hasAt_cons.mp hhas
      obtain ⟨hfirst, hsecond⟩ := Bytes.hasAt_append.mp hvalues
      rw [encodeOperands, List.length_cons, List.length_append] at hcount
      have hlast := trailing_immediate hsecond (Nat.add_assoc _ _ _) (by omega)
      rw [Operands.form, decode, lowRegister_packed (length_lt first) hpacked,
        pair_eq hfirst (byte_shiftRight_packed (length_lt first) hpacked) hlast]
  | regImmOffset register value offset =>
      obtain ⟨hpacked, hvalues⟩ := Bytes.hasAt_cons.mp hhas
      obtain ⟨hvalue, hoffset⟩ := Bytes.hasAt_append.mp hvalues
      rw [encodeOperands, List.length_cons, List.length_append] at hcount
      have hlast := trailing_offset hoffset (Nat.add_assoc _ _ _) (by omega)
      rw [Operands.form, decode, lowRegister_packed (length_lt value) hpacked,
        pair_eq hvalue (byte_shiftRight_packed (length_lt value) hpacked) hlast]
  | regReg target source =>
      obtain ⟨hpacked, -⟩ := Bytes.hasAt_cons.mp hhas
      obtain ⟨htarget, hsource⟩ := registers_packed hpacked
      rw [Operands.form, decode, htarget, hsource]
  | regRegImm left right value =>
      obtain ⟨hpacked, hvalue⟩ := Bytes.hasAt_cons.mp hhas
      obtain ⟨hleft, hright⟩ := registers_packed hpacked
      rw [encodeOperands, List.length_cons] at hcount
      rw [Operands.form, decode, hleft, hright, trailing_immediate hvalue rfl (by omega)]
  | regRegOffset left right offset =>
      obtain ⟨hpacked, hoffset⟩ := Bytes.hasAt_cons.mp hhas
      obtain ⟨hleft, hright⟩ := registers_packed hpacked
      rw [encodeOperands, List.length_cons] at hcount
      rw [Operands.form, decode, hleft, hright, trailing_offset hoffset rfl (by omega)]
  | regRegImmImm left right first second =>
      obtain ⟨hpacked, hvalues⟩ := Bytes.hasAt_cons.mp hhas
      obtain ⟨hlength, hvalues⟩ := Bytes.hasAt_cons.mp hvalues
      obtain ⟨hfirst, hsecond⟩ := Bytes.hasAt_append.mp hvalues
      obtain ⟨hleft, hright⟩ := registers_packed hpacked
      rw [encodeOperands, List.length_cons, List.length_cons, List.length_append] at hcount
      have hlast : operand.trailing (2 + (Immediate.encode first).length) = second :=
        trailing_immediate hsecond (by omega) (by omega)
      have hpair : operand.pair 2 (operand.byte 1) = (first, second) :=
        pair_eq hfirst hlength hlast
      rw [Operands.form, decode, hleft, hright, hpair]
  | regRegReg left right target =>
      obtain ⟨hpacked, hrest⟩ := Bytes.hasAt_cons.mp hhas
      obtain ⟨htarget, -⟩ := Bytes.hasAt_cons.mp hrest
      obtain ⟨hleft, hright⟩ := registers_packed hpacked
      rw [Operands.form, decode, hleft, hright, byte, htarget, (clamp_byte target).1]

theorem form_decode (operand : OperandBytes) (form : Form) : (operand.decode form).form = form := by
  cases form <;> rfl

end OperandBytes

/-! ## Instructions -/

/-- An instruction has at most ten operand bytes. -/
theorem length_encodeOperands_le (operands : Operands) :
    (encodeOperands operands).length ≤ 10 := by
  have himmediate (value : UInt32) : (Immediate.encode value).length ≤ 4 :=
    Immediate.length_encode value ▸ Immediate.length_le value
  have hoffset (offset : UInt32) : (offsetBytes offset).length = 4 :=
    LittleEndian.length_ofNat _ _
  cases operands <;>
    simp only [encodeOperands, List.length_cons, List.length_append, List.length_nil, hoffset,
      LittleEndian.length_ofNat] <;>
    grind

/-- The length of an instruction does not depend on where it leads. -/
theorem length_encodeOperands_withOffset (operands : Operands) (offset : UInt32) :
    (encodeOperands (operands.withOffset offset)).length = (encodeOperands operands).length := by
  cases operands <;>
    simp only [Operands.withOffset, encodeOperands, offsetBytes, List.length_cons,
      List.length_append, LittleEndian.length_ofNat]

/-- An instruction is decoded from the bytes that were written for it. -/
theorem decode_of_hasAt {code : ByteArray} {pc : Nat} {instruction : Instruction}
    (hwellFormed : instruction.WellFormed) (hpc : pc < code.size)
    (hhas : Bytes.HasAt code pc instruction.encode) :
    decode code pc (instruction.encode.length - 1) = .ok instruction := by
  obtain ⟨hopcode, hoperands⟩ := Bytes.hasAt_cons.mp hhas
  rw [Bytes.byteAt_of_lt hpc] at hopcode
  have hdecoded : OperandBytes.decode ⟨code, pc + 1, instruction.encode.length - 1⟩
      instruction.opcode.form = instruction.operands := by
    rw [hwellFormed]
    exact OperandBytes.decode_of_hasAt hoperands rfl
  rw [decode, dif_pos hpc, hopcode, Opcode.ofByte?_byte]
  dsimp only
  rw [hdecoded]

/-- What is decoded has the operands that its opcode asks for. -/
theorem wellFormed_of_decode {code : ByteArray} {pc count : Nat} {instruction : Instruction}
    (hdecode : decode code pc count = .ok instruction) : instruction.WellFormed := by
  rw [decode] at hdecode
  split at hdecode
  · split at hdecode
    · cases hdecode
    · obtain rfl := Except.ok.inj hdecode
      exact (OperandBytes.form_decode _ _).symm
  · obtain rfl := Except.ok.inj hdecode
    rfl

theorem length_encode (instruction : Instruction) :
    instruction.encode.length = (encodeOperands instruction.operands).length + 1 :=
  List.length_cons

/-- A well-formed instruction is decoded from its bytes, whatever stands around
them.  It has between one and eleven of them, so that a mask in which the next
start is marked where they end gives it just its own operand bytes. -/
theorem decode_encode_in_context {instruction : Instruction}
    (hwellFormed : instruction.WellFormed) :
    (∀ front rest : ByteArray,
      decode (front ++ instruction.encode.toByteArray ++ rest) front.size
        (instruction.encode.length - 1) = .ok instruction) ∧
    1 ≤ instruction.encode.length ∧ instruction.encode.length ≤ 11 ∧
    ∀ (bitmask : ByteArray) (start : Nat),
      (∀ index < start + instruction.encode.length, start < index →
        Bitmask.isSet bitmask index = false) →
      Bitmask.isSet bitmask (start + instruction.encode.length) = true →
      Bitmask.skip bitmask start = instruction.encode.length - 1 := by
  have hlength := instruction.length_encode
  have hoperands := length_encodeOperands_le instruction.operands
  refine ⟨?_, by omega, by omega, ?_⟩
  · intro front rest
    apply decode_of_hasAt hwellFormed
    · simp only [ByteArray.size_append, List.size_toByteArray]
      omega
    · exact Bytes.hasAt_between front instruction.encode rest
  · intro bitmask start hclear hset
    have hwindow : instruction.encode.length - 1 ≤ Bitmask.maxSkip := by
      rw [Bitmask.maxSkip]
      omega
    have hnext : start + 1 + (instruction.encode.length - 1) =
        start + instruction.encode.length := by omega
    apply Bitmask.skip_eq hwindow
    · intro index hindex
      exact hclear _ (by omega) (by omega)
    · rwa [hnext]

def longest : Instruction :=
  ⟨.loadImmJumpInd, .regRegImmImm .stackPointer .returnAddress 0x80000000 0x12345678⟩

theorem longest_decodes_between_bytes :
    longest.WellFormed ∧ longest.encode.length = 11 ∧
      decode ([1, 2].toByteArray ++ longest.encode.toByteArray ++ [0xFF].toByteArray) 2 10 =
        .ok longest ∧
      Bitmask.skip [1, 8].toByteArray 0 = 10 := by
  have hlongest : longest.WellFormed := by decide
  have hlength : longest.encode.length = 11 := by decide +kernel
  obtain ⟨hdecode, -, -, hskip⟩ := decode_encode_in_context hlongest
  rw [hlength] at hdecode hskip
  exact ⟨hlongest, hlength, hdecode [1, 2].toByteArray [0xFF].toByteArray,
    hskip [1, 8].toByteArray 0 (by decide) (by decide)⟩

end Instruction

end GasMachine
