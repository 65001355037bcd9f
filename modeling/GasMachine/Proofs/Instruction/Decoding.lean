import GasMachine.Proofs.Instruction.Encoding

/-!
# Decoding inside a window

How many operand bytes an instruction has is said by the bitmask, and how long its
first immediate is by the bytes themselves.  Neither is trusted, and yet no form of
operands reaches further than sixteen bytes.  Here the operands are read off a
window of that size, with each access held against its bounds.  No access fails,
and what is read are the operands that decoding gives.
-/

namespace GasMachine.Instruction

/-- Bytes behind an opcode that can only be read inside their bounds, and how many
of them are said to belong to the instruction. -/
structure OperandWindow where
  bytes : List UInt8
  count : Nat

namespace OperandWindow

/-- The sixteen bytes of the code from `start` on, with zeros past its end. -/
def ofCode (code : ByteArray) (start count : Nat) : OperandWindow :=
  ⟨Bytes.slice code start 16, count⟩

def byte? (window : OperandWindow) (index : Nat) : Option UInt8 :=
  window.bytes[index]?

def slice? (window : OperandWindow) (first length : Nat) : Option (List UInt8) :=
  if first + length ≤ window.bytes.length then some ((window.bytes.drop first).take length)
  else none

def lowRegister? (window : OperandWindow) : Option Reg :=
  (window.byte? 0).map fun byte => Reg.clamp (byte &&& 0x0F)

def highRegister? (window : OperandWindow) : Option Reg :=
  (window.byte? 0).map fun byte : UInt8 => Reg.clamp (byte >>> 4)

def immediate? (window : OperandWindow) (first length : Nat) : Option UInt32 :=
  (window.slice? first length).map Immediate.decode

def trailing? (window : OperandWindow) (first : Nat) : Option UInt32 :=
  window.immediate? first (min (window.count - first) 4)

def pair? (window : OperandWindow) (first : Nat) (lengthBits : UInt8) :
    Option (UInt32 × UInt32) := do
  let length := min (lengthBits &&& 7).toNat 4
  return (← window.immediate? first length, ← window.trailing? (first + length))

def decode? (window : OperandWindow) : Form → Option Operands
  | .bare => some .bare
  | .imm => do return .imm (← window.trailing? 0)
  | .regWide => do
    return .regWide (← window.lowRegister?) (LittleEndian.decode (← window.slice? 1 8))
  | .immImm => do
    let values ← window.pair? 1 (← window.byte? 0)
    return .immImm values.1 values.2
  | .offset => do return .offset (← window.trailing? 0)
  | .regImm => do return .regImm (← window.lowRegister?) (← window.trailing? 1)
  | .regImmImm => do
    let values ← window.pair? 1 ((← window.byte? 0) >>> 4)
    return .regImmImm (← window.lowRegister?) values.1 values.2
  | .regImmOffset => do
    let values ← window.pair? 1 ((← window.byte? 0) >>> 4)
    return .regImmOffset (← window.lowRegister?) values.1 values.2
  | .regReg => do return .regReg (← window.lowRegister?) (← window.highRegister?)
  | .regRegImm => do
    return .regRegImm (← window.lowRegister?) (← window.highRegister?) (← window.trailing? 1)
  | .regRegOffset => do
    return .regRegOffset (← window.lowRegister?) (← window.highRegister?) (← window.trailing? 1)
  | .regRegImmImm => do
    let values ← window.pair? 2 (← window.byte? 1)
    return .regRegImmImm (← window.lowRegister?) (← window.highRegister?) values.1 values.2
  | .regRegReg => do
    return .regRegReg (← window.lowRegister?) (← window.highRegister?)
      (Reg.clamp (← window.byte? 1))

section Accesses

variable (code : ByteArray) (start count : Nat)

theorem byte?_ofCode {index : Nat} (hindex : index < 16) :
    (ofCode code start count).byte? index =
      some (OperandBytes.byte ⟨code, start, count⟩ index) := by
  have hlength : index < (Bytes.slice code start 16).length := by rwa [Bytes.length_slice]
  rw [byte?, ofCode, List.getElem?_eq_getElem hlength]
  simp [Bytes.slice, OperandBytes.byte]

theorem slice?_ofCode {first length : Nat} (hend : first + length ≤ 16) :
    (ofCode code start count).slice? first length =
      some (Bytes.slice code (start + first) length) := by
  have hparts : Bytes.slice code start 16 =
      Bytes.slice code start first ++ (Bytes.slice code (start + first) length ++
        Bytes.slice code (start + first + length) (16 - (first + length))) := by
    rw [← Bytes.slice_add, ← Bytes.slice_add, ← Nat.add_assoc, Nat.add_sub_cancel' hend]
  rw [slice?, ofCode, if_pos (by rwa [Bytes.length_slice]), hparts,
    List.drop_left' (Bytes.length_slice _ _ _), List.take_left' (Bytes.length_slice _ _ _)]

theorem lowRegister?_ofCode :
    (ofCode code start count).lowRegister? =
      some (OperandBytes.lowRegister ⟨code, start, count⟩) := by
  rw [lowRegister?, byte?_ofCode _ _ _ (by decide)]
  rfl

theorem highRegister?_ofCode :
    (ofCode code start count).highRegister? =
      some (OperandBytes.highRegister ⟨code, start, count⟩) := by
  rw [highRegister?, byte?_ofCode _ _ _ (by decide)]
  rfl

theorem immediate?_ofCode {first length : Nat} (hend : first + length ≤ 16) :
    (ofCode code start count).immediate? first length =
      some (OperandBytes.immediate ⟨code, start, count⟩ first length) := by
  rw [immediate?, slice?_ofCode _ _ _ hend]
  rfl

/-- An immediate that takes the rest of an instruction has at most four bytes. -/
theorem trailing?_ofCode {first : Nat} (hfirst : first + 4 ≤ 16) :
    (ofCode code start count).trailing? first =
      some (OperandBytes.trailing ⟨code, start, count⟩ first) :=
  immediate?_ofCode _ _ _ (Nat.le_trans (Nat.add_le_add_left (Nat.min_le_right _ _) _) hfirst)

/-- Two immediates have at most eight bytes, whatever their lengths are said to be. -/
theorem pair?_ofCode {first : Nat} (hfirst : first + 8 ≤ 16) (lengthBits : UInt8) :
    (ofCode code start count).pair? first lengthBits =
      some (OperandBytes.pair ⟨code, start, count⟩ first lengthBits) := by
  have hlength : min (lengthBits &&& 7).toNat 4 ≤ 4 := Nat.min_le_right _ _
  rw [pair?, immediate?_ofCode _ _ _ (by omega), trailing?_ofCode _ _ _ (by omega)]
  rfl

/-- No form of operands makes the window too small. -/
theorem decode?_ofCode (form : Form) :
    (ofCode code start count).decode? form =
      some (OperandBytes.decode ⟨code, start, count⟩ form) := by
  have hbyte {index : Nat} (hindex : index < 16) := byte?_ofCode code start count hindex
  have htrailing {first : Nat} (hfirst : first + 4 ≤ 16) :=
    trailing?_ofCode code start count hfirst
  have hpair {first : Nat} (hfirst : first + 8 ≤ 16) := pair?_ofCode code start count hfirst
  have hslice : (ofCode code start count).slice? 1 8 = _ :=
    slice?_ofCode code start count (by decide)
  cases form <;>
    simp [decode?, OperandBytes.decode, hbyte, htrailing, hpair, hslice, lowRegister?_ofCode,
      highRegister?_ofCode]

end Accesses

end OperandWindow

/-- The instruction at `pc`, if reading its operands does not leave their window. -/
def decodeInWindow? (code : ByteArray) (pc count : Nat) :
    Option (Except DecodeError Instruction) :=
  if h : pc < code.size then
    match Opcode.ofByte? code[pc] with
    | none => some (.error (.unknownOpcode code[pc]))
    | some opcode => do
      let operands ← (OperandWindow.ofCode code (pc + 1) count).decode? opcode.form
      return .ok ⟨opcode, operands⟩
  else some (.ok trap)

/-- Decoding never leaves the window. -/
theorem decodeInWindow?_eq (code : ByteArray) (pc count : Nat) :
    decodeInWindow? code pc count = some (decode code pc count) := by
  rw [decodeInWindow?, decode]
  split
  · cases Opcode.ofByte? code[pc] with
    | none => rfl
    | some opcode =>
        dsimp only
        rw [OperandWindow.decode?_ofCode]
        rfl
  · rfl

/-- The only bytes that are no instruction are those that start with no opcode. -/
theorem exists_decode_eq_error_iff {code : ByteArray} {pc count : Nat} :
    (∃ error, decode code pc count = .error error) ↔
      ∃ byte, code[pc]? = some byte ∧ ∀ opcode : Opcode, opcode.byte ≠ byte := by
  rw [decode]
  split
  · next hpc =>
      rw [getElem?_pos code pc hpc]
      cases hfound : Opcode.ofByte? code[pc] with
      | none =>
          refine iff_of_true ⟨_, rfl⟩ ⟨_, rfl, fun opcode hbyte => ?_⟩
          rw [Opcode.ofByte?_eq_some_iff.mpr hbyte] at hfound
          cases hfound
      | some opcode =>
          refine iff_of_false (by simp) ?_
          rintro ⟨byte, hbyte, hunassigned⟩
          obtain rfl := Option.some.inj hbyte
          exact hunassigned opcode (Opcode.ofByte?_eq_some_iff.mp hfound)
  · next hpc =>
      rw [getElem?_neg code pc hpc]
      exact iff_of_false (by simp) (by simp)

end GasMachine.Instruction
