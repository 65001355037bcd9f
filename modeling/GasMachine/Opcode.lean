/-!
# Opcodes

An opcode has a byte, an assembly mnemonic and an operand form.  The three stand in one table, so
that the encoder, the decoder, the assembler and the listing printer cannot disagree on them.
-/

namespace GasMachine

/-- The layout of the operands after an opcode. -/
inductive Form where
  /-- No operands. -/
  | bare
  /-- One immediate. -/
  | imm
  /-- A register and a full eight-byte immediate. -/
  | regWide
  /-- Two immediates, the first with an explicit length. -/
  | immImm
  /-- One relative offset. -/
  | offset
  /-- A register and an immediate. -/
  | regImm
  /-- A register and two immediates. -/
  | regImmImm
  /-- A register, an immediate and a relative offset. -/
  | regImmOffset
  /-- Two registers. -/
  | regReg
  /-- Two registers and an immediate. -/
  | regRegImm
  /-- Two registers and a relative offset. -/
  | regRegOffset
  /-- Two registers and two immediates. -/
  | regRegImmImm
  /-- Three registers. -/
  | regRegReg
  deriving DecidableEq, Repr

/-- The assigned operations, in the order of their bytes. -/
inductive Opcode where
  | trap | fallthrough | ecalli | loadImm64 | storeImmU8 | storeImmU16 | storeImmU32
  | storeImmU64 | jump | jumpInd | loadImm | loadU8 | loadI8 | loadU16 | loadI16 | loadU32
  | loadI32 | loadU64 | storeU8 | storeU16 | storeU32 | storeU64 | storeImmIndU8 | storeImmIndU16
  | storeImmIndU32 | storeImmIndU64 | loadImmJump | branchEqImm | branchNeImm | branchLtUImm
  | branchLeUImm | branchGeUImm | branchGtUImm | branchLtSImm | branchLeSImm | branchGeSImm
  | branchGtSImm | moveReg | sbrk | countSetBits64 | countSetBits32 | leadingZeroBits64
  | leadingZeroBits32 | trailingZeroBits64 | trailingZeroBits32 | signExtend8 | signExtend16
  | zeroExtend16 | reverseBytes | storeIndU8 | storeIndU16 | storeIndU32 | storeIndU64
  | loadIndU8 | loadIndI8 | loadIndU16 | loadIndI16 | loadIndU32 | loadIndI32 | loadIndU64
  | addImm32 | andImm | xorImm | orImm | mulImm32 | setLtUImm | setLtSImm | shloLImm32
  | shloRImm32 | sharRImm32 | negAddImm32 | setGtUImm | setGtSImm | shloLImmAlt32 | shloRImmAlt32
  | sharRImmAlt32 | cmovIzImm | cmovNzImm | addImm64 | mulImm64 | shloLImm64 | shloRImm64
  | sharRImm64 | negAddImm64 | shloLImmAlt64 | shloRImmAlt64 | sharRImmAlt64 | rotR64Imm
  | rotR64ImmAlt | rotR32Imm | rotR32ImmAlt | branchEq | branchNe | branchLtU | branchLtS
  | branchGeU | branchGeS | loadImmJumpInd | add32 | sub32 | mul32 | divU32 | divS32 | remU32
  | remS32 | shloL32 | shloR32 | sharR32 | add64 | sub64 | mul64 | divU64 | divS64 | remU64
  | remS64 | shloL64 | shloR64 | sharR64 | and | xor | or | mulUpperSS | mulUpperUU | mulUpperSU
  | setLtU | setLtS | cmovIz | cmovNz | rotL64 | rotL32 | rotR64 | rotR32 | andInv | orInv | xnor
  | max | maxU | min | minU
  deriving DecidableEq, Repr

namespace Opcode

/-- What the tables say of one opcode. -/
structure Entry where
  byte : UInt8
  mnemonic : String
  form : Form

def entry : Opcode → Entry
  | .trap => ⟨0, "trap", .bare⟩
  | .fallthrough => ⟨1, "fallthrough", .bare⟩
  | .ecalli => ⟨10, "ecalli", .imm⟩
  | .loadImm64 => ⟨20, "load_imm_64", .regWide⟩
  | .storeImmU8 => ⟨30, "store_imm_u8", .immImm⟩
  | .storeImmU16 => ⟨31, "store_imm_u16", .immImm⟩
  | .storeImmU32 => ⟨32, "store_imm_u32", .immImm⟩
  | .storeImmU64 => ⟨33, "store_imm_u64", .immImm⟩
  | .jump => ⟨40, "jump", .offset⟩
  | .jumpInd => ⟨50, "jump_ind", .regImm⟩
  | .loadImm => ⟨51, "load_imm", .regImm⟩
  | .loadU8 => ⟨52, "load_u8", .regImm⟩
  | .loadI8 => ⟨53, "load_i8", .regImm⟩
  | .loadU16 => ⟨54, "load_u16", .regImm⟩
  | .loadI16 => ⟨55, "load_i16", .regImm⟩
  | .loadU32 => ⟨56, "load_u32", .regImm⟩
  | .loadI32 => ⟨57, "load_i32", .regImm⟩
  | .loadU64 => ⟨58, "load_u64", .regImm⟩
  | .storeU8 => ⟨59, "store_u8", .regImm⟩
  | .storeU16 => ⟨60, "store_u16", .regImm⟩
  | .storeU32 => ⟨61, "store_u32", .regImm⟩
  | .storeU64 => ⟨62, "store_u64", .regImm⟩
  | .storeImmIndU8 => ⟨70, "store_imm_ind_u8", .regImmImm⟩
  | .storeImmIndU16 => ⟨71, "store_imm_ind_u16", .regImmImm⟩
  | .storeImmIndU32 => ⟨72, "store_imm_ind_u32", .regImmImm⟩
  | .storeImmIndU64 => ⟨73, "store_imm_ind_u64", .regImmImm⟩
  | .loadImmJump => ⟨80, "load_imm_jump", .regImmOffset⟩
  | .branchEqImm => ⟨81, "branch_eq_imm", .regImmOffset⟩
  | .branchNeImm => ⟨82, "branch_ne_imm", .regImmOffset⟩
  | .branchLtUImm => ⟨83, "branch_lt_u_imm", .regImmOffset⟩
  | .branchLeUImm => ⟨84, "branch_le_u_imm", .regImmOffset⟩
  | .branchGeUImm => ⟨85, "branch_ge_u_imm", .regImmOffset⟩
  | .branchGtUImm => ⟨86, "branch_gt_u_imm", .regImmOffset⟩
  | .branchLtSImm => ⟨87, "branch_lt_s_imm", .regImmOffset⟩
  | .branchLeSImm => ⟨88, "branch_le_s_imm", .regImmOffset⟩
  | .branchGeSImm => ⟨89, "branch_ge_s_imm", .regImmOffset⟩
  | .branchGtSImm => ⟨90, "branch_gt_s_imm", .regImmOffset⟩
  | .moveReg => ⟨100, "move_reg", .regReg⟩
  | .sbrk => ⟨101, "sbrk", .regReg⟩
  | .countSetBits64 => ⟨102, "count_set_bits_64", .regReg⟩
  | .countSetBits32 => ⟨103, "count_set_bits_32", .regReg⟩
  | .leadingZeroBits64 => ⟨104, "leading_zero_bits_64", .regReg⟩
  | .leadingZeroBits32 => ⟨105, "leading_zero_bits_32", .regReg⟩
  | .trailingZeroBits64 => ⟨106, "trailing_zero_bits_64", .regReg⟩
  | .trailingZeroBits32 => ⟨107, "trailing_zero_bits_32", .regReg⟩
  | .signExtend8 => ⟨108, "sign_extend_8", .regReg⟩
  | .signExtend16 => ⟨109, "sign_extend_16", .regReg⟩
  | .zeroExtend16 => ⟨110, "zero_extend_16", .regReg⟩
  | .reverseBytes => ⟨111, "reverse_bytes", .regReg⟩
  | .storeIndU8 => ⟨120, "store_ind_u8", .regRegImm⟩
  | .storeIndU16 => ⟨121, "store_ind_u16", .regRegImm⟩
  | .storeIndU32 => ⟨122, "store_ind_u32", .regRegImm⟩
  | .storeIndU64 => ⟨123, "store_ind_u64", .regRegImm⟩
  | .loadIndU8 => ⟨124, "load_ind_u8", .regRegImm⟩
  | .loadIndI8 => ⟨125, "load_ind_i8", .regRegImm⟩
  | .loadIndU16 => ⟨126, "load_ind_u16", .regRegImm⟩
  | .loadIndI16 => ⟨127, "load_ind_i16", .regRegImm⟩
  | .loadIndU32 => ⟨128, "load_ind_u32", .regRegImm⟩
  | .loadIndI32 => ⟨129, "load_ind_i32", .regRegImm⟩
  | .loadIndU64 => ⟨130, "load_ind_u64", .regRegImm⟩
  | .addImm32 => ⟨131, "add_imm_32", .regRegImm⟩
  | .andImm => ⟨132, "and_imm", .regRegImm⟩
  | .xorImm => ⟨133, "xor_imm", .regRegImm⟩
  | .orImm => ⟨134, "or_imm", .regRegImm⟩
  | .mulImm32 => ⟨135, "mul_imm_32", .regRegImm⟩
  | .setLtUImm => ⟨136, "set_lt_u_imm", .regRegImm⟩
  | .setLtSImm => ⟨137, "set_lt_s_imm", .regRegImm⟩
  | .shloLImm32 => ⟨138, "shlo_l_imm_32", .regRegImm⟩
  | .shloRImm32 => ⟨139, "shlo_r_imm_32", .regRegImm⟩
  | .sharRImm32 => ⟨140, "shar_r_imm_32", .regRegImm⟩
  | .negAddImm32 => ⟨141, "neg_add_imm_32", .regRegImm⟩
  | .setGtUImm => ⟨142, "set_gt_u_imm", .regRegImm⟩
  | .setGtSImm => ⟨143, "set_gt_s_imm", .regRegImm⟩
  | .shloLImmAlt32 => ⟨144, "shlo_l_imm_alt_32", .regRegImm⟩
  | .shloRImmAlt32 => ⟨145, "shlo_r_imm_alt_32", .regRegImm⟩
  | .sharRImmAlt32 => ⟨146, "shar_r_imm_alt_32", .regRegImm⟩
  | .cmovIzImm => ⟨147, "cmov_iz_imm", .regRegImm⟩
  | .cmovNzImm => ⟨148, "cmov_nz_imm", .regRegImm⟩
  | .addImm64 => ⟨149, "add_imm_64", .regRegImm⟩
  | .mulImm64 => ⟨150, "mul_imm_64", .regRegImm⟩
  | .shloLImm64 => ⟨151, "shlo_l_imm_64", .regRegImm⟩
  | .shloRImm64 => ⟨152, "shlo_r_imm_64", .regRegImm⟩
  | .sharRImm64 => ⟨153, "shar_r_imm_64", .regRegImm⟩
  | .negAddImm64 => ⟨154, "neg_add_imm_64", .regRegImm⟩
  | .shloLImmAlt64 => ⟨155, "shlo_l_imm_alt_64", .regRegImm⟩
  | .shloRImmAlt64 => ⟨156, "shlo_r_imm_alt_64", .regRegImm⟩
  | .sharRImmAlt64 => ⟨157, "shar_r_imm_alt_64", .regRegImm⟩
  | .rotR64Imm => ⟨158, "rot_r_64_imm", .regRegImm⟩
  | .rotR64ImmAlt => ⟨159, "rot_r_64_imm_alt", .regRegImm⟩
  | .rotR32Imm => ⟨160, "rot_r_32_imm", .regRegImm⟩
  | .rotR32ImmAlt => ⟨161, "rot_r_32_imm_alt", .regRegImm⟩
  | .branchEq => ⟨170, "branch_eq", .regRegOffset⟩
  | .branchNe => ⟨171, "branch_ne", .regRegOffset⟩
  | .branchLtU => ⟨172, "branch_lt_u", .regRegOffset⟩
  | .branchLtS => ⟨173, "branch_lt_s", .regRegOffset⟩
  | .branchGeU => ⟨174, "branch_ge_u", .regRegOffset⟩
  | .branchGeS => ⟨175, "branch_ge_s", .regRegOffset⟩
  | .loadImmJumpInd => ⟨180, "load_imm_jump_ind", .regRegImmImm⟩
  | .add32 => ⟨190, "add_32", .regRegReg⟩
  | .sub32 => ⟨191, "sub_32", .regRegReg⟩
  | .mul32 => ⟨192, "mul_32", .regRegReg⟩
  | .divU32 => ⟨193, "div_u_32", .regRegReg⟩
  | .divS32 => ⟨194, "div_s_32", .regRegReg⟩
  | .remU32 => ⟨195, "rem_u_32", .regRegReg⟩
  | .remS32 => ⟨196, "rem_s_32", .regRegReg⟩
  | .shloL32 => ⟨197, "shlo_l_32", .regRegReg⟩
  | .shloR32 => ⟨198, "shlo_r_32", .regRegReg⟩
  | .sharR32 => ⟨199, "shar_r_32", .regRegReg⟩
  | .add64 => ⟨200, "add_64", .regRegReg⟩
  | .sub64 => ⟨201, "sub_64", .regRegReg⟩
  | .mul64 => ⟨202, "mul_64", .regRegReg⟩
  | .divU64 => ⟨203, "div_u_64", .regRegReg⟩
  | .divS64 => ⟨204, "div_s_64", .regRegReg⟩
  | .remU64 => ⟨205, "rem_u_64", .regRegReg⟩
  | .remS64 => ⟨206, "rem_s_64", .regRegReg⟩
  | .shloL64 => ⟨207, "shlo_l_64", .regRegReg⟩
  | .shloR64 => ⟨208, "shlo_r_64", .regRegReg⟩
  | .sharR64 => ⟨209, "shar_r_64", .regRegReg⟩
  | .and => ⟨210, "and", .regRegReg⟩
  | .xor => ⟨211, "xor", .regRegReg⟩
  | .or => ⟨212, "or", .regRegReg⟩
  | .mulUpperSS => ⟨213, "mul_upper_s_s", .regRegReg⟩
  | .mulUpperUU => ⟨214, "mul_upper_u_u", .regRegReg⟩
  | .mulUpperSU => ⟨215, "mul_upper_s_u", .regRegReg⟩
  | .setLtU => ⟨216, "set_lt_u", .regRegReg⟩
  | .setLtS => ⟨217, "set_lt_s", .regRegReg⟩
  | .cmovIz => ⟨218, "cmov_iz", .regRegReg⟩
  | .cmovNz => ⟨219, "cmov_nz", .regRegReg⟩
  | .rotL64 => ⟨220, "rot_l_64", .regRegReg⟩
  | .rotL32 => ⟨221, "rot_l_32", .regRegReg⟩
  | .rotR64 => ⟨222, "rot_r_64", .regRegReg⟩
  | .rotR32 => ⟨223, "rot_r_32", .regRegReg⟩
  | .andInv => ⟨224, "and_inv", .regRegReg⟩
  | .orInv => ⟨225, "or_inv", .regRegReg⟩
  | .xnor => ⟨226, "xnor", .regRegReg⟩
  | .max => ⟨227, "max", .regRegReg⟩
  | .maxU => ⟨228, "max_u", .regRegReg⟩
  | .min => ⟨229, "min", .regRegReg⟩
  | .minU => ⟨230, "min_u", .regRegReg⟩

def byte (opcode : Opcode) : UInt8 := opcode.entry.byte

def mnemonic (opcode : Opcode) : String := opcode.entry.mnemonic

def form (opcode : Opcode) : Form := opcode.entry.form

def all : List Opcode :=
  [.trap, .fallthrough, .ecalli, .loadImm64, .storeImmU8, .storeImmU16, .storeImmU32,
    .storeImmU64, .jump, .jumpInd, .loadImm, .loadU8, .loadI8, .loadU16, .loadI16, .loadU32,
    .loadI32, .loadU64, .storeU8, .storeU16, .storeU32, .storeU64, .storeImmIndU8,
    .storeImmIndU16, .storeImmIndU32, .storeImmIndU64, .loadImmJump, .branchEqImm, .branchNeImm,
    .branchLtUImm, .branchLeUImm, .branchGeUImm, .branchGtUImm, .branchLtSImm, .branchLeSImm,
    .branchGeSImm, .branchGtSImm, .moveReg, .sbrk, .countSetBits64, .countSetBits32,
    .leadingZeroBits64, .leadingZeroBits32, .trailingZeroBits64, .trailingZeroBits32,
    .signExtend8, .signExtend16, .zeroExtend16, .reverseBytes, .storeIndU8, .storeIndU16,
    .storeIndU32, .storeIndU64, .loadIndU8, .loadIndI8, .loadIndU16, .loadIndI16, .loadIndU32,
    .loadIndI32, .loadIndU64, .addImm32, .andImm, .xorImm, .orImm, .mulImm32, .setLtUImm,
    .setLtSImm, .shloLImm32, .shloRImm32, .sharRImm32, .negAddImm32, .setGtUImm, .setGtSImm,
    .shloLImmAlt32, .shloRImmAlt32, .sharRImmAlt32, .cmovIzImm, .cmovNzImm, .addImm64, .mulImm64,
    .shloLImm64, .shloRImm64, .sharRImm64, .negAddImm64, .shloLImmAlt64, .shloRImmAlt64,
    .sharRImmAlt64, .rotR64Imm, .rotR64ImmAlt, .rotR32Imm, .rotR32ImmAlt, .branchEq, .branchNe,
    .branchLtU, .branchLtS, .branchGeU, .branchGeS, .loadImmJumpInd, .add32, .sub32, .mul32,
    .divU32, .divS32, .remU32, .remS32, .shloL32, .shloR32, .sharR32, .add64, .sub64, .mul64,
    .divU64, .divS64, .remU64, .remS64, .shloL64, .shloR64, .sharR64, .and, .xor, .or,
    .mulUpperSS, .mulUpperUU, .mulUpperSU, .setLtU, .setLtS, .cmovIz, .cmovNz, .rotL64, .rotL32,
    .rotR64, .rotR32, .andInv, .orInv, .xnor, .max, .maxU, .min, .minU]

def ofByte? (byte : UInt8) : Option Opcode :=
  all.find? fun opcode => opcode.byte == byte

def ofMnemonic? (name : String) : Option Opcode :=
  all.find? fun opcode => opcode.mnemonic == name

/-- Whether the opcode ends a basic block.  What follows such an instruction is a valid jump
target, and nothing else is. -/
def endsBlock : Opcode → Bool
  | .trap | .fallthrough | .jump | .jumpInd | .loadImmJump | .branchEqImm | .branchNeImm
  | .branchLtUImm | .branchLeUImm | .branchGeUImm | .branchGtUImm | .branchLtSImm
  | .branchLeSImm | .branchGeSImm | .branchGtSImm | .branchEq | .branchNe | .branchLtU
  | .branchLtS | .branchGeU | .branchGeS | .loadImmJumpInd => true
  | _ => false

/-- Gas charged for one instruction.  Every opcode costs the same. -/
def gasCost (_ : Opcode) : UInt64 := 1

end Opcode

end GasMachine
