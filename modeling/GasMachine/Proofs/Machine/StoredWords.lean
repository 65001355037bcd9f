import Mathlib
import GasMachine.Proofs.Bytes.NaturalForms
import GasMachine.Proofs.Machine.Rounds
import GasMachine.Proofs.Memory.SparseContents
import GasMachine.Proofs.Memory.ZonedRefinement

/-!
# Stored words are loaded back

A store puts the low bytes of a word at an address and touches no other byte.  A
load of as many bytes from there finds them, and makes of them an unsigned number
or extends their sign.  The load is never refused, since what can be written can
be read, and it never stops the host, since it starts with a byte that was stored.
-/

namespace GasMachine

open AddressSpace

/-! ## Words -/

namespace Word

/-- `loaded` is the word with the low `width` bytes of `value`, as an unsigned number or with their
sign extended. -/
def LoadsAs (value : UInt64) (width : Nat) : (signed : Bool) → (loaded : UInt64) → Prop
  | false, loaded => loaded.toNat = value.toNat % 2 ^ (8 * width)
  | true, loaded => loaded.toInt64.toInt = (value.toNat : Int).bmod (2 ^ (8 * width))

theorem toInt_signExtendLow {width : Nat} (hwidth : width ∈ [1, 2, 4]) (value : UInt64) :
    (signExtendLow (8 * UInt64.ofNat width) value).toInt64.toInt =
      (value.toNat : Int).bmod (2 ^ (8 * width)) := by
  simp only [List.mem_cons, List.not_mem_nil, or_false] at hwidth
  rcases hwidth with rfl | rfl | rfl
  · exact toInt_sshiftRight_shiftLeft value.toBitVec 8 (by decide) (by decide)
  · exact toInt_sshiftRight_shiftLeft value.toBitVec 16 (by decide) (by decide)
  · exact toInt_sshiftRight_shiftLeft value.toBitVec 32 (by decide) (by decide)

end Word

theorem LittleEndian.toNat_decode_encode (value : UInt64) {width : Nat} (hwidth : width ≤ 8) :
    (decode (encode value width)).toNat = value.toNat % 2 ^ (8 * width) := by
  have hlength : (encode value width).length ≤ 8 := by
    rw [encode, length_ofNat]
    exact Nat.min_le_right _ _
  rw [toNat_decode hlength, encode, Nat.min_eq_left hwidth, toNat_ofNat]

/-- The bytes of a word are loaded as the word that they are the low bytes of. -/
theorem Machine.loadsAs_wordOf_encode (value : UInt64) {width : Nat}
    (hwidth : width ∈ [1, 2, 4, 8]) (signed : Bool) :
    Word.LoadsAs value width signed
      (wordOf (LittleEndian.encode value width).toByteArray width signed) := by
  have hle : width ≤ 8 := by
    simp only [List.mem_cons, List.not_mem_nil, or_false] at hwidth
    omega
  have hdecode := LittleEndian.toNat_decode_encode value hle
  rw [wordOf, List.toList_data_toByteArray]
  generalize LittleEndian.decode (LittleEndian.encode value width) = decoded at hdecode
  -- The sign of the low bytes does not depend on the bytes above them.
  have hsign : (decoded.toNat : Int).bmod (2 ^ (8 * width)) =
      (value.toNat : Int).bmod (2 ^ (8 * width)) := by
    rw [hdecode, Int.natCast_emod, Int.emod_bmod]
  cases signed with
  | false => exact hdecode
  | true =>
      by_cases hwide : width = 8
      · subst hwide
        exact (BitVec.toInt_eq_toNat_bmod decoded.toBitVec).trans hsign
      · have hnarrow : width ∈ [1, 2, 4] := by
          simp only [List.mem_cons, List.not_mem_nil, or_false] at hwidth ⊢
          omega
        have hsigned : (true && width != 8) = true := by simpa using hwide
        rw [if_pos hsigned]
        exact (Word.toInt_signExtendLow hnarrow decoded).trans hsign

/-! ## Memories -/

/-- The stored bytes are found where they were stored. -/
theorem Image.contents_store_self (image : Image) (address : UInt32) {bytes : ByteArray}
    (hsize : bytes.size ≤ size) :
    (image.store address bytes).contents address bytes.size = bytes := by
  apply Bytes.ext_byteAt (size_contents _ _ _)
  intro index hindex
  rw [size_contents] at hindex
  have hoffset : (address + UInt32.ofNat index - address).toNat = index := by
    rw [UInt32.add_comm, UInt32.add_sub_cancel]
    exact UInt32.toNat_ofNat_of_lt' (Nat.lt_of_lt_of_le hindex hsize)
  rw [byteAt_contents _ _ hindex, store, hoffset, if_pos hindex]

/-- What can be written can be read. -/
theorem AccessKind.verdict_read_of_write {access : UInt32 → Option PageAccess} {address : UInt32}
    {length : Nat} (hwrite : AccessKind.write.verdict access address length = .ok ()) :
    AccessKind.read.verdict access address length = .ok () := by
  rw [verdict_eq_ok_iff] at hwrite ⊢
  refine ⟨hwrite.1, fun offset hoffset => ?_⟩
  rw [allowedBy_write_iff.mp (hwrite.2 offset hoffset)]
  rfl

/-- After `bytes` were written from `address` on, they are in the memory and all other bytes are as
before.  A read of as many bytes from there gives them back and changes none. -/
structure Memory.ReturnsWrite {μ : Type} [Memory μ] (image : μ → Image) (before : μ)
    (address : UInt32) (bytes : ByteArray) (after : μ) : Prop where
  image_eq : image after = (image before).store address bytes
  readInto : ∀ buffer, buffer.size = bytes.size →
    (Memory.readInto after address buffer).result = .ok () ∧
      (Memory.readInto after address buffer).buffer = bytes ∧
      image (Memory.readInto after address buffer).memory = image after

namespace FlatMemory

variable {flat after : FlatMemory} {address : UInt32} {bytes : ByteArray}

theorem write_eq_ok (hwrite : flat.write address bytes = (.ok (), after)) :
    AccessKind.write.verdict flat.access address bytes.size = .ok () ∧
      after = { flat with image := flat.image.store address bytes } := by
  rw [write] at hwrite
  split at hwrite
  · cases hwrite
  · next hverdict => exact ⟨hverdict, (Prod.mk.inj hwrite).2.symm⟩

theorem readInto_of_write (hwrite : flat.write address bytes = (.ok (), after))
    {buffer : ByteArray} (hbuffer : buffer.size = bytes.size) :
    after.readInto address buffer = (.ok (), bytes) := by
  obtain ⟨hverdict, rfl⟩ := write_eq_ok hwrite
  have hsize := (AccessKind.verdict_eq_ok_iff.mp hverdict).1
  rw [readInto, hbuffer, AccessKind.verdict_read_of_write hverdict]
  dsimp only
  rw [Image.contents_store_self _ _ hsize]

end FlatMemory

theorem SparseMemory.Reachable.returnsWrite {memory after : SparseMemory}
    (hreachable : memory.Reachable) {address : UInt32} {bytes : ByteArray}
    (hwrite : Memory.write memory address bytes = (.ok (), after)) :
    Memory.ReturnsWrite image memory address bytes after := by
  obtain ⟨hresult, hflatten⟩ := hreachable.write_eq address bytes
  have hafter : after.Reachable := by
    have hwritten := hreachable.write address bytes
    rwa [show memory.write address bytes = (.ok (), after) from hwrite] at hwritten
  rw [hwrite] at hresult hflatten
  have hflat : memory.flatten.write address bytes = (.ok (), after.flatten) :=
    Prod.ext hresult.symm hflatten.symm
  constructor
  · exact congrArg FlatMemory.image (FlatMemory.write_eq_ok hflat).2
  · intro buffer hbuffer
    obtain ⟨last, hread, -, hlast⟩ := hafter.readInto_eq address buffer
    rw [hread, FlatMemory.readInto_of_write hflat hbuffer]
    exact ⟨rfl, rfl, congrArg FlatMemory.image hlast⟩

namespace ZonedMemory

/-- An address at which bytes were stored is not behind what was stored. -/
theorem not_behindStored_store (memory : ZonedMemory) (stored : Stored) (address : UInt32)
    {bytes : ByteArray} (hbytes : 0 < bytes.size) :
    ¬ memory.BehindStored (stored.store address bytes) address := by
  rintro ⟨region, hcontains, -, hbefore⟩
  have hoffset : (address - address).toNat < bytes.size := by
    rw [UInt32.sub_self]
    exact hbytes
  have hstored : stored.store address bytes address ≠ none := by
    rw [Stored.store, if_pos hoffset]
    exact Option.some_ne_none _
  have hlt := hbefore address hcontains hstored
  omega

theorem Represents.returnsWrite {memory after : ZonedMemory} {stored : Stored}
    (hstored : memory.Represents stored) {address : UInt32} {bytes : ByteArray}
    (hwrite : Memory.write memory address bytes = (.ok (), after)) :
    Memory.ReturnsWrite image memory address bytes after := by
  have hshape := memory.sameShape_write address bytes
  have hwritten : memory.write address bytes = (.ok (), after) := hwrite
  rw [hwritten] at hshape
  rcases hstored.write_eq address bytes with ⟨fault, -, hrefused⟩ | ⟨hverdict, last, hlast, hafter⟩
  · rw [hwritten] at hrefused
    cases hrefused
  · rw [hwritten] at hlast
    obtain rfl : after = last := (Prod.mk.inj hlast).2
    constructor
    · rw [hafter.image_eq, hstored.image_eq, Stored.image_store]
    · intro buffer hbuffer
      have hreadable : (after.pageMap.checkRange .read address buffer.size).1 = .ok () := by
        rw [checkRange_fst, flatten, hshape.table, hbuffer]
        exact AccessKind.verdict_read_of_write hverdict
      have hbehind : buffer.size = 0 ∨
          ¬ after.BehindStored (stored.store address bytes) address := by
        rcases Nat.eq_zero_or_pos bytes.size with hempty | hbytes
        · exact Or.inl (hbuffer.trans hempty)
        · exact Or.inr (after.not_behindStored_store stored address hbytes)
      obtain ⟨hresult, hfilled⟩ := hafter.readInto_eq hreadable hbehind
      refine ⟨hresult, hfilled.trans ?_, ?_⟩
      · rw [Stored.image_store, hbuffer]
        exact Image.contents_store_self _ _ (AccessKind.verdict_eq_ok_iff.mp hverdict).1
      · have hsame := after.flatten_checkRange .read address buffer.size
        show (after.readInto address buffer).memory.image = after.image
        rw [memory_readInto]
        exact congrArg (fun heap => heap.image) hsame

end ZonedMemory

/-! ## Instructions -/

namespace Instruction

variable {instruction : Instruction} {address : UInt32} {width : Nat}

/-- The instruction stores the low `width` bytes of `value` from `address` on. -/
inductive Stores (registers : Registers) : Instruction → UInt32 → UInt64 → Nat → Prop where
  | immediate {opcode : Opcode} {width : Nat} (address value : UInt32)
      (haction : opcode.action = .storeImmediate width) :
      Stores registers ⟨opcode, .immImm address value⟩ address (Word.signExtend value) width
  | immediateIndirect {opcode : Opcode} {width : Nat} (base : Reg) (offset value : UInt32)
      (haction : opcode.action = .storeImmediateIndirect width) :
      Stores registers ⟨opcode, .regImmImm base offset value⟩
        ((registers.get base).toUInt32 + offset) (Word.signExtend value) width
  | register {opcode : Opcode} {width : Nat} (source : Reg) (address : UInt32)
      (haction : opcode.action = .store width) :
      Stores registers ⟨opcode, .regImm source address⟩ address (registers.get source) width
  | indirect {opcode : Opcode} {width : Nat} (source base : Reg) (offset : UInt32)
      (haction : opcode.action = .storeIndirect width) :
      Stores registers ⟨opcode, .regRegImm source base offset⟩
        ((registers.get base).toUInt32 + offset) (registers.get source) width

/-- The instruction loads `width` bytes from `address` on into the register `target`. -/
inductive Loads (registers : Registers) : Instruction → Reg → UInt32 → Nat → Bool → Prop where
  | direct {opcode : Opcode} {width : Nat} {signed : Bool} (target : Reg) (address : UInt32)
      (haction : opcode.action = .load width signed) :
      Loads registers ⟨opcode, .regImm target address⟩ target address width signed
  | indirect {opcode : Opcode} {width : Nat} {signed : Bool} (target base : Reg)
      (offset : UInt32) (haction : opcode.action = .loadIndirect width signed) :
      Loads registers ⟨opcode, .regRegImm target base offset⟩ target
        ((registers.get base).toUInt32 + offset) width signed

variable {μ : Type} {program : Program} {machine : Machine μ}

theorem Stores.request_eq {value : UInt64}
    (hstores : instruction.Stores machine.registers address value width) :
    machine.request program instruction = .store address value width := by
  cases hstores with
  | immediate address value haction | immediateIndirect base offset value haction
  | register source address haction | indirect source base offset haction =>
      rw [Machine.request, haction]
      rfl

theorem Loads.request_eq {target : Reg} {signed : Bool}
    (hloads : instruction.Loads machine.registers target address width signed) :
    machine.request program instruction = .load target address width signed := by
  cases hloads with
  | direct target address haction | indirect target base offset haction =>
      rw [Machine.request, haction]
      rfl

end Instruction

/-! ## Steps -/

namespace Machine

variable {μ : Type} [Memory μ] {program : Program} {machine : Machine μ}
variable {instruction : Instruction} {address : UInt32} {width : Nat}

theorem write_of_storeWord {served : Machine μ} {value : UInt64}
    (hserve : machine.storeWord address value width = (.advance, served)) :
    isReserved address = false ∧
      Memory.write machine.memory address (LittleEndian.encode value width).toByteArray =
        (.ok (), served.memory) := by
  rw [storeWord, store] at hserve
  cases hreserved : isReserved address with
  | true =>
      rw [hreserved] at hserve
      cases hserve
  | false =>
      rw [hreserved] at hserve
      dsimp only at hserve
      rcases hwrite : Memory.write machine.memory address
        (LittleEndian.encode value width).toByteArray with ⟨result, memory⟩
      rw [hwrite] at hserve
      cases result with
      | error error => cases hserve
      | ok done =>
          obtain ⟨-, rfl⟩ := Prod.mk.inj hserve
          exact ⟨rfl, rfl⟩

/-- A store that goes on has written outside the reserved zone. -/
theorem write_of_step {stored : Machine μ} {value : UInt64}
    (hstep : machine.step program = (.running, stored))
    (hinstruction : program.instructionAt machine.pc = .ok instruction)
    (hrequest : machine.request program instruction = .store address value width) :
    isReserved address = false ∧
      Memory.write machine.memory address (LittleEndian.encode value width).toByteArray =
        (.ok (), stored.memory) := by
  rcases machine.step_cases program with ⟨-, heq⟩ | ⟨-, error, -, heq⟩ |
    ⟨-, found, effect, served, hfound, hserve, heq⟩
  · rw [heq] at hstep
    cases hstep
  · rw [heq] at hstep
    cases hstep
  · obtain rfl : instruction = found := Except.ok.inj (hinstruction.symm.trans hfound)
    rw [hrequest] at hserve
    rw [heq] at hstep
    cases effect with
    | advance =>
        have hserved : (machine.charge 1).storeWord address value width = (.advance, served) :=
          hserve
        have hwritten := write_of_storeWord hserved
        obtain ⟨-, rfl⟩ := Prod.mk.inj hstep
        exact hwritten
    | jump target =>
        obtain ⟨registers, hfinish⟩ := eq_finish_of_serve_jump (congrArg Prod.fst hserve)
        cases hfinish
    | stop stop => cases hstep

/-- A load that is not refused goes on with the bytes in its register. -/
theorem step_of_load {target : Reg} {signed : Bool} (hgas : machine.gas.exhausted = false)
    (hinstruction : program.instructionAt machine.pc = .ok instruction)
    (hrequest : machine.request program instruction = .load target address width signed)
    (hopen : isReserved address = false)
    (hread : (Memory.readInto machine.memory address (Bytes.zeros width)).result = .ok ()) :
    ∃ loaded, machine.step program = (.running, loaded) ∧
      loaded.registers = machine.registers.set target
        (wordOf (Memory.readInto machine.memory address (Bytes.zeros width)).buffer width signed) ∧
      loaded.memory = (Memory.readInto machine.memory address (Bytes.zeros width)).memory := by
  rw [step_of_instruction hgas hinstruction, hrequest, serve, loadWord, load, hopen]
  dsimp only [charge]
  rw [if_neg Bool.false_ne_true, hread]
  exact ⟨_, rfl, rfl, rfl⟩

/-- What a store of the low `width` bytes of `value` at `address` leads to.  All other bytes are as
before, and whatever machine loads as many bytes from there next goes on with the stored bytes in
its register, unless it is out of gas.  The load changes no other register and no byte. -/
structure ReadsBack (image : μ → Image) (before : μ) (address : UInt32) (value : UInt64)
    (width : Nat) (after : μ) : Prop where
  kept : ∀ target, width ≤ (target - address).toNat → image after target = image before target
  loads : ∀ (program : Program) (machine : Machine μ) (instruction : Instruction) (target : Reg)
      (signed : Bool), machine.memory = after → machine.gas.exhausted = false →
    program.instructionAt machine.pc = .ok instruction →
    instruction.Loads machine.registers target address width signed →
      ∃ loaded, machine.step program = (.running, loaded) ∧
        Word.LoadsAs value width signed (loaded.register target) ∧
        (∀ other, other ≠ target → loaded.register other = machine.register other) ∧
        image loaded.memory = image after

/-- A store that goes on is read back if the memory returns what is written. -/
theorem readsBack_of_step {image : μ → Image} {stored : Machine μ} {value : UInt64}
    (hreturns : ∀ {bytes after}, Memory.write machine.memory address bytes = (.ok (), after) →
      Memory.ReturnsWrite image machine.memory address bytes after)
    (hstep : machine.step program = (.running, stored))
    (hinstruction : program.instructionAt machine.pc = .ok instruction)
    (hstores : instruction.Stores machine.registers address value width) :
    ReadsBack image machine.memory address value width stored.memory := by
  have hrequest : machine.request program instruction = .store address value width :=
    hstores.request_eq
  have hwidth : width ∈ [1, 2, 4, 8] := by
    apply Request.width_mem
    exact congrArg Request.range? hrequest
  have hsize : (LittleEndian.encode value width).toByteArray.size = width := by
    have hrange := width_mem (congrArg Request.range? hrequest)
    rw [LittleEndian.size_encode, Nat.min_eq_left hrange.2]
  obtain ⟨hopen, hwrite⟩ := write_of_step hstep hinstruction hrequest
  have hwritten := hreturns hwrite
  constructor
  · intro target houtside
    rw [hwritten.image_eq, Image.store, hsize, if_neg (Nat.not_lt.mpr houtside)]
  · intro reader loader load target signed hmemory hgas hload hloads
    obtain ⟨hresult, hbuffer, himage⟩ :=
      hwritten.readInto (Bytes.zeros width) (by rw [Bytes.size_zeros, hsize])
    rw [← hmemory] at hresult hbuffer himage
    obtain ⟨loaded, hloaded, hregisters, hafter⟩ :=
      step_of_load hgas hload hloads.request_eq hopen hresult
    refine ⟨loaded, hloaded, ?_, fun other hother => ?_, ?_⟩
    · rw [register, hregisters, Registers.get_set_self, hbuffer]
      exact loadsAs_wordOf_encode value hwidth signed
    · rw [register, hregisters, Registers.get_set_of_ne _ _ hother.symm, register]
    · rw [hafter, himage, hmemory]

end Machine

/-- Words that are stored are loaded back.  Whatever instruction stores the low bytes of a word on a
memory, sparse or zoned, that operations led to, if it goes on then so does a load of as many bytes
from the same address next.  It gives these bytes as an unsigned number, or with their sign
extended, and no byte outside the stored ones has changed, wherever the range lies and whatever
pages, chunks or zones it crosses. -/
theorem stored_words_are_loaded_back (program : Program) :
    (∀ (machine stored : Machine SparseMemory) (instruction : Instruction) (address : UInt32)
      (value : UInt64) (width : Nat),
      machine.memory.Reachable →
      machine.step program = (.running, stored) →
      program.instructionAt machine.pc = .ok instruction →
      instruction.Stores machine.registers address value width →
        Machine.ReadsBack SparseMemory.image machine.memory address value width stored.memory) ∧
    ∀ (standard : StandardProgram) (argument : ByteArray) (capacity : Nat)
      (memory : ZonedMemory) (record : Stored) (machine stored : Machine ZonedMemory)
      (instruction : Instruction) (address : UInt32) (value : UInt64) (width : Nat),
      ZonedMemory.initial? standard argument (.empty capacity) = some (.ok memory) →
      ZonedMemory.Reached memory (ZonedMemory.loaded standard argument) machine.memory record →
      machine.step program = (.running, stored) →
      program.instructionAt machine.pc = .ok instruction →
      instruction.Stores machine.registers address value width →
        Machine.ReadsBack ZonedMemory.image machine.memory address value width stored.memory := by
  constructor
  · intro machine stored instruction address value width hreachable
    exact Machine.readsBack_of_step hreachable.returnsWrite
  · intro standard argument capacity memory record machine stored instruction address value width
      hinitial hreached
    obtain ⟨hfits, rfl⟩ := ZonedMemory.fits_of_initial? hinitial
    have hstart : (ZonedMemory.layOut standard argument (.empty capacity)).Represents
        (ZonedMemory.loaded standard argument) :=
      hfits.represents fun _ => PageTable.get_empty _
    exact Machine.readsBack_of_step (hreached.represents hstart).returnsWrite

/-- Stores the low half of a register at an address and loads it into another register, with its
sign. -/
def storeThenLoad (address : UInt32) : Program :=
  let operand := LittleEndian.ofNat 4 address.toNat
  .ofImage ⟨ByteArray.empty, 0, 0, (61 :: 7 :: operand ++ 57 :: 8 :: operand).toByteArray,
    [0x41, 0].toByteArray⟩

/-- A sparse memory in which the highest and the lowest page can be written. -/
def aroundTop : Machine SparseMemory where
  pc := 0
  registers := Registers.zero.set Reg.dataPointer 0x180000001
  gas := ⟨5⟩
  memory := ((SparseMemory.empty 8).setPages 0xFFFFF 1 .zeroReadWrite).setPages 0 1 .zeroReadWrite

/-- A heap of two pages in which one byte is stored. -/
def inHeap : Machine ZonedMemory where
  pc := 0
  registers := Registers.zero.set Reg.dataPointer 0x180000001
  gas := ⟨5⟩
  memory := ZonedMemory.layOut ZonedMemory.dataProgram ByteArray.empty (.empty 8)

/-- The low half of a register is loaded back around the top of the address space, and in a heap
behind what was stored there before. -/
theorem low_half_is_loaded_back :
    (∃ stored loaded, aroundTop.step (storeThenLoad 0xFFFFFFFE) = (.running, stored) ∧
      stored.step (storeThenLoad 0xFFFFFFFE) = (.running, loaded) ∧
      (loaded.register Reg.dataSize).toInt64.toInt = -0x7FFFFFFF) ∧
    ∃ stored loaded, inHeap.step (storeThenLoad 0x30005) = (.running, stored) ∧
      stored.step (storeThenLoad 0x30005) = (.running, loaded) ∧
      (loaded.register Reg.dataSize).toInt64.toInt = -0x7FFFFFFF := by
  have hstores : ∀ address, Instruction.Stores (Registers.zero.set Reg.dataPointer 0x180000001)
      ⟨.storeU32, .regImm Reg.dataPointer address⟩ address 0x180000001 4 := fun address =>
    .register Reg.dataPointer address rfl
  have hloads : ∀ registers address,
      Instruction.Loads registers ⟨.loadI32, .regImm Reg.dataSize address⟩ Reg.dataSize address 4
        true :=
    fun registers address => .direct Reg.dataSize address rfl
  have hsigned : ((0x180000001 : UInt64).toNat : Int).bmod (2 ^ (8 * 4)) = -0x7FFFFFFF := by decide
  constructor
  · have hreachable : aroundTop.memory.Reachable :=
      ((SparseMemory.Reachable.start (.empty 8)).setPages _ _ _).setPages _ _ _
    have houtcome : (aroundTop.step (storeThenLoad 0xFFFFFFFE)).1 = .running := by cbv
    have hstep : aroundTop.step (storeThenLoad 0xFFFFFFFE) =
        (.running, (aroundTop.step (storeThenLoad 0xFFFFFFFE)).2) := by rw [← houtcome]
    obtain ⟨-, hback⟩ := (stored_words_are_loaded_back (storeThenLoad 0xFFFFFFFE)).1 _ _ _ _ _ _
      hreachable hstep (by cbv) (hstores 0xFFFFFFFE)
    obtain ⟨loaded, hloaded, hword, -⟩ := hback (storeThenLoad 0xFFFFFFFE) _ _ _ _ rfl
      (by cbv) (by cbv) (hloads _ 0xFFFFFFFE)
    exact ⟨_, loaded, hstep, hloaded, hword.trans hsigned⟩
  · have hfits : ZonedMemory.Fits ZonedMemory.dataProgram ByteArray.empty := ⟨by decide, by decide⟩
    have hinitial : ZonedMemory.initial? ZonedMemory.dataProgram ByteArray.empty (.empty 8) =
        some (.ok inHeap.memory) := hfits.initial?_eq (.empty 8)
    have houtcome : (inHeap.step (storeThenLoad 0x30005)).1 = .running := by cbv
    have hstep : inHeap.step (storeThenLoad 0x30005) =
        (.running, (inHeap.step (storeThenLoad 0x30005)).2) := by rw [← houtcome]
    obtain ⟨-, hback⟩ := (stored_words_are_loaded_back (storeThenLoad 0x30005)).2 _ _ _ _ _
      inHeap _ _ _ _ _ hinitial .start hstep (by cbv) (hstores 0x30005)
    obtain ⟨loaded, hloaded, hword, -⟩ := hback (storeThenLoad 0x30005) _ _ _ _ rfl
      (by cbv) (by cbv) (hloads _ 0x30005)
    exact ⟨_, loaded, hstep, hloaded, hword.trans hsigned⟩

end GasMachine
