import Mathlib
import GasMachine.Proofs.Bytes.Words
import GasMachine.Proofs.Invocation.CacheTransparency
import GasMachine.Proofs.Machine.MemoryIsolation

/-!
# The reserved zone

Instructions may not touch the lowest zone, and the check for this looks at the
first byte of an access.  Accesses wrap around the top of the address space, so
one that starts in its last bytes and is allowed by the page map reaches the
reserved zone all the same: it writes its bytes, or loads a word that depends on
them.  Nothing else does.  In the memory of a standard program no access can.
-/

namespace GasMachine

open AddressSpace

/-! ## Memories that agree above the reserved zone -/

namespace Machine

theorem isReserved_eq_false_iff {address : UInt32} :
    isReserved address = false ↔ zoneSize ≤ address.toNat := by
  simp [isReserved, UInt32.lt_iff_toNat_lt, zoneSize]

/-- An access that does not wrap around stays out of the reserved zone if it starts
outside of it. -/
theorem isReserved_add {address : UInt32} {count offset : Nat}
    (haddress : isReserved address = false) (hend : address.toNat + count ≤ size)
    (hoffset : offset < count) : isReserved (address + UInt32.ofNat offset) = false := by
  rw [isReserved_eq_false_iff] at haddress ⊢
  rw [toNat_add_ofNat, Nat.mod_eq_of_lt (by omega)]
  omega

end Machine

/-- Memories with the same access, and the same bytes above the reserved zone. -/
structure FlatMemory.AgreesAbove (left right : FlatMemory) : Prop where
  access : left.access = right.access
  image : ∀ address, Machine.isReserved address = false →
    left.image address = right.image address

namespace FlatMemory

open Machine (isReserved isReserved_add)

theorem grow_congr {left right : FlatMemory} (haccess : left.access = right.access)
    (increment : UInt32) :
    (left.grow increment).1 = (right.grow increment).1 ∧
      (left.grow increment).2.access = (right.grow increment).2.access := by
  have hgap : left.gap? (max (pagesFor increment.toNat) 1) =
      right.gap? (max (pagesFor increment.toNat) 1) := by
    simp only [gap?, isUnmapped, haccess]
  simp only [grow, hgap]
  cases right.gap? (max (pagesFor increment.toNat) 1) with
  | none => exact ⟨rfl, haccess⟩
  | some page => exact ⟨rfl, by simp only [assign, haccess]⟩

theorem image_grow (flat : FlatMemory) (increment : UInt32) :
    (flat.grow increment).2.image = flat.image := by
  rw [grow]
  split <;> rfl

/-- A write that starts outside the reserved zone and does not wrap around leaves
that zone alone. -/
theorem image_write_of_reserved (flat : FlatMemory) {address : UInt32} {bytes : ByteArray}
    (haddress : isReserved address = false)
    (hstraight : AccessKind.write.verdict flat.access address bytes.size = .ok () →
      address.toNat + bytes.size ≤ size)
    {target : UInt32} (htarget : isReserved target = true) :
    (flat.write address bytes).2.image target = flat.image target := by
  rw [write]
  cases hverdict : AccessKind.write.verdict flat.access address bytes.size with
  | error fault => rfl
  | ok allowed =>
      apply if_neg
      intro hinside
      have hspared := isReserved_add haddress (hstraight hverdict) hinside
      rw [UInt32.ofNat_toNat, UInt32.add_comm, UInt32.sub_add_cancel, htarget] at hspared
      cases hspared

namespace AgreesAbove

variable {left right : FlatMemory} (hagrees : left.AgreesAbove right)
include hagrees

theorem readInto {address : UInt32} {buffer : ByteArray}
    (haddress : isReserved address = false)
    (hstraight : AccessKind.read.verdict left.access address buffer.size = .ok () →
      address.toNat + buffer.size ≤ size) :
    left.readInto address buffer = right.readInto address buffer := by
  simp only [FlatMemory.readInto, ← hagrees.access]
  cases hverdict : AccessKind.read.verdict left.access address buffer.size with
  | error fault => rfl
  | ok allowed =>
      have hcontents : left.image.contents address buffer.size =
          right.image.contents address buffer.size := by
        apply congrArg List.toByteArray
        apply List.map_congr_left
        intro offset hoffset
        exact hagrees.image _
          (isReserved_add haddress (hstraight hverdict) (List.mem_range.mp hoffset))
      simp only [hcontents]

theorem write (address : UInt32) (bytes : ByteArray) :
    (left.write address bytes).1 = (right.write address bytes).1 ∧
      (left.write address bytes).2.AgreesAbove (right.write address bytes).2 := by
  simp only [FlatMemory.write, ← hagrees.access]
  cases AccessKind.write.verdict left.access address bytes.size with
  | error fault => exact ⟨rfl, hagrees⟩
  | ok allowed =>
      refine ⟨rfl, rfl, fun target htarget => ?_⟩
      simp only [Image.store, hagrees.image target htarget]

theorem grow (increment : UInt32) :
    (left.grow increment).1 = (right.grow increment).1 ∧
      (left.grow increment).2.AgreesAbove (right.grow increment).2 := by
  obtain ⟨hresult, haccess⟩ := grow_congr hagrees.access increment
  refine ⟨hresult, haccess, fun target htarget => ?_⟩
  rw [image_grow, image_grow, hagrees.image target htarget]

end AgreesAbove

end FlatMemory

namespace SparseMemory

structure AgreesAbove (left right : SparseMemory) : Prop where
  leftReachable : left.Reachable
  rightReachable : right.Reachable
  flat : left.flatten.AgreesAbove right.flatten

namespace AgreesAbove

variable {left right : SparseMemory} (hagrees : left.AgreesAbove right)
include hagrees

theorem readInto {address : UInt32} {buffer : ByteArray}
    (haddress : Machine.isReserved address = false)
    (hstraight : AccessKind.read.verdict left.flatten.access address buffer.size = .ok () →
      address.toNat + buffer.size ≤ size) :
    ∃ result filled leftAfter rightAfter,
      Memory.readInto left address buffer = ⟨result, filled, leftAfter⟩ ∧
      Memory.readInto right address buffer = ⟨result, filled, rightAfter⟩ ∧
      leftAfter.AgreesAbove rightAfter := by
  obtain ⟨leftAfter, hleft, hleftAfter, hleftFlat⟩ :=
    hagrees.leftReachable.readInto_eq address buffer
  obtain ⟨rightAfter, hright, hrightAfter, hrightFlat⟩ :=
    hagrees.rightReachable.readInto_eq address buffer
  rw [hagrees.flat.readInto haddress hstraight] at hleft
  refine ⟨_, _, leftAfter, rightAfter, hleft, hright, hleftAfter, hrightAfter, ?_⟩
  rw [hleftFlat, hrightFlat]
  exact hagrees.flat

theorem write (address : UInt32) (bytes : ByteArray) :
    Alike AgreesAbove (Memory.write left address bytes) (Memory.write right address bytes) := by
  obtain ⟨hleft, hleftFlat⟩ := hagrees.leftReachable.write_eq address bytes
  obtain ⟨hright, hrightFlat⟩ := hagrees.rightReachable.write_eq address bytes
  obtain ⟨hsame, hflat⟩ := hagrees.flat.write address bytes
  rw [← hleftFlat, ← hrightFlat] at hflat
  exact .of_eq (hleft.trans (hsame.trans hright.symm))
    ⟨hagrees.leftReachable.write address bytes, hagrees.rightReachable.write address bytes, hflat⟩

theorem grow (increment : UInt32) :
    Alike AgreesAbove (Memory.grow left increment) (Memory.grow right increment) := by
  obtain ⟨hleft, hleftFlat⟩ := hagrees.leftReachable.grow_eq increment
  obtain ⟨hright, hrightFlat⟩ := hagrees.rightReachable.grow_eq increment
  obtain ⟨hsame, hflat⟩ := hagrees.flat.grow increment
  rw [← hleftFlat, ← hrightFlat] at hflat
  exact .of_eq (hleft.trans (hsame.trans hright.symm))
    ⟨hagrees.leftReachable.grow increment, hagrees.rightReachable.grow increment, hflat⟩

end AgreesAbove

end SparseMemory

/-! ## Steps -/

/-- A request for bytes that may be used and lie around the top of the address
space. -/
def Request.ReachesAround (request : Request) (access : UInt32 → Option PageAccess) : Prop :=
  ∃ kind address width, request.range? = some (kind, address, width) ∧
    size < address.toNat + width ∧ kind.verdict access address width = .ok ()

theorem Request.end_le_of_not_reachesAround {request : Request}
    {access : UInt32 → Option PageAccess} (haround : ¬ request.ReachesAround access)
    {kind : AccessKind} {address : UInt32} {width : Nat}
    (hrange : request.range? = some (kind, address, width))
    (hverdict : kind.verdict access address width = .ok ()) : address.toNat + width ≤ size :=
  not_lt.mp fun hend => haround ⟨kind, address, width, hrange, hend, hverdict⟩

namespace Machine

/-- The step of a machine pays for an instruction that loads or stores bytes around
the top of the address space, all of which may be used. -/
def ReachesAround (program : Program) (machine : Machine SparseMemory) : Prop :=
  machine.gas.exhausted = false ∧
    ∃ instruction, program.instructionAt machine.pc = .ok instruction ∧
      (machine.request program instruction).ReachesAround machine.memory.flatten.access

/-- The step of a machine spares the reserved zone: whatever bytes that zone holds,
the step is the same, and they are the same after it. -/
def Spares {μ : Type} [Memory μ] (agrees : μ → μ → Prop) (image : μ → Image)
    (program : Program) (machine : Machine μ) : Prop :=
  ∀ other, Related agrees machine other →
    Alike (Related agrees) (machine.step program) (other.step program) ∧
      ∀ address, isReserved address = true →
        image (other.step program).2.memory address = image other.memory address

open SparseMemory (AgreesAbove)

variable {left right machine : Machine SparseMemory} {program : Program} {request : Request}

theorem serve_agrees (hrelated : Related AgreesAbove left right)
    (haround : ¬ request.ReachesAround left.memory.flatten.access) :
    Alike (Related AgreesAbove) (left.serve request) (right.serve request) := by
  cases request with
  | finish effect registers =>
      exact ⟨effect, _, _, rfl, rfl, hrelated.pc, rfl, hrelated.gas, hrelated.memory⟩
  | load target address width signed =>
      apply loadWord_alike
      apply load_alike_of_readInto hrelated
      intro haddress
      apply hrelated.memory.readInto haddress
      rw [Bytes.size_zeros]
      exact Request.end_le_of_not_reachesAround haround rfl
  | store address value width =>
      apply storeWord_alike
      apply store_alike_of_write hrelated
      exact hrelated.memory.write address _
  | grow target increment =>
      apply growHeap_alike_of_grow hrelated
      exact hrelated.memory.grow increment

theorem memory_store {address : UInt32} (haddress : isReserved address = false)
    (bytes : ByteArray) :
    (machine.store address bytes).2.memory = (Memory.write machine.memory address bytes).2 := by
  rw [store, haddress]
  rfl

theorem image_serve_of_reserved (hreachable : machine.memory.Reachable)
    (haround : ¬ request.ReachesAround machine.memory.flatten.access)
    (hwidth : ∀ kind address width, request.range? = some (kind, address, width) → width ≤ 8)
    {target : UInt32} (htarget : isReserved target = true) :
    (machine.serve request).2.memory.image target = machine.memory.image target := by
  cases request with
  | finish effect registers => rfl
  | load register address width signed =>
      rw [serve, memory_loadWord, load]
      split
      · rfl
      · obtain ⟨after, hread, -, hflat⟩ := hreachable.readInto_eq address (Bytes.zeros width)
        simp only [hread]
        rw [← SparseMemory.image_flatten, hflat, SparseMemory.image_flatten]
  | store address value width =>
      rw [serve, memory_storeWord]
      cases haddress : isReserved address with
      | true => rw [store, if_pos haddress]
      | false =>
          have hflat := (hreachable.write_eq address
            (LittleEndian.encode value width).toByteArray).2
          rw [memory_store haddress, ← SparseMemory.image_flatten, hflat]
          apply FlatMemory.image_write_of_reserved _ haddress _ htarget
          rw [LittleEndian.size_encode, min_eq_left (hwidth _ _ _ rfl)]
          exact Request.end_le_of_not_reachesAround haround rfl
  | grow register increment =>
      have hflat := (hreachable.grow_eq increment).2
      rw [serve, memory_growHeap, ← SparseMemory.image_flatten, hflat, FlatMemory.image_grow,
        SparseMemory.image_flatten]

theorem image_step_of_reserved (hreachable : machine.memory.Reachable)
    (haround : ¬ machine.ReachesAround program) {target : UInt32}
    (htarget : isReserved target = true) :
    (machine.step program).2.memory.image target = machine.memory.image target := by
  rcases machine.step_cases program with ⟨-, hstep⟩ | ⟨-, error, -, hstep⟩ |
    ⟨hgas, instruction, effect, served, hinstruction, hserve, hstep⟩
  · rw [hstep]
  · rw [hstep]
    rfl
  · rw [hstep, memory_settle, ← hserve]
    apply @image_serve_of_reserved (machine.charge 1) _ hreachable _ _ _ htarget
    · exact fun hrequest => haround ⟨hgas, instruction, hinstruction, hrequest⟩
    · exact fun kind address width hrange => (width_mem hrange).2

/-- A step that does not reach around the top of the address space spares the
reserved zone. -/
theorem spares_of_not_reachesAround (haround : ¬ machine.ReachesAround program) :
    machine.Spares AgreesAbove SparseMemory.image program := by
  intro other hrelated
  constructor
  · apply step_alike_of_serve hrelated
    intro instruction hgas hinstruction
    apply serve_agrees hrelated.charge
    exact fun hrequest => haround ⟨hgas, instruction, hinstruction, hrequest⟩
  · intro address haddress
    apply image_step_of_reserved hrelated.memory.rightReachable _ haddress
    rintro ⟨hgas, instruction, hinstruction, hrequest⟩
    rw [hrelated.request_eq, ← hrelated.memory.flat.access] at hrequest
    exact haround ⟨hrelated.gas ▸ hgas, instruction, hrelated.pc ▸ hinstruction, hrequest⟩

end Machine

/-! ## Accesses around the top -/

/-- Different bytes are loaded as different words. -/
theorem Machine.eq_of_wordOf_eq {left right : ByteArray} {width : Nat} {signed : Bool}
    (hwidth : width ∈ [1, 2, 4, 8]) (hleft : left.size = width) (hright : right.size = width)
    (hword : wordOf left width signed = wordOf right width signed) : left = right := by
  have hlengthLeft : left.data.toList.length = width := hleft
  have hlengthRight : right.data.toList.length = width := hright
  have hshort : width ≤ 8 := by
    simp only [List.mem_cons, List.not_mem_nil, or_false] at hwidth
    omega
  apply ByteArray.ext
  apply Array.toList_inj.mp
  apply LittleEndian.eq_of_decode_eq (hlengthLeft.trans hlengthRight.symm) (hlengthLeft ▸ hshort)
  simp only [wordOf] at hword
  split at hword
  · next hsigned =>
      have hnarrow : width ∈ [1, 2, 4] := by
        simp only [Bool.and_eq_true, bne_iff_ne, List.mem_cons, List.not_mem_nil,
          or_false] at hsigned hwidth ⊢
        omega
      apply Word.eq_of_signExtendLow_eq hnarrow _ _ hword
      · rw [LittleEndian.toNat_decode (hlengthLeft ▸ hshort), ← hlengthLeft]
        exact LittleEndian.toNat_lt _
      · rw [LittleEndian.toNat_decode (hlengthRight ▸ hshort), ← hlengthRight]
        exact LittleEndian.toNat_lt _
  · exact hword

theorem AddressSpace.add_size_sub (address : UInt32) :
    address + UInt32.ofNat (size - address.toNat) = 0 := by
  apply UInt32.toNat_inj.mp
  have haddress : address.toNat ≤ size := address.toNat_lt.le
  rw [toNat_add_ofNat, Nat.add_sub_cancel' haddress, Nat.mod_self]
  rfl

theorem AddressSpace.size_sub_lt {address : UInt32} {width : Nat}
    (hend : size < address.toNat + width) : size - address.toNat < width := by
  have haddress : address.toNat < size := address.toNat_lt
  omega

/-- Bytes that are stored around the top go on at the bottom. -/
theorem Image.store_zero (image : Image) {address : UInt32} {bytes : ByteArray}
    (hend : size < address.toNat + bytes.size) (hsize : bytes.size ≤ size) :
    image.store address bytes 0 = Bytes.byteAt bytes (size - address.toNat) := by
  have hback : (0 - address).toNat = size - address.toNat := by
    rw [toNat_sub]
    exact Nat.mod_eq_of_lt (Nat.sub_lt (by decide) (by omega))
  rw [store, hback, if_pos (size_sub_lt hend)]

namespace SparseMemory

variable {memory : SparseMemory}

/-- The memory with another byte at the lowest address, whose page has this access. -/
def withFirstByte (memory : SparseMemory) (access : PageAccess) (value : UInt8) : SparseMemory :=
  memory.reopened 0 1 access 0 [value].toByteArray

theorem reachable_withFirstByte (hreachable : memory.Reachable) (access : PageAccess)
    (value : UInt8) : (memory.withFirstByte access value).Reachable :=
  hreachable.reopened 0 1 access 0 [value].toByteArray

theorem flatten_withFirstByte (hreachable : memory.Reachable) {access : PageAccess}
    (haccess : memory.flatten.access 0 = some access) (value : UInt8) :
    (memory.withFirstByte access value).flatten =
      ⟨memory.image.store 0 [value].toByteArray, memory.flatten.access⟩ := by
  have hpage : ∀ address, FlatMemory.inPages 0 1 address = true →
      memory.flatten.access address = some access := by
    intro address hinside
    rw [FlatMemory.inPages_iff] at hinside
    have hfirst : pageOf address = pageOf 0 := Nat.lt_one_iff.mp hinside.2
    rw [← haccess]
    exact congrArg memory.pageMap.table.get hfirst
  have hinside : ∀ offset < [value].toByteArray.size,
      FlatMemory.inPages 0 1 (0 + UInt32.ofNat offset) = true := by
    intro offset hoffset
    obtain rfl : offset = 0 := Nat.lt_one_iff.mp hoffset
    rfl
  exact hreachable.flatten_reopened (by decide) hpage (by simp [size]) hinside

theorem agreesAbove_withFirstByte (hreachable : memory.Reachable) {access : PageAccess}
    (haccess : memory.flatten.access 0 = some access) (value : UInt8) :
    memory.AgreesAbove (memory.withFirstByte access value) where
  leftReachable := hreachable
  rightReachable := reachable_withFirstByte hreachable access value
  flat := by
    rw [flatten_withFirstByte hreachable haccess]
    refine ⟨rfl, fun target htarget => ?_⟩
    have habove : ¬ (target - 0).toNat < [value].toByteArray.size := by
      rw [Machine.isReserved_eq_false_iff] at htarget
      simp only [UInt32.sub_zero, List.size_toByteArray, List.length_singleton, zoneSize] at *
      omega
    exact (if_neg habove).symm

theorem image_withFirstByte (hreachable : memory.Reachable) {access : PageAccess}
    (haccess : memory.flatten.access 0 = some access) (value : UInt8) :
    (memory.withFirstByte access value).image 0 = value :=
  congrArg (fun flat => flat.image 0) (flatten_withFirstByte hreachable haccess value)

end SparseMemory

namespace Machine

variable {machine : Machine SparseMemory} {program : Program} {instruction : Instruction}

open SparseMemory (AgreesAbove)

def withFirstByte (machine : Machine SparseMemory) (access : PageAccess) (value : UInt8) :
    Machine SparseMemory :=
  { machine with memory := machine.memory.withFirstByte access value }

theorem related_withFirstByte (hreachable : machine.memory.Reachable) {access : PageAccess}
    (haccess : machine.memory.flatten.access 0 = some access) (value : UInt8) :
    Related AgreesAbove machine (machine.withFirstByte access value) :=
  ⟨rfl, rfl, rfl, SparseMemory.agreesAbove_withFirstByte hreachable haccess value⟩

theorem load_of_verdict (hreachable : machine.memory.Reachable) {address : UInt32} {width : Nat}
    (haddress : isReserved address = false)
    (hverdict : AccessKind.read.verdict machine.memory.flatten.access address width = .ok ()) :
    (machine.load address width).1 = .ok (machine.memory.image.contents address width) := by
  obtain ⟨after, hread, -⟩ := hreachable.readInto_eq address (Bytes.zeros width)
  rw [FlatMemory.readInto, Bytes.size_zeros, hverdict] at hread
  simp only [load, haddress, hread]
  rfl

/-- A step that loads leaves the word in its register. -/
theorem registers_step_of_load (hgas : machine.gas.exhausted = false)
    (hinstruction : program.instructionAt machine.pc = .ok instruction)
    {target : Reg} {address : UInt32} {width : Nat} {signed : Bool}
    (hrequest : machine.request program instruction = .load target address width signed)
    {bytes : ByteArray} (hload : ((machine.charge 1).load address width).1 = .ok bytes) :
    (machine.step program).2.registers =
      machine.registers.set target (wordOf bytes width signed) := by
  obtain ⟨memory, hframe⟩ := (machine.charge 1).load_frame address width
  have hloaded : (machine.charge 1).load address width = (.ok bytes, _) := Prod.ext hload hframe
  rw [step_of_instruction hgas hinstruction, hrequest, serve, loadWord, hloaded]
  rfl

/-- A step that stores where it may leaves the bytes in the memory. -/
theorem image_step_of_store (hreachable : machine.memory.Reachable)
    (hgas : machine.gas.exhausted = false)
    (hinstruction : program.instructionAt machine.pc = .ok instruction)
    {address : UInt32} {value : UInt64} {width : Nat}
    (hrequest : machine.request program instruction = .store address value width)
    (haddress : isReserved address = false)
    (hverdict : AccessKind.write.verdict machine.memory.flatten.access address
      (LittleEndian.encode value width).toByteArray.size = .ok ()) :
    (machine.step program).2.memory.image =
      machine.memory.image.store address (LittleEndian.encode value width).toByteArray := by
  have hflat := (hreachable.write_eq address (LittleEndian.encode value width).toByteArray).2
  rw [FlatMemory.write, hverdict] at hflat
  rw [step_of_instruction hgas hinstruction, memory_settle, hrequest, serve, memory_storeWord,
    memory_store haddress, ← SparseMemory.image_flatten]
  exact congrArg FlatMemory.image hflat

section Around

variable (hreachable : machine.memory.Reachable) (hgas : machine.gas.exhausted = false)
variable (hinstruction : program.instructionAt machine.pc = .ok instruction)
include hreachable hgas hinstruction

/-- A load around the top depends on the byte at the bottom: the words that are
loaded with two different bytes there are different. -/
theorem not_spares_of_load {target : Reg} {address : UInt32} {width : Nat} {signed : Bool}
    (hrequest : machine.request program instruction = .load target address width signed)
    (haddress : isReserved address = false) (hwidth : width ∈ [1, 2, 4, 8])
    (hend : size < address.toNat + width) {access : PageAccess}
    (haccess : machine.memory.flatten.access 0 = some access)
    (hverdict : AccessKind.read.verdict machine.memory.flatten.access address width = .ok ()) :
    ¬ machine.Spares AgreesAbove SparseMemory.image program := by
  intro hspares
  have hregisters : ∀ value, (machine.step program).2.registers =
      machine.registers.set target
        (wordOf ((machine.withFirstByte access value).memory.image.contents address width)
          width signed) := by
    intro value
    have hrelated := related_withFirstByte hreachable haccess value
    obtain ⟨outcome, after, otherAfter, hstep, hother, hafter⟩ := (hspares _ hrelated).1
    rw [hrelated.memory.flat.access] at hverdict
    have hload := @load_of_verdict ((machine.withFirstByte access value).charge 1)
      hrelated.memory.rightReachable _ _ haddress hverdict
    have hset := @registers_step_of_load (machine.withFirstByte access value) program
      instruction hgas hinstruction _ _ _ _ hrequest _ hload
    rw [hother] at hset
    rw [hstep]
    exact hafter.registers.trans hset
  have hword := congrArg (Registers.get · target) ((hregisters 0).symm.trans (hregisters 1))
  simp only [Registers.get_set_self] at hword
  have hbytes := eq_of_wordOf_eq hwidth (Image.size_contents _ _ _) (Image.size_contents _ _ _)
    hword
  have hbyte := congrArg (Bytes.byteAt · (size - address.toNat)) hbytes
  simp only [Image.byteAt_contents _ _ (size_sub_lt hend), add_size_sub] at hbyte
  have hzero := SparseMemory.image_withFirstByte hreachable haccess 0
  have hone := SparseMemory.image_withFirstByte hreachable haccess 1
  exact absurd (hzero.symm.trans (hbyte.trans hone)) (by decide)

/-- A store around the top changes the byte at the bottom, unless that byte was what
is stored. -/
theorem not_spares_of_store {address : UInt32} {value : UInt64} {width : Nat}
    (hrequest : machine.request program instruction = .store address value width)
    (haddress : isReserved address = false) (hwidth : width ≤ 8)
    (hend : size < address.toNat + width) {access : PageAccess}
    (haccess : machine.memory.flatten.access 0 = some access)
    (hverdict : AccessKind.write.verdict machine.memory.flatten.access address width =
      .ok ()) :
    ¬ machine.Spares AgreesAbove SparseMemory.image program := by
  intro hspares
  have hsize : (LittleEndian.encode value width).toByteArray.size = width := by
    rw [LittleEndian.size_encode, min_eq_left hwidth]
  rw [← hsize] at hend hwidth hverdict
  have hbottom := fun image : Image => image.store_zero hend (hwidth.trans (by decide))
  generalize Bytes.byteAt (LittleEndian.encode value width).toByteArray
    (size - address.toNat) = byte at hbottom
  have hrelated := related_withFirstByte hreachable haccess (byte + 1)
  rw [hrelated.memory.flat.access] at hverdict
  have himage := @image_step_of_store (machine.withFirstByte access (byte + 1)) program
    instruction hrelated.memory.rightReachable hgas hinstruction _ _ _ hrequest haddress hverdict
  have hkept := (hspares _ hrelated).2 0 rfl
  have hfirst := SparseMemory.image_withFirstByte hreachable haccess (byte + 1)
  have hsame : byte = byte + 1 :=
    calc byte
      _ = (machine.withFirstByte access (byte + 1)).memory.image.store address _ 0 :=
        (hbottom _).symm
      _ = ((machine.withFirstByte access (byte + 1)).step program).2.memory.image 0 :=
        (congrFun himage 0).symm
      _ = byte + 1 := hkept.trans hfirst
  simp at hsame

end Around

/-- A step spares the reserved zone unless it reaches around the top of the address
space. -/
theorem spares_iff (hreachable : machine.memory.Reachable) :
    machine.Spares AgreesAbove SparseMemory.image program ↔ ¬ machine.ReachesAround program := by
  refine ⟨?_, spares_of_not_reachesAround⟩
  rintro hspares ⟨hgas, instruction, hinstruction, kind, address, width, hrange, hend, hverdict⟩
  have hmem := Request.width_mem hrange
  have hwidth := (width_mem hrange).2
  have haddress : isReserved address = false := by
    rw [isReserved_eq_false_iff]
    simp only [zoneSize, size] at *
    omega
  have hbottom := (AccessKind.verdict_eq_ok_iff.mp hverdict).2 _ (size_sub_lt hend)
  rw [add_size_sub] at hbottom
  obtain ⟨access, haccess⟩ : ∃ access, machine.memory.flatten.access 0 = some access := by
    cases hnone : machine.memory.flatten.access 0 with
    | none =>
        rw [hnone] at hbottom
        cases kind <;> cases hbottom
    | some access => exact ⟨access, rfl⟩
  cases hrequest : machine.request program instruction with
  | finish effect registers =>
      rw [hrequest] at hrange
      cases hrange
  | grow target increment =>
      rw [hrequest] at hrange
      cases hrange
  | load target address width signed =>
      rw [hrequest] at hrange
      cases hrange
      exact not_spares_of_load hreachable hgas hinstruction hrequest haddress hmem hend haccess
        hverdict hspares
  | store address value width =>
      rw [hrequest] at hrange
      cases hrange
      exact not_spares_of_store hreachable hgas hinstruction hrequest haddress hwidth hend
        haccess hverdict hspares

end Machine

/-! ## Zoned memories -/

namespace ZonedMemory

/-- Memories that are the same but for the bytes of their zones that lie in the
reserved zone. -/
structure AgreesAbove (left right : ZonedMemory) : Prop where
  table : left.pageMap.table = right.pageMap.table
  heapEnd : left.heapEnd = right.heapEnd
  start : ∀ region, (left.zone region).start = (right.zone region).start
  stop : ∀ region, (left.zone region).stop = (right.zone region).stop
  size : ∀ region, (left.zone region).data.size = (right.zone region).data.size
  byte : ∀ region index, zoneSize ≤ (left.zone region).start.toNat + index →
    Bytes.byteAt (left.zone region).data index = Bytes.byteAt (right.zone region).data index

/-- No zone of the memory starts in the reserved zone. -/
def LiesAbove (memory : ZonedMemory) : Prop :=
  ∀ region, zoneSize ≤ (memory.zone region).start.toNat

variable {memory left right : ZonedMemory}

theorem SameButCache.agreesAbove (hsame : left.SameButCache right) : left.AgreesAbove right where
  table := hsame.table
  heapEnd := hsame.heapEnd
  start region := by rw [hsame.zone]
  stop region := by rw [hsame.zone]
  size region := by rw [hsame.zone]
  byte region index _ := by rw [hsame.zone]

theorem AgreesAbove.sameButCache (hagrees : left.AgreesAbove right) (habove : left.LiesAbove) :
    left.SameButCache right where
  table := hagrees.table
  heapEnd := hagrees.heapEnd
  zone region := by
    have hdata : (left.zone region).data = (right.zone region).data := by
      apply Bytes.ext_byteAt (hagrees.size region)
      intro index _
      exact hagrees.byte region index ((habove region).trans (Nat.le_add_right _ _))
    have hzone : Zone.mk _ _ _ = Zone.mk _ _ _ :=
      congr (congr (congrArg Zone.mk (hagrees.start region)) (hagrees.stop region)) hdata
    exact hzone

theorem LiesAbove.image_eq_zero (habove : memory.LiesAbove) {address : UInt32}
    (haddress : Machine.isReserved address = true) : memory.image address = 0 := by
  have houtside : memory.regionAt? address = none := by
    apply List.find?_eq_none.mpr
    intro region _ hcontains
    have hstart := (habove region).trans (Zone.contains_iff.mp hcontains).1
    rw [← Machine.isReserved_eq_false_iff, haddress] at hstart
    cases hstart
  rw [image, houtside]

theorem liesAbove_step (program : Program) {machine : Machine ZonedMemory}
    (habove : machine.memory.LiesAbove) : (machine.step program).2.memory.LiesAbove := by
  intro region
  rcases machine.memory_step_cases program with hsame | ⟨address, buffer, hread⟩ |
    ⟨address, bytes, hwrite⟩ | ⟨-, increment, hgrow⟩
  · rw [hsame]
    exact habove region
  · have hinto : (Memory.readInto machine.memory address buffer).memory = _ :=
      machine.memory.memory_readInto address buffer
    rw [hread, hinto]
    exact (machine.memory.sameShape_checkRange .read address buffer.size).start region ▸
      habove region
  · rw [hwrite]
    exact (machine.memory.sameShape_write address bytes).start region ▸ habove region
  · rw [hgrow]
    exact (machine.memory.zone_grow_start increment region) ▸ habove region

theorem Fits.zoneSize_le_startOf {standard : StandardProgram} {argument : ByteArray}
    (hfits : Fits standard argument) (region : Region) : zoneSize ≤ startOf standard region := by
  have horder := hfits.order
  have hfirst : zoneSize = startOf standard .readOnly := rfl
  cases region <;> omega

/-- In a memory without bytes in the reserved zone, every step spares that zone. -/
theorem LiesAbove.spares {machine : Machine ZonedMemory} (habove : machine.memory.LiesAbove)
    (program : Program) : machine.Spares AgreesAbove image program := by
  intro other hrelated
  have hother : other.memory.LiesAbove := by
    intro region
    rw [← hrelated.memory.start]
    exact habove region
  constructor
  · obtain ⟨outcome, after, otherAfter, hstep, hotherStep, hafter⟩ :=
      Machine.step_alike simulates_sameButCache program
        ⟨hrelated.pc, hrelated.registers, hrelated.gas, hrelated.memory.sameButCache habove⟩
    exact ⟨outcome, after, otherAfter, hstep, hotherStep, hafter.pc, hafter.registers,
      hafter.gas, hafter.memory.agreesAbove⟩
  · intro address haddress
    rw [(liesAbove_step program hother).image_eq_zero haddress, hother.image_eq_zero haddress]

end ZonedMemory

/-! ## Which steps spare the reserved zone -/

/-- A step on a sparse memory that operations lead to spares the reserved zone, with
whatever access its pages have, exactly if it does not reach around the top of the
address space: neither are its bytes written, nor does anything that the step does
depend on them.  On a zoned memory that operations lead to from one that was laid out
for a standard program, every step spares it. -/
theorem spares_reserved_zone_iff (program : Program) :
    (∀ machine : Machine SparseMemory, machine.memory.Reachable →
      (machine.Spares SparseMemory.AgreesAbove SparseMemory.image program ↔
        ¬ machine.ReachesAround program)) ∧
    ∀ (standard : StandardProgram) (argument : ByteArray) (capacity : Nat)
      (start : ZonedMemory) (stored : Stored) (machine : Machine ZonedMemory),
      ZonedMemory.initial? standard argument (.empty capacity) = some (.ok start) →
      ZonedMemory.Reached start (ZonedMemory.loaded standard argument) machine.memory stored →
        machine.Spares ZonedMemory.AgreesAbove ZonedMemory.image program := by
  constructor
  · intro machine hreachable
    exact Machine.spares_iff hreachable
  · intro standard argument capacity start stored machine hinitial hreached
    obtain ⟨hfits, rfl⟩ := ZonedMemory.fits_of_initial? hinitial
    have hstart : (ZonedMemory.layOut standard argument (.empty capacity)).Placed standard :=
      ⟨hfits.inStep fun _ => PageTable.get_empty _, hfits.start_zone _⟩
    have hplaced := (hreached.isolated hstart).1
    apply ZonedMemory.LiesAbove.spares
    intro region
    rw [hplaced.start]
    exact hfits.zoneSize_le_startOf region

/-- A program that stores two bytes at the top of the address space. -/
def topStore : Program :=
  .ofImage ⟨ByteArray.empty, 0, 0, [31, 1, 0xFF, 1, 2].toByteArray, [1].toByteArray⟩

/-- A machine whose first and last page can be written. -/
def topStoreSparse : Machine SparseMemory :=
  ⟨0, Registers.zero, ⟨5⟩,
    (SparseMemory.setPages ⟨.empty 8, []⟩ 0 1 .zeroReadWrite).setPages 0xFFFFF 1 .zeroReadWrite⟩

def topStoreZoned : Machine ZonedMemory :=
  ⟨0, Registers.zero, ⟨5⟩,
    ZonedMemory.layOut ZonedMemory.dataProgram [1, 2, 3].toByteArray (.empty 8)⟩

theorem topStore_spares_iff :
    (topStoreSparse.memory.Reachable ∧ topStoreSparse.ReachesAround topStore ∧
      ¬ topStoreSparse.Spares SparseMemory.AgreesAbove SparseMemory.image topStore) ∧
    ZonedMemory.initial? ZonedMemory.dataProgram [1, 2, 3].toByteArray (.empty 8) =
      some (.ok topStoreZoned.memory) ∧
    topStoreZoned.Spares ZonedMemory.AgreesAbove ZonedMemory.image topStore := by
  have hreachable : topStoreSparse.memory.Reachable :=
    ((SparseMemory.Reachable.start _).setPages _ _ _).setPages _ _ _
  have haround : topStoreSparse.ReachesAround topStore := by
    refine ⟨rfl, ⟨.storeImmU16, .immImm 0xFFFFFFFF 0x0201⟩, by cbv, .write, 0xFFFFFFFF, 2, rfl,
      by decide, ?_⟩
    cbv
  have hfits : ZonedMemory.Fits ZonedMemory.dataProgram [1, 2, 3].toByteArray :=
    ⟨by decide, by decide⟩
  have hinitial : ZonedMemory.initial? ZonedMemory.dataProgram [1, 2, 3].toByteArray (.empty 8) =
      some (.ok topStoreZoned.memory) := hfits.initial?_eq (.empty 8)
  obtain ⟨hsparse, hzoned⟩ := spares_reserved_zone_iff topStore
  exact ⟨⟨hreachable, haround, fun hspares => (hsparse _ hreachable).mp hspares haround⟩,
    hinitial, hzoned _ _ _ _ _ _ hinitial .start⟩

/-- The second of the two bytes is written in the reserved zone. -/
theorem topStore_writes_reserved_byte :
    Machine.isReserved 0 = true ∧ topStoreSparse.memory.image 0 = 0 ∧
      (topStoreSparse.step topStore).1 = .running ∧
      (topStoreSparse.step topStore).2.memory.image 0 = 2 := by
  have hbefore : topStoreSparse.memory.image 0 = 0 := by cbv
  have hstep : (topStoreSparse.step topStore).1 = .running := by cbv
  have hafter : (topStoreSparse.step topStore).2.memory.image 0 = 2 := by cbv
  exact ⟨rfl, hbefore, hstep, hafter⟩

end GasMachine
