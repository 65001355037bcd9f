import Mathlib
import GasMachine.Proofs.Invocation.HostAborts
import GasMachine.Proofs.Machine.GasMetering
import GasMachine.Proofs.Machine.Simulation
import GasMachine.Proofs.Memory.SparseContents
import GasMachine.Proofs.Memory.ZonedRefinement

/-!
# Zoned and sparse memories are interchangeable

The memory of a standard program is made of zones, that of a nested machine of
chunks.  They have rules of their own for growing the heap, and only the zones
have reads that stop the host.  Where neither comes up, a program cannot tell a
zoned memory from a sparse one with the same access and the same bytes, and for
every zoned memory that is loaded there is a sparse one of this kind.
-/

namespace GasMachine

open AddressSpace

/-! ## Agreement where there is access -/

namespace FlatMemory

/-- The same access at every address, and the same byte wherever there is any. -/
structure Agrees (left right : FlatMemory) : Prop where
  access : left.access = right.access
  image : ∀ address, left.access address ≠ none → left.image address = right.image address

namespace Agrees

variable {left right : FlatMemory} (hagrees : left.Agrees right)
include hagrees

theorem contents_eq {kind : AccessKind} {address : UInt32} {length : Nat}
    (hverdict : kind.verdict left.access address length = .ok ()) :
    left.image.contents address length = right.image.contents address length := by
  obtain ⟨-, hallowed⟩ := AccessKind.verdict_eq_ok_iff.mp hverdict
  apply congrArg List.toByteArray
  apply List.map_congr_left
  intro offset hoffset
  apply hagrees.image
  intro hnone
  have hbyte := hallowed offset (List.mem_range.mp hoffset)
  rw [hnone] at hbyte
  cases kind <;> cases hbyte

theorem readInto_eq (address : UInt32) (buffer : ByteArray) :
    left.readInto address buffer = right.readInto address buffer := by
  rw [readInto, readInto, ← hagrees.access]
  cases hverdict : AccessKind.read.verdict left.access address buffer.size with
  | error fault => rfl
  | ok allowed => rw [hagrees.contents_eq hverdict]

theorem read_eq (address : UInt32) (length : UInt64) :
    left.read address length = right.read address length := by
  rw [read, read, ← hagrees.access]
  cases hverdict : AccessKind.read.verdict left.access address length.toNat with
  | error fault => rfl
  | ok allowed => rw [hagrees.contents_eq hverdict]

theorem write (address : UInt32) (bytes : ByteArray) :
    (left.write address bytes).1 = (right.write address bytes).1 ∧
      (left.write address bytes).2.Agrees (right.write address bytes).2 := by
  rw [FlatMemory.write, FlatMemory.write, ← hagrees.access]
  cases AccessKind.write.verdict left.access address bytes.size with
  | error fault => exact ⟨rfl, hagrees⟩
  | ok allowed =>
      refine ⟨rfl, rfl, fun target haccess => ?_⟩
      simp only [Image.store, hagrees.image target haccess]

end Agrees

end FlatMemory

namespace ZonedMemory

/-- A zoned memory and a sparse one that a program cannot tell apart. -/
structure MirroredBy (memory : ZonedMemory) (twin : SparseMemory) : Prop where
  inStep : memory.InStep
  reachable : twin.Reachable
  agrees : memory.flatten.Agrees twin.flatten

namespace MirroredBy

variable {memory : ZonedMemory} {twin : SparseMemory} (hmirrored : memory.MirroredBy twin)
include hmirrored

/-- A read that the zones answer is answered by the chunks in the same way. -/
theorem readInto {address : UInt32} {buffer : ByteArray}
    (hanswers : (memory.readInto address buffer).result ≠ .error .aborted) :
    ∃ result filled after twinAfter,
      Memory.readInto memory address buffer = ⟨result, filled, after⟩ ∧
      Memory.readInto twin address buffer = ⟨result, filled, twinAfter⟩ ∧
      MirroredBy after twinAfter := by
  obtain ⟨hflatten, hinStep⟩ := hmirrored.inStep.memory_readInto address buffer
  obtain ⟨twinAfter, htwin, hreachable, htwinFlatten⟩ :=
    hmirrored.reachable.readInto_eq address buffer
  rw [← hmirrored.agrees.readInto_eq, ← hmirrored.inStep.readInto_eq hanswers] at htwin
  refine ⟨_, _, (memory.readInto address buffer).memory, twinAfter, rfl, htwin, hinStep,
    hreachable, ?_⟩
  rw [hflatten, htwinFlatten]
  exact hmirrored.agrees

theorem read_eq {address : UInt32} {length : UInt64}
    (hanswers : (Memory.read memory address length).1 ≠ .error .aborted) :
    (Memory.read twin address length).1 = (Memory.read memory address length).1 := by
  rw [hmirrored.inStep.read_eq hanswers, (hmirrored.reachable.represents.read address length).1,
    hmirrored.agrees.read_eq]

theorem write (address : UInt32) (bytes : ByteArray) :
    Alike MirroredBy (Memory.write memory address bytes) (Memory.write twin address bytes) := by
  obtain ⟨hresult, hflatten, hinStep⟩ := hmirrored.inStep.write_eq address bytes
  obtain ⟨htwinResult, htwinFlatten⟩ := hmirrored.reachable.write_eq address bytes
  obtain ⟨hsame, hagrees⟩ := hmirrored.agrees.write address bytes
  apply Alike.of_eq
  · exact hresult.trans (hsame.trans htwinResult.symm)
  · refine ⟨hinStep, hmirrored.reachable.write address bytes, ?_⟩
    rw [htwinFlatten]
    exact hflatten ▸ hagrees

end MirroredBy

end ZonedMemory

/-! ## Steps and runs -/

namespace Machine

open ZonedMemory (MirroredBy)

variable {left : Machine ZonedMemory} {right : Machine SparseMemory}

/-- A request that neither grows the heap nor stops the host is served alike. -/
theorem serve_mirrored (hrelated : Related MirroredBy left right) {request : Request}
    (hgrows : ∀ target increment, request ≠ .grow target increment)
    (hanswers : (left.serve request).1 ≠ .stop .aborted) :
    Alike (Related MirroredBy) (left.serve request) (right.serve request) := by
  cases request with
  | finish effect registers =>
      exact ⟨effect, _, _, rfl, rfl, hrelated.pc, rfl, hrelated.gas, hrelated.memory⟩
  | load target address width signed =>
      have hload : (left.load address width).1 ≠ .error .aborted :=
        mt (loadWord_aborted_iff left target address width signed).mpr hanswers
      apply loadWord_alike
      apply load_alike_of_readInto hrelated
      intro haddress
      apply hrelated.memory.readInto
      intro haborted
      apply hload
      rw [load, haddress]
      exact (Transfer.bytes_eq_error_iff _ _).mpr haborted
  | store address value width =>
      apply storeWord_alike
      apply store_alike_of_write hrelated
      exact hrelated.memory.write address _
  | grow target increment => exact absurd rfl (hgrows target increment)

theorem step_mirrored {program : Program} (hrelated : Related MirroredBy left right)
    (hgrows : ¬left.GrowsHeap program) (hanswers : (left.step program).1 ≠ .stopped .aborted) :
    Alike (Related MirroredBy) (left.step program) (right.step program) := by
  apply step_alike_of_serve hrelated
  intro instruction hgas hinstruction
  apply serve_mirrored hrelated.charge
  · intro target increment hgrow
    exact hgrows ⟨hgas, instruction, hinstruction, Request.opcode_eq_sbrk hgrow⟩
  · rwa [step_of_instruction hgas hinstruction, Ne, settle_aborted_iff] at hanswers

/-- A run that neither grows the heap nor stops the host ends alike. -/
theorem run_mirrored (program : Program) (left : Machine ZonedMemory) :
    ∀ right, Related MirroredBy left right →
      (∀ attempt ∈ left.attempts program, ¬attempt.GrowsHeap program) →
      (left.run program).1 ≠ .aborted →
        Alike (Related MirroredBy) (left.run program) (right.run program) := by
  induction left using @run_induction ZonedMemory _ program with
  | hstopped left stop final hstep =>
      intro right hrelated hgrows hanswers
      rw [run_of_stopped hstep] at hanswers
      have hattempt : left ∈ left.attempts program := by simp [attempts_of_stopped hstep]
      have hstopped : (left.step program).1 ≠ .stopped .aborted := by
        rw [hstep]
        exact fun haborted => hanswers (Outcome.stopped.inj haborted)
      obtain ⟨outcome, leftAfter, rightAfter, hleft, hright, hafter⟩ :=
        step_mirrored hrelated (hgrows left hattempt) hstopped
      obtain ⟨rfl, rfl⟩ := Prod.mk.inj (hleft.symm.trans hstep)
      rw [run_of_stopped hstep, run_of_stopped hright]
      exact ⟨stop, _, _, rfl, rfl, hafter⟩
  | hrunning left next hstep ih =>
      intro right hrelated hgrows hanswers
      rw [attempts_of_running hstep, List.forall_mem_cons] at hgrows
      rw [run_of_running hstep] at hanswers
      have hrunning : (left.step program).1 ≠ .stopped .aborted := by simp [hstep]
      obtain ⟨outcome, leftAfter, rightAfter, hleft, hright, hafter⟩ :=
        step_mirrored hrelated hgrows.1 hrunning
      obtain ⟨rfl, rfl⟩ := Prod.mk.inj (hleft.symm.trans hstep)
      rw [run_of_running hstep, run_of_running hright]
      exact ih rightAfter hafter hgrows.2 hanswers

end Machine

/-! ## The sparse twin of a loaded memory -/

theorem SparseMemory.flatten_start (map : PageMap) :
    (⟨map, []⟩ : SparseMemory).flatten = ⟨fun _ => 0, map.table.accessAt⟩ :=
  Represents.flatten_eq ⟨List.Pairwise.nil, rfl, fun _ => rfl⟩

namespace ZonedMemory

variable {standard : StandardProgram} {argument : ByteArray} {map : PageMap}

/-- A region is made of whole pages. -/
theorem inPages_region_iff (standard : StandardProgram) (argument : ByteArray) (region : Region)
    (address : UInt32) :
    FlatMemory.inPages (startOf standard region / pageSize)
        (roomOf standard argument region / pageSize) address = true ↔
      startOf standard region ≤ address.toNat ∧
        address.toNat < startOf standard region + roomOf standard argument region := by
  have hstart : startOf standard region / pageSize * pageSize = startOf standard region :=
    Nat.div_mul_cancel (Nat.dvd_of_mod_eq_zero (startOf_mod standard region))
  have hroom : roomOf standard argument region / pageSize * pageSize =
      roomOf standard argument region :=
    Nat.div_mul_cancel (Nat.dvd_of_mod_eq_zero (roomOf_mod standard argument region))
  rw [FlatMemory.inPages, Bool.and_eq_true, decide_eq_true_eq, decide_eq_true_eq, Nat.add_mul,
    hstart, hroom]

/-- What is loaded is stored region by region. -/
theorem image_loaded (standard : StandardProgram) (argument : ByteArray) :
    (loaded standard argument).image =
      [Region.readOnly, .heap, .stack, .argument].foldl (fun (image : Image) region =>
        image.store (UInt32.ofNat (startOf standard region)) (dataOf standard argument region))
          fun _ => 0 := by
  simp only [loaded, List.foldl_cons, List.foldl_nil, Stored.image_store]
  rfl

section Loading

variable (hfits : Fits standard argument) (hmap : ∀ address, map.table.accessAt address = none)
include hfits

theorem Fits.pages_le (region : Region) :
    startOf standard region / pageSize + roomOf standard argument region / pageSize ≤
      pageCount := by
  have hend := hfits.end_lt region
  unfold size at hend
  unfold pageSize pageCount
  omega

/-- The data of a region lies in its pages. -/
theorem Fits.inPages_dataOf (region : Region) {offset : Nat}
    (hoffset : offset < (dataOf standard argument region).size) :
    FlatMemory.inPages (startOf standard region / pageSize)
      (roomOf standard argument region / pageSize)
      (UInt32.ofNat (startOf standard region) + UInt32.ofNat offset) = true := by
  have hend := hfits.end_lt region
  have hroom := size_dataOf_le standard argument region
  have haddress : (UInt32.ofNat (startOf standard region) + UInt32.ofNat offset).toNat =
      startOf standard region + offset := by
    rw [← UInt32.ofNat_add]
    exact UInt32.toNat_ofNat_of_lt' (Nat.lt_of_le_of_lt (by omega) hend)
  rw [inPages_region_iff, haddress]
  omega

include hmap

/-- A sparse memory with the access of a loaded one can be given the data of its
regions. -/
theorem Fits.exists_storing (regions : List Region) {memory : SparseMemory}
    (hreachable : memory.Reachable)
    (haccess : memory.flatten.access = (layOut standard argument map).flatten.access) :
    ∃ after : SparseMemory, after.Reachable ∧
      after.flatten.access = (layOut standard argument map).flatten.access ∧
      after.image = regions.foldl (fun image region =>
        image.store (UInt32.ofNat (startOf standard region)) (dataOf standard argument region))
          memory.image := by
  induction regions generalizing memory with
  | nil => exact ⟨memory, hreachable, haccess, rfl⟩
  | cons region rest ih =>
      -- All pages of a region have one access, so they are opened and closed together.
      have hpages : ∀ address, FlatMemory.inPages (startOf standard region / pageSize)
          (roomOf standard argument region / pageSize) address = true →
            memory.flatten.access address = some region.access := by
        intro address hinside
        rw [haccess]
        apply (hfits.layout hmap).accessAt_of_contains
        rwa [hfits.contains_iff, ← inPages_region_iff]
      have hsize : (dataOf standard argument region).size ≤ size := by
        have hend := hfits.end_lt region
        have hroom := size_dataOf_le standard argument region
        omega
      have hstored := hreachable.flatten_reopened (hfits.pages_le region) hpages hsize
        fun offset hoffset => hfits.inPages_dataOf region hoffset
      obtain ⟨after, hafter, hafterAccess, himage⟩ := ih (hreachable.reopened _ _ _ _ _)
        (by rw [hstored]; exact haccess)
      refine ⟨after, hafter, hafterAccess, ?_⟩
      rw [himage, ← SparseMemory.image_flatten, hstored]
      rfl

/-- Every memory that is loaded has a sparse twin. -/
theorem Fits.exists_mirroredBy :
    ∃ twin, (layOut standard argument map).MirroredBy twin := by
  have hstart := SparseMemory.flatten_start (layOut standard argument map).pageMap
  obtain ⟨twin, hreachable, haccess, himage⟩ := hfits.exists_storing hmap
    [Region.readOnly, .heap, .stack, .argument] (.start (layOut standard argument map).pageMap)
    (by rw [hstart]; rfl)
  have hflatten : (layOut standard argument map).flatten.image = twin.flatten.image := by
    rw [hfits.flatten_layOut hmap, SparseMemory.image_flatten, himage,
      ← SparseMemory.image_flatten, hstart]
    exact image_loaded standard argument
  exact ⟨twin, hfits.inStep hmap, hreachable, haccess.symm, fun address _ =>
    congrFun hflatten address⟩

end Loading

/-- Zoned and sparse memories are interchangeable.  Take the memory that a standard
program, parsed or not, is loaded into with an argument.  There are sparse memories
with the same access and, wherever there is any, the same bytes.  On each of them
every program, from any state, ends as it does on the zoned memory, provided that
there it neither grows the heap nor stops its host: with the same exit, at the same
address if it is a fault, with the same program counter, registers and gas, the same
access and the same bytes wherever there is any.  So what a host reads afterwards is
the same too, unless the read of the zones stops it. -/
theorem memories_are_interchangeable {standard : StandardProgram} {argument : ByteArray}
    {capacity : Nat} {memory : ZonedMemory}
    (hinitial : initial? standard argument (.empty capacity) = some (.ok memory)) :
    (∃ twin : SparseMemory, twin.Reachable ∧ memory.flatten.Agrees twin.flatten) ∧
    ∀ twin : SparseMemory, twin.Reachable → memory.flatten.Agrees twin.flatten →
      ∀ (program : Program) (pc : UInt32) (registers : Registers) (gas : Gas),
        (∀ attempt ∈ Machine.attempts program ⟨pc, registers, gas, memory⟩,
          ¬attempt.GrowsHeap program) →
        (Machine.run program ⟨pc, registers, gas, memory⟩).1 ≠ .aborted →
          ∃ (stop : Stop) (zoned : Machine ZonedMemory) (sparse : Machine SparseMemory),
            Machine.run program ⟨pc, registers, gas, memory⟩ = (stop, zoned) ∧
            Machine.run program ⟨pc, registers, gas, twin⟩ = (stop, sparse) ∧
            sparse.pc = zoned.pc ∧ sparse.registers = zoned.registers ∧ sparse.gas = zoned.gas ∧
            zoned.memory.flatten.Agrees sparse.memory.flatten ∧
            ∀ address length,
              (Memory.read zoned.memory address length).1 ≠ .error .aborted →
                (Memory.read sparse.memory address length).1 =
                  (Memory.read zoned.memory address length).1 := by
  obtain ⟨hfits, rfl⟩ := fits_of_initial? hinitial
  have hmap : ∀ address, (PageMap.empty capacity).table.accessAt address = none :=
    fun address => PageTable.get_empty (pageOf address)
  constructor
  · obtain ⟨twin, hmirrored⟩ := hfits.exists_mirroredBy hmap
    exact ⟨twin, hmirrored.reachable, hmirrored.agrees⟩
  · intro twin hreachable hagrees program pc registers gas hgrows hanswers
    have hmirrored : (layOut standard argument (.empty capacity)).MirroredBy twin :=
      ⟨hfits.inStep hmap, hreachable, hagrees⟩
    obtain ⟨stop, zoned, sparse, hzoned, hsparse, hend⟩ :=
      Machine.run_mirrored program _ ⟨pc, registers, gas, twin⟩ ⟨rfl, rfl, rfl, hmirrored⟩ hgrows
        hanswers
    exact ⟨stop, zoned, sparse, hzoned, hsparse, hend.pc.symm, hend.registers.symm,
      hend.gas.symm, hend.memory.agrees, fun _ _ => hend.memory.read_eq⟩

/-- A program that copies two bytes from the read-only zone to the heap and then
loads a word that starts right below the heap. -/
def copyingProgram : Program :=
  .ofImage ⟨ByteArray.empty, 0, 0,
    [0x36, 2, 0, 0, 1, 0x3C, 2, 0, 0, 3, 0x38, 3, 0xFF, 0xFF, 2].toByteArray,
    [0x21, 4].toByteArray⟩

def copyingStart : Machine ZonedMemory :=
  ⟨0, .zero, ⟨10⟩, layOut dataProgram [1, 2, 3].toByteArray (.empty 8)⟩

theorem copyingProgram_runs_on_sparse_memory :
    initial? dataProgram [1, 2, 3].toByteArray (.empty 8) = some (.ok copyingStart.memory) ∧
      (∀ attempt ∈ copyingStart.attempts copyingProgram, ¬attempt.GrowsHeap copyingProgram) ∧
      (copyingStart.run copyingProgram).1 ≠ .aborted ∧
      ∃ (twin : SparseMemory) (final : Machine SparseMemory),
        twin.Reachable ∧ copyingStart.memory.flatten.Agrees twin.flatten ∧
        Machine.run copyingProgram ⟨0, .zero, ⟨10⟩, twin⟩ =
          (.exit (.pageFault 0x2FFFF), final) ∧
        final.gas = ⟨7⟩ ∧ final.memory.image 0x30001 = 9 := by
  have hfits : Fits dataProgram [1, 2, 3].toByteArray := ⟨by decide, by decide⟩
  have hinitial := hfits.initial?_eq (.empty 8)
  have hgrows : ∀ attempt ∈ copyingStart.attempts copyingProgram,
      ¬attempt.GrowsHeap copyingProgram := by
    decide +kernel
  have hstop : (copyingStart.run copyingProgram).1 = .exit (.pageFault 0x2FFFF) := by cbv
  have hgas : (copyingStart.run copyingProgram).2.gas = ⟨7⟩ := by cbv
  have hbyte : (copyingStart.run copyingProgram).2.memory.image 0x30001 = 9 := by cbv
  have haccess : (copyingStart.run copyingProgram).2.memory.flatten.access 0x30001 =
      some .readWrite := by cbv
  have hanswers : (copyingStart.run copyingProgram).1 ≠ .aborted := by simp [hstop]
  obtain ⟨⟨twin, hreachable, hagrees⟩, hruns⟩ := memories_are_interchangeable hinitial
  obtain ⟨stop, zoned, final, hzoned, hfinal, -, -, hsameGas, hend, -⟩ :=
    hruns twin hreachable hagrees copyingProgram 0 .zero ⟨10⟩ hgrows hanswers
  have hrun : copyingStart.run copyingProgram = (stop, zoned) := hzoned
  rw [hrun] at hstop hgas hbyte haccess
  dsimp only at hstop hgas
  have himage := hend.image 0x30001 (by simp [haccess])
  refine ⟨hinitial, hgrows, hanswers, twin, final, hreachable, hagrees, ?_, ?_, ?_⟩
  · rw [hfinal, hstop]
  · rw [hsameGas, hgas]
  · rw [← SparseMemory.image_flatten, ← himage]
    exact hbyte

end ZonedMemory

end GasMachine
