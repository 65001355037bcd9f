import Mathlib
import GasMachine.Invocation.Basic
import GasMachine.Proofs.Machine.Rounds
import GasMachine.Proofs.Memory.ZonedContents
import GasMachine.Proofs.Program.BlobLimits

/-!
# When a guest stops its host

A machine on a zoned memory uses it through its operations only, so wherever a
run gets, what the memory holds is known from what was loaded and written.  A
range that the page map lets it read gives the bytes last stored there and zeros
elsewhere, with one exception: a read that starts further on than right behind
the last byte ever stored in its zone stops the host.  Loads and the read of the
output can do that, and nothing else in a run can.
-/

namespace GasMachine

open ZonedMemory

/-- A host that touches the memory through its operations only. -/
def Host.UsesOperations {σ : Type} (host : Host σ ZonedMemory) : Prop :=
  ∀ index state machine stored, ∃ record,
    Reached machine.memory stored (host index state machine).2.2.memory record

/-! ## What a run does to the memory -/

namespace Machine

theorem step_reached (program : Program) (machine : Machine ZonedMemory) (stored : Stored) :
    ∃ record, Reached machine.memory stored (machine.step program).2.memory record := by
  rcases machine.memory_step_cases program with hsame | ⟨address, buffer, hread⟩ |
    ⟨address, bytes, hwrite⟩ | ⟨-, increment, hgrow⟩
  · rw [hsame]
    exact ⟨stored, .start⟩
  · rw [hread]
    exact ⟨stored, Reached.start.read address buffer⟩
  · rw [hwrite]
    cases hresult : (machine.memory.write address bytes).1 with
    | ok written => exact ⟨_, Reached.start.write address bytes hresult⟩
    | error error => exact ⟨stored, Reached.start.refused address bytes hresult⟩
  · rw [hgrow]
    exact ⟨stored, Reached.start.grow increment⟩

section Runs

variable {σ : Type} {host : Host σ ZonedMemory} (hhost : host.UsesOperations)
include hhost

theorem round_reached (program : Program) (state : σ) (machine : Machine ZonedMemory)
    (stored : Stored) :
    ∃ record,
      Reached machine.memory stored (round program host state machine).machine.memory record := by
  obtain ⟨record, hreached⟩ := step_reached program machine stored
  unfold round
  split
  · next hstep =>
      rw [hstep] at hreached
      exact ⟨record, hreached⟩
  · next index after hstep =>
      rw [hstep] at hreached
      obtain ⟨newest, hserved⟩ := hhost index state after record
      split <;> rename_i hcall <;> rw [hcall] at hserved <;>
        exact ⟨newest, hreached.trans hserved⟩
  · next hstep =>
      rw [hstep] at hreached
      exact ⟨record, hreached⟩

variable {program : Program} {machine : Machine ZonedMemory} {stored : Stored}

/-- The memory wherever a run takes a step. -/
theorem visited_reached (fuel : Nat) (state : σ) :
    ∀ later ∈ visited program host fuel state machine,
      ∃ record, Reached machine.memory stored later.memory record := by
  refine visited_induction ?_ fuel state ⟨stored, .start⟩
  rintro state current after next ⟨record, hreached⟩ hround
  obtain ⟨newest, hnewest⟩ := round_reached hhost program state current record
  rw [hround] at hnewest
  exact ⟨newest, hreached.trans hnewest⟩

/-- The memory at the end of a run. -/
theorem runWith_reached (fuel : Nat) (state : σ) :
    ∀ stop after final, runWith program host fuel state machine = some (stop, after, final) →
      ∃ record, Reached machine.memory stored final.memory record := by
  refine runWith_induction ?_ fuel state ⟨stored, .start⟩
  rintro state current ⟨record, hreached⟩
  obtain ⟨newest, hnewest⟩ := round_reached hhost program state current record
  exact ⟨newest, hreached.trans hnewest⟩

end Runs

/-- The memory at the end of a run without a host. -/
theorem runFor_reached (program : Program) (budget : Nat) (machine : Machine ZonedMemory)
    (stored : Stored) :
    ∃ record, Reached machine.memory stored (machine.runFor program budget).2.memory record := by
  induction budget generalizing machine stored with
  | zero => exact ⟨stored, .start⟩
  | succ budget ih =>
      obtain ⟨record, hreached⟩ := step_reached program machine stored
      rw [runFor]
      split
      · next after hstep =>
          rw [hstep] at hreached
          obtain ⟨newest, hnewest⟩ := ih after record
          exact ⟨newest, hreached.trans hnewest⟩
      · next hstep =>
          rw [hstep] at hreached
          exact ⟨record, hreached⟩

end Machine

/-! ## What stops the host -/

namespace Machine

variable {machine : Machine ZonedMemory} {stored : Stored}

theorem load_aborted_iff (hstored : machine.memory.Represents stored) (address : UInt32)
    (width : Nat) :
    (machine.load address width).1 = .error .aborted ↔
      isReserved address = false ∧ machine.memory.ReadsBehind stored address width := by
  have haborted := hstored.readInto_aborted_iff address (Bytes.zeros width)
  rw [Bytes.size_zeros] at haborted
  rw [load]
  cases isReserved address with
  | true => simp
  | false =>
      rw [if_neg Bool.false_ne_true, ← haborted, eq_self, true_and]
      exact Transfer.bytes_eq_error_iff _ _

theorem loadWord_aborted_iff (machine : Machine ZonedMemory) (target : Reg) (address : UInt32)
    (width : Nat) (signed : Bool) :
    (machine.loadWord target address width signed).1 = .stop .aborted ↔
      (machine.load address width).1 = .error .aborted := by
  unfold loadWord
  split <;> rename_i hload <;> rw [hload]
  · exact ⟨nofun, nofun⟩
  · exact ⟨nofun, nofun⟩
  · exact ⟨fun _ => rfl, fun _ => rfl⟩

/-- Of the requests to the memory, only a load can stop the host. -/
theorem serve_aborted_iff (hstored : machine.memory.Represents stored) {request : Request}
    (hrequest : ∀ registers, request ≠ .finish (.stop .aborted) registers) :
    (machine.serve request).1 = .stop .aborted ↔
      ∃ target address width signed, request = .load target address width signed ∧
        isReserved address = false ∧ machine.memory.ReadsBehind stored address width := by
  cases request with
  | finish effect registers =>
      constructor
      · intro haborted
        obtain rfl : effect = .stop .aborted := haborted
        exact absurd rfl (hrequest registers)
      · rintro ⟨_, _, _, _, hload, -⟩
        cases hload
  | load target address width signed =>
      rw [serve, loadWord_aborted_iff, load_aborted_iff hstored]
      constructor
      · exact fun hbehind => ⟨_, _, _, _, rfl, hbehind⟩
      · rintro ⟨_, _, _, _, hload, hbehind⟩
        obtain ⟨rfl, rfl, rfl, rfl⟩ := Request.load.inj hload
        exact hbehind
  | store address value width =>
      constructor
      · intro haborted
        rw [serve, storeWord] at haborted
        split at haborted <;> cases haborted
      · rintro ⟨_, _, _, _, hload, -⟩
        cases hload
  | grow target increment =>
      constructor
      · intro haborted
        rw [serve, growHeap] at haborted
        split at haborted <;> cases haborted
      · rintro ⟨_, _, _, _, hload, -⟩
        cases hload

theorem settle_aborted_iff (program : Program) (pc : UInt32)
    (served : Effect × Machine ZonedMemory) :
    (settle program pc served).1 = .stopped .aborted ↔ served.1 = .stop .aborted := by
  rcases served with ⟨effect, after⟩
  cases effect <;> simp [settle]

/-- The step of a machine is paid for and loads from a range that can be read and
starts behind all that was stored in its zone. -/
def LoadsBehind (machine : Machine ZonedMemory) (program : Program) (stored : Stored) : Prop :=
  machine.gas.exhausted = false ∧
    ∃ instruction target address width signed,
      program.instructionAt machine.pc = .ok instruction ∧
      machine.request program instruction = .load target address width signed ∧
      isReserved address = false ∧ machine.memory.ReadsBehind stored address width

/-- A step stops the host exactly where it loads behind what was stored. -/
theorem step_aborted_iff (hstored : machine.memory.Represents stored) (program : Program) :
    (machine.step program).1 = .stopped .aborted ↔ machine.LoadsBehind program stored := by
  have hcharged : (machine.charge 1).memory.Represents stored := hstored
  constructor
  · intro haborted
    rcases machine.step_cases program with ⟨-, hstep⟩ | ⟨-, error, -, hstep⟩ |
      ⟨hgas, instruction, effect, served, hinstruction, hserve, hstep⟩
    · rw [hstep] at haborted
      cases haborted
    · rw [hstep] at haborted
      cases haborted
    · have hfinish : ∀ registers,
          machine.request program instruction ≠ .finish (.stop .aborted) registers :=
        fun _ hrequest => (Request.leads_of_ofAction hrequest).ne_aborted rfl
      rw [hstep, settle_aborted_iff, ← hserve] at haborted
      obtain ⟨target, address, width, signed, hload, hbehind⟩ :=
        (serve_aborted_iff hcharged hfinish).mp haborted
      exact ⟨hgas, instruction, target, address, width, signed, hinstruction, hload, hbehind⟩
  · rintro ⟨hgas, instruction, target, address, width, signed, hinstruction, hload, hbehind⟩
    rw [step_of_instruction hgas hinstruction, settle_aborted_iff, hload, serve,
      loadWord_aborted_iff]
    exact (load_aborted_iff hcharged address width).mpr hbehind

end Machine

namespace Invocation

/-- The output of a machine is a range that can be read and starts behind all
that was stored in its zone. -/
def OutputBehind (machine : Machine ZonedMemory) (stored : Stored) : Prop :=
  machine.register Reg.dataPointer < 0x100000000 ∧
    machine.memory.ReadsBehind stored (machine.register Reg.dataPointer).toUInt32
      (machine.register Reg.dataSize).toNat

/-- The read of the output stops the host exactly there. -/
theorem readOutput_aborted_iff {machine : Machine ZonedMemory} {stored : Stored}
    (hstored : machine.memory.Represents stored) :
    readOutput machine = .error () ↔ OutputBehind machine stored := by
  have haborted := hstored.read_aborted_iff (machine.register Reg.dataPointer).toUInt32
    (machine.register Reg.dataSize)
  unfold readOutput OutputBehind
  rw [← haborted]
  by_cases hpointer : machine.register Reg.dataPointer < 0x100000000
  · rw [if_pos hpointer]
    split <;> rename_i hread <;> rw [hread]
    · exact ⟨nofun, nofun⟩
    · exact ⟨nofun, nofun⟩
    · exact ⟨fun _ => ⟨hpointer, rfl⟩, fun _ => rfl⟩
  · rw [if_neg hpointer]
    exact ⟨nofun, fun hbehind => absurd hbehind.1 hpointer⟩

/-- A blob that can be parsed is loaded with any argument within the limit. -/
theorem load?_eq_of_parse {blob argument : ByteArray} {standard : StandardProgram}
    (hparse : StandardProgram.parse blob = .ok standard)
    (hargument : argument.size ≤ AddressSpace.argumentLimit) {settings : Settings}
    (hcapacity : settings.cacheCapacity ≤ AccessCache.capacityLimit) :
    load? settings blob argument =
      some (.ok (standard.program,
        ready settings argument (layOut standard argument (.empty settings.cacheCapacity)))) := by
  have hfits := fits_of_footprint_le (StandardProgram.footprint_le_of_parse hparse) hargument
  have hmemory : initialMemory? settings standard argument =
      some (.ok (layOut standard argument (.empty settings.cacheCapacity))) := by
    rw [initialMemory?, PageMap.allocate?, if_pos hcapacity]
    exact hfits.initial?_eq _
  simp only [load?, hparse, hmemory]

end Invocation

/-- When a guest stops its host.  Under settings whose cache the host can address,
every blob that can be parsed is loaded with every argument within the limit.
Wherever a run of any program gets from there, with any host that uses the
operations of the memory, readable ranges read as what was stored in them from
loading on, with zeros where nothing was.  The exception are ranges that start
behind all that was stored in their zone.  A step stops the host exactly if it
loads from such a range, and the read of the output, after any end, exactly if
the output is such a range. -/
theorem host_stops_iff_reads_behind_stored {blob argument : ByteArray}
    {standard : StandardProgram} (hparse : StandardProgram.parse blob = .ok standard)
    (hargument : argument.size ≤ AddressSpace.argumentLimit) {settings : Settings}
    (hcapacity : settings.cacheCapacity ≤ AccessCache.capacityLimit) {σ : Type}
    {host : Host σ ZonedMemory} (hhost : host.UsesOperations) (program : Program)
    (fuel : Nat) (state : σ) :
    ∃ machine,
      Invocation.load? settings blob argument = some (.ok (standard.program, machine)) ∧
      (∀ later ∈ Machine.visited program host fuel state machine,
        ∃ stored, Reached machine.memory (loaded standard argument) later.memory stored ∧
          later.memory.ReadsAsStored stored ∧
          ((later.step program).1 = .stopped .aborted ↔ later.LoadsBehind program stored)) ∧
      ∀ final,
        (∃ stop after,
            Machine.runWith program host fuel state machine = some (stop, after, final)) ∨
          (machine.run program).2 = final →
        ∃ stored, Reached machine.memory (loaded standard argument) final.memory stored ∧
          final.memory.ReadsAsStored stored ∧
          (Invocation.readOutput final = .error () ↔
            Invocation.OutputBehind final stored) := by
  have hfits := fits_of_footprint_le (StandardProgram.footprint_le_of_parse hparse) hargument
  have hstart : (layOut standard argument (.empty settings.cacheCapacity)).Represents
      (loaded standard argument) := hfits.represents fun _ => PageTable.get_empty _
  refine ⟨_, Invocation.load?_eq_of_parse hparse hargument hcapacity,
    fun later hlater => ?_, fun final hfinal => ?_⟩
  · obtain ⟨stored, hreached⟩ := Machine.visited_reached hhost fuel state later hlater
    have hstored := hreached.represents hstart
    exact ⟨stored, hreached, hstored.readsAsStored, Machine.step_aborted_iff hstored program⟩
  · have hreached : ∃ stored,
        Reached (layOut standard argument (.empty settings.cacheCapacity))
          (loaded standard argument) final.memory stored := by
      rcases hfinal with ⟨stop, after, hrun⟩ | rfl
      · exact Machine.runWith_reached hhost fuel state stop after final hrun
      · exact Machine.runFor_reached program _ (Invocation.ready settings argument _) _
    obtain ⟨stored, hreached⟩ := hreached
    have hstored := hreached.represents hstart
    exact ⟨stored, hreached, hstored.readsAsStored, Invocation.readOutput_aborted_iff hstored⟩

def growingHost : Host Unit ZonedMemory := fun index state machine =>
  (.resume, state, { machine with memory := (machine.memory.grow index).2 })

theorem growingHost_usesOperations : growingHost.UsesOperations :=
  fun index _ _ stored => ⟨stored, Reached.start.grow index⟩

/-- A program with an empty stack that loads the second byte of it. -/
def stackBlob : ByteArray :=
  [0, 0, 0, 0, 0, 0, 0, 0, 0, 16, 0, 12, 0, 0, 0, 0, 0, 8, 52, 2, 1, 240, 253, 254, 50, 0,
    65].toByteArray

def stackProgram : StandardProgram where
  readOnly := ByteArray.empty
  readWrite := ByteArray.empty
  heapPages := 0
  stackSize := 0x1000
  program := .ofImage
    ⟨ByteArray.empty, 0, 0, [52, 2, 1, 240, 253, 254, 50, 0].toByteArray, [65].toByteArray⟩

theorem stackBlob_stops_iff_reads_behind_stored :
    StandardProgram.parse stackBlob = .ok stackProgram ∧
      ByteArray.empty.size ≤ AddressSpace.argumentLimit ∧
      PageMap.defaultCapacity ≤ AccessCache.capacityLimit ∧ growingHost.UsesOperations ∧
      ∃ machine,
        Invocation.load? {} stackBlob ByteArray.empty =
          some (.ok (stackProgram.program, machine)) ∧
        ∃ stored,
          Reached machine.memory (loaded stackProgram ByteArray.empty) machine.memory stored ∧
          machine.memory.ReadsAsStored stored ∧
          ((machine.step stackProgram.program).1 = .stopped .aborted ↔
            machine.LoadsBehind stackProgram.program stored) := by
  have hparse : StandardProgram.parse stackBlob = .ok stackProgram := by cbv
  have hargument : ByteArray.empty.size ≤ AddressSpace.argumentLimit := by decide
  have hcapacity : ({} : Settings).cacheCapacity ≤ AccessCache.capacityLimit := by decide
  obtain ⟨machine, hload, hsteps, -⟩ := host_stops_iff_reads_behind_stored hparse hargument
    hcapacity growingHost_usesOperations stackProgram.program 1 ()
  exact ⟨hparse, hargument, hcapacity, growingHost_usesOperations, machine, hload,
    hsteps machine List.mem_cons_self⟩

/-- That program stops the host, although the byte can be read and was never
written. -/
theorem stackBlob_stops_host :
    invoke { gas := 1000 } stackBlob ByteArray.empty = .ok .aborted := by
  cbv

end GasMachine
