import GasMachine.Proofs.Machine.StoppingPoints
import GasMachine.Proofs.Nested.Operations

/-!
# The memories of nested machines

A machine starts with an empty memory.  From then on its host writes to it and
changes the access of its pages, and its program writes to it and has its heap
grown, in any order.  What holds of an empty memory and survives each of these
operations therefore holds of every memory of a registry, before and after each
request and at every step of every run in between.
-/

namespace GasMachine

/-- A run of the machine comes to the given state, with whatever gas and registers it is run. -/
def NestedMachine.Visits (machine : NestedMachine) (guest : Machine SparseMemory) : Prop :=
  ∃ gas registers,
    Machine.StepsTo machine.program ⟨machine.pc, registers, gas, machine.memory⟩ guest

namespace SparseMemory

/-- A write that is refused changes nothing but what is remembered, and one that is not stores its
bytes, all of which may be written. -/
theorem write_cases (memory : SparseMemory) (address : UInt32) (bytes : ByteArray) :
    memory.SameButCache (memory.write address bytes).2 ∨
      AccessKind.write.verdict memory.pageMap.table.accessAt address bytes.size = .ok () ∧
        (memory.write address bytes).2.pageMap.table = memory.pageMap.table ∧
        (memory.write address bytes).2.chunks = store memory.chunks address bytes := by
  obtain ⟨cache, hsound, hcheck⟩ := memory.pageMap.checkRange_eq .write address bytes.size
  rw [write, hcheck]
  cases AccessKind.write.verdict memory.pageMap.table.accessAt address bytes.size with
  | error fault =>
      dsimp only
      exact .inl ⟨rfl, rfl⟩
  | ok allowed =>
      dsimp only
      exact .inr ⟨rfl, rfl, rfl⟩

theorem table_write (memory : SparseMemory) (address : UInt32) (bytes : ByteArray) :
    (memory.write address bytes).2.pageMap.table = memory.pageMap.table := by
  rcases memory.write_cases address bytes with hsame | ⟨-, htable, -⟩
  · exact hsame.table.symm
  · exact htable

theorem sameButCache_readInto (memory : SparseMemory) (address : UInt32) (buffer : ByteArray) :
    memory.SameButCache (memory.readInto address buffer).memory := by
  have hchecked := memory.sameButCache_checkRange .read address buffer.size
  rw [readInto]
  split <;> rename_i hcheck <;> rwa [hcheck] at hchecked

end SparseMemory

namespace Registry

/-- A property of empty memories that survives whatever a registry does to the memory of a
machine. -/
structure MemoryInvariant (holds : SparseMemory → Prop) : Prop where
  empty : ∀ capacity, holds (.empty capacity)
  remember : ∀ {memory after : SparseMemory}, memory.SameButCache after →
    holds memory → holds after
  write : ∀ {memory : SparseMemory}, holds memory → ∀ address bytes,
    holds (memory.write address bytes).2
  grow : ∀ {memory : SparseMemory}, holds memory → ∀ increment,
    holds (memory.grow increment).2
  setPages : ∀ {memory : SparseMemory} {page count : UInt32} {mode : PageMode}, holds memory →
    admitsPages memory page count mode = true →
      holds (memory.setPages page.toNat count.toNat mode)

theorem admitsPages_iff {memory : SparseMemory} {page count : UInt32} {mode : PageMode} :
    admitsPages memory page count mode = true ↔
      AddressSpace.firstUserPage ≤ page.toNat ∧
        page.toNat + count.toNat ≤ AddressSpace.pageCount ∧
        (mode.keepsContents = true → memory.pagesMapped page.toNat count.toNat = true) := by
  rw [admitsPages]
  cases mode.keepsContents <;> simp [and_assoc]

theorem memory_afterHostCall (program : Program) (stop : Stop) (machine : Machine SparseMemory) :
    (afterHostCall program stop machine).memory = machine.memory := by
  unfold afterHostCall
  split <;> rfl

namespace MemoryInvariant

variable {holds : SparseMemory → Prop} (hinvariant : MemoryInvariant holds)
include hinvariant

theorem step {guest : Machine SparseMemory} (hguest : holds guest.memory) (program : Program) :
    holds (guest.step program).2.memory := by
  rcases guest.memory_step_cases program with hsame | ⟨address, buffer, hread⟩ |
    ⟨address, bytes, hwrite⟩ | ⟨-, increment, hgrow⟩
  · rw [hsame]
    exact hguest
  · rw [hread]
    exact hinvariant.remember (guest.memory.sameButCache_readInto address buffer) hguest
  · rw [hwrite]
    exact hinvariant.write hguest address bytes
  · rw [hgrow]
    exact hinvariant.grow hguest increment

theorem stepsTo {program : Program} {start guest : Machine SparseMemory}
    (hsteps : Machine.StepsTo program start guest) (hstart : holds start.memory) :
    holds guest.memory := by
  induction hsteps with
  | refl => exact hstart
  | tail _ hstep ih =>
      have hafter := hinvariant.step ih program
      rwa [hstep] at hafter

/-- The property survives every request. -/
theorem serve {request : NestedRequest} {machine after : NestedMachine}
    (hmachine : holds machine.memory) (hserve : (request.serve machine).2 = some after) :
    holds after.memory := by
  cases request with
  | peek address length =>
      obtain rfl := Option.some.inj hserve
      exact hinvariant.remember
        (machine.memory.sameButCache_checkRange .read address length.toNat) hmachine
  | poke address bytes =>
      obtain rfl := Option.some.inj hserve
      exact hinvariant.write hmachine address bytes
  | pages page count mode =>
      rw [NestedRequest.serve] at hserve
      split at hserve
      · obtain rfl := Option.some.inj hserve
        exact hmachine
      · split at hserve
        · next hadmits =>
            obtain rfl := Option.some.inj hserve
            exact hinvariant.setPages hmachine hadmits
        · obtain rfl := Option.some.inj hserve
          exact hmachine
  | invoke gas registers =>
      -- A run ends with a step that stops it, and going past a call leaves the memory alone.
      obtain rfl := Option.some.inj hserve
      obtain ⟨last, stop, stopped, hsteps, hlast, hrun⟩ := Machine.exists_stopping_step
        machine.program (⟨machine.pc, registers, gas, machine.memory⟩ : Machine SparseMemory)
      have hstopped := hinvariant.step (hinvariant.stepsTo hsteps hmachine) machine.program
      rw [hlast] at hstopped
      dsimp only
      rw [hrun, memory_afterHostCall]
      exact hstopped
  | expunge => cases hserve

/-- The property holds of the memory of every machine of a registry. -/
theorem memory {registry : Registry} (hreachable : registry.Reachable) {id : UInt64}
    {machine : NestedMachine} (hget : registry.get? id = some machine) : holds machine.memory := by
  have hslot : registry.slot? id.toNat = some machine := hget
  refine hreachable.machine_induction (motive := fun machine => holds machine.memory) ?_ ?_ hslot
  · intro blob program capacity pc _
    exact hinvariant.empty capacity
  · intro request machine after hmachine hserve
    exact hinvariant.serve hmachine hserve

/-- It holds all along the runs of the machine, too. -/
theorem visits {registry : Registry} (hreachable : registry.Reachable) {id : UInt64}
    {machine : NestedMachine} (hget : registry.get? id = some machine)
    {guest : Machine SparseMemory} (hvisits : machine.Visits guest) : holds guest.memory := by
  obtain ⟨gas, registers, hsteps⟩ := hvisits
  exact hinvariant.stepsTo hsteps (hinvariant.memory hreachable hget)

end MemoryInvariant

end Registry

end GasMachine
