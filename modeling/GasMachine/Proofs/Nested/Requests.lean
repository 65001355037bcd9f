import GasMachine.Nested.Registry
import GasMachine.Proofs.Machine.AtomicExits
import GasMachine.Proofs.Memory.GapSearch

/-!
# Requests to a nested machine

What can be asked of a machine that a host keeps is done to that machine alone, so
it is described here without the registry.  No answer shows which access checks the
memory of a machine remembers, and a request that is refused changes nothing else.
-/

namespace GasMachine

/-! ## Sparse memories that differ in their cache -/

namespace PageMap

variable {left right : PageMap} (htable : left.table = right.table)
include htable

theorem isPageReadable_congr (page : Nat) :
    left.isPageReadable page = right.isPageReadable page := by
  rw [isPageReadable, isPageReadable, access, access, htable]

theorem allMapped_congr (page count : Nat) :
    left.allMapped page count = right.allMapped page count := by
  induction count generalizing page with
  | zero => rfl
  | succ count ih => rw [allMapped, allMapped, isPageReadable_congr htable, ih]

theorem findGap_congr (count start : Nat) :
    left.findGap count start = right.findGap count start := by
  have hgap : left.IsGap count = right.IsGap count := by
    funext page
    rw [IsGap, IsGap, htable]
  have hright := right.firstGap_findGap count start
  rw [← hgap] at hright
  exact (left.firstGap_findGap count start).eq hright

end PageMap

namespace SparseMemory

variable {left right : SparseMemory}

theorem SameButCache.contents_eq (hsame : left.SameButCache right) (address : UInt32)
    (count : Nat) : left.contents address count = right.contents address count := by
  rw [contents, contents, hsame.chunks]

theorem check_alike (hsame : left.SameButCache right) (kind : AccessKind) (address : UInt32)
    (length : UInt64) :
    Alike SameButCache (Memory.check left kind address length)
      (Memory.check right kind address length) := by
  obtain ⟨verdict, leftMap, rightMap, hleft, hright, htable⟩ :=
    PageMap.checkRange_alike hsame.table kind address length.toNat
  refine ⟨verdict, { left with pageMap := leftMap }, { right with pageMap := rightMap },
    ?_, ?_, htable, hsame.chunks⟩
  · exact congrArg (fun checked => (checked.1, { left with pageMap := checked.2 })) hleft
  · exact congrArg (fun checked => (checked.1, { right with pageMap := checked.2 })) hright

theorem readInto_alike (hsame : left.SameButCache right) (address : UInt32)
    (buffer : ByteArray) :
    ∃ result filled leftAfter rightAfter,
      left.readInto address buffer = ⟨result, filled, leftAfter⟩ ∧
      right.readInto address buffer = ⟨result, filled, rightAfter⟩ ∧
      SameButCache leftAfter rightAfter := by
  obtain ⟨verdict, leftMap, rightMap, hleft, hright, htable⟩ :=
    PageMap.checkRange_alike hsame.table .read address buffer.size
  rw [readInto, readInto, hleft, hright]
  cases verdict with
  | error fault => exact ⟨_, _, _, _, rfl, rfl, htable, hsame.chunks⟩
  | ok allowed =>
      dsimp only
      rw [hsame.contents_eq]
      exact ⟨_, _, _, _, rfl, rfl, htable, hsame.chunks⟩

theorem write_alike (hsame : left.SameButCache right) (address : UInt32) (bytes : ByteArray) :
    Alike SameButCache (left.write address bytes) (right.write address bytes) := by
  obtain ⟨verdict, leftMap, rightMap, hleft, hright, htable⟩ :=
    PageMap.checkRange_alike hsame.table .write address bytes.size
  rw [write, write, hleft, hright]
  cases verdict with
  | error fault => exact ⟨_, _, _, rfl, rfl, htable, hsame.chunks⟩
  | ok allowed =>
      dsimp only
      rw [hsame.chunks]
      exact ⟨_, _, _, rfl, rfl, htable, rfl⟩

theorem setPages_sameButCache (hsame : left.SameButCache right) (first count : Nat)
    (mode : PageMode) :
    SameButCache (left.setPages first count mode) (right.setPages first count mode) := by
  constructor
  · exact congrArg (PageTable.assign · first count mode.access) hsame.table
  · dsimp only [setPages]
    rw [hsame.chunks]

theorem grow_alike (hsame : left.SameButCache right) (increment : UInt32) :
    Alike SameButCache (left.grow increment) (right.grow increment) := by
  rw [grow, grow, PageMap.findGap_congr hsame.table]
  split
  · exact ⟨_, _, _, rfl, rfl, hsame⟩
  · refine ⟨_, _, _, rfl, rfl, ?_⟩
    split
    · exact hsame
    · exact ⟨congrArg (PageTable.assign · _ _ _) hsame.table, hsame.chunks⟩

/-- No operation shows what a memory remembers. -/
theorem simulates_sameButCache : Memory.Simulates SameButCache where
  check := check_alike
  readInto := readInto_alike
  write := write_alike
  grow := grow_alike

end SparseMemory

/-- Machines that may differ in the access checks that their memories remember. -/
structure NestedMachine.SameButCache (left right : NestedMachine) : Prop where
  program : left.program = right.program
  memory : left.memory.SameButCache right.memory
  pc : left.pc = right.pc

theorem NestedMachine.SameButCache.refl (machine : NestedMachine) :
    machine.SameButCache machine :=
  ⟨rfl, ⟨rfl, rfl⟩, rfl⟩

inductive NestedRequest where
  | peek (address : UInt32) (length : UInt64)
  | poke (address : UInt32) (bytes : ByteArray)
  | pages (page count : UInt32) (mode : UInt64)
  | invoke (gas : Gas) (registers : Registers)
  | expunge

inductive NestedAnswer where
  | created (id : UInt64)
  | bytes (bytes : ByteArray)
  | done
  | stopped (run : NestedRun)
  | removed (pc : UInt32)

namespace NestedRequest

def serve (machine : NestedMachine) :
    NestedRequest → Except NestedError NestedAnswer × Option NestedMachine
  | .peek address length =>
    let checked := Memory.check machine.memory .read address length
    (match checked.1 with
      | .error fault => .error (.outOfBounds (.notReadable fault))
      | .ok _ => .ok (.bytes (checked.2.contents address length.toNat)),
      some { machine with memory := checked.2 })
  | .poke address bytes =>
    let written := machine.memory.write address bytes
    ((written.1.mapError .outOfBounds).map fun _ => .done,
      some { machine with memory := written.2 })
  | .pages page count mode =>
    match PageMode.ofNumber? mode with
    | none => (.error (.invalidPages mode page count), some machine)
    | some pageMode =>
      if Registry.admitsPages machine.memory page count pageMode then
        (.ok .done,
          some { machine with memory := machine.memory.setPages page.toNat count.toNat pageMode })
      else (.error (.invalidPages mode page count), some machine)
  | .invoke gas registers =>
    let ran := Machine.run machine.program ⟨machine.pc, registers, gas, machine.memory⟩
    let stopped := Registry.afterHostCall machine.program ran.1 ran.2
    (.ok (.stopped ⟨ran.1, stopped.gas, stopped.registers⟩),
      some ⟨machine.program, stopped.memory, stopped.pc⟩)
  | .expunge => (.ok (.removed machine.pc), none)

/-- A request leaves the program of a machine alone. -/
theorem program_of_serve {request : NestedRequest} {machine after : NestedMachine}
    (hserve : (request.serve machine).2 = some after) : after.program = machine.program := by
  cases request with
  | peek address length =>
      obtain rfl := Option.some.inj hserve
      rfl
  | poke address bytes =>
      obtain rfl := Option.some.inj hserve
      rfl
  | pages page count mode =>
      rw [serve] at hserve
      split at hserve
      · obtain rfl := Option.some.inj hserve
        rfl
      · split at hserve
        · obtain rfl := Option.some.inj hserve
          rfl
        · obtain rfl := Option.some.inj hserve
          rfl
  | invoke gas registers =>
      obtain rfl := Option.some.inj hserve
      rfl
  | expunge => cases hserve

/-- A refused request leaves the machine as it was, up to what its memory remembers. -/
theorem sameButCache_of_refused {request : NestedRequest} {machine : NestedMachine}
    {error : NestedError} (hrefused : (request.serve machine).1 = .error error) :
    ∃ after, (request.serve machine).2 = some after ∧ machine.SameButCache after := by
  cases request with
  | peek address length =>
      refine ⟨_, rfl, rfl, ?_, rfl⟩
      exact machine.memory.sameButCache_checkRange .read address length.toNat
  | poke address bytes =>
      rw [serve] at hrefused
      cases hwrite : (machine.memory.write address bytes).1 with
      | ok _ =>
          simp [hwrite, Except.mapError, Except.map] at hrefused
      | error fault =>
          exact ⟨_, rfl, rfl, machine.memory.failsAtomically.write hwrite, rfl⟩
  | pages page count mode =>
      rw [serve] at hrefused ⊢
      cases hmode : PageMode.ofNumber? mode with
      | none => exact ⟨machine, rfl, .refl machine⟩
      | some pageMode =>
          rw [hmode] at hrefused
          dsimp only at hrefused ⊢
          split
          · next hadmits =>
              rw [if_pos hadmits] at hrefused
              cases hrefused
          · exact ⟨machine, rfl, .refl machine⟩
  | invoke gas registers => cases hrefused
  | expunge => cases hrefused

theorem admitsPages_congr {left right : SparseMemory} (hsame : left.SameButCache right)
    (page count : UInt32) (mode : PageMode) :
    Registry.admitsPages left page count mode = Registry.admitsPages right page count mode := by
  rw [Registry.admitsPages, Registry.admitsPages, SparseMemory.pagesMapped,
    SparseMemory.pagesMapped, PageMap.allMapped_congr hsame.table]

theorem afterHostCall_related (program : Program) (stop : Stop)
    {left right : Machine SparseMemory}
    (hrelated : Machine.Related SparseMemory.SameButCache left right) :
    Machine.Related SparseMemory.SameButCache (Registry.afterHostCall program stop left)
      (Registry.afterHostCall program stop right) := by
  unfold Registry.afterHostCall
  split
  · refine ⟨?_, hrelated.registers, hrelated.gas, hrelated.memory⟩
    exact congrArg program.following hrelated.pc
  · exact hrelated

/-- Machines that differ in what their memories remember answer every request alike, and so do
what is left of them. -/
theorem serve_alike (request : NestedRequest) {left right : NestedMachine}
    (hsame : left.SameButCache right) :
    Alike (Option.Rel NestedMachine.SameButCache) (request.serve left)
      (request.serve right) := by
  obtain ⟨program, leftMemory, pc⟩ := left
  obtain ⟨_, rightMemory, _⟩ := right
  obtain ⟨rfl, hmemory, rfl⟩ := hsame
  dsimp only at hmemory
  cases request with
  | peek address length =>
      obtain ⟨verdict, leftAfter, rightAfter, hleft, hright, hafter⟩ :=
        SparseMemory.check_alike hmemory .read address length
      rw [serve, serve]
      dsimp only
      rw [hleft, hright]
      dsimp only
      rw [hafter.contents_eq]
      exact ⟨_, _, _, rfl, rfl, .some ⟨rfl, hafter, rfl⟩⟩
  | poke address bytes =>
      obtain ⟨verdict, leftAfter, rightAfter, hleft, hright, hafter⟩ :=
        SparseMemory.write_alike hmemory address bytes
      rw [serve, serve]
      dsimp only
      rw [hleft, hright]
      exact ⟨_, _, _, rfl, rfl, .some ⟨rfl, hafter, rfl⟩⟩
  | pages page count mode =>
      rw [serve, serve]
      cases PageMode.ofNumber? mode with
      | none => exact ⟨_, _, _, rfl, rfl, .some ⟨rfl, hmemory, rfl⟩⟩
      | some pageMode =>
          dsimp only
          rw [admitsPages_congr hmemory]
          split
          · refine ⟨_, _, _, rfl, rfl, .some ⟨rfl, ?_, rfl⟩⟩
            exact SparseMemory.setPages_sameButCache hmemory _ _ _
          · exact ⟨_, _, _, rfl, rfl, .some ⟨rfl, hmemory, rfl⟩⟩
  | invoke gas registers =>
      have hstart : Machine.Related SparseMemory.SameButCache
          (⟨pc, registers, gas, leftMemory⟩ : Machine SparseMemory)
          ⟨pc, registers, gas, rightMemory⟩ := ⟨rfl, rfl, rfl, hmemory⟩
      obtain ⟨stop, leftAfter, rightAfter, hleft, hright, hafter⟩ :=
        Machine.runFor_alike SparseMemory.simulates_sameButCache program gas.budget hstart
      have hskipped := afterHostCall_related program stop hafter
      rw [serve, serve]
      dsimp only [Machine.run]
      rw [hleft, hright]
      dsimp only
      rw [hskipped.gas, hskipped.registers]
      exact ⟨_, _, _, rfl, rfl, .some ⟨rfl, hskipped.memory, hskipped.pc⟩⟩
  | expunge => exact ⟨_, _, _, rfl, rfl, .none⟩

end NestedRequest

end GasMachine
