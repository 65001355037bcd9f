import Mathlib
import GasMachine.Proofs.Machine.StoppingPoints
import GasMachine.Proofs.Nested.Operations

/-!
# Nested machines are isolated

A request reaches the machine that it names and no other, however many there are
and in whatever order requests come.  A creation takes the lowest number that is
free and starts from nothing, whoever had the number before.  What is refused
changes nothing that could be told later.  After a run, a machine goes on from
where it stopped, or past the call on which it stopped.
-/

namespace GasMachine.Registry

variable {registry after : Registry} {id other : UInt64} {machine : NestedMachine}

/-! ## One machine among others -/

/-- A request leaves the machines that it does not name alone. -/
theorem get?_request_of_ne (registry : Registry) (hne : other ≠ id) (request : NestedRequest) :
    (registry.request id request).2.get? other = registry.get? other := by
  rw [request_eq]
  cases registry.get? id with
  | none => rfl
  | some machine => exact registry.get?_replace_of_ne hne _

/-- A creation fills the slot of no machine. -/
theorem get?_insert (registry : Registry) (created : NestedMachine) :
    (registry.insert created).get? other =
      if other.toNat = registry.freeSlot then some created else registry.get? other :=
  registry.slot?_insert created other.toNat

def Operation.Names (id : UInt64) : Operation → Prop
  | .create _ _ => False
  | .request named _ => named = id

/-- A machine that an operation does not name stays as it is. -/
theorem get?_perform {operation : Operation} {answer : Except NestedError NestedAnswer}
    (hperform : registry.perform operation = some (answer, after))
    (hnames : ¬ operation.Names id) (hget : registry.get? id = some machine) :
    after.get? id = some machine := by
  rcases perform_cases hperform with ⟨-, rfl⟩ | ⟨_, _, _, -, -, -, rfl⟩ |
    ⟨named, request, before, rfl, -, -, rfl⟩
  · exact hget
  · have hused : id.toNat ≠ registry.freeSlot := by
      intro hfree
      have hslot : registry.slot? id.toNat = some machine := hget
      rw [hfree, slot?_freeSlot] at hslot
      cases hslot
    rw [get?_insert, if_neg hused]
    exact hget
  · rw [registry.get?_replace_of_ne (Ne.symm hnames)]
    exact hget

/-- A machine that none of the operations name stays as it is. -/
theorem get?_performAll {operations : List Operation}
    (hperform : (registry.performAll operations).2 = some after)
    (hnames : ∀ operation ∈ operations, ¬ operation.Names id)
    (hget : registry.get? id = some machine) : after.get? id = some machine := by
  induction operations generalizing registry with
  | nil =>
      cases hperform
      exact hget
  | cons operation rest ih =>
      obtain ⟨hfirst, hrest⟩ := List.forall_mem_cons.mp hnames
      rw [performAll] at hperform
      split at hperform
      · cases hperform
      · next answer next hdone =>
          exact ih hperform hrest (get?_perform hdone hfirst hget)

/-! ## Creation and removal -/

/-- The number is free, and all numbers below it are in use. -/
def LeastFree (registry : Registry) (id : UInt64) : Prop :=
  registry.get? id = none ∧ ∀ lower < id, registry.get? lower ≠ none

theorem leastFree_freeSlot (hroom : ∃ id, registry.get? id = none) :
    registry.LeastFree (UInt64.ofNat registry.freeSlot) := by
  have hfree := toNat_freeSlot hroom
  constructor
  · show registry.slot? (UInt64.ofNat registry.freeSlot).toNat = none
    rw [hfree]
    exact registry.slot?_freeSlot
  · intro lower hlower
    apply slot?_of_lt_freeSlot
    rw [← hfree]
    exact UInt64.lt_iff_toNat_lt.mp hlower

/-- A creation adds one machine, with the lowest free number. -/
theorem exists_create {blob : ByteArray} {program : Program}
    (hparse : Program.parse blob = .ok program) (pc : UInt32)
    (hcapacity : registry.cacheCapacity ≤ AccessCache.capacityLimit)
    (hroom : ∃ id, registry.get? id = none) :
    ∃ id after, registry.create? blob pc = some (.ok id, after) ∧ registry.LeastFree id ∧
      ∀ other, after.get? other =
        if other = id then some ⟨program, .empty registry.cacheCapacity, pc⟩
        else registry.get? other := by
  refine ⟨UInt64.ofNat registry.freeSlot,
    registry.insert ⟨program, .empty registry.cacheCapacity, pc⟩, ?_,
    leastFree_freeSlot hroom, fun other => ?_⟩
  · rw [create?_of_ok hparse, if_pos hcapacity]
  · rw [get?_insert]
    simp only [← UInt64.toNat_inj, toNat_freeSlot hroom]

theorem expunge_of_get? (hget : registry.get? id = some machine) :
    registry.expunge id = (.ok machine.pc, registry.replace id none) := by
  rw [expunge, hget]

/-! ## Runs -/

/-- Where a machine goes on after the step of `last` that stopped it: past the instruction, if that
called the host, and else where it stands. -/
def ResumesAt (program : Program) (last : Machine SparseMemory) (reason : Exit) (pc : UInt32) :
    Prop :=
  (∃ index, reason = .hostCall index ∧
      program.instructionAt last.pc = .ok ⟨.ecalli, .imm index⟩ ∧
      pc.toNat = last.pc.toNat + (program.skip last.pc).toNat + 1) ∨
    (∀ index, reason ≠ .hostCall index) ∧ pc = last.pc

theorem afterHostCall_of_ne {reason : Exit} (hreason : ∀ index, reason ≠ .hostCall index)
    (program : Program) (stopped : Machine SparseMemory) :
    afterHostCall program (.exit reason) stopped = stopped := by
  unfold afterHostCall
  split
  · next index hcall => exact absurd (Stop.exit.inj hcall) (hreason index)
  · rfl

/-- A machine that is run goes on past the call on which it stopped, or else from where it
stopped. -/
theorem exists_invoke (hreachable : registry.Reachable) (hget : registry.get? id = some machine)
    (gas : Gas) (registers : Registers) :
    ∃ last reason stopped pc,
      Machine.StepsTo machine.program ⟨machine.pc, registers, gas, machine.memory⟩ last ∧
      last.step machine.program = (.stopped (.exit reason), stopped) ∧
      registry.invoke id gas registers =
        (.ok ⟨.exit reason, stopped.gas, stopped.registers⟩,
          registry.replace id (some ⟨machine.program, stopped.memory, pc⟩)) ∧
      ResumesAt machine.program last reason pc := by
  obtain ⟨last, stop, stopped, hsteps, hlast, hrun⟩ := Machine.exists_stopping_step
    machine.program (⟨machine.pc, registers, gas, machine.memory⟩ : Machine SparseMemory)
  have hpc : stopped.pc = last.pc := Machine.step_pc_of_stopped hlast
  cases stop with
  | aborted => exact absurd (congrArg Prod.fst hlast) (last.step_ne_aborted machine.program)
  | exit reason =>
      by_cases hcall : ∃ index, reason = .hostCall index
      · obtain ⟨index, rfl⟩ := hcall
        -- The call is inside code that was read from a blob, so the offset after it does not wrap.
        obtain ⟨blob, hparse⟩ := hreachable.exists_parse hget
        have hinside := Machine.pc_lt_size_of_hostCall hlast
        have hnext := Program.toNat_following (Program.size_code_le_of_parse hparse) hinside
        refine ⟨last, _, stopped, machine.program.following stopped.pc, hsteps, hlast, ?_,
          .inl ⟨index, rfl, Machine.instructionAt_of_hostCall hlast, ?_⟩⟩
        · rw [invoke, hget]
          dsimp only
          rw [hrun]
          rfl
        · rw [hpc, hnext, Program.toNat_skip, CodeImage.next]
      · have hreason : ∀ index, reason ≠ .hostCall index := fun index h => hcall ⟨index, h⟩
        refine ⟨last, reason, stopped, stopped.pc, hsteps, hlast, ?_, .inr ⟨hreason, hpc⟩⟩
        rw [invoke, hget]
        dsimp only
        rw [hrun]
        dsimp only
        rw [afterHostCall_of_ne hreason]

/-- Nested machines are isolated, and operations on them are atomic.  In every registry that
operations lead to, a request changes no machine but the one that it names, and a machine that
none of a sequence of operations names comes out of it as it was.  A creation from a program that
can be read stops the host exactly if it has to remember more checks than there is room for;
otherwise, as long as a number is free, it adds one machine and changes no other, with the lowest
free number, an empty memory and the given program counter.  What is refused changes nothing but
the access checks that are remembered, and no later answer shows those.  A removal removes exactly
its machine.  A run takes its machine up to a step that stops it, and leaves it past the call that
stopped it, or else where it stopped. -/
theorem nested_machines_are_isolated (hreachable : registry.Reachable) :
    (∀ id request other, other ≠ id →
      (registry.request id request).2.get? other = registry.get? other) ∧
    (∀ operations after id machine, (registry.performAll operations).2 = some after →
      (∀ operation ∈ operations, ¬ operation.Names id) → registry.get? id = some machine →
      after.get? id = some machine) ∧
    (∀ blob program pc, Program.parse blob = .ok program →
      (registry.create? blob pc = none ↔
        AccessCache.capacityLimit < registry.cacheCapacity) ∧
      (registry.cacheCapacity ≤ AccessCache.capacityLimit →
        (∃ id, registry.get? id = none) →
        ∃ id after, registry.create? blob pc = some (.ok id, after) ∧ registry.LeastFree id ∧
          ∀ other, after.get? other =
            if other = id then some ⟨program, .empty registry.cacheCapacity, pc⟩
            else registry.get? other)) ∧
    (∀ operation error after, registry.perform operation = some (.error error, after) →
      registry.SameButCache after ∧
        ∀ later, (registry.performAll later).1 = (after.performAll later).1) ∧
    (∀ id machine, registry.get? id = some machine →
      (registry.expunge id).1 = .ok machine.pc ∧
        ∀ other, (registry.expunge id).2.get? other =
          if other = id then none else registry.get? other) ∧
    (∀ id machine gas registers, registry.get? id = some machine →
      ∃ last reason stopped pc,
        Machine.StepsTo machine.program ⟨machine.pc, registers, gas, machine.memory⟩ last ∧
        last.step machine.program = (.stopped (.exit reason), stopped) ∧
        (registry.invoke id gas registers).1 =
          .ok ⟨.exit reason, stopped.gas, stopped.registers⟩ ∧
        (registry.invoke id gas registers).2.get? id =
          some ⟨machine.program, stopped.memory, pc⟩ ∧
        ResumesAt machine.program last reason pc) := by
  refine ⟨?_, ?_, ?_, ?_, ?_, ?_⟩
  · intro id request other hne
    exact registry.get?_request_of_ne hne request
  · intro operations after id machine hperform hnames hget
    exact get?_performAll hperform hnames hget
  · intro blob program pc hparse
    refine ⟨?_, exists_create hparse pc⟩
    rw [create?_of_ok hparse]
    simp
  · intro operation error after hperform
    have hsame := sameButCache_of_error hperform
    refine ⟨hsame, fun later => ?_⟩
    obtain ⟨answers, _, _, hleft, hright, -⟩ := performAll_alike hsame later
    rw [hleft, hright]
  · intro id machine hget
    rw [expunge_of_get? hget]
    refine ⟨rfl, fun other => ?_⟩
    split
    · next hother =>
        rw [hother]
        exact get?_replace_self hget none
    · next hother => exact registry.get?_replace_of_ne hother none
  · intro id machine gas registers hget
    obtain ⟨last, reason, stopped, pc, hsteps, hlast, hinvoke, hpc⟩ :=
      exists_invoke hreachable hget gas registers
    rw [hinvoke]
    exact ⟨last, reason, stopped, pc, hsteps, hlast, rfl, get?_replace_self hget _, hpc⟩

/-- A program that calls its host and traps. -/
def callBlob : ByteArray := [0, 0, 3, 10, 3, 0, 5].toByteArray

def callProgram : Program :=
  .ofImage
    { jumpTable := .empty
      entryCount := 0
      entryWidth := 0
      code := [10, 3, 0].toByteArray
      bitmask := [5].toByteArray }

theorem parse_callBlob : Program.parse callBlob = .ok callProgram := by cbv

/-- A registry in which the second machine is left of two. -/
def secondLeft : Registry where
  slots := [none, some ⟨callProgram, .empty 8, 0⟩]
  cacheCapacity := 8

theorem reachable_secondLeft : secondLeft.Reachable := by
  have hfirst : (⟨[], 8⟩ : Registry).perform (.create callBlob 0) =
      some (.ok (.created 0), ⟨[some ⟨callProgram, .empty 8, 0⟩], 8⟩) := by
    rw [perform, create?_of_ok parse_callBlob]
    rfl
  have hsecond : (⟨[some ⟨callProgram, .empty 8, 0⟩], 8⟩ : Registry).perform
      (.create callBlob 0) =
      some (.ok (.created 1),
        ⟨[some ⟨callProgram, .empty 8, 0⟩, some ⟨callProgram, .empty 8, 0⟩], 8⟩) := by
    rw [perform, create?_of_ok parse_callBlob]
    rfl
  have hremoved : (⟨[some ⟨callProgram, .empty 8, 0⟩, some ⟨callProgram, .empty 8, 0⟩], 8⟩ :
      Registry).perform (.request 0 .expunge) = some (.ok (.removed 0), secondLeft) := rfl
  exact .perform (.perform (.perform (.start 8) hfirst) hsecond) hremoved

theorem secondLeft_gives_first_number_again :
    secondLeft.Reachable ∧
      ∃ after, secondLeft.create? callBlob 2 = some (.ok 0, after) ∧
        after.get? 0 = some ⟨callProgram, .empty 8, 2⟩ ∧
        after.get? 1 = some ⟨callProgram, .empty 8, 0⟩ := by
  obtain ⟨-, -, hcreate, -⟩ := nested_machines_are_isolated reachable_secondLeft
  obtain ⟨id, after, hcreated, ⟨-, hleast⟩, hget⟩ :=
    (hcreate callBlob callProgram 2 parse_callBlob).2 (by decide) ⟨0, rfl⟩
  obtain rfl : id = 0 := by
    rcases Nat.eq_zero_or_pos id.toNat with hzero | hpos
    · exact UInt64.toNat_inj.mp hzero
    · exact absurd rfl (hleast 0 (UInt64.lt_iff_toNat_lt.mpr hpos))
  exact ⟨reachable_secondLeft, after, hcreated, hget 0, hget 1⟩

/-- A registry without machines whose machines are to remember as many checks as a word counts. -/
def boundlessCache : Registry where
  cacheCapacity := 0xFFFFFFFFFFFFFFFF

/-- The program can be read and there is a free number, but no machine is added: the host
stops. -/
theorem boundlessCache_stops_host :
    boundlessCache.Reachable ∧ Program.parse callBlob = .ok callProgram ∧
      boundlessCache.get? 0 = none ∧ boundlessCache.create? callBlob 0 = none := by
  refine ⟨.start _, parse_callBlob, rfl, ?_⟩
  rw [create?_of_ok parse_callBlob]
  rfl

end GasMachine.Registry
