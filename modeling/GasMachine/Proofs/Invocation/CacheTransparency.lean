import GasMachine.Proofs.Machine.Simulation
import GasMachine.Proofs.Memory.AccessChecks
import GasMachine.Proofs.Memory.ZoneWalk

/-!
# The access cache cannot be observed

How many access checks a memory remembers changes what they cost and nothing
else.  Zoned memories that differ in their cache only answer every operation
alike, so invocations that differ in the capacity of the cache only have the
same calls and the same end.
-/

namespace GasMachine

/-- Page maps over one table check alike, whatever they remember. -/
theorem PageMap.checkRange_alike {left right : PageMap} (htable : left.table = right.table)
    (kind : AccessKind) (address : UInt32) (length : Nat) :
    Alike (fun after other : PageMap => after.table = other.table)
      (left.checkRange kind address length) (right.checkRange kind address length) := by
  obtain ⟨leftCache, hleftSound, hleft⟩ := left.checkRange_eq kind address length
  obtain ⟨rightCache, hrightSound, hright⟩ := right.checkRange_eq kind address length
  refine ⟨_, _, ⟨right.table, rightCache, hrightSound⟩, hleft, ?_, htable⟩
  rw [hright, htable]

namespace ZonedMemory

/-- Memories that may differ in the checks they remember, and in how many they
can remember, but in nothing else. -/
structure SameButCache (left right : ZonedMemory) : Prop where
  table : left.pageMap.table = right.pageMap.table
  zone : ∀ region, left.zone region = right.zone region
  heapEnd : left.heapEnd = right.heapEnd

theorem SameButCache.exists_eq {left right : ZonedMemory} (hsame : left.SameButCache right) :
    ∃ cache hsound, right = { left with pageMap := ⟨left.pageMap.table, cache, hsound⟩ } := by
  obtain ⟨⟨leftTable, leftCache, leftSound⟩, leftReadOnly, leftHeap, leftStack,
    leftArgument, leftEnd⟩ := left
  obtain ⟨⟨table, cache, hsound⟩, readOnly, heap, stack, argument, heapEnd⟩ := right
  obtain rfl : leftTable = table := hsame.table
  obtain rfl : leftReadOnly = readOnly := hsame.zone .readOnly
  obtain rfl : leftHeap = heap := hsame.zone .heap
  obtain rfl : leftStack = stack := hsame.zone .stack
  obtain rfl : leftArgument = argument := hsame.zone .argument
  obtain rfl : leftEnd = heapEnd := hsame.heapEnd
  exact ⟨cache, hsound, rfl⟩

theorem sameButCache_setPageMap {memory : ZonedMemory} {left right : PageMap}
    (htable : left.table = right.table) :
    SameButCache { memory with pageMap := left } { memory with pageMap := right } :=
  ⟨htable, fun region => by cases region <;> rfl, rfl⟩

theorem check_alike {left right : ZonedMemory} (hsame : left.SameButCache right)
    (kind : AccessKind) (address : UInt32) (length : UInt64) :
    Alike SameButCache (Memory.check left kind address length)
      (Memory.check right kind address length) := by
  obtain ⟨cache, hsound, rfl⟩ := hsame.exists_eq
  obtain ⟨verdict, leftMap, rightMap, hleft, hright, htable⟩ :=
    PageMap.checkRange_alike hsame.table kind address length.toNat
  refine ⟨verdict, { left with pageMap := leftMap }, { left with pageMap := rightMap },
    ?_, ?_, sameButCache_setPageMap htable⟩
  · rw [Memory.check, PageMap.check]
    exact congrArg (fun checked => (checked.1, { left with pageMap := checked.2 })) hleft
  · rw [Memory.check, PageMap.check]
    exact congrArg (fun checked => (checked.1, { left with pageMap := checked.2 })) hright

theorem readInto_alike {left right : ZonedMemory} (hsame : left.SameButCache right)
    (address : UInt32) (buffer : ByteArray) :
    ∃ result filled leftAfter rightAfter,
      left.readInto address buffer = ⟨result, filled, leftAfter⟩ ∧
      right.readInto address buffer = ⟨result, filled, rightAfter⟩ ∧
      SameButCache leftAfter rightAfter := by
  obtain ⟨cache, hsound, rfl⟩ := hsame.exists_eq
  obtain ⟨verdict, leftMap, rightMap, hleft, hright, htable⟩ :=
    PageMap.checkRange_alike hsame.table .read address buffer.size
  rw [readInto, readInto, hleft, hright]
  cases verdict with
  | error fault => exact ⟨_, _, _, _, rfl, rfl, sameButCache_setPageMap htable⟩
  | ok allowed =>
      dsimp only
      rw [left.readFrom_setPageMap ⟨left.pageMap.table, cache, hsound⟩]
      exact ⟨_, _, _, _, rfl, rfl, sameButCache_setPageMap htable⟩

theorem write_alike {left right : ZonedMemory} (hsame : left.SameButCache right)
    (address : UInt32) (bytes : ByteArray) :
    Alike SameButCache (left.write address bytes) (right.write address bytes) := by
  obtain ⟨cache, hsound, rfl⟩ := hsame.exists_eq
  obtain ⟨verdict, leftMap, rightMap, hleft, hright, htable⟩ :=
    PageMap.checkRange_alike hsame.table .write address bytes.size
  rw [write, write, hleft, hright]
  cases verdict with
  | error fault => exact ⟨_, _, _, rfl, rfl, sameButCache_setPageMap htable⟩
  | ok allowed =>
      dsimp only
      rw [left.writeFrom_setPageMap leftMap, left.writeFrom_setPageMap rightMap]
      exact ⟨_, _, _, rfl, rfl, sameButCache_setPageMap htable⟩

theorem grow_alike {left right : ZonedMemory} (hsame : left.SameButCache right)
    (increment : UInt32) :
    Alike SameButCache (left.grow increment) (right.grow increment) := by
  obtain ⟨cache, hsound, rfl⟩ := hsame.exists_eq
  unfold grow
  split
  · exact ⟨_, _, _, rfl, rfl, hsame⟩
  · dsimp only
    split
    · exact ⟨_, _, _, rfl, rfl, hsame⟩
    · split
      · refine ⟨_, _, _, rfl, rfl, ?_⟩
        exact ⟨rfl, fun region => by cases region <;> rfl, rfl⟩
      · refine ⟨_, _, _, rfl, rfl, ?_⟩
        exact ⟨rfl, fun region => by cases region <;> rfl, rfl⟩

/-- No operation shows what a memory remembers. -/
theorem simulates_sameButCache : Memory.Simulates SameButCache where
  check := check_alike
  readInto := readInto_alike
  write := write_alike
  grow := grow_alike

/-- Memories that are laid out over empty page maps differ in their cache only. -/
theorem layOut_sameButCache (standard : StandardProgram) (argument : ByteArray)
    (capacity other : Nat) :
    SameButCache (layOut standard argument (.empty capacity))
      (layOut standard argument (.empty other)) :=
  ⟨rfl, fun region => by cases region <;> rfl, rfl⟩

end ZonedMemory

/-- A host that does not look at what the memory remembers: on machines that
differ in it only it gives the same verdict and does the same. -/
def Host.IgnoresCache {σ : Type} (host : Host σ ZonedMemory) : Prop :=
  Host.Related ZonedMemory.SameButCache host host

namespace Invocation

def hostCalls {σ : Type} (settings : Settings) (blob argument : ByteArray)
    (host : Host σ ZonedMemory) (fuel : Nat) (state : σ) : List Machine.HostCall :=
  match load? settings blob argument with
  | some (.ok (program, machine)) => machine.hostCalls program host fuel state
  | _ => []

/-- Loading fails alike for all capacities, or gives machines that differ in the
cache only. -/
theorem load?_cases (settings : Settings) {capacity other : Nat}
    (hcapacity : capacity ≤ AccessCache.capacityLimit)
    (hother : other ≤ AccessCache.capacityLimit) (blob argument : ByteArray) :
    (∃ failure, (∀ loaded, failure ≠ some (.ok loaded)) ∧
        load? { settings with cacheCapacity := capacity } blob argument = failure ∧
        load? { settings with cacheCapacity := other } blob argument = failure) ∨
      ∃ program left right,
        load? { settings with cacheCapacity := capacity } blob argument =
          some (.ok (program, left)) ∧
        load? { settings with cacheCapacity := other } blob argument =
          some (.ok (program, right)) ∧
        Machine.Related ZonedMemory.SameButCache left right := by
  unfold load?
  cases StandardProgram.parse blob with
  | error error => exact Or.inl ⟨_, by simp, rfl, rfl⟩
  | ok standard =>
      simp only [initialMemory?, PageMap.allocate?, if_pos hcapacity, if_pos hother,
        Option.bind_some, ZonedMemory.initial?]
      by_cases hargument : AddressSpace.argumentLimit < argument.size
      · simp only [if_pos hargument]
        exact Or.inl ⟨_, by simp, rfl, rfl⟩
      simp only [if_neg hargument]
      by_cases hstack : AddressSpace.stackTop.toNat < ZonedMemory.stackRoom standard
      · simp only [if_pos hstack]
        exact Or.inl ⟨_, by simp, rfl, rfl⟩
      simp only [if_neg hstack]
      by_cases hheap : AddressSpace.stackTop.toNat - ZonedMemory.stackRoom standard <
          ZonedMemory.heapStart standard + standard.initialHeapSize
      · simp only [if_pos hheap]
        exact Or.inl ⟨_, by simp, rfl, rfl⟩
      simp only [if_neg hheap]
      refine Or.inr ⟨_, _, _, rfl, rfl, rfl, rfl, rfl, ?_⟩
      exact ZonedMemory.layOut_sameButCache standard argument capacity other

end Invocation

/-- The access cache cannot be observed.  Invocations whose settings differ in
the capacity of the cache only, both of which the host can address, come to the
same end: the same exit, gas, output and registers, or the same failure, with
the same state of a host that ignores the cache and after the same calls.  This
holds for every bound on the length of the run, and also for invocations that a
host call ends. -/
theorem invocation_ignores_cacheCapacity {σ : Type} {host : Host σ ZonedMemory}
    (hhost : Host.IgnoresCache host) (settings : Settings) {capacity other : Nat}
    (hcapacity : capacity ≤ AccessCache.capacityLimit)
    (hother : other ≤ AccessCache.capacityLimit) (blob argument : ByteArray) :
    (∀ (fuel : Nat) (state : σ),
      invokeWith { settings with cacheCapacity := capacity } blob argument host fuel state =
        invokeWith { settings with cacheCapacity := other } blob argument host fuel state ∧
      Invocation.hostCalls { settings with cacheCapacity := capacity } blob argument host
          fuel state =
        Invocation.hostCalls { settings with cacheCapacity := other } blob argument host
          fuel state) ∧
    invoke { settings with cacheCapacity := capacity } blob argument =
      invoke { settings with cacheCapacity := other } blob argument := by
  have hsimulates := ZonedMemory.simulates_sameButCache
  rcases Invocation.load?_cases settings hcapacity hother blob argument with
    ⟨failure, hfailure, hleft, hright⟩ | ⟨program, left, right, hleft, hright, hrelated⟩
  · refine ⟨fun fuel state => ⟨?_, ?_⟩, ?_⟩
    · rw [invokeWith, invokeWith, hleft, hright]
    · rw [Invocation.hostCalls, Invocation.hostCalls, hleft, hright]
    · rw [invoke, invoke, hleft, hright]
  · refine ⟨fun fuel state => ⟨?_, ?_⟩, ?_⟩
    · rw [invokeWith, invokeWith, hleft, hright]
      rcases Machine.runWith_alike hsimulates hhost program fuel state hrelated with
        ⟨hnone, hnoneRight⟩ | ⟨stop, after, leftAfter, rightAfter, hend, hendRight, hafter⟩
      · simp only [hnone, hnoneRight, Option.map_none]
      · simp only [hend, hendRight, Option.map_some,
          Invocation.conclude_eq hsimulates hafter stop]
    · rw [Invocation.hostCalls, Invocation.hostCalls, hleft, hright]
      exact Machine.hostCalls_eq hsimulates hhost program fuel state hrelated
    · rw [invoke, invoke, hleft, hright]
      obtain ⟨stop, leftAfter, rightAfter, hend, hendRight, hafter⟩ :=
        Machine.runFor_alike hsimulates program left.gas.budget hrelated
      simp only [Machine.run, ← hrelated.gas, hend, hendRight,
        Invocation.conclude_eq hsimulates hafter stop]

/-- A host that counts its calls, and writes the index of each to the start of
the heap. -/
def writingHost : Host Nat ZonedMemory := fun index count machine =>
  match machine.memory.write machine.memory.heap.start
      (LittleEndian.ofNat 4 index.toNat).toByteArray with
  | (.ok _, memory) => (.resume, count + 1, { machine with memory := memory })
  | (.error error, memory) =>
    (.stop (.exit (.ofMemoryError error)), count + 1, { machine with memory := memory })

theorem writingHost_ignoresCache : Host.IgnoresCache writingHost := by
  intro index count left right hrelated
  have hheap : left.memory.heap = right.memory.heap := hrelated.memory.zone .heap
  obtain ⟨result, leftAfter, rightAfter, hleft, hright, hafter⟩ :=
    ZonedMemory.write_alike hrelated.memory right.memory.heap.start
      (LittleEndian.ofNat 4 index.toNat).toByteArray
  simp only [writingHost, hheap, hleft, hright]
  cases result with
  | ok written =>
      exact ⟨rfl, rfl, hrelated.pc, hrelated.registers, hrelated.gas, hafter⟩
  | error error =>
      exact ⟨rfl, rfl, hrelated.pc, hrelated.registers, hrelated.gas, hafter⟩

/-- A program that grows its heap, stores to it, calls the host, loads and halts. -/
def heapBlob : ByteArray :=
  [0, 0, 0, 0, 0, 0, 0, 0, 0, 16, 0, 25, 0, 0, 0, 0, 0, 19, 51, 2, 1, 101, 35, 59, 2, 0, 0, 2,
    10, 7, 52, 4, 0, 0, 2, 50, 0, 41, 20, 2].toByteArray

theorem heapBlob_ignores_cacheCapacity :
    Host.IgnoresCache writingHost ∧ 0 ≤ AccessCache.capacityLimit ∧
      8 ≤ AccessCache.capacityLimit ∧
      invokeWith { cacheCapacity := 0 } heapBlob ByteArray.empty writingHost 100 0 =
        invokeWith { cacheCapacity := 8 } heapBlob ByteArray.empty writingHost 100 0 :=
  ⟨writingHost_ignoresCache, by decide, by decide,
    ((invocation_ignores_cacheCapacity writingHost_ignoresCache {} (by decide) (by decide)
      heapBlob ByteArray.empty).1 100 0).1⟩

end GasMachine
