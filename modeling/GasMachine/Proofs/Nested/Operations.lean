import GasMachine.Proofs.Nested.Requests

/-!
# Operations on a registry

A host creates machines and asks things of those that it has.  A request is served by
the machine that it names: the slot of that machine gets what the request leaves of it,
and the other slots stay as they are.  A creation fills the first free slot.
-/

namespace GasMachine.Registry

/-! ## Slots -/

def slot? (registry : Registry) (index : Nat) : Option NestedMachine :=
  registry.slots[index]?.join

theorem slot?_replace_of_ne (registry : Registry) {id : UInt64} {index : Nat}
    (hne : index ≠ id.toNat) (machine : Option NestedMachine) :
    (registry.replace id machine).slot? index = registry.slot? index := by
  rw [slot?, slot?, replace, List.getElem?_set_ne hne.symm]

theorem get?_replace_of_ne (registry : Registry) {id other : UInt64} (hne : other ≠ id)
    (machine : Option NestedMachine) :
    (registry.replace id machine).get? other = registry.get? other :=
  registry.slot?_replace_of_ne (mt UInt64.toNat_inj.mp hne) machine

theorem lt_length_of_get? {registry : Registry} {id : UInt64} {machine : NestedMachine}
    (hget : registry.get? id = some machine) : id.toNat < registry.slots.length := by
  rcases Nat.lt_or_ge id.toNat registry.slots.length with hlt | hge
  · exact hlt
  · rw [get?, List.getElem?_eq_none hge] at hget
    cases hget

theorem get?_replace_self {registry : Registry} {id : UInt64} {machine : NestedMachine}
    (hget : registry.get? id = some machine) (after : Option NestedMachine) :
    (registry.replace id after).get? id = after := by
  rw [get?, replace, List.getElem?_set_self (lt_length_of_get? hget)]
  rfl

/-- Putting back the machine that is there changes nothing. -/
theorem replace_eq_self {registry : Registry} {id : UInt64} {machine : NestedMachine}
    (hget : registry.get? id = some machine) : registry.replace id (some machine) = registry := by
  have hlt := lt_length_of_get? hget
  have hslot : registry.slots[id.toNat] = some machine := by
    rw [get?, List.getElem?_eq_getElem hlt] at hget
    exact hget
  rw [replace, ← hslot, List.set_getElem_self]

/-! ## Creations -/

theorem slot?_freeSlot (registry : Registry) : registry.slot? registry.freeSlot = none := by
  rcases Nat.lt_or_ge registry.freeSlot registry.slots.length with hlt | hge
  · have hfree : registry.slots[registry.freeSlot].isNone = true := List.findIdx_getElem (w := hlt)
    rw [slot?, List.getElem?_eq_getElem hlt, Option.isNone_iff_eq_none.mp hfree]
    rfl
  · rw [slot?, List.getElem?_eq_none hge]
    rfl

theorem slot?_of_lt_freeSlot {registry : Registry} {index : Nat}
    (hlt : index < registry.freeSlot) : registry.slot? index ≠ none := by
  have hlength : index < registry.slots.length :=
    Nat.lt_of_lt_of_le hlt List.findIdx_le_length
  have hused : registry.slots[index].isNone = false := List.not_of_lt_findIdx hlt
  rw [slot?, List.getElem?_eq_getElem hlength, Option.join_some]
  exact mt Option.isNone_iff_eq_none.mpr (Bool.eq_false_iff.mp hused)

theorem slot?_insert (registry : Registry) (machine : NestedMachine) (index : Nat) :
    (registry.insert machine).slot? index =
      if index = registry.freeSlot then some machine else registry.slot? index := by
  unfold insert slot?
  dsimp only
  split
  · next hlt =>
      split
      · next hindex =>
          rw [hindex, List.getElem?_set_self hlt]
          rfl
      · next hindex => rw [List.getElem?_set_ne (Ne.symm hindex)]
  · next hge =>
      have hfree : registry.freeSlot = registry.slots.length :=
        Nat.le_antisymm List.findIdx_le_length (Nat.not_lt.mp hge)
      split
      · next hindex =>
          rw [hindex, hfree, List.getElem?_concat_length]
          rfl
      · next hindex =>
          rw [hfree] at hindex
          rcases Nat.lt_or_gt_of_ne hindex with hlt | hgt
          · rw [List.getElem?_append_left hlt]
          · rw [List.getElem?_eq_none, List.getElem?_eq_none (Nat.le_of_lt hgt)]
            rw [List.length_append, List.length_singleton]
            exact hgt

theorem freeSlot_le {registry : Registry} {index : Nat} (hfree : registry.slot? index = none) :
    registry.freeSlot ≤ index :=
  Nat.le_of_not_lt fun hlt => slot?_of_lt_freeSlot hlt hfree

/-- As long as a number is free, the lowest one that is has a word. -/
theorem toNat_freeSlot {registry : Registry} (hroom : ∃ id, registry.get? id = none) :
    (UInt64.ofNat registry.freeSlot).toNat = registry.freeSlot := by
  obtain ⟨id, hfree⟩ := hroom
  exact UInt64.toNat_ofNat_of_lt' (Nat.lt_of_le_of_lt (freeSlot_le hfree) id.toNat_lt)

variable {registry : Registry} {blob : ByteArray}

theorem create?_of_error {error : ProgramError} (hparse : Program.parse blob = .error error)
    (pc : UInt32) : registry.create? blob pc = some (.error (.invalidCode error), registry) := by
  rw [create?, hparse]

/-- A machine for a program that can be read is created if there is room to remember checks. -/
theorem create?_of_ok {program : Program} (hparse : Program.parse blob = .ok program)
    (pc : UInt32) :
    registry.create? blob pc =
      if registry.cacheCapacity ≤ AccessCache.capacityLimit then
        some (.ok (UInt64.ofNat registry.freeSlot),
          registry.insert ⟨program, .empty registry.cacheCapacity, pc⟩)
      else none := by
  rw [create?, hparse]
  dsimp only [SparseMemory.allocate?, PageMap.allocate?]
  split <;> rfl

/-! ## Operations -/

inductive Operation where
  | create (blob : ByteArray) (pc : UInt32)
  | request (id : UInt64) (request : NestedRequest)

def answering {α : Type} (wrap : α → NestedAnswer) (served : Except NestedError α × Registry) :
    Except NestedError NestedAnswer × Registry :=
  (served.1.map wrap, served.2)

def request (registry : Registry) (id : UInt64) :
    NestedRequest → Except NestedError NestedAnswer × Registry
  | .peek address length => answering .bytes (registry.peek id address length)
  | .poke address bytes => answering (fun _ => .done) (registry.poke id address bytes)
  | .pages page count mode => answering (fun _ => .done) (registry.pages id page count mode)
  | .invoke gas registers => answering .stopped (registry.invoke id gas registers)
  | .expunge => answering .removed (registry.expunge id)

/-- The registry carries out an operation.  There is no answer if the host stops over it. -/
def perform (registry : Registry) :
    Operation → Option (Except NestedError NestedAnswer × Registry)
  | .create blob pc => (registry.create? blob pc).map (answering .created)
  | .request id request => some (registry.request id request)

/-- A request for a machine that there is none of is refused.  Any other is served by its
machine, and what is left of that goes back into its slot. -/
theorem request_eq (registry : Registry) (id : UInt64) (request : NestedRequest) :
    registry.request id request =
      match registry.get? id with
      | none => (.error (.unknownMachine id), registry)
      | some machine =>
        ((request.serve machine).1, registry.replace id (request.serve machine).2) := by
  cases hget : registry.get? id with
  | none =>
      cases request <;>
        simp only [Registry.request, answering, peek, poke, pages, invoke, expunge, hget,
          Except.map]
  | some machine =>
      cases request with
      | peek address length =>
          simp only [Registry.request, answering, peek, hget, NestedRequest.serve]
          cases (Memory.check machine.memory .read address length).1 <;> rfl
      | poke address bytes =>
          simp only [Registry.request, answering, poke, hget, NestedRequest.serve]
      | pages page count mode =>
          simp only [Registry.request, answering, pages, hget, NestedRequest.serve]
          cases PageMode.ofNumber? mode with
          | none =>
              -- A refusal puts nothing back, but the machine is in its slot already.
              rw [replace_eq_self hget]
              rfl
          | some pageMode =>
              dsimp only
              split
              · rfl
              · rw [replace_eq_self hget]
                rfl
      | invoke gas registers =>
          simp only [Registry.request, answering, invoke, hget, NestedRequest.serve]
          rfl
      | expunge =>
          simp only [Registry.request, answering, expunge, hget, NestedRequest.serve]
          rfl

/-- What an operation can do: nothing, because it is refused outright; add a machine; or serve a
request with the machine that it names. -/
theorem perform_cases {after : Registry} {operation : Operation}
    {answer : Except NestedError NestedAnswer}
    (hperform : registry.perform operation = some (answer, after)) :
    ((∃ error, answer = .error error) ∧ after = registry) ∨
      (∃ blob program pc, operation = .create blob pc ∧ Program.parse blob = .ok program ∧
        (∃ id, answer = .ok (.created id)) ∧
        after = registry.insert ⟨program, .empty registry.cacheCapacity, pc⟩) ∨
      ∃ id request machine, operation = .request id request ∧ registry.get? id = some machine ∧
        answer = (request.serve machine).1 ∧
        after = registry.replace id (request.serve machine).2 := by
  cases operation with
  | create blob pc =>
      cases hparse : Program.parse blob with
      | error error =>
          rw [perform, create?_of_error hparse] at hperform
          cases hperform
          exact .inl ⟨⟨_, rfl⟩, rfl⟩
      | ok program =>
          rw [perform, create?_of_ok hparse] at hperform
          split at hperform
          · cases hperform
            exact .inr (.inl ⟨blob, program, pc, rfl, hparse, ⟨_, rfl⟩, rfl⟩)
          · cases hperform
  | request id request =>
      have hrequest := Option.some.inj hperform
      rw [request_eq] at hrequest
      cases hget : registry.get? id with
      | none =>
          rw [hget] at hrequest
          cases hrequest
          exact .inl ⟨⟨_, rfl⟩, rfl⟩
      | some machine =>
          rw [hget] at hrequest
          obtain ⟨rfl, rfl⟩ := Prod.mk.inj hrequest
          exact .inr (.inr ⟨id, request, machine, rfl, hget, rfl, rfl⟩)

/-! ## Registries that differ in what is remembered -/

/-- Registries with the same machines, up to the access checks that their memories remember. -/
structure SameButCache (left right : Registry) : Prop where
  slot : ∀ index,
    Option.Rel NestedMachine.SameButCache (left.slot? index) (right.slot? index)
  cacheCapacity : left.cacheCapacity = right.cacheCapacity

theorem SameButCache.refl (registry : Registry) : registry.SameButCache registry := by
  refine ⟨fun index => ?_, rfl⟩
  cases registry.slot? index with
  | none => exact .none
  | some machine => exact .some (.refl machine)

section Alike

variable {left right : Registry} (hsame : left.SameButCache right)
include hsame

theorem SameButCache.slot?_eq_none_iff (index : Nat) :
    left.slot? index = none ↔ right.slot? index = none := by
  have hslot := hsame.slot index
  generalize left.slot? index = machine at hslot ⊢
  generalize right.slot? index = other at hslot ⊢
  cases hslot with
  | none => exact Iff.rfl
  | some _ => simp

theorem SameButCache.freeSlot_eq : left.freeSlot = right.freeSlot := by
  apply Nat.le_antisymm
  · exact freeSlot_le ((hsame.slot?_eq_none_iff _).mpr right.slot?_freeSlot)
  · exact freeSlot_le ((hsame.slot?_eq_none_iff _).mp left.slot?_freeSlot)

theorem SameButCache.insert {machine other : NestedMachine}
    (hmachine : machine.SameButCache other) :
    SameButCache (left.insert machine) (right.insert other) := by
  refine ⟨fun index => ?_, hsame.cacheCapacity⟩
  rw [slot?_insert, slot?_insert, hsame.freeSlot_eq]
  split
  · exact .some hmachine
  · exact hsame.slot index

theorem SameButCache.replace {id : UInt64} {machine other : NestedMachine}
    (hleft : left.get? id = some machine) (hright : right.get? id = some other)
    {leftAfter rightAfter : Option NestedMachine}
    (hafter : Option.Rel NestedMachine.SameButCache leftAfter rightAfter) :
    SameButCache (left.replace id leftAfter) (right.replace id rightAfter) := by
  refine ⟨fun index => ?_, hsame.cacheCapacity⟩
  by_cases hindex : index = id.toNat
  · subst hindex
    have hleftSlot : (left.replace id leftAfter).slot? id.toNat = leftAfter :=
      get?_replace_self hleft leftAfter
    have hrightSlot : (right.replace id rightAfter).slot? id.toNat = rightAfter :=
      get?_replace_self hright rightAfter
    rwa [hleftSlot, hrightSlot]
  · rw [left.slot?_replace_of_ne hindex, right.slot?_replace_of_ne hindex]
    exact hsame.slot index

theorem request_alike (id : UInt64) (request : NestedRequest) :
    Alike SameButCache (left.request id request) (right.request id request) := by
  have hslot : Option.Rel NestedMachine.SameButCache (left.get? id) (right.get? id) :=
    hsame.slot id.toNat
  rw [request_eq, request_eq]
  cases hleft : left.get? id with
  | none =>
      rw [hleft] at hslot
      cases hright : right.get? id with
      | none => exact ⟨_, _, _, rfl, rfl, hsame⟩
      | some other =>
          rw [hright] at hslot
          cases hslot
  | some machine =>
      rw [hleft] at hslot
      cases hright : right.get? id with
      | none =>
          rw [hright] at hslot
          cases hslot
      | some other =>
          rw [hright] at hslot
          cases hslot with
          | some hmachine =>
              obtain ⟨answer, leftAfter, rightAfter, hleftServe, hrightServe, hafter⟩ :=
                request.serve_alike hmachine
              dsimp only
              rw [hleftServe, hrightServe]
              exact ⟨answer, _, _, rfl, rfl, hsame.replace hleft hright hafter⟩

/-- Registries that differ in what is remembered perform every operation alike. -/
theorem perform_alike (operation : Operation) :
    Option.Rel (Alike SameButCache) (left.perform operation)
      (right.perform operation) := by
  cases operation with
  | create blob pc =>
      rw [perform, perform, create?, create?]
      cases Program.parse blob with
      | error error => exact .some ⟨_, _, _, rfl, rfl, hsame⟩
      | ok program =>
          dsimp only
          rw [hsame.cacheCapacity, hsame.freeSlot_eq]
          cases SparseMemory.allocate? right.cacheCapacity with
          | none => exact .none
          | some memory => exact .some ⟨_, _, _, rfl, rfl, hsame.insert (.refl _)⟩
  | request id request => exact .some (request_alike hsame id request)

end Alike

/-- The answers to operations that are carried out one after the other, until the host stops, and
the registry in the end, if it does not. -/
def performAll : Registry → List Operation →
    List (Except NestedError NestedAnswer) × Option Registry
  | registry, [] => ([], some registry)
  | registry, operation :: rest =>
    match registry.perform operation with
    | none => ([], none)
    | some (answer, after) => (answer :: (after.performAll rest).1, (after.performAll rest).2)

/-- Registries that differ in what is remembered answer all that is ever asked of them alike. -/
theorem performAll_alike {left right : Registry} (hsame : left.SameButCache right)
    (operations : List Operation) :
    Alike (Option.Rel SameButCache) (left.performAll operations)
      (right.performAll operations) := by
  induction operations generalizing left right with
  | nil => exact ⟨[], _, _, rfl, rfl, .some hsame⟩
  | cons operation rest ih =>
      have hperform := perform_alike hsame operation
      rw [performAll, performAll]
      generalize left.perform operation = leftDone at hperform ⊢
      generalize right.perform operation = rightDone at hperform ⊢
      cases hperform with
      | none => exact ⟨[], _, _, rfl, rfl, .none⟩
      | some halike =>
          obtain ⟨answer, leftAfter, rightAfter, rfl, rfl, hafter⟩ := halike
          obtain ⟨answers, leftLast, rightLast, hleft, hright, hlast⟩ := ih hafter
          dsimp only
          rw [hleft, hright]
          exact ⟨_, _, _, rfl, rfl, hlast⟩

/-- An operation that is refused changes nothing but what is remembered. -/
theorem sameButCache_of_error {after : Registry} {operation : Operation}
    {error : NestedError} (hperform : registry.perform operation = some (.error error, after)) :
    registry.SameButCache after := by
  rcases perform_cases hperform with ⟨-, rfl⟩ | ⟨_, _, _, -, -, ⟨_, hanswer⟩, -⟩ |
    ⟨id, request, machine, -, hget, hanswer, rfl⟩
  · exact .refl after
  · cases hanswer
  · -- The registry is compared with itself, the machine put back into its slot.
    obtain ⟨left, hleft, hsame⟩ := NestedRequest.sameButCache_of_refused hanswer.symm
    have hreplace := (SameButCache.refl registry).replace hget hget (.some hsame)
    rwa [replace_eq_self hget, ← hleft] at hreplace

/-! ## Reachable registries -/

/-- The registries that operations lead to from one without machines. -/
inductive Reachable : Registry → Prop where
  | start (capacity : Nat) : Reachable ⟨[], capacity⟩
  | perform {registry after : Registry} {operation : Operation}
      {answer : Except NestedError NestedAnswer} (hreachable : Reachable registry)
      (hperform : registry.perform operation = some (answer, after)) : Reachable after

/-- What holds of every machine that is created, and of what every request leaves of a machine of
which it holds, holds of all machines of a registry. -/
theorem Reachable.machine_induction {motive : NestedMachine → Prop}
    (hcreate : ∀ blob program capacity pc, Program.parse blob = .ok program →
      motive ⟨program, .empty capacity, pc⟩)
    (hserve : ∀ (request : NestedRequest) machine after, motive machine →
      (request.serve machine).2 = some after → motive after)
    (hreachable : registry.Reachable) {index : Nat} {machine : NestedMachine}
    (hslot : registry.slot? index = some machine) : motive machine := by
  induction hreachable generalizing index machine with
  | start capacity => cases hslot
  | perform _ hperform ih =>
      rcases perform_cases hperform with ⟨-, rfl⟩ | ⟨blob, program, pc, -, hparse, -, rfl⟩ |
        ⟨id, request, before, -, hget, -, rfl⟩
      · exact ih hslot
      · rw [slot?_insert] at hslot
        split at hslot
        · cases hslot
          exact hcreate blob program _ pc hparse
        · exact ih hslot
      · by_cases hindex : index = id.toNat
        · subst hindex
          have hserved : (request.serve before).2 = some machine :=
            (get?_replace_self hget _).symm.trans hslot
          exact hserve request before machine (ih hget) hserved
        · rw [slot?_replace_of_ne _ hindex] at hslot
          exact ih hslot

/-- Every machine runs a program that was read from a blob. -/
theorem Reachable.exists_parse (hreachable : registry.Reachable) {id : UInt64}
    {machine : NestedMachine} (hget : registry.get? id = some machine) :
    ∃ blob, Program.parse blob = .ok machine.program := by
  have hslot : registry.slot? id.toNat = some machine := hget
  refine hreachable.machine_induction
    (motive := fun machine => ∃ blob, Program.parse blob = .ok machine.program) ?_ ?_ hslot
  · intro blob program capacity pc hparse
    exact ⟨blob, hparse⟩
  · rintro request machine after ⟨blob, hparse⟩ hserved
    rw [NestedRequest.program_of_serve hserved]
    exact ⟨blob, hparse⟩

end GasMachine.Registry
