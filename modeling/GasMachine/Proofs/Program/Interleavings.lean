import Mathlib
import GasMachine.Proofs.Machine.DynamicJumps
import GasMachine.Proofs.Program.BuiltPrograms

/-!
# Pushing in any order

Instructions and jump targets may be pushed in turns.  Whoever pushes an
instruction is told the offset it gets, and whoever pushes a target the address
that selects it.  These answers hold of the finished program: it has just the
pushed instructions at their offsets, a dynamic jump to an address goes to the
target that was pushed for it, and the program can be written down and read again
as long as its sections are within the limits of a blob.
-/

namespace GasMachine.Program

namespace Builder

inductive Push where
  | instruction (instruction : Instruction)
  | target (target : UInt32)

def instructionsOf : List Push → List Instruction
  | [] => []
  | .instruction instruction :: rest => instruction :: instructionsOf rest
  | .target _ :: rest => instructionsOf rest

def targetsOf : List Push → List UInt32
  | [] => []
  | .instruction _ :: rest => targetsOf rest
  | .target target :: rest => target :: targetsOf rest

def pushAll (builder : Builder) : List Push → Builder
  | [] => builder
  | .instruction instruction :: rest => (builder.push instruction).pushAll rest
  | .target target :: rest => (builder.pushTarget target).pushAll rest

/-- The pushed instructions, each with the offset that its push gave. -/
def placedFrom (builder : Builder) : List Push → List (UInt32 × Instruction)
  | [] => []
  | .instruction instruction :: rest =>
    (builder.offset, instruction) :: (builder.push instruction).placedFrom rest
  | .target target :: rest => (builder.pushTarget target).placedFrom rest

/-- The pushed targets, each with the address that its push gave. -/
def tabledFrom (builder : Builder) : List Push → List (UInt32 × UInt32)
  | [] => []
  | .instruction instruction :: rest => (builder.push instruction).tabledFrom rest
  | .target target :: rest =>
    ((builder.pushTarget target).lastTargetAddress, target) ::
      (builder.pushTarget target).tabledFrom rest

def built (pushes : List Push) : Program :=
  (({} : Builder).pushAll pushes).build

def placed (pushes : List Push) : List (UInt32 × Instruction) :=
  ({} : Builder).placedFrom pushes

def tabled (pushes : List Push) : List (UInt32 × UInt32) :=
  ({} : Builder).tabledFrom pushes

/-! ## What the answers are -/

section Answers

variable (instructions : List Instruction) (targets : List UInt32) (pushes : List Push)

/-- The order between instructions and targets leaves no trace. -/
theorem pushAll_holding :
    (holding instructions targets).pushAll pushes =
      holding (instructions ++ instructionsOf pushes) (targets ++ targetsOf pushes) := by
  induction pushes generalizing instructions targets with
  | nil => simp [pushAll, instructionsOf, targetsOf]
  | cons push rest ih =>
      cases push with
      | instruction instruction =>
          rw [pushAll, push_holding, ih]
          simp [instructionsOf, targetsOf]
      | target target =>
          rw [pushAll, pushTarget_holding, ih]
          simp [instructionsOf, targetsOf]

theorem placedFrom_holding :
    (holding instructions targets).placedFrom pushes =
      (laidOut (instructions.flatMap Instruction.encode).length (instructionsOf pushes)).map
        fun entry => (UInt32.ofNat entry.1, entry.2) := by
  induction pushes generalizing instructions targets with
  | nil => rfl
  | cons push rest ih =>
      cases push with
      | instruction instruction =>
          rw [placedFrom, push_holding, ih, offset_holding]
          simp [instructionsOf, laidOut]
      | target target =>
          rw [placedFrom, pushTarget_holding, ih, instructionsOf]

theorem lastTargetAddress_holding :
    (holding instructions targets).lastTargetAddress = UInt32.ofNat (targets.length * 2) := by
  rw [lastTargetAddress, holding_eq, List.size_toArray, AddressSpace.jumpAlignment]

theorem tabledFrom_holding :
    (holding instructions targets).tabledFrom pushes =
      ((targetsOf pushes).zipIdx targets.length).map fun entry =>
        (UInt32.ofNat ((entry.2 + 1) * 2), entry.1) := by
  induction pushes generalizing instructions targets with
  | nil => rfl
  | cons push rest ih =>
      cases push with
      | instruction instruction =>
          rw [tabledFrom, push_holding, ih, targetsOf]
      | target target =>
          rw [tabledFrom, pushTarget_holding, ih, lastTargetAddress_holding]
          simp [targetsOf]

end Answers

variable {pushes : List Push}

theorem built_eq (pushes : List Push) :
    built pushes = (holding (instructionsOf pushes) (targetsOf pushes)).build :=
  congrArg build (pushAll_holding [] [] pushes)

theorem size_code_built (pushes : List Push) :
    (built pushes).image.code.size =
      ((instructionsOf pushes).flatMap Instruction.encode).length := by
  rw [built_eq, holding_eq]
  exact List.size_toByteArray

theorem entryCount_built (pushes : List Push) :
    (built pushes).image.entryCount = (targetsOf pushes).length := by
  rw [built_eq, holding_eq]
  rfl

/-! ## What the finished program has -/

/-- The program has the pushed instructions at the offsets that their pushes gave. -/
theorem instructions_built
    (hwellFormed : ∀ instruction ∈ instructionsOf pushes, instruction.WellFormed)
    (hcode : (built pushes).image.code.size < 2 ^ 32) :
    (built pushes).instructions.toList =
      (placed pushes).map fun entry => (entry.1.toNat, .ok entry.2) := by
  have hplaced : placed pushes = (laidOut 0 (instructionsOf pushes)).map
      fun entry => (UInt32.ofNat entry.1, entry.2) := placedFrom_holding [] [] pushes
  rw [size_code_built] at hcode
  rw [built_eq, instructions_holding _ hwellFormed, hplaced, List.map_map]
  apply List.map_congr_left
  intro entry hentry
  have hbounds := bounds_of_mem_laidOut hentry
  rw [Nat.zero_add] at hbounds
  have hoffset : (UInt32.ofNat entry.1).toNat = entry.1 :=
    UInt32.toNat_ofNat_of_lt' (Nat.lt_trans hbounds.2 hcode)
  rw [Function.comp_apply, hoffset]

/-- Each target has the address that its place in the table gives it. -/
theorem tabled_eq (pushes : List Push) :
    tabled pushes = (targetsOf pushes).zipIdx.map fun entry =>
      (UInt32.ofNat ((entry.2 + 1) * 2), entry.1) :=
  tabledFrom_holding [] [] pushes

theorem getElem?_tabled (pushes : List Push) (index : Nat) :
    (tabled pushes)[index]? = (targetsOf pushes)[index]?.map fun target =>
      (UInt32.ofNat ((index + 1) * 2), target) := by
  rw [tabled_eq, List.getElem?_map, List.getElem?_zipIdx, Option.map_map, Nat.zero_add]
  rfl

theorem map_snd_tabled (pushes : List Push) :
    (tabled pushes).map Prod.snd = targetsOf pushes := by
  rw [tabled_eq, List.map_map]
  exact List.zipIdx_map_fst 0 _

/-- The table has the pushed targets, one after the other. -/
theorem jumpTarget?_built (pushes : List Push) (index : Nat) :
    (built pushes).jumpTarget? index = (tabled pushes)[index]?.map Prod.snd := by
  rw [← List.getElem?_map, map_snd_tabled, built_eq, jumpTarget?_build, holding_eq,
    List.getElem?_toArray]

/-- No narrower entries hold all targets. -/
theorem isLeast_entryWidth_built (pushes : List Push) :
    IsLeast {width | ∀ entry ∈ tabled pushes, entry.2.toNat < 2 ^ (8 * width)}
      (built pushes).image.entryWidth.toNat := by
  have hholds (width : Nat) :
      (built pushes).image.entryWidth.toNat ≤ width ↔
        ∀ entry ∈ tabled pushes, entry.2.toNat < 2 ^ (8 * width) := by
    have hwidth : (built pushes).image.entryWidth.toNat =
        (holding (instructionsOf pushes) (targetsOf pushes)).entryWidth := by
      rw [built_eq]
      exact toNat_entryWidth _
    rw [hwidth, entryWidth_le_iff, holding_eq, ← map_snd_tabled]
    exact List.forall_mem_map
  exact ⟨(hholds _).mp (Nat.le_refl _), fun width hwidth => (hholds width).mpr hwidth⟩

theorem parse_encode_built_iff (pushes : List Push) :
    parse (built pushes).encode = .ok (built pushes) ↔
      (built pushes).image.code.size ≤ 2 ^ 22 ∧ (built pushes).image.entryCount ≤ 2 ^ 20 := by
  rw [built_eq]
  generalize holding (instructionsOf pushes) (targetsOf pushes) = builder
  have hwidth : builder.image.entryWidth.toNat ≤ 8 := by
    rw [toNat_entryWidth]
    exact Nat.le_trans builder.entryWidth_le (by decide)
  refine (parse_encode_eq_iff builder.proportioned).trans ⟨?_, ?_⟩
  · intro hlimits
    exact ⟨hlimits.code, hlimits.entryCount⟩
  · rintro ⟨hcode, hcount⟩
    exact ⟨hcount, hwidth, hcode⟩

/-- A jump to the address that a push gave leads to the pushed target. -/
theorem dynamicJump_built (hcount : (built pushes).image.entryCount ≤ 2 ^ 20)
    {address target : UInt32} (hentry : (address, target) ∈ tabled pushes) :
    (built pushes).dynamicJump address =
      if target.toNat ∈ (built pushes).blockStarts then .jump target
      else .panic .invalidDynamicJump := by
  obtain ⟨index, hindex⟩ := List.mem_iff_getElem?.mp hentry
  have htarget : (built pushes).jumpTarget? index = some target := by
    rw [jumpTarget?_built, hindex]
    rfl
  rw [getElem?_tabled] at hindex
  obtain ⟨pushed, hpushed, hentry⟩ := Option.map_eq_some_iff.mp hindex
  obtain ⟨rfl, rfl⟩ := Prod.mk.inj hentry
  have hlength : index < (targetsOf pushes).length := (List.getElem?_eq_some_iff.mp hpushed).1
  rw [entryCount_built] at hcount
  have haddress : (UInt32.ofNat ((index + 1) * 2)).toNat = (index + 1) * 2 :=
    UInt32.toNat_ofNat_of_lt' (Nat.lt_of_le_of_lt (by omega : _ ≤ 2 ^ 21) (by decide))
  -- The table is too small to reach up to the halting address.
  have hhalt : UInt32.ofNat ((index + 1) * 2) ≠ 0xFFFF0000 := by
    intro heq
    have hhalting : (0xFFFF0000 : UInt32).toNat = 0xFFFF0000 := rfl
    rw [← heq, haddress] at hhalting
    omega
  exact dynamicJump_of_jumpTarget? hhalt haddress htarget

/-- A program means what was pushed for it, in whatever order.  It has the pushed
instructions and no others, each at the offset that its push gave.  Its table has
the pushed targets in entries that are as narrow as the targets allow.  What is
written for it is read as the same program exactly if code and table are within
the limits of a blob.  And in a table within the limit, the address that the push
of a target gave leads to the target exactly if a block starts there. -/
theorem built_programs_mean_what_was_pushed {pushes : List Push}
    (hwellFormed : ∀ instruction ∈ instructionsOf pushes, instruction.WellFormed)
    (hcode : (built pushes).image.code.size < 2 ^ 32) :
    (built pushes).instructions.toList =
      (placed pushes).map (fun entry => (entry.1.toNat, .ok entry.2)) ∧
    (∀ index, (built pushes).jumpTarget? index = (tabled pushes)[index]?.map Prod.snd) ∧
    IsLeast {width | ∀ entry ∈ tabled pushes, entry.2.toNat < 2 ^ (8 * width)}
      (built pushes).image.entryWidth.toNat ∧
    (parse (built pushes).encode = .ok (built pushes) ↔
      (built pushes).image.code.size ≤ 2 ^ 22 ∧ (built pushes).image.entryCount ≤ 2 ^ 20) ∧
    ((built pushes).image.entryCount ≤ 2 ^ 20 →
      ∀ address target, (address, target) ∈ tabled pushes →
        ((built pushes).dynamicJump address = .jump target ↔
          target.toNat ∈ (built pushes).blockStarts) ∧
        (target.toNat ∉ (built pushes).blockStarts →
          (built pushes).dynamicJump address = .panic .invalidDynamicJump)) := by
  refine ⟨instructions_built hwellFormed hcode, jumpTarget?_built pushes,
    isLeast_entryWidth_built pushes, parse_encode_built_iff pushes, ?_⟩
  intro hcount address target hentry
  rw [dynamicJump_built hcount hentry]
  refine ⟨⟨?_, ?_⟩, ?_⟩
  · intro hjump
    by_contra hblock
    rw [if_neg hblock] at hjump
    cases hjump
  · intro hblock
    rw [if_pos hblock]
  · intro hblock
    rw [if_neg hblock]

/-- Instructions and targets in turns.  A block starts at the second target, and
none at the others. -/
def turns : List Push :=
  [.target 3, .instruction ⟨.ecalli, .imm 300⟩, .instruction ⟨.fallthrough, .bare⟩, .target 4,
    .target 0x12345, .instruction ⟨.trap, .bare⟩]

theorem turns_mean_what_was_pushed :
    (∀ instruction ∈ instructionsOf turns, instruction.WellFormed) ∧
      (built turns).image.code.size < 2 ^ 32 ∧
      (built turns).instructions.toList =
        [(0, .ok ⟨.ecalli, .imm 300⟩), (3, .ok ⟨.fallthrough, .bare⟩), (4, .ok ⟨.trap, .bare⟩)] ∧
      (built turns).jumpTarget? 2 = some 0x12345 ∧
      IsLeast {width | ∀ entry ∈ tabled turns, entry.2.toNat < 2 ^ (8 * width)} 3 ∧
      parse (built turns).encode = .ok (built turns) ∧
      (built turns).dynamicJump 2 = .panic .invalidDynamicJump ∧
      (built turns).dynamicJump 4 = .jump 4 := by
  have hwellFormed : ∀ instruction ∈ instructionsOf turns, instruction.WellFormed := by decide
  have hcode : (built turns).image.code.size = 5 := by decide +kernel
  have hblocks : (built turns).blockStarts = [0, 4, 5] := by decide +kernel
  obtain ⟨hinstructions, htargets, hwidth, hparse, hjumps⟩ :=
    built_programs_mean_what_was_pushed hwellFormed (by omega)
  have hthree : (built turns).image.entryWidth.toNat = 3 := by decide +kernel
  refine ⟨hwellFormed, by omega, hinstructions.trans (by decide +kernel),
    (htargets 2).trans (by decide +kernel), hthree ▸ hwidth,
    hparse.mpr ⟨by omega, by decide +kernel⟩, ?_, ?_⟩
  · exact (hjumps (by decide +kernel) 2 3 (by decide +kernel)).2 (by rw [hblocks]; decide)
  · exact (hjumps (by decide +kernel) 4 4 (by decide +kernel)).1.mpr (by rw [hblocks]; decide)

end Builder

end GasMachine.Program
