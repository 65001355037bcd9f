import GasMachine.Proofs.Machine.GasMetering

/-!
# Gas can be handed out in slices

No instruction looks at the gas, so machines that differ in their gas only take
the same steps as long as both can pay.  A run that ends for want of gas has
stopped between two instructions, and goes on from there as if it had had more
gas from the start.
-/

namespace GasMachine

namespace Gas

/-- Amounts whose sum an account can hold add up as integers. -/
theorem toInt_add_of_le {left right : Int64} (hleft : 0 ≤ left) (hright : 0 ≤ right)
    (hsum : left.toInt + right.toInt ≤ Int64.maxValue.toInt) :
    (left + right).toInt = left.toInt + right.toInt := by
  have hleft : 0 ≤ left.toInt := Int64.le_iff_toInt_le.mp hleft
  have hright : 0 ≤ right.toInt := Int64.le_iff_toInt_le.mp hright
  have hmax : Int64.maxValue.toInt = 2 ^ 63 - 1 := rfl
  rw [Int64.toInt_add]
  apply Int.bmod_eq_of_le <;> omega

variable {gas : Gas} {more : Int64}

/-- It is the same to pay from an account and then add to it, or to pay from the
sum. -/
theorem consume_one_add (hgas : gas.exhausted = false) (hmore : 0 ≤ more)
    (hsum : gas.value.toInt + more.toInt ≤ Int64.maxValue.toInt) :
    consume ⟨gas.value + more⟩ 1 = ⟨(gas.consume 1).value + more⟩ := by
  have hpositive := exhausted_eq_false_iff.mp hgas
  have hmoreInt : 0 ≤ more.toInt := Int64.le_iff_toInt_le.mp hmore
  have hpaid := toInt_consume_one hgas
  have hboth : (gas.value + more).toInt = gas.value.toInt + more.toInt :=
    toInt_add_of_le (Int64.le_iff_toInt_le.mpr (Int.le_of_lt hpositive)) hmore hsum
  have hleft : ((gas.consume 1).value + more).toInt = (gas.consume 1).value.toInt + more.toInt := by
    apply toInt_add_of_le _ hmore
    · rw [hpaid]
      omega
    · rw [Int64.le_iff_toInt_le, hpaid]
      exact Int.le_sub_one_of_lt hpositive
  have hsumGas : Gas.exhausted ⟨gas.value + more⟩ = false := by
    rw [exhausted_eq_false_iff, hboth]
    exact Int.add_pos_of_pos_of_nonneg hpositive hmoreInt
  rw [Gas.mk.injEq, ← Int64.toInt_inj, toInt_consume_one hsumGas, hboth, hleft, hpaid]
  omega

/-- To pay and be paid back changes nothing. -/
theorem consume_one_add_one (hgas : gas.exhausted = false) :
    Gas.mk ((gas.consume 1).value + 1) = gas := by
  have hpositive := exhausted_eq_false_iff.mp hgas
  have hpaid := toInt_consume_one hgas
  have hone : (1 : Int64).toInt = 1 := rfl
  have hsum : ((gas.consume 1).value + 1).toInt = (gas.consume 1).value.toInt + 1 := by
    apply toInt_add_of_le
    · rw [Int64.le_iff_toInt_le, hpaid]
      exact Int.le_sub_one_of_lt hpositive
    · decide
    · rw [hpaid, hone, Int.sub_add_cancel]
      exact gas.value.toInt_le
  apply congrArg Gas.mk
  rw [← Int64.toInt_inj, hsum, hpaid, Int.sub_add_cancel]

end Gas

namespace Machine

variable {μ : Type}

def withGas (machine : Machine μ) (gas : Gas) : Machine μ :=
  { machine with gas := gas }

@[simp]
theorem gas_withGas (machine : Machine μ) (gas : Gas) : (machine.withGas gas).gas = gas := rfl

@[simp]
theorem memory_withGas (machine : Machine μ) (gas : Gas) :
    (machine.withGas gas).memory = machine.memory := rfl

variable [Memory μ]

theorem load_withGas (machine : Machine μ) (gas : Gas) (address : UInt32) (width : Nat) :
    (machine.withGas gas).load address width =
      ((machine.load address width).1, (machine.load address width).2.withGas gas) := by
  rw [load, load]
  cases isReserved address <;> rfl

theorem store_withGas (machine : Machine μ) (gas : Gas) (address : UInt32) (bytes : ByteArray) :
    (machine.withGas gas).store address bytes =
      ((machine.store address bytes).1, (machine.store address bytes).2.withGas gas) := by
  rw [store, store]
  cases isReserved address <;> rfl

/-- Serving a request takes no notice of the gas. -/
theorem serve_withGas (machine : Machine μ) (gas : Gas) (request : Request) :
    (machine.withGas gas).serve request =
      ((machine.serve request).1, (machine.serve request).2.withGas gas) := by
  cases request with
  | finish effect registers => rfl
  | load target address width signed =>
      rw [serve, serve, loadWord, loadWord, load_withGas]
      rcases machine.load address width with ⟨bytes | failure, after⟩
      · cases bytes <;> rfl
      · rfl
  | store address value width =>
      rw [serve, serve, storeWord, storeWord, store_withGas]
      rcases machine.store address (LittleEndian.encode value width).toByteArray with
        ⟨error | written, after⟩ <;> rfl
  | grow target increment =>
      rw [serve, serve, growHeap, growHeap, memory_withGas]
      rcases Memory.grow machine.memory increment with ⟨error | address, after⟩ <;> rfl

/-- Machines that differ in their gas take the same step if both can pay. -/
theorem step_withGas {program : Program} {machine : Machine μ} {gas : Gas}
    (hmachine : machine.gas.exhausted = false) (hgas : gas.exhausted = false) :
    (machine.withGas gas).step program =
      ((machine.step program).1, (machine.step program).2.withGas (gas.consume 1)) := by
  have hwithGas : (machine.withGas gas).gas.exhausted = false := hgas
  cases hinstruction : program.instructionAt machine.pc with
  | error error =>
      have hother : program.instructionAt (machine.withGas gas).pc = .error error :=
        hinstruction
      rw [step_of_error hmachine hinstruction, step_of_error hwithGas hother]
      rfl
  | ok instruction =>
      have hother : program.instructionAt (machine.withGas gas).pc = .ok instruction :=
        hinstruction
      have hserve : ((machine.withGas gas).charge 1).serve
            ((machine.withGas gas).request program instruction) = _ :=
        (machine.charge 1).serve_withGas (gas.consume 1) (machine.request program instruction)
      rw [step_of_instruction hmachine hinstruction, step_of_instruction hwithGas hother, hserve]
      rcases (machine.charge 1).serve (machine.request program instruction) with
        ⟨effect, served⟩
      cases effect <;> rfl

section Slices

variable {program : Program} {machine after : Machine μ} {more : Int64}
variable (hgas : 0 ≤ machine.gas.value) (hmore : 0 ≤ more)
variable (hsum : machine.gas.value.toInt + more.toInt ≤ Int64.maxValue.toInt)
include hmore hsum

/-- A step that is paid for is the same with more gas, which is still there
afterwards. -/
theorem step_withGas_add {outcome : Outcome} (hstep : machine.step program = (outcome, after))
    (houtcome : outcome ≠ .stopped (.exit .outOfGas)) :
    (machine.withGas ⟨machine.gas.value + more⟩).step program =
      (outcome, after.withGas ⟨after.gas.value + more⟩) := by
  have hpaid := exhausted_eq_false_of_step hstep houtcome
  have hpositive := Gas.exhausted_eq_false_iff.mp hpaid
  have hboth : Gas.exhausted ⟨machine.gas.value + more⟩ = false := by
    rw [Gas.exhausted_eq_false_iff, Gas.toInt_add_of_le
      (Int64.le_iff_toInt_le.mpr (Int.le_of_lt hpositive)) hmore hsum]
    exact Int.add_pos_of_pos_of_nonneg hpositive (Int64.le_iff_toInt_le.mp hmore)
  rw [step_withGas hpaid hboth, hstep, Gas.consume_one_add hpaid hmore hsum,
    gas_of_step hstep houtcome]

include hgas

/-- What more gas changes in a run: nothing before it is needed, and from then on
the run goes on with it. -/
theorem run_withGas_add :
    ((machine.run program).1 = .exit .outOfGas →
      (machine.withGas ⟨machine.gas.value + more⟩).run program =
        ((machine.run program).2.withGas ⟨more⟩).run program) ∧
    ((machine.run program).1 ≠ .exit .outOfGas →
      (machine.withGas ⟨machine.gas.value + more⟩).run program =
        ((machine.run program).1,
          (machine.run program).2.withGas ⟨(machine.run program).2.gas.value + more⟩)) := by
  induction machine using @run_induction μ _ program with
  | hstopped machine stop after hstep =>
      rw [run_of_stopped hstep]
      by_cases hstop : stop = .exit .outOfGas
      · have hnone : machine.gas.exhausted = true :=
          (step_outOfGas_iff program machine).mp (by rw [hstep, hstop])
        have hzero : machine.gas.value = 0 :=
          Int64.toInt_inj.mp (Int.le_antisymm (Gas.exhausted_iff.mp hnone)
            (Int64.le_iff_toInt_le.mp hgas))
        rw [step_of_exhausted program hnone] at hstep
        obtain ⟨-, rfl⟩ := Prod.mk.inj hstep
        refine ⟨fun _ => ?_, fun hother => absurd hstop hother⟩
        rw [hzero, Int64.zero_add]
      · refine ⟨fun hother => absurd hother hstop, fun _ => ?_⟩
        exact run_of_stopped (step_withGas_add hmore hsum hstep (by simpa using hstop))
  | hrunning machine after hstep ih =>
      have hlonger := step_withGas_add hmore hsum hstep nofun
      have hpaid := exhausted_eq_false_of_step hstep nofun
      have hpositive := Gas.exhausted_eq_false_iff.mp hpaid
      have hafter : after.gas.value.toInt = machine.gas.value.toInt - 1 := by
        rw [gas_of_step hstep nofun, Gas.toInt_consume_one hpaid]
      rw [run_of_running hstep, run_of_running hlonger]
      apply ih
      · rw [Int64.le_iff_toInt_le, hafter]
        exact Int.le_sub_one_of_lt hpositive
      · omega

end Slices

/-- Gas can be handed out in slices.  Let a run with the gas `first` end, from any
state of any program on any memory.  If it ends for want of gas, the run that goes
on from there with the gas `second` ends exactly as one run with all of the gas,
in the same machine.  If it ends for any other reason, the run with all of the gas
ends for that reason in the same machine, with `second` more gas left. -/
theorem run_in_slices (program : Program) (machine : Machine μ) (first second : Int64)
    (hfirst : 0 ≤ first) (hsecond : 0 ≤ second)
    (hsum : first.toInt + second.toInt ≤ Int64.maxValue.toInt) {stop : Stop}
    {after : Machine μ} (hrun : (machine.withGas ⟨first⟩).run program = (stop, after)) :
    (stop = .exit .outOfGas →
      (after.withGas ⟨second⟩).run program = (machine.withGas ⟨first + second⟩).run program) ∧
    (stop ≠ .exit .outOfGas →
      (machine.withGas ⟨first + second⟩).run program =
        (stop, after.withGas ⟨after.gas.value + second⟩) ∧
      (after.gas.value + second).toInt = after.gas.value.toInt + second.toInt) := by
  have hslices := @run_withGas_add μ _ program (machine.withGas ⟨first⟩) second hfirst hsecond hsum
  obtain ⟨hlower, hupper⟩ := gas_run_bounds program (machine.withGas ⟨first⟩)
  rw [hrun] at hslices hlower hupper
  refine ⟨fun hstop => (hslices.1 hstop).symm, fun hstop => ⟨hslices.2 hstop, ?_⟩⟩
  have hfirst : 0 ≤ first.toInt := Int64.le_iff_toInt_le.mp hfirst
  have hleft : 0 ≤ after.gas.value.toInt := by
    rw [gas_withGas, Int.min_eq_right hfirst] at hlower
    exact hlower
  apply Gas.toInt_add_of_le (Int64.le_iff_toInt_le.mpr hleft) hsecond
  exact Int.le_trans (Int.add_le_add_right hupper _) hsum

def callSoon : Program :=
  .ofImage ⟨ByteArray.empty, 0, 0, [1, 10, 7].toByteArray, [3].toByteArray⟩

def callSoonStart : Machine SparseMemory :=
  ⟨0, .zero, ⟨0⟩, .empty 0⟩

/-- With one unit of gas the run stops before its call, and with two it gets
there. -/
theorem callSoon_run_in_slices :
    (callSoonStart.withGas ⟨1⟩).run callSoon = (.exit .outOfGas, ⟨1, .zero, ⟨0⟩, .empty 0⟩) ∧
      (callSoonStart.withGas ⟨2⟩).run callSoon =
        (.exit (.hostCall 7), ⟨1, .zero, ⟨0⟩, .empty 0⟩) ∧
      (⟨1, .zero, ⟨5⟩, .empty 0⟩ : Machine SparseMemory).run callSoon =
        (callSoonStart.withGas ⟨6⟩).run callSoon ∧
      (callSoonStart.withGas ⟨7⟩).run callSoon =
        (.exit (.hostCall 7), ⟨1, .zero, ⟨5⟩, .empty 0⟩) := by
  have hshort : (callSoonStart.withGas ⟨1⟩).run callSoon =
      (.exit .outOfGas, ⟨1, .zero, ⟨0⟩, .empty 0⟩) := by rfl
  have hlong : (callSoonStart.withGas ⟨2⟩).run callSoon =
      (.exit (.hostCall 7), ⟨1, .zero, ⟨0⟩, .empty 0⟩) := by rfl
  have hresumed := run_in_slices callSoon callSoonStart 1 5 (by decide) (by decide) (by decide)
    hshort
  have hunchanged := run_in_slices callSoon callSoonStart 2 5 (by decide) (by decide) (by decide)
    hlong
  exact ⟨hshort, hlong, hresumed.1 rfl, (hunchanged.2 (by decide)).1⟩

end Machine

end GasMachine
