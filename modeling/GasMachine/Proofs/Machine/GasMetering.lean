import GasMachine.Memory.Sparse
import GasMachine.Proofs.Machine.Rounds

/-!
# Gas bounds and meters runs

A step that finds gas takes one unit of it, whatever becomes of the instruction,
and a step that finds none changes nothing.  So the gas that a run has used is
the number of instructions that it fetched.  A run ends after as many of them as
its gas pays for, also under a host that services its calls, as long as the host
does not hand out gas.
-/

namespace GasMachine

/-! ## Accounts -/

namespace Gas

theorem exhausted_iff {gas : Gas} : gas.exhausted = true ↔ gas.value.toInt ≤ 0 := by
  rw [exhausted, decide_eq_true_eq, Int64.le_iff_toInt_le]
  exact Iff.rfl

theorem exhausted_eq_false_iff {gas : Gas} :
    gas.exhausted = false ↔ 0 < gas.value.toInt := by
  rw [Bool.eq_false_iff, Ne, exhausted_iff, Int.not_le]

theorem exhausted_iff_budget {gas : Gas} : gas.exhausted = true ↔ gas.budget = 0 := by
  rw [exhausted_iff, budget, Int.toNat_eq_zero]

/-- How much of an amount is taken at once: no more than an account can hold. -/
def debit (amount : UInt64) : Nat :=
  min amount.toNat 0x7FFFFFFFFFFFFFFF

theorem toInt_ofBudget (budget : UInt64) : (ofBudget budget).value.toInt = debit budget := by
  rw [ofBudget, debit]
  by_cases hfits : budget < 0x8000000000000000
  · have hlt : budget.toNat < 0x8000000000000000 := UInt64.lt_iff_toNat_lt.mp hfits
    have hword : budget.toInt64 = Int64.ofNat budget.toNat := by
      rw [← UInt64.toInt64_ofNat', UInt64.ofNat_toNat]
    rw [if_pos hfits, hword, Int64.toInt_ofNat_of_lt hlt, Nat.min_eq_left (by omega)]
  · have hge : 0x8000000000000000 ≤ budget.toNat :=
      Nat.not_lt.mp fun hlt => hfits (UInt64.lt_iff_toNat_lt.mpr hlt)
    rw [if_neg hfits, Nat.min_eq_right (by omega)]
    rfl

/-- Taking an amount subtracts its debit, down to the least value of an account. -/
theorem toInt_consume (gas : Gas) (amount : UInt64) :
    (gas.consume amount).value.toInt =
      max Int64.minValue.toInt (gas.value.toInt - debit amount) := by
  have hlower := gas.value.le_toInt
  have hupper := gas.value.toInt_lt
  have hdebit : debit amount ≤ 0x7FFFFFFFFFFFFFFF := Nat.min_le_right _ _
  have hleft : (gas.value - (ofBudget amount).value).toInt =
      (gas.value.toInt - debit amount).bmod (2 ^ 64) := by
    rw [Int64.toInt_sub, toInt_ofBudget]
  rw [consume]
  dsimp only
  rw [apply_ite Int64.toInt, Int64.toInt_minValue]
  simp only [Int64.le_iff_toInt_le, hleft]
  -- A difference below the least value goes around and is above the account it was taken from.
  by_cases hreached : -2 ^ 63 ≤ gas.value.toInt - debit amount
  · have hexact : (gas.value.toInt - debit amount).bmod (2 ^ 64) =
        gas.value.toInt - debit amount := by
      apply Int.bmod_eq_of_le <;> omega
    rw [hexact, if_pos (by omega), Int.max_eq_right hreached]
  · have hwrapped : (gas.value.toInt - debit amount).bmod (2 ^ 64) =
        gas.value.toInt - debit amount + 2 ^ 64 := by
      rw [← Int.add_bmod_right]
      apply Int.bmod_eq_of_le <;> omega
    rw [hwrapped, if_neg (by omega), Int.max_eq_left (by omega)]

/-- An account that pays for an instruction has one unit less. -/
theorem toInt_consume_one {gas : Gas} (hgas : gas.exhausted = false) :
    (gas.consume 1).value.toInt = gas.value.toInt - 1 := by
  have hpositive := exhausted_eq_false_iff.mp hgas
  have hone : debit 1 = 1 := rfl
  rw [toInt_consume, hone, Int64.toInt_minValue]
  omega

theorem budget_consume_one {gas : Gas} (hgas : gas.exhausted = false) :
    (gas.consume 1).budget + 1 = gas.budget := by
  have hpositive := exhausted_eq_false_iff.mp hgas
  rw [budget, budget, toInt_consume_one hgas]
  omega

/-- Taking gas never adds any. -/
theorem consume_le (gas : Gas) (amount : UInt64) : (gas.consume amount).value ≤ gas.value := by
  have hlower := gas.value.le_toInt
  rw [Int64.le_iff_toInt_le, toInt_consume, Int64.toInt_minValue]
  omega

theorem budget_mono {gas other : Gas} (hle : gas.value ≤ other.value) :
    gas.budget ≤ other.budget :=
  Int.toNat_le_toNat (Int64.le_iff_toInt_le.mp hle)

end Gas

/-! ## Steps -/

theorem Exit.ofMemoryError_cases (error : MemoryError) :
    (∃ address, ofMemoryError error = .pageFault address) ∨
      ofMemoryError error = .panic .trap := by
  rw [ofMemoryError]
  cases error.faultAddress with
  | none => exact Or.inr rfl
  | some address => exact Or.inl ⟨address, rfl⟩

theorem Exit.ofMemoryError_eq_pageFault_iff {error : MemoryError} {fault : UInt32} :
    ofMemoryError error = .pageFault fault ↔ error.faultAddress = some fault := by
  rw [ofMemoryError]
  cases error.faultAddress <;> simp

theorem Action.Leads.ne_outOfGas {action : Action} {program : Program} {effect : Effect}
    (hleads : action.Leads program effect) : effect ≠ .exit .outOfGas := by
  cases hleads <;> nofun

theorem Action.Leads.ne_pageFault {action : Action} {program : Program} {effect : Effect}
    (hleads : action.Leads program effect) (fault : UInt32) :
    effect ≠ .exit (.pageFault fault) := by
  cases hleads <;> nofun

namespace Machine

variable {σ μ : Type} [Memory μ]

/-- A step takes one unit of gas if there is any, and none otherwise. -/
theorem gas_step (program : Program) (machine : Machine μ) :
    (machine.step program).2.gas =
      if machine.gas.exhausted then machine.gas else machine.gas.consume 1 := by
  rcases machine.step_cases program with
    ⟨hgas, hstep⟩ | ⟨hgas, _, _, hstep⟩ | ⟨hgas, instruction, effect, served, _, hserve, hstep⟩
  · rw [hstep, if_pos hgas]
  · rw [hstep, hgas, if_neg Bool.false_ne_true, charge]
  · obtain ⟨registers, memory, hframe⟩ :=
      (machine.charge 1).serve_frame (machine.request program instruction)
    rw [hserve] at hframe
    obtain rfl := hframe
    rw [hstep, hgas, if_neg Bool.false_ne_true]
    cases effect <;> rfl

/-- A request to the memory that ends in an exit is one that the memory refuses. -/
theorem serve_exit_cases {machine after : Machine μ} {request : Request} {reason : Exit}
    (hserve : machine.serve request = (.exit reason, after)) :
    (∃ registers, request = .finish (.exit reason) registers ∧
        after = { machine with registers := registers }) ∨
      ∃ error, reason = .ofMemoryError error ∧
        ((∃ target address width signed, request = .load target address width signed ∧
            machine.load address width = (.error (.refused error), after)) ∨
          (∃ address value width, request = .store address value width ∧
            machine.store address (LittleEndian.encode value width).toByteArray =
              (.error error, after)) ∨
          ∃ target increment memory, request = .grow target increment ∧
            Memory.grow machine.memory increment = (.error error, memory) ∧
            after = { machine with memory := memory }) := by
  cases request with
  | finish effect registers =>
      obtain ⟨rfl, rfl⟩ := Prod.mk.inj hserve
      exact Or.inl ⟨registers, rfl, rfl⟩
  | load target address width signed =>
      rw [serve, loadWord] at hserve
      split at hserve
      · cases hserve
      · next error refused hload =>
          obtain ⟨hreason, rfl⟩ := Prod.mk.inj hserve
          cases hreason
          exact Or.inr ⟨error, rfl, Or.inl ⟨_, _, _, _, rfl, hload⟩⟩
      · cases hserve
  | store address value width =>
      rw [serve, storeWord] at hserve
      split at hserve
      · cases hserve
      · next error refused hstore =>
          obtain ⟨hreason, rfl⟩ := Prod.mk.inj hserve
          cases hreason
          exact Or.inr ⟨error, rfl, Or.inr (Or.inl ⟨_, _, _, rfl, hstore⟩)⟩
  | grow target increment =>
      rw [serve, growHeap] at hserve
      split at hserve
      · cases hserve
      · next error memory hgrow =>
          obtain ⟨hreason, rfl⟩ := Prod.mk.inj hserve
          cases hreason
          exact Or.inr ⟨error, rfl, Or.inr (Or.inr ⟨_, _, _, rfl, hgrow, rfl⟩)⟩

/-- The memory brings about page faults and traps, and no other exits. -/
theorem eq_finish_of_serve_exit {machine after : Machine μ} {request : Request} {reason : Exit}
    (hserve : machine.serve request = (.exit reason, after))
    (hfault : ∀ address, reason ≠ .pageFault address) (htrap : reason ≠ .panic .trap) :
    ∃ registers, request = .finish (.exit reason) registers := by
  rcases serve_exit_cases hserve with ⟨registers, hfinish, -⟩ | ⟨error, herror, -⟩
  · exact ⟨registers, hfinish⟩
  · rcases Exit.ofMemoryError_cases error with ⟨address, hrefused⟩ | hrefused
    · exact absurd (herror.trans hrefused) (hfault address)
    · exact absurd (herror.trans hrefused) htrap

/-- Only a step that finds no gas ends for want of gas. -/
theorem step_outOfGas_iff (program : Program) (machine : Machine μ) :
    (machine.step program).1 = .stopped (.exit .outOfGas) ↔ machine.gas.exhausted = true := by
  rcases machine.step_cases program with
    ⟨hgas, hstep⟩ | ⟨hgas, _, _, hstep⟩ | ⟨hgas, instruction, effect, served, _, hserve, hstep⟩
  · simp only [hstep, hgas]
  · simp only [hstep, hgas]
    exact ⟨nofun, nofun⟩
  · rw [hstep, hgas]
    refine ⟨fun hstopped => ?_, nofun⟩
    cases effect with
    | advance => cases hstopped
    | jump target => cases hstopped
    | stop stop =>
        cases hstopped
        obtain ⟨registers, hfinish⟩ := eq_finish_of_serve_exit hserve (by simp) (by simp)
        exact absurd rfl (Request.leads_of_ofAction hfinish).ne_outOfGas

/-- A step that goes on, or calls the host, was paid for. -/
theorem exhausted_eq_false_of_step {program : Program} {machine after : Machine μ}
    {outcome : Outcome} (hstep : machine.step program = (outcome, after))
    (houtcome : outcome ≠ .stopped (.exit .outOfGas)) : machine.gas.exhausted = false := by
  rw [Bool.eq_false_iff, Ne, ← step_outOfGas_iff program, hstep]
  exact houtcome

theorem gas_of_step {program : Program} {machine after : Machine μ} {outcome : Outcome}
    (hstep : machine.step program = (outcome, after))
    (houtcome : outcome ≠ .stopped (.exit .outOfGas)) :
    after.gas = machine.gas.consume 1 := by
  have hafter := gas_step program machine
  rwa [hstep, exhausted_eq_false_of_step hstep houtcome, if_neg Bool.false_ne_true] at hafter

theorem budget_of_step {program : Program} {machine after : Machine μ} {outcome : Outcome}
    (hstep : machine.step program = (outcome, after))
    (houtcome : outcome ≠ .stopped (.exit .outOfGas)) :
    after.gas.budget + 1 = machine.gas.budget := by
  rw [gas_of_step hstep houtcome]
  exact Gas.budget_consume_one (exhausted_eq_false_of_step hstep houtcome)

end Machine

/-! ## Runs with a host -/

/-- A host that may take gas in return for its service, but hands out none. -/
def Host.NeverRaisesGas {σ μ : Type} (host : Host σ μ) : Prop :=
  ∀ index state machine, (host index state machine).2.2.gas.value ≤ machine.gas.value

namespace Machine

variable {σ μ : Type}

/-- How many of the machines on which a run takes a step fetch an instruction:
all but those that find no gas. -/
def fetches (machines : List (Machine μ)) : Nat :=
  machines.countP fun machine => !machine.gas.exhausted

variable [Memory μ] {program : Program} {host : Host σ μ}

section HostedRuns

variable (hhost : host.NeverRaisesGas)
include hhost

/-- A round after which the run goes on leaves less to pay with. -/
theorem budget_lt_of_continues {state after : σ} {machine next : Machine μ}
    (hround : round program host state machine = .continues after next) :
    next.gas.budget < machine.gas.budget := by
  rw [round] at hround
  split at hround
  · next stepped hstep =>
      obtain ⟨-, rfl⟩ := Round.continues.inj hround
      exact Nat.lt_of_succ_le (Nat.le_of_eq (budget_of_step hstep (by simp)))
  · next index called hstep =>
      have hpaid := budget_of_step hstep (by simp)
      split at hround
      · next served resumed hreply =>
          obtain ⟨-, rfl⟩ := Round.continues.inj hround
          have htaken := hhost index state called
          rw [hreply] at htaken
          calc resumed.gas.budget ≤ called.gas.budget := Gas.budget_mono htaken
            _ < called.gas.budget + 1 := Nat.lt_succ_self _
            _ = machine.gas.budget := hpaid
      · cases hround
  · cases hround

/-- A run ends within one round more than its gas pays for. -/
theorem exists_runWith_eq {fuel : Nat} (state : σ) {machine : Machine μ}
    (hfuel : machine.gas.budget < fuel) :
    ∃ result, runWith program host fuel state machine = some result := by
  induction fuel generalizing state machine with
  | zero => exact absurd hfuel (Nat.not_lt_zero _)
  | succ fuel ih =>
      rw [runWith_succ]
      cases hround : round program host state machine with
      | continues after next =>
          have hless := budget_lt_of_continues hhost hround
          exact ih after (Nat.lt_of_lt_of_le hless (Nat.le_of_lt_succ hfuel))
      | ends stop after final => exact ⟨_, rfl⟩

/-- A run fetches no more instructions than its gas pays for. -/
theorem fetches_visited_le (fuel : Nat) (state : σ) (machine : Machine μ) :
    fetches (visited program host fuel state machine) ≤ machine.gas.budget := by
  induction fuel generalizing state machine with
  | zero => exact Nat.zero_le _
  | succ fuel ih =>
      rw [visited, fetches, List.countP_cons]
      cases hround : round program host state machine with
      | continues after next =>
          have hless := budget_lt_of_continues hhost hround
          have hrest := ih after next
          rw [fetches] at hrest
          dsimp only
          split <;> omega
      | ends stop after final =>
          rw [List.countP_nil, Nat.zero_add]
          split
          · next hgas =>
              have hgas : machine.gas.exhausted = false := by simpa using hgas
              rw [← Gas.budget_consume_one hgas]
              exact Nat.le_add_left _ _
          · exact Nat.zero_le _

end HostedRuns

/-- More fuel does not change the end of a run. -/
theorem runWith_mono {fuel more : Nat} (hle : fuel ≤ more) {state : σ} {machine : Machine μ}
    {result : Stop × σ × Machine μ}
    (hrun : runWith program host fuel state machine = some result) :
    runWith program host more state machine = some result := by
  induction fuel generalizing more state machine with
  | zero => cases hrun
  | succ fuel ih =>
      obtain ⟨rest, rfl⟩ := Nat.exists_eq_add_of_le' hle
      rw [← Nat.add_assoc, runWith_succ]
      rw [runWith_succ] at hrun
      cases hround : round program host state machine with
      | continues after next =>
          rw [hround] at hrun
          exact ih (Nat.le_add_left _ _) hrun
      | ends stop after final =>
          rw [hround] at hrun
          exact hrun

/-! ## Runs without a host -/

theorem run_of_running {machine after : Machine μ}
    (hstep : machine.step program = (.running, after)) :
    machine.run program = after.run program := by
  rw [run, run, ← budget_of_step hstep nofun, runFor, hstep]

theorem run_of_stopped {machine after : Machine μ} {stop : Stop}
    (hstep : machine.step program = (.stopped stop, after)) :
    machine.run program = (stop, after) := by
  rw [run]
  cases hbudget : machine.gas.budget with
  | zero =>
      have hgas := Gas.exhausted_iff_budget.mpr hbudget
      rw [step_of_exhausted program hgas] at hstep
      obtain ⟨hstop, rfl⟩ := Prod.mk.inj hstep
      cases hstop
      rw [runFor]
  | succ budget => rw [runFor, hstep]

/-- What holds of every machine whose step ends its run, and of every machine
whose step leads to one of which it holds, holds of all machines: no run goes on
for ever. -/
theorem run_induction (program : Program) {holds : Machine μ → Prop}
    (hstopped : ∀ machine stop after,
      machine.step program = (.stopped stop, after) → holds machine)
    (hrunning : ∀ machine after,
      machine.step program = (.running, after) → holds after → holds machine)
    (machine : Machine μ) : holds machine := by
  induction hbudget : machine.gas.budget generalizing machine with
  | zero =>
      exact hstopped machine _ _
        (step_of_exhausted program (Gas.exhausted_iff_budget.mpr hbudget))
  | succ budget ih =>
      rcases hstep : machine.step program with ⟨outcome, after⟩
      cases outcome with
      | stopped stop => exact hstopped machine stop after hstep
      | running =>
          refine hrunning machine after hstep (ih after ?_)
          have hpaid := budget_of_step hstep nofun
          omega

end Machine

/-- The host that ends a run at its first call. -/
def Host.endOnCall {μ : Type} : Host Unit μ := fun index state machine =>
  (.stop (.exit (.hostCall index)), state, machine)

namespace Machine

variable {μ : Type} [Memory μ] {program : Program}

/-- The machines on which a run without a host takes a step, in order. -/
def attempts (program : Program) (machine : Machine μ) : List (Machine μ) :=
  visited program .endOnCall (machine.gas.budget + 1) () machine

theorem round_endOnCall (program : Program) (machine : Machine μ) :
    round program .endOnCall () machine =
      match machine.step program with
      | (.running, after) => .continues () after
      | (.stopped stop, after) => .ends stop () after := by
  rw [round]
  rcases machine.step program with ⟨outcome, after⟩
  rcases outcome with _ | (reason | _)
  · rfl
  · cases reason <;> rfl
  · rfl

theorem attempts_of_running {machine after : Machine μ}
    (hstep : machine.step program = (.running, after)) :
    machine.attempts program = machine :: after.attempts program := by
  rw [attempts, visited, round_endOnCall, hstep, ← budget_of_step hstep nofun]
  rfl

theorem attempts_of_stopped {machine after : Machine μ} {stop : Stop}
    (hstep : machine.step program = (.stopped stop, after)) :
    machine.attempts program = [machine] := by
  rw [attempts, visited, round_endOnCall, hstep]

/-- A run without a host is a run with the host that ends it at its first call. -/
theorem runWith_endOnCall (program : Program) (machine : Machine μ) :
    runWith program .endOnCall (machine.gas.budget + 1) () machine =
      some ((machine.run program).1, (), (machine.run program).2) := by
  induction machine using @run_induction μ _ program with
  | hstopped machine stop after hstep =>
      rw [runWith_succ, round_endOnCall, run_of_stopped hstep, hstep]
  | hrunning machine after hstep ih =>
      rw [runWith_succ, round_endOnCall, run_of_running hstep, hstep,
        ← budget_of_step hstep nofun]
      exact ih

/-- The gas at the end of a run is that at its start less one unit for each
instruction that was fetched. -/
theorem gas_run (program : Program) (machine : Machine μ) :
    (machine.run program).2.gas.value.toInt =
      machine.gas.value.toInt - fetches (machine.attempts program) := by
  induction machine using @run_induction μ _ program with
  | hstopped machine stop after hstep =>
      have hafter := gas_step program machine
      rw [run_of_stopped hstep, attempts_of_stopped hstep]
      rw [hstep] at hafter
      rw [hafter]
      cases hgas : machine.gas.exhausted with
      | true => simp [fetches, hgas]
      | false => simp [fetches, hgas, Gas.toInt_consume_one hgas]
  | hrunning machine after hstep ih =>
      have hgas := exhausted_eq_false_of_step hstep nofun
      have hcount : fetches (machine :: after.attempts program) =
          fetches (after.attempts program) + 1 := by
        simp [fetches, hgas]
      rw [run_of_running hstep, attempts_of_running hstep, ih, gas_of_step hstep nofun,
        Gas.toInt_consume_one hgas, hcount]
      omega

/-- A run uses no more gas than there is. -/
theorem gas_run_bounds (program : Program) (machine : Machine μ) :
    min machine.gas.value.toInt 0 ≤ (machine.run program).2.gas.value.toInt ∧
      (machine.run program).2.gas.value.toInt ≤ machine.gas.value.toInt := by
  have hendOnCall : (Host.endOnCall (μ := μ)).NeverRaisesGas := fun _ _ _ => Int64.le_refl _
  have hfetches : fetches (machine.attempts program) ≤ machine.gas.budget :=
    fetches_visited_le hendOnCall _ () machine
  have hbudget : (machine.gas.budget : Int) = max machine.gas.value.toInt 0 :=
    Int.toNat_eq_max _
  rw [gas_run]
  omega

/-- A run ends for want of gas exactly if one of its steps finds none. -/
theorem run_outOfGas_iff (program : Program) (machine : Machine μ) :
    (machine.run program).1 = .exit .outOfGas ↔
      ∃ attempt ∈ machine.attempts program, attempt.gas.exhausted = true := by
  induction machine using @run_induction μ _ program with
  | hstopped machine stop after hstep =>
      have hgas := step_outOfGas_iff program machine
      rw [hstep, Outcome.stopped.injEq] at hgas
      rw [run_of_stopped hstep, attempts_of_stopped hstep, hgas]
      simp only [List.mem_singleton, exists_eq_left]
  | hrunning machine after hstep ih =>
      have hgas := exhausted_eq_false_of_step hstep nofun
      rw [run_of_running hstep, attempts_of_running hstep, ih]
      simp only [List.mem_cons, exists_eq_or_imp, hgas, Bool.false_eq_true, false_or]

/-- The step of a run that finds no gas is its last, and leaves the machine as it
is. -/
theorem run_eq_of_exhausted {machine attempt : Machine μ}
    (hattempt : attempt ∈ machine.attempts program) (hgas : attempt.gas.exhausted = true) :
    machine.run program = (.exit .outOfGas, attempt) := by
  induction machine using @run_induction μ _ program with
  | hstopped machine stop after hstep =>
      rw [attempts_of_stopped hstep, List.mem_singleton] at hattempt
      subst hattempt
      exact run_of_stopped (step_of_exhausted program hgas)
  | hrunning machine after hstep ih =>
      rw [attempts_of_running hstep, List.mem_cons] at hattempt
      rcases hattempt with rfl | hlater
      · rw [exhausted_eq_false_of_step hstep nofun] at hgas
        cases hgas
      · rw [run_of_running hstep]
        exact ih hlater

/-- Gas bounds and meters every run, of any program on any memory and from any
state.  Under a host that hands out no gas, a run comes to an end that more fuel
does not change, and fetches at most as many instructions as there was gas, or
none.  A run without a host is one with the host that ends it at its first call.
It uses exactly one unit of gas for each instruction that it fetches, whatever
becomes of it, and gas that was positive does not become negative.  It ends for
want of gas exactly if it attempts a fetch with none left, and that attempt
changes nothing. -/
theorem gas_bounds_and_meters_runs (program : Program) (machine : Machine μ) :
    (∀ (σ : Type) (host : Host σ μ), host.NeverRaisesGas → ∀ state : σ,
      (∃ result, ∀ fuel, machine.gas.budget < fuel →
        runWith program host fuel state machine = some result) ∧
      ∀ fuel, (fetches (visited program host fuel state machine) : Int) ≤
        max machine.gas.value.toInt 0) ∧
    (∀ fuel, machine.gas.budget < fuel →
      runWith program .endOnCall fuel () machine =
        some ((machine.run program).1, (), (machine.run program).2)) ∧
    (machine.run program).2.gas.value.toInt =
      machine.gas.value.toInt - fetches (machine.attempts program) ∧
    min machine.gas.value.toInt 0 ≤ (machine.run program).2.gas.value.toInt ∧
    ((machine.run program).1 = .exit .outOfGas ↔
      ∃ attempt ∈ machine.attempts program, attempt.gas.value.toInt ≤ 0) ∧
    ∀ attempt ∈ machine.attempts program, attempt.gas.value.toInt ≤ 0 →
      attempt.step program = (.stopped (.exit .outOfGas), attempt) ∧
        (machine.run program).2 = attempt := by
  have hbudget : (machine.gas.budget : Int) = max machine.gas.value.toInt 0 :=
    Int.toNat_eq_max _
  refine ⟨fun σ host hhost state => ⟨?_, fun fuel => ?_⟩, fun fuel hfuel => ?_,
    gas_run program machine, (gas_run_bounds program machine).1, ?_,
    fun attempt hattempt hgas => ?_⟩
  · obtain ⟨result, hrun⟩ :=
      exists_runWith_eq hhost state (Nat.lt_succ_self machine.gas.budget)
    exact ⟨result, fun fuel hfuel => runWith_mono (Nat.succ_le_of_lt hfuel) hrun⟩
  · rw [← hbudget]
    exact Int.ofNat_le.mpr (fetches_visited_le hhost fuel state machine)
  · exact runWith_mono (Nat.succ_le_of_lt hfuel) (runWith_endOnCall program machine)
  · simp only [run_outOfGas_iff, Gas.exhausted_iff]
  · have hgas := Gas.exhausted_iff.mpr hgas
    refine ⟨step_of_exhausted program hgas, ?_⟩
    rw [run_eq_of_exhausted hattempt hgas]

def chargingHost : Host Unit SparseMemory := fun _ state machine =>
  (.resume, state, machine.charge 1)

def callLoop : Program :=
  .ofImage ⟨ByteArray.empty, 0, 0, [10, 40, 0xFF].toByteArray, [3].toByteArray⟩

def callLoopStart : Machine SparseMemory :=
  ⟨0, .zero, ⟨7⟩, .empty 0⟩

theorem callLoop_ends_within_gas :
    chargingHost.NeverRaisesGas ∧
      (∃ result, ∀ fuel, 7 < fuel →
        runWith callLoop chargingHost fuel () callLoopStart = some result) ∧
      ∀ fuel, (fetches (visited callLoop chargingHost fuel () callLoopStart) : Int) ≤ 7 := by
  have hhost : chargingHost.NeverRaisesGas := fun _ _ machine => machine.gas.consume_le 1
  exact ⟨hhost, (gas_bounds_and_meters_runs callLoop callLoopStart).1 Unit chargingHost hhost ()⟩

end Machine

end GasMachine
