import GasMachine.Proofs.Machine.GasMetering
import GasMachine.Proofs.Machine.Simulation

/-!
# Calls can be serviced inside or outside a run

A host can be called from within a run, or it can let each call end the run,
service it by hand and run again.  Both ways have the same course: the machine
steps until it stops, and a call that the host answers is followed by the rest
of the program.  Each of the two loops ends exactly as that course does, so they
end alike under every host, or neither of them ends.
-/

namespace GasMachine.Machine

variable {σ μ : Type} [Memory μ]

/-- Services calls by hand: runs the machine, and stops with it unless a call
ended the run.  A call is dispatched to the host, which stops the machine or lets
it run again past the call.  The answer begins with the indices of the calls in
their order, and there is none if it takes more than the given number of runs. -/
def serviceLoop (program : Program) (host : Host σ μ) :
    (runs : Nat) → σ → Machine μ → Option (List UInt32 × Stop × σ × Machine μ)
  | 0, _, _ => none
  | runs + 1, state, machine =>
    match machine.run program with
    | (.exit (.hostCall index), machine) =>
      match host index state machine with
      | (.resume, state, machine) =>
        (serviceLoop program host runs state (machine.skipHostCall program)).map
          fun (calls, ending) => (index :: calls, ending)
      | (.stop stop, state, machine) => some ([index], stop, state, machine)
    | (stop, machine) => some ([], stop, state, machine)

/-- The indices of the calls that a run of at most `fuel` rounds dispatches, in
their order. -/
def dispatched (program : Program) (host : Host σ μ) (fuel : Nat) (state : σ)
    (machine : Machine μ) : List UInt32 :=
  (hostCalls program host fuel state machine).map HostCall.index

/-- The course of a machine whose calls a host services, with the indices of the
calls and how it ends. -/
inductive Course (program : Program) (host : Host σ μ) :
    σ → Machine μ → List UInt32 → Stop × σ × Machine μ → Prop where
  | step {state machine after calls ending}
      (hstep : machine.step program = (.running, after))
      (hrest : Course program host state after calls ending) :
      Course program host state machine calls ending
  | stop {state machine stop after}
      (hstep : machine.step program = (.stopped stop, after))
      (hstop : ∀ index, stop ≠ .exit (.hostCall index)) :
      Course program host state machine [] (stop, state, after)
  | resume {state machine index called served resumed calls ending}
      (hstep : machine.step program = (.stopped (.exit (.hostCall index)), called))
      (hreply : host index state called = (.resume, served, resumed))
      (hrest : Course program host served (resumed.skipHostCall program) calls ending) :
      Course program host state machine (index :: calls) ending
  | refuse {state machine index called stop served final}
      (hstep : machine.step program = (.stopped (.exit (.hostCall index)), called))
      (hreply : host index state called = (.stop stop, served, final)) :
      Course program host state machine [index] (stop, served, final)

variable {program : Program} {host : Host σ μ}
variable {state served : σ} {machine after called resumed : Machine μ}
variable {stop : Stop} {index : UInt32} {calls : List UInt32} {ending : Stop × σ × Machine μ}

/-- What a step of a machine with a host can lead to: the next one, an end that
is no call, or a call that the host answers in one of two ways. -/
theorem step_with_host_cases (program : Program) (host : Host σ μ) (state : σ)
    (machine : Machine μ) :
    (∃ after, machine.step program = (.running, after)) ∨
      (∃ stop after, machine.step program = (.stopped stop, after) ∧
        ∀ index, stop ≠ .exit (.hostCall index)) ∨
      ∃ index called,
        machine.step program = (.stopped (.exit (.hostCall index)), called) ∧
        ((∃ served resumed, host index state called = (.resume, served, resumed)) ∨
          ∃ stop served final, host index state called = (.stop stop, served, final)) := by
  rcases machine.step program with ⟨outcome, after⟩
  cases outcome with
  | running => exact Or.inl ⟨after, rfl⟩
  | stopped stop =>
      cases stop with
      | aborted => exact Or.inr (Or.inl ⟨_, after, rfl, nofun⟩)
      | exit reason =>
          cases reason with
          | hostCall index =>
              refine Or.inr (Or.inr ⟨index, after, rfl, ?_⟩)
              rcases host index state after with ⟨verdict, served, final⟩
              cases verdict with
              | resume => exact Or.inl ⟨served, final, rfl⟩
              | stop stop => exact Or.inr ⟨stop, served, final, rfl⟩
          | halt => exact Or.inr (Or.inl ⟨_, after, rfl, nofun⟩)
          | panic reason => exact Or.inr (Or.inl ⟨_, after, rfl, nofun⟩)
          | outOfGas => exact Or.inr (Or.inl ⟨_, after, rfl, nofun⟩)
          | pageFault address => exact Or.inr (Or.inl ⟨_, after, rfl, nofun⟩)

/-! ## Calls from within a run -/

theorem dispatched_succ (fuel : Nat) :
    dispatched program host (fuel + 1) state machine =
      (machine.hostCall? program).toList.map HostCall.index ++
        match round program host state machine with
        | .continues state machine => dispatched program host fuel state machine
        | .ends _ _ _ => [] := by
  rw [dispatched, hostCalls_succ, List.map_append]
  cases round program host state machine <;> rfl

theorem round_of_stopped (hstep : machine.step program = (.stopped stop, after))
    (hstop : ∀ index, stop ≠ .exit (.hostCall index)) :
    round program host state machine = .ends stop state after := by
  rw [round, hstep]
  split
  · next heq => cases heq
  · next index _ heq =>
      cases heq
      exact absurd rfl (hstop index)
  · next heq =>
      cases heq
      rfl

theorem hostCall?_of_stopped (hstep : machine.step program = (.stopped stop, after))
    (hstop : ∀ index, stop ≠ .exit (.hostCall index)) :
    machine.hostCall? program = none := by
  rw [hostCall?, hstep]
  split
  · next index _ heq =>
      cases heq
      exact absurd rfl (hstop index)
  · rfl

/-- A course that ends is that of a run, if the run is given enough fuel. -/
theorem Course.exists_runWith (hcourse : Course program host state machine calls ending) :
    ∃ fuel, runWith program host fuel state machine = some ending ∧
      dispatched program host fuel state machine = calls := by
  induction hcourse with
  | step hstep _ ih =>
      obtain ⟨fuel, hrun, hcalls⟩ := ih
      refine ⟨fuel + 1, ?_, ?_⟩
      · simpa [runWith_succ, round, hstep] using hrun
      · simpa [dispatched_succ, round, hostCall?, hstep] using hcalls
  | stop hstep hstop =>
      refine ⟨1, ?_, ?_⟩
      · simp [runWith_succ, round_of_stopped hstep hstop]
      · simp [dispatched_succ, round_of_stopped hstep hstop, hostCall?_of_stopped hstep hstop]
  | resume hstep hreply _ ih =>
      obtain ⟨fuel, hrun, hcalls⟩ := ih
      refine ⟨fuel + 1, ?_, ?_⟩
      · simpa [runWith_succ, round, hstep, hreply] using hrun
      · simpa [dispatched_succ, round, hostCall?, hstep, hreply] using hcalls
  | refuse hstep hreply =>
      refine ⟨1, ?_, ?_⟩
      · simp [runWith_succ, round, hstep, hreply]
      · simp [dispatched_succ, round, hostCall?, hstep, hreply]

/-- A run that ends takes such a course. -/
theorem course_of_runWith {fuel : Nat}
    (hrun : runWith program host fuel state machine = some ending) :
    Course program host state machine (dispatched program host fuel state machine) ending := by
  induction fuel generalizing state machine with
  | zero => cases hrun
  | succ fuel ih =>
      rw [runWith_succ] at hrun
      rw [dispatched_succ]
      rcases step_with_host_cases program host state machine with ⟨after, hstep⟩ |
        ⟨stop, after, hstep, hstop⟩ | ⟨index, called, hstep, ⟨served, resumed, hreply⟩ |
          ⟨stop, served, final, hreply⟩⟩
      · simp only [round, hostCall?, hstep] at hrun ⊢
        exact .step hstep (ih hrun)
      · rw [round_of_stopped hstep hstop] at hrun ⊢
        rw [hostCall?_of_stopped hstep hstop]
        cases hrun
        exact .stop hstep hstop
      · simp only [round, hostCall?, hstep, hreply] at hrun ⊢
        exact .resume hstep hreply (ih hrun)
      · simp only [round, hostCall?, hstep, hreply] at hrun ⊢
        cases hrun
        exact .refuse hstep hreply

/-! ## Calls between runs -/

theorem serviceLoop_of_running (hstep : machine.step program = (.running, after)) (runs : Nat) :
    serviceLoop program host runs state machine = serviceLoop program host runs state after := by
  cases runs with
  | zero => rfl
  | succ runs => rw [serviceLoop, serviceLoop, run_of_running hstep]

theorem serviceLoop_of_stopped (hstep : machine.step program = (.stopped stop, after))
    (hstop : ∀ index, stop ≠ .exit (.hostCall index)) (runs : Nat) :
    serviceLoop program host (runs + 1) state machine = some ([], stop, state, after) := by
  rw [serviceLoop, run_of_stopped hstep]
  split
  · next index _ heq =>
      cases heq
      exact absurd rfl (hstop index)
  · next heq =>
      cases heq
      rfl

theorem serviceLoop_of_resume
    (hstep : machine.step program = (.stopped (.exit (.hostCall index)), called))
    (hreply : host index state called = (.resume, served, resumed)) (runs : Nat) :
    serviceLoop program host (runs + 1) state machine =
      (serviceLoop program host runs served (resumed.skipHostCall program)).map
        fun (calls, ending) => (index :: calls, ending) := by
  simp only [serviceLoop, run_of_stopped hstep, hreply]

theorem serviceLoop_of_refuse {final : Machine μ}
    (hstep : machine.step program = (.stopped (.exit (.hostCall index)), called))
    (hreply : host index state called = (.stop stop, served, final)) (runs : Nat) :
    serviceLoop program host (runs + 1) state machine = some ([index], stop, served, final) := by
  simp only [serviceLoop, run_of_stopped hstep, hreply]

/-- A course that ends is that of the loop, if the loop is given enough runs. -/
theorem Course.exists_serviceLoop (hcourse : Course program host state machine calls ending) :
    ∃ runs, serviceLoop program host runs state machine = some (calls, ending) := by
  induction hcourse with
  | step hstep _ ih =>
      obtain ⟨runs, hloop⟩ := ih
      exact ⟨runs, (serviceLoop_of_running hstep runs).trans hloop⟩
  | stop hstep hstop => exact ⟨1, serviceLoop_of_stopped hstep hstop 0⟩
  | resume hstep hreply _ ih =>
      obtain ⟨runs, hloop⟩ := ih
      refine ⟨runs + 1, ?_⟩
      rw [serviceLoop_of_resume hstep hreply, hloop, Option.map_some]
  | refuse hstep hreply => exact ⟨1, serviceLoop_of_refuse hstep hreply 0⟩

/-- A loop that ends takes such a course.  The induction on the number of runs
has one on the steps of a run inside it. -/
theorem course_of_serviceLoop {runs : Nat}
    (hloop : serviceLoop program host runs state machine = some (calls, ending)) :
    Course program host state machine calls ending := by
  induction runs generalizing state machine calls with
  | zero => cases hloop
  | succ runs ih =>
      induction machine using @run_induction μ _ program with
      | hrunning machine after hstep hrest =>
          rw [serviceLoop_of_running hstep] at hloop
          exact .step hstep (hrest hloop)
      | hstopped machine stop after hstopped =>
          rcases step_with_host_cases program host state machine with ⟨after, hstep⟩ |
            ⟨stop, after, hstep, hstop⟩ | ⟨index, called, hstep, ⟨served, resumed, hreply⟩ |
              ⟨stop, served, final, hreply⟩⟩
          · rw [hstep] at hstopped
            cases hstopped
          · rw [serviceLoop_of_stopped hstep hstop] at hloop
            cases hloop
            exact .stop hstep hstop
          · rw [serviceLoop_of_resume hstep hreply, Option.map_eq_some_iff] at hloop
            obtain ⟨⟨rest, last⟩, hrest, heq⟩ := hloop
            cases heq
            exact .resume hstep hreply (ih hrest)
          · rw [serviceLoop_of_refuse hstep hreply] at hloop
            cases hloop
            exact .refuse hstep hreply

/-- Calls can be serviced from within a run or between runs.  For every program,
machine and host, whatever the host does to its state and to the machine, a run
with the host ends after dispatching the given calls exactly if the loop that
services calls by hand does so, with the same stop, state of the host and
machine. -/
theorem run_ends_iff_serviceLoop_ends (program : Program) (host : Host σ μ) (state : σ)
    (machine : Machine μ) (calls : List UInt32) (stop : Stop) (last : σ) (final : Machine μ) :
    (∃ fuel, runWith program host fuel state machine = some (stop, last, final) ∧
        dispatched program host fuel state machine = calls) ↔
      ∃ runs, serviceLoop program host runs state machine =
        some (calls, stop, last, final) := by
  constructor
  · rintro ⟨fuel, hrun, rfl⟩
    exact (course_of_runWith hrun).exists_serviceLoop
  · rintro ⟨runs, hloop⟩
    exact (course_of_serviceLoop hloop).exists_runWith

end GasMachine.Machine
