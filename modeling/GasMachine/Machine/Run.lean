import GasMachine.Machine.Step

/-!
# Runs

A run steps until the machine stops.  Gas bounds its length: no step continues without being paid
for, so a run that is left to itself ends after as many steps as the gas pays for.  A host that
services calls may hand out more gas, and a run with one is bounded by the caller.
-/

namespace GasMachine

/-- What a host says after a call. -/
inductive Verdict where
  /-- Go on after the call. -/
  | resume
  | stop (stop : Stop)
  deriving DecidableEq

/-- A host with state `σ`: it services the call with the given index, and may change the machine
as it likes. -/
abbrev Host (σ μ : Type) := UInt32 → σ → Machine μ → Verdict × σ × Machine μ

namespace Machine

variable {σ μ : Type} [Memory μ]

/-- Steps until the machine stops, when at most `budget` steps can be paid for. -/
def runFor (program : Program) : (budget : Nat) → Machine μ → Stop × Machine μ
  | 0, machine => (.exit .outOfGas, machine)
  | budget + 1, machine =>
    match machine.step program with
    | (.running, machine) => runFor program budget machine
    | (.stopped stop, machine) => (stop, machine)

/-- Steps until the machine stops.  A host call stops it. -/
def run (program : Program) (machine : Machine μ) : Stop × Machine μ :=
  runFor program machine.gas.budget machine

/-- Steps until the machine or the host stops, handing each host call to the host.  There is no
answer if that takes more than `fuel` steps. -/
def runWith (program : Program) (host : Host σ μ) :
    (fuel : Nat) → σ → Machine μ → Option (Stop × σ × Machine μ)
  | 0, _, _ => none
  | fuel + 1, state, machine =>
    match machine.step program with
    | (.running, machine) => runWith program host fuel state machine
    | (.stopped (.exit (.hostCall index)), machine) =>
      match host index state machine with
      | (.resume, state, machine) =>
        runWith program host fuel state (machine.skipHostCall program)
      | (.stop stop, state, machine) => some (stop, state, machine)
    | (.stopped stop, machine) => some (stop, state, machine)

end Machine

end GasMachine
