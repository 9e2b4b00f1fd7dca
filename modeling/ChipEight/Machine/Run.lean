import ChipEight.Machine.Step

/-!
# Runs

A run takes steps until one ends in a fault or a number of steps has been taken.

Main results:

- `Outcome.run_add`: a run may be interrupted after any number of steps.
-/

namespace ChipEight

variable {δ : Type} [Devices δ]

/-- Takes one more step and adds what it shows to what was shown before. -/
def Outcome.advance (o : Outcome δ) : Outcome δ :=
  let next := o.machine.step o.devices
  { next with events := o.events ++ next.events }

/-- Takes at most the given number of further steps, and none after a fault. -/
def Outcome.run (o : Outcome δ) : Nat → Outcome δ
  | 0 => o
  | n + 1 =>
    match o.result with
    | .ok _ => o.advance.run n
    | .error _ => o

/-- Takes at most the given number of steps; the flow is that of the last one. -/
def Machine.run (m : Machine) (d : δ) (steps : Nat) : Outcome δ :=
  (m.completed d .next).run steps

/-! ## Interrupted runs -/

/-- A run that has ended in a fault does not go on. -/
theorem Outcome.run_of_error {o : Outcome δ} {fault : Fault} (h : o.result = .error fault)
    (n : Nat) : o.run n = o := by
  cases n with
  | zero => rfl
  | succ n => simp [run, h]

theorem Outcome.run_succ_of_isOk {o : Outcome δ} (h : o.result.isOk = true)
    (n : Nat) : o.run (n + 1) = o.advance.run n := by
  cases hresult : o.result with
  | ok flow => simp only [run, hresult]
  | error fault =>
    rw [hresult] at h
    cases h

/-- A run may be interrupted after any number of steps. -/
theorem Outcome.run_add (o : Outcome δ) (a b : Nat) : o.run (a + b) = (o.run a).run b := by
  induction a generalizing o with
  | zero => simp [run]
  | succ a ih =>
    rw [Nat.succ_add]
    cases h : o.result with
    | ok flow => simp [run, h, ih]
    | error fault =>
      rw [run_of_error h, run_of_error h, run_of_error h]

end ChipEight
