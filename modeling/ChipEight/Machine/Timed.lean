import ChipEight.Clock
import ChipEight.Machine.Run

/-!
# Time

How the timers count down while a machine takes steps.  A step takes the time that the host needs
for it, or the time for which the machine asks to be held up, if it is held up at all and that is
longer.  The clock ticks the timers between two steps.

Main results:

- `Outcome.timed_stopped`, `Timed.outcome_run`: while the clock stands still, time changes nothing.
-/

namespace ChipEight

variable {δ : Type}

/-- The nanoseconds that the host needs for a step of a machine that is not held up. -/
abbrev hostNanos : Nat := 3000

/-- The nanoseconds that a step takes, by what it has shown. -/
def stepNanos (heldUp : Bool) (events : Array Event) : Nat :=
  if heldUp then max hostNanos (1000 * Event.totalPause events.toList) else hostNanos

/-- Counts the timers down a number of times. -/
def Machine.tick (m : Machine) (n : Nat) : Machine := { m with timers := m.timers.ticks n }

/-- Lets the time pass that a step took: the machine with its timers ticked, and the clock. -/
def Outcome.timed (o : Outcome δ) (heldUp : Bool) (clock : Clock) : Outcome δ × Clock :=
  let (clock, ticks) := clock.pass (stepNanos heldUp o.events)
  ({ o with machine := o.machine.tick ticks }, clock)

/-- What came of running a machine, and the clock that ticks its timers. -/
structure Timed (δ : Type) where
  /-- What came of running the machine. -/
  outcome : Outcome δ
  /-- The clock. -/
  clock : Clock

variable [Devices δ]

/-- Takes one more step, lets the time for it pass, and adds what it shows to what was shown
before. -/
def Timed.advance (t : Timed δ) (heldUp : Bool) : Timed δ :=
  let { outcome := ⟨machine, devices, _, events⟩, clock } := t
  let (next, clock) := (machine.step devices).timed heldUp clock
  { outcome := { next with events := events ++ next.events }, clock }

/-- Takes at most the given number of further steps, and none after a fault. -/
def Timed.run (t : Timed δ) (heldUp : Bool) : Nat → Timed δ
  | 0 => t
  | n + 1 =>
    match t.outcome.result with
    | .ok _ => (t.advance heldUp).run heldUp n
    | .error _ => t

/-! ## Time that stands still -/

omit [Devices δ] in
/-- A step under a clock that stands still leaves the timers to the machine. -/
@[simp]
theorem Outcome.timed_stopped (o : Outcome δ) (heldUp : Bool) :
    o.timed heldUp .stopped = (o, .stopped) := rfl

/-- A run under a clock that stands still is a plain run. -/
theorem Timed.outcome_run (o : Outcome δ) (heldUp : Bool) (n : Nat) :
    (Timed.run ⟨o, .stopped⟩ heldUp n).outcome = o.run n := by
  induction n generalizing o with
  | zero => rfl
  | succ n ih =>
    cases h : o.result with
    | ok flow => simp [run, Outcome.run, h, advance, ih, Outcome.advance]
    | error fault => simp [run, Outcome.run, h]

end ChipEight
