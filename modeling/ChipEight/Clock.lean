import ChipEight.Event

/-!
# Clock

The clock that ticks the timers while a program is executed.  It ticks after every full period since
it was started, and when it is stopped it still goes on to its next tick.  Starting a clock that
runs and stopping one that stands still does nothing and leaves no line in the log.

Main results:

- `pass_pass`: passing two spans of time one after the other ticks as often as passing their sum.
-/

namespace ChipEight

/-- The clock of the timers. -/
inductive Clock where
  /-- The timers stand still. -/
  | stopped
  /-- The timers count down; the given number of nanoseconds has passed since the clock was
  started. -/
  | running (elapsed : Nat)
deriving DecidableEq, Repr

namespace Clock

/-- Starts the clock, with what that shows. -/
def start : Clock → Clock × List Event
  | stopped => (running 0, [.clockStarted])
  | running elapsed => (running elapsed, [])

/-- Stops the clock, with what that shows. -/
def stop : Clock → Clock × List Event
  | running _ => (stopped, [.clockStopped])
  | stopped => (stopped, [])

/-- The nanoseconds that the host needs to get a clock going. -/
abbrev startNanos : Nat := 100000

/-- The number of ticks that a clock still makes when it is stopped: one, once it has got going. -/
def lastTicks : Clock → Nat
  | running elapsed => if elapsed < startNanos then 0 else 1
  | stopped => 0

/-- Lets a number of nanoseconds pass, with the number of ticks in that time. -/
def pass (nanos : Nat) : Clock → Clock × Nat
  | stopped => (stopped, 0)
  | running elapsed =>
    (running (elapsed + nanos), (elapsed + nanos) / timerPeriod - elapsed / timerPeriod)

/-! ## Passing time -/

/-- A clock that stands still does not tick. -/
@[simp]
theorem pass_stopped (nanos : Nat) : stopped.pass nanos = (stopped, 0) := rfl

/-- Passing two spans of time one after the other ticks as often as passing their sum. -/
theorem pass_pass (c : Clock) (a b : Nat) :
    ((c.pass a).1.pass b).1 = (c.pass (a + b)).1 ∧
      (c.pass a).2 + ((c.pass a).1.pass b).2 = (c.pass (a + b)).2 := by
  cases c with
  | stopped => exact ⟨rfl, rfl⟩
  | running elapsed =>
    simp only [pass, timerPeriod, timerFrequency]
    exact ⟨by rw [Nat.add_assoc], by omega⟩

end Clock

end ChipEight
