/-!
# Timers

Two counters of eight bits that count down to zero at a fixed rate, whatever the program does.  A
tick counts the delay timer down and then the sound timer; a buzzer sounds while the sound timer is
above zero.

Main results:

- `ticks_delay`, `ticks_sound`: ticks subtract their number from a timer, which stops at zero.
-/

namespace ChipEight

/-- The two counters. -/
structure Timers where
  /-- The counter that programs read to measure time. -/
  delay : UInt8 := 0
  /-- The counter that keeps the buzzer on. -/
  sound : UInt8 := 0
deriving DecidableEq, Repr

namespace Timers

/-- One less, and zero from zero. -/
def countDown (value : UInt8) : UInt8 := if value = 0 then 0 else value - 1

/-- Counts the delay timer down. -/
def tickDelay (t : Timers) : Timers := { t with delay := countDown t.delay }

/-- Counts the sound timer down. -/
def tickSound (t : Timers) : Timers := { t with sound := countDown t.sound }

/-- Counts both timers down. -/
def tick (t : Timers) : Timers := t.tickDelay.tickSound

/-- Counts both timers down a number of times. -/
def ticks (t : Timers) : Nat → Timers
  | 0 => t
  | n + 1 => t.tick.ticks n

/-- The buzzer is on. -/
def sounding (t : Timers) : Bool := 0 < t.sound

/-- Both timers have been counted down to zero. -/
def drained (t : Timers) : Timers := t.ticks (max t.delay.toNat t.sound.toNat)

/-! ## Counting down -/

/-- Counting down subtracts one and stops at zero. -/
theorem toNat_countDown (v : UInt8) : (countDown v).toNat = v.toNat - 1 := by
  unfold countDown
  split
  · next h => simp [h]
  · next h =>
    have : v.toNat ≠ 0 := fun h' => h (UInt8.toNat_inj.1 (by simpa using h'))
    rw [UInt8.toNat_sub_of_le]
    · rfl
    · rw [UInt8.le_iff_toNat_le]; simp; omega

/-- Ticks subtract their number from the delay timer, which stops at zero. -/
theorem ticks_delay (t : Timers) (n : Nat) : (t.ticks n).delay.toNat = t.delay.toNat - n := by
  induction n generalizing t with
  | zero => simp [ticks]
  | succ n ih =>
    simp only [ticks, ih, tick, tickDelay, tickSound, toNat_countDown]
    omega

/-- Ticks subtract their number from the sound timer, which stops at zero. -/
theorem ticks_sound (t : Timers) (n : Nat) : (t.ticks n).sound.toNat = t.sound.toNat - n := by
  induction n generalizing t with
  | zero => simp [ticks]
  | succ n ih =>
    simp only [ticks, ih, tick, tickDelay, tickSound, toNat_countDown]
    omega

end Timers

end ChipEight
