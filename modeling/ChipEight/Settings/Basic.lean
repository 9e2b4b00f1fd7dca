import ChipEight.Layout

/-!
# Settings

What a user may choose about a machine.
-/

namespace ChipEight

/-- The choices about a machine; the default is what holds where nothing was chosen. -/
structure Settings where
  /-- The number of columns of the screen. -/
  screenWidth : Nat := defaultWidth
  /-- The number of rows of the screen. -/
  screenHeight : Nat := defaultHeight
  /-- Instructions are paced to the speed of the historical hardware. -/
  throttle : Bool := true
  /-- The seed of the random bytes; without one they come from the host. -/
  seed : Option UInt64 := none
  /-- The number of key presses that a front end queues. -/
  keyBuffer : Nat := defaultKeyBuffer
deriving DecidableEq, Repr

namespace Settings

/-- The text of a seed that may not have been chosen. -/
def describeSeed : Option UInt64 → String
  | some seed => s!"Some({seed.toNat})"
  | none => "None"

/-- The form in which the log names settings. -/
def describe (s : Settings) : String :=
  s!"Chip8Conf \x7b screen_width: {s.screenWidth}, screen_height: {s.screenHeight}, " ++
    s!"throttle: {s.throttle}, seed: {describeSeed s.seed}, key_buffer: {s.keyBuffer} \x7d"

end Settings

end ChipEight
