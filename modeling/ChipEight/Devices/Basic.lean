import ChipEight.Fault
import ChipEight.Key
import ChipEight.Screen.Basic

/-!
# Devices

The display and the keyboard as a machine sees them.  A call gives the answer with which it returns,
which may be a fault, and the devices as they are afterwards; how long a call blocks is not part of
this interface.
-/

namespace ChipEight

/-- A display and a keyboard. -/
class Devices (δ : Type) where
  /-- Hands a finished frame to the display and returns once it was taken. -/
  draw : Screen → δ → Except Fault Unit × δ
  /-- Waits for a key. -/
  awaitKey : δ → Except Fault Key × δ
  /-- Waits for a key for a short time. -/
  pollKey : δ → Except Fault (Option Key) × δ

/-- Devices that drop every frame and never produce a key. -/
structure Headless where
deriving DecidableEq, Repr

instance : Devices Headless where
  draw _ d := (.ok (), d)
  awaitKey d := (.error .noInput, d)
  pollKey d := (.ok none, d)

end ChipEight
