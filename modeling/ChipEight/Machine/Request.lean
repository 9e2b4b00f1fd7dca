import ChipEight.Machine.Step

/-!
# Requests

Which call of the devices the next step of a machine makes.  A step makes at most one call, and a
step that draws makes none if the sprite does not lie in memory.
-/

namespace ChipEight

/-- A call that a step makes to the devices. -/
inductive Request where
  /-- A frame is handed to the display. -/
  | draw
  /-- A key is waited for. -/
  | awaitKey
  /-- The keyboard is polled. -/
  | pollKey
deriving DecidableEq, Repr

namespace Machine

/-- The call that executing an instruction makes. -/
def requestOf? (m : Machine) : Instruction → Option Request
  | .draw _ _ rows =>
    if Memory.Fits m.registers.index.toNat rows.toNat then some .draw else none
  | .skipPressed _ | .skipNotPressed _ => some .pollKey
  | .awaitKey _ => some .awaitKey
  | _ => none

/-- The call that the next step makes. -/
def request? (m : Machine) : Option Request :=
  match m.fetch with
  | .ok word => m.requestOf? (Instruction.ofWord word)
  | .error _ => none

end Machine

end ChipEight
