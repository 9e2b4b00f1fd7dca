import ChipEight.Instruction.Basic

/-!
# Durations

How long the historical hardware took for each instruction.  A machine asks to be paced by these
times.  Drawing is by far the slowest, because it waited for the display; waiting for a key takes no
time of its own, since the player is slower than any hardware.
-/

namespace ChipEight.Instruction

/-- The time that an instruction takes, in microseconds. -/
def micros : Instruction → Nat
  | clear => 109
  | ret | jump _ | call _ | jumpOffset _ => 105
  | skipEqByte _ _ | skipNeByte _ _ => 55
  | skipEq _ _ | skipNe _ _ => 73
  | setByte _ _ => 27
  | addByte _ _ => 45
  | arith _ _ _ | shiftRight _ | shiftLeft _ => 200
  | setIndex _ => 55
  | random _ _ => 164
  | draw _ _ _ => 15000
  | skipPressed _ | skipNotPressed _ => 73
  | readDelay _ | setDelay _ | setSound _ => 45
  | awaitKey _ => 0
  | addIndex _ => 86
  | pointGlyph _ => 91
  | storeDigits _ => 927
  | save _ | restore _ => 605
  | unknown _ => 200

end ChipEight.Instruction
