import ChipEight.Event
import ChipEight.Memory.Basic
import ChipEight.Random.Generator
import ChipEight.Registers.Basic
import ChipEight.Screen.Sprite
import ChipEight.Settings.Basic
import ChipEight.Timers

/-!
# Machine

The state of a machine, how it is built and how a program is loaded.  A machine is built once;
loading puts everything back to the start except the random bytes, which go on where they were.
-/

namespace ChipEight

/-- The state of a machine. -/
structure Machine where
  /-- The choices with which the machine was built. -/
  settings : Settings
  /-- The registers and the call stack. -/
  registers : Registers
  /-- The memory. -/
  memory : Memory
  /-- The screen. -/
  screen : Screen
  /-- The delay and sound timers. -/
  timers : Timers
  /-- The random bytes to come. -/
  random : Generator
deriving DecidableEq

namespace Machine

/-- A machine without a program.  The random bytes come from the configured seed, or from the given
key if no seed was configured.  A screen without cells is refused. -/
def build (settings : Settings) (hostKey : ChaCha.Key) : Except Fault Machine :=
  if settings.screenWidth = 0 ∨ settings.screenHeight = 0 then
    .error (.emptyScreen settings.screenWidth settings.screenHeight)
  else
    .ok {
      settings
      registers := {}
      memory := .initial
      screen := .dark settings.screenWidth settings.screenHeight
      timers := {}
      random := { key := Generator.keyFrom settings.seed hostKey } }

/-- Puts a program into memory and everything but the random bytes back to the start.  A program
that is too large is refused. -/
def load (m : Machine) (program : List UInt8) : Except Fault Machine :=
  (Memory.load program).map fun memory =>
    { m with registers := {}, memory, screen := m.screen.clear, timers := {} }

/-- What loading a program that fits shows to the outside. -/
def loadEvents (m : Machine) (program : List UInt8) : List Event :=
  [.loaded program.length, .reset m.screen.width m.screen.height]

end Machine

end ChipEight
