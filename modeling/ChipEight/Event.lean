import ChipEight.Instruction.Describe
import ChipEight.Screen.Basic
import ChipEight.Text.Hex

/-!
# Events

What a machine shows to the outside while it runs, in the order in which it happens: lines for the
log, frames that it offers to the display, and the time that it asks to be held up after each
instruction.

A line of the log is a level and a text.  The log is written by a logger, which may leave out the
lines of some levels and add to the text of the others.
-/

namespace ChipEight

/-- How much a line of the log matters. -/
inductive Level where
  /-- Something has failed. -/
  | error
  /-- Something is amiss. -/
  | warn
  /-- Something worth knowing has happened. -/
  | info
  /-- Something has happened that helps to find mistakes. -/
  | debug
  /-- The program has come to a place. -/
  | trace
deriving DecidableEq, Repr

/-- The name of a level. -/
def Level.name : Level → String
  | error => "ERROR"
  | warn => "WARN"
  | info => "INFO"
  | debug => "DEBUG"
  | trace => "TRACE"

/-- A line of the log. -/
structure LogLine where
  /-- How much the line matters. -/
  level : Level
  /-- What the line says. -/
  text : String
deriving DecidableEq, Repr

/-- A line of the log with its level in front. -/
def LogLine.render (line : LogLine) : String := s!"{line.level.name} {line.text}"

/-- One thing that a machine shows to the outside. -/
inductive Event where
  /-- A program of the given size was put into memory. -/
  | loaded (size : Nat)
  /-- The machine was put back to the start, with a screen of the given size. -/
  | reset (width height : Nat)
  /-- The instruction fetched from an address is about to be executed. -/
  | executing (pc : UInt16) (instruction : Instruction)
  /-- A word that stands for no instruction was fetched from an address. -/
  | unknownWord (word pc : UInt16)
  /-- The timers began to count down. -/
  | clockStarted
  /-- The timers stopped counting down. -/
  | clockStopped
  /-- A frame was offered to the display. -/
  | offered (frame : Screen)
  /-- An instruction that takes the given time was completed. -/
  | paced (micros : Nat)
deriving DecidableEq

namespace Event

/-- The line that an event leaves in the log, if it leaves one.  An instruction leaves its line only
in a program that is built to trace instructions. -/
def logLine? : Event → Option LogLine
  | loaded size => some ⟨.debug, s!"loaded {size} byte program at 0x{Hex.padded 3 programStart}"⟩
  | reset width height => some ⟨.debug, s!"VM reset, screen {width}x{height}"⟩
  | executing pc instruction =>
    some ⟨.trace, s!"{Hex.padded 4 pc.toNat}: {instruction.describe}"⟩
  | unknownWord word pc =>
    some ⟨.warn, s!"unknown opcode {Hex.padded 4 word.toNat} at {Hex.padded 4 pc.toNat}"⟩
  | clockStarted => some ⟨.info, s!"timers started at {timerFrequency}Hz"⟩
  | clockStopped => some ⟨.info, "timers stopped"⟩
  | offered _ | paced _ => none

/-- The lines that a sequence of events leaves in the log of a program that traces instructions. -/
def lines (events : List Event) : List LogLine := events.filterMap logLine?

/-- The same lines, each with its level in front. -/
def log (events : List Event) : List String := (lines events).map LogLine.render

/-- The times that a sequence of events asks for. -/
def pauses (events : List Event) : List Nat :=
  events.filterMap fun
    | paced micros => some micros
    | _ => none

/-- The time that a sequence of events asks for in all. -/
def totalPause (events : List Event) : Nat := (pauses events).foldl (· + ·) 0

/-- The frames that a sequence of events offers. -/
def frames (events : List Event) : List Screen :=
  events.filterMap fun
    | offered frame => some frame
    | _ => none

end Event

end ChipEight
