import ChipEight.Console.Display
import ChipEight.Console.Start
import ChipEight.Session

/-!
# Performances

A session on a terminal.  The typist presses the keys that were typed, the machine starts the clock
of its timers and then takes its steps, and the audience takes frames and writes them to the output,
one after the other.  All three go on at once, and whoever can move may move next.

The audience takes hold of the output before it writes, and keeps hold of it until it goes away.
The log goes to the same output: a party with a line to log that leaves something there cannot move
while the audience has hold of it.

`move?` gives the move of one party, and `play` lets the parties move in a fixed order of
preference.
-/

namespace ChipEight.Console

/-- The session of a started machine with a player who types keys and then nothing more. -/
def session (machine : Machine) (keys : List Key) : Session :=
  { machine
    link := { capacity := machine.settings.keyBuffer }
    steps := none
    appetite := none
    typing := some keys }

/-- A session on a terminal. -/
structure Performance where
  /-- The session. -/
  session : Session
  /-- The machine has started the clock of its timers. -/
  started : Bool := false
  /-- The audience has taken hold of the output. -/
  opened : Bool := false
  /-- All that was written to the output. -/
  written : String
  /-- What the audience is yet to write before it takes another frame. -/
  toWrite : List Char := []

/-- What the terminal program leaves behind. -/
structure Transcript where
  /-- The exit code. -/
  code : Nat
  /-- What was written, apart from the report of a failure. -/
  output : String
  /-- The failure that was reported. -/
  failure : Option Failure
deriving DecidableEq, Repr

/-- The exit code after words that ask for nothing. -/
abbrev usageCode : Nat := 64

/-- The exit code after a failure. -/
abbrev failureCode : Nat := 1

namespace Performance

/-- The performance of a started machine, with keys that are typed, after what was written
before. -/
def opening (machine : Machine) (keys : List Key) (written : String) : Performance :=
  { session := Console.session machine keys, written }

/-- The audience has hold of the output. -/
def isHeld (p : Performance) : Bool := p.opened && p.session.link.windowHeld

/-- Logs lines, if they leave nothing on the output or the audience does not have hold of it. -/
def log? (host : Host) (lines : List LogLine) (p : Performance) : Option Performance :=
  let text := host.loggedAll lines
  if text.isEmpty || !p.isHeld then some { p with written := p.written ++ text } else none

/-- The line that the next press leaves in the log: none if it is accepted. -/
def pressLines (s : Session) : List LogLine :=
  match s.typing with
  | some (key :: _) =>
    if s.link.Accepts then [] else [⟨.warn, s!"dropped key press {key.label}"⟩]
  | some [] | none => []

/-- The lines that a move of the machine leaves in the log: those of the step, without the ones that
trace it, or the one of the clock that is stopped at the end. -/
def stepLines (before after : Session) : List LogLine :=
  if before.isOver then Event.lines before.clock.stop.2
  else (Event.lines after.events.toList).filter fun line => line.level ≠ .trace

/-- The frames that were taken since. -/
def newFrames (before after : Session) : List Screen :=
  (after.link.shown.extract before.link.shown.size after.link.shown.size).toList

/-- The performance after the move of a party, if it can move.  The audience takes hold of the
output, wipes the terminal, and writes all it took before it takes another frame or goes away. -/
def move? (host : Host) (p : Performance) : Party → Option Performance
  | .typist => do
    let session ← p.session.move? .typist
    { p with session }.log? host (pressLines p.session)
  | .audience =>
    if !p.opened then some { p with opened := true, toWrite := wipe }
    else if !p.toWrite.isEmpty then
      some { p with written := p.written ++ String.ofList p.toWrite, toWrite := [] }
    else if p.started then do
      let session ← p.session.move? .audience
      some { p with session, toWrite := (newFrames p.session session).flatMap frameText }
    else none
  | .machine =>
    if p.started then do
      let session ← p.session.move? .machine
      { p with session }.log? host (stepLines p.session session)
    else
      let (clock, events) := p.session.clock.start
      { p with session.clock := clock, started := true }.log? host (Event.lines events)

/-- The performance after at most the given number of moves, each by the first party that can move:
the typist, then the audience, then the machine. -/
def play (host : Host) (p : Performance) : Nat → Performance
  | 0 => p
  | n + 1 =>
    match [Party.typist, .audience, .machine].findSome? (p.move? host) with
    | some after => after.play host n
    | none => p

/-- What a performance leaves behind: the process ends once the audience has gone and everything is
written, with the fault that stopped the machine. -/
def transcript? (p : Performance) : Option Transcript :=
  if p.session.link.windowHeld || !p.toWrite.isEmpty then none
  else
    match p.session.result with
    | .error fault => some ⟨failureCode, p.written, some (.stopped fault)⟩
    | .ok _ => none

end Performance

end ChipEight.Console
