import ChipEight.Devices.Link
import ChipEight.Machine.Request
import ChipEight.Machine.Timed

/-!
# Sessions

Three parties over one link: a machine that takes steps, an audience that takes frames from the
window, and a typist who presses keys.  Each party moves when it can: a machine that hands over a
frame waits for the audience, a machine that waits for a key waits until one is queued or the
keyboard is gone, and the audience waits for the machine.  Handing over a frame is one move, made
when the audience takes it.

`move?` gives the move of one party.  `play` lets the parties move in a fixed order of preference
until none of them can.  A clock may tick the timers of the machine meanwhile.
-/

namespace ChipEight

/-- A number of things still to come, or as many as there will be. -/
abbrev Allowance := Option Nat

/-- Nothing more is to come. -/
def Allowance.isSpent (a : Allowance) : Bool := a == some 0

/-- One less is to come. -/
def Allowance.spend (a : Allowance) : Allowance := a.map Nat.pred

/-- A party of a session. -/
inductive Party where
  /-- The party that presses keys. -/
  | typist
  /-- The party that takes frames. -/
  | audience
  /-- The party that runs the program. -/
  | machine
deriving DecidableEq, Repr

/-- A machine, an audience and a typist over one link. -/
structure Session where
  /-- The machine. -/
  machine : Machine
  /-- The link between the parties. -/
  link : Link
  /-- The steps that the machine has still to take. -/
  steps : Allowance
  /-- The frames that the audience has still to take. -/
  appetite : Allowance
  /-- The keys that the typist has still to press before letting go of the keyboard; without a
  typist the audience holds the keyboard. -/
  typing : Option (List Key) := none
  /-- The flow of the last step, or the fault that stopped the machine. -/
  result : Except Fault Flow := .ok .next
  /-- What the machine showed in its last step. -/
  events : Array Event := #[]
  /-- The clock that ticks the timers of the machine. -/
  clock : Clock := .stopped

namespace Session

/-- The machine has stopped or has taken all its steps. -/
def isOver (s : Session) : Bool :=
  match s.result with
  | .ok _ => s.steps.isSpent
  | .error _ => true

/-- The next step of the machine cannot be completed before another party moves. -/
def isBlocked (s : Session) : Bool :=
  match s.machine.request? with
  | some .draw => s.link.DrawBlocks
  | some .awaitKey => s.link.AwaitBlocks
  | some .pollKey | none => false

/-- The machine takes a step, and the time for it passes. -/
def takeStep (s : Session) : Session :=
  let { machine, link, steps, appetite, typing, clock, .. } := s
  let (o, clock) := (machine.step link).timed machine.settings.throttle clock
  { machine := o.machine, link := o.devices, steps := steps.spend, appetite, typing
    result := o.result, events := o.events, clock }

/-- The audience takes the frame that the machine hands over. -/
def takeFrame (s : Session) : Session :=
  let stepped := s.takeStep
  { stepped with appetite := stepped.appetite.spend }

/-- The audience goes away. -/
def leave (s : Session) : Session :=
  match s.typing with
  | none => { s with link := s.link.hangUp }
  | some _ => { s with link := s.link.dropWindow }

/-- The typist presses the next key, or lets go of the keyboard. -/
def type (s : Session) : Session :=
  match s.typing with
  | some (key :: rest) => { s with link := s.link.press key, typing := some rest }
  | some [] => { s with link := s.link.dropKeyboard }
  | none => s

/-- The audience has had enough, or the machine has gone. -/
def isLeaving (s : Session) : Bool := s.appetite.isSpent || !s.link.devicesHeld

/-- A party can move.  The typist can press a key or let go of the keyboard.  The audience can go
away, or take the frame that the machine hands over.  The machine can take a step that is not
blocked, or let go of the devices at the end. -/
def canMove (s : Session) : Party → Bool
  | .typist =>
    match s.typing with
    | some (_ :: _) => true
    | some [] => s.link.keyboardHeld
    | none => false
  | .audience =>
    s.link.windowHeld && (s.isLeaving || !s.isOver && s.machine.request? == some .draw)
  | .machine => if s.isOver then s.link.devicesHeld else !s.isBlocked

/-- The session after the move of a party that can move. -/
def moved (s : Session) : Party → Session
  | .typist => s.type
  | .audience => if s.isLeaving then s.leave else s.takeFrame
  | .machine => if s.isOver then { s with link := s.link.dropDevices } else s.takeStep

/-- The session after the move of a party, if it can move. -/
def move? (s : Session) (party : Party) : Option Session :=
  if s.canMove party then some (s.moved party) else none

/-- The session after the moves of a sequence of parties, where a party that cannot move does
nothing. -/
def follow (s : Session) : List Party → Session
  | [] => s
  | party :: parties => (if s.canMove party then s.moved party else s).follow parties

/-- The first party that can move: the typist, then the audience, then the machine. -/
def mover? (s : Session) : Option Party := [.typist, .audience, .machine].find? s.canMove

/-- The session after at most the given number of moves, each by the first party that can move. -/
def play (s : Session) : Nat → Session
  | 0 => s
  | n + 1 =>
    match s.mover? with
    | some party => (s.moved party).play n
    | none => s

end Session

end ChipEight
