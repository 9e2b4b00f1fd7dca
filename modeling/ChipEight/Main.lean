import ChipEight.Console.Transcript

/-!
# Terminal program

The command line.  It reads the files that its words name, and then plays a session in which a
player types keys on standard input and the frames go to standard output.  The machine is paced by
the clock of the host if its settings ask for it, and the clock of the host ticks its timers.

Input is read by a thread of its own, one line ahead, so the process ends once the line it waits for
has come or the input has ended; what it had to say has been written by then.
-/

namespace ChipEight.Console

/-- The wording of an error of the host. -/
def hostReason (e : IO.Error) : Failure :=
  match e with
  | .noFileOrDirectory .. => .noSuchFile
  | .permissionDenied _ code details | .inappropriateType _ code details =>
    .unreadable s!"{details} (os error {code})"
  | other => .unreadable (toString other)

/-- Opens and reads a file. -/
def readContents (path : String) : IO Contents := do
  match ← (IO.FS.Handle.mk path .read).toBaseIO with
  | .error e => return .unopened (hostReason e)
  | .ok handle =>
    match ← handle.readBinToEnd.toBaseIO with
    | .error e => return .unread (hostReason e)
    | .ok bytes => return .read bytes.toList

/-- A session as it is played on a terminal. -/
structure Play where
  /-- The session. -/
  session : Session
  /-- The next line of input, while the player may still type. -/
  reader : Option (Task (Except IO.Error String))
  /-- The number of frames that were written. -/
  written : Nat := 0
  /-- The time in nanoseconds at which the next instruction is due. -/
  due : Nat
  /-- The clock of the timers. -/
  clock : Clock
  /-- The time in nanoseconds up to which the clock has gone. -/
  seen : Nat

/-- Starts to read the next line of input. -/
def readLine : IO (Task (Except IO.Error String)) := do
  IO.asTask (← IO.getStdin).getLine .dedicated

/-- Presses the keys on a line that was read; the player lets go of the keyboard at the end of the
input. -/
def Play.type (p : Play) (line : Except IO.Error String) : IO Play := do
  match line with
  | .ok text =>
    if text.isEmpty then
      return { p with session.link := p.session.link.dropKeyboard, reader := none }
    return { p with
      session.link := p.session.link.pressAll (keysOfText text), reader := some (← readLine) }
  | .error _ => return { p with session.link := p.session.link.dropKeyboard, reader := none }

/-- Takes in the lines that were typed. -/
partial def Play.listen (p : Play) : IO Play := do
  match p.reader with
  | some line => if ← IO.hasFinished line then (← p.type line.get).listen else return p
  | none => return p

/-- Lets the clock go on for the time that has passed, which ticks the timers. -/
def Play.keepTime (p : Play) : IO Play := do
  let now ← IO.monoNanosNow
  let (clock, ticks) := p.clock.pass (now - p.seen)
  return { p with session.machine := p.session.machine.tick ticks, clock, seen := now }

/-- Writes the frames that were taken since the last time. -/
def Play.write (p : Play) : IO Play := do
  let shown := p.session.link.shown
  let output ← IO.getStdout
  for frame in shown.extract p.written shown.size do
    output.putStr (String.ofList (frameText frame))
    output.flush
  return { p with written := shown.size }

/-- Waits until the instructions so far are due, if the session is paced. -/
def Play.pause (p : Play) : IO Play := do
  let events := p.session.events.toList
  let p := { p with session.events := #[] }
  if p.session.machine.settings.throttle then
    let due := p.due + 1000 * Event.totalPause events
    let now ← IO.monoNanosNow
    if now < due then
      IO.sleep ((due - now) / 1000000).toUInt32
      return { p with due }
    else return { p with due := now }
  else return p

/-- Plays a session to its end. -/
partial def Play.run (p : Play) : IO Session := do
  let p ← (← p.listen).keepTime
  match p.session.mover? with
  | some party => (← (← { p with session := p.session.moved party }.write).pause).run
  | none =>
    if p.session.isOver then return p.session
    match p.reader with
    | some line => (← p.type (← IO.wait line)).run
    | none => return p.session

/-- Reports a failure. -/
def report (host : Host) (f : Failure) : IO UInt32 := do
  IO.print (host.logged ⟨.error, f.message⟩)
  (← IO.getStdout).flush
  return failureCode.toUInt32

/-- A key from the host. -/
def drawKey : IO ChaCha.Key := do
  let bytes ← IO.getRandomBytes 32
  return Vector.ofFn fun i =>
    (bytes.extract (4 * i) (4 * i + 4)).toList.foldl (fun word b => word * 256 + b.toUInt32) 0

/-- Runs a command. -/
def Command.run (command : Command) : IO UInt32 := do
  let host := Host.plain (← drawKey)
  let settings ← command.settings.mapM readContents
  let program ← readContents command.program
  match start host settings program with
  | .error (.failure cause) => report host cause
  | .error .noRoom => return host.crashCode.toUInt32
  | .ok machine =>
    IO.print (String.ofList wipe)
    let now ← IO.monoNanosNow
    let session := session machine []
    let final ← Play.run {
      session := { session with typing := none }
      clock := session.clock.start.1
      reader := some (← readLine)
      due := now
      seen := now }
    match final.result with
    | .error fault => report host (.stopped fault)
    | .ok _ => return 0

end ChipEight.Console

/-- Runs what the words after the name of the program ask for. -/
def main (words : List String) : IO UInt32 := do
  match ChipEight.Console.Command.ofWords? words with
  | some command => command.run
  | none =>
    IO.print ChipEight.Console.banner
    return ChipEight.Console.usageCode.toUInt32
