import ChipEight.Console.Command
import ChipEight.Machine.Basic
import ChipEight.Settings.Reader

/-!
# Starting

How the terminal program gets a machine to run: what it takes from the host, what it writes to the
log on the way, and which of several obstacles keeps it from getting there.

Reading and checking happen in one order: the settings file, its text, the program file, room for
the key queue, the size of the screen, room for the screen, the size of the program.  A program for
which there is no room crashes; every other obstacle is reported.
-/

namespace ChipEight.Console

/-- Why the terminal program gave up. -/
inductive Failure where
  /-- There is no file with a given name. -/
  | noSuchFile
  /-- The host could not read a file, for the given reason. -/
  | unreadable (reason : String)
  /-- The text of the settings was refused. -/
  | badSettings (refusal : Settings.Refusal)
  /-- The machine could not be started, or stopped. -/
  | stopped (cause : Fault)
deriving DecidableEq, Repr

/-- The wording of a failure.  A machine that does not come to name its fault has crashed. -/
def Failure.reason : Failure → String
  | .noSuchFile => "No such file or directory (os error 2)"
  | .unreadable reason => reason
  | .badSettings refusal => s!"invalid config: {refusal.message}"
  | .stopped .noLastAddress => "interpreter thread crashed"
  | .stopped cause => cause.message

/-- The line that reports a failure. -/
def Failure.message (f : Failure) : String := s!"application error: {f.reason}"

/-! ## The host -/

/-- What the terminal program takes from the host that it runs on. -/
structure Host where
  /-- The entries of a text that settings are read from, or nothing if it has another form. -/
  entries? : List UInt8 → Option (List Yaml.Entry)
  /-- What the logger leaves on the output of a line of the log; nothing if it keeps the line to
  itself. -/
  logged : LogLine → String
  /-- The number of key presses for which a queue finds room. -/
  queueLimit : Nat
  /-- The number of cells for which a screen finds room. -/
  cellLimit : Nat
  /-- The exit code of a program that does not find room. -/
  crashCode : Nat
  /-- The key that is drawn for random bytes. -/
  key : ChaCha.Key

namespace Host

/-- A key queue and a screen of the chosen sizes find room. -/
abbrev HasRoom (host : Host) (settings : Settings) : Prop :=
  settings.keyBuffer ≤ host.queueLimit ∧
    settings.screenWidth * settings.screenHeight ≤ host.cellLimit

/-- The logger leaves nothing on the output but errors. -/
def Quiet (host : Host) : Prop := ∀ line, line.level ≠ .error → host.logged line = ""

/-- A host that reads settings as texts of entries, whose logger leaves errors only, and which has
all the memory that can be counted in bytes by a signed number of 64 bits.  A key press takes
sixteen bytes in a queue, and a cell takes one on a screen. -/
def plain (key : ChaCha.Key) : Host where
  entries? := Yaml.Entry.ofBytes?
  logged line := if line.level = .error then s!"ERROR [chip8] {line.text}\n" else ""
  queueLimit := 0x7FFFFFFFFFFFFFF
  cellLimit := 0x7FFFFFFFFFFFFFFF
  crashCode := 101
  key

/-- What lines of the log leave on the output. -/
def loggedAll (host : Host) (lines : List LogLine) : String := String.join (lines.map host.logged)

end Host

/-! ## Files -/

/-- What the host gives for the path of a file. -/
inductive Contents where
  /-- The bytes in the file. -/
  | read (bytes : List UInt8)
  /-- Nothing, because the file could not be opened. -/
  | unopened (cause : Failure)
  /-- Nothing, because the file could be opened and then not be read. -/
  | unread (cause : Failure)
deriving DecidableEq, Repr

/-- The settings in a file; a file that is opened and not read has settings that are malformed. -/
def Contents.settings (host : Host) : Contents → Except Failure Settings
  | .unopened cause => .error cause
  | .unread _ => .error (.badSettings .malformed)
  | .read bytes => (Settings.read host.entries? bytes).mapError .badSettings

/-- The program in a file. -/
def Contents.program : Contents → Except Failure (List UInt8)
  | .read bytes => .ok bytes
  | .unopened cause | .unread cause => .error cause

/-- The settings of a run: those in the settings file, or the default ones if no file was named. -/
def chosenSettings (host : Host) : Option Contents → Except Failure Settings
  | some contents => contents.settings host
  | none => .ok {}

/-! ## Machines -/

/-- What keeps a program from being run. -/
inductive Obstacle where
  /-- A failure, which is reported. -/
  | failure (cause : Failure)
  /-- The key queue or the screen does not find room. -/
  | noRoom
deriving DecidableEq, Repr

/-- The obstacle that a fault is. -/
def Obstacle.ofFault (cause : Fault) : Obstacle := .failure (.stopped cause)

/-- The machine with its program loaded, from the contents of the settings file, if one was named,
and of the program file. -/
def start (host : Host) (settingsFile : Option Contents) (programFile : Contents) :
    Except Obstacle Machine := do
  let settings ← (chosenSettings host settingsFile).mapError .failure
  let program ← programFile.program.mapError .failure
  if host.HasRoom settings then
    let machine ← (Machine.build settings host.key).mapError .ofFault
    (machine.load program).mapError .ofFault
  else
    .error .noRoom

/-- The line that says that settings were read. -/
def settingsLines (host : Host) (path : String) (contents : Contents) : List LogLine :=
  match contents.settings host with
  | .ok settings => [⟨.debug, s!"loaded config from {path}: {settings.describe}"⟩]
  | .error _ => []

/-- The lines that say that a program was loaded. -/
def loadLines (host : Host) (settingsFile : Option Contents) (programFile : Contents) :
    List LogLine :=
  match start host settingsFile programFile, programFile.program with
  | .ok machine, .ok program => Event.lines (machine.loadEvents program)
  | _, _ => []

/-- The lines that the start of a command leaves in the log. -/
def Command.startLines (command : Command) (host : Host) (file : String → Contents) :
    List LogLine :=
  ⟨.info, s!"running {command.program}"⟩ ::
    (command.settings.toList.flatMap fun path => settingsLines host path (file path)) ++
    loadLines host (command.settings.map file) (file command.program)

end ChipEight.Console
