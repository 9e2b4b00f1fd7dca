import ChipEight.Console.Performance
import ChipEight.Console.Typing

/-!
# Transcripts

The terminal program as a function of its words, its files and its input: how it is used, what keeps
it from running a program, or what it has written when the program that it runs has stopped.
-/

namespace ChipEight.Console

/-- What is left behind if something keeps a program from being run: the report of a failure, or
nothing. -/
def Obstacle.transcript (host : Host) (written : String) : Obstacle → Transcript
  | .failure cause => ⟨failureCode, written, some cause⟩
  | .noRoom => ⟨host.crashCode, written, none⟩

/-- The performance with which a command goes on once a machine is started. -/
def Command.opening (command : Command) (host : Host) (file : String → Contents)
    (input : List UInt8) (machine : Machine) : Performance :=
  .opening machine (typedKeys input) (host.loggedAll (command.startLines host file))

/-- The transcript of running a command, or nothing if the performance goes on after the given
number of moves. -/
def Host.transcript (host : Host) (words : List String) (file : String → Contents)
    (input : List UInt8) (moves : Nat) : Option Transcript :=
  match Command.ofWords? words with
  | none => some ⟨usageCode, banner, none⟩
  | some command =>
    match start host (command.settings.map file) (file command.program) with
    | .error obstacle =>
      some (obstacle.transcript host (host.loggedAll (command.startLines host file)))
    | .ok machine => ((command.opening host file input machine).play host moves).transcript?

/-- The transcript on a plain host. -/
def transcript (words : List String) (file : String → Contents) (input : List UInt8)
    (key : ChaCha.Key) (moves : Nat) : Option Transcript :=
  (Host.plain key).transcript words file input moves

end ChipEight.Console
