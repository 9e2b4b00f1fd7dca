import ChipEight.Layout

/-!
# Commands

What the words after the name of the terminal program ask for.
-/

namespace ChipEight.Console

/-- The request to run a program from a file, with settings from another file if one is named. -/
structure Command where
  /-- The path of the program. -/
  program : String
  /-- The path of the settings. -/
  settings : Option String
deriving DecidableEq, Repr

/-- The command that a list of words asks for: the word run, a path, and perhaps a second path;
further words do not matter. -/
def Command.ofWords? : List String → Option Command
  | "run" :: program :: rest => some { program, settings := rest.head? }
  | _ => none

/-- How to use the terminal program. -/
def usage : String :=
  "\nusage: chip8 run FILE [CONFIG]\n" ++
  "\ncommands:\n" ++
  "    run     Run the target ROM file in the terminal\n" ++
  "\nKeys are entered on stdin as hex digits, one or more per line.\n" ++
  "The optional CONFIG is a YAML file:\n" ++
  "\n    screen_width: 64\n" ++
  "    screen_height: 32\n" ++
  "    throttle: true\n" ++
  "    seed: 1234\n" ++
  "    key_buffer: 16\n" ++
  "\nexamples:\n" ++
  "    chip8 run breakout.rom\n" ++
  "    chip8 run breakout.rom chip8.yaml\n"

/-- What the program answers to words that ask for nothing it knows. -/
def banner : String := s!"Chip8 v{version}\n" ++ usage ++ "\n"

end ChipEight.Console
