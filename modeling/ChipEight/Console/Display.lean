import ChipEight.Screen.Picture

/-!
# Terminal display

Frames on a terminal: the terminal is wiped once, and each picture is written from its top left
corner, over the one before.
-/

namespace ChipEight.Console

/-- The control sequence that wipes the terminal. -/
def wipe : List Char := ['\x1b', '[', '2', 'J']

/-- The control sequence that moves the cursor to the top left corner. -/
def home : List Char := ['\x1b', '[', 'H']

/-- What one frame writes. -/
def frameText (frame : Screen) : List Char := home ++ frame.pictureLines.flatten

/-- What a sequence of frames writes. -/
def stream (frames : List Screen) : List Char := wipe ++ frames.flatMap frameText

end ChipEight.Console
