import ChipEight.Screen.Basic

/-!
# Pictures

A screen as text: one line for each row, a hash for a lit cell and a dot for a dark one.
-/

namespace ChipEight.Screen

/-- The character for a cell of the given value. -/
def mark (value : UInt8) : Char := if value = 0 then '.' else '#'

/-- The line for a row, ended by a line break. -/
def pictureLine (s : Screen) (y : Nat) : List Char :=
  (List.range s.width).map (fun x => mark (s.get x y)) ++ ['\n']

/-- The lines of a picture; a screen without columns has none. -/
def pictureLines (s : Screen) : List (List Char) :=
  if s.width = 0 then [] else (List.range s.height).map s.pictureLine

/-- The picture of a screen. -/
def picture (s : Screen) : String := String.ofList s.pictureLines.flatten

end ChipEight.Screen
