import ChipEight.Screen.Basic

/-!
# Sprites

A sprite is a list of bytes, one for each row of eight pixels with the leftmost pixel in the highest
bit.  Drawing it toggles one cell for each set bit, row by row from the left, where coordinates wrap
around the edges of the screen.  On a small screen several bits may fall on one cell.
-/

namespace ChipEight.Screen

/-- The bit of a sprite's row in column `c`, where column 0 is the highest bit. -/
def rowBit (row : UInt8) (c : Nat) : Bool := row.toNat.testBit (spriteWidth - 1 - c)

/-- The cells that a row's set bits fall on, from left to right. -/
def rowFootprint (s : Screen) (x y : Nat) (row : UInt8) : List (Nat × Nat) :=
  ((List.range spriteWidth).filter (rowBit row)).map fun c => ((x + c) % s.width, y % s.height)

/-- The cells that a sprite's set bits fall on, row by row from the left. -/
def footprint (s : Screen) (x y : Nat) : List UInt8 → List (Nat × Nat)
  | [] => []
  | row :: rows => s.rowFootprint x y row ++ s.footprint x (y + 1) rows

/-- Toggles the lowest bit of a cell. -/
def toggle (s : Screen) (cell : Nat × Nat) : Screen :=
  s.put cell.1 cell.2 (s.get cell.1 cell.2 ^^^ 1)

/-- Toggles cells one after the other and tells whether any toggle made a cell dark. -/
def toggleAll (s : Screen) : List (Nat × Nat) → Screen × Bool
  | [] => (s, false)
  | cell :: cells =>
    let erased := s.darkens cell.1 cell.2 (s.get cell.1 cell.2 ^^^ 1)
    let rest := (s.toggle cell).toggleAll cells
    (rest.1, erased || rest.2)

/-- Draws a sprite with its top left corner at a cell and tells whether any cell was made dark. -/
def drawSprite (s : Screen) (x y : Nat) (sprite : List UInt8) : Screen × Bool :=
  s.toggleAll (s.footprint x y sprite)

/-- Draws a sprite, which is refused on a screen without cells unless the sprite has no rows. -/
def drawSprite? (s : Screen) (x y : Nat) (sprite : List UInt8) :
    Except Refusal (Screen × Bool) :=
  if sprite ≠ [] ∧ (s.width = 0 ∨ s.height = 0) then .error .nothingToWrap
  else .ok (s.drawSprite x y sprite)

end ChipEight.Screen
