import ChipEight.Layout

/-!
# Screen

A grid of cells, row after row, in which a cell is dark if it holds 0.  Drawing toggles the lowest
bit of cells, and a toggle that makes a cell dark is reported, which is how programs detect
collisions.

`get` and `put` are total: outside the grid there is only darkness, and nothing can be put there.
The checked forms `get?` and `put?` refuse a cell outside the grid and say which.
-/

namespace ChipEight

/-- A grid of cells. -/
structure Screen where
  /-- The number of columns. -/
  width : Nat
  /-- The number of rows. -/
  height : Nat
  /-- The cells, row after row. -/
  cells : Array UInt8
deriving DecidableEq

namespace Screen

/-- Why a request for cells of a screen was refused. -/
inductive Refusal where
  /-- The cell lies outside the grid. -/
  | outside (x y width height : Nat)
  /-- Coordinates cannot be wrapped around a grid without columns or without rows. -/
  | nothingToWrap
deriving DecidableEq, Repr

/-- The wording of a refusal. -/
def Refusal.message : Refusal → String
  | .outside x y width height => s!"pixel ({x}, {y}) outside {width}x{height} screen"
  | .nothingToWrap => "attempt to calculate the remainder with a divisor of zero"

/-- A dark screen of the given size. -/
def dark (width height : Nat) : Screen :=
  { width, height, cells := Array.replicate (width * height) 0 }

/-- There is one cell for each column of each row. -/
def Sized (s : Screen) : Prop := s.cells.size = s.width * s.height

/-- The grid has a cell in column `x` of row `y`. -/
abbrev Contains (s : Screen) (x y : Nat) : Prop := x < s.width ∧ y < s.height

/-- The position of a cell among all cells. -/
def index (s : Screen) (x y : Nat) : Nat := x + y * s.width

/-- The value of a cell, and 0 outside the grid. -/
def get (s : Screen) (x y : Nat) : UInt8 :=
  if s.Contains x y then s.cells[s.index x y]?.getD 0 else 0

/-- Gives a cell a value, if the grid has the cell. -/
def put (s : Screen) (x y : Nat) (value : UInt8) : Screen :=
  if s.Contains x y then { s with cells := s.cells.setIfInBounds (s.index x y) value } else s

/-- Putting a value into a cell makes it dark. -/
def darkens (s : Screen) (x y : Nat) (value : UInt8) : Bool :=
  s.get x y ≠ 0 ∧ value = 0

/-- The value of a cell, refused outside the grid. -/
def get? (s : Screen) (x y : Nat) : Except Refusal UInt8 :=
  if s.Contains x y then .ok (s.get x y) else .error (.outside x y s.width s.height)

/-- Gives a cell a value and tells whether that made it dark; refused outside the grid. -/
def put? (s : Screen) (x y : Nat) (value : UInt8) : Except Refusal (Screen × Bool) :=
  if s.Contains x y then .ok (s.put x y value, s.darkens x y value)
  else .error (.outside x y s.width s.height)

/-- Makes every cell dark. -/
def clear (s : Screen) : Screen := dark s.width s.height

/-- The positions of the cells that are lit, in ascending order. -/
def lit (s : Screen) : List Nat :=
  (List.range s.cells.size).filter fun i => s.cells[i]?.getD 0 ≠ 0

end Screen

end ChipEight
