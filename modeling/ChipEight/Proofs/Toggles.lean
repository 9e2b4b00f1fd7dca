import Mathlib.Algebra.BigOperators.Group.Finset.Piecewise
import Mathlib.Algebra.BigOperators.Group.Finset.Sigma
import Mathlib.Algebra.Ring.Parity
import ChipEight.Screen.Lemmas

/-!
# Toggled cells

Drawing a sprite toggles cells one after the other, and a cell may be met several times.  What is
left of a screen is therefore a matter of parity: a cell has changed if it was met an odd number of
times.

Main results:

- `get_toggleAll`: a cell is flipped by an odd number of toggles and kept by an even one.
- `count_footprint`: a sprite meets a cell once for each of its set bits that falls there.
- `Regular.drawSprite`: a drawing keeps size and number of cells, and cells that hold 0 or 1.
-/

namespace ChipEight.Screen

/-! ## Regular screens -/

/-- The screen has the given size, and each of its cells is 0 or 1. -/
structure Regular (s : Screen) (width height : Nat) : Prop where
  /-- The number of columns. -/
  width_eq : s.width = width
  /-- The number of rows. -/
  height_eq : s.height = height
  /-- There is one cell for each column of each row. -/
  sized : s.Sized
  /-- The cells hold no other values. -/
  binary : ∀ cell ∈ s.cells, cell = 0 ∨ cell = 1

theorem regular_dark (width height : Nat) : (dark width height).Regular width height where
  width_eq := rfl
  height_eq := rfl
  sized := sized_dark width height
  binary := by
    intro cell hcell
    exact .inl (Array.eq_of_mem_replicate hcell)

theorem Regular.clear {s : Screen} {width height : Nat} (h : s.Regular width height) :
    s.clear.Regular width height := by
  unfold Screen.clear
  rw [h.width_eq, h.height_eq]
  exact regular_dark width height

/-- A cell of a regular screen is 0 or 1. -/
theorem Regular.get_eq {s : Screen} {width height : Nat} (h : s.Regular width height) (x y : Nat) :
    s.get x y = 0 ∨ s.get x y = 1 := by
  unfold get
  split
  · cases hcell : s.cells[s.index x y]? with
    | none => exact .inl rfl
    | some cell => exact h.binary cell (Array.mem_of_getElem? hcell)
  · exact .inl rfl

theorem Regular.toggle {s : Screen} {width height : Nat} (h : s.Regular width height)
    (cell : Nat × Nat) : (s.toggle cell).Regular width height where
  width_eq := (width_toggle s cell).trans h.width_eq
  height_eq := (height_toggle s cell).trans h.height_eq
  sized := sized_toggle h.sized cell
  binary := by
    have hvalue : s.get cell.1 cell.2 ^^^ 1 = 0 ∨ s.get cell.1 cell.2 ^^^ 1 = 1 := by
      rcases h.get_eq cell.1 cell.2 with h0 | h1
      · rw [h0]; exact .inr rfl
      · rw [h1]; exact .inl rfl
    intro c hc
    unfold Screen.toggle put at hc
    split at hc
    · rcases Array.mem_or_eq_of_mem_setIfInBounds hc with hold | rfl
      · exact h.binary c hold
      · exact hvalue
    · exact h.binary c hc

/-! ## Many toggles -/

theorem Regular.toggleAll {s : Screen} {width height : Nat} (h : s.Regular width height)
    (cells : List (Nat × Nat)) : (s.toggleAll cells).1.Regular width height := by
  induction cells generalizing s with
  | nil => exact h
  | cons cell cells ih => exact ih (h.toggle cell)

theorem Regular.drawSprite {s : Screen} {width height : Nat} (h : s.Regular width height)
    (x y : Nat) (sprite : List UInt8) : (s.drawSprite x y sprite).1.Regular width height :=
  h.toggleAll _

/-- Toggling cells keeps the number of cells and the size of the screen. -/
theorem toggleAll_keeps {s : Screen} (hs : s.Sized) (cells : List (Nat × Nat)) :
    (s.toggleAll cells).1.Sized ∧ (s.toggleAll cells).1.width = s.width ∧
      (s.toggleAll cells).1.height = s.height := by
  induction cells generalizing s with
  | nil => exact ⟨hs, rfl, rfl⟩
  | cons cell cells ih =>
    obtain ⟨hsized, hwidth, hheight⟩ := ih (sized_toggle hs cell)
    exact ⟨hsized, hwidth.trans (width_toggle s cell), hheight.trans (height_toggle s cell)⟩

/-- Where a sprite falls depends on the size of the screen only. -/
theorem footprint_congr {s t : Screen} (hw : t.width = s.width) (hh : t.height = s.height)
    (x y : Nat) (sprite : List UInt8) : t.footprint x y sprite = s.footprint x y sprite := by
  induction sprite generalizing y with
  | nil => rfl
  | cons row rows ih => simp only [footprint, rowFootprint, hw, hh, ih]

/-- Toggling cells and then others toggles all of them. -/
theorem toggleAll_append (s : Screen) (first second : List (Nat × Nat)) :
    s.toggleAll (first ++ second) =
      (((s.toggleAll first).1.toggleAll second).1,
        (s.toggleAll first).2 || ((s.toggleAll first).1.toggleAll second).2) := by
  induction first generalizing s with
  | nil => simp [toggleAll]
  | cons cell cells ih =>
    simp only [List.cons_append, toggleAll]
    rw [ih]
    simp only [Bool.or_assoc]

/-- A cell of the grid is flipped if it is toggled an odd number of times, and kept otherwise. -/
theorem get_toggleAll {s : Screen} (hs : s.Sized) {x y : Nat} (hc : s.Contains x y)
    (cells : List (Nat × Nat)) :
    (s.toggleAll cells).1.get x y =
      if Odd (cells.count (x, y)) then s.get x y ^^^ 1 else s.get x y := by
  induction cells generalizing s with
  | nil => simp [toggleAll]
  | cons cell cells ih =>
    have hc' : (s.toggle cell).Contains x y := by simpa [Contains] using hc
    show ((s.toggle cell).toggleAll cells).1.get x y = _
    rw [ih (sized_toggle hs cell) hc']
    -- The first toggle changes the cell and the parity of the count, or neither.
    by_cases hcell : cell = (x, y)
    · subst hcell
      rw [get_toggle_self hs hc, List.count_cons_self]
      by_cases hodd : Odd (cells.count (x, y))
      · have heven : ¬ Odd (cells.count (x, y) + 1) := by
          rw [Nat.not_odd_iff_even]
          exact hodd.add_one
        rw [if_pos hodd, if_neg heven, UInt8.xor_assoc]
        simp
      · have hodd' : Odd (cells.count (x, y) + 1) := (Nat.not_odd_iff_even.1 hodd).add_one
        rw [if_neg hodd, if_pos hodd']
    · rw [get_toggle_of_ne hs hcell, List.count_cons_of_ne hcell]

/-! ## Where the bits of a sprite fall -/

open Finset

/-- The number of set bits of a sprite that fall on a cell when its top left corner is at column `x`
of row `y`: the pairs of a row `r` and a column `c` of the sprite whose bit is set and whose place
on the screen, wrapped around its edges, is the cell. -/
def hits (width height x y : Nat) (sprite : List UInt8) (cell : Nat × Nat) : Nat :=
  #{p ∈ range sprite.length ×ˢ range spriteWidth |
    rowBit (sprite[p.1]?.getD 0) p.2 = true ∧ ((x + p.2) % width, (y + p.1) % height) = cell}

/-- The hits of a sprite are those of each of its rows. -/
theorem hits_eq_sum (width height x y : Nat) (sprite : List UInt8) (cell : Nat × Nat) :
    hits width height x y sprite cell =
      ∑ r ∈ range sprite.length, ∑ c ∈ range spriteWidth,
        if rowBit (sprite[r]?.getD 0) c = true ∧ ((x + c) % width, (y + r) % height) = cell
          then 1 else 0 := by
  unfold hits
  rw [card_filter, sum_product]

/-- The hits of a sprite are those of its first row and those of the rows below. -/
theorem hits_cons (width height x y : Nat) (row : UInt8) (rows : List UInt8) (cell : Nat × Nat) :
    hits width height x y (row :: rows) cell =
      (∑ c ∈ range spriteWidth,
        if rowBit row c = true ∧ ((x + c) % width, y % height) = cell then 1 else 0) +
      hits width height x (y + 1) rows cell := by
  simp only [hits_eq_sum, List.length_cons]
  rw [sum_range_succ', Nat.add_comm]
  congr 1
  refine sum_congr rfl fun r _ => sum_congr rfl fun c _ => ?_
  rw [List.getElem?_cons_succ, Nat.add_right_comm, Nat.add_assoc]

/-- Counting a value among the images of chosen numbers counts the chosen numbers with that
image. -/
theorem count_map_filter_range (n : Nat) (chosen : Nat → Bool) (image : Nat → Nat × Nat)
    (cell : Nat × Nat) :
    (((List.range n).filter chosen).map image).count cell =
      ∑ c ∈ range n, if chosen c = true ∧ image c = cell then 1 else 0 := by
  induction n with
  | zero => rfl
  | succ n ih =>
    rw [List.range_succ, List.filter_append, List.map_append, List.count_append, ih,
      sum_range_succ]
    congr 1
    by_cases hn : chosen n = true
    · by_cases hcell : image n = cell <;> simp [hn, hcell]
    · simp [hn]

/-- A sprite meets a cell once for each of its set bits that falls there. -/
theorem count_footprint (s : Screen) (x y : Nat) (sprite : List UInt8) (cell : Nat × Nat) :
    (s.footprint x y sprite).count cell = hits s.width s.height x y sprite cell := by
  induction sprite generalizing y with
  | nil => simp [footprint, hits]
  | cons row rows ih =>
    rw [footprint, List.count_append, ih, hits_cons]
    congr 1
    exact count_map_filter_range spriteWidth (rowBit row) _ cell

/-- A cell of the grid is flipped by a sprite if an odd number of its set bits falls there. -/
theorem get_drawSprite {s : Screen} (hs : s.Sized) {u v : Nat} (hc : s.Contains u v)
    (x y : Nat) (sprite : List UInt8) :
    (s.drawSprite x y sprite).1.get u v =
      if Odd (hits s.width s.height x y sprite (u, v)) then s.get u v ^^^ 1 else s.get u v := by
  unfold drawSprite
  rw [get_toggleAll hs hc, count_footprint]

end ChipEight.Screen
