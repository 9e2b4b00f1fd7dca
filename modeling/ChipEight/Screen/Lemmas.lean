import ChipEight.Screen.Sprite

/-!
# What the operations do to a screen

A screen is seen through `get`, the value of each cell, and through its size.

Main results:

- `index_lt`, `index_inj`: the cells of the grid and their positions correspond to each other.
- `get_put`, `get_toggle`: an operation on one cell changes that cell and no other.
-/

namespace ChipEight.Screen

/-! ## Positions -/

/-- A cell of the grid has a position below the number of cells. -/
theorem index_lt {s : Screen} {x y : Nat} (h : s.Contains x y) :
    s.index x y < s.width * s.height := by
  have := Nat.mul_le_mul_right s.width (Nat.succ_le_of_lt h.2)
  have := h.1
  rw [Nat.succ_mul] at *
  rw [Nat.mul_comm s.width]
  unfold index
  omega

/-- Different cells of the grid have different positions. -/
theorem index_inj {s : Screen} {x y u v : Nat} (h : s.Contains x y) (h' : s.Contains u v)
    (e : s.index x y = s.index u v) : x = u ∧ y = v := by
  unfold index at e
  have hx : (x + y * s.width) % s.width = (u + v * s.width) % s.width := by rw [e]
  simp only [Nat.add_mul_mod_self_right, Nat.mod_eq_of_lt h.1, Nat.mod_eq_of_lt h'.1] at hx
  subst hx
  refine ⟨rfl, ?_⟩
  have hw : 0 < s.width := Nat.lt_of_le_of_lt (Nat.zero_le _) h.1
  exact Nat.eq_of_mul_eq_mul_right hw (Nat.add_left_cancel e)

/-! ## One cell -/

/-- A dark screen has one cell for each column of each row. -/
theorem sized_dark (width height : Nat) : (dark width height).Sized := by
  simp [Sized, dark]

/-- Every cell of a dark screen is dark. -/
theorem get_dark (width height x y : Nat) : (dark width height).get x y = 0 := by
  unfold get dark
  split
  · simp [Array.getElem?_replicate]
    split <;> rfl
  · rfl

/-- Putting a value into a cell changes that cell and no other. -/
theorem get_put {s : Screen} (hs : s.Sized) (x y u v : Nat) (value : UInt8) :
    (s.put x y value).get u v =
      if s.Contains x y ∧ u = x ∧ v = y then value else s.get u v := by
  unfold put
  split
  · next h =>
    by_cases hc : s.Contains u v
    · have hlt : s.index u v < s.cells.size := hs ▸ index_lt hc
      by_cases he : u = x ∧ v = y
      · obtain ⟨rfl, rfl⟩ := he
        rw [if_pos ⟨h, rfl, rfl⟩, get, if_pos h]
        show (s.cells.setIfInBounds (s.index u v) value)[s.index u v]?.getD 0 = value
        simp [hlt]
      · have hne : s.index x y ≠ s.index u v := fun e => he (by
          obtain ⟨h1, h2⟩ := index_inj h hc e
          exact ⟨h1.symm, h2.symm⟩)
        have hc' : u < s.width ∧ v < s.height := hc
        rw [if_neg (fun h' => he h'.2)]
        simp only [get, index] at *
        rw [Array.getElem?_setIfInBounds_ne hne]
    · have : ¬ (s.Contains x y ∧ u = x ∧ v = y) := by
        rintro ⟨h1, rfl, rfl⟩
        exact hc h1
      rw [if_neg this]
      simp only [get]
      rw [if_neg hc, if_neg hc]
  · next h => rw [if_neg (fun h' => h h'.1)]

/-- Putting a value keeps the number of cells. -/
theorem sized_put {s : Screen} (hs : s.Sized) (x y : Nat) (value : UInt8) :
    (s.put x y value).Sized := by
  unfold put
  split
  · simpa [Sized] using hs
  · exact hs

/-- Putting a value keeps the number of columns. -/
@[simp]
theorem width_put (s : Screen) (x y : Nat) (value : UInt8) : (s.put x y value).width = s.width := by
  unfold put
  split <;> rfl

/-- Putting a value keeps the number of rows. -/
@[simp]
theorem height_put (s : Screen) (x y : Nat) (value : UInt8) :
    (s.put x y value).height = s.height := by
  unfold put
  split <;> rfl

/-- Toggling a cell changes the lowest bit of that cell and no other cell. -/
theorem get_toggle {s : Screen} (hs : s.Sized) (x y u v : Nat) :
    (s.toggle (x, y)).get u v =
      if s.Contains x y ∧ u = x ∧ v = y then s.get x y ^^^ 1 else s.get u v := by
  exact get_put hs x y u v _

/-- Toggling a cell of the grid changes its lowest bit. -/
theorem get_toggle_self {s : Screen} (hs : s.Sized) {x y : Nat} (h : s.Contains x y) :
    (s.toggle (x, y)).get x y = s.get x y ^^^ 1 := by
  rw [get_toggle hs, if_pos ⟨h, rfl, rfl⟩]

/-- Toggling a cell keeps the others. -/
theorem get_toggle_of_ne {s : Screen} (hs : s.Sized) {cell : Nat × Nat} {x y : Nat}
    (h : cell ≠ (x, y)) : (s.toggle cell).get x y = s.get x y := by
  obtain ⟨u, v⟩ := cell
  rw [get_toggle hs, if_neg]
  rintro ⟨-, rfl, rfl⟩
  exact h rfl

/-- Toggling keeps the number of cells. -/
theorem sized_toggle {s : Screen} (hs : s.Sized) (cell : Nat × Nat) : (s.toggle cell).Sized :=
  sized_put hs _ _ _

/-- Toggling keeps the number of columns. -/
@[simp]
theorem width_toggle (s : Screen) (cell : Nat × Nat) : (s.toggle cell).width = s.width :=
  width_put s _ _ _

/-- Toggling keeps the number of rows. -/
@[simp]
theorem height_toggle (s : Screen) (cell : Nat × Nat) : (s.toggle cell).height = s.height :=
  height_put s _ _ _

end ChipEight.Screen
