import Mathlib.Data.Nat.ModEq
import ChipEight.Proofs.Safety

/-!
# Collisions

A drawing reports a collision if one of its toggles made a cell dark.  On a screen that is narrower
or lower than the sprite several bits fall on one cell, so a cell may be lit and made dark again by
the same drawing.  Whether that happened can be told from the value that each cell had before and
from the number of its toggles, although not from the screens before and after alone.

Main results:

- `toggleAll_snd_iff`: some toggle made a cell dark if some cell held 1 and was toggled, or held 0
  and was toggled twice.
- `toggleAll_snd_iff_turnsDark`: that is what is reported.
- `hits_le_one`: on a screen that a sprite fits on, no two of its bits fall on one cell.
- `drawSprite_snd_iff_of_fits`: on such a screen a collision is a cell that was lit before and is
  dark after.
- `drawSprite_cells_and_flag`: what a drawing does to a screen, and what it reports.
-/

namespace ChipEight.Screen

/-! ## Cells that are made dark -/

/-- A cell of the given value becomes dark in the course of so many toggles.  The toggles of a cell
that holds neither 0 nor 1 never make it dark. -/
def Erased (value : UInt8) (toggles : Nat) : Prop :=
  value = 1 ∧ 1 ≤ toggles ∨ value = 0 ∧ 2 ≤ toggles

/-- A cell becomes dark with its first toggle or with a later one. -/
theorem erased_succ (value : UInt8) (n : Nat) :
    Erased value (n + 1) ↔ value = 1 ∨ Erased (value ^^^ 1) n := by
  have hzero : value ^^^ 1 = 0 ↔ value = 1 := UInt8.xor_eq_zero_iff
  have hone : value ^^^ 1 = 1 ↔ value = 0 := by
    constructor
    · intro h
      have hback := congrArg (· ^^^ 1) h
      simpa [UInt8.xor_assoc] using hback
    · rintro rfl
      rfl
  unfold Erased
  rw [hzero, hone]
  by_cases h : value = 1
  · simp [h]
  · simp [h, Nat.succ_le_succ_iff]

variable {s : Screen}

/-- A toggle makes a cell dark if it held 1. -/
theorem darkens_toggle_iff (x y : Nat) :
    s.darkens x y (s.get x y ^^^ 1) = true ↔ s.Contains x y ∧ s.get x y = 1 := by
  have hxor : s.get x y ^^^ 1 = 0 ↔ s.get x y = 1 := UInt8.xor_eq_zero_iff
  unfold darkens
  rw [decide_eq_true_iff, hxor]
  constructor
  · rintro ⟨-, hone⟩
    refine ⟨?_, hone⟩
    by_contra hout
    rw [get, if_neg hout] at hone
    cases hone
  · rintro ⟨-, hone⟩
    refine ⟨?_, hone⟩
    rw [hone]
    decide

/-- A cell of the grid becomes dark with the first of many toggles or with a later one. -/
theorem erased_count_cons (hs : s.Sized) {x y : Nat} (hc : s.Contains x y) (cell : Nat × Nat)
    (cells : List (Nat × Nat)) :
    Erased (s.get x y) ((cell :: cells).count (x, y)) ↔
      (cell = (x, y) ∧ s.get x y = 1) ∨
        Erased ((s.toggle cell).get x y) (cells.count (x, y)) := by
  by_cases hcell : cell = (x, y)
  · subst hcell
    rw [List.count_cons_self, erased_succ, get_toggle_self hs hc]
    simp
  · rw [List.count_cons_of_ne hcell, get_toggle_of_ne hs hcell]
    simp [hcell]

/-- Some toggle made a cell dark if a cell of the grid held 1 and was toggled, or held 0 and was
toggled twice. -/
theorem toggleAll_snd_iff (hs : s.Sized) (cells : List (Nat × Nat)) :
    (s.toggleAll cells).2 = true ↔
      ∃ x y, s.Contains x y ∧ Erased (s.get x y) (cells.count (x, y)) := by
  induction cells generalizing s with
  | nil => simp [toggleAll, Erased]
  | cons cell cells ih =>
    have hfirst : s.darkens cell.1 cell.2 (s.get cell.1 cell.2 ^^^ 1) = true ↔
        ∃ x y, s.Contains x y ∧ cell = (x, y) ∧ s.get x y = 1 := by
      rw [darkens_toggle_iff]
      constructor
      · rintro ⟨hc, hone⟩
        exact ⟨cell.1, cell.2, hc, rfl, hone⟩
      · rintro ⟨x, y, hc, rfl, hone⟩
        exact ⟨hc, hone⟩
    show (_ || ((s.toggle cell).toggleAll cells).2) = true ↔ _
    rw [Bool.or_eq_true, hfirst, ih (sized_toggle hs cell), ← exists_or]
    refine exists_congr fun x => ?_
    rw [← exists_or]
    refine exists_congr fun y => ?_
    have hgrid : (s.toggle cell).Contains x y ↔ s.Contains x y := by simp [Contains]
    rw [hgrid, ← and_or_left]
    exact and_congr_right fun hc => (erased_count_cons hs hc cell cells).symm

/-- One of the toggles, taken one after the other, turns a lit cell dark. -/
def TurnsDark (s : Screen) (cells : List (Nat × Nat)) : Prop :=
  ∃ before cell after, cells = before ++ cell :: after ∧
    (s.toggleAll before).1.get cell.1 cell.2 ≠ 0 ∧
    (s.toggleAll (before ++ [cell])).1.get cell.1 cell.2 = 0

theorem not_turnsDark_nil (s : Screen) : ¬ s.TurnsDark [] := by
  rintro ⟨before, cell, after, heq, -⟩
  simp at heq

/-- The first toggle turns a lit cell dark, or a later one does. -/
theorem turnsDark_cons (s : Screen) (cell : Nat × Nat) (cells : List (Nat × Nat)) :
    s.TurnsDark (cell :: cells) ↔
      s.get cell.1 cell.2 ≠ 0 ∧ (s.toggle cell).get cell.1 cell.2 = 0 ∨
        (s.toggle cell).TurnsDark cells := by
  constructor
  · rintro ⟨before, last, after, heq, hlit, hdark⟩
    rcases List.cons_eq_append_iff.1 heq with ⟨rfl, hlast⟩ | ⟨before, rfl, hrest⟩
    · obtain ⟨rfl, rfl⟩ := List.cons.inj hlast
      exact .inl ⟨hlit, hdark⟩
    · exact .inr ⟨before, last, after, hrest, hlit, hdark⟩
  · rintro (⟨hlit, hdark⟩ | ⟨before, last, after, rfl, hlit, hdark⟩)
    · exact ⟨[], cell, cells, rfl, hlit, hdark⟩
    · exact ⟨cell :: before, last, after, rfl, hlit, hdark⟩

/-- A toggle turns a lit cell dark if it held 1. -/
theorem get_toggle_eq_zero_iff (hs : s.Sized) (cell : Nat × Nat) :
    s.get cell.1 cell.2 ≠ 0 ∧ (s.toggle cell).get cell.1 cell.2 = 0 ↔
      s.Contains cell.1 cell.2 ∧ s.get cell.1 cell.2 = 1 := by
  by_cases hc : s.Contains cell.1 cell.2
  · have htoggled : (s.toggle cell).get cell.1 cell.2 = s.get cell.1 cell.2 ^^^ 1 :=
      get_toggle_self hs hc
    rw [htoggled, UInt8.xor_eq_zero_iff]
    constructor
    · rintro ⟨-, hone⟩
      exact ⟨hc, hone⟩
    · rintro ⟨-, hone⟩
      rw [hone]
      decide
  · have hdark : s.get cell.1 cell.2 = 0 := if_neg hc
    simp [hc, hdark]

/-- Toggling cells reports whether one of the toggles turned a lit cell dark. -/
theorem toggleAll_snd_iff_turnsDark (hs : s.Sized) (cells : List (Nat × Nat)) :
    (s.toggleAll cells).2 = true ↔ s.TurnsDark cells := by
  induction cells generalizing s with
  | nil => simp [toggleAll, not_turnsDark_nil]
  | cons cell cells ih =>
    rw [turnsDark_cons, get_toggle_eq_zero_iff hs, ← darkens_toggle_iff,
      ← ih (sized_toggle hs cell)]
    exact Bool.or_eq_true_iff

/-! ## Screens that a sprite fits on -/

/-- If a sprite is neither wider nor higher than the screen, no two of its bits fall on one cell. -/
theorem hits_le_one {width height : Nat} {sprite : List UInt8} (hwidth : spriteWidth ≤ width)
    (hheight : sprite.length ≤ height) (x y : Nat) (cell : Nat × Nat) :
    hits width height x y sprite cell ≤ 1 := by
  unfold hits
  rw [Finset.card_le_one]
  rintro ⟨r, c⟩ hfirst ⟨r', c'⟩ hsecond
  simp only [Finset.mem_filter, Finset.mem_product, Finset.mem_range] at hfirst hsecond
  obtain ⟨⟨hr, hc⟩, -, rfl⟩ := hfirst
  obtain ⟨⟨hr', hc'⟩, -, hcell⟩ := hsecond
  have hplace := Prod.mk.inj hcell
  have hcolumn : c' ≡ c [MOD width] := Nat.ModEq.add_left_cancel' x hplace.1
  have hrow : r' ≡ r [MOD height] := Nat.ModEq.add_left_cancel' y hplace.2
  rw [hcolumn.eq_of_lt_of_lt (by omega) (by omega), hrow.eq_of_lt_of_lt (by omega) (by omega)]

/-- The cells after a drawing. -/
theorem get_drawSprite_eq_xor (hs : s.Sized) {u v : Nat} (hc : s.Contains u v) (x y : Nat)
    (sprite : List UInt8) :
    (s.drawSprite x y sprite).1.get u v =
      s.get u v ^^^ UInt8.ofNat (hits s.width s.height x y sprite (u, v) % 2) := by
  rw [get_drawSprite hs hc]
  split
  · next hodd =>
    rw [Nat.odd_iff.1 hodd]
    rfl
  · next heven =>
    rw [Nat.even_iff.1 (Nat.not_odd_iff_even.1 heven)]
    exact UInt8.xor_zero.symm

/-- Whether a drawing reports a collision. -/
theorem drawSprite_snd_iff (hs : s.Sized) (x y : Nat) (sprite : List UInt8) :
    (s.drawSprite x y sprite).2 = true ↔
      ∃ u v, s.Contains u v ∧ Erased (s.get u v) (hits s.width s.height x y sprite (u, v)) := by
  unfold drawSprite
  rw [toggleAll_snd_iff hs]
  simp only [count_footprint]

/-- On a screen that the sprite fits on, a collision is a cell that held 1 before and holds 0
after. -/
theorem drawSprite_snd_iff_of_fits (hs : s.Sized) {sprite : List UInt8}
    (hwidth : spriteWidth ≤ s.width) (hheight : sprite.length ≤ s.height) (x y : Nat) :
    (s.drawSprite x y sprite).2 = true ↔
      ∃ u v, s.Contains u v ∧ s.get u v = 1 ∧ (s.drawSprite x y sprite).1.get u v = 0 := by
  rw [drawSprite_snd_iff hs]
  refine exists_congr fun u => exists_congr fun v => and_congr_right fun hc => ?_
  have hle := hits_le_one hwidth hheight x y (u, v)
  rw [get_drawSprite hs hc]
  unfold Erased
  constructor
  · rintro (⟨hone, hhit⟩ | ⟨-, htwice⟩)
    · have hodd : Odd (hits s.width s.height x y sprite (u, v)) := by
        rw [Nat.le_antisymm hle hhit]
        exact odd_one
      rw [if_pos hodd, hone]
      exact ⟨rfl, rfl⟩
    · omega
  · rintro ⟨hone, hdark⟩
    refine .inl ⟨hone, Nat.pos_of_ne_zero fun hnone => ?_⟩
    rw [hnone, if_neg Nat.not_odd_zero, hone] at hdark
    cases hdark

/-! ## What a drawing does -/

/-- A drawing on a screen with cells of any values is not refused, and where coordinates and cells
can be counted in 64 bits, nothing goes wrong in the writes that make it up.  It flips each cell as
often as bits of the sprite fall there and keeps the size of the screen.  It reports a collision if
some cell held 1 and was met, or held 0 and was met twice.  On a screen that the sprite fits on,
that is a cell that held 1 before and holds 0 after. -/
theorem drawSprite_cells_and_flag {s : Screen} (hs : s.Sized) (hwidth : 0 < s.width)
    (hheight : 0 < s.height) (x y : Nat) (sprite : List UInt8) :
    s.drawSprite? x y sprite = .ok (s.drawSprite x y sprite) ∧
      (x + 7 < Guarded.countLimit → y + sprite.length < Guarded.countLimit →
        s.cells.size < Guarded.countLimit →
        s.guardedRows x y sprite = .ok (s.drawSprite x y sprite)) ∧
      (s.drawSprite x y sprite).1.width = s.width ∧
      (s.drawSprite x y sprite).1.height = s.height ∧
      (s.drawSprite x y sprite).1.cells.size = s.cells.size ∧
      (∀ u v, s.Contains u v → (s.drawSprite x y sprite).1.get u v =
        s.get u v ^^^ UInt8.ofNat (hits s.width s.height x y sprite (u, v) % 2)) ∧
      ((s.drawSprite x y sprite).2 = true ↔ ∃ u v, s.Contains u v ∧
        (s.get u v = 1 ∧ 1 ≤ hits s.width s.height x y sprite (u, v) ∨
          s.get u v = 0 ∧ 2 ≤ hits s.width s.height x y sprite (u, v))) ∧
      (8 ≤ s.width → sprite.length ≤ s.height →
        ((s.drawSprite x y sprite).2 = true ↔ ∃ u v, s.Contains u v ∧
          s.get u v = 1 ∧ (s.drawSprite x y sprite).1.get u v = 0)) := by
  obtain ⟨hsized, hw, hh⟩ := toggleAll_keeps hs (s.footprint x y sprite)
  refine ⟨?_, ?_, hw, hh, ?_, ?_, drawSprite_snd_iff hs x y sprite, ?_⟩
  · unfold drawSprite?
    rw [if_neg]
    omega
  · intro hx hy hsize
    exact guardedRows_eq hs rfl rfl (hs ▸ hsize) hwidth hheight hx (Nat.le_of_lt hy)
  · rw [hs]
    show (s.toggleAll (s.footprint x y sprite)).1.cells.size = _
    rw [hsized, hw, hh]
  · intro u v hc
    exact get_drawSprite_eq_xor hs hc x y sprite
  · intro hwide hhigh
    exact drawSprite_snd_iff_of_fits hs hwide hhigh x y

/-- Two columns for four bits: each cell is met twice and keeps its value, the cell that held 0 was
lit on the way, and a cell that holds 2 does not count. -/
theorem drawSprite_cells_and_flag_narrow :
    ∃ s : Screen, s = ⟨2, 1, #[0, 2]⟩ ∧ s.Sized ∧ 0 < s.width ∧ 0 < s.height ∧
      s.drawSprite? 0 0 [0xF0] = .ok (s.drawSprite 0 0 [0xF0]) ∧
      (s.drawSprite 0 0 [0xF0]).1.get 0 0 = 0 ∧ (s.drawSprite 0 0 [0xF0]).1.get 1 0 = 2 ∧
      (s.drawSprite 0 0 [0xF0]).2 = true := by
  obtain ⟨s, hs⟩ : ∃ s : Screen, s = ⟨2, 1, #[0, 2]⟩ := ⟨_, rfl⟩
  have hsized : s.Sized := by
    rw [hs]
    rfl
  have hwidth : s.width = 2 := by rw [hs]
  have hheight : s.height = 1 := by rw [hs]
  have hleft : hits 2 1 0 0 [0xF0] (0, 0) = 2 := by decide
  have hright : hits 2 1 0 0 [0xF0] (1, 0) = 2 := by decide
  have hcontains (x : Nat) (hx : x < 2) : s.Contains x 0 := by
    rw [Contains, hwidth, hheight]
    exact ⟨hx, Nat.zero_lt_one⟩
  obtain ⟨hdrawn, -, -, -, -, hcells, hflag, -⟩ :=
    drawSprite_cells_and_flag hsized (by omega) (by omega) 0 0 [0xF0]
  rw [hwidth, hheight] at hcells hflag
  refine ⟨s, hs, hsized, by omega, by omega, hdrawn, ?_, ?_, ?_⟩
  · rw [hcells 0 0 (hcontains 0 (by decide)), hleft, hs]
    rfl
  · rw [hcells 1 0 (hcontains 1 (by decide)), hright, hs]
    rfl
  · refine hflag.2 ⟨0, 0, hcontains 0 (by decide), .inr ⟨?_, Nat.le_of_eq hleft.symm⟩⟩
    rw [hs]
    rfl

end ChipEight.Screen
