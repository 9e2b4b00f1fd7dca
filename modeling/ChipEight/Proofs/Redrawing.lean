import Mathlib.Data.List.Perm.Basic
import ChipEight.Proofs.Collisions
import ChipEight.Proofs.Composition

/-!
# Drawing again

What strokes make of a screen does not depend on their order, and strokes that are drawn again take
back what they have drawn.  Each of them may report a collision in one order and none in another.
Whether any of them does is the same in all orders, for that is decided by how often each cell was
met.

Main results:

- `ext_get`: screens of the same size are equal if their cells are.
- `toggleAll_perm`: toggled cells may be toggled in any order.
- `drawStrokes_eq`: strokes are the toggles of all cells that their bits fall on.
- `strokes_reorder_and_cancel`: strokes in any order, and strokes that are drawn again.
-/

namespace ChipEight.Screen

variable {s t : Screen}

/-! ## Telling screens apart -/

/-- Each position is that of a cell of the grid. -/
theorem contains_of_lt {i : Nat} (hi : i < s.width * s.height) :
    s.Contains (i % s.width) (i / s.width) := by
  have hwidth : 0 < s.width := Nat.pos_of_ne_zero fun h => by simp [h] at hi
  exact ⟨Nat.mod_lt i hwidth, Nat.div_lt_of_lt_mul hi⟩

/-- The cell at a position. -/
theorem getElem?_cells_eq_get (hs : s.Sized) {i : Nat} (hi : i < s.cells.size) :
    s.cells[i]? = some (s.get (i % s.width) (i / s.width)) := by
  have hindex : s.index (i % s.width) (i / s.width) = i := Nat.mod_add_div' i s.width
  rw [get, if_pos (contains_of_lt (hs ▸ hi)), hindex, Array.getElem?_eq_getElem hi]
  rfl

/-- Screens of the same size are equal if their cells are. -/
theorem ext_get (hs : s.Sized) (ht : t.Sized) (hwidth : s.width = t.width)
    (hheight : s.height = t.height) (hget : ∀ x y, t.Contains x y → s.get x y = t.get x y) :
    s = t := by
  have hsize : s.cells.size = t.cells.size := by rw [hs, ht, hwidth, hheight]
  have hcells : s.cells = t.cells := by
    apply Array.ext_getElem?
    intro i
    by_cases hi : i < t.cells.size
    · rw [getElem?_cells_eq_get hs (hsize ▸ hi), getElem?_cells_eq_get ht hi, hwidth,
        hget _ _ (contains_of_lt (ht ▸ hi))]
    · rw [Array.getElem?_eq_none (by omega), Array.getElem?_eq_none (by omega)]
  obtain ⟨width, height, cells⟩ := s
  obtain ⟨width', height', cells'⟩ := t
  cases hwidth
  cases hheight
  cases hcells
  rfl

/-! ## Toggles in any order -/

/-- Cells may be toggled in any order, also as far as the report of a collision is concerned. -/
theorem toggleAll_perm (hs : s.Sized) {cells again : List (Nat × Nat)} (h : cells.Perm again) :
    s.toggleAll cells = s.toggleAll again := by
  obtain ⟨hfirst, hwidth, hheight⟩ := toggleAll_keeps hs cells
  obtain ⟨hsecond, hwidth', hheight'⟩ := toggleAll_keeps hs again
  apply Prod.ext
  · refine ext_get hfirst hsecond (hwidth.trans hwidth'.symm) (hheight.trans hheight'.symm) ?_
    intro x y hc
    have hgrid : s.Contains x y := by rwa [Contains, hwidth', hheight'] at hc
    rw [get_toggleAll hs hgrid, get_toggleAll hs hgrid, h.count_eq]
  · rw [Bool.eq_iff_iff, toggleAll_snd_iff hs, toggleAll_snd_iff hs]
    simp only [h.count_eq]

/-- Cells that are toggled again hold what they held before. -/
theorem toggleAll_append_self (hs : s.Sized) (cells : List (Nat × Nat)) :
    (s.toggleAll (cells ++ cells)).1 = s := by
  obtain ⟨hsized, hwidth, hheight⟩ := toggleAll_keeps hs (cells ++ cells)
  refine ext_get hsized hs hwidth hheight fun x y hc => ?_
  rw [get_toggleAll hs hc, List.count_append, if_neg]
  rw [Nat.not_odd_iff_even]
  exact Even.add_self _

/-- If cells are toggled twice, some toggle makes a cell dark if one of them held 0 or 1. -/
theorem toggleAll_append_self_snd_iff (hs : s.Sized) (cells : List (Nat × Nat)) :
    (s.toggleAll (cells ++ cells)).2 = true ↔
      ∃ x y, s.Contains x y ∧ (x, y) ∈ cells ∧ (s.get x y = 0 ∨ s.get x y = 1) := by
  rw [toggleAll_snd_iff hs]
  refine exists_congr fun x => exists_congr fun y => and_congr_right fun _ => ?_
  rw [List.count_append, Erased, ← List.count_pos_iff]
  by_cases hmet : 0 < cells.count (x, y)
  · have htwice : 2 ≤ cells.count (x, y) + cells.count (x, y) := by omega
    simp [hmet, htwice, Nat.le_of_succ_le htwice, or_comm]
  · have hnone : cells.count (x, y) = 0 := by omega
    simp [hnone]

/-! ## Strokes -/

/-- A cell is met by a sprite if one of its set bits falls there. -/
theorem mem_footprint_iff (x y : Nat) (sprite : List UInt8) (cell : Nat × Nat) :
    cell ∈ s.footprint x y sprite ↔
      ∃ r c, r < sprite.length ∧ c < spriteWidth ∧ rowBit (sprite[r]?.getD 0) c = true ∧
        ((x + c) % s.width, (y + r) % s.height) = cell := by
  rw [← List.count_pos_iff, count_footprint, hits, Finset.card_pos]
  constructor
  · rintro ⟨⟨r, c⟩, hmem⟩
    simp only [Finset.mem_filter, Finset.mem_product, Finset.mem_range] at hmem
    exact ⟨r, c, hmem.1.1, hmem.1.2, hmem.2⟩
  · rintro ⟨r, c, hr, hc, hbit⟩
    refine ⟨(r, c), ?_⟩
    simp only [Finset.mem_filter, Finset.mem_product, Finset.mem_range]
    exact ⟨⟨hr, hc⟩, hbit⟩

/-- Draws strokes one after the other and tells of each whether it made a cell dark. -/
def drawStrokes (s : Screen) : List Stroke → Screen × List Bool
  | [] => (s, [])
  | k :: strokes =>
    let drawn := s.drawSprite k.column k.row k.sprite
    let rest := drawn.1.drawStrokes strokes
    (rest.1, drawn.2 :: rest.2)

/-- The cells that the bits of strokes fall on, stroke by stroke. -/
def footprints (s : Screen) (strokes : List Stroke) : List (Nat × Nat) :=
  strokes.flatMap fun k => s.footprint k.column k.row k.sprite

/-- Strokes toggle the cells that their bits fall on, one after the other, and one of them reports a
collision if some toggle made a cell dark. -/
theorem drawStrokes_eq (hs : s.Sized) (strokes : List Stroke) :
    (s.drawStrokes strokes).1 = (s.toggleAll (s.footprints strokes)).1 ∧
      (true ∈ (s.drawStrokes strokes).2 ↔ (s.toggleAll (s.footprints strokes)).2 = true) := by
  induction strokes generalizing s with
  | nil => simp [drawStrokes, footprints, toggleAll]
  | cons k strokes ih =>
    obtain ⟨hsized, hwidth, hheight⟩ := toggleAll_keeps hs (s.footprint k.column k.row k.sprite)
    have hsame : (s.toggleAll (s.footprint k.column k.row k.sprite)).1.footprints strokes =
        s.footprints strokes := by
      unfold footprints
      exact List.flatMap_congr fun k' _ => footprint_congr hwidth hheight k'.column k'.row k'.sprite
    obtain ⟨hscreen, hflag⟩ := ih hsized
    rw [hsame] at hscreen hflag
    rw [drawStrokes, drawSprite, footprints, List.flatMap_cons, toggleAll_append]
    refine ⟨hscreen, ?_⟩
    rw [List.mem_cons, hflag, Bool.or_eq_true, eq_comm]
    rfl

/-- Strokes in another order meet the same cells. -/
theorem footprints_perm {strokes again : List Stroke} (h : strokes.Perm again) :
    (s.footprints strokes).Perm (s.footprints again) :=
  h.flatMap fun _ _ => .rfl

/-- Strokes may be drawn in any order: the screen is the same, and so is whether any of them reports
a collision.  If they are drawn again, in whatever order, the screen is what it was before, and some
stroke of the two passes has reported a collision if a bit of some stroke falls on a cell that held
0 or 1. -/
theorem strokes_reorder_and_cancel {s : Screen} (hs : s.Sized) (hwidth : 0 < s.width)
    (hheight : 0 < s.height) {strokes again : List Stroke} (hperm : strokes.Perm again) :
    (s.drawStrokes again).1 = (s.drawStrokes strokes).1 ∧
      (true ∈ (s.drawStrokes again).2 ↔ true ∈ (s.drawStrokes strokes).2) ∧
      (s.drawStrokes (strokes ++ again)).1 = s ∧
      (true ∈ (s.drawStrokes (strokes ++ again)).2 ↔
        ∃ k ∈ strokes, ∃ r c, r < k.sprite.length ∧ c < 8 ∧
          rowBit (k.sprite[r]?.getD 0) c = true ∧
          (s.get ((k.column + c) % s.width) ((k.row + r) % s.height) = 0 ∨
            s.get ((k.column + c) % s.width) ((k.row + r) % s.height) = 1)) := by
  have hsame := toggleAll_perm hs (footprints_perm (s := s) hperm)
  have htwice : s.toggleAll (s.footprints (strokes ++ again)) =
      s.toggleAll (s.footprints strokes ++ s.footprints strokes) := by
    refine toggleAll_perm hs ?_
    rw [footprints, List.flatMap_append]
    exact (footprints_perm hperm.symm).append_left _
  refine ⟨?_, ?_, ?_, ?_⟩
  · rw [(drawStrokes_eq hs again).1, (drawStrokes_eq hs strokes).1, hsame]
  · rw [(drawStrokes_eq hs again).2, (drawStrokes_eq hs strokes).2, hsame]
  · rw [(drawStrokes_eq hs _).1, htwice, toggleAll_append_self hs]
  · rw [(drawStrokes_eq hs _).2, htwice, toggleAll_append_self_snd_iff hs]
    constructor
    · rintro ⟨x, y, -, hmem, hvalue⟩
      obtain ⟨k, hk, hcell⟩ := List.mem_flatMap.1 hmem
      obtain ⟨r, c, hr, hc, hbit, hplace⟩ := (mem_footprint_iff ..).1 hcell
      obtain ⟨rfl, rfl⟩ := Prod.mk.inj hplace
      exact ⟨k, hk, r, c, hr, hc, hbit, hvalue⟩
    · rintro ⟨k, hk, r, c, hr, hc, hbit, hvalue⟩
      refine ⟨_, _, ⟨Nat.mod_lt _ hwidth, Nat.mod_lt _ hheight⟩, ?_, hvalue⟩
      exact List.mem_flatMap.2 ⟨k, hk, (mem_footprint_iff ..).2 ⟨r, c, hr, hc, hbit, rfl⟩⟩

/-- Two strokes that overlap on a screen of two columns, drawn and then drawn again in the other
order. -/
theorem strokes_reorder_and_cancel_pair :
    ∃ (s : Screen) (strokes again : List Stroke), s = ⟨2, 1, #[0, 2]⟩ ∧
      strokes = [⟨0, 0, [0x80]⟩, ⟨1, 0, [0xC0]⟩] ∧ again = [⟨1, 0, [0xC0]⟩, ⟨0, 0, [0x80]⟩] ∧
      s.Sized ∧ 0 < s.width ∧ 0 < s.height ∧ strokes.Perm again ∧
      (s.drawStrokes (strokes ++ again)).1 = s ∧
      true ∈ (s.drawStrokes (strokes ++ again)).2 := by
  obtain ⟨s, hs⟩ : ∃ s : Screen, s = ⟨2, 1, #[0, 2]⟩ := ⟨_, rfl⟩
  have hsized : s.Sized := by
    rw [hs]
    rfl
  have hwidth : 0 < s.width := by
    rw [hs]
    exact Nat.two_pos
  have hheight : 0 < s.height := by
    rw [hs]
    exact Nat.one_pos
  have hperm : [Stroke.mk 0 0 [0x80], ⟨1, 0, [0xC0]⟩].Perm [⟨1, 0, [0xC0]⟩, ⟨0, 0, [0x80]⟩] :=
    .swap ..
  obtain ⟨-, -, hscreen, hflags⟩ := strokes_reorder_and_cancel hsized hwidth hheight hperm
  refine ⟨s, _, _, hs, rfl, rfl, hsized, hwidth, hheight, hperm, hscreen, hflags.2 ?_⟩
  refine ⟨⟨0, 0, [0x80]⟩, List.mem_cons_self .., 0, 0, by decide, by decide, by decide, .inl ?_⟩
  rw [hs]
  rfl

end ChipEight.Screen
