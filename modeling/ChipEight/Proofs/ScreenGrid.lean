import ChipEight.Proofs.Operations
import ChipEight.Proofs.Redrawing

/-!
# The screen as a function of its cells

Whatever a screen has been asked for, it stands for a function from the columns and rows of its grid
to values, and is told apart from other screens of its size by nothing else.  A sprite is painted
pixel by pixel, and what has been painted when something goes wrong stays.  Where coordinates and
cells can be counted in 64 bits, the only thing that goes wrong is that coordinates are wrapped
around a grid without cells, which is before the first pixel.

Main results:

- `standsFor_perform`: an operation on a screen is that on the function it stands for.
- `paintRows_eq`, `paintRows_of_empty`: painting a sprite is drawing it, or changes nothing.
- `screen_refines_grid`: any sequence of operations on a screen against the function.
-/

namespace ChipEight

open Operations

namespace Screen

/-! ## Operations -/

/-- An operation on a screen. -/
inductive Operation where
  | put (x y : Nat) (value : UInt8)
  | get (x y : Nat)
  | clear
  | draw (x y : Nat) (sprite : List UInt8)
deriving DecidableEq, Repr

/-- What is answered to an operation that is not refused. -/
inductive Reply where
  | done
  | value (value : UInt8)
  /-- Whether a cell was made dark. -/
  | erased (erased : Bool)
deriving DecidableEq, Repr

/-- What an operation answers: why it is refused, or what it was asked for. -/
abbrev Answer := Except Refusal Reply

/-- What a screen is after an operation, and what it answers. -/
def perform (s : Screen) : Operation → Screen × Answer
  | .put x y value => attempt s ((s.put? x y value).map fun t => (t.1, .erased t.2))
  | .get x y => (s, (s.get? x y).map .value)
  | .clear => (s.clear, .ok .done)
  | .draw x y sprite => attempt s ((s.drawSprite? x y sprite).map fun t => (t.1, .erased t.2))

variable {s : Screen}

/-- What only a cell of the grid gives an answer for is refused outside the grid. -/
theorem ite_contains_eq_error_iff {α : Type} {answer : α} {x y : Nat} {refusal : Refusal} :
    (if s.Contains x y then Except.ok answer else .error (.outside x y s.width s.height)) =
        .error refusal ↔
      (s.width ≤ x ∨ s.height ≤ y) ∧ refusal = .outside x y s.width s.height := by
  split
  · next h =>
    refine ⟨nofun, fun hout => ?_⟩
    omega
  · next h =>
    rw [Except.error.injEq, eq_comm]
    refine ⟨fun heq => ⟨?_, heq⟩, fun hout => hout.2⟩
    omega

theorem get?_eq_error_iff {x y : Nat} {refusal : Refusal} :
    s.get? x y = .error refusal ↔
      (s.width ≤ x ∨ s.height ≤ y) ∧ refusal = .outside x y s.width s.height :=
  ite_contains_eq_error_iff

theorem put?_eq_error_iff {x y : Nat} {value : UInt8} {refusal : Refusal} :
    s.put? x y value = .error refusal ↔
      (s.width ≤ x ∨ s.height ≤ y) ∧ refusal = .outside x y s.width s.height :=
  ite_contains_eq_error_iff

theorem drawSprite?_eq_error_iff {x y : Nat} {sprite : List UInt8} {refusal : Refusal} :
    s.drawSprite? x y sprite = .error refusal ↔
      (sprite ≠ [] ∧ (s.width = 0 ∨ s.height = 0)) ∧ refusal = .nothingToWrap := by
  unfold drawSprite?
  split
  · next h =>
    rw [Except.error.injEq, eq_comm]
    exact ⟨fun heq => ⟨h, heq⟩, fun hout => hout.2⟩
  · next h => exact ⟨nofun, fun hout => absurd hout.1 h⟩

/-- What is refused changes nothing. -/
theorem perform_of_error {op : Operation} {refusal : Refusal}
    (h : (s.perform op).2 = .error refusal) : (s.perform op).1 = s := by
  cases op with
  | put x y value => exact attempt_fst_of_error h
  | get x y => rfl
  | clear => cases h
  | draw x y sprite => exact attempt_fst_of_error h

/-- A value that was put into a cell is there, the other cells are kept, and the report is about the
value before. -/
theorem of_put?_eq_ok (hs : s.Sized) {x y : Nat} {value : UInt8} {t : Screen} {erased : Bool}
    (h : s.put? x y value = .ok (t, erased)) :
    (∀ u v, (u, v) ≠ (x, y) → t.get u v = s.get u v) ∧ t.get? x y = .ok value ∧
      (erased = true ↔ s.get x y ≠ 0 ∧ value = 0) := by
  unfold put? at h
  split at h
  · next hc =>
    cases h
    refine ⟨?_, ?_, ?_⟩
    · intro u v hne
      rw [get_put hs, if_neg]
      rintro ⟨-, rfl, rfl⟩
      exact hne rfl
    · have hkept : (s.put x y value).Contains x y := by simpa [Contains] using hc
      rw [get?, if_pos hkept, get_put hs, if_pos ⟨hc, rfl, rfl⟩]
    · exact decide_eq_true_iff
  · cases h

end Screen

/-! ## The function -/

/-- A value for each column of each row. -/
abbrev Grid (width height : Nat) := Fin width → Fin height → UInt8

namespace Grid

open Screen

instance (value : UInt8) (toggles : Nat) : Decidable (Erased value toggles) :=
  inferInstanceAs (Decidable (_ ∨ _))

variable {width height : Nat}

/-- What the grid is after an operation, and what it answers. -/
def perform (f : Grid width height) : Operation → Grid width height × Answer
  | .put x y value =>
    if h : x < width ∧ y < height then
      (fun u v => if u = x ∧ v = y then value else f u v,
        .ok (.erased (f ⟨x, h.1⟩ ⟨y, h.2⟩ ≠ 0 ∧ value = 0)))
    else (f, .error (.outside x y width height))
  | .get x y =>
    (f, if h : x < width ∧ y < height then .ok (.value (f ⟨x, h.1⟩ ⟨y, h.2⟩))
      else .error (.outside x y width height))
  | .clear => (fun _ _ => 0, .ok .done)
  | .draw x y sprite =>
    if sprite ≠ [] ∧ (width = 0 ∨ height = 0) then (f, .error .nothingToWrap)
    else
      (fun u v => f u v ^^^ UInt8.ofNat (hits width height x y sprite (u, v) % 2),
        .ok (.erased (∃ (u : Fin width) (v : Fin height),
          Erased (f u v) (hits width height x y sprite (u, v)))))

end Grid

namespace Screen

/-- A screen has the size of a grid and holds a given value in each cell. -/
structure StandsFor {width height : Nat} (s : Screen) (f : Grid width height) : Prop where
  width_eq : s.width = width
  height_eq : s.height = height
  size_eq : s.cells.size = width * height
  get_eq : ∀ (u : Fin width) (v : Fin height), s.get u v = f u v

variable {s : Screen} {width height : Nat} {f : Grid width height}

theorem StandsFor.sized (h : s.StandsFor f) : s.Sized := by
  rw [Sized, h.width_eq, h.height_eq]
  exact h.size_eq

theorem StandsFor.contains_iff (h : s.StandsFor f) {x y : Nat} :
    s.Contains x y ↔ x < width ∧ y < height := by
  rw [Contains, h.width_eq, h.height_eq]

theorem standsFor_dark (width height : Nat) :
    (dark width height).StandsFor (fun _ _ => 0 : Grid width height) where
  width_eq := rfl
  height_eq := rfl
  size_eq := sized_dark width height
  get_eq u v := get_dark width height u v

theorem StandsFor.put (h : s.StandsFor f) {x y : Nat} (hx : x < width) (hy : y < height)
    (value : UInt8) :
    (s.put x y value).StandsFor
      (fun u v => if u = x ∧ v = y then value else f u v : Grid width height) where
  width_eq := (width_put s x y value).trans h.width_eq
  height_eq := (height_put s x y value).trans h.height_eq
  size_eq := by
    rw [sized_put h.sized, width_put, height_put, h.width_eq, h.height_eq]
  get_eq u v := by
    rw [get_put h.sized, h.get_eq]
    exact if_congr (and_iff_right (h.contains_iff.2 ⟨hx, hy⟩)) rfl rfl

theorem StandsFor.drawSprite (h : s.StandsFor f) (x y : Nat) (sprite : List UInt8) :
    (s.drawSprite x y sprite).1.StandsFor
      (fun u v => f u v ^^^ UInt8.ofNat (hits width height x y sprite (u, v) % 2) :
        Grid width height) := by
  obtain ⟨hsized, hwidth, hheight⟩ := toggleAll_keeps h.sized (s.footprint x y sprite)
  refine ⟨hwidth.trans h.width_eq, hheight.trans h.height_eq, ?_, fun u v => ?_⟩
  · rw [← h.width_eq, ← h.height_eq, ← hwidth, ← hheight]
    exact hsized
  · rw [get_drawSprite_eq_xor h.sized (h.contains_iff.2 ⟨u.isLt, v.isLt⟩), h.width_eq, h.height_eq,
      h.get_eq]

/-- Some cell of the grid becomes dark in the course of a drawing, by the function. -/
theorem StandsFor.erased_iff (h : s.StandsFor f) (x y : Nat) (sprite : List UInt8) :
    (s.drawSprite x y sprite).2 = true ↔
      ∃ (u : Fin width) (v : Fin height), Erased (f u v) (hits width height x y sprite (u, v)) := by
  rw [drawSprite_snd_iff h.sized, h.width_eq, h.height_eq]
  constructor
  · rintro ⟨u, v, hc, herased⟩
    obtain ⟨hu, hv⟩ := h.contains_iff.1 hc
    refine ⟨⟨u, hu⟩, ⟨v, hv⟩, ?_⟩
    rwa [← h.get_eq]
  · rintro ⟨u, v, herased⟩
    refine ⟨u, v, h.contains_iff.2 ⟨u.isLt, v.isLt⟩, ?_⟩
    rwa [h.get_eq]

/-- An operation on a screen is that on the function it stands for. -/
theorem standsFor_perform (h : s.StandsFor f) (op : Operation) :
    (s.perform op).1.StandsFor (f.perform op).1 ∧ (s.perform op).2 = (f.perform op).2 := by
  cases op with
  | put x y value =>
    simp only [perform, put?, Grid.perform, Contains, h.width_eq, h.height_eq]
    by_cases hc : x < width ∧ y < height
    · rw [if_pos hc, dif_pos hc]
      refine ⟨h.put hc.1 hc.2 value, ?_⟩
      rw [← h.get_eq]
      rfl
    · rw [if_neg hc, dif_neg hc]
      exact ⟨h, rfl⟩
  | get x y =>
    refine ⟨h, ?_⟩
    simp only [perform, get?, Grid.perform, Contains, h.width_eq, h.height_eq]
    by_cases hc : x < width ∧ y < height
    · rw [if_pos hc, dif_pos hc, ← h.get_eq]
      rfl
    · rw [if_neg hc, dif_neg hc]
      rfl
  | clear =>
    simp only [perform, clear, h.width_eq, h.height_eq]
    exact ⟨standsFor_dark width height, rfl⟩
  | draw x y sprite =>
    simp only [perform, drawSprite?, Grid.perform, h.width_eq, h.height_eq]
    by_cases hempty : sprite ≠ [] ∧ (width = 0 ∨ height = 0)
    · rw [if_pos hempty, if_pos hempty]
      exact ⟨h, rfl⟩
    · rw [if_neg hempty, if_neg hempty]
      refine ⟨h.drawSprite x y sprite, congrArg (fun erased => Except.ok (Reply.erased erased)) ?_⟩
      rw [Bool.eq_iff_iff, h.erased_iff, decide_eq_true_iff]

/-! ## Painting -/

/-- What has become of a screen in the course of a painting, and whether a cell was made dark or
what ended it. -/
abbrev Painting := Screen × Except Hazard Bool

/-- Goes on painting, unless a hazard has ended it. -/
def Painting.andThen (next : Screen → Painting) : Painting → Painting
  | (t, .ok erased) => ((next t).1, (next t).2.map (erased || ·))
  | (t, .error hazard) => (t, .error hazard)

/-- Paints a row of a sprite in the given columns, pixel by pixel.  What was painted before a hazard
stays. -/
def paintColumns (s : Screen) (x y : Nat) (row : UInt8) : List Nat → Painting
  | [] => (s, .ok false)
  | c :: columns =>
    -- A pixel is written last of all that happens to it, so that none is painted that meets a
    -- hazard.
    Painting.andThen (fun t => t.paintColumns x y row columns)
      (attempt s (s.guardedColumns x y row [c]))

/-- Paints a sprite row by row, where row `y` is the place of its first row. -/
def paintRows (s : Screen) (x y : Nat) : List UInt8 → Painting
  | [] => (s, .ok false)
  | row :: rows =>
    Painting.andThen (fun t => t.paintRows x (y + 1) rows)
      (s.paintColumns x y row (List.range spriteWidth))

/-- The pixels of a row are written one after the other. -/
theorem guardedColumns_cons (s : Screen) (x y : Nat) (row : UInt8) (c : Nat) (columns : List Nat) :
    s.guardedColumns x y row (c :: columns) = do
      let (one, erased) ← s.guardedColumns x y row [c]
      let (all, more) ← one.guardedColumns x y row columns
      return (all, erased || more) := by
  simp only [guardedColumns, bind_assoc, pure_bind, Guarded.ok_bind, Bool.or_false]

/-- Painting columns that no hazard ends is writing them. -/
theorem paintColumns_of_guarded {t : Screen} {erased : Bool} {x y : Nat} {row : UInt8}
    {columns : List Nat} (h : s.guardedColumns x y row columns = .ok (t, erased)) :
    s.paintColumns x y row columns = (t, .ok erased) := by
  induction columns generalizing s erased with
  | nil =>
    cases h
    rfl
  | cons c columns ih =>
    rw [guardedColumns_cons] at h
    rw [paintColumns]
    cases hone : s.guardedColumns x y row [c] with
    | error hazard => simp [hone, Guarded.error_bind] at h
    | ok one =>
      cases hrest : one.1.guardedColumns x y row columns with
      | error hazard => simp [hone, hrest, Guarded.ok_bind, Guarded.error_bind] at h
      | ok rest =>
        simp only [hone, hrest, Guarded.ok_bind, Guarded.pure_eq] at h
        cases h
        simp only [attempt, Painting.andThen, ih hrest]
        rfl

/-- Painting rows that no hazard ends is writing them. -/
theorem paintRows_of_guarded {t : Screen} {erased : Bool} {x y : Nat} {sprite : List UInt8}
    (h : s.guardedRows x y sprite = .ok (t, erased)) :
    s.paintRows x y sprite = (t, .ok erased) := by
  induction sprite generalizing s y erased with
  | nil =>
    cases h
    rfl
  | cons row rows ih =>
    rw [guardedRows] at h
    rw [paintRows]
    cases hone : s.guardedColumns x y row (List.range spriteWidth) with
    | error hazard => simp [hone, Guarded.error_bind] at h
    | ok one =>
      cases hrest : one.1.guardedRows x (y + 1) rows with
      | error hazard => simp [hone, hrest, Guarded.ok_bind, Guarded.error_bind] at h
      | ok rest =>
        simp only [hone, hrest, Guarded.ok_bind, Guarded.pure_eq] at h
        cases h
        simp only [paintColumns_of_guarded hone, Painting.andThen, ih hrest]
        rfl

/-- Coordinates of a pixel cannot be wrapped around a grid without cells. -/
theorem guardedColumns_of_empty (hempty : s.width = 0 ∨ s.height = 0) {x y c : Nat}
    (hx : x + c < Guarded.countLimit) (hy : y < Guarded.countLimit) (row : UInt8)
    (columns : List Nat) :
    s.guardedColumns x y row (c :: columns) = .error .divisor := by
  rw [guardedColumns, Guarded.below_of_lt hx, Guarded.below_of_lt hy]
  rcases Nat.eq_zero_or_pos s.width with hwidth | hwidth
  · simp [Guarded.remainder, hwidth]
  · have hheight : s.height = 0 := hempty.resolve_left (Nat.ne_of_gt hwidth)
    rw [Guarded.ok_bind, Guarded.remainder_of_pos hwidth]
    simp [Guarded.remainder, hheight]

/-- On a grid without cells, the painting of a sprite ends before its first pixel. -/
theorem paintRows_of_empty (hempty : s.width = 0 ∨ s.height = 0) {x y : Nat} {sprite : List UInt8}
    (hsprite : sprite ≠ []) (hx : x < Guarded.countLimit) (hy : y < Guarded.countLimit) :
    s.paintRows x y sprite = (s, .error .divisor) := by
  cases sprite with
  | nil => exact absurd rfl hsprite
  | cons row rows =>
    have hcolumns : List.range spriteWidth = 0 :: [1, 2, 3, 4, 5, 6, 7] := rfl
    rw [paintRows, hcolumns, paintColumns, guardedColumns_of_empty hempty hx hy]
    rfl

/-- Painting a sprite is drawing it, unless the grid has no cells, and then it changes nothing. -/
theorem paintRows_eq (hs : s.Sized) (hsize : s.width * s.height < Guarded.countLimit) {x y : Nat}
    {sprite : List UInt8} (hx : x + 7 < Guarded.countLimit)
    (hy : y + sprite.length < Guarded.countLimit) :
    s.paintRows x y sprite =
      if sprite ≠ [] ∧ (s.width = 0 ∨ s.height = 0) then (s, .error .divisor)
      else ((s.drawSprite x y sprite).1, .ok (s.drawSprite x y sprite).2) := by
  by_cases hempty : s.width = 0 ∨ s.height = 0
  · cases sprite with
    | nil => rfl
    | cons row rows =>
      have hsprite : row :: rows ≠ [] := List.cons_ne_nil row rows
      rw [if_pos ⟨hsprite, hempty⟩]
      exact paintRows_of_empty hempty hsprite (by omega) (by omega)
  · rw [if_neg fun h => hempty h.2]
    exact paintRows_of_guarded
      (guardedRows_eq hs rfl rfl hsize (by omega) (by omega) hx (Nat.le_of_lt hy))

/-! ## Sequences of operations -/

/-- A sequence of operations on a screen is that on the function it stands for, and all answers are
the same. -/
theorem standsFor_performAll (h : s.StandsFor f) (ops : List Operation) :
    (performAll perform s ops).1.StandsFor (performAll Grid.perform f ops).1 ∧
      (performAll perform s ops).2 = (performAll Grid.perform f ops).2 := by
  have hstep : ∀ (t : Screen) (g : Grid width height) (op : Operation), True → t.StandsFor g →
      (t.perform op).1.StandsFor (g.perform op).1 ∧ (t.perform op).2 = (g.perform op).2 :=
    fun t g op _ h => standsFor_perform h op
  exact performAll_related hstep h fun _ _ => trivial

end Screen

open Screen in
/-- After any sequence of operations on a dark screen, the screen has its size and stands for the
function that the same operations have made of darkness, and all answers were those of the function.
Each cell of the grid has a position of its own; outside the grid nothing is read or put.  A sprite
is refused if it has rows and the grid has no cells, and this is found out before anything is
painted.  What is refused changes nothing.  A value that is put into a cell is there, the other
cells are kept, and it is reported if that made the cell dark.  Clearing makes every cell dark.
There is no other screen of the same size with the same cells. -/
theorem screen_refines_grid {width height : Nat} (hsize : width * height < Guarded.countLimit)
    (ops : List Operation) :
    let s := (performAll perform (dark width height) ops).1
    let f := (performAll Grid.perform (fun _ _ => 0 : Grid width height) ops).1
    s.StandsFor f ∧
      (performAll perform (dark width height) ops).2 =
        (performAll Grid.perform (fun _ _ => 0 : Grid width height) ops).2 ∧
      (∀ x y, s.guardedIndex x y =
        if x < width ∧ y < height then .ok (x + y * width) else .error .cell) ∧
      (∀ x y refusal, s.get? x y = .error refusal ↔
        (width ≤ x ∨ height ≤ y) ∧ refusal = .outside x y width height) ∧
      (∀ x y value refusal, s.put? x y value = .error refusal ↔
        (width ≤ x ∨ height ≤ y) ∧ refusal = .outside x y width height) ∧
      (∀ x y sprite refusal, s.drawSprite? x y sprite = .error refusal ↔
        (sprite ≠ [] ∧ (width = 0 ∨ height = 0)) ∧ refusal = .nothingToWrap) ∧
      (∀ x y sprite, x + 7 < Guarded.countLimit → y + sprite.length < Guarded.countLimit →
        s.paintRows x y sprite =
          if sprite ≠ [] ∧ (width = 0 ∨ height = 0) then (s, .error .divisor)
          else ((s.drawSprite x y sprite).1, .ok (s.drawSprite x y sprite).2)) ∧
      (∀ op refusal, (s.perform op).2 = .error refusal → (s.perform op).1 = s) ∧
      (∀ x y value t erased, s.put? x y value = .ok (t, erased) →
        (∀ u v, (u, v) ≠ (x, y) → t.get u v = s.get u v) ∧ t.get? x y = .ok value ∧
          (erased = true ↔ s.get x y ≠ 0 ∧ value = 0)) ∧
      (s.clear.width = width ∧ s.clear.height = height ∧ ∀ x y, s.clear.get x y = 0) ∧
      ∀ t : Screen, t.Sized → t.width = width → t.height = height →
        (s = t ↔ ∀ x y, x < width → y < height → s.get x y = t.get x y) := by
  intro s f
  obtain ⟨h, hanswers⟩ := standsFor_performAll (standsFor_dark width height) ops
  have hs : s.Sized := h.sized
  have hwidth : s.width = width := h.width_eq
  have hheight : s.height = height := h.height_eq
  refine ⟨h, hanswers, ?_⟩
  -- All else is about one screen of the given size, not about the operations that led to it.
  clear h hanswers
  clear_value s f
  subst hwidth hheight
  refine ⟨guardedIndex_eq hsize, fun _ _ _ => get?_eq_error_iff, fun _ _ _ _ => put?_eq_error_iff,
    fun _ _ _ _ => drawSprite?_eq_error_iff, fun x y sprite hx hy => paintRows_eq hs hsize hx hy,
    fun _ _ => perform_of_error, fun x y value t erased => of_put?_eq_ok hs,
    ⟨rfl, rfl, get_dark _ _⟩, ?_⟩
  -- Screens are compared by their size and cells, whatever operations have made them.
  intro t ht hw hh
  constructor
  · rintro rfl x y - -
    rfl
  · intro hget
    refine ext_get hs ht hw.symm hh.symm fun x y hc => ?_
    rw [Contains, hw, hh] at hc
    exact hget x y hc.1 hc.2

open Screen in
/-- On two columns and two rows, a sprite that is wrapped around the right edge, and a value that is
put behind that edge and is not found in the next row.  On a grid without columns, a sprite that is
not painted. -/
theorem screen_refines_grid_edge :
    ∃ ops : List Operation, ops = [.put 1 0 5, .draw 1 0 [0xC0], .put 2 0 1, .get 1 0] ∧
      2 * 2 < Guarded.countLimit ∧
      (performAll perform (dark 2 2) ops).2 =
        [.ok (.erased false), .ok (.erased false), .error (.outside 2 0 2 2), .ok (.value 4)] ∧
      (performAll perform (dark 2 2) ops).1.get 0 0 = 1 ∧
      (performAll perform (dark 2 2) ops).1.get 0 1 = 0 ∧
      (dark 0 2).paintRows 1 1 [0xFF] = (dark 0 2, .error .divisor) := by
  obtain ⟨ops, hops⟩ : ∃ ops : List Operation,
    ops = [.put 1 0 5, .draw 1 0 [0xC0], .put 2 0 1, .get 1 0] := ⟨_, rfl⟩
  have hsize : 2 * 2 < Guarded.countLimit := by decide
  obtain ⟨h, hanswers, -⟩ := screen_refines_grid hsize ops
  have hempty : 0 * 2 < Guarded.countLimit := by decide
  obtain ⟨-, -, -, -, -, -, hpaint, -⟩ := screen_refines_grid hempty []
  refine ⟨ops, hops, hsize, ?_, (h.get_eq 0 0).trans ?_, (h.get_eq 0 1).trans ?_, ?_⟩
  · rw [hanswers, hops]
    decide +kernel
  · rw [hops]
    decide +kernel
  · rw [hops]
    decide +kernel
  · exact hpaint 1 1 [0xFF] (by decide) (by decide)

end ChipEight
