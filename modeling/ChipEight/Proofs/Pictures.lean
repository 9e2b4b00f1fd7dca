import ChipEight.Console.Display
import ChipEight.Proofs.Redrawing

/-!
# Reading frames back

A screen is written row by row.  A row takes as many cells from those that are left as a line has
characters, so that the character in a column of a line is that of the cell there.  All pictures of
one size are equally long.  What a terminal was sent for a sequence of frames therefore falls apart
into the pictures again, and a picture tells the cells of its screen as long as these hold no values
but 0 and 1.

Main results:

- `eq_of_flatMap_eq`: blocks of one length can be told apart in what they add up to.
- `Screen.pictureLines_eq_rows`: the lines of a picture are the rows of cells, one after the other.
- `Screen.eq_of_pictureLines_flatten_eq`: screens of one size with the same picture are the same.
- `frames_read_back`: the lines of a picture, and the frames that a terminal was sent.
-/

namespace ChipEight

/-! ## Blocks of one length -/

/-- Blocks of one length can be told apart in what they add up to. -/
theorem eq_of_flatMap_eq {α β : Type} {f : α → List β} {P : α → Prop} {n : Nat} (hn : 0 < n)
    (hlength : ∀ a, P a → (f a).length = n) (hinj : ∀ a b, P a → P b → f a = f b → a = b)
    {xs ys : List α} (hxs : ∀ a ∈ xs, P a) (hys : ∀ a ∈ ys, P a)
    (h : xs.flatMap f = ys.flatMap f) : xs = ys := by
  have hne : ∀ {a : α} {rest : List α}, P a → (a :: rest).flatMap f ≠ [] := by
    intro a rest ha hnil
    have hzero := congrArg List.length hnil
    simp [hlength a ha] at hzero
    omega
  induction xs generalizing ys with
  | nil =>
    cases ys with
    | nil => rfl
    | cons b ys => exact absurd h.symm (hne (hys b (by simp)))
  | cons a xs ih =>
    cases ys with
    | nil => exact absurd h (hne (hxs a (by simp)))
    | cons b ys =>
      have ha : P a := hxs a (by simp)
      have hb : P b := hys b (by simp)
      rw [List.flatMap_cons, List.flatMap_cons] at h
      obtain ⟨hhead, htail⟩ := List.append_inj h (by rw [hlength a ha, hlength b hb])
      have hrest : xs = ys :=
        ih (fun c hc => hxs c (by simp [hc])) (fun c hc => hys c (by simp [hc])) htail
      rw [hinj a b ha hb hhead, hrest]

namespace Screen

variable {s t : Screen} {width height : Nat}

/-! ## Rows -/

/-- Cells cut into rows of the given width, of which the last may be shorter; a row has at least one
cell. -/
def rows (width : Nat) (cells : List UInt8) : List (List UInt8) :=
  if cells = [] then [] else cells.take (max width 1) :: rows width (cells.drop (max width 1))
termination_by cells.length
decreasing_by
  have := List.length_pos_of_ne_nil ‹_›
  rw [List.length_drop]
  omega

@[simp]
theorem rows_nil (width : Nat) : rows width [] = [] := by
  simp [rows]

/-- Rows that the cells fill begin at the multiples of their width. -/
theorem rows_eq (hwidth : 0 < width) {cells : List UInt8} (h : cells.length = width * height) :
    rows width cells = (List.range height).map fun y => (cells.drop (y * width)).take width := by
  have hmax : max width 1 = width := by omega
  induction height generalizing cells with
  | zero =>
    have hnil : cells = [] := List.eq_nil_of_length_eq_zero h
    simp [hnil]
  | succ height ih =>
    have hne : cells ≠ [] := by
      rintro rfl
      simp [Nat.mul_succ] at h
      omega
    have hrest : (cells.drop width).length = width * height := by
      rw [List.length_drop, h, Nat.mul_succ]
      omega
    rw [rows, if_neg hne, hmax, ih hrest, List.range_succ_eq_map]
    simp [Nat.succ_mul, Nat.add_comm, Function.comp_def]

/-- The cells from the start of a row on are the values in its columns. -/
theorem row_eq (hs : s.Sized) {y : Nat} (hy : y < s.height) :
    (s.cells.toList.drop (y * s.width)).take s.width =
      (List.range s.width).map fun x => s.get x y := by
  have hfits : y * s.width + s.width ≤ s.cells.size := by
    rw [hs, Nat.mul_comm s.width, ← Nat.succ_mul]
    exact Nat.mul_le_mul_right _ hy
  apply List.ext_getElem
  · simp
    omega
  · intro x hx hx'
    have hx : x < s.width := by simpa using hx'
    have hcontains : s.Contains x y := ⟨hx, hy⟩
    have hindex : y * s.width + x < s.cells.size := by omega
    simp [get, hcontains, index, Nat.add_comm x, hindex]

/-- The lines of a picture are the rows of cells, one after the other. -/
theorem pictureLines_eq_rows (hs : s.Sized) :
    s.pictureLines = (rows s.width s.cells.toList).map fun row => row.map mark ++ ['\n'] := by
  rcases Nat.eq_zero_or_pos s.width with hzero | hwidth
  · have hcells : s.cells.toList = [] := by
      apply List.eq_nil_of_length_eq_zero
      rw [Array.length_toList, hs, hzero, Nat.zero_mul]
    simp [pictureLines, hzero, hcells]
  · have hlength : s.cells.toList.length = s.width * s.height := hs
    rw [pictureLines, if_neg (by omega), rows_eq hwidth hlength, List.map_map]
    apply List.map_congr_left
    intro y hy
    simp [row_eq hs (List.mem_range.1 hy), pictureLine]

/-! ## Lines -/

theorem toList_picture (s : Screen) : s.picture.toList = s.pictureLines.flatten := by
  rw [picture, String.toList_ofList]

theorem length_of_mem_pictureLines {line : List Char} (h : line ∈ s.pictureLines) :
    line.length = s.width + 1 := by
  unfold pictureLines at h
  split at h
  · simp at h
  · obtain ⟨y, -, rfl⟩ := List.mem_map.1 h
    simp [pictureLine]

theorem length_pictureLines (h : 0 < s.width) : s.pictureLines.length = s.height := by
  rw [pictureLines, if_neg (by omega), List.length_map, List.length_range]

/-- All pictures of one size are equally long. -/
theorem length_flatten_pictureLines (h : 0 < s.width) :
    s.pictureLines.flatten.length = s.height * (s.width + 1) := by
  have hlengths : s.pictureLines.map List.length = List.replicate s.height (s.width + 1) := by
    rw [List.eq_replicate_iff, List.length_map]
    refine ⟨length_pictureLines h, ?_⟩
    intro n hn
    obtain ⟨line, hline, rfl⟩ := List.mem_map.1 hn
    exact length_of_mem_pictureLines hline
  rw [List.length_flatten, hlengths, List.sum_replicate_nat]

/-! ## Pictures -/

/-- Of values that are 0 or 1, each has a mark of its own. -/
theorem eq_of_mark_eq {a b : UInt8} (ha : a = 0 ∨ a = 1) (hb : b = 0 ∨ b = 1)
    (h : mark a = mark b) : a = b := by
  rcases ha with rfl | rfl <;> rcases hb with rfl | rfl <;> simp [mark] at h ⊢

/-- Regular screens of one size with the same picture are the same. -/
theorem eq_of_pictureLines_flatten_eq (hs : s.Regular width height) (ht : t.Regular width height)
    (h : s.pictureLines.flatten = t.pictureLines.flatten) : s = t := by
  have hwidth : s.width = t.width := hs.width_eq.trans ht.width_eq.symm
  have hheight : s.height = t.height := hs.height_eq.trans ht.height_eq.symm
  have hlines : s.pictureLines = t.pictureLines := by
    refine eq_of_flatMap_eq (f := id) (P := fun line => line.length = s.width + 1) (Nat.succ_pos _)
      (fun _ hline => hline) (fun _ _ _ _ heq => heq) (fun _ => length_of_mem_pictureLines) ?_
      (by simpa using h)
    intro line hline
    rw [hwidth]
    exact length_of_mem_pictureLines hline
  refine ext_get hs.sized ht.sized hwidth hheight fun x y hc => ?_
  have hzero : t.width ≠ 0 := by have := hc.1; omega
  rw [pictureLines, if_neg (hwidth ▸ hzero), pictureLines, if_neg hzero, hheight,
    List.map_inj_left] at hlines
  have hline : s.pictureLine y = t.pictureLine y := hlines y (List.mem_range.2 hc.2)
  rw [pictureLine, pictureLine, hwidth, List.append_cancel_right_eq, List.map_inj_left] at hline
  exact eq_of_mark_eq (hs.get_eq x y) (ht.get_eq x y) (hline x (List.mem_range.2 hc.1))

end Screen

namespace Console

variable {width height : Nat}

theorem frameText_eq (frame : Screen) : frameText frame = home ++ frame.picture.toList := by
  rw [frameText, frame.toList_picture]

/-- What a frame writes depends in its length on the size of the frame alone. -/
theorem length_frameText {frame : Screen} (h : frame.Regular width height) :
    (frameText frame).length = 3 + if width = 0 then 0 else height * (width + 1) := by
  have hhome : home.length = 3 := rfl
  rw [frameText, List.length_append, hhome, ← h.width_eq, ← h.height_eq]
  split
  · next hzero => simp [Screen.pictureLines, hzero]
  · next hne => rw [Screen.length_flatten_pictureLines (Nat.pos_of_ne_zero hne)]

theorem eq_of_frameText_eq {frame other : Screen} (hframe : frame.Regular width height)
    (hother : other.Regular width height) (h : frameText frame = frameText other) :
    frame = other := by
  rw [frameText, frameText, List.append_cancel_left_eq] at h
  exact Screen.eq_of_pictureLines_flatten_eq hframe hother h

/-- Regular frames of one size can be told from what they write. -/
theorem eq_of_stream_eq {frames others : List Screen}
    (hframes : ∀ s ∈ frames, s.Regular width height)
    (hothers : ∀ s ∈ others, s.Regular width height) (h : stream frames = stream others) :
    frames = others := by
  rw [stream, stream, List.append_cancel_left_eq] at h
  exact eq_of_flatMap_eq (Nat.lt_of_lt_of_le (by decide) (Nat.le_add_right 3 _))
    (fun _ hs => length_frameText hs) (fun _ _ => eq_of_frameText_eq) hframes hothers h

end Console

/-! ## Frames -/

open Screen Console in
/-- The picture of a screen is the marks of its cells, row after row.  If the screen has columns,
there is one line for each row, with one character for each column, which is a hash if the cell
there is not 0 and a dot if it is.  What a terminal is sent for a sequence of frames is the sequence
that wipes it, and for each frame the sequence that moves the cursor to the top left corner and the
picture.  If all cells are 0 or 1, the frames can be told from it, how many there are and what is on
them. -/
theorem frames_read_back :
    (∀ s : Screen, s.Sized →
      s.picture.toList = (rows s.width s.cells.toList).flatMap (fun row => row.map mark ++ ['\n']) ∧
        (0 < s.width → ∃ lines : List (List Char),
          s.picture.toList = lines.flatMap (· ++ ['\n']) ∧ lines.length = s.height ∧
            (∀ line ∈ lines, line.length = s.width) ∧
            ∀ x y, x < s.width → y < s.height → ∃ value marks,
              s.get? x y = .ok value ∧ lines[y]? = some marks ∧
                (marks[x]? = some '#' ↔ value ≠ 0) ∧ (marks[x]? = some '.' ↔ value = 0))) ∧
      (∀ frames : List Screen, stream frames =
        "\x1b[2J".toList ++ frames.flatMap fun s => "\x1b[H".toList ++ s.picture.toList) ∧
      ∀ (width height : Nat) (frames others : List Screen),
        (∀ s ∈ frames, s.Regular width height) → (∀ s ∈ others, s.Regular width height) →
          stream frames = stream others → frames = others := by
  refine ⟨fun s hs => ⟨?_, fun hwidth => ?_⟩, ?_, ?_⟩
  · rw [toList_picture, pictureLines_eq_rows hs, List.flatMap_def]
  · refine ⟨(List.range s.height).map fun y => (List.range s.width).map fun x => mark (s.get x y),
      ?_, ?_, ?_, ?_⟩
    · rw [toList_picture, pictureLines, if_neg (by omega), List.flatMap_map, List.flatMap_def]
      rfl
    · rw [List.length_map, List.length_range]
    · simp
    · intro x y hx hy
      refine ⟨s.get x y, (List.range s.width).map fun x => mark (s.get x y), if_pos ⟨hx, hy⟩, ?_,
        ?_, ?_⟩
      · simp [hy]
      · simp [hx, mark]
      · simp [hx, mark]
  · intro frames
    rw [stream, funext frameText_eq]
    rfl
  · intro width height frames others
    exact eq_of_stream_eq

open Screen Console in
/-- Two frames of two columns, of which the second has its cell put on in one sequence and drawn in
the other. -/
theorem frames_read_back_drawn :
    ∃ put drawn : Screen,
      put = (dark 2 1).put 1 0 1 ∧ drawn = ((dark 2 1).drawSprite 1 0 [0x80]).1 ∧
      (∃ lines : List (List Char),
        put.picture.toList = lines.flatMap (· ++ ['\n']) ∧ lines.length = 1) ∧
      stream [dark 2 1, put] = stream [dark 2 1, drawn] ∧ [dark 2 1, put] = [dark 2 1, drawn] := by
  obtain ⟨put, hput⟩ : ∃ s, s = (dark 2 1).put 1 0 1 := ⟨_, rfl⟩
  obtain ⟨drawn, hdrawn⟩ : ∃ s, s = ((dark 2 1).drawSprite 1 0 [0x80]).1 := ⟨_, rfl⟩
  have hstreams : stream [dark 2 1, put] = stream [dark 2 1, drawn] := by
    rw [hput, hdrawn]
    decide +kernel
  have hregular : put.Regular 2 1 := by
    rw [hput]
    exact (regular_dark 2 1).toggle (1, 0)
  have hregular' : drawn.Regular 2 1 := by
    rw [hdrawn]
    exact (regular_dark 2 1).drawSprite 1 0 [0x80]
  obtain ⟨hpictures, -, hframes⟩ := frames_read_back
  obtain ⟨lines, htext, hlength, -⟩ := (hpictures put hregular.sized).2 (by rw [hput]; decide)
  refine ⟨put, drawn, hput, hdrawn, ⟨lines, htext, ?_⟩, hstreams, hframes 2 1 _ _ ?_ ?_ hstreams⟩
  · rw [hlength, hput]
    rfl
  · simp [regular_dark, hregular]
  · simp [regular_dark, hregular']

end ChipEight
