import ChipEight.Proofs.Alike
import ChipEight.Proofs.Bounds

/-!
# What is on the screen

The screen is what was drawn since it was last cleared.  Each drawing is a stroke: a place and the
bytes that memory held when the sprite was drawn.  A cell is lit if an odd number of bits of these
strokes fell on it.  A stroke counts whether or not the display took the frame with it.

What the display is handed is the screen right after a stroke, one frame for each stroke.  A journal
behind which the devices do their work writes that down without changing what they answer.

Main results:

- `Machine.screen_act`: what an action does to the screen.
- `Painted.after`: over a course of actions the screen stays the composition of the strokes.
- `Machine.after_journal`: over a course of actions the frames in the journal are the screens after
  strokes.
- `screen_after_build`: both, and that nothing but strokes and clears changes the screen.
-/

namespace ChipEight

variable {δ : Type}

/-! ## Strokes -/

/-- A sprite and the place at which it is drawn. -/
structure Stroke where
  /-- The column of the leftmost pixels, before it is wrapped around. -/
  column : Nat
  /-- The row of the topmost pixels, before it is wrapped around. -/
  row : Nat
  /-- The bytes of the sprite. -/
  sprite : List UInt8
deriving DecidableEq, Repr

namespace Stroke

/-- The screen after a stroke. -/
def on (k : Stroke) (s : Screen) : Screen := (s.drawSprite k.column k.row k.sprite).1

/-- The number of set bits of strokes that fall on a cell of a screen of the given size. -/
def hitsOf (width height : Nat) (strokes : List Stroke) (cell : Nat × Nat) : Nat :=
  (strokes.map fun k => Screen.hits width height k.column k.row k.sprite cell).sum

theorem hitsOf_append_singleton (width height : Nat) (strokes : List Stroke) (k : Stroke)
    (cell : Nat × Nat) :
    hitsOf width height (strokes ++ [k]) cell =
      hitsOf width height strokes cell +
        Screen.hits width height k.column k.row k.sprite cell := by
  simp [hitsOf]

end Stroke

/-- The stroke of an instruction, if it draws a sprite that lies in memory.  To draw no rows at
address 0 is no stroke: no bit would fall anywhere, and no frame is handed over. -/
def Machine.strokeOf? (m : Machine) : Instruction → Option Stroke
  | .draw x y rows =>
    if Memory.Fits m.registers.index.toNat rows.toNat then
      some {
        column := (m.registers.get x).toNat
        row := (m.registers.get y).toNat
        sprite := m.memory.bytesAt m.registers.index.toNat rows.toNat }
    else none
  | _ => none

namespace Moment

/-- The stroke that is drawn at a moment, if one is. -/
def stroke? (t : Moment δ) : Option Stroke :=
  match t.action with
  | .step => t.machine.upcoming?.bind t.machine.strokeOf?
  | _ => none

/-- The screen is cleared at a moment, by an instruction or because a program is loaded. -/
def wipes (t : Moment δ) : Bool :=
  match t.action with
  | .load program => program.length ≤ programCapacity
  | .step => t.machine.upcoming? = some .clear
  | _ => false

/-- The strokes since the last clear, given those before a moment. -/
def strokesFrom (strokes : List Stroke) (t : Moment δ) : List Stroke :=
  if t.wipes then [] else strokes ++ t.stroke?.toList

/-- The strokes of a history since the last clear, oldest first. -/
def strokes (history : List (Moment δ)) : List Stroke := history.foldl strokesFrom []

end Moment

/-! ## The screen after an action -/

namespace Machine

/-- What an instruction does to the screen. -/
theorem screenAfter_eq (m : Machine) (i : Instruction) :
    m.screenAfter i =
      if i = .clear then m.screen.clear
      else
        match m.strokeOf? i with
        | some k => k.on m.screen
        | none => m.screen := by
  cases i with
  | draw x y rows =>
    rw [if_neg nofun]
    by_cases h : Memory.Fits m.registers.index.toNat rows.toNat
    · simp only [screenAfter, strokeOf?, if_pos h]
      rfl
    · simp only [screenAfter, strokeOf?, if_neg h]
  | _ => rfl

variable [Devices δ]

/-- What an action does to the screen. -/
theorem screen_act (m : Machine) (d : δ) (action : Action) :
    (m.act d action).machine.screen =
      if (Moment.mk m d action).wipes then m.screen.clear
      else
        match (Moment.mk m d action).stroke? with
        | some k => k.on m.screen
        | none => m.screen := by
  cases action with
  | load program =>
    by_cases hle : program.length ≤ programCapacity
    · rw [machine_act_load_of_le m d hle]
      simp only [Moment.wipes, hle]
      rfl
    · rw [act_load_of_lt m d (Nat.not_le.1 hle)]
      simp only [Moment.wipes, hle]
      rfl
  | step =>
    show (m.step d).machine.screen = _
    cases hi : m.upcoming? with
    | none =>
      rw [step_of_upcoming_eq_none hi]
      simp only [Moment.wipes, Moment.stroke?, hi]
      rfl
    | some i =>
      rw [machine_step_of_upcoming hi, machine_execute]
      show m.advanced.screenAfter i = _
      rw [screenAfter_eq]
      simp only [Moment.wipes, Moment.stroke?, hi, Option.some.injEq, decide_eq_true_eq]
      rfl
  | tickDelay => rfl
  | tickSound => rfl

end Machine

/-! ## Painted screens -/

/-- The screen is the composition of strokes: it is regular, and a cell is lit if an odd number of
their bits fell on it. -/
structure Painted (width height : Nat) (strokes : List Stroke) (s : Screen) : Prop where
  /-- The screen has the given size, and its cells are 0 or 1. -/
  regular : s.Regular width height
  /-- The cells that are lit. -/
  get_eq_one_iff : ∀ x y, x < width → y < height →
    (s.get x y = 1 ↔ Odd (Stroke.hitsOf width height strokes (x, y)))

namespace Painted

variable {width height : Nat} {strokes : List Stroke} {s : Screen}

theorem dark (width height : Nat) : Painted width height [] (Screen.dark width height) where
  regular := Screen.regular_dark width height
  get_eq_one_iff := by
    intro x y _ _
    rw [Screen.get_dark]
    have hnone : ¬ Odd (Stroke.hitsOf width height [] (x, y)) := Nat.not_odd_zero
    exact ⟨nofun, fun hodd => absurd hodd hnone⟩

theorem clear (h : Painted width height strokes s) : Painted width height [] s.clear := by
  unfold Screen.clear
  rw [h.regular.width_eq, h.regular.height_eq]
  exact dark width height

/-- A further stroke on the screen is a further stroke of the composition. -/
theorem on (h : Painted width height strokes s) (k : Stroke) :
    Painted width height (strokes ++ [k]) (k.on s) where
  regular := h.regular.drawSprite k.column k.row k.sprite
  get_eq_one_iff := by
    intro x y hx hy
    have hcell : s.Contains x y := by
      rw [Screen.Contains, h.regular.width_eq, h.regular.height_eq]
      exact ⟨hx, hy⟩
    have hbefore := h.get_eq_one_iff x y hx hy
    rw [Stroke.hitsOf_append_singleton, Nat.odd_add, ← hbefore, Stroke.on,
      Screen.get_drawSprite h.regular.sized hcell, h.regular.width_eq, h.regular.height_eq,
      ← Nat.not_odd_iff_even]
    -- An odd number of further bits flips the cell and the parity, an even number keeps both.
    by_cases hodd : Odd (Screen.hits width height k.column k.row k.sprite (x, y))
    · rw [if_pos hodd]
      rcases h.regular.get_eq x y with h0 | h1
      · simp [h0, hodd]
      · simp [h1, hodd]
    · rw [if_neg hodd]
      exact ⟨fun h1 => iff_of_true h1 hodd, fun hiff => hiff.2 hodd⟩

variable [Devices δ] {m : Machine}

/-- An action that clears the screen begins a new composition, and any other adds its stroke if it
has one. -/
theorem act (h : Painted width height strokes m.screen) (d : δ) (action : Action) :
    Painted width height (Moment.strokesFrom strokes ⟨m, d, action⟩)
      (m.act d action).machine.screen := by
  rw [Machine.screen_act]
  unfold Moment.strokesFrom
  by_cases hwipes : (Moment.mk m d action).wipes = true
  · rw [if_pos hwipes, if_pos hwipes]
    exact h.clear
  · rw [if_neg hwipes, if_neg hwipes]
    cases (Moment.mk m d action).stroke? with
    | none =>
      rw [Option.toList_none, List.append_nil]
      exact h
    | some k => exact h.on k

/-- Over a course of actions the screen stays the composition of the strokes since the last
clear. -/
theorem after (h : Painted width height strokes m.screen) (d : δ) (actions : List Action) :
    Painted width height ((m.history d actions).foldl Moment.strokesFrom strokes)
      (m.after d actions).1.screen := by
  induction actions generalizing m d strokes with
  | nil => exact h
  | cons action actions ih => exact ih (h.act d action) _

end Painted

/-! ## Frames -/

/-- Devices together with a list of the frames that they were handed, each with whether it was
taken. -/
structure Journal (δ : Type) where
  /-- The devices that do the work. -/
  devices : δ
  /-- The frames that were handed over, oldest first. -/
  frames : List (Screen × Bool) := []

instance [Devices δ] : Devices (Journal δ) where
  draw frame j :=
    ((Devices.draw frame j.devices).1,
      { devices := (Devices.draw frame j.devices).2
        frames := j.frames ++ [(frame, (Devices.draw frame j.devices).1.isOk)] })
  awaitKey j :=
    ((Devices.awaitKey j.devices).1, { j with devices := (Devices.awaitKey j.devices).2 })
  pollKey j := ((Devices.pollKey j.devices).1, { j with devices := (Devices.pollKey j.devices).2 })

/-- The outcome with further frames in a journal. -/
def Outcome.noting (o : Outcome δ) (frames : List (Screen × Bool)) : Outcome (Journal δ) :=
  { machine := o.machine, devices := ⟨o.devices, frames⟩, result := o.result, events := o.events }

/-- The frame that is handed over at a moment, and whether the display takes it: the screen right
after a stroke, and whether the step succeeds. -/
def Moment.frame? [Devices δ] (t : Moment δ) : Option (Screen × Bool) :=
  t.stroke?.map fun _ => (t.outcome.machine.screen, t.outcome.result.isOk)

theorem Outcome.eq_noting {o : Outcome (Journal δ)} {p : Outcome δ} {frames : List (Screen × Bool)}
    (h : o.Alike (fun k e => k = ⟨e, frames⟩) p) : o = p.noting frames := by
  rcases o with ⟨machine, devices, result, events⟩
  obtain ⟨rfl, rfl, rfl, rfl⟩ := h
  rfl

namespace Machine

variable [Devices δ]

/-- A journal notes the frame of a drawing and changes nothing else about it. -/
theorem draw_journal (m : Machine) (j : Journal δ) (x y rows : UInt8) :
    m.draw j x y rows =
      (m.draw j.devices x y rows).noting (j.frames ++ ((m.strokeOf? (.draw x y rows)).map fun _ =>
        ((m.draw j.devices x y rows).machine.screen,
          (m.draw j.devices x y rows).result.isOk)).toList) := by
  by_cases h : Memory.Fits m.registers.index.toNat rows.toNat
  · have hdraw : Devices.draw (m.drawing x y rows).1 j =
        ((Devices.draw (m.drawing x y rows).1 j.devices).1,
          { devices := (Devices.draw (m.drawing x y rows).1 j.devices).2
            frames := j.frames ++ [((m.drawing x y rows).1,
              (Devices.draw (m.drawing x y rows).1 j.devices).1.isOk)] }) := rfl
    simp only [draw_eq, strokeOf?, if_pos h]
    rw [hdraw]
    rcases Devices.draw (m.drawing x y rows).1 j.devices with ⟨answer, e⟩
    cases answer <;> rfl
  · simp only [draw_eq, strokeOf?, if_neg h, Option.map_none, Option.toList_none, List.append_nil]
    rfl

/-- A journal changes nothing about an instruction, and notes the screen after a stroke. -/
theorem execute_journal (m : Machine) (j : Journal δ) (i : Instruction) :
    m.execute j i =
      (m.execute j.devices i).noting (j.frames ++ ((m.strokeOf? i).map fun _ =>
        ((m.execute j.devices i).machine.screen,
          (m.execute j.devices i).result.isOk)).toList) := by
  by_cases hdraw : ∃ x y rows, i = .draw x y rows
  · obtain ⟨x, y, rows, rfl⟩ := hdraw
    exact draw_journal m j x y rows
  · -- No other instruction hands a frame over, so that the journal stays as it is.
    have hquiet : m.strokeOf? i = none ∧ m.requestOf? i ≠ some .draw := by
      cases i with
      | draw x y rows => exact absurd ⟨x, y, rows, rfl⟩ hdraw
      | _ => exact ⟨rfl, nofun⟩
    have halike : (m.execute j i).Alike (fun k e => k = ⟨e, j.frames⟩) (m.execute j.devices i) :=
      execute_alike m i (fun _ => rfl) (fun h => absurd h hquiet.2) (fun _ => ⟨rfl, rfl⟩)
        fun _ => ⟨rfl, rfl⟩
    rw [hquiet.1, Option.map_none, Option.toList_none, List.append_nil]
    exact Outcome.eq_noting halike

/-- The frame of a step that draws is the screen that it leaves. -/
theorem frame?_of_upcoming {m : Machine} {i : Instruction} (hi : m.upcoming? = some i) (d : δ) :
    (Moment.mk m d .step).frame? =
      (m.strokeOf? i).map fun _ => ((m.step d).machine.screen, (m.step d).result.isOk) := by
  simp only [Moment.frame?, Moment.stroke?, hi]
  rfl

/-- A journal changes nothing about an action, and notes its frame if it has one. -/
theorem act_journal (m : Machine) (j : Journal δ) (action : Action) :
    m.act j action =
      (m.act j.devices action).noting
        (j.frames ++ (Moment.mk m j.devices action).frame?.toList) := by
  cases action with
  | load program =>
    have hframe : (Moment.mk m j.devices (.load program)).frame? = none := rfl
    rw [hframe, Option.toList_none, List.append_nil]
    simp only [act]
    cases m.load program <;> rfl
  | step =>
    show m.step j = (m.step j.devices).noting _
    cases hi : m.upcoming? with
    | none =>
      have hframe : (Moment.mk m j.devices .step).frame? = none := by
        simp only [Moment.frame?, Moment.stroke?, hi]
        rfl
      rw [hframe, Option.toList_none, List.append_nil, step_of_upcoming_eq_none hi,
        step_of_upcoming_eq_none hi]
      rfl
    | some i =>
      rw [frame?_of_upcoming hi, step_of_upcoming hi, step_of_upcoming hi, execute_journal]
      rfl
  | tickDelay | tickSound =>
    show _ = Outcome.noting _ (j.frames ++ [])
    rw [List.append_nil]
    rfl

/-- Over a course of actions a journal changes nothing, and notes the screens after strokes in
order. -/
theorem after_journal (m : Machine) (j : Journal δ) (actions : List Action) :
    m.after j actions =
      ((m.after j.devices actions).1,
        { devices := (m.after j.devices actions).2
          frames := j.frames ++ (m.history j.devices actions).filterMap Moment.frame? }) := by
  induction actions generalizing m j with
  | nil => simp [after, history]
  | cons action actions ih =>
    show (m.act j action).machine.after (m.act j action).devices actions = _
    rw [act_journal, ih]
    have hframes : (Moment.mk m j.devices action).frame?.toList ++
        ((m.act j.devices action).machine.history (m.act j.devices action).devices
          actions).filterMap Moment.frame? =
        (m.history j.devices (action :: actions)).filterMap Moment.frame? := by
      simp only [history, List.filterMap_cons]
      cases (Moment.mk m j.devices action).frame? <;> rfl
    rw [← hframes, ← List.append_assoc]
    rfl

end Machine

/-! ## Courses from power-on -/

/-- Over a course of actions from power-on a cell is lit if and only if an odd number of bits of the
strokes since the last clear fell on it.  Nothing but strokes and clears changes the screen.  The
frames that the display is handed, and whether it takes them, are those of the strokes in order, and
noting them down changes nothing. -/
theorem screen_after_build {settings : Settings} {hostKey : ChaCha.Key} {m : Machine}
    (h : Machine.build settings hostKey = .ok m) [Devices δ] (d : δ) (actions : List Action) :
    (∀ x y, x < settings.screenWidth → y < settings.screenHeight →
      ((m.after d actions).1.screen.get x y = 1 ↔
        Odd (Stroke.hitsOf settings.screenWidth settings.screenHeight
          (Moment.strokes (m.history d actions)) (x, y)))) ∧
      (∀ t : Moment δ, t.stroke? = none → t.wipes = false →
        t.outcome.machine.screen = t.machine.screen) ∧
      m.after (Journal.mk d []) actions =
        ((m.after d actions).1,
          { devices := (m.after d actions).2
            frames := (m.history d actions).filterMap Moment.frame? }) := by
  refine ⟨?_, ?_, ?_⟩
  · intro x y hx hy
    obtain ⟨-, rfl⟩ := Machine.build_eq_ok_iff.1 h
    have hdark := Painted.dark settings.screenWidth settings.screenHeight
    exact (hdark.after (m := Machine.fresh settings hostKey) d actions).get_eq_one_iff x y hx hy
  · rintro ⟨m, d, action⟩ hstroke hwipes
    show (m.act d action).machine.screen = m.screen
    rw [Machine.screen_act, hstroke, hwipes]
    rfl
  · exact Machine.after_journal m (Journal.mk d []) actions

/-- A program that draws the top row of the glyph of 0 into the corner lights the corner. -/
theorem screen_after_build_corner :
    ∃ m : Machine, Machine.build {} .zero = .ok m ∧
      (m.after Headless.mk [.load [0xD0, 0x01], .step]).1.screen.get 0 0 = 1 := by
  have hbuild : Machine.build {} .zero = .ok (Machine.fresh {} .zero) := rfl
  have hlit := (screen_after_build hbuild Headless.mk [.load [0xD0, 0x01], .step]).1 0 0
    (by decide) (by decide)
  refine ⟨_, hbuild, hlit.2 ?_⟩
  have hload : ((Machine.fresh {} .zero).act Headless.mk (.load [0xD0, 0x01])).machine =
      (Machine.fresh {} .zero).loaded [0xD0, 0x01] :=
    Machine.machine_act_load_of_le _ _ (by decide)
  have hdraw : ((Machine.fresh {} .zero).loaded [0xD0, 0x01]).upcoming? = some (.draw 0 0 1) :=
    Machine.upcoming?_loaded _ 0xD0 0x01 []
  have hrow : ((Machine.fresh {} .zero).loaded [0xD0, 0x01]).memory.bytesAt 0 1 = [0xF0] := by
    rw [Machine.memory_loaded]
    simp [Memory.bytesAt, Memory.peek_store, Memory.initial, Font.glyphs, programStart, memorySize]
  have hstrokes : Moment.strokes
      ((Machine.fresh {} .zero).history Headless.mk [.load [0xD0, 0x01], .step]) =
        [⟨0, 0, [0xF0]⟩] := by
    simp only [Moment.strokes, Machine.history, List.foldl_cons, List.foldl_nil, hload]
    simp only [Moment.strokesFrom, Moment.wipes, Moment.stroke?, hdraw]
    show [] ++
      [Stroke.mk 0 0 (((Machine.fresh {} .zero).loaded [0xD0, 0x01]).memory.bytesAt 0 1)] = _
    rw [hrow]
    rfl
  rw [hstrokes]
  decide

end ChipEight
