import ChipEight.Proofs.Collisions
import ChipEight.Proofs.Frames

/-!
# Drawing a sprite of memory

A step that draws takes the bytes of its sprite from memory and their place from two general
registers, one of which may be the flag register.  It tells in the flag register whether the drawing
has made a cell dark, and then hands the screen to the display, whether or not that takes it.
Nothing else of the machine changes but the program counter.

Main results:

- `get_flag_drawn_eq_one_iff`, `get_flag_drawn_eq_zero_iff`: what the flag register holds after a
  drawing.
- `step_draws_sprite`: all that such a step does.
-/

namespace ChipEight

variable {δ : Type}

/-! ## The flag -/

namespace Machine

variable {m : Machine} {x y rows : UInt8}

/-- The cells that the sprite of a drawing meets, one for each of its set bits, in the order in
which they are toggled. -/
def met (m : Machine) (x y rows : UInt8) : List (Nat × Nat) :=
  m.screen.footprint (m.registers.get x).toNat (m.registers.get y).toNat
    (m.memory.bytesAt m.registers.index.toNat rows.toNat)

/-- A drawing reports whether some toggle turned a lit cell dark. -/
theorem drawing_snd_iff (hs : m.screen.Sized) :
    (m.drawing x y rows).2 = true ↔ m.screen.TurnsDark (m.met x y rows) :=
  Screen.toggleAll_snd_iff_turnsDark hs _

/-- After a drawing the flag register holds what the drawing reports. -/
theorem get_flag_drawn (m : Machine) (x y rows : UInt8) :
    (m.drawn x y rows).registers.get 0xF = (m.drawing x y rows).2.toUInt8 :=
  Registers.get_setFlag ..

/-- After a drawing the flag register holds 1 if some toggle turned a lit cell dark. -/
theorem get_flag_drawn_eq_one_iff (hs : m.screen.Sized) :
    (m.drawn x y rows).registers.get 0xF = 1 ↔ m.screen.TurnsDark (m.met x y rows) := by
  rw [get_flag_drawn, ← drawing_snd_iff hs]
  cases (m.drawing x y rows).2 <;> decide

/-- After a drawing the flag register holds 0 if no toggle turned a lit cell dark. -/
theorem get_flag_drawn_eq_zero_iff (hs : m.screen.Sized) :
    (m.drawn x y rows).registers.get 0xF = 0 ↔ ¬ m.screen.TurnsDark (m.met x y rows) := by
  rw [get_flag_drawn, ← drawing_snd_iff hs]
  cases (m.drawing x y rows).2 <;> decide

/-- After a drawing on a screen that the sprite fits on, the flag register holds 1 if some cell was
lit before and is dark after. -/
theorem get_flag_drawn_eq_one_iff_of_fits {width height : Nat}
    (hscreen : m.screen.Regular width height) (hwidth : 8 ≤ m.screen.width)
    (hheight : rows.toNat ≤ m.screen.height) :
    (m.drawn x y rows).registers.get 0xF = 1 ↔
      ∃ u v, m.screen.get u v ≠ 0 ∧ (m.drawn x y rows).screen.get u v = 0 := by
  have hlength :
      (m.memory.bytesAt m.registers.index.toNat rows.toNat).length ≤ m.screen.height := by
    rwa [Memory.length_bytesAt]
  have hfits := Screen.drawSprite_snd_iff_of_fits hscreen.sized hwidth hlength
    (m.registers.get x).toNat (m.registers.get y).toNat
  rw [get_flag_drawn_eq_one_iff hscreen.sized, ← drawing_snd_iff hscreen.sized]
  refine hfits.trans (exists_congr fun u => exists_congr fun v => ?_)
  constructor
  · rintro ⟨-, hone, hdark⟩
    refine ⟨?_, hdark⟩
    rw [hone]
    decide
  · rintro ⟨hlit, hdark⟩
    have hc : m.screen.Contains u v := by
      by_contra hout
      exact hlit (if_neg hout)
    exact ⟨hc, (hscreen.get_eq u v).resolve_left hlit, hdark⟩

end Machine

/-! ## The step -/

namespace Machine

variable [Devices δ]

/-- All that a step does that draws the given number of rows at the place in registers `x` and `y`.
The place and the bytes are those of the machine before the step. -/
structure DrawsSprite (m : Machine) (x y rows : UInt8) (d : δ) : Prop where
  /-- The sprite is drawn on the screen. -/
  screen_eq : (m.step d).machine.screen =
    (m.screen.drawSprite (m.registers.get x).toNat (m.registers.get y).toNat
      (m.memory.bytesAt m.registers.index.toNat rows.toNat)).1
  /-- The flag register holds 1 if some toggle of the drawing turned a lit cell dark. -/
  flag_eq_one_iff : (m.step d).machine.registers.get 0xF = 1 ↔ m.screen.TurnsDark (m.met x y rows)
  /-- The flag register holds 0 otherwise. -/
  flag_eq_zero_iff : (m.step d).machine.registers.get 0xF = 0 ↔
    ¬ m.screen.TurnsDark (m.met x y rows)
  /-- On a screen that the sprite fits on, the screens before and after decide about the flag. -/
  flag_of_fits : 8 ≤ m.screen.width → rows.toNat ≤ m.screen.height →
    ((m.step d).machine.registers.get 0xF = 1 ↔
      ∃ u v, m.screen.get u v ≠ 0 ∧ (m.step d).machine.screen.get u v = 0)
  /-- The other general registers keep their bytes. -/
  general_eq : ∀ r : UInt8, r < 0xF → (m.step d).machine.registers.get r = m.registers.get r
  /-- The index register keeps its address. -/
  index_eq : (m.step d).machine.registers.index = m.registers.index
  /-- The call stack stays. -/
  stack_eq : (m.step d).machine.registers.stack = m.registers.stack
  /-- The memory stays. -/
  memory_eq : (m.step d).machine.memory = m.memory
  /-- The timers stay. -/
  timers_eq : (m.step d).machine.timers = m.timers
  /-- No random byte is taken. -/
  random_eq : (m.step d).machine.random = m.random
  /-- The choices with which the machine was built stay. -/
  settings_eq : (m.step d).machine.settings = m.settings
  /-- The program counter passes the instruction. -/
  pc_eq : (m.step d).machine.registers.pc.toNat = m.registers.pc.toNat + 2
  /-- The display is handed the screen after the drawing. -/
  devices_eq : (m.step d).devices = (Devices.draw (m.step d).machine.screen d).2
  /-- The display decides how the step ends. -/
  result_eq : (m.step d).result = (Devices.draw (m.step d).machine.screen d).1.map fun _ => .draw
  /-- The display is handed no other frame. -/
  journal_eq : m.step (Journal.mk d []) =
    (m.step d).noting [((m.step d).machine.screen, (m.step d).result.isOk)]
  /-- To draw no rows leaves the screen as it is and the flag register at 0. -/
  of_rows_eq_zero : rows = 0 →
    (m.step d).machine.screen = m.screen ∧ (m.step d).machine.registers.get 0xF = 0

/-- The frame of a step that draws a sprite of memory is the only one that a journal notes. -/
theorem step_journal_of_draw {m : Machine} {x y rows : UInt8}
    (hi : m.upcoming? = some (.draw x y rows))
    (hfits : Memory.Fits m.registers.index.toNat rows.toNat) (d : δ) :
    m.step (Journal.mk d []) =
      (m.step d).noting [((m.step d).machine.screen, (m.step d).result.isOk)] := by
  have hframe : (Moment.mk m d .step).frame? =
      some ((m.step d).machine.screen, (m.step d).result.isOk) := by
    rw [frame?_of_upcoming hi, strokeOf?, if_pos hfits]
    rfl
  have hjournal := act_journal m (Journal.mk d []) .step
  rw [hframe] at hjournal
  exact hjournal

end Machine

/-- A step of a reachable machine draws a sprite that lies in memory as it should: bytes and place
are those before the step, also where one of the registers for the place is the flag register, and
the flag is that of the drawing.  All of this is so whether or not the display takes the frame. -/
theorem step_draws_sprite {settings : Settings} {m : Machine} (hreach : Reachable settings m)
    {x y rows : UInt8} (hi : m.upcoming? = some (.draw x y rows))
    (hpos : 0 < m.registers.index.toNat + rows.toNat)
    (hend : m.registers.index.toNat + rows.toNat ≤ 0x1000) [Devices δ] (d : δ) :
    m.DrawsSprite x y rows d := by
  have hfits : Memory.Fits m.registers.index.toNat rows.toNat := ⟨hpos, hend⟩
  obtain ⟨hmachine, hdevices, hresult⟩ := Machine.step_of_draw hi hfits d
  have hscreen : m.advanced.screen.Regular settings.screenWidth settings.screenHeight :=
    hreach.sound.screen
  constructor
  case devices_eq => exact hdevices
  case result_eq => exact hresult
  case journal_eq => exact Machine.step_journal_of_draw hi hfits d
  all_goals rw [hmachine]
  case screen_eq => rfl
  case flag_eq_one_iff => exact Machine.get_flag_drawn_eq_one_iff hscreen.sized
  case flag_eq_zero_iff => exact Machine.get_flag_drawn_eq_zero_iff hscreen.sized
  case flag_of_fits =>
    intro hwidth hheight
    exact Machine.get_flag_drawn_eq_one_iff_of_fits hscreen hwidth hheight
  case general_eq =>
    intro r hr
    have hother : r.toNat % registerCount ≠ flagRegister := by
      have hlt : r.toNat < 0xF := UInt8.lt_iff_toNat_lt.1 hr
      simp only [registerCount, flagRegister]
      omega
    exact (Registers.get_setFlag ..).trans (if_neg hother)
  case index_eq | stack_eq | memory_eq | timers_eq | random_eq | settings_eq => rfl
  case pc_eq => exact Machine.toNat_pc_advanced hi
  case of_rows_eq_zero =>
    rintro rfl
    refine ⟨rfl, ?_⟩
    exact (Machine.get_flag_drawn_eq_zero_iff hscreen.sized).2 (Screen.not_turnsDark_nil _)

/-- A program that draws the top row of the glyph of 0 at the place in the flag register, twice: the
first drawing clears the flag, and the second takes the first back and sets it. -/
theorem step_draws_sprite_twice :
    ∃ m : Machine, Reachable {} m ∧ m.upcoming? = some (.draw 0xF 0xF 1) ∧
      m.registers.index = 0 ∧ m.registers.get 0xF = 0 ∧ m.screen.get 0 0 = 1 ∧
      (m.step Headless.mk).machine.screen.get 0 0 = 0 ∧
      (m.step Headless.mk).machine.registers.get 0xF = 1 := by
  obtain ⟨m, hm⟩ : ∃ m, m = (Machine.fresh {} .zero).loaded [0xDF, 0xF1, 0xDF, 0xF1] := ⟨_, rfl⟩
  have hreach : Reachable {} m := hm ▸ .fresh_loaded (by decide) (by decide)
  have hdraw : m.upcoming? = some (.draw 0xF 0xF 1) :=
    hm ▸ Machine.upcoming?_loaded _ 0xDF 0xF1 [0xDF, 0xF1]
  have hmemory : m.memory = Memory.initial.store programStart [0xDF, 0xF1, 0xDF, 0xF1] := by
    rw [hm, Machine.memory_loaded]
  have hindex : m.registers.index = 0 := by
    rw [hm]
    rfl
  have hplace : m.registers.get 0xF = 0 := by
    rw [hm]
    rfl
  have hdark (u v : Nat) : m.screen.get u v = 0 := by
    rw [hm]
    exact Screen.get_dark 64 32 u v
  have hrow : m.memory.bytesAt 0 1 = [0xF0] := by
    rw [hmemory]
    simp [Memory.bytesAt, Memory.peek_store, Memory.initial, Font.glyphs, programStart, memorySize]
  have hflip {s : Screen} (hs : s.Regular 64 32) :
      (s.drawSprite 0 0 [0xF0]).1.get 0 0 = s.get 0 0 ^^^ 1 := by
    have hc : s.Contains 0 0 := by
      rw [Screen.Contains, hs.width_eq, hs.height_eq]
      decide
    have hodd : Odd (Screen.hits 64 32 0 0 [0xF0] (0, 0)) := by decide
    rw [Screen.get_drawSprite hs.sized hc, hs.width_eq, hs.height_eq, if_pos hodd]
  -- The first drawing lights the corner and leaves the flag at 0.
  have hone := step_draws_sprite hreach hdraw (by rw [hindex]; decide) (by rw [hindex]; decide)
    Headless.mk
  obtain ⟨n, hn⟩ : ∃ n, n = (m.step Headless.mk).machine := ⟨_, rfl⟩
  have hlit : n.screen.get 0 0 = 1 := by
    rw [hn, hone.screen_eq, hplace, hindex]
    show (m.screen.drawSprite 0 0 (m.memory.bytesAt 0 1)).1.get 0 0 = 1
    rw [hrow, hflip hreach.sound.screen, hdark]
    rfl
  have hflag : n.registers.get 0xF = 0 := by
    rw [hn, hone.flag_eq_zero_iff, ← hone.flag_eq_one_iff,
      hone.flag_of_fits (by rw [hreach.sound.screen.width_eq]; decide)
        (by rw [hreach.sound.screen.height_eq]; decide)]
    rintro ⟨u, v, hbefore, -⟩
    exact hbefore (hdark u v)
  have hreach' : Reachable {} n := hn ▸ hreach.act Headless.mk .step
  have hindex' : n.registers.index = 0 := by rw [hn, hone.index_eq, hindex]
  have hrow' : n.memory.bytesAt 0 1 = [0xF0] := by rw [hn, hone.memory_eq, hrow]
  have hpc : n.registers.pc.toNat = programStart + 2 := by
    rw [hn, hone.pc_eq, hm, Machine.toNat_pc_loaded]
  have hmemory' : n.memory = Memory.initial.store programStart [0xDF, 0xF1, 0xDF, 0xF1] := by
    rw [hn, hone.memory_eq, hmemory]
  have hdraw' : n.upcoming? = some (.draw 0xF 0xF 1) :=
    Machine.upcoming?_of_program (k := 2) hmemory' (by decide) hpc rfl rfl
  have htwo := step_draws_sprite hreach' hdraw' (by rw [hindex']; decide) (by rw [hindex']; decide)
    Headless.mk
  have hcleared : (n.step Headless.mk).machine.screen.get 0 0 = 0 := by
    rw [htwo.screen_eq, hflag, hindex']
    show (n.screen.drawSprite 0 0 (n.memory.bytesAt 0 1)).1.get 0 0 = 0
    rw [hrow', hflip hreach'.sound.screen, hlit]
    rfl
  refine ⟨n, hreach', hdraw', hindex', hflag, hlit, hcleared, ?_⟩
  rw [htwo.flag_of_fits (by rw [hreach'.sound.screen.width_eq]; decide)
    (by rw [hreach'.sound.screen.height_eq]; decide)]
  refine ⟨0, 0, ?_, hcleared⟩
  rw [hlit]
  decide

end ChipEight
