import ChipEight.Proofs.Bounds

/-!
# Loading forgets

A program that is loaded finds nothing of the programs before it: registers, return addresses,
memory, screen and timers are those of a machine that was built just now.  Only the random bytes go
on where they were.  Two machines of the same settings whose random bytes agree are therefore told
apart by nothing that happens from the load on, whatever happened to them before.

Main results:

- `Machine.Sound.loaded_eq`: what a load leaves depends on the settings, the program and the random
  bytes.
- `Machine.Sound.outcomes_load_eq`: two machines behave alike from a load on.
- `load_forgets`: a reloaded machine against one that was built just now, and a load that is
  refused.
-/

namespace ChipEight

namespace Machine

variable {settings : Settings} {m n : Machine}

/-! ## Two machines of the same settings -/

/-- Clearing the screen of a machine leaves the dark screen of the configured size. -/
theorem Sound.screen_clear (h : m.Sound settings) :
    m.screen.clear = .dark settings.screenWidth settings.screenHeight := by
  unfold Screen.clear
  rw [h.screen.width_eq, h.screen.height_eq]

/-- What a load leaves depends on the settings, the program and the random bytes only. -/
theorem Sound.loaded_eq (h : m.Sound settings) (program : List UInt8) :
    m.loaded program =
      { settings := settings
        registers := {}
        memory := Memory.initial.store programStart program
        screen := .dark settings.screenWidth settings.screenHeight
        timers := {}
        random := m.random } := by
  unfold loaded
  rw [h.screen_clear, h.settings_eq]

theorem Sound.with_random (h : m.Sound settings) (random : Generator) :
    ({ m with random } : Machine).Sound settings where
  settings_eq := h.settings_eq
  size_pos := h.size_pos
  pc_le := h.pc_le
  stack := h.stack
  screen := h.screen

variable {δ : Type} [Devices δ]

/-- Loading a program that fits comes to the same for two machines whose random bytes agree. -/
theorem Sound.act_load_eq (hm : m.Sound settings) (hn : n.Sound settings)
    (hrandom : m.random = n.random) (d : δ) {program : List UInt8}
    (hle : program.length ≤ programCapacity) :
    m.act d (.load program) = n.act d (.load program) := by
  have hloaded : m.loaded program = n.loaded program := by
    rw [hm.loaded_eq, hn.loaded_eq, hrandom]
  have hevents : m.loadEvents program = n.loadEvents program := by
    unfold loadEvents
    rw [hm.screen.width_eq, hm.screen.height_eq, hn.screen.width_eq, hn.screen.height_eq]
  simp only [act, load_of_le m hle, load_of_le n hle, hloaded, hevents]

/-- From a load on, everything that comes of a course of actions is the same for two machines whose
random bytes agree. -/
theorem Sound.outcomes_load_eq (hm : m.Sound settings) (hn : n.Sound settings)
    (hrandom : m.random = n.random) (d : δ) {program : List UInt8}
    (hle : program.length ≤ programCapacity) (actions : List Action) :
    (m.history d (.load program :: actions)).map Moment.outcome =
      (n.history d (.load program :: actions)).map Moment.outcome := by
  have hload := hm.act_load_eq hn hrandom d hle
  simp only [history, List.map_cons, hload]
  exact congrArg (· :: _) hload

end Machine

/-! ## A machine that was built just now -/

/-- A reachable machine that loads a program which fits differs from a machine that was built just
now with the same settings and loads it in nothing but the random bytes; if these are made to agree,
everything that comes of any course of actions from the load on is the same.  A program that does
not fit is refused, and leaves everything as it was. -/
theorem load_forgets {settings : Settings} {m : Machine} (h : Reachable settings m)
    (program : List UInt8) :
    (program.length ≤ 3584 → ∀ hostKey, ∃ fresh loaded reloaded : Machine,
      Machine.build settings hostKey = .ok fresh ∧ fresh.load program = .ok loaded ∧
        m.load program = .ok reloaded ∧
        (reloaded.settings = loaded.settings ∧ reloaded.registers = loaded.registers ∧
          reloaded.memory = loaded.memory ∧ reloaded.screen = loaded.screen ∧
          reloaded.timers = loaded.timers ∧ reloaded.random = m.random) ∧
        ∀ {δ : Type} [Devices δ] (d : δ) (actions : List Action),
          (m.history d (.load program :: actions)).map Moment.outcome =
            (({ fresh with random := m.random } : Machine).history d
              (.load program :: actions)).map Moment.outcome) ∧
      (3584 < program.length →
        m.load program = .error (.programTooLarge program.length 3584) ∧
          ∀ {δ : Type} [Devices δ] (d : δ),
            m.act d (.load program) =
              m.stopped d (.programTooLarge program.length 3584)) := by
  have hsound := h.sound
  constructor
  · intro hle hostKey
    have hbuild : Machine.build settings hostKey = .ok (Machine.fresh settings hostKey) :=
      Machine.build_eq_ok_iff.2 ⟨hsound.size_pos, rfl⟩
    have hfresh := Machine.sound_build hbuild
    refine ⟨_, _, _, hbuild, Machine.load_of_le _ hle, Machine.load_of_le m hle, ?_, ?_⟩
    · rw [hsound.loaded_eq, hfresh.loaded_eq]
      exact ⟨rfl, rfl, rfl, rfl, rfl, rfl⟩
    · intro δ _ d actions
      exact hsound.outcomes_load_eq (hfresh.with_random m.random) rfl d hle actions
  · intro hlt
    refine ⟨Machine.load_of_lt m hlt, ?_⟩
    intro δ _ d
    exact Machine.act_load_of_lt m d hlt

/-- A machine that loads a second program has the registers, the memory and the screen of one that
loads it as its first. -/
theorem load_forgets_second :
    ∃ m fresh loaded reloaded : Machine, Reachable {} m ∧
      m.upcoming? = some (.call 0x200) ∧ Machine.build {} .zero = .ok fresh ∧
      fresh.load [0x12, 0x00] = .ok loaded ∧ m.load [0x12, 0x00] = .ok reloaded ∧
      reloaded.registers = loaded.registers ∧ reloaded.memory = loaded.memory ∧
      reloaded.screen = loaded.screen := by
  have hreach : Reachable {} ((Machine.fresh {} .zero).loaded [0x22, 0x00]) :=
    .fresh_loaded (by decide) (by decide)
  have hcall : ((Machine.fresh {} .zero).loaded [0x22, 0x00]).upcoming? = some (.call 0x200) :=
    Machine.upcoming?_loaded _ 0x22 0x00 []
  obtain ⟨fresh, loaded, reloaded, hbuild, hload, hreload, hparts, -⟩ :=
    (load_forgets hreach [0x12, 0x00]).1 (by decide) .zero
  exact ⟨_, fresh, loaded, reloaded, hreach, hcall, hbuild, hload, hreload, hparts.2.1,
    hparts.2.2.1, hparts.2.2.2.1⟩

end ChipEight
