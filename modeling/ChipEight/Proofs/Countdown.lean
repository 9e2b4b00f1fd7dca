import ChipEight.Proofs.Course
import Mathlib.Data.List.Induction

/-!
# What is left on the timers

Either timer holds what was stored in it last, less one for every time that it has counted down
since, and nothing less than zero.  A value is stored by the instruction that sets the timer, and
zero by a load; how many instructions run meanwhile, and what they are, does not matter, and neither
does the order in which the halves of a tick fall between them.

Main results:

- `Counter.read_act`: what an action does to a timer.
- `Counter.read_after`: a timer after a course of actions.
- `countdown_after_build`: the same from power-on, with what programs and the buzzer see of it.
-/

namespace ChipEight

/-! ## Counters -/

/-- One of the two timers. -/
inductive Counter where
  | delay
  | sound
deriving DecidableEq, Repr

namespace Counter

/-- The value of a timer. -/
def read (timers : Timers) : Counter → UInt8
  | delay => timers.delay
  | sound => timers.sound

/-- The action by which a timer counts down. -/
def tick : Counter → Action
  | delay => .tickDelay
  | sound => .tickSound

/-- The instruction that sets a timer from a register. -/
def setter : Counter → UInt8 → Instruction
  | delay, x => .setDelay x
  | sound, x => .setSound x

/-- The register from which an instruction sets a timer, if it does. -/
def source? : Counter → Instruction → Option UInt8
  | delay, .setDelay x => some x
  | sound, .setSound x => some x
  | _, _ => none

theorem source?_eq_some_iff {c : Counter} {i : Instruction} {x : UInt8} :
    c.source? i = some x ↔ i = c.setter x := by
  constructor
  · intro h
    cases c <;> cases i <;> cases h <;> rfl
  · rintro rfl
    cases c <;> rfl

end Counter

variable {δ : Type}

/-! ## Stores and ticks of a history -/

namespace Moment

/-- The value that is stored in a timer at a moment, if one is: that of the register from which an
instruction sets the timer, or zero by a load of a program that fits. -/
def stored? (c : Counter) (t : Moment δ) : Option UInt8 :=
  match t.action with
  | .load program => if program.length ≤ programCapacity then some 0 else none
  | .step => (t.machine.upcoming?.bind c.source?).map t.machine.registers.get
  | _ => none

/-- The value that was stored in a timer last, or the given one if none was. -/
def lastStored (c : Counter) (initial : UInt8) (history : List (Moment δ)) : UInt8 :=
  (history.reverse.findSome? (stored? c)).getD initial

/-- How often a timer has counted down since a value was stored in it. -/
def ticksSince (c : Counter) (history : List (Moment δ)) : Nat :=
  (history.reverse.takeWhile fun t => (t.stored? c).isNone).countP fun t => t.action = c.tick

theorem stored?_eq_some_iff {c : Counter} {t : Moment δ} {v : UInt8} :
    t.stored? c = some v ↔
      (∃ program, t.action = .load program ∧ program.length ≤ programCapacity ∧ v = 0) ∨
        t.action = .step ∧ ∃ x, t.machine.upcoming? = some (c.setter x) ∧
          v = t.machine.registers.get x := by
  rcases t with ⟨m, d, action⟩
  cases action with
  | load program =>
    simp only [stored?, Option.ite_none_right_eq_some, Option.some.injEq, Action.load.injEq,
      exists_eq_left', reduceCtorEq, false_and, or_false]
    exact and_congr_right fun _ => eq_comm
  | step =>
    simp only [stored?, Option.map_eq_some_iff, Option.bind_eq_some_iff, reduceCtorEq, false_and,
      exists_false, false_or, true_and]
    constructor
    · rintro ⟨x, ⟨i, hi, hx⟩, rfl⟩
      rw [Counter.source?_eq_some_iff.1 hx] at hi
      exact ⟨x, hi, rfl⟩
    · rintro ⟨x, hi, rfl⟩
      exact ⟨x, ⟨_, hi, Counter.source?_eq_some_iff.2 rfl⟩, rfl⟩
  | tickDelay | tickSound => simp [stored?]

theorem lastStored_append_singleton (c : Counter) (initial : UInt8) (history : List (Moment δ))
    (t : Moment δ) :
    lastStored c initial (history ++ [t]) = (t.stored? c).getD (lastStored c initial history) := by
  unfold lastStored
  rw [List.reverse_append, List.reverse_singleton, List.singleton_append, List.findSome?_cons]
  cases t.stored? c <;> rfl

theorem ticksSince_append_singleton (c : Counter) (history : List (Moment δ)) (t : Moment δ) :
    ticksSince c (history ++ [t]) =
      if (t.stored? c).isSome then 0
      else ticksSince c history + if t.action = c.tick then 1 else 0 := by
  unfold ticksSince
  rw [List.reverse_append, List.reverse_singleton, List.singleton_append, List.takeWhile_cons]
  cases t.stored? c with
  | some v => rfl
  | none => simp [List.countP_cons]

end Moment

/-! ## A timer after an action -/

namespace Counter

/-- An instruction stores a value in a timer or leaves it alone. -/
theorem read_timersAfter (c : Counter) (m : Machine) (i : Instruction) :
    c.read (m.timersAfter i) = ((c.source? i).map m.registers.get).getD (c.read m.timers) := by
  cases c <;> cases i <;> rfl

variable [Devices δ]

/-- An action stores a value in a timer, or counts it down, or leaves it alone. -/
theorem read_act (c : Counter) (m : Machine) (d : δ) (action : Action) :
    c.read (m.act d action).machine.timers =
      ((Moment.mk m d action).stored? c).getD
        (if action = c.tick then Timers.countDown (c.read m.timers) else c.read m.timers) := by
  cases action with
  | load program =>
    have hquiet : Action.load program ≠ c.tick := by cases c <;> nofun
    rw [if_neg hquiet]
    by_cases hle : program.length ≤ programCapacity
    · rw [Machine.machine_act_load_of_le m d hle]
      simp only [Moment.stored?, if_pos hle]
      cases c <;> rfl
    · rw [Machine.act_load_of_lt m d (Nat.not_le.1 hle)]
      simp only [Moment.stored?, if_neg hle]
      rfl
  | step =>
    have hquiet : Action.step ≠ c.tick := by cases c <;> nofun
    rw [if_neg hquiet]
    show c.read (m.step d).machine.timers = _
    cases hi : m.upcoming? with
    | none =>
      rw [Machine.step_of_upcoming_eq_none hi]
      simp only [Moment.stored?, hi]
      rfl
    | some i =>
      rw [Machine.machine_step_of_upcoming hi, Machine.machine_execute]
      simp only [Moment.stored?, hi]
      exact c.read_timersAfter m.advanced i
  | tickDelay | tickSound => cases c <;> rfl

/-- An action that neither stores a value in a timer nor counts it down leaves it alone. -/
theorem read_outcome_of_quiet {c : Counter} {t : Moment δ} (hstored : t.stored? c = none)
    (htick : t.action ≠ c.tick) : c.read t.outcome.machine.timers = c.read t.machine.timers := by
  have hact := c.read_act t.machine t.devices t.action
  rw [if_neg htick] at hact
  refine hact.trans ?_
  show (t.stored? c).getD _ = _
  rw [hstored]
  rfl

theorem read_outcome_of_stored {c : Counter} {t : Moment δ} {v : UInt8}
    (hstored : t.stored? c = some v) : c.read t.outcome.machine.timers = v := by
  have hact := c.read_act t.machine t.devices t.action
  refine hact.trans ?_
  show (t.stored? c).getD _ = _
  rw [hstored]
  rfl

/-! ## A timer after a course of actions -/

/-- A timer holds what was stored in it last, less one for every time that it has counted down
since. -/
theorem read_after (c : Counter) (m : Machine) (d : δ) (actions : List Action) :
    (c.read (m.after d actions).1.timers).toNat =
      (Moment.lastStored c (c.read m.timers) (m.history d actions)).toNat -
        Moment.ticksSince c (m.history d actions) := by
  induction actions using List.reverseRecOn with
  | nil => rfl
  | append_singleton actions action ih =>
    have hact := c.read_act (m.after d actions).1 (m.after d actions).2 action
    have hlast : m.history d (actions ++ [action]) =
        m.history d actions ++ [⟨(m.after d actions).1, (m.after d actions).2, action⟩] :=
      Machine.history_append m d actions [action]
    rw [Machine.after_append, hlast, Moment.lastStored_append_singleton,
      Moment.ticksSince_append_singleton]
    show (c.read ((m.after d actions).1.act (m.after d actions).2 action).machine.timers).toNat = _
    rw [hact]
    cases (Moment.mk (m.after d actions).1 (m.after d actions).2 action).stored? c with
    | some v => rfl
    | none =>
      show (if action = c.tick then _ else _ : UInt8).toNat =
          _ - (_ + if action = c.tick then 1 else 0)
      split
      · rw [Timers.toNat_countDown, ih]
        exact Nat.sub_sub _ _ _
      · exact ih

/-- While nothing is stored in a timer, it only counts down. -/
theorem read_after_of_unstored {c : Counter} (m : Machine) (d : δ) {actions : List Action}
    (h : ∀ t ∈ m.history d actions, t.stored? c = none) :
    (c.read (m.after d actions).1.timers).toNat =
      (c.read m.timers).toNat - actions.count c.tick := by
  induction actions generalizing m d with
  | nil => rfl
  | cons action actions ih =>
    rw [Machine.history] at h
    obtain ⟨hfirst, hrest⟩ := List.forall_mem_cons.1 h
    have hact := c.read_act m d action
    rw [hfirst] at hact
    show (c.read
      ((m.act d action).machine.after (m.act d action).devices actions).1.timers).toNat = _
    rw [ih _ _ hrest, hact, List.count_cons]
    by_cases htick : action = c.tick
    · simp only [htick, Option.getD_none, if_true, Timers.toNat_countDown, beq_self_eq_true]
      omega
    · simp [htick]

end Counter

namespace Machine

variable [Devices δ]

/-- A step that reads the delay timer puts its value into the register, and succeeds. -/
theorem step_of_readDelay {m : Machine} {x : UInt8} (hi : m.upcoming? = some (.readDelay x))
    (d : δ) :
    (m.step d).result = .ok .next ∧ (m.step d).machine.registers.get x = m.timers.delay := by
  rw [result_step_of_upcoming hi, machine_step_of_upcoming hi]
  refine ⟨rfl, ?_⟩
  show (m.advanced.registers.set x m.timers.delay).get x = _
  rw [Registers.get_set, if_pos rfl]

/-- Setting a timer does not fail. -/
theorem result_step_of_setter {m : Machine} {c : Counter} {x : UInt8}
    (hi : m.upcoming? = some (c.setter x)) (d : δ) : (m.step d).result.isOk = true := by
  rw [result_step_of_upcoming hi]
  cases c <;> rfl

end Machine

/-- What ends in a fault leaves the timers alone. -/
theorem Counter.read_outcome_of_error [Devices δ] (c : Counter) {t : Moment δ} {fault : Fault}
    (h : t.outcome.result = .error fault) :
    c.read t.outcome.machine.timers = c.read t.machine.timers := by
  rcases t with ⟨m, d, action⟩
  have hfails : (m.act d action).result = .error fault := h
  refine read_outcome_of_quiet ?_ ?_
  · -- Neither a load of a program that fits nor the setting of a timer ends in a fault.
    refine Option.eq_none_iff_forall_ne_some.2 fun v hv => ?_
    rcases Moment.stored?_eq_some_iff.1 hv with ⟨program, rfl, hle, -⟩ | ⟨rfl, x, hi, -⟩
    · simp [Machine.act, Machine.load_of_le m hle] at hfails
    · have hok := Machine.result_step_of_setter hi d
      rw [show (m.step d).result = .error fault from hfails] at hok
      cases hok
  · rintro rfl
    cases c <;> cases hfails

theorem Timers.sounding_eq_true_iff (timers : Timers) :
    timers.sounding = true ↔ 0 < timers.sound.toNat := by
  rw [sounding, decide_eq_true_iff, UInt8.lt_iff_toNat_lt]
  rfl

/-- Over any course of actions from power-on either timer holds the value that was stored in it
last, or zero if none was, less one for every time that it has counted down since, and zero at
least.  What is stored is the register of the instruction that sets the timer, and zero by a load.
The delay timer is read as it is, and the buzzer is on while the sound timer is above zero.  Nothing
else changes a timer, and nothing that ends in a fault does; so a value that is stored and left
alone is counted down to zero in as many ticks. -/
theorem countdown_after_build {settings : Settings} {hostKey : ChaCha.Key} {m : Machine}
    (h : Machine.build settings hostKey = .ok m) [Devices δ] (d : δ) (actions : List Action) :
    let final := (m.after d actions).1
    let left (c : Counter) := (Moment.lastStored c 0 (m.history d actions)).toNat -
      Moment.ticksSince c (m.history d actions)
    (∀ c : Counter, (c.read final.timers).toNat = left c) ∧
      (∀ (x : UInt8) (e : δ), final.upcoming? = some (.readDelay x) →
        (final.step e).result = .ok .next ∧
          ((final.step e).machine.registers.get x).toNat = left .delay) ∧
      (final.timers.sounding = true ↔ 0 < left .sound) ∧
      (∀ (c : Counter) (t : Moment δ) (v : UInt8), t.stored? c = some v ↔
        (∃ program, t.action = .load program ∧ program.length ≤ 3584 ∧ v = 0) ∨
          t.action = .step ∧ ∃ x, t.machine.upcoming? = some (c.setter x) ∧
            v = t.machine.registers.get x) ∧
      (∀ (c : Counter) (t : Moment δ), t.stored? c = none → t.action ≠ c.tick →
        c.read t.outcome.machine.timers = c.read t.machine.timers) ∧
      (∀ (c : Counter) (t : Moment δ) (fault : Fault), t.outcome.result = .error fault →
        c.read t.outcome.machine.timers = c.read t.machine.timers) ∧
      ∀ (c : Counter) (t : Moment δ) (v : UInt8) (later : List Action), t.stored? c = some v →
        (∀ s ∈ t.outcome.machine.history t.outcome.devices later, s.stored? c = none) →
        (c.read (t.outcome.machine.after t.outcome.devices later).1.timers).toNat =
          v.toNat - later.count c.tick := by
  intro final left
  have hleft (c : Counter) : (c.read final.timers).toNat = left c := by
    obtain ⟨-, rfl⟩ := Machine.build_eq_ok_iff.1 h
    have hstart : c.read (Machine.fresh settings hostKey).timers = 0 := by cases c <;> rfl
    have hafter := c.read_after (Machine.fresh settings hostKey) d actions
    rw [hstart] at hafter
    exact hafter
  refine ⟨hleft, ?_, ?_, ?_, ?_, ?_, ?_⟩
  · intro x e hi
    obtain ⟨hresult, hread⟩ := Machine.step_of_readDelay hi e
    rw [hread]
    exact ⟨hresult, hleft .delay⟩
  · rw [Timers.sounding_eq_true_iff, ← hleft .sound]
    rfl
  · intro c t v
    exact Moment.stored?_eq_some_iff
  · intro c t hstored htick
    exact Counter.read_outcome_of_quiet hstored htick
  · intro c t fault hfault
    exact c.read_outcome_of_error hfault
  · intro c t v later hstored hquiet
    rw [Counter.read_after_of_unstored _ _ hquiet, Counter.read_outcome_of_stored hstored]

/-- A program sets the delay timer to 5, and the timer counts down twice, with half a tick of the
other timer in between. -/
theorem countdown_after_build_five :
    ∃ m : Machine, Machine.build {} .zero = .ok m ∧
      (m.after Headless.mk [.load [0x60, 0x05, 0xF0, 0x15], .step, .step, .tickDelay, .tickSound,
        .tickDelay]).1.timers.delay.toNat = 3 := by
  obtain ⟨m, hm⟩ : ∃ m, m = Machine.fresh {} .zero := ⟨_, rfl⟩
  have hbuild : Machine.build {} .zero = .ok m := Machine.build_eq_ok_iff.2 ⟨by decide, hm⟩
  have hload : (m.act Headless.mk (.load [0x60, 0x05, 0xF0, 0x15])).machine =
      m.loaded [0x60, 0x05, 0xF0, 0x15] :=
    Machine.machine_act_load_of_le m Headless.mk (by decide)
  obtain ⟨first, hfirst⟩ : ∃ n, n = m.loaded [0x60, 0x05, 0xF0, 0x15] := ⟨_, rfl⟩
  have hset : first.upcoming? = some (.setByte 0 5) := by
    rw [hfirst]
    exact Machine.upcoming?_loaded m 0x60 0x05 [0xF0, 0x15]
  obtain ⟨second, hsecond⟩ : ∃ n, n = (first.step Headless.mk).machine := ⟨_, rfl⟩
  have hparts : second.registers = first.advanced.registers.set 0 5 ∧
      second.memory = Memory.initial.store programStart [0x60, 0x05, 0xF0, 0x15] := by
    rw [hsecond, Machine.machine_step_of_upcoming hset, hfirst]
    exact ⟨rfl, rfl⟩
  have hstore : second.upcoming? = some (.setDelay 0) := by
    have hpc : second.registers.pc.toNat = 0x202 := by
      rw [hparts.1, hfirst]
      show (programStart.toUInt16 + 2).toNat = 0x202
      decide
    rw [Machine.upcoming?_of_pc_le (by rw [hpc]; decide), hpc, hparts.2,
      Memory.peek_loaded _ (by decide), Memory.peek_loaded _ (by decide)]
    rfl
  have hstored : (Moment.mk second Headless.mk .step).stored? .delay = some 5 := by
    refine Moment.stored?_eq_some_iff.2 (.inr ⟨rfl, 0, hstore, ?_⟩)
    rw [hparts.1, Registers.get_set, if_pos rfl]
  have hticks := (countdown_after_build hbuild Headless.mk []).2.2.2.2.2.2 .delay
    ⟨second, Headless.mk, .step⟩ 5 [.tickDelay, .tickSound, .tickDelay] hstored (by
      intro s hs
      simp only [Machine.history, List.mem_cons, List.not_mem_nil, or_false] at hs
      rcases hs with rfl | rfl | rfl <;> rfl)
  refine ⟨m, hbuild, Eq.trans ?_ hticks⟩
  simp only [Machine.after, hload, ← hfirst]
  rw [hsecond]
  rfl

end ChipEight
