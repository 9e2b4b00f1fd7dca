import ChipEight.Proofs.Countdown
import ChipEight.Proofs.Resemblance
import Mathlib.Data.List.Forall2

/-!
# When the timers tick

The clock ticks the timers between steps, and when it does so is up to the host.  A program that
does not read the delay timer cannot tell: two courses of actions from one machine that differ in
nothing but their ticks do the same, action by action, to everything but the timers.  A timer itself
is told apart by the number of its ticks since a value was stored in it last.

Main results:

- `Machine.Resembles.act`: an action makes the same of machines that differ in their timers.
- `Machine.Resembles.schedules`: two courses that differ in their ticks.
- `Moment.lastStored_eq_of_work`: which value was stored last does not depend on the ticks.
- `ticks_unseen`: what two such courses have in common, and what becomes of a timer.
-/

namespace ChipEight

variable {δ : Type}

/-! ## Courses without their ticks -/

/-- A timer counts down. -/
def Action.isTick : Action → Bool
  | .tickDelay | .tickSound => true
  | .load _ | .step => false

/-- The actions of a course that are no ticks. -/
def Action.work (actions : List Action) : List Action := actions.filter fun action => !action.isTick

namespace Moment

/-- The moments of a history that are no ticks. -/
def work (history : List (Moment δ)) : List (Moment δ) := history.filter fun t => !t.action.isTick

theorem work_append (first second : List (Moment δ)) :
    work (first ++ second) = work first ++ work second := List.filter_append _ _

variable [Devices δ]

/-- Two moments at which the same happens to machines that differ in their timers at most: it meets
the same devices, executes the same instruction, has the same result, shows the same to the outside,
and leaves the same but for the timers. -/
structure DiffersInTimers (s t : Moment δ) : Prop where
  action_eq : t.action = s.action
  machine_eq : t.machine = { s.machine with timers := t.machine.timers }
  devices_eq : t.devices = s.devices
  upcoming?_eq : t.machine.upcoming? = s.machine.upcoming?
  result_eq : t.outcome.result = s.outcome.result
  events_eq : t.outcome.events = s.outcome.events
  machine_outcome_eq : t.outcome.machine =
    { s.outcome.machine with timers := t.outcome.machine.timers }
  devices_outcome_eq : t.outcome.devices = s.outcome.devices

end Moment

namespace Machine

/-- No step of a course reads the delay timer. -/
def IgnoresDelay [Devices δ] (m : Machine) (d : δ) (actions : List Action) : Prop :=
  ∀ t ∈ m.history d actions, t.action = .step → ∀ x, t.machine.upcoming? ≠ some (.readDelay x)

variable {m n : Machine}

/-- A machine that resembles another, random bytes included, is that other one with timers of its
own. -/
theorem Resembles.eq_with_timers (h : m.Resembles True n) : n = { m with timers := n.timers } := by
  obtain ⟨timers, random, rfl, hrandom⟩ := h.exists_eq
  rw [hrandom trivial]

theorem Resembles.symm {seeded : Prop} (h : m.Resembles seeded n) : n.Resembles seeded m where
  settings_eq := h.settings_eq.symm
  registers_eq := h.registers_eq.symm
  memory_eq := h.memory_eq.symm
  screen_eq := h.screen_eq.symm
  random_eq := fun hseeded => (h.random_eq hseeded).symm

variable [Devices δ]

/-- An action that is no tick makes the same of machines that differ in their timers, unless it
reads the delay timer. -/
theorem Resembles.act (h : m.Resembles True n) (d : δ) {action : Action}
    (htick : action.isTick = false)
    (hread : action = .step → ∀ x, m.upcoming? ≠ some (.readDelay x)) :
    (m.act d action).Resembles True (n.act d action) := by
  cases action with
  | tickDelay | tickSound => cases htick
  | load program =>
    by_cases hle : program.length ≤ programCapacity
    · simp only [Machine.act, load_of_le _ hle, loadEvents, h.screen_eq]
      exact ⟨h.loaded program, rfl, rfl, rfl⟩
    · rw [act_load_of_lt m d (Nat.not_le.1 hle), act_load_of_lt n d (Nat.not_le.1 hle)]
      exact ⟨h, rfl, rfl, rfl⟩
  | step =>
    refine h.step (fun i hi => ?_) d
    cases i with
    | readDelay x => exact absurd hi (hread rfl x)
    | random x mask => exact .inl trivial
    | _ => trivial

/-- Ticks change the timers and nothing else. -/
theorem Resembles.after_ticks (h : m.Resembles True n) (d : δ) (ticks : List Action)
    (hticks : ∀ action ∈ ticks, action.isTick = true) :
    Moment.work (m.history d ticks) = [] ∧ (m.after d ticks).1.Resembles True n ∧
      (m.after d ticks).2 = d := by
  induction ticks generalizing m with
  | nil => exact ⟨rfl, h, rfl⟩
  | cons action ticks ih =>
    obtain ⟨hfirst, hrest⟩ := List.forall_mem_cons.1 hticks
    cases action with
    | load program => cases hfirst
    | step => cases hfirst
    | tickDelay => exact ih (h.withTimers m.timers.tickDelay) hrest
    | tickSound => exact ih (h.withTimers m.timers.tickSound) hrest

/-- The same action at machines that differ in their timers. -/
theorem Resembles.differsInTimers (h : m.Resembles True n) (d : δ) {action : Action}
    (hact : (m.act d action).Resembles True (n.act d action)) :
    (Moment.mk m d action).DiffersInTimers (Moment.mk n d action) where
  action_eq := rfl
  machine_eq := h.eq_with_timers
  devices_eq := rfl
  upcoming?_eq := h.upcoming?_eq.symm
  result_eq := hact.result_eq.symm
  events_eq := hact.events_eq.symm
  machine_outcome_eq := hact.machine.eq_with_timers
  devices_outcome_eq := hact.devices_eq.symm

/-- Two courses of actions that differ in their ticks, from machines that differ in their timers. -/
theorem Resembles.schedules (h : m.Resembles True n) (d : δ) {work first second : List Action}
    (hfirst : Action.work first = work) (hsecond : Action.work second = work)
    (hdelay : m.IgnoresDelay d first) :
    List.Forall₂ Moment.DiffersInTimers (Moment.work (m.history d first))
        (Moment.work (n.history d second)) ∧
      (m.after d first).1.Resembles True (n.after d second).1 ∧
      (m.after d first).2 = (n.after d second).2 := by
  -- The induction is on what the two courses have in common; before each action of it, either has
  -- its own ticks.
  induction work generalizing m n d first second with
  | nil =>
    obtain ⟨hnone, hafter, hdevices⟩ := h.after_ticks d first (by simpa [Action.work] using hfirst)
    obtain ⟨hnone', hafter', hdevices'⟩ :=
      hafter.symm.after_ticks d second (by simpa [Action.work] using hsecond)
    rw [hnone, hnone', hdevices, hdevices']
    exact ⟨.nil, hafter'.symm, rfl⟩
  | cons action work ih =>
    obtain ⟨ticks, rest, rfl, hticks, htick, hrest⟩ := List.filter_eq_cons_iff.1 hfirst
    obtain ⟨ticks', rest', rfl, hticks', -, hrest'⟩ := List.filter_eq_cons_iff.1 hsecond
    obtain ⟨hnone, hafter, hdevices⟩ := h.after_ticks d ticks (by simpa using hticks)
    obtain ⟨hnone', hafter', hdevices'⟩ :=
      hafter.symm.after_ticks d ticks' (by simpa using hticks')
    have hwork : action.isTick = false := by simpa using htick
    rw [IgnoresDelay, history_append, hdevices] at hdelay
    obtain ⟨hread, hlater⟩ :=
      List.forall_mem_cons.1 fun t ht => hdelay t (List.mem_append_right _ ht)
    have hact := hafter'.symm.act d hwork hread
    obtain ⟨hall, hfinal, hdevices''⟩ := ih hact.machine _ hrest hrest' hlater
    rw [history_append, history_append, after_append, after_append, Moment.work_append,
      Moment.work_append, hnone, hnone', hdevices, hdevices']
    have hhistory (m : Machine) (rest : List Action) : Moment.work (m.history d (action :: rest)) =
        ⟨m, d, action⟩ ::
          Moment.work ((m.act d action).machine.history (m.act d action).devices rest) :=
      List.filter_cons_of_pos htick
    rw [hhistory, hhistory, Machine.after, Machine.after, ← hact.devices_eq]
    exact ⟨.cons (hafter'.symm.differsInTimers d hact) hall, hfinal, hdevices''⟩

end Machine

/-! ## Values that were stored -/

namespace Moment

/-- What is stored in a timer does not depend on the timers. -/
theorem DiffersInTimers.stored?_eq [Devices δ] {s t : Moment δ} (h : s.DiffersInTimers t)
    (c : Counter) : t.stored? c = s.stored? c := by
  have hregisters : t.machine.registers = s.machine.registers := by rw [h.machine_eq]
  unfold stored?
  rw [h.action_eq, h.upcoming?_eq, hregisters]

/-- The value that was stored in a timer last does not depend on the ticks. -/
theorem lastStored_work (c : Counter) (initial : UInt8) (history : List (Moment δ)) :
    lastStored c initial (work history) = lastStored c initial history := by
  unfold lastStored
  rw [← List.getLast?_filterMap, ← List.getLast?_filterMap, work, List.filterMap_filter]
  congr 3
  funext t
  rcases t with ⟨m, d, action⟩
  cases action <;> rfl

variable [Devices δ]

theorem lastStored_eq_of_forall₂ (c : Counter) (initial : UInt8)
    {history history' : List (Moment δ)} (h : List.Forall₂ DiffersInTimers history history') :
    lastStored c initial history = lastStored c initial history' := by
  unfold lastStored
  rw [← List.getLast?_filterMap, ← List.getLast?_filterMap]
  congr 2
  induction h with
  | nil => rfl
  | cons hfirst _ ih => rw [List.filterMap_cons, List.filterMap_cons, ih, hfirst.stored?_eq]

theorem lastStored_eq_of_work (c : Counter) (initial : UInt8) {history history' : List (Moment δ)}
    (h : List.Forall₂ DiffersInTimers (work history) (work history')) :
    lastStored c initial history = lastStored c initial history' := by
  rw [← lastStored_work, lastStored_eq_of_forall₂ c initial h, lastStored_work]

end Moment

variable [Devices δ]

/-- A part of a course that does not read the delay timer does not read it. -/
theorem Machine.IgnoresDelay.of_prefix {m : Machine} {d : δ} {before actions : List Action}
    (h : m.IgnoresDelay d actions) (hbefore : before <+: actions) : m.IgnoresDelay d before := by
  obtain ⟨later, rfl⟩ := hbefore
  rw [IgnoresDelay, history_append] at h
  exact fun t ht => h t (List.mem_append_left _ ht)

/-- Two courses of actions from one machine that differ in nothing but their ticks, of which one
does not read the delay timer, do the same action by action: they execute the same instructions on
the same devices, with the same results, and show the same to the outside, and the machines differ
in their timers at most.  After any parts of the two courses that differ in nothing but their ticks,
a timer is the same in both if it has ticked as often in one as in the other since a value was
stored in it, and so from a store on until its next tick. -/
theorem ticks_unseen (m : Machine) (d : δ) {first second : List Action}
    (hwork : Action.work first = Action.work second) (hdelay : m.IgnoresDelay d first) :
    List.Forall₂ Moment.DiffersInTimers (Moment.work (m.history d first))
        (Moment.work (m.history d second)) ∧
      (m.after d second).1 = { (m.after d first).1 with timers := (m.after d second).1.timers } ∧
      (m.after d second).2 = (m.after d first).2 ∧
      ∀ before before' : List Action, before <+: first → before' <+: second →
        Action.work before = Action.work before' → ∀ c : Counter,
          Moment.ticksSince c (m.history d before) = Moment.ticksSince c (m.history d before') →
            c.read (m.after d before).1.timers = c.read (m.after d before').1.timers := by
  have hself : m.Resembles True m := ⟨rfl, rfl, rfl, rfl, fun _ => rfl⟩
  obtain ⟨hall, hfinal, hdevices⟩ := hself.schedules d rfl hwork.symm hdelay
  refine ⟨hall, hfinal.eq_with_timers, hdevices.symm, ?_⟩
  intro before before' hbefore hbefore' hsame c hticks
  have hparts := (hself.schedules d rfl hsame.symm (hdelay.of_prefix hbefore)).1
  rw [← UInt8.toNat_inj, Counter.read_after, Counter.read_after, hticks,
    Moment.lastStored_eq_of_work c _ hparts]

/-- A program sets the delay timer, which a tick has made differ, and it agrees again. -/
theorem ticks_unseen_set :
    ∃ m : Machine, m = { (Machine.fresh {} .zero).loaded [0x60, 0x05, 0xF0, 0x15] with
        timers := { delay := 9 } } ∧
      (m.after Headless.mk [.step, .tickDelay]).1.timers.delay ≠
        (m.after Headless.mk [.step]).1.timers.delay ∧
      (m.after Headless.mk [.step, .tickDelay, .step]).1.registers =
        (m.after Headless.mk [.step, .step]).1.registers ∧
      (m.after Headless.mk [.step, .tickDelay, .step]).1.timers.delay =
        (m.after Headless.mk [.step, .step]).1.timers.delay := by
  obtain ⟨m, hm⟩ : ∃ m : Machine, m =
      { (Machine.fresh {} .zero).loaded [0x60, 0x05, 0xF0, 0x15] with
      timers := { delay := 9 } } := ⟨_, rfl⟩
  have hpc : m.registers.pc.toNat = programStart := by
    rw [hm]
    exact Machine.toNat_pc_loaded (Machine.fresh {} .zero) [0x60, 0x05, 0xF0, 0x15]
  have hmemory : m.memory = Memory.initial.store programStart [0x60, 0x05, 0xF0, 0x15] := by
    rw [hm]
    rfl
  have hset : m.upcoming? = some (.setByte 0 5) :=
    Machine.upcoming?_of_program (k := 0) hmemory (by decide) hpc rfl rfl
  obtain ⟨n, hn⟩ : ∃ n, n = (m.step Headless.mk).machine := ⟨_, rfl⟩
  have hstep : n = (m.advanced.execute Headless.mk (.setByte 0 5)).machine := by
    rw [hn, Machine.machine_step_of_upcoming hset]
  -- Whatever its timers are, the machine goes on to set one of them.
  have hstore (timers : Timers) : ({ n with timers } : Machine).upcoming? = some (.setDelay 0) := by
    have hpc' : n.registers.pc.toNat = programStart + 2 := by
      rw [hstep]
      exact (Machine.toNat_pc_advanced hset).trans (by rw [hpc])
    have hsame : n.memory = m.memory := by
      rw [hstep]
      rfl
    exact Machine.upcoming?_of_program (hsame.trans hmemory) (by decide) hpc' rfl rfl
  have hstored (timers : Timers) (v : UInt8) (hv : v = n.registers.get 0) :
      (Moment.mk { n with timers } Headless.mk .step).stored? .delay = some v :=
    Moment.stored?_eq_some_iff.2 (.inr ⟨rfl, 0, hstore timers, hv⟩)
  have hticked : m.history Headless.mk [.step, .tickDelay, .step] =
      [⟨m, Headless.mk, .step⟩, ⟨n, Headless.mk, .tickDelay⟩] ++
        [⟨{ n with timers := n.timers.tickDelay }, Headless.mk, .step⟩] := by
    rw [hn]
    rfl
  have hplain : m.history Headless.mk [.step, .step] =
      [⟨m, Headless.mk, .step⟩] ++ [⟨n, Headless.mk, .step⟩] := by
    rw [hn]
    rfl
  have hdelay : m.IgnoresDelay Headless.mk [.step, .tickDelay, .step] := by
    unfold Machine.IgnoresDelay
    rw [hticked]
    simp [hset, hstore]
  have hwork : Action.work [.step, .tickDelay, .step] = Action.work [.step, .step] := rfl
  obtain ⟨-, hmachine, -, htimer⟩ := ticks_unseen m Headless.mk hwork hdelay
  refine ⟨m, hm, ?_, ?_, ?_⟩
  · have htimers : n.timers = { delay := 9 } := by rw [hstep, hm]; rfl
    show ((m.step Headless.mk).machine.timers.tickDelay).delay ≠
      (m.step Headless.mk).machine.timers.delay
    rw [← hn, htimers]
    decide
  · rw [hmachine]
  · refine htimer _ _ (List.prefix_refl _) (List.prefix_refl _) rfl .delay ?_
    rw [hticked, hplain, Moment.ticksSince_append_singleton, Moment.ticksSince_append_singleton,
      hstored _ _ rfl, hstored n.timers _ rfl]
    rfl

end ChipEight
