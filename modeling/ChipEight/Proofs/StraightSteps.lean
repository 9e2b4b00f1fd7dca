import ChipEight.Machine.Timed
import ChipEight.Proofs.RegisterFrame

/-!
# Steps that do not jump

A step that succeeds and does not jump moves the program counter forward by one instruction at
least, and no step succeeds without a word to fetch.  So the words between the program counter and
the end of memory are a bound on the steps that can follow each other without a jump, whatever
memory holds and whatever the devices answer.  The ticks of the timers make no difference to that.

Main results:

- `Machine.result_step_eq_jump_iff`: the flow of a step is a jump if one of the four jumping
  instructions succeeds.
- `Machine.wordsAhead_step_lt`: each step that goes straight on leaves fewer words ahead.
- `Machine.exists_not_goesStraight`, `Timed.run_stops_or_jumps`: more steps than there are words
  ahead do not all go straight on.
- `only_jumps_keep_running`: the bound for courses of steps and ticks, and for runs under a clock.
-/

namespace ChipEight

variable {δ : Type}

/-! ## One step -/

/-- The outcome is neither a fault nor a jump. -/
def Outcome.GoesStraight (o : Outcome δ) : Prop := ∃ flow, o.result = .ok flow ∧ flow ≠ .jump

theorem Outcome.not_goesStraight_iff {o : Outcome δ} :
    ¬ o.GoesStraight ↔ o.result.isOk = false ∨ o.result = .ok .jump := by
  unfold GoesStraight
  cases o.result with
  | error fault => exact iff_of_true (fun ⟨flow, h, _⟩ => nomatch h) (.inl rfl)
  | ok flow =>
    by_cases h : flow = .jump
    · subst h
      exact iff_of_true (fun ⟨_, hflow, hne⟩ => hne (Except.ok.inj hflow).symm) (.inr rfl)
    · exact iff_of_false (not_not.2 ⟨flow, rfl, h⟩) (by simpa [Except.isOk, Except.toBool] using h)

namespace Machine

/-- The number of words between the program counter and the end of memory. -/
def wordsAhead (m : Machine) : Nat := (memorySize - m.registers.pc.toNat) / 2

theorem wordsAhead_congr {m n : Machine} (h : n.registers = m.registers) :
    n.wordsAhead = m.wordsAhead := by
  rw [wordsAhead, h, wordsAhead]

variable [Devices δ]

/-- An instruction that does not jump has another flow, or fails. -/
theorem result_execute_ne_jump (m : Machine) (d : δ) {i : Instruction} (hjump : ¬ i.IsJump) :
    (m.execute d i).result ≠ .ok .jump := by
  cases i with
  | ret | call | jump | jumpOffset => exact absurd trivial hjump
  | draw x y rows =>
    simp only [execute, draw_eq]
    split
    · cases (Devices.draw (m.drawing x y rows).1 d).1 <;> simp [Except.map]
    · simp [stopped]
  | skipPressed | skipNotPressed =>
    simp only [execute, skipOnKey]
    split <;> simp [stopped, completed]
  | awaitKey =>
    simp only [execute, awaitKey]
    split <;> simp [stopped, completed]
  | storeDigits x =>
    simp only [execute]
    cases m.memory.overwrite m.registers.index.toNat 3 (decimalDigit (m.registers.get x)) <;>
      simp [writeMemory, stopped, completed]
  | save x =>
    simp only [execute]
    cases m.memory.overwrite m.registers.index.toNat (x.toNat + 1)
      fun i => m.registers.general[i]?.getD 0 <;> simp [writeMemory, stopped, completed]
  | restore =>
    simp only [execute]
    split <;> simp [stopped, completed]
  | _ => simp [execute, completed]

/-- A jump that succeeds has a flow of its own. -/
theorem result_execute_of_isJump (m : Machine) (d : δ) {i : Instruction} (hjump : i.IsJump)
    (hok : (m.execute d i).result.isOk = true) : (m.execute d i).result = .ok .jump := by
  cases i with
  | jump | jumpOffset => rfl
  | ret =>
    rw [execute_ret] at hok ⊢
    cases hpop : m.registers.stack.pop? with
    | none =>
      rw [hpop] at hok
      cases hok
    | some top => rfl
  | call address =>
    rw [execute_call] at hok ⊢
    cases hpush : m.registers.stack.push? m.registers.pc with
    | none =>
      rw [hpush] at hok
      cases hok
    | some stack => rfl
  | _ => exact False.elim hjump

/-- The flow of a step is a jump if one of the four instructions that jump succeeds, and only
then. -/
theorem result_step_eq_jump_iff (m : Machine) (d : δ) :
    (m.step d).result = .ok .jump ↔
      (m.step d).result.isOk = true ∧ ∃ i, m.upcoming? = some i ∧ i.IsJump := by
  cases hi : m.upcoming? with
  | none =>
    rw [step_of_upcoming_eq_none hi]
    simp [stopped]
  | some i =>
    rw [result_step_of_upcoming hi]
    constructor
    · intro hflow
      refine ⟨by rw [hflow]; rfl, i, rfl, ?_⟩
      by_contra hjump
      exact result_execute_ne_jump m.advanced d hjump hflow
    · rintro ⟨hok, j, hj, hjump⟩
      cases hj
      exact result_execute_of_isJump m.advanced d hjump hok

/-- A step that goes straight on finds a word and moves the program counter past it. -/
theorem pc_step_of_goesStraight {m : Machine} {d : δ} (h : (m.step d).GoesStraight) :
    m.registers.pc.toNat ≤ 0xFFE ∧
      m.registers.pc.toNat + 2 ≤ (m.step d).machine.registers.pc.toNat := by
  obtain ⟨flow, hflow, hne⟩ := h
  cases hi : m.upcoming? with
  | none =>
    rw [step_of_upcoming_eq_none hi] at hflow
    cases hflow
  | some i =>
    have hle := pc_le_of_upcoming hi
    have hadvanced := toNat_pc_advanced hi
    have hjump : ¬ i.IsJump := by
      intro hjump
      have hok : (m.step d).result.isOk = true := by
        rw [hflow]
        rfl
      have hflow' := (m.result_step_eq_jump_iff d).2 ⟨hok, i, hi, hjump⟩
      rw [hflow] at hflow'
      exact hne (Except.ok.inj hflow')
    refine ⟨hle, ?_⟩
    rw [machine_step_of_upcoming hi]
    rcases pc_execute m.advanced d i with hstay | hskip | ⟨address, hi', -⟩ | ⟨address, hi', -⟩ |
      ⟨address, stack, hi', -⟩
    · rw [hstay, hadvanced]
    · rw [hskip, UInt16.toNat_add, hadvanced]
      -- The program counter is far from where it would wrap around.
      have hmod : (m.registers.pc.toNat + 2 + UInt16.toNat 2) % 2 ^ 16 = m.registers.pc.toNat + 4 :=
        Nat.mod_eq_of_lt (by simp; omega)
      omega
    · rcases hi' with rfl | rfl <;> exact absurd trivial hjump
    · subst hi'
      exact absurd trivial hjump
    · subst hi'
      exact absurd trivial hjump

/-- Each step that goes straight on leaves fewer words ahead. -/
theorem wordsAhead_step_lt {m : Machine} {d : δ} (h : (m.step d).GoesStraight) :
    (m.step d).machine.wordsAhead < m.wordsAhead := by
  obtain ⟨hle, hforward⟩ := pc_step_of_goesStraight h
  simp only [wordsAhead, memorySize]
  omega

/-- An action that is no step and loads no program leaves the registers alone. -/
theorem registers_act_of_ne_step (m : Machine) (d : δ) {action : Action} (hstep : action ≠ .step)
    (hload : ¬ action.Loads) : (m.act d action).machine.registers = m.registers := by
  cases action with
  | load program =>
    rw [act_load_of_not_loads m d hload]
    rfl
  | step => exact absurd rfl hstep
  | tickDelay | tickSound => rfl

end Machine

/-! ## Courses of steps and ticks -/

/-- The steps of a history, without the ticks between them. -/
def Moment.steps (history : List (Moment δ)) : List (Moment δ) :=
  history.filter fun t => t.action = .step

namespace Machine

variable [Devices δ]

theorem steps_history_step (m : Machine) (d : δ) (actions : List Action) :
    Moment.steps (m.history d (.step :: actions)) =
      ⟨m, d, .step⟩ :: Moment.steps ((m.step d).machine.history (m.step d).devices actions) := by
  simp only [history, Moment.steps, List.filter_cons]
  rfl

theorem steps_history_of_ne_step (m : Machine) (d : δ) {action : Action} (h : action ≠ .step)
    (actions : List Action) :
    Moment.steps (m.history d (action :: actions)) =
      Moment.steps ((m.act d action).machine.history (m.act d action).devices actions) := by
  simp [history, Moment.steps, h]

/-- Of more steps than there are words ahead, one of the first ends in a fault or jumps. -/
theorem exists_not_goesStraight (m : Machine) (d : δ) {actions : List Action}
    (hloads : ∀ action ∈ actions, ¬ action.Loads) {n : Nat} (hn : m.wordsAhead < n)
    (hlength : n ≤ (Moment.steps (m.history d actions)).length) :
    ∃ t ∈ (Moment.steps (m.history d actions)).take n, ¬ t.outcome.GoesStraight := by
  induction actions generalizing m d n with
  | nil => exact absurd (Nat.lt_of_lt_of_le hn hlength) (Nat.not_lt_zero _)
  | cons action actions ih =>
    have hrest : ∀ action ∈ actions, ¬ action.Loads := fun a ha =>
      hloads a (List.mem_cons_of_mem action ha)
    by_cases haction : action = .step
    · subst haction
      rw [steps_history_step] at hlength ⊢
      obtain ⟨n, rfl⟩ : ∃ k, n = k + 1 := ⟨n - 1, by omega⟩
      rw [List.take_succ_cons]
      by_cases hstraight : (m.step d).GoesStraight
      · have hahead := wordsAhead_step_lt hstraight
        rw [List.length_cons] at hlength
        obtain ⟨t, ht, hbreaks⟩ := ih (m.step d).machine (m.step d).devices hrest
          (n := n) (by omega) (by omega)
        exact ⟨t, List.mem_cons_of_mem _ ht, hbreaks⟩
      · exact ⟨_, List.mem_cons_self .., hstraight⟩
    · rw [steps_history_of_ne_step m d haction] at hlength ⊢
      have hregisters :=
        registers_act_of_ne_step m d haction (hloads action (List.mem_cons_self ..))
      exact ih _ _ hrest (by rwa [wordsAhead_congr hregisters]) hlength

/-- The addresses at which the steps of a course begin, and the one at which the course ends. -/
def trail (m : Machine) (d : δ) (actions : List Action) : List Nat :=
  (Moment.steps (m.history d actions)).map (fun t => t.machine.registers.pc.toNat) ++
    [(m.after d actions).1.registers.pc.toNat]

/-- Steps that go straight on begin at higher and higher addresses. -/
theorem pairwise_trail (m : Machine) (d : δ) {actions : List Action}
    (hloads : ∀ action ∈ actions, ¬ action.Loads)
    (hstraight : ∀ t ∈ Moment.steps (m.history d actions), t.outcome.GoesStraight) :
    (m.trail d actions).Pairwise (· < ·) ∧ ∀ pc ∈ m.trail d actions, m.registers.pc.toNat ≤ pc := by
  induction actions generalizing m d with
  | nil => simp [trail, history, Moment.steps, after]
  | cons action actions ih =>
    have hrest : ∀ action ∈ actions, ¬ action.Loads := fun a ha =>
      hloads a (List.mem_cons_of_mem action ha)
    by_cases haction : action = .step
    · subst haction
      rw [steps_history_step] at hstraight
      have htrail : m.trail d (.step :: actions) =
          m.registers.pc.toNat :: (m.step d).machine.trail (m.step d).devices actions := by
        rw [trail, steps_history_step]
        rfl
      obtain ⟨hpairwise, hle⟩ := ih (m.step d).machine (m.step d).devices hrest fun t ht =>
        hstraight t (List.mem_cons_of_mem _ ht)
      have hforward : m.registers.pc.toNat + 2 ≤ (m.step d).machine.registers.pc.toNat :=
        (pc_step_of_goesStraight (hstraight _ (List.mem_cons_self ..))).2
      have hlater (pc : Nat) (hpc : pc ∈ (m.step d).machine.trail (m.step d).devices actions) :
          m.registers.pc.toNat < pc := by
        have := hle pc hpc
        omega
      rw [htrail]
      refine ⟨List.pairwise_cons.2 ⟨hlater, hpairwise⟩, ?_⟩
      intro pc hpc
      rcases List.mem_cons.1 hpc with rfl | hpc
      · exact Nat.le_refl _
      · exact Nat.le_of_lt (hlater pc hpc)
    · rw [steps_history_of_ne_step m d haction] at hstraight
      have hregisters :=
        registers_act_of_ne_step m d haction (hloads action (List.mem_cons_self ..))
      have htrail : m.trail d (action :: actions) =
          (m.act d action).machine.trail (m.act d action).devices actions := by
        rw [trail, steps_history_of_ne_step m d haction]
        rfl
      rw [htrail, ← hregisters]
      exact ih _ _ hrest hstraight

end Machine

/-! ## Runs under a clock -/

namespace Timed

variable [Devices δ]

/-- The time that passes after a step changes neither its result nor the registers. -/
theorem advance_keeps (t : Timed δ) (heldUp : Bool) :
    (t.advance heldUp).outcome.result = (t.outcome.machine.step t.outcome.devices).result ∧
      (t.advance heldUp).outcome.machine.registers =
        (t.outcome.machine.step t.outcome.devices).machine.registers := ⟨rfl, rfl⟩

theorem run_succ_of_isOk {t : Timed δ} (h : t.outcome.result.isOk = true) (heldUp : Bool)
    (n : Nat) : t.run heldUp (n + 1) = (t.advance heldUp).run heldUp n := by
  cases hresult : t.outcome.result with
  | ok flow => simp only [run, hresult]
  | error fault =>
    rw [hresult] at h
    cases h

theorem run_of_not_isOk {t : Timed δ} (h : t.outcome.result.isOk = false) (heldUp : Bool)
    (n : Nat) : t.run heldUp n = t := by
  cases n with
  | zero => rfl
  | succ n =>
    cases hresult : t.outcome.result with
    | ok flow =>
      rw [hresult] at h
      cases h
    | error fault => simp only [run, hresult]

/-- A run that is given more steps than there are words ahead ends in a fault, or one of its steps
jumps. -/
theorem run_stops_or_jumps (t : Timed δ) (heldUp : Bool) (hok : t.outcome.result.isOk = true)
    {n : Nat} (hn : t.outcome.machine.wordsAhead < n) :
    (t.run heldUp n).outcome.result.isOk = false ∨
      ∃ k < n, (∃ i, (t.run heldUp k).outcome.machine.upcoming? = some i ∧ i.IsJump) ∧
        (t.run heldUp (k + 1)).outcome.result = .ok .jump := by
  induction n generalizing t with
  | zero => exact absurd hn (Nat.not_lt_zero _)
  | succ n ih =>
    have hrun (k : Nat) : t.run heldUp (k + 1) = (t.advance heldUp).run heldUp k :=
      run_succ_of_isOk hok heldUp k
    obtain ⟨hresult, hregisters⟩ := t.advance_keeps heldUp
    by_cases hstraight : (t.outcome.machine.step t.outcome.devices).GoesStraight
    · have hnext : (t.advance heldUp).outcome.result.isOk = true := by
        obtain ⟨flow, hflow, -⟩ := hstraight
        rw [hresult, hflow]
        rfl
      have hahead := Machine.wordsAhead_step_lt hstraight
      rw [← Machine.wordsAhead_congr hregisters] at hahead
      rw [hrun]
      rcases ih (t.advance heldUp) hnext (by omega) with hfault | ⟨k, hk, hupcoming, hjump⟩
      · exact .inl hfault
      · exact .inr ⟨k + 1, Nat.succ_lt_succ hk, by rwa [hrun], by rwa [hrun]⟩
    · rcases Outcome.not_goesStraight_iff.1 hstraight with hfault | hjump
      · have hstops : (t.advance heldUp).outcome.result.isOk = false := by rw [hresult, hfault]
        exact .inl (by rw [hrun, run_of_not_isOk hstops, hstops])
      · refine .inr ⟨0, Nat.succ_pos n, ?_, ?_⟩
        · exact ((Machine.result_step_eq_jump_iff _ _).1 hjump).2
        · rw [hrun]
          exact hresult.trans hjump

end Timed

/-! ## Only jumps keep a program running -/

/-- From any machine, whatever its memory holds and whatever the devices answer: steps that succeed
without a jump, with ticks of the timers between them, are no more than the words ahead of the
program counter, and each of them begins at a higher address than the one before.  Of more steps
than that, one of the first ends in a fault or is a jump that succeeds.  So does a run under a clock
that is given more steps. -/
theorem only_jumps_keep_running [Devices δ] (m : Machine) (d : δ) (actions : List Action)
    (hloads : ∀ action ∈ actions, ¬ action.Loads) :
    let steps := Moment.steps (m.history d actions)
    let most := (0x1000 - m.registers.pc.toNat) / 2
    ((∀ t ∈ steps, ∃ flow, t.outcome.result = .ok flow ∧ flow ≠ .jump) →
        steps.length ≤ most ∧
          (steps.map (fun t => t.machine.registers.pc.toNat) ++
            [(m.after d actions).1.registers.pc.toNat]).Pairwise (· < ·)) ∧
      (most < steps.length → ∃ t ∈ steps.take (most + 1),
        t.outcome.result.isOk = false ∨
          t.outcome.result = .ok .jump ∧ ∃ i, t.machine.upcoming? = some i ∧ i.IsJump) ∧
      ∀ heldUp clock,
        let run := Timed.run ⟨m.completed d .next, clock⟩ heldUp
        (run (most + 1)).outcome.result.isOk = false ∨
          ∃ k ≤ most, (∃ i, (run k).outcome.machine.upcoming? = some i ∧ i.IsJump) ∧
            (run (k + 1)).outcome.result = .ok .jump := by
  intro steps most
  have hmore (hlt : most < steps.length) : ∃ t ∈ steps.take (most + 1), ¬ t.outcome.GoesStraight :=
    m.exists_not_goesStraight d hloads (Nat.lt_succ_self most) hlt
  refine ⟨?_, ?_, ?_⟩
  · intro hstraight
    refine ⟨?_, (m.pairwise_trail d hloads hstraight).1⟩
    by_contra hlt
    obtain ⟨t, ht, hbreaks⟩ := hmore (Nat.not_le.1 hlt)
    exact hbreaks (hstraight t (List.mem_of_mem_take ht))
  · intro hlt
    obtain ⟨t, ht, hbreaks⟩ := hmore hlt
    refine ⟨t, ht, (Outcome.not_goesStraight_iff.1 hbreaks).imp_right fun hjump => ⟨hjump, ?_⟩⟩
    have hstep : t.action = .step :=
      of_decide_eq_true (List.mem_filter.1 (List.mem_of_mem_take ht)).2
    rw [Moment.outcome, hstep] at hjump
    exact ((Machine.result_step_eq_jump_iff _ _).1 hjump).2
  · intro heldUp clock run
    rcases Timed.run_stops_or_jumps ⟨m.completed d .next, clock⟩ heldUp rfl
        (Nat.lt_succ_self most) with
      hfault | ⟨k, hk, hjump⟩
    · exact .inl hfault
    · exact .inr ⟨k, Nat.le_of_lt_succ hk, hjump⟩

/-- A program that jumps to the last word of memory, which stands for no instruction: one step goes
on from there, as many as there are words ahead, and of two steps one fails. -/
theorem only_jumps_keep_running_end :
    ∃ m : Machine, Reachable {} m ∧ m.registers.pc.toNat = 0xFFE ∧
      (m.step Headless.mk).result = .ok .next ∧
      ((m.after Headless.mk [.step, .tickDelay]).1.step Headless.mk).result.isOk = false := by
  obtain ⟨start, hstart⟩ : ∃ m, m = (Machine.fresh {} .zero).loaded [0x1F, 0xFE] := ⟨_, rfl⟩
  have hreach : Reachable {} start := hstart ▸ .fresh_loaded (by decide) (by decide)
  have hjump : start.upcoming? = some (.jump 0xFFE) :=
    hstart ▸ Machine.upcoming?_loaded _ 0x1F 0xFE []
  obtain ⟨m, hm⟩ : ∃ m, m = (start.step Headless.mk).machine := ⟨_, rfl⟩
  have hparts : m.registers.pc = 0xFFE ∧
      m.memory = Memory.initial.store programStart [0x1F, 0xFE] := by
    rw [hm, Machine.machine_step_of_upcoming hjump, hstart]
    exact ⟨rfl, rfl⟩
  have hpc : m.registers.pc.toNat = 0xFFE := by
    rw [hparts.1]
    rfl
  have hunknown : m.upcoming? = some (.unknown 0) := by
    rw [Machine.upcoming?_of_pc_le (by rw [hpc]), hpc, hparts.2, Memory.peek_loaded _ (by decide),
      Memory.peek_loaded _ (by decide)]
    rfl
  have hnext : (m.step Headless.mk).result = .ok .next := by
    rw [Machine.result_step_of_upcoming hunknown]
    rfl
  have hstep : (m.step Headless.mk).machine = m.advanced :=
    Machine.machine_step_of_upcoming hunknown _
  -- Behind the last word there is none to be fetched, ticks or not.
  have hnone :
      ({ m.advanced with timers := m.advanced.timers.tickDelay } : Machine).upcoming? = none := by
    have hbehind : m.advanced.registers.pc.toNat = 0x1000 := by
      rw [Machine.toNat_pc_advanced hunknown, hpc]
    exact Machine.upcoming?_eq_none_iff.2 (by rw [hbehind]; decide)
  have hsteps : Moment.steps (m.history Headless.mk [.step, .tickDelay, .step]) =
      [⟨m, Headless.mk, .step⟩,
        ⟨{ m.advanced with timers := m.advanced.timers.tickDelay }, Headless.mk, .step⟩] := by
    rw [Machine.steps_history_step, Machine.steps_history_of_ne_step _ _ (by decide), hstep]
    rfl
  have hquiet : ∀ action ∈ [Action.step, .tickDelay, .step], ¬ action.Loads := by
    intro action haction
    simp only [List.mem_cons, List.not_mem_nil, or_false] at haction
    rcases haction with rfl | rfl | rfl <;> exact id
  obtain ⟨-, hmany, -⟩ := only_jumps_keep_running m Headless.mk [.step, .tickDelay, .step] hquiet
  rw [hsteps, hpc] at hmany
  obtain ⟨t, ht, hends⟩ := hmany Nat.one_lt_two
  refine ⟨m, hm ▸ hreach.act Headless.mk .step, hpc, hnext, ?_⟩
  rcases List.mem_pair.1 ht with rfl | rfl
  · have hfirst : (m.step Headless.mk).result.isOk = false ∨
        (m.step Headless.mk).result = .ok .jump := hends.imp_right And.left
    rw [hnext] at hfirst
    rcases hfirst with hfault | hjump
    · cases hfault
    · cases hjump
  · rcases hends with hfault | ⟨-, i, hi, -⟩
    · simp only [Machine.after, Machine.act, hstep]
      exact hfault
    · rw [hnone] at hi
      cases hi

end ChipEight
