import ChipEight.Proofs.Assembly
import ChipEight.Proofs.Descriptions
import ChipEight.Proofs.Failure
import ChipEight.Proofs.Frames

/-!
# What a run shows

A step that finds its word in memory says so in the log before it does anything else, in a line that
tells the address and the instruction.  Then it hands over a frame if it draws a sprite, or reports
a word that stands for no instruction, and at the end it asks for a pause if it has succeeded.  A
step that finds no word shows nothing.

A run shows what its steps show, one after the other.  Its steps are those that were asked for, up
to the first that ends in a fault.

Main results:

- `Machine.events_step`, `Outcome.events_run`: what a step shows, and what a run shows.
- `Outcome.run_journal`: the frames that a run hands over, in order.
- `Outcome.run_eq_resume`: a run does not depend on what was shown before it.
- `run_shows_steps`: all that a run shows, how it ends, and that it may be interrupted.
-/

namespace ChipEight

variable {δ : Type}

/-! ## Moments -/

namespace Moment

/-- The word that memory holds at the program counter, the high byte first, if both bytes lie in
memory. -/
def word? (t : Moment δ) : Option UInt16 :=
  let pc := t.machine.registers.pc.toNat
  if pc ≤ 0xFFE then
    some ((t.machine.memory.peek pc).toUInt16 * 0x100 + (t.machine.memory.peek (pc + 1)).toUInt16)
  else none

theorem upcoming?_eq_map_word? (t : Moment δ) :
    t.machine.upcoming? = t.word?.map Instruction.ofWord := by
  unfold word?
  dsimp only
  split
  · next h => exact Machine.upcoming?_of_pc_le h
  · next h => exact Machine.upcoming?_eq_none_iff.2 (Nat.not_le.1 h)

/-- The time of the instruction at a moment, if its word can be fetched. -/
def micros? (t : Moment δ) : Option Nat := t.word?.map fun word => (Instruction.ofWord word).micros

theorem micros?_eq (t : Moment δ) : t.micros? = t.machine.upcoming?.map Instruction.micros := by
  rw [upcoming?_eq_map_word?, Option.map_map]
  rfl

variable [Devices δ]

/-- The action does not end in a fault. -/
def succeeds (t : Moment δ) : Bool := t.outcome.result.isOk

/-- What the step of a moment shows, in order. -/
def shown (t : Moment δ) : List Event :=
  match t.word? with
  | none => []
  | some word =>
    let i := Instruction.ofWord word
    let pc := t.machine.registers.pc
    [.executing pc i] ++ (if i = .unknown word then [.unknownWord word pc] else []) ++
      (t.frame?.toList.map fun frame => .offered frame.1) ++
      (if t.succeeds then [.paced i.micros] else [])

/-- The lines that the step of a moment leaves in the log. -/
def lines (t : Moment δ) : List LogLine :=
  match t.word? with
  | none => []
  | some word =>
    let i := Instruction.ofWord word
    let pc := Hex.padded 4 t.machine.registers.pc.toNat
    ⟨.trace, s!"{pc}: {i.describe}"⟩ ::
      if i = .unknown word then [⟨.warn, s!"unknown opcode {Hex.padded 4 word.toNat} at {pc}"⟩]
      else []

omit [Devices δ] in
/-- The first line of a step that finds its word tells the address and the instruction. -/
theorem head?_lines_eq_iff {t : Moment δ} {word : UInt16} (h : t.word? = some word) {pc : UInt16}
    {i : Instruction} :
    t.lines.head? = Event.logLine? (.executing pc i) ↔
      pc = t.machine.registers.pc ∧ i = .ofWord word := by
  have hhead : t.lines.head? =
      Event.logLine? (.executing t.machine.registers.pc (.ofWord word)) := by
    rw [lines, h]
    rfl
  rw [hhead, Event.logLine?_executing_inj, eq_comm, eq_comm (a := Instruction.ofWord word)]

theorem lines_shown (t : Moment δ) : Event.lines t.shown = t.lines := by
  unfold shown lines
  cases t.word? with
  | none => rfl
  | some word =>
    have hframe :
        (t.frame?.toList.map fun frame => Event.offered frame.1).filterMap Event.logLine? = [] := by
      cases t.frame? <;> rfl
    simp only [Event.lines, List.filterMap_append, hframe]
    cases t.succeeds <;> split <;> rfl

theorem pauses_shown (t : Moment δ) :
    Event.pauses t.shown = if t.succeeds then t.micros?.toList else [] := by
  unfold shown micros?
  cases t.word? with
  | none => simp [Event.pauses]
  | some word =>
    have hframe : Event.pauses (t.frame?.toList.map fun frame => .offered frame.1) = [] := by
      cases t.frame? <;> rfl
    unfold Event.pauses at hframe ⊢
    simp only [List.filterMap_append, hframe]
    cases t.succeeds <;> split <;> rfl

/-- A step that succeeds asks for one pause, of the time of its instruction, and one that fails for
none. -/
theorem map_some_pauses_shown {t : Moment δ} (ht : t.action = .step) :
    (Event.pauses t.shown).map some = if t.succeeds then [t.micros?] else [] := by
  rw [pauses_shown]
  cases hmicros : t.micros? with
  | some micros => split <;> rfl
  | none =>
    rw [micros?_eq, Option.map_eq_none_iff] at hmicros
    have hfails : t.succeeds = false := by
      rw [succeeds, outcome, ht, Machine.act, Machine.step_of_upcoming_eq_none hmicros]
      rfl
    simp [hfails]

theorem lines_flatMap_shown (history : List (Moment δ)) :
    Event.lines (history.flatMap shown) = history.flatMap lines := by
  simp only [Event.lines, List.filterMap_flatMap]
  exact List.flatMap_congr fun t _ => lines_shown t

/-- Steps ask for one pause for each of them that succeeds. -/
theorem map_some_pauses {history : List (Moment δ)} (h : ∀ t ∈ history, t.action = .step) :
    (Event.pauses (history.flatMap shown)).map some = (history.filter succeeds).map micros? := by
  induction history with
  | nil => rfl
  | cons t history ih =>
    have hrest := ih fun u hu => h u (List.mem_cons_of_mem t hu)
    have hfirst := map_some_pauses_shown (h t (List.mem_cons_self ..))
    unfold Event.pauses at hrest hfirst ⊢
    rw [List.flatMap_cons, List.filterMap_append, List.map_append, hrest, hfirst, List.filter_cons]
    split <;> rfl

/-- A step hands a frame over if it draws a sprite that lies in memory, and only then. -/
theorem isSome_frame?_iff {t : Moment δ} (ht : t.action = .step)
    (hdraws : ¬ t.machine.DrawsNothing) :
    t.frame?.isSome = true ↔
      ∃ x y rows, t.word?.map Instruction.ofWord = some (.draw x y rows) ∧
        t.machine.registers.index.toNat + rows.toNat ≤ 0x1000 := by
  obtain ⟨m, d, action⟩ := t
  cases ht
  rw [frame?, Option.isSome_map, isSome_stroke?_iff, Machine.request?_eq_draw_iff,
    ← upcoming?_eq_map_word?]
  refine exists_congr fun x => exists_congr fun y => exists_congr fun rows => ?_
  exact and_congr_right fun hi => Machine.fits_iff_of_upcoming hdraws hi rfl

end Moment

/-! ## Steps -/

namespace Machine

variable [Devices δ] {m : Machine}

/-- What an instruction shows between the line in the log and the pause. -/
theorem eventsOf_advanced {word : UInt16} (hi : m.upcoming? = some (.ofWord word)) (d : δ) :
    m.advanced.eventsOf (.ofWord word) =
      (if Instruction.ofWord word = .unknown word then [.unknownWord word m.registers.pc]
        else []) ++
        ((Moment.mk m d .step).frame?.toList.map fun frame => .offered frame.1) := by
  have hscreen : (m.step d).machine.screen = m.advanced.screenAfter (.ofWord word) := by
    rw [machine_step_of_upcoming hi, machine_execute]
  rw [frame?_of_upcoming hi, hscreen]
  cases hword : Instruction.ofWord word with
  | draw x y rows =>
    by_cases hfits : Memory.Fits m.registers.index.toNat rows.toNat
    · have hadvanced : Memory.Fits m.advanced.registers.index.toNat rows.toNat := hfits
      simp only [eventsOf, strokeOf?, screenAfter, if_pos hfits, if_pos hadvanced]
      rfl
    · have hadvanced : ¬ Memory.Fits m.advanced.registers.index.toNat rows.toNat := hfits
      simp only [eventsOf, strokeOf?, if_neg hfits, if_neg hadvanced]
      rfl
  | unknown other =>
    obtain rfl := Instruction.eq_of_ofWord_eq_unknown hword
    have hpc : m.advanced.registers.pc - 2 = m.registers.pc := UInt16.add_sub_cancel _ _
    simp [eventsOf, strokeOf?, hpc]
  | _ => simp [eventsOf, strokeOf?]

/-- What a step shows. -/
theorem events_step (m : Machine) (d : δ) :
    (m.step d).events.toList = (Moment.mk m d .step).shown := by
  have hupcoming := (Moment.mk m d .step).upcoming?_eq_map_word?
  cases hword : (Moment.mk m d .step).word? with
  | none =>
    rw [hword] at hupcoming
    rw [step_of_upcoming_eq_none hupcoming, Moment.shown, hword]
    rfl
  | some word =>
    rw [hword] at hupcoming
    have hi : m.upcoming? = some (.ofWord word) := hupcoming
    have hpacing : ((Instruction.ofWord word).pacing (m.step d).result).toList =
        if (Moment.mk m d .step).succeeds then [.paced (Instruction.ofWord word).micros]
        else [] := by
      show _ = if (m.step d).result.isOk then _ else _
      cases (m.step d).result <;> rfl
    simp only [Moment.shown, hword, ← hpacing]
    rw [step_of_upcoming hi]
    simp only [Outcome.around, Array.toList_append, events_execute, eventsOf_advanced hi d,
      List.append_assoc]

end Machine

/-! ## Runs -/

namespace Outcome

variable [Devices δ]

omit [Devices δ] in
theorem isOk_of_result_eq_ok {o : Outcome δ} {flow : Flow} (h : o.result = .ok flow) :
    o.result.isOk = true := by
  rw [h]
  rfl

/-- A run shows what its steps show, one after the other. -/
theorem events_run (o : Outcome δ) (n : Nat) :
    (o.run n).events.toList = o.events.toList ++ (o.moments n).flatMap Moment.shown := by
  fun_induction Outcome.run o n with
  | case1 o => simp [moments]
  | case2 o n flow h ih =>
    have hadvance : o.advance.events.toList =
        o.events.toList ++ (Moment.mk o.machine o.devices .step).shown := by
      simp [advance, Machine.events_step]
    simp only [ih, hadvance, moments, h, List.flatMap_cons, List.append_assoc]
  | case3 o n fault h => simp [moments, h]

/-- The moments of a run are those of as many steps, which lead to where the run ends. -/
theorem history_run (o : Outcome δ) (n : Nat) :
    o.moments n = o.machine.history o.devices (List.replicate (o.moments n).length .step) ∧
      ((o.run n).machine, (o.run n).devices) =
        o.machine.after o.devices (List.replicate (o.moments n).length .step) := by
  fun_induction Outcome.run o n with
  | case1 o => exact ⟨rfl, rfl⟩
  | case2 o n flow h ih =>
    have hok := isOk_of_result_eq_ok h
    rw [moments_succ_of_isOk hok, List.length_cons, List.replicate_succ]
    exact ⟨congrArg _ ih.1, ih.2⟩
  | case3 o n fault h =>
    rw [moments_of_error h]
    exact ⟨rfl, rfl⟩

/-- A run has no more moments than it was given steps, and fewer only if it ends in a fault. -/
theorem length_moments (o : Outcome δ) (n : Nat) :
    (o.moments n).length ≤ n ∧ ((o.moments n).length < n → (o.run n).result.isOk = false) := by
  fun_induction Outcome.run o n with
  | case1 o => simp [moments]
  | case2 o n flow h ih => simpa [moments, h] using ih
  | case3 o n fault h => simp [moments, h, Except.isOk, Except.toBool]

/-- No moment of a run but the last ends in a fault. -/
theorem succeeds_of_mem_dropLast (o : Outcome δ) (n : Nat) {t : Moment δ}
    (ht : t ∈ (o.moments n).dropLast) : t.succeeds = true := by
  fun_induction Outcome.run o n with
  | case1 o => simp [moments] at ht
  | case2 o n flow h ih =>
    simp only [moments, h] at ht
    cases hrest : o.advance.moments n with
    | nil => simp [hrest] at ht
    | cons next rest =>
      rw [hrest, List.dropLast_cons_cons, List.mem_cons, ← hrest] at ht
      rcases ht with rfl | hlater
      · show o.advance.result.isOk = true
        cases hnext : o.advance.result with
        | ok => rfl
        | error fault => simp [moments_of_error hnext] at hrest
      · exact ih hlater
  | case3 o n fault h => simp [moments, h] at ht

/-- A run ends as its last moment does. -/
theorem result_run (o : Outcome δ) (n : Nat) :
    (o.run n).result = ((o.moments n).getLast?.map fun t => t.outcome.result).getD o.result := by
  fun_induction Outcome.run o n with
  | case1 o => simp [moments]
  | case2 o n flow h ih =>
    rw [ih]
    simp only [moments, h, List.getLast?_cons]
    cases (o.advance.moments n).getLast? <;> rfl
  | case3 o n fault h => simp [moments, h]

/-- A step notes its frame in a journal. -/
theorem advance_noting (o : Outcome δ) (frames : List (Screen × Bool)) :
    (o.noting frames).advance =
      o.advance.noting (frames ++ (Moment.mk o.machine o.devices .step).frame?.toList) := by
  have hstep : o.machine.step (Journal.mk o.devices frames) = _ :=
    Machine.act_journal o.machine ⟨o.devices, frames⟩ .step
  simp only [advance, noting, hstep]
  rfl

/-- Over a run a journal changes nothing, and notes the frames that are handed over. -/
theorem run_journal (o : Outcome δ) (frames : List (Screen × Bool)) (n : Nat) :
    (o.noting frames).run n =
      (o.run n).noting (frames ++ (o.moments n).filterMap Moment.frame?) := by
  fun_induction Outcome.run o n generalizing frames with
  | case1 o => simp [run, moments]
  | case2 o n flow h ih =>
    have hok := isOk_of_result_eq_ok h
    have hnoting : (o.noting frames).result.isOk = true := hok
    rw [run_succ_of_isOk hnoting, advance_noting, ih, moments_succ_of_isOk hok, List.append_assoc]
    cases hframe : (Moment.mk o.machine o.devices .step).frame? <;> simp [hframe]
  | case3 o n fault h =>
    have hnoting : (o.noting frames).result = .error fault := h
    rw [run_of_error hnoting, moments_of_error h]
    simp

/-- The outcome with further events before its own. -/
def showing (o : Outcome δ) (events : Array Event) : Outcome δ :=
  { o with events := events ++ o.events }

/-- What was shown before a run makes no difference to it. -/
theorem run_showing (o : Outcome δ) (events : Array Event) (n : Nat) :
    (o.showing events).run n = (o.run n).showing events := by
  fun_induction Outcome.run o n with
  | case1 o => rfl
  | case2 o n flow h ih =>
    have hok : (o.showing events).result.isOk = true := isOk_of_result_eq_ok h
    have hadvance : (o.showing events).advance = o.advance.showing events := by
      simp [advance, showing, Array.append_assoc]
    rw [run_succ_of_isOk hok, hadvance, ih]
  | case3 o n fault h =>
    have hfault : (o.showing events).result = .error fault := h
    exact run_of_error hfault _

/-- Goes on for a number of further steps in a run of its own, unless the machine has stopped with a
fault. -/
def resume (o : Outcome δ) (steps : Nat) : Outcome δ :=
  match o.result with
  | .ok _ => (o.machine.run o.devices steps).showing o.events
  | .error _ => o

/-- A run that goes on is as good as a further run of its own, except that a run of no steps has no
flow. -/
theorem run_eq_resume (o : Outcome δ) (n : Nat) :
    o.run n =
      { o.resume n with result := if n = 0 then o.result else (o.resume n).result } := by
  cases hresult : o.result with
  | error fault =>
    rw [run_of_error hresult]
    simp only [resume, hresult, ite_self]
    rw [← hresult]
  | ok flow =>
    have hok := isOk_of_result_eq_ok hresult
    simp only [resume, hresult]
    cases n with
    | zero => simp [run, Machine.run, showing, Machine.completed, ← hresult]
    | succ n =>
      have hadvance : o.advance =
          (o.machine.completed o.devices .next).advance.showing o.events := by
        simp [advance, showing, Machine.completed]
      rw [run_succ_of_isOk hok, hadvance, run_showing]
      rfl

/-- Every moment of a run is a step. -/
theorem action_of_mem_moments {o : Outcome δ} {n : Nat} {t : Moment δ} (ht : t ∈ o.moments n) :
    t.action = .step := by
  fun_induction Outcome.moments o n with
  | case1 => simp at ht
  | case2 o n flow h ih =>
    rcases List.mem_cons.1 ht with rfl | hlater
    · rfl
    · exact ih hlater
  | case3 => simp at ht

/-- The outcome shows what the moments of a history show. -/
structure Shows (o : Outcome δ) (history : List (Moment δ)) : Prop where
  /-- All that is shown, in order. -/
  events_eq : o.events.toList = history.flatMap Moment.shown
  /-- The lines of the log, in order. -/
  lines_eq : Event.lines o.events.toList = history.flatMap Moment.lines
  /-- The first line of each moment that finds its word tells the address and the instruction. -/
  traced : ∀ t ∈ history, ∀ word, t.word? = some word → ∀ pc i,
    t.lines.head? = Event.logLine? (.executing pc i) ↔
      pc = t.machine.registers.pc ∧ i = .ofWord word
  /-- One pause for each moment that succeeds, in order. -/
  pauses_eq : (Event.pauses o.events.toList).map some =
    (history.filter Moment.succeeds).map Moment.micros?

end Outcome

namespace Machine

variable [Devices δ]

/-- The moments of a run of at most the given number of steps. -/
def moments (m : Machine) (d : δ) (steps : Nat) : List (Moment δ) :=
  (m.completed d .next).moments steps

/-- The history is that of a run: one step after the other, none after a fault, and as many as were
asked for unless the last ends in a fault. -/
structure Takes (m : Machine) (d : δ) (steps : Nat) (history : List (Moment δ)) : Prop where
  /-- Each step goes on from where the one before it has led. -/
  history_eq : history = m.history d (List.replicate history.length .step)
  /-- There are no more steps than were asked for. -/
  length_le : history.length ≤ steps
  /-- Steps are only missing behind a fault. -/
  stopped : history.length < steps → ∃ t, history.getLast? = some t ∧ t.succeeds = false
  /-- No step follows a fault. -/
  succeeds : ∀ t ∈ history.dropLast, t.succeeds = true

theorem takes_moments (m : Machine) (d : δ) (n : Nat) : m.Takes d n (m.moments d n) where
  history_eq := (Outcome.history_run (m.completed d .next) n).1
  length_le := (Outcome.length_moments (m.completed d .next) n).1
  stopped := by
    intro hlt
    have hfault := (Outcome.length_moments (m.completed d .next) n).2 hlt
    rw [Outcome.result_run] at hfault
    cases hlast : (m.moments d n).getLast? with
    | none =>
      rw [show ((m.completed d .next).moments n).getLast? = none from hlast] at hfault
      cases hfault
    | some t =>
      rw [show ((m.completed d .next).moments n).getLast? = some t from hlast] at hfault
      exact ⟨t, rfl, hfault⟩
  succeeds := fun _ ht => Outcome.succeeds_of_mem_dropLast (m.completed d .next) n ht

theorem shows_run (m : Machine) (d : δ) (n : Nat) : (m.run d n).Shows (m.moments d n) := by
  have hevents : (m.run d n).events.toList = (m.moments d n).flatMap Moment.shown :=
    Outcome.events_run (m.completed d .next) n
  have hsteps : ∀ t ∈ m.moments d n, t.action = .step := fun t ht =>
    Outcome.action_of_mem_moments ht
  constructor
  · exact hevents
  · rw [hevents, Moment.lines_flatMap_shown]
  · exact fun t _ word hword pc i => Moment.head?_lines_eq_iff hword
  · rw [hevents, Moment.map_some_pauses hsteps]

end Machine

/-! ## What a run shows -/

/-- A run takes its steps one after the other, up to the first that ends in a fault, and shows what
they show.  Each step that finds its word leaves a line in the log before anything else, which tells
the address and the instruction; a second line reports a word that stands for no instruction, at the
same address.  Each step that succeeds asks for one pause, of the time of its instruction.  One
frame is handed over for each drawing of a sprite that lies in memory, and nothing else is.

The run ends where its steps lead, and as the last of them does.  It may be interrupted after any
number of steps and go on as a run of its own. -/
theorem run_shows_steps [Devices δ] (m : Machine) (d : δ) (n : Nat)
    (hdraws : ∀ t ∈ m.moments d n, ¬ t.machine.DrawsNothing) :
    m.Takes d n (m.moments d n) ∧
      (m.run d n).Shows (m.moments d n) ∧
      m.run (Journal.mk d []) n = (m.run d n).noting ((m.moments d n).filterMap Moment.frame?) ∧
      (∀ t ∈ m.moments d n, (t.frame?.isSome = true ↔
        ∃ x y rows, t.word?.map Instruction.ofWord = some (.draw x y rows) ∧
          t.machine.registers.index.toNat + rows.toNat ≤ 0x1000)) ∧
      ((m.run d n).machine, (m.run d n).devices) =
        m.after d (List.replicate (m.moments d n).length .step) ∧
      (m.run d n).result =
        ((m.moments d n).getLast?.map fun t => t.outcome.result).getD (.ok .next) ∧
      ∀ a b, m.run d (a + b) =
        { (m.run d a).resume b with
          result := if b = 0 then (m.run d a).result else ((m.run d a).resume b).result } := by
  refine ⟨m.takes_moments d n, m.shows_run d n, ?_, ?_, ?_, ?_, ?_⟩
  · exact Outcome.run_journal (m.completed d .next) [] n
  · intro t ht
    exact Moment.isSome_frame?_iff (Outcome.action_of_mem_moments ht) (hdraws t ht)
  · exact (Outcome.history_run (m.completed d .next) n).2
  · exact Outcome.result_run (m.completed d .next) n
  · intro a b
    rw [Machine.run, Outcome.run_add]
    exact Outcome.run_eq_resume _ b

/-- A program that begins with an unknown word and then returns from no subroutine: the word is
reported at its own address, and only the step that succeeds asks for a pause. -/
theorem run_shows_steps_unknown :
    ∃ m : Machine, Reachable {} m ∧ (∀ t ∈ m.moments Headless.mk 3, ¬ t.machine.DrawsNothing) ∧
      (m.run Headless.mk 3).events.toList =
        [.executing 0x200 (.unknown 0x0123), .unknownWord 0x0123 0x200, .paced 200,
          .executing 0x202 .ret] ∧
      (m.run Headless.mk 3).result = .error (.stackUnderflow 0x204) := by
  obtain ⟨m, hm⟩ : ∃ m, m = (Machine.fresh {} .zero).loaded [0x01, 0x23, 0x00, 0xEE] := ⟨_, rfl⟩
  have hreach : Reachable {} m := hm ▸ .fresh_loaded (by decide) (by decide)
  have hregisters : m.registers = {} := by
    rw [hm]
    rfl
  have hmemory : m.advanced.memory =
      Memory.initial.store programStart [0x01, 0x23, 0x00, 0xEE] := by
    rw [hm]
    rfl
  have hunknown : m.upcoming? = some (.unknown 0x0123) :=
    hm ▸ Machine.upcoming?_loaded _ 0x01 0x23 [0x00, 0xEE]
  have hpc : m.advanced.registers.pc.toNat = programStart + 2 :=
    (Machine.toNat_pc_advanced hunknown).trans (by rw [hm, Machine.toNat_pc_loaded])
  have hret : m.advanced.upcoming? = some .ret :=
    Machine.upcoming?_of_program (k := 2) hmemory (by decide) hpc rfl rfl
  have hfirst : m.step Headless.mk =
      ⟨m.advanced, Headless.mk, .ok .next,
        #[.executing 0x200 (.unknown 0x0123), .unknownWord 0x0123 0x200, .paced 200]⟩ := by
    rw [Machine.step_of_upcoming hunknown]
    show Outcome.mk m.advanced _ _ #[Event.executing m.registers.pc _,
      Event.unknownWord _ (m.registers.pc + 2 - 2), Event.paced 200] = _
    rw [UInt16.add_sub_cancel, hregisters]
    rfl
  have hsecond : m.advanced.step Headless.mk =
      ⟨m.advanced.advanced, Headless.mk, .error (.stackUnderflow 0x204),
        #[.executing 0x202 .ret]⟩ := by
    have hempty : m.advanced.advanced.registers.ret = .error (.stackUnderflow 0x204) := by
      show m.registers.skip.skip.ret = _
      rw [hregisters]
      rfl
    have hplace : m.advanced.registers.pc = 0x202 := by
      show m.registers.skip.pc = _
      rw [hregisters]
      rfl
    rw [Machine.step_of_upcoming hret, hplace]
    show (m.advanced.advanced.jumpTo _ m.advanced.advanced.registers.ret).around _ _ = _
    rw [hempty]
    rfl
  have hmoments : m.moments Headless.mk 3 =
      [⟨m, Headless.mk, .step⟩, ⟨m.advanced, Headless.mk, .step⟩] := by
    have hone : (m.completed Headless.mk .next).advance =
        ⟨m.advanced, Headless.mk, .ok .next, (m.step Headless.mk).events⟩ := by
      simp [Outcome.advance, Machine.completed, hfirst]
    have htwo : (m.completed Headless.mk .next).advance.advance.result =
        .error (.stackUnderflow 0x204) := by
      rw [hone]
      simp [Outcome.advance, hsecond]
    unfold Machine.moments
    rw [Outcome.moments_succ_of_isOk rfl, Outcome.moments_succ_of_isOk (by rw [hone]; rfl),
      Outcome.moments_of_error htwo, hone]
    rfl
  have hdraws : ∀ t ∈ m.moments Headless.mk 3, ¬ t.machine.DrawsNothing := by
    rw [hmoments]
    rintro t ht ⟨x, y, hdraw, -⟩
    rcases List.mem_pair.1 ht with rfl | rfl
    · rw [hunknown] at hdraw
      cases hdraw
    · rw [hret] at hdraw
      cases hdraw
  obtain ⟨-, hshows, -, -, -, hresult, -⟩ := run_shows_steps m Headless.mk 3 hdraws
  refine ⟨m, hreach, hdraws, ?_, ?_⟩
  · rw [hshows.events_eq, hmoments, List.flatMap_cons, List.flatMap_cons, ← Machine.events_step,
      ← Machine.events_step, hfirst, hsecond]
    rfl
  · rw [hresult, hmoments]
    show (m.advanced.step Headless.mk).result = _
    rw [hsecond]

end ChipEight
