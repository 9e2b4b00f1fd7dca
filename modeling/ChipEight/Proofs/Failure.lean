import ChipEight.Proofs.Bounds

/-!
# Steps that fail

A step fails in the fetch or in the execution.  A fetch behind the end of memory changes nothing, so
that it fails again whenever it is tried.  An execution fails at a call on a full stack, at a return
on an empty one, at a window that reaches past the end of memory, or at a device that answers with a
fault; the program counter has then passed the instruction.  Only a drawing has done more by the
time it fails at the display: the sprite is on the screen, and the flag is set.

Main results:

- `Failure.of_fails`, `Failure.fails`: a step fails exactly in one of seven ways.
- `Machine.after_of_highest`: behind the end of memory nothing happens until a program is loaded.
- `step_fails_iff`: when a step of a reachable machine fails, with which fault, and what it leaves.
-/

namespace ChipEight

variable {δ : Type}

/-! ## Ways to fail -/

/-- The number of bytes in the window at the index register that an instruction reads or
replaces. -/
def Instruction.windowLength? : Instruction → Option Nat
  | .draw _ _ rows => some rows.toNat
  | .storeDigits _ => some 3
  | .save x | .restore x => some (x.toNat + 1)
  | _ => none

/-- The ways in which a step fails: with which fault, leaving which machine and which devices. -/
inductive Failure [Devices δ] (m : Machine) (d : δ) : Fault → Machine → δ → Prop where
  /-- The instruction does not lie in memory. -/
  | fetch (h : 0xFFE < m.registers.pc.toNat) :
    Failure m d (.addressOutOfRange (m.registers.pc.toNat + 1)) m d
  /-- A subroutine returns although none is running. -/
  | underflow (hi : m.upcoming? = some .ret) (h : m.registers.stack.pointer = -1) :
    Failure m d (.stackUnderflow (m.registers.pc + 2)) m.advanced d
  /-- A subroutine is called although the stack is full. -/
  | overflow {address : UInt16} (hi : m.upcoming? = some (.call address))
    (h : m.registers.stack.pointer = 15) :
    Failure m d (.stackOverflow (m.registers.pc + 2)) m.advanced d
  /-- A window reaches past the end of memory. -/
  | window {i : Instruction} {length : Nat} (hi : m.upcoming? = some i)
    (hlength : i.windowLength? = some length) (h : 0x1000 < m.registers.index.toNat + length) :
    Failure m d (.addressOutOfRange (m.registers.index.toNat + length - 1)) m.advanced d
  /-- The display does not take the frame with the sprite. -/
  | refused {x y rows : UInt8} {fault : Fault} {e : δ} (hi : m.upcoming? = some (.draw x y rows))
    (h : m.registers.index.toNat + rows.toNat ≤ 0x1000)
    (hd : Devices.draw (m.advanced.drawing x y rows).1 d = (.error fault, e)) :
    Failure m d fault (m.advanced.drawn x y rows) e
  /-- The keyboard cannot be polled. -/
  | pollFailed {x : UInt8} {fault : Fault} {e : δ}
    (hi : m.upcoming? = some (.skipPressed x) ∨ m.upcoming? = some (.skipNotPressed x))
    (hd : Devices.pollKey d = (.error fault, e)) :
    Failure m d fault m.advanced e
  /-- No key can be waited for. -/
  | awaitFailed {x : UInt8} {fault : Fault} {e : δ} (hi : m.upcoming? = some (.awaitKey x))
    (hd : Devices.awaitKey d = (.error fault, e)) :
    Failure m d fault m.advanced e

/-! ## Families of instructions -/

/-- A return fails exactly on an empty stack. -/
theorem Registers.ret_eq_error_iff {r : Registers} {fault : Fault} :
    r.ret = .error fault ↔ r.stack.pointer = -1 ∧ fault = .stackUnderflow r.pc := by
  have hpointer : r.stack.pointer = -1 ↔ r.stack.pop? = none := by
    rw [CallStack.pop?_eq_none_iff]
    unfold CallStack.pointer
    omega
  unfold ret
  rw [hpointer]
  cases r.stack.pop? with
  | none => exact ⟨fun h => ⟨rfl, (Except.error.inj h).symm⟩, fun h => congrArg _ h.2.symm⟩
  | some top => exact ⟨nofun, fun h => nomatch h.1⟩

/-- A call fails exactly on a full stack. -/
theorem Registers.call_eq_error_iff {r : Registers} (h : r.stack.depth ≤ stackCapacity)
    {address : UInt16} {fault : Fault} :
    r.call address = .error fault ↔ r.stack.pointer = 15 ∧ fault = .stackOverflow r.pc := by
  have hcapacity : stackCapacity = 16 := rfl
  have hpointer : r.stack.pointer = 15 ↔ r.stack.push? r.pc = none := by
    rw [CallStack.push?_eq_none_iff]
    unfold CallStack.pointer
    omega
  unfold call
  rw [hpointer]
  cases r.stack.push? r.pc with
  | none => exact ⟨fun h => ⟨rfl, (Except.error.inj h).symm⟩, fun h => congrArg _ h.2.symm⟩
  | some stack => exact ⟨nofun, fun h => nomatch h.1⟩

namespace Outcome

/-- An outcome is a fault that leaves the given machine and devices. -/
def Fails (o : Outcome δ) (fault : Fault) (after : Machine) (e : δ) : Prop :=
  o.result = .error fault ∧ o.machine = after ∧ o.devices = e

variable {m after : Machine} {d e : δ} {fault : Fault}

theorem not_fails_completed (flow : Flow) : ¬ (m.completed d flow).Fails fault after e :=
  fun h => nomatch h.1

theorem fails_stopped_iff {g : Fault} :
    (m.stopped d g).Fails fault after e ↔ fault = g ∧ after = m ∧ e = d := by
  constructor
  · rintro ⟨hresult, hmachine, hdevices⟩
    exact ⟨(Except.error.inj hresult).symm, hmachine.symm, hdevices.symm⟩
  · rintro ⟨rfl, rfl, rfl⟩
    exact ⟨rfl, rfl, rfl⟩

/-- A jump fails if its target cannot be found. -/
theorem fails_jumpTo_iff {target : Except Fault Registers} :
    (m.jumpTo d target).Fails fault after e ↔ target = .error fault ∧ after = m ∧ e = d := by
  cases target with
  | ok r => exact ⟨fun h => absurd h (not_fails_completed _), fun h => nomatch h.1⟩
  | error g =>
    refine fails_stopped_iff.trans (and_congr_left' ?_)
    exact ⟨fun h => congrArg Except.error h.symm, fun h => (Except.error.inj h).symm⟩

/-- A store fails if its window does not lie in memory. -/
theorem fails_overwrite_iff {address length : Nat} {byte : Nat → UInt8} :
    (m.writeMemory d (m.memory.overwrite address length byte)).Fails fault after e ↔
      ¬ Memory.Fits address length ∧ fault = Memory.outOfRange address length ∧
        after = m ∧ e = d := by
  unfold Memory.overwrite
  split
  · next h => exact ⟨fun hf => absurd hf (not_fails_completed _), fun hf => absurd h hf.1⟩
  · next h => exact fails_stopped_iff.trans ⟨fun hf => ⟨h, hf⟩, And.right⟩

/-- Stopping at the answer of a device is failing with that answer. -/
theorem fails_answer_iff {α : Type} {g : Fault} {e' : δ} :
    (m.stopped e' g).Fails fault after e ↔
      ((.error g, e') : Except Fault α × δ) = (.error fault, e) ∧ after = m := by
  refine fails_stopped_iff.trans ⟨?_, ?_⟩
  · rintro ⟨rfl, rfl, rfl⟩
    exact ⟨rfl, rfl⟩
  · rintro ⟨hanswer, rfl⟩
    cases hanswer
    exact ⟨rfl, rfl, rfl⟩

variable [Devices δ]

/-- Loading registers fails if their window does not lie in memory. -/
theorem fails_restore_iff {x : UInt8} :
    (m.execute d (.restore x)).Fails fault after e ↔
      ¬ Memory.Fits m.registers.index.toNat (x.toNat + 1) ∧
        fault = Memory.outOfRange m.registers.index.toNat (x.toNat + 1) ∧ after = m ∧ e = d := by
  unfold Machine.execute Memory.window
  by_cases h : Memory.Fits m.registers.index.toNat (x.toNat + 1)
  · simp only [if_pos h]
    exact ⟨fun hf => absurd hf (not_fails_completed _), fun hf => absurd h hf.1⟩
  · simp only [if_neg h]
    exact fails_stopped_iff.trans ⟨fun hf => ⟨h, hf⟩, And.right⟩

/-- A drawing fails if its sprite does not lie in memory, or if the display does not take the
frame. -/
theorem fails_draw_iff {x y rows : UInt8} :
    (m.draw d x y rows).Fails fault after e ↔
      (¬ Memory.Fits m.registers.index.toNat rows.toNat ∧
        fault = Memory.outOfRange m.registers.index.toNat rows.toNat ∧ after = m ∧ e = d) ∨
      (Memory.Fits m.registers.index.toNat rows.toNat ∧
        Devices.draw (m.drawing x y rows).1 d = (.error fault, e) ∧ after = m.drawn x y rows) := by
  rw [Machine.draw_eq]
  by_cases h : Memory.Fits m.registers.index.toNat rows.toNat
  · rw [if_pos h]
    rcases hd : Devices.draw (m.drawing x y rows).1 d with ⟨answer, e'⟩
    constructor
    · rintro ⟨hresult, hmachine, hdevices⟩
      refine .inr ⟨h, ?_, hmachine.symm⟩
      cases answer with
      | ok => nomatch hresult
      | error g =>
        have hfault : g = fault := Except.error.inj hresult
        have hdev : e' = e := hdevices
        rw [hfault, hdev]
    · rintro (⟨hout, -⟩ | ⟨-, hanswer, rfl⟩)
      · exact absurd h hout
      · cases hanswer
        exact ⟨rfl, rfl, rfl⟩
  · rw [if_neg h]
    refine fails_stopped_iff.trans ⟨fun hf => .inl ⟨h, hf⟩, ?_⟩
    rintro (hf | hf)
    · exact hf.2
    · exact absurd hf.1 h

theorem fails_skipOnKey_iff {x : UInt8} {wanted : Bool} :
    (m.skipOnKey d x wanted).Fails fault after e ↔
      Devices.pollKey d = (.error fault, e) ∧ after = m := by
  unfold Machine.skipOnKey
  rcases Devices.pollKey d with ⟨answer, e'⟩
  cases answer with
  | ok key => exact ⟨fun hf => absurd hf (not_fails_completed _), fun hf => nomatch hf.1⟩
  | error g => exact fails_answer_iff

theorem fails_awaitKey_iff {x : UInt8} :
    (m.awaitKey d x).Fails fault after e ↔
      Devices.awaitKey d = (.error fault, e) ∧ after = m := by
  unfold Machine.awaitKey
  rcases Devices.awaitKey d with ⟨answer, e'⟩
  cases answer with
  | ok key => exact ⟨fun hf => absurd hf (not_fails_completed _), fun hf => nomatch hf.1⟩
  | error g => exact fails_answer_iff

end Outcome

/-! ## Windows -/

/-- The window of an instruction has 256 bytes at most. -/
theorem Instruction.windowLength_le {i : Instruction} {length : Nat}
    (h : i.windowLength? = some length) : length ≤ 0x100 := by
  cases i with
  | draw x y rows =>
    have hrows := rows.toNat_lt
    cases h
    omega
  | storeDigits x =>
    cases h
    decide
  | save x | restore x =>
    have hx := x.toNat_lt
    cases h
    omega
  | _ => cases h

namespace Machine

variable {m : Machine} {i : Instruction} {length : Nat}

/-- The window of an upcoming instruction has a last address, unless it draws no rows at address
0. -/
theorem pos_of_upcoming (hdraws : ¬ m.DrawsNothing) (hi : m.upcoming? = some i)
    (hlength : i.windowLength? = some length) : 0 < m.registers.index.toNat + length := by
  cases i with
  | draw x y rows =>
    cases hlength
    exact pos_of_upcoming_draw hdraws hi
  | storeDigits x | save x | restore x =>
    cases hlength
    omega
  | _ => cases hlength

/-- The window of an upcoming instruction lies in memory exactly if it ends there. -/
theorem fits_iff_of_upcoming (hdraws : ¬ m.DrawsNothing) (hi : m.upcoming? = some i)
    (hlength : i.windowLength? = some length) :
    Memory.Fits m.registers.index.toNat length ↔ m.registers.index.toNat + length ≤ 0x1000 :=
  and_iff_right (pos_of_upcoming hdraws hi hlength)

/-- The fault for the window of an upcoming instruction names the last address of the window. -/
theorem outOfRange_of_upcoming (hdraws : ¬ m.DrawsNothing) (hi : m.upcoming? = some i)
    (hlength : i.windowLength? = some length) :
    Memory.outOfRange m.registers.index.toNat length =
      .addressOutOfRange (m.registers.index.toNat + length - 1) := by
  have hpos := pos_of_upcoming hdraws hi hlength
  have hle := Instruction.windowLength_le hlength
  have hindex := m.registers.index.toNat_lt
  have hlast : min (m.registers.index.toNat + length) Memory.addressLimit =
      m.registers.index.toNat + length - 1 + 1 := by
    simp only [Memory.addressLimit]
    omega
  simp only [Memory.outOfRange, hlast]

end Machine

/-! ## Steps -/

section

variable [Devices δ] {m after : Machine} {d e : δ} {fault : Fault}

/-- A step fails as the upcoming instruction does. -/
theorem Machine.fails_step_iff {i : Instruction} (hi : m.upcoming? = some i) :
    (m.step d).Fails fault after e ↔ (m.advanced.execute d i).Fails fault after e := by
  rw [step_of_upcoming hi]
  exact Iff.rfl

/-- A window that does not lie in memory is a way to fail. -/
theorem Failure.of_not_fits (hdraws : ¬ m.DrawsNothing) {i : Instruction} {length : Nat}
    (hi : m.upcoming? = some i) (hlength : i.windowLength? = some length)
    (hout : ¬ Memory.Fits m.registers.index.toNat length) :
    Failure m d (Memory.outOfRange m.registers.index.toNat length) m.advanced d := by
  rw [Machine.fits_iff_of_upcoming hdraws hi hlength, Nat.not_le] at hout
  rw [Machine.outOfRange_of_upcoming hdraws hi hlength]
  exact .window hi hlength hout

/-- A step that fails does so in one of the listed ways. -/
theorem Failure.of_fails (hstack : m.registers.stack.Bounded) (hdraws : ¬ m.DrawsNothing)
    (hf : (m.step d).Fails fault after e) : Failure m d fault after e := by
  cases hi : m.upcoming? with
  | none =>
    rw [Machine.step_of_upcoming_eq_none hi] at hf
    obtain ⟨rfl, rfl, rfl⟩ := Outcome.fails_stopped_iff.1 hf
    exact .fetch (Machine.upcoming?_eq_none_iff.1 hi)
  | some i =>
    -- Passing the instruction touches neither the stack nor the index register.
    have hadvanced : m.advanced.registers.stack.Bounded := hstack
    rw [Machine.fails_step_iff hi] at hf
    cases i with
    | ret =>
      obtain ⟨htarget, rfl, rfl⟩ := Outcome.fails_jumpTo_iff.1 hf
      obtain ⟨hempty, rfl⟩ := Registers.ret_eq_error_iff.1 htarget
      exact .underflow hi hempty
    | call address =>
      obtain ⟨htarget, rfl, rfl⟩ := Outcome.fails_jumpTo_iff.1 hf
      obtain ⟨hfull, rfl⟩ := (Registers.call_eq_error_iff hadvanced.depth_le).1 htarget
      exact .overflow hi hfull
    | jump address | jumpOffset address => exact absurd hf (Outcome.not_fails_completed _)
    | draw x y rows =>
      rcases Outcome.fails_draw_iff.1 hf with ⟨hout, rfl, rfl, rfl⟩ | ⟨hfits, hanswer, rfl⟩
      · exact .of_not_fits hdraws hi rfl hout
      · exact .refused hi ((Machine.fits_iff_of_upcoming hdraws hi rfl).1 hfits) hanswer
    | skipPressed x =>
      obtain ⟨hanswer, rfl⟩ := Outcome.fails_skipOnKey_iff.1 hf
      exact .pollFailed (.inl hi) hanswer
    | skipNotPressed x =>
      obtain ⟨hanswer, rfl⟩ := Outcome.fails_skipOnKey_iff.1 hf
      exact .pollFailed (.inr hi) hanswer
    | awaitKey x =>
      obtain ⟨hanswer, rfl⟩ := Outcome.fails_awaitKey_iff.1 hf
      exact .awaitFailed hi hanswer
    | storeDigits x | save x =>
      obtain ⟨hout, rfl, rfl, rfl⟩ := Outcome.fails_overwrite_iff.1 hf
      exact .of_not_fits hdraws hi rfl hout
    | restore x =>
      obtain ⟨hout, rfl, rfl, rfl⟩ := Outcome.fails_restore_iff.1 hf
      exact .of_not_fits hdraws hi rfl hout
    -- Every other instruction completes.
    | _ => exact nomatch hf.1

/-- In each of the listed ways a step fails. -/
theorem Failure.fails (hstack : m.registers.stack.Bounded) (hdraws : ¬ m.DrawsNothing)
    (hf : Failure m d fault after e) : (m.step d).Fails fault after e := by
  cases hf with
  | fetch h =>
    rw [Machine.step_of_upcoming_eq_none (Machine.upcoming?_eq_none_iff.2 h)]
    exact ⟨rfl, rfl, rfl⟩
  | underflow hi h =>
    rw [Machine.fails_step_iff hi]
    exact Outcome.fails_jumpTo_iff.2 ⟨Registers.ret_eq_error_iff.2 ⟨h, rfl⟩, rfl, rfl⟩
  | overflow hi h =>
    have hadvanced : m.advanced.registers.stack.Bounded := hstack
    rw [Machine.fails_step_iff hi]
    refine Outcome.fails_jumpTo_iff.2 ⟨?_, rfl, rfl⟩
    exact (Registers.call_eq_error_iff hadvanced.depth_le).2 ⟨h, rfl⟩
  | @window i length hi hlength h =>
    have hout : ¬ Memory.Fits m.registers.index.toNat length := by
      rw [Machine.fits_iff_of_upcoming hdraws hi hlength]
      exact Nat.not_le.2 h
    rw [Machine.fails_step_iff hi, ← Machine.outOfRange_of_upcoming hdraws hi hlength]
    cases i with
    | draw x y rows =>
      cases hlength
      exact Outcome.fails_draw_iff.2 (.inl ⟨hout, rfl, rfl, rfl⟩)
    | storeDigits x | save x =>
      cases hlength
      exact Outcome.fails_overwrite_iff.2 ⟨hout, rfl, rfl, rfl⟩
    | restore x =>
      cases hlength
      exact Outcome.fails_restore_iff.2 ⟨hout, rfl, rfl, rfl⟩
    | _ => cases hlength
  | refused hi h hd =>
    have hfits := (Machine.fits_iff_of_upcoming hdraws hi rfl).2 h
    rw [Machine.fails_step_iff hi]
    exact Outcome.fails_draw_iff.2 (.inr ⟨hfits, hd, rfl⟩)
  | pollFailed hi hd =>
    rcases hi with hi | hi
    · rw [Machine.fails_step_iff hi]
      exact Outcome.fails_skipOnKey_iff.2 ⟨hd, rfl⟩
    · rw [Machine.fails_step_iff hi]
      exact Outcome.fails_skipOnKey_iff.2 ⟨hd, rfl⟩
  | awaitFailed hi hd =>
    rw [Machine.fails_step_iff hi]
    exact Outcome.fails_awaitKey_iff.2 ⟨hd, rfl⟩

/-- A drawing leaves the same machine whether or not the display takes the frame. -/
theorem Machine.machine_step_of_upcoming_draw (hdraws : ¬ m.DrawsNothing) {x y rows : UInt8}
    (hi : m.upcoming? = some (.draw x y rows))
    (h : m.registers.index.toNat + rows.toNat ≤ 0x1000) (d : δ) :
    (m.step d).machine = m.advanced.drawn x y rows := by
  have hfits : Memory.Fits m.advanced.registers.index.toNat rows.toNat :=
    (fits_iff_of_upcoming hdraws hi rfl).2 h
  rw [machine_step_of_upcoming hi, execute, draw_eq, if_pos hfits]

/-- Of what an instruction shows while it is executed, nothing asks for a pause. -/
theorem Machine.pauses_execute (m : Machine) (d : δ) (i : Instruction) :
    Event.pauses (m.execute d i).events.toList = [] := by
  rw [events_execute]
  cases i with
  | draw x y rows =>
    show Event.pauses (if Memory.Fits m.registers.index.toNat rows.toNat then _ else _) = _
    split <;> rfl
  | _ => rfl

/-- A step that fails asks for no pause. -/
theorem Machine.pauses_step_of_error (h : (m.step d).result = .error fault) :
    Event.pauses (m.step d).events.toList = [] := by
  cases hi : m.upcoming? with
  | none =>
    rw [step_of_upcoming_eq_none hi]
    rfl
  | some i =>
    have hinside := pauses_execute m.advanced d i
    rw [result_step_of_upcoming hi] at h
    rw [step_of_upcoming hi]
    unfold Outcome.around Instruction.pacing
    rw [h]
    unfold Event.pauses at hinside ⊢
    simp only [Array.toList_append, List.filterMap_append, hinside]
    rfl

/-! ## Fetches that fail -/

/-- What becomes of timers over a course of actions that changes nothing else. -/
def Timers.over (t : Timers) (actions : List Action) : Timers :=
  actions.foldl (fun t action =>
    match action with
    | .tickDelay => t.tickDelay
    | .tickSound => t.tickSound
    | _ => t) t

/-- Behind the end of memory the timers count down and nothing else happens, until a program is
loaded. -/
theorem Machine.after_of_highest (h : 0xFFE < m.registers.pc.toNat) (d : δ) {actions : List Action}
    (hloads : ∀ program, Action.load program ∈ actions → programCapacity < program.length) :
    m.after d actions = ({ m with timers := m.timers.over actions }, d) := by
  -- A tick leaves another machine, so the induction is over all machines that are so far behind.
  induction actions generalizing m with
  | nil => rfl
  | cons action actions ih =>
    have hrest : ∀ program, Action.load program ∈ actions → programCapacity < program.length :=
      fun program hmem => hloads program (List.mem_cons_of_mem _ hmem)
    cases action with
    | load program =>
      have hrefused := act_load_of_lt m d (hloads program (List.mem_cons_self ..))
      show (m.act d (.load program)).machine.after (m.act d (.load program)).devices actions = _
      rw [hrefused]
      exact ih h hrest
    | step =>
      show (m.step d).machine.after (m.step d).devices actions = _
      rw [step_of_upcoming_eq_none (upcoming?_eq_none_iff.2 h)]
      exact ih h hrest
    | tickDelay => exact ih (m := { m with timers := m.timers.tickDelay }) h hrest
    | tickSound => exact ih (m := { m with timers := m.timers.tickSound }) h hrest

end

/-! ## Reachable machines -/

/-- A step of a reachable machine fails exactly in the listed ways, leaving exactly what they say.
If the program counter is behind the end of memory, every later step fails with the same fault,
until a program is loaded.  A drawing leaves the same machine whatever the display answers, and no
step that fails asks for a pause. -/
theorem step_fails_iff {settings : Settings} {m : Machine} (h : Reachable settings m)
    (hdraws : ¬ m.DrawsNothing) [Devices δ] (d : δ) :
    (∀ fault after e, (m.step d).Fails fault after e ↔ Failure m d fault after e) ∧
      (0xFFE < m.registers.pc.toNat → ∀ actions : List Action,
        (∀ program, Action.load program ∈ actions → programCapacity < program.length) →
          m.after d actions = ({ m with timers := m.timers.over actions }, d) ∧
            (m.after d actions).1.step d =
              (m.after d actions).1.stopped d
                (.addressOutOfRange (m.registers.pc.toNat + 1))) ∧
      (∀ x y rows, m.upcoming? = some (.draw x y rows) →
        m.registers.index.toNat + rows.toNat ≤ 0x1000 →
          ∀ {ε : Type} [Devices ε] (e : ε), (m.step e).machine = m.advanced.drawn x y rows) ∧
      ∀ fault, (m.step d).result = .error fault →
        Event.pauses (m.step d).events.toList = [] := by
  have hstack := h.sound.stack
  refine ⟨?_, ?_, ?_, ?_⟩
  · intro fault after e
    exact ⟨Failure.of_fails hstack hdraws, Failure.fails hstack hdraws⟩
  · intro hpc actions hloads
    have hafter := Machine.after_of_highest hpc d hloads
    refine ⟨hafter, ?_⟩
    have hlater : ({ m with timers := m.timers.over actions } : Machine).upcoming? = none :=
      Machine.upcoming?_eq_none_iff.2 hpc
    rw [hafter]
    exact Machine.step_of_upcoming_eq_none hlater d
  · intro x y rows hi hle ε _ e
    exact Machine.machine_step_of_upcoming_draw hdraws hi hle e
  · intro fault hfault
    exact Machine.pauses_step_of_error hfault

/-- A program that returns from no subroutine fails with an underflow and keeps everything but the
program counter. -/
theorem step_fails_iff_ret :
    ∃ m : Machine, Reachable {} m ∧ m.upcoming? = some .ret ∧
      (m.step Headless.mk).Fails (.stackUnderflow 0x202) m.advanced Headless.mk := by
  have hreach : Reachable {} ((Machine.fresh {} .zero).loaded [0x00, 0xEE]) :=
    .fresh_loaded (by decide) (by decide)
  have hret : ((Machine.fresh {} .zero).loaded [0x00, 0xEE]).upcoming? = some .ret :=
    Machine.upcoming?_loaded _ 0x00 0xEE []
  have hdraws : ¬ ((Machine.fresh {} .zero).loaded [0x00, 0xEE]).DrawsNothing := by
    rintro ⟨x, y, hdraw, -⟩
    rw [hret] at hdraw
    cases hdraw
  have hfails := (step_fails_iff hreach hdraws Headless.mk).1
  exact ⟨_, hreach, hret, (hfails _ _ _).2 (.underflow hret rfl)⟩

end ChipEight
