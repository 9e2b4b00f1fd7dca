import ChipEight.Proofs.Encounter
import ChipEight.Proofs.Frames

/-!
# Every schedule ends alike

All keys are pressed beforehand.  Then a machine takes steps, while an audience takes a number of
frames and goes away.  Unless the machine waits for a key that nobody has pressed while the audience
still wants frames, the encounter ends after so many moves, whoever moves when, and it ends as the
run does on devices that take the same number of frames and refuse every later one.  So does a
session, in which a call is one move.

Main results:

- `Session.reaches_moved`: a move of a session is some moves of an encounter.
- `Session.play_endsAs`: a session that is played for long enough ends as the run does.
- `schedules_end_alike`: every schedule, and the frames that are taken.
-/

namespace ChipEight

/-- A machine that is to take a number of steps, and an audience that is to take a number of frames,
over a link through which keys were pressed. -/
def Session.meeting (m : Machine) (steps frames capacity : Nat) (keys : List Key) : Session :=
  { machine := m
    link := ({ capacity } : Link).pressAll keys
    steps := some steps
    appetite := some frames }

/-- The start of a run on devices that take a number of frames. -/
def Machine.alone (m : Machine) (frames : Nat) (keys : List Key) : Outcome Recorder :=
  m.completed (.taking frames keys) .next

/-! ## Sessions as encounters -/

namespace Session

/-- Nobody types, and window and keyboard are held by the same party. -/
structure Untyped (s : Session) : Prop where
  typing_eq : s.typing = none
  keyboardHeld_eq : s.link.keyboardHeld = s.link.windowHeld

/-- Nobody lets go of anything in a step. -/
theorem held_takeStep (s : Session) :
    s.takeStep.link.windowHeld = s.link.windowHeld ∧
      s.takeStep.link.keyboardHeld = s.link.keyboardHeld := by
  have hwindow : s.link.windowHeld = true ↔
      s.link.shown.size < s.link.shown.size + s.link.windowHeld.toNat := by
    cases s.link.windowHeld <;> simp
  have halike := s.machine.step_mirror s.link (fun _ => hwindow) rfl
  exact ⟨halike.devices.windowHeld_eq, halike.devices.keyboardHeld_eq⟩

namespace Untyped

variable {s : Session}

theorem takeStep (h : s.Untyped) : s.takeStep.Untyped where
  typing_eq := h.typing_eq
  keyboardHeld_eq := by
    rw [s.held_takeStep.1, s.held_takeStep.2]
    exact h.keyboardHeld_eq

theorem leave_eq (h : s.Untyped) : s.leave = { s with link := s.link.hangUp } := by
  simp only [leave, h.typing_eq]

theorem moved (h : s.Untyped) (party : Party) : (s.moved party).Untyped := by
  cases party with
  | typist =>
    have htype : s.type = s := by simp only [type, h.typing_eq]
    rw [Session.moved, htype]
    exact h
  | audience =>
    rw [Session.moved]
    split
    · rw [h.leave_eq]
      exact ⟨h.typing_eq, rfl⟩
    · exact ⟨h.takeStep.typing_eq, h.takeStep.keyboardHeld_eq⟩
  | machine =>
    rw [Session.moved]
    split
    · exact ⟨h.typing_eq, h.keyboardHeld_eq⟩
    · exact h.takeStep

end Untyped

/-- A move of a session is some moves of an encounter in which nobody is left in the middle of a
call. -/
theorem reaches_moved {s : Session} (h : s.Untyped) {party : Party} (hmove : s.canMove party = true)
    {start : Encounter} {count : Nat} (hreaches : start.Reaches count ⟨s, false, false⟩) :
    ∃ more, count < more ∧ start.Reaches more ⟨s.moved party, false, false⟩ := by
  cases party with
  | typist => simp [canMove, h.typing_eq] at hmove
  | audience =>
    simp only [canMove, Bool.and_eq_true, Bool.or_eq_true, Bool.not_eq_true', beq_iff_eq] at hmove
    obtain ⟨hwindow, hready⟩ := hmove
    cases hleaving : s.isLeaving with
    | true =>
      have hkeyboard : s.link.keyboardHeld = true := h.keyboardHeld_eq.trans hwindow
      have hunseen := hreaches.step (.dropWindow hleaving hwindow)
      have hgone := hunseen.step (.dropKeyboard hleaving hkeyboard)
      have hmoved : s.moved .audience = { s with link := s.link.hangUp } := by
        rw [moved, if_pos hleaving, h.leave_eq]
      rw [hmoved]
      exact ⟨_, by omega, hgone⟩
    | false =>
      obtain ⟨hover, hrequest⟩ := hready.resolve_left (by rw [hleaving]; nofun)
      have hwanted : s.appetite.isSpent = false := by
        simp only [isLeaving, Bool.or_eq_false_iff] at hleaving
        exact hleaving.1
      have hcalled := hreaches.step (.call hover (by rw [hrequest]; rfl))
      have hasked := hcalled.step (.ask hwanted hwindow)
      have hhanded := hasked.step (.handOver hover hrequest hwindow)
      have hmoved : s.moved .audience = s.takeFrame := by
        rw [moved, hleaving]
        rfl
      rw [hmoved]
      exact ⟨_, by omega, hhanded⟩
  | machine =>
    cases hover : s.isOver with
    | true =>
      rw [canMove, if_pos hover] at hmove
      rw [moved, if_pos hover]
      exact ⟨_, by omega, hreaches.step (.finish hover hmove)⟩
    | false =>
      rw [canMove, hover] at hmove
      have hblocked : s.isBlocked = false := by simpa using hmove
      have hmoved : s.moved .machine = s.takeStep := by
        rw [moved, hover]
        rfl
      rw [hmoved]
      cases hrequest : s.machine.request? with
      | none => exact ⟨_, by omega, hreaches.step (.compute hover hrequest)⟩
      | some request =>
        have hcalled := hreaches.step (.call hover (by rw [hrequest]; rfl))
        exact ⟨_, by omega, hcalled.step (.answer hover hblocked)⟩

/-- A session that follows a sequence of parties passes through states of an encounter. -/
theorem reaches_follow {s : Session} (h : s.Untyped) {start : Encounter} {count : Nat}
    (hreaches : start.Reaches count ⟨s, false, false⟩) (parties : List Party) :
    (s.follow parties).Untyped ∧
      ∃ more, start.Reaches more ⟨s.follow parties, false, false⟩ := by
  induction parties generalizing s count with
  | nil => exact ⟨h, count, hreaches⟩
  | cons party parties ih =>
    rw [follow]
    split
    · next hmove =>
      obtain ⟨more, -, hmoved⟩ := reaches_moved h hmove hreaches
      exact ih (h.moved party) hmoved
    · exact ih h hreaches

/-- A session that is played either makes all its moves or comes to where no party can move. -/
theorem reaches_play {s : Session} (h : s.Untyped) {start : Encounter} {count : Nat}
    (hreaches : start.Reaches count ⟨s, false, false⟩) (moves : Nat) :
    (s.play moves).Untyped ∧
      ∃ more, start.Reaches more ⟨s.play moves, false, false⟩ ∧
        (count + moves ≤ more ∨ (s.play moves).mover? = none) := by
  induction moves generalizing s count with
  | zero => exact ⟨h, count, hreaches, .inl (Nat.le_refl _)⟩
  | succ moves ih =>
    cases hmover : s.mover? with
    | none =>
      simp only [play, hmover]
      exact ⟨h, count, hreaches, .inr trivial⟩
    | some party =>
      obtain ⟨more, hmore, hmoved⟩ := reaches_moved h (List.find?_some hmover) hreaches
      obtain ⟨huntyped, last, hlast, hend⟩ := ih (h.moved party) hmoved
      simp only [play, hmover]
      refine ⟨huntyped, last, hlast, ?_⟩
      rcases hend with hlong | hstill
      · exact .inl (by omega)
      · exact .inr hstill

/-- Where no party can move the parties are done. -/
theorem endsAs_of_still {s : Session} (h : s.Untyped) {frames left wanted : Nat}
    {o final : Outcome Recorder}
    (hcoherent : Encounter.Coherent ⟨s, false, false⟩ frames left wanted o final)
    (hstill : s.mover? = none) : s.EndsAs final := by
  have hnone (party : Party) : ¬ s.canMove party = true :=
    List.find?_eq_none.1 hstill party (by cases party <;> simp)
  have hmachine := hnone .machine
  have haudience := hnone .audience
  simp only [canMove, Bool.and_eq_true, Bool.or_eq_true, Bool.not_eq_true', beq_iff_eq] at haudience
  cases hover : s.isOver with
  | true =>
    rw [canMove, if_pos hover] at hmachine
    have hdevices : s.link.devicesHeld = false := Bool.eq_false_iff.2 hmachine
    have hleaving : s.isLeaving = true := hcoherent.isLeaving_iff.2 (.inr hdevices)
    have hwindow : s.link.windowHeld = false :=
      Bool.eq_false_iff.2 fun hheld => haudience ⟨hheld, .inl hleaving⟩
    exact hcoherent.endsAs hover hdevices hwindow (h.keyboardHeld_eq.trans hwindow)
  | false =>
    rw [canMove, hover] at hmachine
    have hblocked : s.isBlocked = true := by simpa using hmachine
    rcases isBlocked_eq_true hblocked with ⟨hrequest, hwindow⟩ | ⟨hrequest, hkeys, hkeyboard⟩
    · exact absurd ⟨hwindow, .inr ⟨hover, hrequest⟩⟩ haudience
    · have hzero := hcoherent.eq_zero_of_awaitKey hover hrequest hkeys
      have hleaving : s.isLeaving = true := hcoherent.isLeaving_iff.2 (.inl hzero)
      exact absurd ⟨h.keyboardHeld_eq.symm.trans hkeyboard, .inl hleaving⟩ haudience

/-! ## Meetings -/

section Meeting

variable {m : Machine} {steps frames capacity : Nat} {keys : List Key}

theorem link_meeting : (meeting m steps frames capacity keys).link =
    { capacity, keys := keys.take capacity } := by
  rw [meeting, Link.pressAll_eq rfl]
  simp

theorem untyped_meeting : (meeting m steps frames capacity keys).Untyped where
  typing_eq := rfl
  keyboardHeld_eq := by rw [link_meeting]

theorem coherent_meeting (hfed : (m.alone frames (keys.take capacity)).Fed frames steps) :
    Encounter.Coherent ⟨meeting m steps frames capacity keys, false, false⟩ frames steps frames
      (m.alone frames (keys.take capacity)) ((m.alone frames (keys.take capacity)).run steps) where
  keepsTo := {
    steps_eq := rfl
    machine_eq := rfl
    result_eq := rfl
    mirror_eq := by
      rw [link_meeting]
      rfl
    clock_eq := rfl
    run_eq := rfl
    fed := hfed }
  appetite_eq := rfl
  size_shown := by
    intro _
    rw [link_meeting]
    exact Nat.zero_add frames
  window := by
    rw [link_meeting]
    nofun
  keyboard := by
    rw [link_meeting]
    nofun
  devices := by
    rw [link_meeting]
    nofun
  asking := nofun
  calling := nofun

theorem weight_meeting :
    Encounter.weight ⟨meeting m steps frames capacity keys, false, false⟩ =
      2 * steps + 2 * frames + 5 := by
  rw [Encounter.weight, link_meeting]
  simp [meeting]
  omega

/-- A meeting that is played for long enough ends as the run does. -/
theorem play_endsAs (hfed : (m.alone frames (keys.take capacity)).Fed frames steps) {moves : Nat}
    (hmoves : 2 * steps + 2 * frames + 5 < moves) :
    ((meeting m steps frames capacity keys).play moves).EndsAs
      ((m.alone frames (keys.take capacity)).run steps) := by
  have hcoherent := coherent_meeting hfed
  obtain ⟨huntyped, count, hreaches, hend⟩ := reaches_play untyped_meeting .refl moves
  obtain ⟨left, wanted, o, hafter, hcount⟩ := hcoherent.reaches hreaches
  rw [weight_meeting] at hcount
  exact endsAs_of_still huntyped hafter (hend.resolve_left (by omega))

end Meeting

end Session

/-- However the moves interleave of a machine that is to take a number of steps and of an audience
that takes a number of frames and goes away, they come to an end, and to the same: the frames that
were taken, the flow or fault and the machine are those of the run alone, on devices that take that
number of frames and refuse every later one.  The same holds where a call is one move.  The frames
are the screens right after the first strokes of the run, and a stroke whose frame is refused ends
it, with sprite and flag left as after any other. -/
theorem schedules_end_alike {m : Machine} {steps frames capacity : Nat} {keys : List Key}
    {o : Outcome Recorder} (ho : o = m.alone frames (keys.take capacity))
    (hfed : o.Fed frames steps) :
    (∀ count e, (Encounter.mk (.meeting m steps frames capacity keys) false false).Reaches count e →
      count ≤ 2 * steps + 2 * frames + 5 ∧ (e.Stuck → e.session.EndsAs (o.run steps))) ∧
      (∀ parties, ((Session.meeting m steps frames capacity keys).follow parties).mover? = none →
        ((Session.meeting m steps frames capacity keys).follow parties).EndsAs (o.run steps)) ∧
      (o.run steps).devices.frames.toList = (Moment.pictures (o.moments steps)).take frames ∧
      (frames < (Moment.pictures (o.moments steps)).length →
        (Moment.pictures (o.moments steps)).length = frames + 1 ∧
          (o.run steps).result = .error .disconnected ∧
          ∃ t x y rows, (o.moments steps).getLast? = some t ∧
            t.machine.upcoming? = some (.draw x y rows) ∧
            (o.run steps).machine = t.machine.advanced.drawn x y rows) := by
  subst ho
  have hcoherent := Session.coherent_meeting hfed
  refine ⟨?_, ?_, ?_, ?_⟩
  · intro count e hreaches
    obtain ⟨left, wanted, o, hafter, hcount⟩ := hcoherent.reaches hreaches
    rw [Session.weight_meeting] at hcount
    exact ⟨by omega, hafter.endsAs_of_stuck⟩
  · intro parties hstill
    obtain ⟨huntyped, count, hreaches⟩ :=
      Session.reaches_follow Session.untyped_meeting .refl parties
    obtain ⟨left, wanted, o, hafter, -⟩ := hcoherent.reaches hreaches
    exact Session.endsAs_of_still huntyped hafter hstill
  · exact Outcome.frames_run (o := m.alone frames (keys.take capacity)) rfl steps
  · intro hmore
    have hnone : (m.alone frames (keys.take capacity)).devices.frames.size = 0 := rfl
    have hrefused := Outcome.refused_run (o := m.alone frames (keys.take capacity)) (n := steps)
      rfl (Nat.zero_le _) (by omega)
    rw [hnone, Nat.zero_add] at hrefused
    exact hrefused

/-- A program draws a frame and then waits for a key, of which there is none.  The audience gets its
frame and goes away, and the wait ends in a fault. -/
theorem schedules_end_alike_wait :
    ∃ m : Machine, m = (Machine.fresh {} .zero).loaded [0xD0, 0x01, 0xF0, 0x0A] ∧
      ∀ count e, (Encounter.mk (.meeting m 2 1 15 []) false false).Reaches count e → e.Stuck →
        count ≤ 11 ∧ e.session.result = .error .disconnected ∧ e.session.link.shown.size = 1 := by
  obtain ⟨m, hm⟩ : ∃ m, m = (Machine.fresh {} .zero).loaded [0xD0, 0x01, 0xF0, 0x0A] := ⟨_, rfl⟩
  obtain ⟨o, ho⟩ : ∃ o, o = m.alone 1 ([].take 15) := ⟨_, rfl⟩
  -- The first step draws, and its frame is taken.
  have hdraw : m.upcoming? = some (.draw 0 0 1) := by
    rw [hm]
    exact Machine.upcoming?_loaded _ 0xD0 0x01 [0xF0, 0x0A]
  have hfits : Memory.Fits m.registers.index.toNat (1 : UInt8).toNat := by
    rw [hm]
    exact ⟨by decide, by decide⟩
  have hmachine : o.advance.machine = m.advanced.drawn 0 0 1 := by
    rw [ho]
    exact (Machine.step_of_draw hdraw hfits _).1
  have hcalls : o.machine.request? = some .draw := by
    rw [ho]
    exact Machine.request?_eq_draw_iff.2 ⟨0, 0, 1, hdraw, hfits⟩
  have htaken : o.advance.devices =
      { o.devices with frames := o.devices.frames.push o.advance.machine.screen } ∧
        o.advance.result = .ok .draw := by
    rcases Outcome.advance_taking (o := o) (by rw [ho]; rfl) with
      ⟨hnone, -, -⟩ | ⟨-, -, htaken, hresult⟩ | ⟨-, hfull, -, -, -⟩
    · have hstroke := (Moment.isSome_stroke?_iff o.machine o.devices).2 hcalls
      rw [hnone] at hstroke
      cases hstroke
    · exact ⟨htaken, hresult⟩
    · rw [ho] at hfull
      exact absurd hfull (Nat.not_succ_le_zero 0)
  obtain ⟨hdevices, hresult⟩ := htaken
  have hkeys : o.advance.devices.keys = [] := by rw [hdevices, ho]; rfl
  have hsize : o.advance.devices.frames.size = 1 := by rw [hdevices, ho]; rfl
  -- The second step waits for a key.
  have hwait : o.advance.machine.upcoming? = some (.awaitKey 0) := by
    rw [hmachine]
    show m.advanced.upcoming? = _
    have hpc : m.advanced.registers.pc.toNat = 0x202 := by
      rw [hm]
      decide
    have hmemory : m.advanced.memory =
        Memory.initial.store programStart [0xD0, 0x01, 0xF0, 0x0A] := by
      rw [hm]
      rfl
    rw [Machine.upcoming?_of_pc_le (by rw [hpc]; decide), hpc, hmemory,
      Memory.peek_loaded _ (by decide), Memory.peek_loaded _ (by decide)]
    rfl
  have hanswer : Devices.awaitKey o.advance.devices =
      (.error .disconnected, o.advance.devices) := by
    have hexhausted : o.advance.devices.exhausted = .disconnected := by rw [hdevices, ho]; rfl
    simp only [Devices.awaitKey, hkeys, hexhausted]
  have hstop : o.advance.advance.result = .error .disconnected ∧
      o.advance.advance.devices.frames.size = 1 := by
    show (o.advance.machine.step o.advance.devices).result = _ ∧
      (o.advance.machine.step o.advance.devices).devices.frames.size = 1
    rw [Machine.step_of_upcoming hwait]
    simp only [Machine.execute, Machine.awaitKey, hanswer]
    exact ⟨rfl, hsize⟩
  have hone : o.run 1 = o.advance := Outcome.run_succ_of_isOk (by rw [ho]; rfl) 0
  have htwo : o.run 2 = o.advance.advance := by
    rw [Outcome.run_succ_of_isOk (by rw [ho]; rfl), Outcome.run_succ_of_isOk (by rw [hresult]; rfl)]
    rfl
  have hfed : o.Fed 1 2 := by
    intro k hk _ hrequest _
    rcases Nat.le_one_iff_eq_zero_or_eq_one.1 (Nat.le_of_lt_succ hk) with rfl | rfl
    · cases hcalls.symm.trans hrequest
    · rw [hone]
      exact Nat.le_of_eq hsize.symm
  refine ⟨m, hm, ?_⟩
  intro count e hreaches hstuck
  obtain ⟨hcount, hends⟩ := (schedules_end_alike ho hfed).1 count e hreaches
  have hend := hends hstuck
  rw [htwo] at hend
  refine ⟨hcount, hend.result_eq.trans hstop.1, ?_⟩
  rw [hend.shown_eq]
  exact hstop.2

end ChipEight
