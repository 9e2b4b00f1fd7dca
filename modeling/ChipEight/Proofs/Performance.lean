import ChipEight.Console.Performance
import ChipEight.Proofs.Encounter
import ChipEight.Proofs.Solo

/-!
# Performances

A program on the terminal is run by three parties at once, while the timers count down.  Whoever can
move may move next.

If the program is tame and no more keys are typed than the queue holds, then the machine does what
it does by itself, however the moves interleave: a key that is waited for comes or the player has
let go of the keyboard, and a frame that is handed over is taken.  Every move lowers a weight, so
that every performance comes to an end.

All this is under a logger that leaves nothing but errors, of which there are none in a performance.
Under another one a performance may come to a standstill: the machine has lines to log that it
cannot log before the audience goes away, and the audience does not go away before the machine has
gone.

Main results:

- `Session.Tracks.move`: every move of a session keeps to the run of the machine by itself, and
  there are only so many moves.
- `Performance.Tracks.reaches`, `Performance.Tracks.transcript?_of_stuck`: what is written in a
  performance.
- `Performance.reaches_play`: a performance that is played in a fixed order of preference is one of
  them.
-/

namespace ChipEight

/-! ## Sessions beside a run -/

namespace Session

/-- The machine of a session has come as far as a run of a machine by itself that ends in a fault.
The machines resemble each other, the keys to come are those in the queue and then those that are
yet to be pressed, and there is room for all of them.  Nobody lets go of anything too early. -/
structure Tracks (s : Session) (seeded : Prop) (typing : List Key) (left : Nat)
    (o final : Outcome Recorder) : Prop where
  steps_eq : s.steps = none
  appetite_eq : s.appetite = none
  typing_eq : s.typing = some typing
  machine : s.machine.Resembles seeded o.machine
  result_eq : s.result = o.result
  shown_eq : s.link.shown = o.devices.frames
  tape_eq : s.link.devicesHeld = true → s.link.tape typing = o.devices
  room : s.link.devicesHeld = true → s.link.keys.length + typing.length ≤ s.link.capacity
  keyboard : s.link.keyboardHeld = false → typing = []
  window : s.link.windowHeld = false → s.link.devicesHeld = false
  devices : s.link.devicesHeld = false → s.isOver = true
  run_eq : o.run left = final
  tame : o.Tame seeded left
  fault : final.result.isOk = false

/-- No fewer than the moves that are left. -/
def weight (s : Session) (typing : List Key) (left : Nat) : Nat :=
  2 * left + typing.length + s.link.keyboardHeld.toNat + s.link.devicesHeld.toNat +
    s.link.windowHeld.toNat

/-- A step of the session is a step of the machine on the link, after which the clock ticks the
timers. -/
theorem exists_takeStep_eq (s : Session) :
    ∃ ticks clock, s.takeStep =
      { s with
        machine := (s.machine.step s.link).machine.tick ticks
        link := (s.machine.step s.link).devices
        steps := s.steps.spend
        result := (s.machine.step s.link).result
        events := (s.machine.step s.link).events
        clock } :=
  ⟨_, _, rfl⟩

namespace Tracks

variable {s : Session} {seeded : Prop} {typing : List Key} {left : Nat} {o final : Outcome Recorder}

theorem isOver_eq (h : s.Tracks seeded typing left o final) : s.isOver = !o.result.isOk := by
  rw [isOver, h.steps_eq, h.result_eq]
  cases o.result <;> rfl

/-- A session that is over has come to the end of the run. -/
theorem eq_final (h : s.Tracks seeded typing left o final) (hover : s.isOver = true) :
    o = final := by
  rw [h.isOver_eq] at hover
  cases hresult : o.result with
  | ok flow =>
    rw [hresult] at hover
    cases hover
  | error fault => rw [← h.run_eq, Outcome.run_of_error hresult]

theorem isLeaving_eq (h : s.Tracks seeded typing left o final) :
    s.isLeaving = !s.link.devicesHeld := by
  rw [isLeaving, h.appetite_eq]
  rfl

theorem devicesHeld_of_goes (h : s.Tracks seeded typing left o final) (hover : s.isOver = false) :
    s.link.devicesHeld = true :=
  Bool.ne_false_iff.1 fun hgone => nomatch hover.symm.trans (h.devices hgone)

theorem windowHeld_of_goes (h : s.Tracks seeded typing left o final) (hover : s.isOver = false) :
    s.link.windowHeld = true :=
  Bool.ne_false_iff.1 fun hgone => nomatch (h.window hgone).symm.trans (h.devicesHeld_of_goes hover)

/-- The timers do not matter to the run. -/
theorem withTimers (h : s.Tracks seeded typing left o final) (timers : Timers) :
    ({ s with machine := { s.machine with timers } } : Session).Tracks seeded typing left o final :=
  { h with machine := h.machine.withTimers timers }

/-- A step of the session is the next step of the run, if no key is waited for that is yet to be
pressed. -/
theorem takeStep (h : s.Tracks seeded typing left o final) (hover : s.isOver = false)
    (hkeys : s.machine.request? = some .awaitKey → s.link.keys = [] → s.link.keyboardHeld = false) :
    ∃ rest, left = rest + 1 ∧ s.takeStep.Tracks seeded typing rest o.advance final ∧
      s.link.Served typing (s.machine.request? = some .draw) s.takeStep.link o.advance.devices := by
  have hok : o.result.isOk = true := by simpa [h.isOver_eq] using hover
  have hdevices := h.devicesHeld_of_goes hover
  have hwindow := h.windowHeld_of_goes hover
  obtain ⟨rest, rfl⟩ : ∃ rest, left = rest + 1 := by
    refine Nat.exists_eq_succ_of_ne_zero fun hzero => ?_
    have hfinal : o = final := by rw [← h.run_eq, hzero]; rfl
    rw [hfinal, h.fault] at hok
    cases hok
  obtain ⟨⟨hpoll, hdetermined⟩, htame⟩ := (Outcome.tame_succ_iff hok).1 h.tame
  -- The step on the link is a step on its tape, and that is the step of a machine that resembles
  -- it.
  have halike := s.machine.step_tape typing hwindow
    (fun hawait hnone => h.keyboard (hkeys hawait hnone)) (h.machine.request?_eq ▸ hpoll)
  have hresembles :=
    h.machine.step (fun i hi => hdetermined i (h.machine.upcoming?_eq ▸ hi)) o.devices
  rw [h.tape_eq hdevices] at halike
  have hserved : s.link.Served typing (s.machine.request? = some .draw)
      (s.machine.step s.link).devices o.advance.devices :=
    hresembles.devices_eq ▸ halike.devices
  obtain ⟨ticks, clock, hstep⟩ := s.exists_takeStep_eq
  have hlink : s.takeStep.link = (s.machine.step s.link).devices := by rw [hstep]
  have hresult : (s.machine.step s.link).result = o.advance.result :=
    halike.result_eq.trans hresembles.result_eq
  rw [hlink]
  refine ⟨rest, rfl, ?_, hserved⟩
  exact {
    steps_eq := by rw [hstep, h.steps_eq]; rfl
    appetite_eq := by rw [hstep]; exact h.appetite_eq
    typing_eq := by rw [hstep]; exact h.typing_eq
    machine := by
      rw [hstep, halike.machine_eq]
      exact hresembles.machine.tick ticks
    result_eq := by rw [hstep]; exact hresult
    shown_eq := by
      rw [hlink, ← hserved.tape_eq]
      rfl
    tape_eq := by
      intro _
      rw [hlink]
      exact hserved.tape_eq
    room := by
      intro _
      have hroom := h.room hdevices
      have hfewer := hserved.length_keys_le
      rw [hlink, hserved.capacity_eq]
      omega
    keyboard := by
      rw [hlink, hserved.keyboardHeld_eq]
      exact h.keyboard
    window := by
      rw [hlink, hserved.windowHeld_eq, hwindow]
      nofun
    devices := by
      rw [hlink, hserved.devicesHeld_eq, hdevices]
      nofun
    run_eq := (Outcome.run_succ_of_isOk hok rest).symm.trans h.run_eq
    tame := htame
    fault := h.fault }

/-! ### Moves -/

/-- The session has moved on: it keeps to the run still, and its weight is lower by more than the
number of frames that were taken. -/
def Advances (s after : Session) (seeded : Prop) (typing : List Key) (left : Nat)
    (final : Outcome Recorder) (frames : List Screen) : Prop :=
  after.link.shown.toList = s.link.shown.toList ++ frames ∧
    ∃ typing' left' o', after.Tracks seeded typing' left' o' final ∧
      after.weight typing' left' + frames.length < s.weight typing left

theorem advances_takeStep (h : s.Tracks seeded typing left o final) (hover : s.isOver = false)
    (hkeys : s.machine.request? = some .awaitKey → s.link.keys = [] → s.link.keyboardHeld = false) :
    ∃ frames, Advances s s.takeStep seeded typing left final frames ∧
      (s.machine.request? ≠ some .draw → frames = []) ∧
      s.takeStep.link.windowHeld = s.link.windowHeld := by
  obtain ⟨rest, rfl, htracks, hserved⟩ := h.takeStep hover hkeys
  obtain ⟨frames, hshown, hone, hquiet⟩ := hserved.shown
  refine ⟨frames, ⟨hshown, _, _, _, htracks, ?_⟩, hquiet, hserved.windowHeld_eq⟩
  simp only [weight, hserved.keyboardHeld_eq, hserved.devicesHeld_eq, hserved.windowHeld_eq]
  omega

/-- The typist presses the next key, which is queued while the machine has use for it, or lets go of
the keyboard. -/
theorem advances_type (h : s.Tracks seeded typing left o final) (hmove : s.canMove .typist = true) :
    Advances s s.type seeded typing left final [] ∧ s.type.link.windowHeld = s.link.windowHeld := by
  cases typing with
  | nil =>
    have hheld : s.link.keyboardHeld = true := by simpa [canMove, h.typing_eq] using hmove
    have htype : s.type = { s with link := s.link.dropKeyboard } := by
      simp only [type, h.typing_eq]
    rw [htype]
    refine ⟨⟨(List.append_nil _).symm, [], left, o, { h with keyboard := fun _ => rfl }, ?_⟩, rfl⟩
    simp [weight, Link.dropKeyboard, hheld]
  | cons key typing =>
    have htype : s.type = { s with link := s.link.press key, typing := some typing } := by
      simp only [type, h.typing_eq]
    have hpress : s.link.press key =
        { s.link with
          keys := if s.link.devicesHeld then s.link.keys ++ [key] else s.link.keys } := by
      cases hdevices : s.link.devicesHeld with
      | true =>
        have hroom := h.room hdevices
        rw [List.length_cons] at hroom
        exact if_pos ⟨hdevices, by omega⟩
      | false =>
        rw [Link.press, if_neg fun haccepts => Bool.false_ne_true (hdevices.symm.trans haccepts.1)]
        rfl
    rw [htype, hpress]
    refine ⟨⟨(List.append_nil _).symm, typing, left, o, ?_, ?_⟩, rfl⟩
    · exact { h with
        typing_eq := rfl
        tape_eq := by
          intro hdevices
          have htape := h.tape_eq hdevices
          simp only at hdevices
          simp only [Link.tape, if_pos hdevices, List.append_assoc, List.singleton_append]
            at htape ⊢
          exact htape
        room := by
          intro hdevices
          have hroom := h.room hdevices
          simp only at hdevices
          simp only [if_pos hdevices, List.length_append, List.length_cons, List.length_nil]
            at hroom ⊢
          omega
        keyboard := by
          intro hgone
          cases h.keyboard hgone }
    · simp only [weight, List.length_cons, List.length_nil]
      omega

/-- A machine that has stopped lets go of its end. -/
theorem advances_dropDevices (h : s.Tracks seeded typing left o final) (hover : s.isOver = true)
    (hdevices : s.link.devicesHeld = true) :
    Advances s { s with link := s.link.dropDevices } seeded typing left final [] := by
  refine ⟨(List.append_nil _).symm, typing, left, o, ?_, ?_⟩
  · exact { h with
      tape_eq := fun hheld => absurd hheld Bool.false_ne_true
      room := fun hheld => absurd hheld Bool.false_ne_true
      window := fun _ => rfl
      devices := fun _ => hover }
  · simp [weight, Link.dropDevices, hdevices]

/-- The audience goes once the machine has let go, and leaves the keyboard to the typist. -/
theorem advances_leave (h : s.Tracks seeded typing left o final) (hleaving : s.isLeaving = true)
    (hwindow : s.link.windowHeld = true) : Advances s s.leave seeded typing left final [] := by
  have hdevices : s.link.devicesHeld = false := by simpa [h.isLeaving_eq] using hleaving
  have hleave : s.leave = { s with link := s.link.dropWindow } := by
    simp only [leave, h.typing_eq]
  rw [hleave]
  refine ⟨(List.append_nil _).symm, typing, left, o, { h with window := fun _ => hdevices }, ?_⟩
  simp [weight, Link.dropWindow, hwindow]

/-- The audience is never tired of frames. -/
theorem takeFrame_eq (h : s.Tracks seeded typing left o final) : s.takeFrame = s.takeStep := by
  obtain ⟨ticks, clock, hstep⟩ := s.exists_takeStep_eq
  rw [takeFrame, hstep, h.appetite_eq]
  rfl

/-- Every move keeps to the run, and only the audience takes frames or lets go of the window. -/
theorem move (h : s.Tracks seeded typing left o final) {party : Party}
    (hmove : s.canMove party = true) :
    ∃ frames, Advances s (s.moved party) seeded typing left final frames ∧
      (party ≠ .audience →
        frames = [] ∧ (s.moved party).link.windowHeld = s.link.windowHeld) := by
  cases party with
  | typist =>
    obtain ⟨hadvances, hwindow⟩ := h.advances_type hmove
    exact ⟨[], hadvances, fun _ => ⟨rfl, hwindow⟩⟩
  | machine =>
    rw [moved]
    cases hover : s.isOver with
    | true =>
      have hdevices : s.link.devicesHeld = true := by simpa [canMove, hover] using hmove
      exact ⟨[], h.advances_dropDevices hover hdevices, fun _ => ⟨rfl, rfl⟩⟩
    | false =>
      have hblocked : s.isBlocked = false := by simpa [canMove, hover] using hmove
      have hwindow := h.windowHeld_of_goes hover
      have hquiet : s.machine.request? ≠ some .draw := by
        intro hdraw
        simp [isBlocked, hdraw, hwindow] at hblocked
      obtain ⟨frames, hadvances, hnone, hkept⟩ := h.advances_takeStep hover (by
        intro hawait hkeys
        simpa [isBlocked, hawait, hkeys] using hblocked)
      exact ⟨frames, hadvances, fun _ => ⟨hnone hquiet, hkept⟩⟩
  | audience =>
    have hcan := hmove
    simp only [canMove, Bool.and_eq_true, Bool.or_eq_true, Bool.not_eq_true', beq_iff_eq] at hcan
    obtain ⟨hwindow, hready⟩ := hcan
    rw [moved]
    cases hleaving : s.isLeaving with
    | true => exact ⟨[], h.advances_leave hleaving hwindow, fun hother => absurd rfl hother⟩
    | false =>
      obtain ⟨hover, hdraw⟩ := hready.resolve_left (by rw [hleaving]; exact Bool.false_ne_true)
      obtain ⟨frames, hadvances, -⟩ := h.advances_takeStep hover (by simp [hdraw])
      rw [if_neg Bool.false_ne_true, h.takeFrame_eq]
      exact ⟨frames, hadvances, fun hother => absurd rfl hother⟩

/-- Where no party can move, the machine has stopped and the audience has gone. -/
theorem gone_of_still (h : s.Tracks seeded typing left o final)
    (hstill : ∀ party, s.canMove party = false) :
    s.isOver = true ∧ s.link.windowHeld = false := by
  have htypist := hstill .typist
  have haudience := hstill .audience
  have hmachine := hstill .machine
  have hover : s.isOver = true := by
    refine Bool.ne_false_iff.1 fun hover => ?_
    rw [canMove, hover] at hmachine
    have hblocked : s.isBlocked = true := by simpa using hmachine
    rcases isBlocked_eq_true hblocked with ⟨hdraw, hwindow⟩ | ⟨-, -, hkeyboard⟩
    · simp [canMove, hwindow, hover, hdraw] at haudience
    · cases typing <;> simp [canMove, h.typing_eq, hkeyboard] at htypist
  have hdevices : s.link.devicesHeld = false := by simpa [canMove, hover] using hmachine
  have hwindow : s.link.windowHeld = false := by
    simpa [canMove, h.isLeaving_eq, hdevices] using haudience
  exact ⟨hover, hwindow⟩

/-- The session of a started machine starts where the machine by itself does, if the queue holds all
the keys that are typed. -/
theorem session {machine ref : Machine} {seeded : Prop} {keys : List Key} {steps : Nat}
    (hresembles : machine.Resembles seeded ref) (hroom : keys.length ≤ machine.settings.keyBuffer)
    (htame : (ref.solo keys).Tame seeded steps)
    (hfault : ((ref.solo keys).run steps).result.isOk = false) :
    (Console.session machine keys).Tracks seeded keys steps (ref.solo keys)
      ((ref.solo keys).run steps) where
  steps_eq := rfl
  appetite_eq := rfl
  typing_eq := rfl
  machine := hresembles
  result_eq := rfl
  shown_eq := rfl
  tape_eq _ := rfl
  room _ := by
    show [].length + keys.length ≤ machine.settings.keyBuffer
    rwa [List.length_nil, Nat.zero_add]
  keyboard := nofun
  window := nofun
  devices := nofun
  run_eq := rfl
  tame := htame
  fault := hfault

end Tracks

/-- A party that can move makes its move. -/
theorem move?_eq_some_iff {s after : Session} {party : Party} :
    s.move? party = some after ↔ s.canMove party = true ∧ s.moved party = after := by
  rw [move?]
  split
  · next h => rw [Option.some.injEq, and_iff_right h]
  · next h => exact iff_of_false nofun fun hmove => h hmove.1

end Session

/-! ## The log -/

/-- No event leaves an error in the log. -/
theorem Event.level_ne_error {event : Event} {line : LogLine} (h : event.logLine? = some line) :
    line.level ≠ .error := by
  cases event <;> cases h <;> nofun

theorem Event.level_ne_error_of_mem_lines {events : List Event} {line : LogLine}
    (h : line ∈ Event.lines events) : line.level ≠ .error := by
  obtain ⟨event, -, hline⟩ := List.mem_filterMap.1 h
  exact Event.level_ne_error hline

namespace Console

theorem Host.quiet_plain (key : ChaCha.Key) : (Host.plain key).Quiet := fun _ hline => if_neg hline

/-- A quiet logger leaves nothing of lines that are no errors. -/
theorem Host.Quiet.loggedAll_eq {host : Host} (hquiet : host.Quiet) {lines : List LogLine}
    (hlines : ∀ line ∈ lines, line.level ≠ .error) : host.loggedAll lines = "" := by
  rw [Host.loggedAll]
  induction lines with
  | nil => rfl
  | cons line lines ih =>
    obtain ⟨hline, hlines⟩ := List.forall_mem_cons.1 hlines
    rw [List.map_cons, String.join_cons, hquiet line hline, ih hlines]
    rfl

namespace Performance

variable {host : Host} {p : Performance}

theorem log?_of_quiet (hquiet : host.Quiet) {lines : List LogLine}
    (hlines : ∀ line ∈ lines, line.level ≠ .error) (p : Performance) :
    p.log? host lines = some p := by
  simp [log?, hquiet.loggedAll_eq hlines]

theorem level_ne_error_of_mem_pressLines {s : Session} {line : LogLine} (h : line ∈ pressLines s) :
    line.level ≠ .error := by
  unfold pressLines at h
  split at h
  · split at h
    · cases h
    · cases List.mem_singleton.1 h
      nofun
  · cases h
  · cases h

theorem level_ne_error_of_mem_stepLines {before after : Session} {line : LogLine}
    (h : line ∈ stepLines before after) : line.level ≠ .error := by
  unfold stepLines at h
  split at h
  · exact Event.level_ne_error_of_mem_lines h
  · exact Event.level_ne_error_of_mem_lines (List.mem_filter.1 h).1

/-! ## Moves -/

/-- The typist presses a key whether or not the press is logged. -/
theorem move?_typist (hquiet : host.Quiet) (p : Performance) :
    p.move? host .typist = (p.session.move? .typist).map fun session => { p with session } := by
  rw [move?]
  cases p.session.move? .typist with
  | none => rfl
  | some session => exact log?_of_quiet hquiet (fun _ => level_ne_error_of_mem_pressLines) _

/-- The machine starts its clock. -/
theorem move?_machine_of_not_started (hquiet : host.Quiet) (hstarted : p.started = false) :
    p.move? host .machine =
      some { p with session.clock := p.session.clock.start.1, started := true } := by
  rw [move?, if_neg (by simp [hstarted])]
  exact log?_of_quiet hquiet (fun _ => Event.level_ne_error_of_mem_lines) _

/-- The machine takes its step or goes whether or not this is logged. -/
theorem move?_machine_of_started (hquiet : host.Quiet) (hstarted : p.started = true) :
    p.move? host .machine = (p.session.move? .machine).map fun session => { p with session } := by
  rw [move?, if_pos hstarted]
  cases p.session.move? .machine with
  | none => rfl
  | some session => exact log?_of_quiet hquiet (fun _ => level_ne_error_of_mem_stepLines) _

theorem move?_audience_of_unopened (host : Host) (hopened : p.opened = false) :
    p.move? host .audience = some { p with opened := true, toWrite := wipe } := by
  rw [move?, if_pos (by simp [hopened])]

theorem move?_audience_of_pending (host : Host) (hopened : p.opened = true)
    (hpending : p.toWrite ≠ []) :
    p.move? host .audience =
      some { p with written := p.written ++ String.ofList p.toWrite, toWrite := [] } := by
  rw [move?, if_neg (by simp [hopened]), if_pos (by simp [hpending])]

/-- The new frames are those behind the frames that were there before. -/
theorem newFrames_eq {before after : Session} {frames : List Screen}
    (h : after.link.shown.toList = before.link.shown.toList ++ frames) :
    newFrames before after = frames := by
  rw [newFrames, Array.toList_extract, h, ← Array.length_toList, ← Array.length_toList, h,
    List.extract_eq_take_drop, List.drop_left, List.length_append, Nat.add_sub_cancel_left,
    List.take_length]

/-- The audience looks for frames once it has written what it took. -/
theorem move?_audience_of_written (host : Host) (hopened : p.opened = true)
    (hwritten : p.toWrite = []) (hstarted : p.started = true) :
    p.move? host .audience = (p.session.move? .audience).map fun session =>
      { p with session, toWrite := (newFrames p.session session).flatMap frameText } := by
  rw [move?, if_neg (by simp [hopened]), if_neg (by simp [hwritten]), if_pos hstarted]
  cases p.session.move? .audience <;> rfl

/-- The performance with other timers. -/
def withTimers (p : Performance) (timers : Timers) : Performance :=
  { p with session.machine.timers := timers }

/-- A performance comes of another by a number of moves, while the timers count down at any time,
one by one. -/
inductive Reaches (host : Host) (p : Performance) : Nat → Performance → Prop where
  | refl : Reaches host p 0 p
  | move {count : Nat} {party : Party} {before after : Performance}
      (h : Reaches host p count before) (hmove : before.move? host party = some after) :
      Reaches host p (count + 1) after
  | tickDelay {count : Nat} {before : Performance} (h : Reaches host p count before) :
      Reaches host p count (before.withTimers before.session.machine.timers.tickDelay)
  | tickSound {count : Nat} {before : Performance} (h : Reaches host p count before) :
      Reaches host p count (before.withTimers before.session.machine.timers.tickSound)

/-- Nobody can move. -/
def Stuck (host : Host) (p : Performance) : Prop := ∀ party, p.move? host party = none

/-- What is reached from what a move leads to is reached from before the move. -/
theorem Reaches.of_move {party : Party} {next after : Performance} {count : Nat}
    (hmove : p.move? host party = some next) (h : next.Reaches host count after) :
    p.Reaches host (count + 1) after := by
  induction h with
  | refl => exact .move .refl hmove
  | move _ hlater ih => exact .move ih hlater
  | tickDelay _ ih => exact .tickDelay ih
  | tickSound _ ih => exact .tickSound ih

/-- A performance that is played makes all the moves that it is given, unless nobody can move. -/
theorem reaches_play (host : Host) (p : Performance) (moves : Nat) :
    ∃ count, p.Reaches host count (p.play host moves) ∧
      (count = moves ∨ (p.play host moves).Stuck host) := by
  induction moves generalizing p with
  | zero => exact ⟨0, .refl, .inl rfl⟩
  | succ moves ih =>
    rw [play]
    split
    · next after hmove =>
      obtain ⟨party, -, hmove⟩ := List.exists_of_findSome?_eq_some hmove
      obtain ⟨count, hreaches, hend⟩ := ih after
      exact ⟨count + 1, hreaches.of_move hmove, hend.imp_left (congrArg Nat.succ)⟩
    · next hnone =>
      rw [List.findSome?_eq_none_iff] at hnone
      exact ⟨0, .refl, .inr fun party => hnone party (by cases party <;> simp)⟩

/-- The transcript of a program that was stopped by a fault, after a number of frames. -/
def stoppedTranscript (frames : List Screen) (fault : Fault) : Transcript :=
  ⟨failureCode, String.ofList (stream frames), some (.stopped fault)⟩

/-! ## Performances beside a run -/

/-- The session keeps to a run.  Once the audience has hold of the output, what was written and what
is yet to be written are the frames that were taken; before that nothing was written or taken. -/
structure Tracks (p : Performance) (seeded : Prop) (typing : List Key) (left : Nat)
    (o final : Outcome Recorder) : Prop where
  session : p.session.Tracks seeded typing left o final
  stream_eq : p.opened = true → p.written.toList ++ p.toWrite = stream p.session.link.shown.toList
  unopened : p.opened = false →
    p.written = "" ∧ p.session.link.shown.toList = [] ∧ p.session.link.windowHeld = true

/-- No fewer than the moves that are left. -/
def weight (p : Performance) (typing : List Key) (left : Nat) : Nat :=
  p.session.weight typing left + (!p.started).toNat + 2 * (!p.opened).toNat +
    (!p.toWrite.isEmpty).toNat

/-- The performance has moved on: it keeps to the run still, and its weight is lower. -/
def Advances (p after : Performance) (seeded : Prop) (typing : List Key) (left : Nat)
    (final : Outcome Recorder) : Prop :=
  ∃ typing' left' o', after.Tracks seeded typing' left' o' final ∧
    after.weight typing' left' < p.weight typing left

namespace Tracks

variable {after : Performance} {seeded : Prop} {typing : List Key} {left : Nat}
  {o final : Outcome Recorder}

/-- A started machine starts where the machine by itself does. -/
theorem opening {machine : Machine} {keys : List Key}
    (h : (Console.session machine keys).Tracks seeded typing left o final)
    (hshown : (Console.session machine keys).link.shown.toList = []) :
    (Performance.opening machine keys "").Tracks seeded typing left o final :=
  ⟨h, nofun, fun _ => ⟨rfl, hshown, rfl⟩⟩

theorem withTimers (h : p.Tracks seeded typing left o final) (timers : Timers) :
    (p.withTimers timers).Tracks seeded typing left o final :=
  ⟨h.session.withTimers timers, h.stream_eq, h.unopened⟩

theorem stream_append (frames more : List Screen) :
    stream (frames ++ more) = stream frames ++ more.flatMap frameText := by
  rw [stream, stream, List.flatMap_append, List.append_assoc]

/-- The machine starts its clock. -/
theorem advances_start (h : p.Tracks seeded typing left o final) (hstarted : p.started = false)
    (clock : Clock) :
    p.Advances { p with session.clock := clock, started := true } seeded typing left final := by
  refine ⟨typing, left, o, ⟨{ h.session with }, h.stream_eq, h.unopened⟩, ?_⟩
  simp [weight, hstarted, Session.weight]

/-- A move of the typist or of the machine takes no frame. -/
theorem advances_moved (h : p.Tracks seeded typing left o final) {party : Party}
    (hcan : p.session.canMove party = true) (hother : party ≠ .audience) :
    p.Advances { p with session := p.session.moved party } seeded typing left final := by
  obtain ⟨frames, ⟨hshown, _, _, _, htracks, hweight⟩, hunseen⟩ := h.session.move hcan
  obtain ⟨rfl, hwindow⟩ := hunseen hother
  rw [List.append_nil] at hshown
  refine ⟨_, _, _, ⟨htracks, ?_, ?_⟩, ?_⟩
  · rw [hshown]
    exact h.stream_eq
  · rw [hshown, hwindow]
    exact h.unopened
  · simp only [weight]
    omega

/-- The audience takes hold of the output and is about to wipe the terminal. -/
theorem advances_open (h : p.Tracks seeded typing left o final) (hopened : p.opened = false) :
    p.Advances { p with opened := true, toWrite := wipe } seeded typing left final := by
  obtain ⟨hwritten, hshown, -⟩ := h.unopened hopened
  refine ⟨typing, left, o, ⟨h.session, fun _ => ?_, nofun⟩, ?_⟩
  · simp [hwritten, hshown, stream]
  · have hpending := Bool.toNat_le (!wipe.isEmpty)
    simp only [weight, hopened, Bool.not_false, Bool.not_true, Bool.toNat_true, Bool.toNat_false]
    omega

/-- The audience writes what it took. -/
theorem advances_write (h : p.Tracks seeded typing left o final) (hopened : p.opened = true)
    (hpending : p.toWrite ≠ []) :
    p.Advances { p with written := p.written ++ String.ofList p.toWrite, toWrite := [] }
      seeded typing left final := by
  refine ⟨typing, left, o, ⟨h.session, fun _ => ?_, fun hclosed => ?_⟩, ?_⟩
  · have hstream := h.stream_eq hopened
    simpa using hstream
  · cases hopened.symm.trans hclosed
  · simp [weight, hopened, List.isEmpty_eq_false_iff.2 hpending]

/-- The audience takes a frame or goes away once it has written all it took. -/
theorem advances_watch (h : p.Tracks seeded typing left o final) (hopened : p.opened = true)
    (hwritten : p.toWrite = []) (hcan : p.session.canMove .audience = true) :
    let session := p.session.moved .audience
    p.Advances { p with session, toWrite := (newFrames p.session session).flatMap frameText }
      seeded typing left final := by
  obtain ⟨frames, ⟨hshown, _, _, _, htracks, hweight⟩, -⟩ := h.session.move hcan
  have hstream := h.stream_eq hopened
  rw [hwritten, List.append_nil] at hstream
  dsimp only
  rw [newFrames_eq hshown]
  refine ⟨_, _, _, ⟨htracks, fun _ => ?_, fun hclosed => ?_⟩, ?_⟩
  · show p.written.toList ++ frames.flatMap frameText = _
    rw [hshown, stream_append, hstream]
  · cases hopened.symm.trans hclosed
  · have hfew : (!(frames.flatMap frameText).isEmpty).toNat ≤ frames.length := by
      cases frames with
      | nil => exact Nat.le_refl _
      | cons frame frames => exact (Bool.toNat_le _).trans (Nat.succ_le_succ (Nat.zero_le _))
    simp only [weight]
    omega

/-- Every move keeps to the run, and there are only so many moves. -/
theorem move (h : p.Tracks seeded typing left o final) (hquiet : host.Quiet) {party : Party}
    (hmove : p.move? host party = some after) : p.Advances after seeded typing left final := by
  cases party with
  | typist =>
    rw [move?_typist hquiet, Option.map_eq_some_iff] at hmove
    obtain ⟨session, hsession, rfl⟩ := hmove
    obtain ⟨hcan, rfl⟩ := Session.move?_eq_some_iff.1 hsession
    exact h.advances_moved hcan nofun
  | machine =>
    cases hstarted : p.started with
    | false =>
      rw [move?_machine_of_not_started hquiet hstarted] at hmove
      cases hmove
      exact h.advances_start hstarted _
    | true =>
      rw [move?_machine_of_started hquiet hstarted, Option.map_eq_some_iff] at hmove
      obtain ⟨session, hsession, rfl⟩ := hmove
      obtain ⟨hcan, rfl⟩ := Session.move?_eq_some_iff.1 hsession
      exact h.advances_moved hcan nofun
  | audience =>
    cases hopened : p.opened with
    | false =>
      rw [move?_audience_of_unopened host hopened] at hmove
      cases hmove
      exact h.advances_open hopened
    | true =>
      by_cases hpending : p.toWrite = []
      · cases hstarted : p.started with
        | false => simp [move?, hopened, hpending, hstarted] at hmove
        | true =>
          rw [move?_audience_of_written host hopened hpending hstarted,
            Option.map_eq_some_iff] at hmove
          obtain ⟨session, hsession, rfl⟩ := hmove
          obtain ⟨hcan, rfl⟩ := Session.move?_eq_some_iff.1 hsession
          exact h.advances_watch hopened hpending hcan
      · rw [move?_audience_of_pending host hopened hpending] at hmove
        cases hmove
        exact h.advances_write hopened hpending

/-- Every performance that comes of this one keeps to the run, and there are only so many moves. -/
theorem reaches (h : p.Tracks seeded typing left o final) (hquiet : host.Quiet) {count : Nat}
    (hreaches : p.Reaches host count after) :
    ∃ typing' left' o', after.Tracks seeded typing' left' o' final ∧
      count + after.weight typing' left' ≤ p.weight typing left := by
  induction hreaches with
  | refl => exact ⟨_, _, _, h, Nat.le_of_eq (Nat.zero_add _)⟩
  | move _ hmove ih =>
    obtain ⟨_, _, _, hbefore, hcount⟩ := ih
    obtain ⟨_, _, _, htracks, hweight⟩ := hbefore.move hquiet hmove
    exact ⟨_, _, _, htracks, by omega⟩
  | tickDelay _ ih | tickSound _ ih =>
    obtain ⟨_, _, _, hbefore, hcount⟩ := ih
    exact ⟨_, _, _, hbefore.withTimers _, hcount⟩

/-- Whatever a performance leaves behind, it is the frames and the fault of the run. -/
theorem transcript?_eq (h : p.Tracks seeded typing left o final) {fault : Fault}
    (hfault : final.result = .error fault) {t : Transcript} (ht : p.transcript? = some t) :
    t = stoppedTranscript final.devices.frames.toList fault := by
  unfold transcript? at ht
  split at ht
  · cases ht
  · next hdone =>
    simp only [Bool.or_eq_true, Bool.not_eq_true', not_or, Bool.not_eq_true, Bool.not_eq_false,
      List.isEmpty_iff] at hdone
    obtain ⟨hwindow, hwritten⟩ := hdone
    have hopened : p.opened = true := by
      refine Bool.ne_false_iff.1 fun hclosed => ?_
      cases hwindow.symm.trans (h.unopened hclosed).2.2
    have hfinal := h.session.eq_final (h.session.devices (h.session.window hwindow))
    have hstream := h.stream_eq hopened
    rw [hwritten, List.append_nil, h.session.shown_eq, hfinal] at hstream
    have hresult : p.session.result = .error fault := by
      rw [h.session.result_eq, hfinal, hfault]
    rw [hresult] at ht
    cases ht
    rw [stoppedTranscript, ← hstream, String.ofList_toList]

/-- Where nobody can move, the process has ended. -/
theorem transcript?_of_stuck (h : p.Tracks seeded typing left o final) (hquiet : host.Quiet)
    {fault : Fault} (hfault : final.result = .error fault) (hstuck : p.Stuck host) :
    p.transcript? = some (stoppedTranscript final.devices.frames.toList fault) := by
  have hopened : p.opened = true := by
    refine Bool.ne_false_iff.1 fun hclosed => ?_
    cases (hstuck .audience).symm.trans (move?_audience_of_unopened host hclosed)
  have hwritten : p.toWrite = [] := by
    by_contra hpending
    cases (hstuck .audience).symm.trans (move?_audience_of_pending host hopened hpending)
  have hstarted : p.started = true := by
    refine Bool.ne_false_iff.1 fun hwaiting => ?_
    cases (hstuck .machine).symm.trans (move?_machine_of_not_started hquiet hwaiting)
  have hstill (party : Party) : p.session.canMove party = false := by
    refine Bool.eq_false_iff.2 fun hcan => ?_
    have hsession : p.session.move? party = some (p.session.moved party) := if_pos hcan
    have hnone := hstuck party
    cases party with
    | typist => simp [move?_typist hquiet, hsession] at hnone
    | audience => simp [move?_audience_of_written host hopened hwritten hstarted, hsession] at hnone
    | machine => simp [move?_machine_of_started hquiet hstarted, hsession] at hnone
  obtain ⟨hover, hwindow⟩ := h.session.gone_of_still hstill
  have hresult : p.session.result = .error fault := by
    rw [h.session.result_eq, h.session.eq_final hover, hfault]
  obtain ⟨t, ht⟩ : ∃ t, p.transcript? = some t := by
    simp only [transcript?, hwindow, hwritten, hresult]
    exact ⟨_, rfl⟩
  rw [ht, h.transcript?_eq hfault ht]

/-- A performance that is played with more moves than there can be is stuck in the end. -/
theorem stuck_play (h : p.Tracks seeded typing left o final) (hquiet : host.Quiet) {moves : Nat}
    (hmoves : p.weight typing left < moves) : (p.play host moves).Stuck host := by
  obtain ⟨count, hreaches, hend⟩ := p.reaches_play host moves
  obtain ⟨_, _, _, -, hcount⟩ := h.reaches hquiet hreaches
  exact hend.resolve_left (by omega)

end Tracks

end Performance

end Console

end ChipEight
