import ChipEight.Devices.Link
import ChipEight.Proofs.Frames
import ChipEight.Proofs.Resemblance

/-!
# A machine by itself

A machine that is by itself has every frame taken, and is given the keys of a list one after the
other.  A wait for a key ends in a fault once none is left.

A link behaves like this as long as its window is held and the machine waits for no key that is yet
to be pressed.

Main results:

- `Outcome.frames_run_of_unbounded`: the frames of a run are the screens right after its strokes.
- `Machine.step_tape`: a step on a link is the step on the devices of a machine by itself.
-/

namespace ChipEight

/-- The start of a run of a machine by itself. -/
def Machine.solo (m : Machine) (keys : List Key) : Outcome Recorder :=
  m.completed { keys, exhausted := .disconnected } .next

/-- Within a number of steps of a run no step polls the keyboard, and every step is determined. -/
structure Outcome.Tame {δ : Type} [Devices δ] (seeded : Prop) (o : Outcome δ)
    (steps : Nat) : Prop where
  unpolled : ∀ t ∈ o.moments steps, t.machine.request? ≠ some .pollKey
  determined : ∀ t ∈ o.moments steps, t.machine.Determined seeded

/-- What the upcoming instruction asks of a step for it to be tame. -/
theorem Machine.tame_of_upcoming {seeded : Prop} {m : Machine} {i : Instruction}
    (hi : m.upcoming? = some i) (hpoll : m.requestOf? i ≠ some .pollKey)
    (hdetermined : i.Determined seeded) :
    m.request? ≠ some .pollKey ∧ m.Determined seeded := by
  refine ⟨(request?_of_upcoming hi).trans_ne hpoll, fun other hother => ?_⟩
  cases hi.symm.trans hother
  exact hdetermined

namespace Outcome

section Tame

variable {δ : Type} [Devices δ] {seeded : Prop} {o : Outcome δ} {steps : Nat}

/-- A run that is not at its end yet is tame if its next step is and the rest of it is. -/
theorem tame_succ_iff (hok : o.result.isOk = true) :
    o.Tame seeded (steps + 1) ↔
      (o.machine.request? ≠ some .pollKey ∧ o.machine.Determined seeded) ∧
        o.advance.Tame seeded steps := by
  have hmoments := moments_succ_of_isOk hok steps
  constructor
  · intro h
    have hunpolled := h.unpolled
    have hdetermined := h.determined
    rw [hmoments, List.forall_mem_cons] at hunpolled hdetermined
    exact ⟨⟨hunpolled.1, hdetermined.1⟩, hunpolled.2, hdetermined.2⟩
  · rintro ⟨⟨hpoll, hdetermined⟩, hrest⟩
    constructor
    · rw [hmoments]
      exact List.forall_mem_cons.2 ⟨hpoll, hrest.unpolled⟩
    · rw [hmoments]
      exact List.forall_mem_cons.2 ⟨hdetermined, hrest.determined⟩

/-- What has ended in a fault is tame. -/
theorem tame_of_error {fault : Fault} (h : o.result = .error fault) (steps : Nat) :
    o.Tame seeded steps := by
  constructor <;> rw [moments_of_error h] <;> nofun

end Tame

/-! ## Frames -/

/-- The next step of a run on devices that take every frame hands no frame over, or hands over a
frame that is taken. -/
theorem advance_unbounded {o : Outcome Recorder} (hcapacity : o.devices.capacity = none) :
    o.advance.devices.capacity = none ∧
      ((Moment.mk o.machine o.devices .step).stroke? = none ∧
          o.advance.devices.frames = o.devices.frames ∨
        (Moment.mk o.machine o.devices .step).stroke?.isSome = true ∧
          o.advance.devices.frames = o.devices.frames.push o.advance.machine.screen) := by
  have hiff := Moment.isSome_stroke?_iff o.machine o.devices
  by_cases hdraw : o.machine.request? = some .draw
  · obtain ⟨x, y, rows, hi, hfits⟩ := Machine.request?_eq_draw_iff.1 hdraw
    obtain ⟨-, hdevices, -⟩ := Machine.step_of_draw hi hfits o.devices
    have hroom : o.devices.HasRoom := by rw [Recorder.HasRoom, hcapacity]; trivial
    have hanswer (frame : Screen) : Devices.draw frame o.devices =
        (.ok (), { o.devices with frames := o.devices.frames.push frame }) := if_pos hroom
    rw [hanswer] at hdevices
    have hafter : o.advance.devices =
        { o.devices with frames := o.devices.frames.push o.advance.machine.screen } := hdevices
    rw [hafter]
    exact ⟨hcapacity, .inr ⟨hiff.2 hdraw, rfl⟩⟩
  · obtain ⟨hframes, hkept⟩ := Machine.frames_step_of_quiet hdraw o.devices
    exact ⟨hkept.trans hcapacity,
      .inl ⟨Option.not_isSome_iff_eq_none.1 (mt hiff.1 hdraw), hframes⟩⟩

/-- The frames of a run on devices that take every frame are the screens right after its strokes. -/
theorem frames_run_of_unbounded {o : Outcome Recorder} (hcapacity : o.devices.capacity = none)
    (n : Nat) :
    (o.run n).devices.frames.toList =
      o.devices.frames.toList ++ Moment.pictures (o.moments n) := by
  induction n generalizing o with
  | zero => simp [run, moments, Moment.pictures]
  | succ n ih =>
    cases hresult : o.result with
    | error fault =>
      rw [run_of_error hresult, moments_of_error hresult]
      simp [Moment.pictures]
    | ok flow =>
      have hok : o.result.isOk = true := by rw [hresult]; rfl
      obtain ⟨hkept, hstep⟩ := advance_unbounded hcapacity
      rw [run_succ_of_isOk hok, moments_succ_of_isOk hok, ih hkept]
      rcases hstep with ⟨hstroke, hframes⟩ | ⟨hstroke, hframes⟩
      · rw [hframes, Moment.pictures_cons_of_none hstroke]
      · rw [hframes, Moment.pictures_cons_of_isSome hstroke, Array.toList_push, List.append_assoc]
        rfl

end Outcome

/-! ## Links -/

namespace Link

/-- The devices that have taken the frames that a link has shown, and that have to come the keys in
its queue and then those that are yet to be pressed. -/
def tape (l : Link) (typing : List Key) : Recorder :=
  { frames := l.shown, keys := l.keys ++ typing, exhausted := .disconnected }

/-- What has become of a link while a step was taken on it, beside its tape: perhaps a frame was
shown or a key was delivered, and nobody has let go of anything. -/
structure Served (l : Link) (typing : List Key) (draws : Prop) (after : Link) (taped : Recorder) :
    Prop where
  tape_eq : after.tape typing = taped
  shown : ∃ frames, after.shown.toList = l.shown.toList ++ frames ∧ frames.length ≤ 1 ∧
    (¬ draws → frames = [])
  length_keys_le : after.keys.length ≤ l.keys.length
  capacity_eq : after.capacity = l.capacity
  devicesHeld_eq : after.devicesHeld = l.devicesHeld
  windowHeld_eq : after.windowHeld = l.windowHeld
  keyboardHeld_eq : after.keyboardHeld = l.keyboardHeld

/-- No frame was shown. -/
theorem served_of_quiet (l : Link) (typing : List Key) (draws : Prop) {keys : List Key}
    (hkeys : keys.length ≤ l.keys.length) :
    l.Served typing draws { l with keys } { l.tape typing with keys := keys ++ typing } :=
  ⟨rfl, ⟨[], (List.append_nil _).symm, Nat.zero_le _, fun _ => rfl⟩, hkeys, rfl, rfl, rfl, rfl⟩

end Link

/-- A step on a link is the step on its tape, if the window is held and the step does not wait for a
key that is yet to be pressed. -/
theorem Machine.step_tape (m : Machine) {l : Link} (typing : List Key)
    (hwindow : l.windowHeld = true)
    (hkeys : m.request? = some .awaitKey → l.keys = [] → typing = [])
    (hpoll : m.request? ≠ some .pollKey) :
    (m.step l).Alike (l.Served typing (m.request? = some .draw)) (m.step (l.tape typing)) := by
  apply step_alike
  case hnone =>
    intro _
    exact l.served_of_quiet typing _ (Nat.le_refl _)
  case hdraw =>
    intro hdraw frame
    have hlink : Devices.draw frame l = (.ok (), { l with shown := l.shown.push frame }) :=
      if_pos hwindow
    have htape : Devices.draw frame (l.tape typing) =
        (.ok (), { l.tape typing with frames := l.shown.push frame }) := rfl
    rw [hlink, htape]
    exact ⟨rfl, {
      tape_eq := rfl
      shown := ⟨[frame], Array.toList_push, Nat.le_refl _, fun hquiet => absurd hdraw hquiet⟩
      length_keys_le := Nat.le_refl _
      capacity_eq := rfl
      devicesHeld_eq := rfl
      windowHeld_eq := rfl
      keyboardHeld_eq := rfl }⟩
  case hawait =>
    intro hawait
    have hpending : (l.tape typing).keys = l.keys ++ typing := rfl
    cases hqueue : l.keys with
    | nil =>
      cases hkeys hawait hqueue
      have hlink : Devices.awaitKey l = (.error .disconnected, l) := by
        simp only [Devices.awaitKey, hqueue]
      have htape : Devices.awaitKey (l.tape []) = (.error .disconnected, l.tape []) := by
        simp only [Devices.awaitKey, hpending, hqueue, List.append_nil]
        rfl
      rw [hlink, htape]
      exact ⟨rfl, l.served_of_quiet [] _ (Nat.le_refl _)⟩
    | cons key rest =>
      have hlink : Devices.awaitKey l = (.ok key, { l with keys := rest }) := by
        simp only [Devices.awaitKey, hqueue]
      have htape : Devices.awaitKey (l.tape typing) =
          (.ok key, { l.tape typing with keys := rest ++ typing }) := by
        simp only [Devices.awaitKey, hpending, hqueue, List.cons_append]
      rw [hlink, htape]
      refine ⟨rfl, l.served_of_quiet typing _ ?_⟩
      rw [hqueue]
      exact Nat.le_succ _
  case hpoll =>
    intro h
    exact absurd h hpoll

end ChipEight
