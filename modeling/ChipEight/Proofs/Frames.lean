import ChipEight.Devices.Recorder
import ChipEight.Machine.Run
import ChipEight.Proofs.Alike
import ChipEight.Proofs.Composition

/-!
# Frames of a run

Devices that take a number of frames and refuse every later one take the screens right after the
first strokes of a run.  The stroke whose frame is refused is the last thing that happens.

Main results:

- `Outcome.advance_taking`: the three things that a step can do to such devices.
- `Outcome.frames_run`, `Outcome.refused_run`: the frames that a run hands over, and how it ends if
  one is refused.
-/

namespace ChipEight

variable {δ : Type} [Devices δ]

/-! ## Pictures -/

/-- The moments of a run, of which none comes after a fault. -/
def Outcome.moments (o : Outcome δ) : Nat → List (Moment δ)
  | 0 => []
  | n + 1 =>
    match o.result with
    | .ok _ => ⟨o.machine, o.devices, .step⟩ :: o.advance.moments n
    | .error _ => []

/-- The screens right after the strokes of a history, oldest first. -/
def Moment.pictures (history : List (Moment δ)) : List Screen :=
  history.filterMap fun t => t.stroke?.map fun _ => t.outcome.machine.screen

omit [Devices δ] in
/-- A step has a stroke exactly if it hands a frame over. -/
theorem Moment.isSome_stroke?_iff (m : Machine) (d : δ) :
    (Moment.mk m d .step).stroke?.isSome = true ↔ m.request? = some .draw := by
  cases hi : m.upcoming? with
  | none => simp [Moment.stroke?, hi, Machine.request?_of_upcoming_eq_none hi]
  | some i =>
    have hstroke : (Moment.mk m d .step).stroke? = m.strokeOf? i := by
      simp only [Moment.stroke?, hi, Option.bind_some]
    rw [hstroke, Machine.request?_of_upcoming hi]
    cases i with
    | draw x y rows =>
      by_cases hfits : Memory.Fits m.registers.index.toNat rows.toNat
      · rw [Machine.strokeOf?, Machine.requestOf?, if_pos hfits, if_pos hfits]
        exact iff_of_true rfl rfl
      · rw [Machine.strokeOf?, Machine.requestOf?, if_neg hfits, if_neg hfits]
        exact iff_of_false Bool.false_ne_true (by simp)
    | _ => simp [Machine.strokeOf?, Machine.requestOf?]

namespace Machine

theorem step_of_draw {m : Machine} {x y rows : UInt8} (hi : m.upcoming? = some (.draw x y rows))
    (hfits : Memory.Fits m.registers.index.toNat rows.toNat) (d : δ) :
    (m.step d).machine = m.advanced.drawn x y rows ∧
      (m.step d).devices = (Devices.draw (m.step d).machine.screen d).2 ∧
      (m.step d).result = (Devices.draw (m.step d).machine.screen d).1.map fun _ => .draw := by
  have hadvanced : Memory.Fits m.advanced.registers.index.toNat rows.toNat := hfits
  rw [step_of_upcoming hi]
  simp only [execute, draw_eq, if_pos hadvanced]
  exact ⟨rfl, rfl, rfl⟩

/-- A step that hands no frame over leaves the frames of a recorder alone. -/
theorem frames_step_of_quiet {m : Machine} (h : m.request? ≠ some .draw) (r : Recorder) :
    (m.step r).devices.frames = r.frames ∧ (m.step r).devices.capacity = r.capacity := by
  have halike : (m.step r).Alike
      (fun after _ => after.frames = r.frames ∧ after.capacity = r.capacity) (m.step r) := by
    apply step_alike
    case hnone =>
      intro _
      exact ⟨rfl, rfl⟩
    case hdraw =>
      intro hdraw
      exact absurd hdraw h
    case hawait =>
      intro _
      refine ⟨rfl, ?_⟩
      simp only [Devices.awaitKey]
      cases r.keys <;> exact ⟨rfl, rfl⟩
    case hpoll =>
      intro _
      refine ⟨rfl, ?_⟩
      simp only [Devices.pollKey]
      cases r.pollFault <;> cases r.keys <;> exact ⟨rfl, rfl⟩
  exact halike.devices

end Machine

/-- The next step of a run on devices that take a number of frames hands no frame over, or hands
over a frame that is taken, or ends in a fault because a frame is refused. -/
theorem Outcome.advance_taking {o : Outcome Recorder} {frames : Nat}
    (hcapacity : o.devices.capacity = some frames) :
    (Moment.mk o.machine o.devices .step).stroke? = none ∧
        o.advance.devices.frames = o.devices.frames ∧ o.advance.devices.capacity = some frames ∨
      (Moment.mk o.machine o.devices .step).stroke?.isSome = true ∧ o.devices.frames.size < frames ∧
        o.advance.devices = { o.devices with
          frames := o.devices.frames.push o.advance.machine.screen } ∧
        o.advance.result = .ok .draw ∨
      (Moment.mk o.machine o.devices .step).stroke?.isSome = true ∧ frames ≤ o.devices.frames.size ∧
        o.advance.devices = o.devices ∧ o.advance.result = .error .disconnected ∧
        ∃ x y rows, o.machine.upcoming? = some (.draw x y rows) ∧
          o.advance.machine = o.machine.advanced.drawn x y rows := by
  have hiff := Moment.isSome_stroke?_iff o.machine o.devices
  by_cases hdraw : o.machine.request? = some .draw
  · have hstroke := hiff.2 hdraw
    obtain ⟨x, y, rows, hi, hfits⟩ := Machine.request?_eq_draw_iff.1 hdraw
    obtain ⟨hmachine, hdevices, hresult⟩ := Machine.step_of_draw hi hfits o.devices
    have hanswer (frame : Screen) : Devices.draw frame o.devices =
        if o.devices.frames.size < frames then
          (.ok (), { o.devices with frames := o.devices.frames.push frame })
        else (.error .disconnected, o.devices) := by
      have hroom : o.devices.HasRoom ↔ o.devices.frames.size < frames := by
        rw [Recorder.HasRoom, hcapacity]
      simp only [Devices.draw, hroom]
    rw [hanswer] at hdevices hresult
    by_cases hroom : o.devices.frames.size < frames
    · rw [if_pos hroom] at hdevices hresult
      exact .inr (.inl ⟨hstroke, hroom, hdevices, hresult⟩)
    · rw [if_neg hroom] at hdevices hresult
      exact .inr (.inr ⟨hstroke, Nat.not_lt.1 hroom, hdevices, hresult, x, y, rows, hi, hmachine⟩)
  · obtain ⟨hframes, hkept⟩ := Machine.frames_step_of_quiet hdraw o.devices
    exact .inl ⟨Option.not_isSome_iff_eq_none.1 (mt hiff.1 hdraw), hframes, hkept.trans hcapacity⟩

theorem Outcome.moments_succ_of_isOk {o : Outcome δ} (h : o.result.isOk = true) (n : Nat) :
    o.moments (n + 1) = ⟨o.machine, o.devices, .step⟩ :: o.advance.moments n := by
  cases hresult : o.result with
  | ok flow => simp only [moments, hresult]
  | error fault =>
    rw [hresult] at h
    cases h

theorem Outcome.moments_of_error {o : Outcome δ} {fault : Fault} (h : o.result = .error fault)
    (n : Nat) : o.moments n = [] := by
  cases n with
  | zero => rfl
  | succ n => simp only [moments, h]

theorem Moment.pictures_cons_of_none {t : Moment δ} (h : t.stroke? = none)
    (history : List (Moment δ)) : pictures (t :: history) = pictures history := by
  simp [pictures, h]

theorem Moment.pictures_cons_of_isSome {t : Moment δ} (h : t.stroke?.isSome = true)
    (history : List (Moment δ)) :
    pictures (t :: history) = t.outcome.machine.screen :: pictures history := by
  obtain ⟨k, hk⟩ := Option.isSome_iff_exists.1 h
  simp [pictures, hk]

namespace Outcome

/-- The frames that are taken in a run are the screens right after its first strokes. -/
theorem frames_run {o : Outcome Recorder} {frames : Nat}
    (hcapacity : o.devices.capacity = some frames) (n : Nat) :
    (o.run n).devices.frames.toList =
      o.devices.frames.toList ++
        (Moment.pictures (o.moments n)).take (frames - o.devices.frames.size) := by
  induction n generalizing o with
  | zero => simp [run, moments, Moment.pictures]
  | succ n ih =>
    cases hresult : o.result with
    | error fault =>
      rw [run_of_error hresult, moments_of_error hresult]
      simp [Moment.pictures]
    | ok flow =>
      have hok : o.result.isOk = true := by rw [hresult]; rfl
      rw [run_succ_of_isOk hok, moments_succ_of_isOk hok]
      rcases advance_taking hcapacity with
        ⟨hstroke, hframes, hkept⟩ | ⟨hstroke, hroom, htaken, -⟩ |
          ⟨hstroke, hfull, hdevices, hfault, -⟩
      · rw [ih hkept, hframes, Moment.pictures_cons_of_none hstroke]
      · have hleft : frames - o.devices.frames.size = frames - (o.devices.frames.size + 1) + 1 := by
          omega
        rw [ih (by rw [htaken]; exact hcapacity), htaken, Moment.pictures_cons_of_isSome hstroke,
          hleft, List.take_succ_cons, Array.toList_push, Array.size_push, List.append_assoc]
        rfl
      · rw [run_of_error hfault, moments_of_error hfault, hdevices, Nat.sub_eq_zero_of_le hfull,
          List.take_zero, List.append_nil]

/-- Where a run has a stroke more than frames can be taken, that stroke is the last thing that
happens.  Sprite and flag are left as after any other stroke. -/
theorem refused_run {o : Outcome Recorder} {frames : Nat}
    (hcapacity : o.devices.capacity = some frames)
    (hsize : o.devices.frames.size ≤ frames) {n : Nat}
    (hmore : frames < o.devices.frames.size + (Moment.pictures (o.moments n)).length) :
    o.devices.frames.size + (Moment.pictures (o.moments n)).length = frames + 1 ∧
      (o.run n).result = .error .disconnected ∧
      ∃ t x y rows, (o.moments n).getLast? = some t ∧
        t.machine.upcoming? = some (.draw x y rows) ∧
        (o.run n).machine = t.machine.advanced.drawn x y rows := by
  induction n generalizing o with
  | zero => exact absurd hmore (Nat.not_lt.2 hsize)
  | succ n ih =>
    cases hresult : o.result with
    | error fault =>
      rw [moments_of_error hresult] at hmore
      exact absurd hmore (Nat.not_lt.2 hsize)
    | ok flow =>
      have hok : o.result.isOk = true := by rw [hresult]; rfl
      rw [run_succ_of_isOk hok]
      rw [moments_succ_of_isOk hok] at hmore ⊢
      -- Whatever comes last of the rest of the run comes last of the run.
      have hgrow {t : Moment Recorder} (hlast : (o.advance.moments n).getLast? = some t) :
          ((⟨o.machine, o.devices, .step⟩ : Moment Recorder) :: o.advance.moments n).getLast? =
            some t := by
        rw [List.getLast?_cons, hlast]
        rfl
      rcases advance_taking hcapacity with
        ⟨hstroke, hframes, hkept⟩ | ⟨hstroke, hroom, htaken, -⟩ |
          ⟨hstroke, hfull, -, hfault, x, y, rows, hi, hmachine⟩
      · rw [Moment.pictures_cons_of_none hstroke, ← hframes] at hmore ⊢
        rw [← hframes] at hsize
        obtain ⟨hlength, hrun, t, x, y, rows, hlast, hdraw⟩ := ih hkept hsize hmore
        exact ⟨hlength, hrun, t, x, y, rows, hgrow hlast, hdraw⟩
      · have hcount : o.advance.devices.frames.size = o.devices.frames.size + 1 := by
          rw [htaken, Array.size_push]
        rw [Moment.pictures_cons_of_isSome hstroke, List.length_cons] at hmore ⊢
        obtain ⟨hlength, hrun, t, x, y, rows, hlast, hdraw⟩ :=
          ih (by rw [htaken]; exact hcapacity) (by omega) (by omega)
        exact ⟨by omega, hrun, t, x, y, rows, hgrow hlast, hdraw⟩
      · have hempty : Moment.pictures (o.advance.moments n) = [] := by
          rw [moments_of_error hfault]
          rfl
        rw [run_of_error hfault, Moment.pictures_cons_of_isSome hstroke, hempty]
        refine ⟨?_, hfault, ⟨o.machine, o.devices, .step⟩, x, y, rows, ?_, hi, hmachine⟩
        · rw [List.length_singleton]
          omega
        · rw [moments_of_error hfault]
          rfl

end Outcome

end ChipEight
