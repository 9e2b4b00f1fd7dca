import ChipEight.Devices.Recorder
import ChipEight.Machine.Run
import ChipEight.Proofs.Alike
import ChipEight.Session

/-!
# Encounters

A machine and an audience over one link, where a call takes time: the machine begins the call of a
step before the call is answered, and the audience begins to wait before a frame comes.  The
audience may let go of window and keyboard while the machine is in the middle of a call, and does so
one after the other.  Whoever can move may move next.

However the moves interleave, the machine takes the steps that it takes on a recorder.  The recorder
takes as many frames as the audience wants and refuses every later one, and has the keys to come
that are in the queue.

Main results:

- `Machine.step_mirror`: a step on a link and on the recorder that mirrors it.
- `Encounter.Coherent.move`, `Encounter.Coherent.reaches`: every move keeps to the run on the
  recorder, and there are only so many moves.
- `Encounter.Coherent.endsAs_of_stuck`: where nobody can move, the run is over and everything was
  let go of.
-/

namespace ChipEight

/-! ## Moves -/

/-- A session in which the machine may have begun the call of its next step, and the audience may
have begun to wait for a frame. -/
structure Encounter where
  session : Session
  calling : Bool
  asking : Bool

namespace Encounter

/-- One move of one party.  The machine begins the call of a step (`call`) and goes on when it is
answered, which takes the audience if a frame is taken (`handOver`) and only the link if not
(`answer`); a step without a call is one move (`compute`).  At the end it lets go of the devices
(`finish`).  The audience waits for a frame (`ask`), in vain if the machine has gone (`turnAway`),
and lets go of the window and of the keyboard once it has had enough or the machine has gone. -/
inductive Move : Encounter → Encounter → Prop where
  | call {s : Session} {asking : Bool} (hover : s.isOver = false)
      (hrequest : s.machine.request?.isSome = true) : Move ⟨s, false, asking⟩ ⟨s, true, asking⟩
  | compute {s : Session} {asking : Bool} (hover : s.isOver = false)
      (hrequest : s.machine.request? = none) : Move ⟨s, false, asking⟩ ⟨s.takeStep, false, asking⟩
  | answer {s : Session} {asking : Bool} (hover : s.isOver = false)
      (hblocked : s.isBlocked = false) :
      Move ⟨s, true, asking⟩ ⟨s.takeStep, false, asking⟩
  | handOver {s : Session} (hover : s.isOver = false) (hrequest : s.machine.request? = some .draw)
      (hwindow : s.link.windowHeld = true) : Move ⟨s, true, true⟩ ⟨s.takeFrame, false, false⟩
  | finish {s : Session} {asking : Bool} (hover : s.isOver = true)
      (hdevices : s.link.devicesHeld = true) :
      Move ⟨s, false, asking⟩ ⟨{ s with link := s.link.dropDevices }, false, asking⟩
  | ask {s : Session} {calling : Bool} (hwanted : s.appetite.isSpent = false)
      (hwindow : s.link.windowHeld = true) : Move ⟨s, calling, false⟩ ⟨s, calling, true⟩
  | turnAway {s : Session} {calling : Bool} (hdevices : s.link.devicesHeld = false) :
      Move ⟨s, calling, true⟩ ⟨{ s with appetite := s.appetite.spend }, calling, false⟩
  | dropWindow {s : Session} {calling : Bool} (hleaving : s.isLeaving = true)
      (hwindow : s.link.windowHeld = true) :
      Move ⟨s, calling, false⟩ ⟨{ s with link := s.link.dropWindow }, calling, false⟩
  | dropKeyboard {s : Session} {calling : Bool} (hleaving : s.isLeaving = true)
      (hkeyboard : s.link.keyboardHeld = true) :
      Move ⟨s, calling, false⟩ ⟨{ s with link := s.link.dropKeyboard }, calling, false⟩

/-- An encounter comes of another by a number of moves. -/
inductive Reaches (e : Encounter) : Nat → Encounter → Prop where
  | refl : e.Reaches 0 e
  | step {count : Nat} {before after : Encounter} (h : e.Reaches count before)
      (hmove : before.Move after) : e.Reaches (count + 1) after

/-- Nobody can move. -/
def Stuck (e : Encounter) : Prop := ∀ after, ¬ e.Move after

/-- No fewer than the moves that are left. -/
def weight (e : Encounter) : Nat :=
  2 * e.session.steps.getD 0 + (!e.calling).toNat +
    (2 * e.session.appetite.getD 0 + (!e.asking).toNat) +
    (e.session.link.devicesHeld.toNat + e.session.link.windowHeld.toNat +
      e.session.link.keyboardHeld.toNat)

end Encounter

/-! ## Mirrors -/

/-- Devices that take a number of frames and refuse every later one, and that produce keys until
none is left. -/
def Recorder.taking (frames : Nat) (keys : List Key) : Recorder :=
  { keys, capacity := some frames, exhausted := .disconnected }

namespace Link

/-- The recorder that has taken the frames that a link has shown, that has the keys in the queue to
come, and that takes a number of frames in all. -/
def mirror (l : Link) (frames : Nat) : Recorder :=
  { Recorder.taking frames l.keys with frames := l.shown }

/-- What has become of a link while a step was taken on it, beside its mirror: a number of frames
was given to the audience, and nobody has let go of anything. -/
structure Answered (l : Link) (frames given : Nat) (after : Link) (mirrored : Recorder) : Prop where
  mirror_eq : after.mirror frames = mirrored
  size_shown : after.shown.size = l.shown.size + given
  devicesHeld_eq : after.devicesHeld = l.devicesHeld
  windowHeld_eq : after.windowHeld = l.windowHeld
  keyboardHeld_eq : after.keyboardHeld = l.keyboardHeld

end Link

/-- A step on a link is the step on its mirror, if the window is held for as long as frames are
wanted. -/
theorem Machine.step_mirror (m : Machine) (l : Link) {frames given : Nat}
    (hwindow : m.request? = some .draw → (l.windowHeld = true ↔ l.shown.size < frames))
    (hgiven : given = if m.request? = some .draw ∧ l.windowHeld = true then 1 else 0) :
    (m.step l).Alike (l.Answered frames given) (m.step (l.mirror frames)) := by
  have hquiet (h : m.request? ≠ some .draw) (keys : List Key) :
      l.Answered frames given { l with keys } { l.mirror frames with keys } := by
    have hnone : given = 0 := by rw [hgiven, if_neg fun hdraw => h hdraw.1]
    exact ⟨rfl, hnone ▸ rfl, rfl, rfl, rfl⟩
  apply step_alike
  case hnone =>
    intro h
    exact hquiet (by simp [h]) l.keys
  case hdraw =>
    intro h frame
    have hlink : Devices.draw frame l =
        if l.windowHeld then (.ok (), { l with shown := l.shown.push frame })
        else (.error .disconnected, l) := rfl
    have hmirror : Devices.draw frame (l.mirror frames) =
        if l.shown.size < frames then
          (.ok (), { l.mirror frames with frames := l.shown.push frame })
        else (.error .disconnected, l.mirror frames) := rfl
    rw [hlink, hmirror]
    by_cases hheld : l.windowHeld = true
    · rw [if_pos hheld, if_pos ((hwindow h).1 hheld)]
      have hone : given = 1 := by rw [hgiven, if_pos ⟨h, hheld⟩]
      exact ⟨rfl, rfl, by rw [hone, Array.size_push], rfl, rfl, rfl⟩
    · rw [if_neg hheld, if_neg (mt (hwindow h).2 hheld)]
      have hzero : given = 0 := by rw [hgiven, if_neg fun hdraw => hheld hdraw.2]
      exact ⟨rfl, rfl, hzero ▸ rfl, rfl, rfl, rfl⟩
  case hawait =>
    intro h
    have hrest := hquiet (by simp [h])
    have hsame : (l.mirror frames).keys = l.keys := rfl
    cases hkeys : l.keys with
    | nil =>
      have hlink : Devices.awaitKey l = (.error .disconnected, l) := by
        simp only [Devices.awaitKey, hkeys]
      have hmirror : Devices.awaitKey (l.mirror frames) =
          (.error .disconnected, l.mirror frames) := by
        simp only [Devices.awaitKey, hsame, hkeys]
        rfl
      rw [hlink, hmirror]
      exact ⟨rfl, hrest l.keys⟩
    | cons key rest =>
      have hlink : Devices.awaitKey l = (.ok key, { l with keys := rest }) := by
        simp only [Devices.awaitKey, hkeys]
      have hmirror : Devices.awaitKey (l.mirror frames) =
          (.ok key, { l.mirror frames with keys := rest }) := by
        simp only [Devices.awaitKey, hsame, hkeys]
      rw [hlink, hmirror]
      exact ⟨rfl, hrest rest⟩
  case hpoll =>
    intro h
    have hrest := hquiet (by simp [h])
    have hsame : (l.mirror frames).keys = l.keys := rfl
    have hpolls : (l.mirror frames).pollFault = none := rfl
    cases hkeys : l.keys with
    | nil =>
      have hlink : Devices.pollKey l = (.ok none, l) := by
        simp only [Devices.pollKey, hkeys]
      have hmirror : Devices.pollKey (l.mirror frames) = (.ok none, l.mirror frames) := by
        simp only [Devices.pollKey, hpolls, hsame, hkeys]
      rw [hlink, hmirror]
      exact ⟨rfl, hrest l.keys⟩
    | cons key rest =>
      have hlink : Devices.pollKey l = (.ok (some key), { l with keys := rest }) := by
        simp only [Devices.pollKey, hkeys]
      have hmirror : Devices.pollKey (l.mirror frames) =
          (.ok (some key), { l.mirror frames with keys := rest }) := by
        simp only [Devices.pollKey, hpolls, hsame, hkeys]
      rw [hlink, hmirror]
      exact ⟨rfl, hrest rest⟩

/-! ## Sessions beside a run -/

/-- Within a number of steps of a run, no wait for a key finds none to come before a number of
frames was taken. -/
def Outcome.Fed (o : Outcome Recorder) (frames steps : Nat) : Prop :=
  ∀ k < steps, (o.run k).result.isOk = true → (o.run k).machine.request? = some .awaitKey →
    (o.run k).devices.keys = [] → frames ≤ (o.run k).devices.frames.size

theorem Outcome.Fed.advance {o : Outcome Recorder} {frames steps : Nat}
    (h : o.Fed frames (steps + 1)) (hok : o.result.isOk = true) : o.advance.Fed frames steps := by
  intro k hk
  have hnext := h (k + 1) (Nat.succ_lt_succ hk)
  rw [run_succ_of_isOk hok] at hnext
  exact hnext

namespace Session

theorem takeStep_eq {s : Session} (hclock : s.clock = .stopped) :
    s.takeStep =
      { s with
        machine := (s.machine.step s.link).machine
        link := (s.machine.step s.link).devices
        steps := s.steps.spend
        result := (s.machine.step s.link).result
        events := (s.machine.step s.link).events } := by
  rcases s with ⟨machine, link, steps, appetite, typing, result, events, clock⟩
  cases hclock
  rfl

theorem isOver_eq_false_iff {s : Session} {left : Nat} (h : s.steps = some left) :
    s.isOver = false ↔ s.result.isOk = true ∧ left ≠ 0 := by
  unfold isOver
  cases s.result with
  | ok flow => simp [h, Allowance.isSpent, Except.isOk, Except.toBool]
  | error fault => simp [Except.isOk, Except.toBool]

/-- What the machine of a blocked session waits for. -/
theorem isBlocked_eq_true {s : Session} (h : s.isBlocked = true) :
    s.machine.request? = some .draw ∧ s.link.windowHeld = true ∨
      s.machine.request? = some .awaitKey ∧ s.link.keys = [] ∧ s.link.keyboardHeld = true := by
  unfold isBlocked at h
  split at h
  · next hrequest => exact .inl ⟨hrequest, of_decide_eq_true h⟩
  · next hrequest => exact .inr ⟨hrequest, of_decide_eq_true h⟩
  · cases h
  · cases h

/-- The machine of a session has come as far as a run on a recorder, with a number of steps left
until the run is at its end. -/
structure KeepsTo (s : Session) (frames left : Nat) (o final : Outcome Recorder) : Prop where
  steps_eq : s.steps = some left
  machine_eq : s.machine = o.machine
  result_eq : s.result = o.result
  mirror_eq : s.link.mirror frames = o.devices
  clock_eq : s.clock = .stopped
  run_eq : o.run left = final
  fed : o.Fed frames left

/-- The session is over as the run on a recorder is, and everything was let go of. -/
structure EndsAs (s : Session) (final : Outcome Recorder) : Prop where
  machine_eq : s.machine = final.machine
  result_eq : s.result = final.result
  shown_eq : s.link.shown = final.devices.frames
  keys_eq : s.link.keys = final.devices.keys
  devicesHeld_eq : s.link.devicesHeld = false
  windowHeld_eq : s.link.windowHeld = false
  keyboardHeld_eq : s.link.keyboardHeld = false

namespace KeepsTo

variable {s : Session} {frames left : Nat} {o final : Outcome Recorder}

/-- Neither what the parties hold nor what the audience wants matters to the run. -/
theorem elsewhere (h : s.KeepsTo frames left o final) (link : Link) (appetite : Allowance)
    (hmirror : link.mirror frames = s.link.mirror frames) :
    ({ s with link, appetite } : Session).KeepsTo frames left o final :=
  ⟨h.steps_eq, h.machine_eq, h.result_eq, hmirror.trans h.mirror_eq, h.clock_eq, h.run_eq, h.fed⟩

/-- A step of the session is the next step of the run, if the window is held for as long as frames
are wanted. -/
theorem takeStep (h : s.KeepsTo frames (left + 1) o final) (hok : s.result.isOk = true)
    {given : Nat} (hwindow : s.machine.request? = some .draw →
      (s.link.windowHeld = true ↔ s.link.shown.size < frames))
    (hgiven : given = if s.machine.request? = some .draw ∧ s.link.windowHeld = true then 1 else 0) :
    s.takeStep.KeepsTo frames left o.advance final ∧
      s.link.Answered frames given s.takeStep.link o.advance.devices := by
  have halike := s.machine.step_mirror s.link hwindow hgiven
  rw [h.machine_eq, h.mirror_eq] at halike
  rw [h.result_eq] at hok
  rw [takeStep_eq h.clock_eq, h.machine_eq]
  refine ⟨?_, halike.devices⟩
  exact {
    steps_eq := by
      show s.steps.spend = some left
      rw [h.steps_eq]
      rfl
    machine_eq := halike.machine_eq
    result_eq := halike.result_eq
    mirror_eq := halike.devices.mirror_eq
    clock_eq := h.clock_eq
    run_eq := (Outcome.run_succ_of_isOk hok left).symm.trans h.run_eq
    fed := h.fed.advance hok }

/-- A session that is over has come to the end of the run. -/
theorem eq_final (h : s.KeepsTo frames left o final) (hover : s.isOver = true) : o = final := by
  rw [← h.run_eq]
  cases hresult : o.result with
  | error fault => rw [Outcome.run_of_error hresult]
  | ok flow =>
    cases left with
    | zero => rfl
    | succ left =>
      have hgoes : s.isOver = false := by
        rw [isOver_eq_false_iff h.steps_eq, h.result_eq, hresult]
        exact ⟨rfl, nofun⟩
      rw [hgoes] at hover
      cases hover

end KeepsTo

end Session

/-! ## Every move keeps to the run -/

namespace Encounter

/-- The parties are where the run on a recorder has come to, the audience wants a number of frames
more, and nobody has let go of anything too early. -/
structure Coherent (e : Encounter) (frames left wanted : Nat) (o final : Outcome Recorder) :
    Prop where
  keepsTo : e.session.KeepsTo frames left o final
  appetite_eq : e.session.appetite = some wanted
  size_shown : e.session.link.devicesHeld = true → e.session.link.shown.size + wanted = frames
  window : e.session.link.windowHeld = false → wanted = 0 ∨ e.session.link.devicesHeld = false
  keyboard : e.session.link.keyboardHeld = false → wanted = 0 ∨ e.session.link.devicesHeld = false
  devices : e.session.link.devicesHeld = false → e.session.isOver = true
  asking : e.asking = true → e.session.link.windowHeld = true ∧ 0 < wanted
  calling : e.calling = true → e.session.isOver = false

namespace Coherent

variable {e after : Encounter} {frames left wanted : Nat} {o final : Outcome Recorder}

theorem isLeaving_iff (h : e.Coherent frames left wanted o final) :
    e.session.isLeaving = true ↔ wanted = 0 ∨ e.session.link.devicesHeld = false := by
  simp [Session.isLeaving, h.appetite_eq, Allowance.isSpent]

theorem weight_eq (h : e.Coherent frames left wanted o final) :
    e.weight =
      2 * left + (!e.calling).toNat + (2 * wanted + (!e.asking).toNat) +
        (e.session.link.devicesHeld.toNat + e.session.link.windowHeld.toNat +
          e.session.link.keyboardHeld.toNat) := by
  rw [weight, h.keepsTo.steps_eq, h.appetite_eq]
  rfl

theorem devicesHeld_of_goes (h : e.Coherent frames left wanted o final)
    (hover : e.session.isOver = false) : e.session.link.devicesHeld = true := by
  cases hdevices : e.session.link.devicesHeld with
  | true => rfl
  | false =>
    rw [h.devices hdevices] at hover
    cases hover

/-- Until the run is over the audience keeps the window for as long as it wants frames. -/
theorem eq_zero_of_goes (h : e.Coherent frames left wanted o final)
    (hover : e.session.isOver = false) (hwindow : e.session.link.windowHeld = false) :
    wanted = 0 := by
  rcases h.window hwindow with hzero | hdevices
  · exact hzero
  · rw [h.devicesHeld_of_goes hover] at hdevices
    cases hdevices

/-- A step in which the machine gives a number of frames to the audience. -/
theorem takeStep (h : e.Coherent frames left wanted o final) (hover : e.session.isOver = false)
    {given : Nat}
    (hwindow : e.session.machine.request? = some .draw →
      (e.session.link.windowHeld = true ↔ e.session.link.shown.size < frames))
    (hgiven : given = if e.session.machine.request? = some .draw ∧
      e.session.link.windowHeld = true then 1 else 0)
    (hle : given ≤ wanted) (asking : Bool) (hasking : asking = true → e.asking = true ∧ given = 0)
    (hspent : (!asking).toNat ≤ (!e.asking).toNat + given) {appetite : Allowance}
    (happetite : appetite = some (wanted - given))
    (hafter : after = ⟨{ e.session.takeStep with appetite }, false, asking⟩) :
    ∃ left wanted o, after.Coherent frames left wanted o final ∧ after.weight < e.weight := by
  obtain ⟨hok, hleft⟩ := (Session.isOver_eq_false_iff h.keepsTo.steps_eq).1 hover
  obtain ⟨left, rfl⟩ := Nat.exists_eq_succ_of_ne_zero hleft
  obtain ⟨hkeeps, hanswered⟩ := h.keepsTo.takeStep hok hwindow hgiven
  have hheld := h.devicesHeld_of_goes hover
  have hcoherent : after.Coherent frames left (wanted - given) o.advance final := by
    subst hafter
    exact {
      keepsTo := hkeeps.elsewhere _ appetite rfl
      appetite_eq := happetite
      size_shown := by
        intro _
        have hsize := h.size_shown hheld
        show e.session.takeStep.link.shown.size + (wanted - given) = frames
        rw [hanswered.size_shown]
        omega
      window := by
        intro hgone
        have hzero := h.eq_zero_of_goes hover (hanswered.windowHeld_eq.symm.trans hgone)
        exact .inl (by omega)
      keyboard := by
        intro hgone
        rcases h.keyboard (hanswered.keyboardHeld_eq.symm.trans hgone) with hzero | hno
        · exact .inl (by omega)
        · rw [hheld] at hno
          cases hno
      devices := by
        intro hgone
        rw [hanswered.devicesHeld_eq.symm.trans hgone] at hheld
        cases hheld
      asking := by
        intro hask
        obtain ⟨hasked, hzero⟩ := hasking hask
        obtain ⟨hopen, hpos⟩ := h.asking hasked
        exact ⟨hanswered.windowHeld_eq.trans hopen, by omega⟩
      calling := nofun }
  refine ⟨_, _, _, hcoherent, ?_⟩
  rw [h.weight_eq, hcoherent.weight_eq, hafter]
  simp only [hanswered.devicesHeld_eq, hanswered.windowHeld_eq, hanswered.keyboardHeld_eq,
    Bool.not_false, Bool.toNat_true]
  omega

/-- A step in which no frame is taken: it draws none, or the window is gone. -/
theorem takeStep_unseen (h : e.Coherent frames left wanted o final)
    (hover : e.session.isOver = false)
    (hunseen : e.session.machine.request? = some .draw → e.session.link.windowHeld = false)
    (hafter : after = ⟨e.session.takeStep, false, e.asking⟩) :
    ∃ left wanted o, after.Coherent frames left wanted o final ∧ after.weight < e.weight := by
  have hwindow (hdraw : e.session.machine.request? = some .draw) :
      e.session.link.windowHeld = true ↔ e.session.link.shown.size < frames := by
    have hsize := h.size_shown (h.devicesHeld_of_goes hover)
    rw [h.eq_zero_of_goes hover (hunseen hdraw)] at hsize
    rw [hunseen hdraw]
    exact ⟨nofun, fun hlt => by omega⟩
  have hnone : ¬ (e.session.machine.request? = some .draw ∧ e.session.link.windowHeld = true) := by
    intro hgiven
    rw [hunseen hgiven.1] at hgiven
    cases hgiven.2
  exact h.takeStep hover hwindow (if_neg hnone).symm (Nat.zero_le _) e.asking
    (fun hask => ⟨hask, rfl⟩) (Nat.le_refl _) h.appetite_eq hafter

/-- Every move keeps to the run, and there are only so many moves. -/
theorem move (h : e.Coherent frames left wanted o final) (hmove : e.Move after) :
    ∃ left wanted o, after.Coherent frames left wanted o final ∧ after.weight < e.weight := by
  cases hmove with
  | @call s asking hover hrequest =>
    have hcoherent : Coherent ⟨s, true, asking⟩ frames left wanted o final :=
      { h with calling := fun _ => hover }
    refine ⟨_, _, _, hcoherent, ?_⟩
    rw [h.weight_eq, hcoherent.weight_eq]
    simp
  | compute hover hrequest => exact h.takeStep_unseen hover (hrequest ▸ nofun) rfl
  | @answer s asking hover hblocked =>
    refine h.takeStep_unseen hover ?_ rfl
    intro hdraw
    simpa [Session.isBlocked, hdraw] using hblocked
  | @handOver s hover hrequest hwindow =>
    have hpos := (h.asking rfl).2
    have hsize : s.link.shown.size + wanted = frames := h.size_shown (h.devicesHeld_of_goes hover)
    have hroom : s.link.shown.size < frames := by omega
    refine h.takeStep hover (fun _ => iff_of_true hwindow hroom)
      (if_pos ⟨hrequest, hwindow⟩).symm hpos false nofun (Nat.le_refl _) ?_ rfl
    · show s.appetite.spend = _
      rw [h.appetite_eq]
      rfl
  | @finish s asking hover hdevices =>
    have hcoherent :
        Coherent ⟨{ s with link := s.link.dropDevices }, false, asking⟩
          frames left wanted o final := {
      keepsTo := h.keepsTo.elsewhere s.link.dropDevices s.appetite rfl
      appetite_eq := h.appetite_eq
      size_shown := nofun
      window := fun _ => .inr rfl
      keyboard := fun _ => .inr rfl
      devices := fun _ => hover
      asking := h.asking
      calling := nofun }
    refine ⟨_, _, _, hcoherent, ?_⟩
    rw [h.weight_eq, hcoherent.weight_eq, hdevices]
    simp [Link.dropDevices]
  | @ask s calling hwanted hwindow =>
    have happetite : s.appetite = some wanted := h.appetite_eq
    have hpos : 0 < wanted := by
      simpa [happetite, Allowance.isSpent, Nat.pos_iff_ne_zero] using hwanted
    have hcoherent : Coherent ⟨s, calling, true⟩ frames left wanted o final :=
      { h with asking := fun _ => ⟨hwindow, hpos⟩ }
    refine ⟨_, _, _, hcoherent, ?_⟩
    rw [h.weight_eq, hcoherent.weight_eq]
    simp
  | @turnAway s calling hdevices =>
    have hpos := (h.asking rfl).2
    have hcoherent :
        Coherent ⟨{ s with appetite := s.appetite.spend }, calling, false⟩ frames left (wanted - 1)
          o final := {
      keepsTo := h.keepsTo.elsewhere s.link s.appetite.spend rfl
      appetite_eq := by
        show s.appetite.spend = _
        rw [h.appetite_eq]
        rfl
      size_shown := fun hheld => nomatch hdevices.symm.trans hheld
      window := fun _ => .inr hdevices
      keyboard := fun _ => .inr hdevices
      devices := h.devices
      asking := nofun
      calling := h.calling }
    refine ⟨_, _, _, hcoherent, ?_⟩
    rw [h.weight_eq, hcoherent.weight_eq]
    simp
    omega
  | @dropWindow s calling hleaving hwindow =>
    have hcoherent :
        Coherent ⟨{ s with link := s.link.dropWindow }, calling, false⟩
          frames left wanted o final := {
      keepsTo := h.keepsTo.elsewhere s.link.dropWindow s.appetite rfl
      appetite_eq := h.appetite_eq
      size_shown := h.size_shown
      window := fun _ => h.isLeaving_iff.1 hleaving
      keyboard := h.keyboard
      devices := h.devices
      asking := nofun
      calling := h.calling }
    refine ⟨_, _, _, hcoherent, ?_⟩
    rw [h.weight_eq, hcoherent.weight_eq, hwindow]
    simp [Link.dropWindow]
  | @dropKeyboard s calling hleaving hkeyboard =>
    have hcoherent :
        Coherent ⟨{ s with link := s.link.dropKeyboard }, calling, false⟩ frames left wanted o
          final := {
      keepsTo := h.keepsTo.elsewhere s.link.dropKeyboard s.appetite rfl
      appetite_eq := h.appetite_eq
      size_shown := h.size_shown
      window := h.window
      keyboard := fun _ => h.isLeaving_iff.1 hleaving
      devices := h.devices
      asking := nofun
      calling := h.calling }
    refine ⟨_, _, _, hcoherent, ?_⟩
    rw [h.weight_eq, hcoherent.weight_eq, hkeyboard]
    simp [Link.dropKeyboard]

/-- The audience has had enough by the time that the machine waits for a key in vain. -/
theorem eq_zero_of_awaitKey (h : e.Coherent frames left wanted o final)
    (hover : e.session.isOver = false) (hrequest : e.session.machine.request? = some .awaitKey)
    (hkeys : e.session.link.keys = []) : wanted = 0 := by
  obtain ⟨hok, hleft⟩ := (Session.isOver_eq_false_iff h.keepsTo.steps_eq).1 hover
  have hfed := h.keepsTo.fed 0 (Nat.pos_of_ne_zero hleft)
  rw [Outcome.run, ← h.keepsTo.result_eq, ← h.keepsTo.machine_eq, ← h.keepsTo.mirror_eq] at hfed
  have htaken : frames ≤ e.session.link.shown.size := hfed hok hrequest hkeys
  have hsize := h.size_shown (h.devicesHeld_of_goes hover)
  omega

/-- Until the run is over somebody can move. -/
theorem exists_move (h : e.Coherent frames left wanted o final) (hover : e.session.isOver = false) :
    ∃ after, e.Move after := by
  rcases e with ⟨s, calling, asking⟩
  cases calling with
  | false =>
    cases hrequest : s.machine.request? with
    | none => exact ⟨_, .compute hover hrequest⟩
    | some request => exact ⟨_, .call hover (by rw [hrequest]; rfl)⟩
  | true =>
    cases hblocked : s.isBlocked with
    | false => exact ⟨_, .answer hover hblocked⟩
    | true =>
      rcases Session.isBlocked_eq_true hblocked with
        ⟨hrequest, hwindow⟩ | ⟨hrequest, hkeys, hkeyboard⟩
      · -- The frame is taken now, or waited for first, or the audience has had enough and goes.
        cases asking with
        | true => exact ⟨_, .handOver hover hrequest hwindow⟩
        | false =>
          cases hwanted : s.appetite.isSpent with
          | false => exact ⟨_, .ask hwanted hwindow⟩
          | true => exact ⟨_, .dropWindow (by simp [Session.isLeaving, hwanted]) hwindow⟩
      · -- Nobody can press a key, so that the audience has to have had enough.
        have hzero := h.eq_zero_of_awaitKey hover hrequest hkeys
        cases asking with
        | true =>
          have hpos := (h.asking rfl).2
          omega
        | false => exact ⟨_, .dropKeyboard (h.isLeaving_iff.2 (.inl hzero)) hkeyboard⟩

/-- The parties are done once the machine has come to the end of the run and everything was let go
of. -/
theorem endsAs (h : e.Coherent frames left wanted o final) (hover : e.session.isOver = true)
    (hdevices : e.session.link.devicesHeld = false) (hwindow : e.session.link.windowHeld = false)
    (hkeyboard : e.session.link.keyboardHeld = false) : e.session.EndsAs final := by
  obtain rfl := h.keepsTo.eq_final hover
  have hmirror := h.keepsTo.mirror_eq
  exact {
    machine_eq := h.keepsTo.machine_eq
    result_eq := h.keepsTo.result_eq
    shown_eq := congrArg Recorder.frames hmirror
    keys_eq := congrArg Recorder.keys hmirror
    devicesHeld_eq := hdevices
    windowHeld_eq := hwindow
    keyboardHeld_eq := hkeyboard }

/-- Where nobody can move the parties are done. -/
theorem endsAs_of_stuck (h : e.Coherent frames left wanted o final) (hstuck : e.Stuck) :
    e.session.EndsAs final := by
  have hover : e.session.isOver = true := by
    refine Bool.ne_false_iff.1 fun hover => ?_
    obtain ⟨after, hmove⟩ := h.exists_move hover
    exact hstuck after hmove
  rcases e with ⟨s, calling, asking⟩
  have hcalling : calling = false :=
    Bool.eq_false_iff.2 fun hcalling => nomatch hover.symm.trans (h.calling hcalling)
  subst hcalling
  have hdevices : s.link.devicesHeld = false :=
    Bool.eq_false_iff.2 fun hheld => hstuck _ (.finish hover hheld)
  have hasking : asking = false := by
    cases asking with
    | false => rfl
    | true => exact absurd (.turnAway hdevices) (hstuck _)
  subst hasking
  have hleaving : s.isLeaving = true := h.isLeaving_iff.2 (.inr hdevices)
  have hwindow : s.link.windowHeld = false :=
    Bool.eq_false_iff.2 fun hheld => hstuck _ (.dropWindow hleaving hheld)
  have hkeyboard : s.link.keyboardHeld = false :=
    Bool.eq_false_iff.2 fun hheld => hstuck _ (.dropKeyboard hleaving hheld)
  exact h.endsAs hover hdevices hwindow hkeyboard

/-- Every encounter that comes of this one keeps to the run, and there are only so many moves. -/
theorem reaches (h : e.Coherent frames left wanted o final) {count : Nat}
    (hreaches : e.Reaches count after) :
    ∃ left wanted o, after.Coherent frames left wanted o final ∧
      count + after.weight ≤ e.weight := by
  induction hreaches with
  | refl => exact ⟨_, _, _, h, Nat.le_of_eq (Nat.zero_add _)⟩
  | step _ hmove ih =>
    obtain ⟨_, _, _, hbefore, hcount⟩ := ih
    obtain ⟨_, _, _, hcoherent, hweight⟩ := hbefore.move hmove
    exact ⟨_, _, _, hcoherent, by omega⟩

end Coherent

end Encounter

end ChipEight
