import ChipEight.Devices.Link
import ChipEight.Devices.Recorder
import ChipEight.Proofs.Alike
import ChipEight.Proofs.Course

/-!
# Keys that a machine takes

Devices that hold keys in a queue deliver them in order, and a machine takes them one by one: a poll
and a wait take the first key if there is one, whether or not it is the key that was asked for, and
nothing else touches the queue.  The keys that were delivered over a course of actions, followed by
those that are left, are therefore the keys from the start, and as many were delivered as there were
instructions that asked for a key and found one.

Main results:

- `QueuedKeys.act`: an action takes the first key or leaves the queue alone.
- `QueuedKeys.after`: what was delivered over a course of actions, and what is left.
- `QueuedKeys.step_of_skipPressed`, `QueuedKeys.step_of_skipNotPressed`,
  `QueuedKeys.step_of_awaitKey`: what a machine does with a key that is delivered, or without one.
- `keys_taken_in_order`: all of it, over any course of actions.
-/

namespace ChipEight

variable {δ : Type} [Devices δ]

/-! ## Devices with a queue of keys -/

/-- Devices that are ready hold keys in a queue: a poll and a wait answer with the first key and
take it off; if there is none, a poll answers so, and a wait ends in a fault.  No call makes the
devices less ready. -/
structure QueuedKeys (queue : δ → List Key) (Ready : δ → Prop) : Prop where
  draw : ∀ {d}, Ready d → ∀ frame,
    Ready (Devices.draw frame d).2 ∧ queue (Devices.draw frame d).2 = queue d
  poll : ∀ {d}, Ready d → (Devices.pollKey d).1 = .ok (queue d).head? ∧
    Ready (Devices.pollKey d).2 ∧ queue (Devices.pollKey d).2 = (queue d).tail
  await : ∀ {d}, Ready d → (Devices.awaitKey d).1.toOption = (queue d).head? ∧
    Ready (Devices.awaitKey d).2 ∧ queue (Devices.awaitKey d).2 = (queue d).tail

/-- A link holds the keys that were pressed and not yet taken. -/
theorem queuedKeys_link : QueuedKeys Link.keys fun _ => True where
  draw := by
    intro l _ frame
    simp only [Devices.draw]
    split <;> exact ⟨trivial, rfl⟩
  poll := by
    rintro ⟨capacity, _ | ⟨key, rest⟩, shown, windowHeld, keyboardHeld, devicesHeld⟩ _ <;>
      exact ⟨rfl, trivial, rfl⟩
  await := by
    rintro ⟨capacity, _ | ⟨key, rest⟩, shown, windowHeld, keyboardHeld, devicesHeld⟩ _ <;>
      exact ⟨rfl, trivial, rfl⟩

/-- A recorder whose polls do not fail holds the keys that are still to come. -/
theorem queuedKeys_recorder : QueuedKeys Recorder.keys fun r => r.pollFault = none where
  draw := by
    intro r hr frame
    simp only [Devices.draw]
    split <;> exact ⟨hr, rfl⟩
  poll := by
    rintro ⟨frames, _ | ⟨key, rest⟩, capacity, exhausted, pollFault⟩ rfl <;> exact ⟨rfl, rfl, rfl⟩
  await := by
    rintro ⟨frames, _ | ⟨key, rest⟩, capacity, exhausted, pollFault⟩ rfl <;> exact ⟨rfl, rfl, rfl⟩

/-! ## Keys that are delivered -/

/-- The instruction asks for a key. -/
def Instruction.asksForKey : Instruction → Bool
  | .skipPressed _ | .skipNotPressed _ | .awaitKey _ => true
  | _ => false

namespace Moment

/-- The key with which the devices answer the call that a step makes, if they answer with one. -/
def delivered? (t : Moment δ) : Option Key :=
  if t.action = .step then
    match t.machine.request? with
    | some .pollKey => (Devices.pollKey t.devices).1.toOption.join
    | some .awaitKey => (Devices.awaitKey t.devices).1.toOption
    | some .draw | none => none
  else none

omit [Devices δ] in
/-- An instruction is executed that asks for a key and finds one in the queue. -/
def findsKey (queue : δ → List Key) (t : Moment δ) : Bool :=
  t.action = .step && t.machine.upcoming?.any Instruction.asksForKey && queue t.devices ≠ []

end Moment

namespace Machine

omit [Devices δ] in
/-- The steps that call for a key are those of an instruction that asks for one. -/
theorem any_asksForKey (m : Machine) :
    m.upcoming?.any Instruction.asksForKey =
      (m.request? = some .pollKey || m.request? = some .awaitKey) := by
  cases hi : m.upcoming? with
  | none => rw [request?_of_upcoming_eq_none hi]; rfl
  | some i =>
    rw [request?_of_upcoming hi]
    cases i with
    | draw x y rows =>
      simp only [requestOf?]
      split <;> rfl
    | _ => rfl

/-- The machine whose program counter has passed the upcoming instruction, and one more if that is
skipped. -/
def passed (m : Machine) (skips : Bool) : Machine :=
  m.withRegisters { m.registers with pc := m.registers.pc + if skips then 4 else 2 }

omit [Devices δ] in
theorem advanced_skipIf (m : Machine) (skips : Bool) :
    m.advanced.withRegisters (m.advanced.registers.skipIf skips) = m.passed skips := by
  cases skips with
  | false => rfl
  | true =>
    have hpc : m.registers.pc + 2 + 2 = m.registers.pc + 4 := UInt16.add_assoc _ _ _
    simp only [passed, if_true, ← hpc]
    rfl

end Machine

namespace QueuedKeys

variable {queue : δ → List Key} {Ready : δ → Prop}

/-- A step takes the first key if it calls for one, and else leaves the queue alone. -/
theorem step (h : QueuedKeys queue Ready) (m : Machine) {d : δ} (hd : Ready d) :
    Ready (m.step d).devices ∧ queue (m.step d).devices =
      if m.request? = some .pollKey ∨ m.request? = some .awaitKey then (queue d).tail
      else queue d := by
  have halike : (m.step d).Alike (fun after _ => Ready after ∧ queue after =
      if m.request? = some .pollKey ∨ m.request? = some .awaitKey then (queue d).tail else queue d)
      (m.step d) := by
    apply Machine.step_alike
    case hnone =>
      intro hrequest
      simp [hrequest, hd]
    case hdraw =>
      intro hrequest frame
      simp [hrequest, h.draw hd frame]
    case hawait =>
      intro hrequest
      simp [hrequest, h.await hd]
    case hpoll =>
      intro hrequest
      simp [hrequest, h.poll hd]
  exact halike.devices

/-- An action takes the key that it is given off the queue, and it is given one if it asks for a key
and finds one. -/
theorem act (h : QueuedKeys queue Ready) (m : Machine) {d : δ} (hd : Ready d) (action : Action) :
    Ready (m.act d action).devices ∧
      (Moment.mk m d action).delivered?.toList ++ queue (m.act d action).devices = queue d ∧
      (Moment.mk m d action).delivered?.isSome = (Moment.mk m d action).findsKey queue := by
  cases action with
  | load program =>
    have hsame : (m.act d (.load program)).devices = d := by
      simp only [Machine.act]
      split <;> rfl
    rw [hsame]
    exact ⟨hd, rfl, rfl⟩
  | tickDelay | tickSound => exact ⟨hd, rfl, rfl⟩
  | step =>
    obtain ⟨hready, hqueue⟩ := h.step m hd
    refine ⟨hready, ?_⟩
    show _ ++ queue (m.step d).devices = _ ∧ _
    rw [hqueue]
    unfold Moment.delivered? Moment.findsKey
    rw [m.any_asksForKey]
    cases hrequest : m.request? with
    | none => simp
    | some request =>
      cases request with
      | draw => simp
      | awaitKey =>
        have hanswer := (h.await hd).1
        cases hkeys : queue d <;> simp [hanswer, hkeys]
      | pollKey =>
        have hanswer := (h.poll hd).1
        cases hkeys : queue d <;> simp [hanswer, hkeys, Except.toOption]

/-- An action that finds no key leaves the queue alone. -/
theorem act_of_not_findsKey (h : QueuedKeys queue Ready) {m : Machine} {d : δ} (hd : Ready d)
    {action : Action} (hnot : (Moment.mk m d action).findsKey queue = false) :
    (Moment.mk m d action).delivered? = none ∧ queue (m.act d action).devices = queue d := by
  obtain ⟨-, htaken, hfinds⟩ := h.act m hd action
  rw [hnot, Option.isSome_eq_false_iff, Option.isNone_iff_eq_none] at hfinds
  rw [hfinds] at htaken
  exact ⟨hfinds, htaken⟩

/-- An action that finds a key is given the first one. -/
theorem act_of_findsKey (h : QueuedKeys queue Ready) {m : Machine} {d : δ} (hd : Ready d)
    {action : Action} (hfound : (Moment.mk m d action).findsKey queue = true) :
    ∃ key, (Moment.mk m d action).delivered? = some key ∧
      queue d = key :: queue (m.act d action).devices := by
  obtain ⟨-, htaken, hfinds⟩ := h.act m hd action
  obtain ⟨key, hkey⟩ := Option.isSome_iff_exists.1 (hfinds.trans hfound)
  rw [hkey] at htaken
  exact ⟨key, hkey, htaken.symm⟩

/-- The keys that are delivered over a course of actions, followed by those that are left, are the
keys from the start, and as many are delivered as there are instructions that ask for a key and find
one. -/
theorem after (h : QueuedKeys queue Ready) (m : Machine) {d : δ} (hd : Ready d)
    (actions : List Action) :
    (m.history d actions).filterMap Moment.delivered? ++ queue (m.after d actions).2 = queue d ∧
      ((m.history d actions).filterMap Moment.delivered?).length =
        (m.history d actions).countP (Moment.findsKey queue) ∧
      ∀ t ∈ m.history d actions, Ready t.devices := by
  induction actions generalizing m d with
  | nil => exact ⟨rfl, rfl, nofun⟩
  | cons action actions ih =>
    obtain ⟨hready, hqueue, hfinds⟩ := h.act m hd action
    obtain ⟨hrest, hlength, hall⟩ := ih (m.act d action).machine hready
    rw [Machine.history, Machine.after]
    refine ⟨?_, ?_, List.forall_mem_cons.2 ⟨hd, hall⟩⟩
    · rw [← hqueue, ← hrest, ← List.append_assoc, List.filterMap_cons]
      cases (Moment.mk m d action).delivered? <;> rfl
    · rw [List.countP_cons, ← hlength, ← hfinds, List.filterMap_cons]
      cases (Moment.mk m d action).delivered? <;> rfl

/-! ## What a machine does with a key -/

theorem delivered?_of_asksForKey (h : QueuedKeys queue Ready) {m : Machine} {i : Instruction}
    (hi : m.upcoming? = some i) (hasks : i.asksForKey = true) {d : δ} (hd : Ready d) :
    (Moment.mk m d .step).delivered? = (queue d).head? := by
  have hany := m.any_asksForKey
  rw [hi, Option.any_some, hasks, eq_comm, Bool.or_eq_true, decide_eq_true_iff,
    decide_eq_true_iff] at hany
  rcases hany with hrequest | hrequest
  · simp [Moment.delivered?, hrequest, (h.poll hd).1, Except.toOption]
  · simp [Moment.delivered?, hrequest, (h.await hd).1]

theorem skipOnKey_eq (h : QueuedKeys queue Ready) (m : Machine) {d : δ} (hd : Ready d) (x : UInt8)
    (wanted : Bool) :
    m.skipOnKey d x wanted =
      (m.withRegisters (m.registers.skipIf
        (((queue d).head?.map Key.number == some (m.registers.get x)) == wanted))).completed
        (Devices.pollKey d).2 .next := by
  have hanswer := (h.poll hd).1
  unfold Machine.skipOnKey
  rcases hpoll : Devices.pollKey d with ⟨answer, rest⟩
  rw [hpoll] at hanswer
  cases hanswer
  rfl

theorem step_of_skipPressed (h : QueuedKeys queue Ready) {m : Machine} {x : UInt8}
    (hi : m.upcoming? = some (.skipPressed x)) {d : δ} (hd : Ready d) :
    (m.step d).result = .ok .next ∧
      (m.step d).machine = m.passed
        ((Moment.mk m d .step).delivered?.map Key.number == some (m.registers.get x)) := by
  rw [Machine.result_step_of_upcoming hi, Machine.machine_step_of_upcoming hi,
    h.delivered?_of_asksForKey hi rfl hd]
  simp only [Machine.execute, h.skipOnKey_eq _ hd]
  refine ⟨rfl, ?_⟩
  rw [← Machine.advanced_skipIf, beq_true]
  rfl

theorem step_of_skipNotPressed (h : QueuedKeys queue Ready) {m : Machine} {x : UInt8}
    (hi : m.upcoming? = some (.skipNotPressed x)) {d : δ} (hd : Ready d) :
    (m.step d).result = .ok .next ∧
      (m.step d).machine = m.passed
        ((Moment.mk m d .step).delivered?.map Key.number != some (m.registers.get x)) := by
  rw [Machine.result_step_of_upcoming hi, Machine.machine_step_of_upcoming hi,
    h.delivered?_of_asksForKey hi rfl hd]
  simp only [Machine.execute, h.skipOnKey_eq _ hd]
  refine ⟨rfl, ?_⟩
  rw [← Machine.advanced_skipIf, beq_false]
  rfl

theorem step_of_awaitKey (h : QueuedKeys queue Ready) {m : Machine} {x : UInt8}
    (hi : m.upcoming? = some (.awaitKey x)) {d : δ} (hd : Ready d) :
    (∀ key, (Moment.mk m d .step).delivered? = some key →
        (m.step d).result = .ok .keyPress ∧
          (m.step d).machine =
            (m.passed false).withRegisters ((m.passed false).registers.set x key.number)) ∧
      ((Moment.mk m d .step).delivered? = none →
        (∃ fault, (m.step d).result = .error fault) ∧ (m.step d).machine = m.passed false) := by
  have hanswer := (h.await hd).1
  rw [Machine.result_step_of_upcoming hi, Machine.machine_step_of_upcoming hi,
    h.delivered?_of_asksForKey hi rfl hd, ← hanswer]
  simp only [Machine.execute, Machine.awaitKey]
  rcases Devices.awaitKey d with ⟨answer, rest⟩
  cases answer with
  | ok key =>
    refine ⟨?_, fun h => absurd h (Option.some_ne_none key)⟩
    rintro _ ⟨⟩
    exact ⟨rfl, rfl⟩
  | error fault =>
    exact ⟨fun key h => absurd h.symm (Option.some_ne_none key), fun _ => ⟨⟨fault, rfl⟩, rfl⟩⟩

end QueuedKeys

/-- No key has a number from sixteen on. -/
theorem Key.map_number_ne {v : UInt8} (hv : 16 ≤ v.toNat) (key : Option Key) :
    key.map Key.number ≠ some v := by
  intro h
  obtain ⟨k, -, rfl⟩ := Option.map_eq_some_iff.1 h
  exact absurd k.number_lt (Nat.not_lt.2 hv)

omit [Devices δ] in
theorem Moment.findsKey_eq_true_iff {queue : δ → List Key} {t : Moment δ} :
    t.findsKey queue = true ↔
      (t.action = .step ∧ ∃ x, t.machine.upcoming? = some (.skipPressed x) ∨
        t.machine.upcoming? = some (.skipNotPressed x) ∨
        t.machine.upcoming? = some (.awaitKey x)) ∧ queue t.devices ≠ [] := by
  rw [findsKey, Bool.and_eq_true, Bool.and_eq_true, decide_eq_true_iff, decide_eq_true_iff,
    Option.any_eq_true]
  refine and_congr_left fun _ => and_congr_right fun _ => ⟨?_, ?_⟩
  · rintro ⟨i, hi, hasks⟩
    cases i with
    | skipPressed x => exact ⟨x, .inl hi⟩
    | skipNotPressed x => exact ⟨x, .inr (.inl hi)⟩
    | awaitKey x => exact ⟨x, .inr (.inr hi)⟩
    | _ => cases hasks
  · rintro ⟨x, hi | hi | hi⟩
    · exact ⟨_, hi, rfl⟩
    · exact ⟨_, hi, rfl⟩
    · exact ⟨_, hi, rfl⟩

namespace QueuedKeys

variable {queue : δ → List Key} {Ready : δ → Prop}

/-- An action that finds a key succeeds. -/
theorem isOk_of_findsKey (h : QueuedKeys queue Ready) {m : Machine} {d : δ} (hd : Ready d)
    {action : Action} (hfound : (Moment.mk m d action).findsKey queue = true) :
    (m.act d action).result.isOk = true := by
  obtain ⟨⟨rfl, x, hi⟩, -⟩ := Moment.findsKey_eq_true_iff.1 hfound
  show (m.step d).result.isOk = true
  rcases hi with hi | hi | hi
  · rw [(h.step_of_skipPressed hi hd).1]
    rfl
  · rw [(h.step_of_skipNotPressed hi hd).1]
    rfl
  · obtain ⟨key, hkey, -⟩ := h.act_of_findsKey hd hfound
    rw [((h.step_of_awaitKey hi hd).1 key hkey).1]
    rfl

/-- What ends in a fault leaves the queue alone. -/
theorem queue_act_of_error (h : QueuedKeys queue Ready) {m : Machine} {d : δ} (hd : Ready d)
    {action : Action} {fault : Fault} (hfault : (m.act d action).result = .error fault) :
    queue (m.act d action).devices = queue d := by
  cases hfound : (Moment.mk m d action).findsKey queue with
  | false => exact (h.act_of_not_findsKey hd hfound).2
  | true =>
    have hok := h.isOk_of_findsKey hd hfound
    rw [hfault] at hok
    cases hok

end QueuedKeys

/-- Over any course of actions on devices that hold keys in a queue, the keys that are delivered are
the first ones of the queue, in order, as many as there are instructions that ask for a key and find
the queue not empty; the others are left in the queue.  Each such instruction takes one key,
whatever key it asks for, and succeeds; nothing else touches the queue, and neither does anything
that ends in a fault.  A wait stores the number of the key and goes on behind its instruction; a
skip on a pressed key skips if the key that was delivered is the one in the register, and a skip on
a key that is not pressed skips if it is another one or if there was none.  A register from sixteen
on holds no key. -/
theorem keys_taken_in_order {queue : δ → List Key} {Ready : δ → Prop} (h : QueuedKeys queue Ready)
    (m : Machine) {d : δ} (hd : Ready d) (actions : List Action) :
    let history := m.history d actions
    let found := history.countP (Moment.findsKey queue)
    history.filterMap Moment.delivered? = (queue d).take found ∧
      queue (m.after d actions).2 = (queue d).drop found ∧
      ∀ t ∈ history,
        (t.findsKey queue = true ↔
          (t.action = .step ∧ ∃ x, t.machine.upcoming? = some (.skipPressed x) ∨
            t.machine.upcoming? = some (.skipNotPressed x) ∨
            t.machine.upcoming? = some (.awaitKey x)) ∧ queue t.devices ≠ []) ∧
        (t.findsKey queue = true → t.outcome.result.isOk = true ∧
          ∃ key, t.delivered? = some key ∧ queue t.devices = key :: queue t.outcome.devices) ∧
        (t.findsKey queue = false →
          t.delivered? = none ∧ queue t.outcome.devices = queue t.devices) ∧
        (∀ fault, t.outcome.result = .error fault →
          queue t.outcome.devices = queue t.devices) ∧
        (∀ x, t.action = .step → t.machine.upcoming? = some (.awaitKey x) →
          (∀ key, t.delivered? = some key →
            t.outcome.result = .ok .keyPress ∧ key.number.toNat < 16 ∧
              t.outcome.machine = (t.machine.passed false).withRegisters
                ((t.machine.passed false).registers.set x key.number) ∧
              t.outcome.machine.registers.get x = key.number) ∧
          (t.delivered? = none →
            (∃ fault, t.outcome.result = .error fault) ∧
              t.outcome.machine = t.machine.passed false)) ∧
        (∀ x, t.action = .step → t.machine.upcoming? = some (.skipPressed x) →
          t.outcome.result = .ok .next ∧
            t.outcome.machine = t.machine.passed
              (t.delivered?.map Key.number == some (t.machine.registers.get x)) ∧
            (16 ≤ (t.machine.registers.get x).toNat →
              t.outcome.machine = t.machine.passed false)) ∧
        ∀ x, t.action = .step → t.machine.upcoming? = some (.skipNotPressed x) →
          t.outcome.result = .ok .next ∧
            t.outcome.machine = t.machine.passed
              (t.delivered?.map Key.number != some (t.machine.registers.get x)) ∧
            (16 ≤ (t.machine.registers.get x).toNat →
              t.outcome.machine = t.machine.passed true) := by
  intro history found
  obtain ⟨hqueue, hlength, hready⟩ := h.after m hd actions
  have hfound : found = (history.filterMap Moment.delivered?).length := hlength.symm
  refine ⟨?_, ?_, ?_⟩
  · rw [← hqueue, hfound, List.take_left]
  · rw [← hqueue, hfound, List.drop_left]
  · rintro ⟨m, d, action⟩ ht
    have hd : Ready d := hready _ ht
    refine ⟨Moment.findsKey_eq_true_iff,
      fun hfound => ⟨h.isOk_of_findsKey hd hfound, h.act_of_findsKey hd hfound⟩,
      h.act_of_not_findsKey hd, fun fault hfault => h.queue_act_of_error hd hfault, ?_, ?_, ?_⟩
    · rintro x ⟨⟩ hi
      obtain ⟨hsome, hempty⟩ := h.step_of_awaitKey hi hd
      refine ⟨fun key hkey => ?_, hempty⟩
      obtain ⟨hresult, hmachine⟩ := hsome key hkey
      have hregister := congrArg (fun n : Machine => n.registers.get x) hmachine
      exact ⟨hresult, key.number_lt, hmachine,
        hregister.trans ((Registers.get_set _ x x key.number).trans (if_pos rfl))⟩
    · rintro x ⟨⟩ hi
      obtain ⟨hresult, hmachine⟩ := h.step_of_skipPressed hi hd
      refine ⟨hresult, hmachine, fun hv => ?_⟩
      rw [beq_false_of_ne (Key.map_number_ne hv _)] at hmachine
      exact hmachine
    · rintro x ⟨⟩ hi
      obtain ⟨hresult, hmachine⟩ := h.step_of_skipNotPressed hi hd
      refine ⟨hresult, hmachine, fun hv => ?_⟩
      rw [bne, beq_false_of_ne (Key.map_number_ne hv _)] at hmachine
      exact hmachine

/-- A program skips on key 0 and then waits for a key.  Key 3, which comes first, is taken without a
skip, key 5 is stored, and key 7 is left. -/
theorem keys_taken_in_order_mismatch :
    ∃ (m : Machine) (three five seven : Key),
      m = (Machine.fresh {} .zero).loaded [0xE0, 0x9E, 0xF1, 0x0A] ∧
        three.number = 3 ∧ five.number = 5 ∧ seven.number = 7 ∧
        (m.history ({ keys := [three, five, seven] } : Recorder)
          [.step, .tickDelay, .step]).filterMap Moment.delivered? = [three, five] ∧
        (m.after ({ keys := [three, five, seven] } : Recorder)
          [.step, .tickDelay, .step]).2.keys = [seven] := by
  obtain ⟨m, hm⟩ : ∃ m, m = (Machine.fresh {} .zero).loaded [0xE0, 0x9E, 0xF1, 0x0A] := ⟨_, rfl⟩
  obtain ⟨r, hr⟩ : ∃ r : Recorder,
      r = { keys := [⟨3, by decide⟩, ⟨5, by decide⟩, ⟨7, by decide⟩] } :=
    ⟨_, rfl⟩
  refine ⟨m, ⟨3, by decide⟩, ⟨5, by decide⟩, ⟨7, by decide⟩, hm, rfl, rfl, rfl, ?_⟩
  rw [← hr]
  have hready : r.pollFault = none := by rw [hr]
  have hkeys : r.keys = [⟨3, by decide⟩, ⟨5, by decide⟩, ⟨7, by decide⟩] := by rw [hr]
  have hskip : m.upcoming? = some (.skipPressed 0) := by
    rw [hm]
    exact Machine.upcoming?_loaded _ 0xE0 0x9E [0xF1, 0x0A]
  -- The first step takes key 3, which is not the one in register 0, and goes on behind its
  -- instruction.
  obtain ⟨hready', hkeys'⟩ := queuedKeys_recorder.step m hready
  rw [Machine.request?_of_upcoming hskip, if_pos (.inl rfl), hkeys] at hkeys'
  have hstep : (m.step r).machine = m.passed false := by
    rw [(queuedKeys_recorder.step_of_skipPressed hskip hready).2,
      queuedKeys_recorder.delivered?_of_asksForKey hskip rfl hready, hkeys, hm]
    rfl
  obtain ⟨n, hn⟩ : ∃ n : Machine,
      n = { m.passed false with timers := (m.passed false).timers.tickDelay } := ⟨_, rfl⟩
  have hwait : n.upcoming? = some (.awaitKey 1) := by
    have hpc : n.registers.pc.toNat = programStart + 2 := by
      rw [hn, hm]
      show (programStart.toUInt16 + 2).toNat = _
      decide
    have hmemory : n.memory = Memory.initial.store programStart [0xE0, 0x9E, 0xF1, 0x0A] := by
      rw [hn, hm]
      rfl
    exact Machine.upcoming?_of_program hmemory (by decide) hpc rfl rfl
  have hhistory : m.history r [.step, .tickDelay, .step] =
      [⟨m, r, .step⟩, ⟨m.passed false, (m.step r).devices, .tickDelay⟩,
        ⟨n, (m.step r).devices, .step⟩] := by
    rw [hn, ← hstep]
    rfl
  have hfound : (m.history r [.step, .tickDelay, .step]).countP (Moment.findsKey Recorder.keys) =
      2 := by
    have hfirst : (Moment.mk m r .step).findsKey Recorder.keys = true :=
      Moment.findsKey_eq_true_iff.2 ⟨⟨rfl, 0, .inl hskip⟩, by simp [hkeys]⟩
    have hthird : (Moment.mk n (m.step r).devices .step).findsKey Recorder.keys = true :=
      Moment.findsKey_eq_true_iff.2 ⟨⟨rfl, 1, .inr (.inr hwait)⟩, by simp [hkeys']⟩
    rw [hhistory, List.countP_cons, List.countP_cons, List.countP_singleton, hfirst, hthird]
    rfl
  obtain ⟨hdelivered, hleft, -⟩ :=
    keys_taken_in_order queuedKeys_recorder m hready [.step, .tickDelay, .step]
  rw [hfound, hkeys] at hdelivered hleft
  exact ⟨hdelivered, hleft⟩

end ChipEight
