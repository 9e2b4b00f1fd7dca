import ChipEight.Devices.Link

/-!
# The queue of keys

The two ends of a link, used one after the other in any order, and let go of at any moment.  Of the
keys that were pressed, those that were accepted come out at the other end in the order in which
they went in, none of them twice; what has not come out is in the queue, which never holds more than
its capacity.

Main results:

- `Link.delivered_exchange`: what one use does to the keys that were delivered, queued and accepted.
- `Link.delivered_append_keys`, `Link.length_keys_after_le`: the same over any sequence of uses.
- `key_queue_fifo`: the queue after any sequence of uses, and what each use answers then.
-/

namespace ChipEight

namespace Link

/-! ## Uses of a link -/

/-- Something that is done at one end of a link: the front end presses a key or lets go of its end,
the machine polls the keyboard, waits for a key or lets go of its end. -/
inductive Use where
  | press (key : Key)
  | poll
  | await
  | hangUp
  | dropDevices
deriving DecidableEq

/-- What a use answers. -/
inductive Reply where
  | pressed (accepted : Bool)
  | polled (answer : Except Fault (Option Key))
  | awaited (answer : Except Fault Key)
  | done

/-- The end is still held at which a use is made, and the use does not block. -/
def canUse (l : Link) : Use → Bool
  | .press _ | .hangUp => l.keyboardHeld
  | .poll | .dropDevices => l.devicesHeld
  | .await => l.devicesHeld && !decide l.AwaitBlocks

/-- What a use answers, and the link after it. -/
def exchange (l : Link) : Use → Reply × Link
  | .press key => (.pressed (decide l.Accepts), l.press key)
  | .poll => (.polled (Devices.pollKey l).1, (Devices.pollKey l).2)
  | .await => (.awaited (Devices.awaitKey l).1, (Devices.awaitKey l).2)
  | .hangUp => (.done, l.hangUp)
  | .dropDevices => (.done, l.dropDevices)

/-- The link after a sequence of uses, of which those are left out that cannot be made. -/
def after (l : Link) : List Use → Link
  | [] => l
  | use :: uses => if l.canUse use then (l.exchange use).2.after uses else l.after uses

/-- The uses of a sequence that are made, with what they answer. -/
def log (l : Link) : List Use → List (Use × Reply)
  | [] => []
  | use :: uses =>
    if l.canUse use then (use, (l.exchange use).1) :: (l.exchange use).2.log uses else l.log uses

/-- The key whose press is accepted in a use, if one is. -/
def accepted? : Use × Reply → Option Key
  | (.press key, .pressed true) => some key
  | _ => none

/-- The key that is delivered in a use, if one is. -/
def delivered? : Use × Reply → Option Key
  | (.poll, .polled (.ok key)) => key
  | (.await, .awaited (.ok key)) => some key
  | _ => none

/-! ## One use -/

theorem exchange_press (l : Link) (key : Key) :
    l.exchange (.press key) =
      if l.devicesHeld = true ∧ l.keys.length < l.capacity then
        (.pressed true, { l with keys := l.keys ++ [key] })
      else (.pressed false, l) := by
  unfold exchange press
  by_cases h : l.Accepts
  · simp only [if_pos h, decide_eq_true h]
  · simp only [if_neg h, decide_eq_false h]

theorem exchange_poll (l : Link) :
    l.exchange .poll = (.polled (.ok l.keys.head?), { l with keys := l.keys.tail }) := by
  rcases l with ⟨capacity, keys, shown, windowHeld, keyboardHeld, devicesHeld⟩
  cases keys <;> rfl

theorem exchange_await (l : Link) :
    l.exchange .await =
      (.awaited (l.keys.head?.elim (.error .disconnected) .ok),
        { l with keys := l.keys.tail }) := by
  rcases l with ⟨capacity, keys, shown, windowHeld, keyboardHeld, devicesHeld⟩
  cases keys <;> rfl

/-- A key that is delivered leaves the front of the queue, and a key that is accepted joins its
end. -/
theorem delivered_exchange (l : Link) (use : Use) :
    (delivered? (use, (l.exchange use).1)).toList ++ (l.exchange use).2.keys =
      l.keys ++ (accepted? (use, (l.exchange use).1)).toList := by
  cases use with
  | press key =>
    rw [exchange_press]
    split
    · rfl
    · exact (List.append_nil _).symm
  | poll =>
    rw [exchange_poll]
    show l.keys.head?.toList ++ l.keys.tail = l.keys ++ []
    rw [List.append_nil]
    cases l.keys <;> rfl
  | await =>
    rw [exchange_await]
    show _ = l.keys ++ []
    rw [List.append_nil]
    cases l.keys <;> rfl
  | hangUp | dropDevices => exact (List.append_nil _).symm

/-- No use makes the queue longer than its capacity, or changes that. -/
theorem length_keys_exchange_le {l : Link} (h : l.keys.length ≤ l.capacity) (use : Use) :
    (l.exchange use).2.keys.length ≤ l.capacity ∧ (l.exchange use).2.capacity = l.capacity := by
  cases use with
  | press key => exact ⟨length_keys_press_le h key, capacity_press l key⟩
  | poll =>
    rw [exchange_poll]
    exact ⟨by simp; omega, rfl⟩
  | await =>
    rw [exchange_await]
    exact ⟨by simp; omega, rfl⟩
  | hangUp | dropDevices => exact ⟨h, rfl⟩

/-- An end of the link is held until it is let go of. -/
theorem held_exchange (l : Link) (use : Use) :
    (l.exchange use).2.devicesHeld = (l.devicesHeld && use ≠ .dropDevices) ∧
      (l.exchange use).2.keyboardHeld = (l.keyboardHeld && use ≠ .hangUp) := by
  cases use with
  | press key =>
    rw [exchange_press]
    split <;> simp
  | poll => simp [exchange_poll]
  | await => simp [exchange_await]
  | hangUp => simp [exchange, hangUp]
  | dropDevices => simp [exchange, dropDevices]

/-! ## Sequences of uses -/

/-- The keys that are delivered, followed by those that are in the queue then, are the keys that
were in the queue before, followed by those that are accepted. -/
theorem delivered_append_keys (l : Link) (uses : List Use) :
    (l.log uses).filterMap delivered? ++ (l.after uses).keys =
      l.keys ++ (l.log uses).filterMap accepted? := by
  induction uses generalizing l with
  | nil => exact (List.append_nil _).symm
  | cons use uses ih =>
    rw [after, log]
    split
    · have hone := l.delivered_exchange use
      have hcons (f : Use × Reply → Option Key) (e : Use × Reply) (rest : List (Use × Reply)) :
          (e :: rest).filterMap f = (f e).toList ++ rest.filterMap f := by
        rw [List.filterMap_cons]
        cases f e <;> rfl
      rw [hcons, hcons, List.append_assoc, ih, ← List.append_assoc, hone, List.append_assoc]
    · exact ih l

/-- The queue never holds more keys than its capacity, which stays as it is. -/
theorem length_keys_after_le {l : Link} (h : l.keys.length ≤ l.capacity) (uses : List Use) :
    (l.after uses).keys.length ≤ l.capacity ∧ (l.after uses).capacity = l.capacity := by
  induction uses generalizing l with
  | nil => exact ⟨h, rfl⟩
  | cons use uses ih =>
    rw [after]
    split
    · obtain ⟨hlength, hcapacity⟩ := length_keys_exchange_le h use
      have hrest := ih (l := (l.exchange use).2) (by rw [hcapacity]; exact hlength)
      rw [hcapacity] at hrest
      exact hrest
    · exact ih h

/-- An end of the link is held exactly if no use has let go of it. -/
theorem held_after (l : Link) (uses : List Use) :
    ((l.after uses).devicesHeld = true ↔ l.devicesHeld = true ∧ Use.dropDevices ∉ uses) ∧
      ((l.after uses).keyboardHeld = true ↔ l.keyboardHeld = true ∧ Use.hangUp ∉ uses) := by
  induction uses generalizing l with
  | nil => simp [after]
  | cons use uses ih =>
    obtain ⟨hdevices, hkeyboard⟩ := l.held_exchange use
    rw [after]
    split
    · obtain ⟨hdevices', hkeyboard'⟩ := ih (l.exchange use).2
      have hcons (other : Use) : use ≠ other ∧ other ∉ uses ↔ other ∉ use :: uses := by
        rw [List.mem_cons, not_or]
        exact and_congr_left fun _ => ne_comm
      rw [hdevices', hkeyboard', hdevices, hkeyboard, Bool.and_eq_true, Bool.and_eq_true,
        decide_eq_true_iff, decide_eq_true_iff, and_assoc, and_assoc, hcons, hcons]
      exact ⟨Iff.rfl, Iff.rfl⟩
    · next hunused =>
      obtain ⟨hdevices', hkeyboard'⟩ := ih l
      rw [hdevices', hkeyboard']
      -- An end that is not let go of because it is not held is not held afterwards either.
      constructor
      · cases use <;> simp_all [canUse]
      · cases use <;> simp_all [canUse]

end Link

/-- After any sequence of uses of a link, the keys that were delivered, followed by those in the
queue, are the keys whose presses were accepted, in the order of the presses, and the queue holds no
more of them than its capacity.  A press is accepted exactly if the machine has not let go of its
end and the queue is not full; if it is refused, nothing changes.  A poll and a wait deliver the
oldest key in the queue, whether or not the front end has let go of its end; if there is none, a
poll answers so, and a wait, which is possible only when the front end has let go, ends in a
fault. -/
theorem key_queue_fifo (capacity : Nat) (uses : List Link.Use) :
    let start : Link := { capacity }
    let l := start.after uses
    (start.log uses).filterMap Link.delivered? ++ l.keys =
        (start.log uses).filterMap Link.accepted? ∧
      l.keys.length ≤ capacity ∧
      (l.devicesHeld = true ↔ Link.Use.dropDevices ∉ uses) ∧
      (l.keyboardHeld = true ↔ Link.Use.hangUp ∉ uses) ∧
      (∀ key, l.exchange (.press key) =
        if Link.Use.dropDevices ∉ uses ∧ l.keys.length < capacity then
          (.pressed true, { l with keys := l.keys ++ [key] })
        else (.pressed false, l)) ∧
      l.exchange .poll = (.polled (.ok l.keys.head?), { l with keys := l.keys.tail }) ∧
      (∀ key rest, l.keys = key :: rest →
        l.exchange .await = (.awaited (.ok key), { l with keys := rest })) ∧
      (l.keys = [] → l.exchange .await = (.awaited (.error .disconnected), l)) ∧
      (l.canUse .await = true ↔
        Link.Use.dropDevices ∉ uses ∧ (l.keys ≠ [] ∨ Link.Use.hangUp ∈ uses)) := by
  intro start l
  obtain ⟨hlength, hcapacity⟩ := Link.length_keys_after_le (l := start) (Nat.zero_le _) uses
  obtain ⟨hdevices, hkeyboard⟩ := start.held_after uses
  have hdevices : l.devicesHeld = true ↔ Link.Use.dropDevices ∉ uses := by
    simpa [start] using hdevices
  have hkeyboard : l.keyboardHeld = true ↔ Link.Use.hangUp ∉ uses := by
    simpa [start] using hkeyboard
  refine ⟨start.delivered_append_keys uses, hlength, hdevices, hkeyboard, ?_, l.exchange_poll, ?_,
    ?_, ?_⟩
  · intro key
    have hroom : l.capacity = capacity := hcapacity
    rw [Link.exchange_press, hroom]
    simp only [hdevices]
  · intro key rest hkeys
    rw [Link.exchange_await, hkeys]
    rfl
  · intro hkeys
    have hsame : ({ l with keys := l.keys.tail } : Link) = l := by
      rw [hkeys, List.tail_nil, ← hkeys]
    rw [Link.exchange_await, hsame, hkeys]
    rfl
  · rw [Link.canUse, Bool.and_eq_true, hdevices]
    refine and_congr_right fun _ => ?_
    rw [Bool.not_eq_true', decide_eq_false_iff_not, Link.AwaitBlocks, hkeyboard,
      Decidable.not_and_iff_not_or_not, Decidable.not_not]

end ChipEight
