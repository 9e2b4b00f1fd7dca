import ChipEight.Devices.Basic

/-!
# Link

The connection between a machine and a front end: frames pass one by one, each handed over in
person, and key presses pass through a queue of bounded length.  The machine holds the devices; the
front end holds a window on which frames are shown and a keyboard, and may let go of them one after
the other.  Keys that were queued are still delivered after the keyboard is gone.

Main results:

- `keys_press`: a press that is accepted joins the end of the queue, and one that is refused changes
  nothing.
- `length_keys_press_le`: no press makes the queue longer than its capacity.
- `pressAll_eq`: which of several keys are queued.
-/

namespace ChipEight

/-- A connection between a machine and a front end. -/
structure Link where
  /-- The number of key presses that the queue holds. -/
  capacity : Nat
  /-- The key presses in the queue, oldest first. -/
  keys : List Key := []
  /-- The frames that the front end has taken, oldest first. -/
  shown : Array Screen := #[]
  /-- The front end still holds the window. -/
  windowHeld : Bool := true
  /-- The front end still holds the keyboard. -/
  keyboardHeld : Bool := true
  /-- The machine still holds the devices. -/
  devicesHeld : Bool := true

namespace Link

/-- A press would be accepted: the devices are held and the queue has room. -/
abbrev Accepts (l : Link) : Prop := l.devicesHeld = true ∧ l.keys.length < l.capacity

/-- Presses a key, which is dropped if the queue is full or the devices are gone. -/
def press (l : Link) (key : Key) : Link :=
  if l.Accepts then { l with keys := l.keys ++ [key] } else l

/-- Presses keys one after the other. -/
def pressAll (l : Link) (keys : List Key) : Link := keys.foldl press l

/-- Presses keys one after the other and tells which of them were accepted. -/
def acceptances (l : Link) : List Key → List Bool
  | [] => []
  | key :: keys => decide l.Accepts :: (l.press key).acceptances keys

/-- The front end lets go of the keyboard. -/
def dropKeyboard (l : Link) : Link := { l with keyboardHeld := false }

/-- The front end lets go of the window. -/
def dropWindow (l : Link) : Link := { l with windowHeld := false }

/-- The front end lets go of the window and of the keyboard. -/
def hangUp (l : Link) : Link := { l with windowHeld := false, keyboardHeld := false }

/-- The machine lets go of the devices. -/
def dropDevices (l : Link) : Link := { l with devicesHeld := false }

/-- A wait for a key would block: no key is queued, and one may still be pressed. -/
abbrev AwaitBlocks (l : Link) : Prop := l.keys = [] ∧ l.keyboardHeld = true

/-- Handing over a frame would block until the front end takes it. -/
abbrev DrawBlocks (l : Link) : Prop := l.windowHeld = true

/-- Waiting for a frame would block until the machine draws one. -/
abbrev FrameBlocks (l : Link) : Prop := l.devicesHeld = true

/-- The answers with which the calls of the machine return, once they do. -/
instance : Devices Link where
  draw frame l :=
    if l.windowHeld then (.ok (), { l with shown := l.shown.push frame })
    else (.error .disconnected, l)
  awaitKey l :=
    match l.keys with
    | key :: rest => (.ok key, { l with keys := rest })
    | [] => (.error .disconnected, l)
  pollKey l :=
    match l.keys with
    | key :: rest => (.ok (some key), { l with keys := rest })
    | [] => (.ok none, l)

/-! ## Presses -/

/-- A press that is accepted joins the end of the queue. -/
theorem keys_press (l : Link) (key : Key) :
    (l.press key).keys = if l.Accepts then l.keys ++ [key] else l.keys := by
  unfold press
  split <;> rfl

/-- A press changes no capacity. -/
@[simp]
theorem capacity_press (l : Link) (key : Key) : (l.press key).capacity = l.capacity := by
  unfold press
  split <;> rfl

/-- No press makes the queue longer than its capacity. -/
theorem length_keys_press_le {l : Link} (h : l.keys.length ≤ l.capacity) (key : Key) :
    (l.press key).keys.length ≤ l.capacity := by
  rw [keys_press]
  split
  · next accepted => simpa [Nat.succ_le_iff] using accepted.2
  · exact h

/-- Of keys that are pressed one after the other, the first are queued for which there is room. -/
theorem pressAll_eq {l : Link} (hdevices : l.devicesHeld = true) (keys : List Key) :
    l.pressAll keys = { l with keys := l.keys ++ keys.take (l.capacity - l.keys.length) } := by
  induction keys generalizing l with
  | nil => simp [pressAll]
  | cons key keys ih =>
    show (l.press key).pressAll keys = _
    by_cases haccepts : l.Accepts
    · have hpress : l.press key = { l with keys := l.keys ++ [key] } := if_pos haccepts
      have hroom : l.capacity - l.keys.length = l.capacity - (l.keys.length + 1) + 1 := by
        have := haccepts.2
        omega
      rw [hpress, hroom, List.take_succ_cons]
      have hrest := ih (l := { l with keys := l.keys ++ [key] }) hdevices
      simpa using hrest
    · have hpress : l.press key = l := if_neg haccepts
      have hfull : l.capacity - l.keys.length = 0 := by
        have : ¬ l.keys.length < l.capacity := fun hlt => haccepts ⟨hdevices, hlt⟩
        omega
      rw [hpress, ih hdevices, hfull]
      rfl

end Link

end ChipEight
