import ChipEight.Devices.Basic

/-!
# Recorder

Devices that keep every frame and produce the keys of a list one after the other.  They take as many
frames as they have room for, and may be made to fail.
-/

namespace ChipEight

/-- Devices with a memory for frames and a list of keys to come. -/
structure Recorder where
  /-- The frames taken so far, oldest first. -/
  frames : Array Screen := #[]
  /-- The keys still to come. -/
  keys : List Key := []
  /-- The number of frames that the display takes in all, if it does not take every frame. -/
  capacity : Option Nat := none
  /-- The fault with which a wait ends when no key is left. -/
  exhausted : Fault := .noInput
  /-- The fault with which every poll ends, if polls fail. -/
  pollFault : Option Fault := none

namespace Recorder

/-- The display takes one more frame. -/
def HasRoom (r : Recorder) : Prop :=
  match r.capacity with
  | none => True
  | some n => r.frames.size < n

instance (r : Recorder) : Decidable r.HasRoom := by
  unfold HasRoom; split <;> infer_instance

/-- Adds keys behind those still to come. -/
def press (r : Recorder) (keys : List Key) : Recorder := { r with keys := r.keys ++ keys }

instance : Devices Recorder where
  draw frame r :=
    if r.HasRoom then (.ok (), { r with frames := r.frames.push frame })
    else (.error .disconnected, r)
  awaitKey r :=
    match r.keys with
    | key :: rest => (.ok key, { r with keys := rest })
    | [] => (.error r.exhausted, r)
  pollKey r :=
    match r.pollFault, r.keys with
    | some fault, _ => (.error fault, r)
    | none, key :: rest => (.ok (some key), { r with keys := rest })
    | none, [] => (.ok none, r)

end Recorder

end ChipEight
