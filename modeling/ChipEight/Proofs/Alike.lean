import ChipEight.Machine.Request
import ChipEight.Proofs.Effects

/-!
# Devices that answer alike

A step makes one call to the devices at most, and depends on them through the answer only.  Two
devices that give the same answer to that call, of whatever kind they are, therefore lead to the
same machine, the same result and the same events.

Main results:

- `Machine.request?_eq_draw_iff`: the steps that hand over a frame are those that draw a sprite in
  memory.
- `Machine.step_alike`: a step on devices that give the same answer.
-/

namespace ChipEight

variable {δ ε : Type}

/-- Two outcomes differ in no more than the devices, which are related. -/
structure Outcome.Alike (R : δ → ε → Prop) (o : Outcome δ) (p : Outcome ε) : Prop where
  machine_eq : o.machine = p.machine
  result_eq : o.result = p.result
  events_eq : o.events = p.events
  devices : R o.devices p.devices

namespace Machine

/-! ## Requests -/

theorem request?_of_upcoming {m : Machine} {i : Instruction} (hi : m.upcoming? = some i) :
    m.request? = m.requestOf? i := by
  obtain ⟨word, hword, rfl⟩ := Option.map_eq_some_iff.1 hi
  unfold request?
  cases hfetch : m.fetch with
  | ok other =>
    rw [hfetch] at hword
    cases hword
    rfl
  | error fault =>
    rw [hfetch] at hword
    cases hword

/-- Passing the instruction does not change which call it makes. -/
theorem requestOf?_advanced (m : Machine) (i : Instruction) :
    m.advanced.requestOf? i = m.requestOf? i := by
  cases i <;> rfl

theorem request?_of_upcoming_eq_none {m : Machine} (hi : m.upcoming? = none) :
    m.request? = none := by
  unfold request?
  unfold upcoming? at hi
  cases hfetch : m.fetch with
  | ok word =>
    rw [hfetch] at hi
    cases hi
  | error fault => rfl

/-- The step hands a frame over exactly if it draws a sprite that lies in memory. -/
theorem request?_eq_draw_iff {m : Machine} :
    m.request? = some .draw ↔
      ∃ x y rows, m.upcoming? = some (.draw x y rows) ∧
        Memory.Fits m.registers.index.toNat rows.toNat := by
  cases hi : m.upcoming? with
  | none =>
    rw [request?_of_upcoming_eq_none hi]
    exact ⟨nofun, fun ⟨_, _, _, h, _⟩ => nomatch h⟩
  | some i =>
    rw [request?_of_upcoming hi]
    constructor
    · intro h
      cases i with
      | draw x y rows =>
        by_cases hfits : Memory.Fits m.registers.index.toNat rows.toNat
        · exact ⟨x, y, rows, rfl, hfits⟩
        · have hnone : m.requestOf? (.draw x y rows) = none := if_neg hfits
          rw [hnone] at h
          cases h
      | _ => cases h
    · rintro ⟨x, y, rows, hdraw, hfits⟩
      cases hdraw
      exact if_pos hfits

/-! ## Steps -/

theorem jumpTo_alike {R : δ → ε → Prop} {d : δ} {e : ε} (hR : R d e) (m : Machine)
    (target : Except Fault Registers) : (m.jumpTo d target).Alike R (m.jumpTo e target) := by
  cases target <;> exact ⟨rfl, rfl, rfl, hR⟩

theorem writeMemory_alike {R : δ → ε → Prop} {d : δ} {e : ε} (hR : R d e) (m : Machine)
    (target : Except Fault Memory) : (m.writeMemory d target).Alike R (m.writeMemory e target) := by
  cases target <;> exact ⟨rfl, rfl, rfl, hR⟩

variable [Devices δ] [Devices ε] {R : δ → ε → Prop} {d : δ} {e : ε}

theorem draw_alike
    (hdraw : ∀ frame, (Devices.draw frame d).1 = (Devices.draw frame e).1 ∧
      R (Devices.draw frame d).2 (Devices.draw frame e).2) (m : Machine) {x y rows : UInt8}
    (hfits : Memory.Fits m.registers.index.toNat rows.toNat) :
    (m.draw d x y rows).Alike R (m.draw e x y rows) := by
  obtain ⟨hanswer, hafter⟩ := hdraw (m.drawing x y rows).1
  rw [draw_eq, draw_eq, if_pos hfits, if_pos hfits, hanswer]
  exact ⟨rfl, rfl, rfl, hafter⟩

theorem skipOnKey_alike
    (hpoll : (Devices.pollKey d).1 = (Devices.pollKey e).1 ∧
      R (Devices.pollKey d).2 (Devices.pollKey e).2) (m : Machine) (x : UInt8) (wanted : Bool) :
    (m.skipOnKey d x wanted).Alike R (m.skipOnKey e x wanted) := by
  unfold skipOnKey
  rcases hd : Devices.pollKey d with ⟨answer, d'⟩
  rcases he : Devices.pollKey e with ⟨answer', e'⟩
  rw [hd, he] at hpoll
  obtain ⟨rfl, hafter⟩ := hpoll
  cases answer <;> exact ⟨rfl, rfl, rfl, hafter⟩

theorem awaitKey_alike
    (hawait : (Devices.awaitKey d).1 = (Devices.awaitKey e).1 ∧
      R (Devices.awaitKey d).2 (Devices.awaitKey e).2) (m : Machine) (x : UInt8) :
    (m.awaitKey d x).Alike R (m.awaitKey e x) := by
  unfold awaitKey
  rcases hd : Devices.awaitKey d with ⟨answer, d'⟩
  rcases he : Devices.awaitKey e with ⟨answer', e'⟩
  rw [hd, he] at hawait
  obtain ⟨rfl, hafter⟩ := hawait
  cases answer <;> exact ⟨rfl, rfl, rfl, hafter⟩

/-- An instruction on devices that give the same answer to the call that it makes, if it makes
one. -/
theorem execute_alike (m : Machine) (i : Instruction)
    (hnone : m.requestOf? i = none → R d e)
    (hdraw : m.requestOf? i = some .draw → ∀ frame,
      (Devices.draw frame d).1 = (Devices.draw frame e).1 ∧
        R (Devices.draw frame d).2 (Devices.draw frame e).2)
    (hawait : m.requestOf? i = some .awaitKey →
      (Devices.awaitKey d).1 = (Devices.awaitKey e).1 ∧
        R (Devices.awaitKey d).2 (Devices.awaitKey e).2)
    (hpoll : m.requestOf? i = some .pollKey →
      (Devices.pollKey d).1 = (Devices.pollKey e).1 ∧
        R (Devices.pollKey d).2 (Devices.pollKey e).2) :
    (m.execute d i).Alike R (m.execute e i) := by
  cases i with
  | draw x y rows =>
    by_cases hfits : Memory.Fits m.registers.index.toNat rows.toNat
    · exact draw_alike (hdraw (if_pos hfits)) m hfits
    · have hquiet : R d e := hnone (if_neg hfits)
      simp only [execute, draw_eq, if_neg hfits]
      exact ⟨rfl, rfl, rfl, hquiet⟩
  | skipPressed x => exact skipOnKey_alike (hpoll rfl) m x true
  | skipNotPressed x => exact skipOnKey_alike (hpoll rfl) m x false
  | awaitKey x => exact awaitKey_alike (hawait rfl) m x
  | ret | call => exact jumpTo_alike (hnone rfl) m _
  | storeDigits | save => exact writeMemory_alike (hnone rfl) m _
  | restore x =>
    have hquiet : R d e := hnone rfl
    simp only [execute]
    cases m.memory.window m.registers.index.toNat (x.toNat + 1) <;> exact ⟨rfl, rfl, rfl, hquiet⟩
  | _ => exact ⟨rfl, rfl, rfl, hnone rfl⟩

/-- A step on devices that give the same answer to the call that it makes, if it makes one. -/
theorem step_alike (m : Machine) (hnone : m.request? = none → R d e)
    (hdraw : m.request? = some .draw → ∀ frame,
      (Devices.draw frame d).1 = (Devices.draw frame e).1 ∧
        R (Devices.draw frame d).2 (Devices.draw frame e).2)
    (hawait : m.request? = some .awaitKey →
      (Devices.awaitKey d).1 = (Devices.awaitKey e).1 ∧
        R (Devices.awaitKey d).2 (Devices.awaitKey e).2)
    (hpoll : m.request? = some .pollKey →
      (Devices.pollKey d).1 = (Devices.pollKey e).1 ∧
        R (Devices.pollKey d).2 (Devices.pollKey e).2) :
    (m.step d).Alike R (m.step e) := by
  cases hi : m.upcoming? with
  | none =>
    rw [step_of_upcoming_eq_none hi, step_of_upcoming_eq_none hi]
    exact ⟨rfl, rfl, rfl, hnone (request?_of_upcoming_eq_none hi)⟩
  | some i =>
    rw [request?_of_upcoming hi, ← requestOf?_advanced] at hnone hdraw hawait hpoll
    have halike := m.advanced.execute_alike i hnone hdraw hawait hpoll
    rw [step_of_upcoming hi, step_of_upcoming hi]
    refine ⟨halike.machine_eq, halike.result_eq, ?_, halike.devices⟩
    simp only [Outcome.around, halike.events_eq, halike.result_eq]

end Machine

end ChipEight
