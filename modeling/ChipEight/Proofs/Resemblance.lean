import ChipEight.Machine.Request
import ChipEight.Machine.Timed
import ChipEight.Proofs.Course

/-!
# Machines that resemble each other

Timers and random bytes come from the host, and a program that does not look at them does the same
whatever they are.  Two machines resemble each other if they differ in timers at most, and in random
bytes if these were not asked to be the same.

Main results:

- `Machine.Resembles.step`: a step that looks at neither makes the same of machines that resemble
  each other.
-/

namespace ChipEight

/-- What the instruction does to everything but timers and random bytes does not depend on them: it
neither reads the delay timer nor, unless the random bytes are the same, lets anything of a random
byte through its mask. -/
def Instruction.Determined (seeded : Prop) : Instruction → Prop
  | .readDelay _ => False
  | .random _ mask => seeded ∨ mask = 0
  | _ => True

/-- The instruction that the next step executes, if it executes one, is determined. -/
def Machine.Determined (seeded : Prop) (m : Machine) : Prop :=
  ∀ i, m.upcoming? = some i → i.Determined seeded

/-- Two machines differ in their timers at most, and in their random bytes. -/
structure Machine.Resembles (seeded : Prop) (m n : Machine) : Prop where
  settings_eq : m.settings = n.settings
  registers_eq : m.registers = n.registers
  memory_eq : m.memory = n.memory
  screen_eq : m.screen = n.screen
  random_eq : seeded → m.random = n.random

/-- Two outcomes differ in no more than the machines, which resemble each other. -/
structure Outcome.Resembles {δ : Type} (seeded : Prop) (o p : Outcome δ) : Prop where
  machine : o.machine.Resembles seeded p.machine
  devices_eq : o.devices = p.devices
  result_eq : o.result = p.result
  events_eq : o.events = p.events

namespace Machine.Resembles

variable {seeded : Prop} {m n : Machine}

/-- Whatever the timers say, the machine is much the same. -/
theorem withTimers (h : m.Resembles seeded n) (timers : Timers) :
    ({ m with timers } : Machine).Resembles seeded n := { h with }

theorem withRegisters (h : m.Resembles seeded n) (r : Registers) :
    (m.withRegisters r).Resembles seeded (n.withRegisters r) :=
  ⟨h.settings_eq, rfl, h.memory_eq, h.screen_eq, h.random_eq⟩

theorem tick (h : m.Resembles seeded n) (ticks : Nat) : (m.tick ticks).Resembles seeded n :=
  h.withTimers _

theorem loaded (h : m.Resembles seeded n) (program : List UInt8) :
    (m.loaded program).Resembles seeded (n.loaded program) where
  settings_eq := h.settings_eq
  registers_eq := rfl
  memory_eq := rfl
  screen_eq := congrArg Screen.clear h.screen_eq
  random_eq := h.random_eq

theorem upcoming?_eq (h : m.Resembles seeded n) : m.upcoming? = n.upcoming? := by
  unfold Machine.upcoming? Machine.fetch
  rw [h.memory_eq, h.registers_eq]

theorem request?_eq (h : m.Resembles seeded n) : m.request? = n.request? := by
  unfold Machine.request? Machine.fetch
  rw [h.memory_eq, h.registers_eq]
  cases n.memory.word n.registers.pc.toNat with
  | error fault => rfl
  | ok word =>
    simp only
    cases Instruction.ofWord word with
    | draw x y rows =>
      simp only [Machine.requestOf?, h.registers_eq]
    | _ => rfl

theorem advanced (h : m.Resembles seeded n) : m.advanced.Resembles seeded n.advanced where
  settings_eq := h.settings_eq
  registers_eq := congrArg Registers.skip h.registers_eq
  memory_eq := h.memory_eq
  screen_eq := h.screen_eq
  random_eq := h.random_eq

/-- A machine that resembles another is that other one with timers and random bytes of its own. -/
theorem exists_eq (h : m.Resembles seeded n) :
    ∃ timers random, n = { m with timers, random } ∧ (seeded → random = m.random) := by
  rcases m with ⟨settings, registers, memory, screen, timers, random⟩
  rcases n with ⟨settings', registers', memory', screen', timers', random'⟩
  obtain ⟨rfl, rfl, rfl, rfl, hrandom⟩ := h
  exact ⟨timers', random', rfl, fun hseeded => (hrandom hseeded).symm⟩

variable {δ : Type} [Devices δ]

omit [Devices δ] in
theorem completed (h : m.Resembles seeded n) (d : δ) (flow : Flow) :
    (m.completed d flow).Resembles seeded (n.completed d flow) := ⟨h, rfl, rfl, rfl⟩

/-- A random byte matters if it gets through the mask. -/
theorem execute_random (h : m.Resembles seeded n) (x : UInt8) {mask : UInt8}
    (hmask : seeded ∨ mask = 0) (d : δ) :
    (m.execute d (.random x mask)).Resembles seeded (n.execute d (.random x mask)) := by
  have heq (m : Machine) : m.execute d (.random x mask) =
      ({ m with
        registers := m.registers.set x (mask &&& m.random.nextByte.1)
        random := m.random.nextByte.2 } : Machine).completed d .next := rfl
  have hbyte : mask &&& m.random.nextByte.1 = mask &&& n.random.nextByte.1 := by
    rcases hmask with hseeded | rfl
    · rw [h.random_eq hseeded]
    · rw [UInt8.zero_and, UInt8.zero_and]
  rw [heq, heq, hbyte, h.registers_eq]
  apply Resembles.completed
  exact {
    settings_eq := h.settings_eq
    registers_eq := rfl
    memory_eq := h.memory_eq
    screen_eq := h.screen_eq
    random_eq := fun hseeded => by rw [h.random_eq hseeded] }

/-- An instruction that is determined makes the same of machines that resemble each other. -/
theorem execute (h : m.Resembles seeded n) {i : Instruction} (hi : i.Determined seeded) (d : δ) :
    (m.execute d i).Resembles seeded (n.execute d i) := by
  obtain ⟨timers, random, rfl, hsame⟩ := h.exists_eq
  have hrandom (hseeded : seeded) : m.random = random := (hsame hseeded).symm
  cases i with
  | readDelay x => exact hi.elim
  | random x mask => exact h.execute_random x hi d
  | draw x y rows =>
    simp only [Machine.execute, Machine.draw_eq]
    split <;> exact ⟨⟨rfl, rfl, rfl, rfl, hrandom⟩, rfl, rfl, rfl⟩
  | skipPressed x | skipNotPressed x =>
    simp only [Machine.execute, Machine.skipOnKey]
    split <;> exact ⟨⟨rfl, rfl, rfl, rfl, hrandom⟩, rfl, rfl, rfl⟩
  | awaitKey x =>
    simp only [Machine.execute, Machine.awaitKey]
    split <;> exact ⟨⟨rfl, rfl, rfl, rfl, hrandom⟩, rfl, rfl, rfl⟩
  | ret =>
    simp only [Machine.execute]
    cases m.registers.ret <;> exact ⟨⟨rfl, rfl, rfl, rfl, hrandom⟩, rfl, rfl, rfl⟩
  | call address =>
    simp only [Machine.execute]
    cases m.registers.call address <;> exact ⟨⟨rfl, rfl, rfl, rfl, hrandom⟩, rfl, rfl, rfl⟩
  | storeDigits x =>
    simp only [Machine.execute]
    cases m.memory.overwrite m.registers.index.toNat 3 (decimalDigit (m.registers.get x)) <;>
      exact ⟨⟨rfl, rfl, rfl, rfl, hrandom⟩, rfl, rfl, rfl⟩
  | save x =>
    simp only [Machine.execute]
    cases m.memory.overwrite m.registers.index.toNat (x.toNat + 1)
        fun i => m.registers.general[i]?.getD 0 <;>
      exact ⟨⟨rfl, rfl, rfl, rfl, hrandom⟩, rfl, rfl, rfl⟩
  | restore x =>
    simp only [Machine.execute]
    cases m.memory.window m.registers.index.toNat (x.toNat + 1) with
    | ok bytes => exact (h.withRegisters _).completed d .next
    | error fault => exact ⟨h, rfl, rfl, rfl⟩
  | _ => exact ⟨⟨rfl, rfl, rfl, rfl, hrandom⟩, rfl, rfl, rfl⟩

/-- A step that is determined makes the same of machines that resemble each other. -/
theorem step (h : m.Resembles seeded n) (hdetermined : m.Determined seeded) (d : δ) :
    (m.step d).Resembles seeded (n.step d) := by
  cases hi : m.upcoming? with
  | none =>
    have hnone : n.upcoming? = none := h.upcoming?_eq.symm.trans hi
    rw [step_of_upcoming_eq_none hi, step_of_upcoming_eq_none hnone, h.registers_eq]
    exact ⟨h, rfl, rfl, rfl⟩
  | some i =>
    have hsome : n.upcoming? = some i := h.upcoming?_eq.symm.trans hi
    have hexecuted := h.advanced.execute (hdetermined i hi) d
    rw [step_of_upcoming hi, step_of_upcoming hsome, h.registers_eq]
    refine ⟨hexecuted.machine, hexecuted.devices_eq, hexecuted.result_eq, ?_⟩
    simp only [Outcome.around, hexecuted.events_eq, hexecuted.result_eq]

end Machine.Resembles

end ChipEight
