import ChipEight.Proofs.Bounds
import ChipEight.Proofs.TakenKeys

/-!
# Skips

Six instructions skip the next one under a condition: that two bytes are the same or that they
differ, or that the key in a register is pressed or that it is not.  They form three pairs with
opposite conditions.  The two of a pair, tried in the same state, differ in the program counter
only; where the keyboard cannot be polled both fail and neither skips.

Main results:

- `execute_of_maySkip`: such an instruction does nothing but skip, if its condition holds.
- `skips_iff_not_skips`: the conditions of a pair are opposite.
- `opposite_skips`: the two instructions of a pair in any reachable state.
-/

namespace ChipEight

/-! ## Conditions -/

/-- The instructions that skip the next one under a condition. -/
def Instruction.MaySkip : Instruction → Prop
  | .skipEqByte _ _ | .skipNeByte _ _ | .skipEq _ _ | .skipNe _ _ | .skipPressed _
  | .skipNotPressed _ => True
  | _ => False

/-- Two instructions that skip under opposite conditions. -/
inductive Instruction.Opposite : Instruction → Instruction → Prop where
  /-- 3xkk and 4xkk. -/
  | byte (x byte : UInt8) : Opposite (.skipEqByte x byte) (.skipNeByte x byte)
  /-- 5xy0 and 9xy0. -/
  | register (x y : UInt8) : Opposite (.skipEq x y) (.skipNe x y)
  /-- Ex9E and ExA1. -/
  | key (x : UInt8) : Opposite (.skipPressed x) (.skipNotPressed x)

namespace Machine

variable {δ : Type} [Devices δ]

/-- The condition of an instruction to skip the next one holds.  A key is pressed if the keyboard,
when it is polled, answers with that key; it is not pressed if the keyboard answers with another key
or with none. -/
def Skips (m : Machine) (d : δ) : Instruction → Prop
  | .skipEqByte x byte => m.registers.get x = byte
  | .skipNeByte x byte => m.registers.get x ≠ byte
  | .skipEq x y => m.registers.get x = m.registers.get y
  | .skipNe x y => m.registers.get x ≠ m.registers.get y
  | .skipPressed x =>
    ∃ key, (Devices.pollKey d).1 = .ok (some key) ∧ key.number = m.registers.get x
  | .skipNotPressed x =>
    ∃ answer, (Devices.pollKey d).1 = .ok answer ∧
      ∀ key, answer = some key → key.number ≠ m.registers.get x
  | _ => False

/-- Passing an instruction does not change whether it skips. -/
theorem skips_advanced (m : Machine) (d : δ) (i : Instruction) :
    m.advanced.Skips d i ↔ m.Skips d i := by
  cases i <;> exact Iff.rfl

variable {m : Machine} {d : δ} {x : UInt8}

theorem skips_skipPressed_iff {answer : Option Key} (hpoll : (Devices.pollKey d).1 = .ok answer) :
    m.Skips d (.skipPressed x) ↔ answer.map Key.number = some (m.registers.get x) := by
  rw [Option.map_eq_some_iff]
  constructor
  · intro h
    rcases h with ⟨key, hkey, hnumber⟩
    rw [hpoll] at hkey
    exact ⟨key, Except.ok.inj hkey, hnumber⟩
  · intro h
    rcases h with ⟨key, hkey, hnumber⟩
    rw [hkey] at hpoll
    exact ⟨key, hpoll, hnumber⟩

theorem skips_skipNotPressed_iff {answer : Option Key}
    (hpoll : (Devices.pollKey d).1 = .ok answer) :
    m.Skips d (.skipNotPressed x) ↔ answer.map Key.number ≠ some (m.registers.get x) := by
  rw [Ne, Option.map_eq_some_iff]
  constructor
  · intro h hpressed
    rcases h with ⟨answer', hanswer, hother⟩
    rcases hpressed with ⟨key, hkey, hnumber⟩
    rw [hpoll] at hanswer
    cases hanswer
    exact hother key hkey hnumber
  · intro h
    refine ⟨answer, hpoll, ?_⟩
    intro key hkey hnumber
    exact h ⟨key, hkey, hnumber⟩

/-! ## One skip -/

theorem skipOnKey_of_ok {answer : Option Key} (hpoll : (Devices.pollKey d).1 = .ok answer)
    (m : Machine) (x : UInt8) (wanted : Bool) :
    m.skipOnKey d x wanted =
      (m.withRegisters (m.registers.skipIf
        ((answer.map Key.number == some (m.registers.get x)) == wanted))).completed
        (Devices.pollKey d).2 .next := by
  unfold skipOnKey
  rcases hd : Devices.pollKey d with ⟨answer', e⟩
  rw [hd] at hpoll
  cases hpoll
  rfl

theorem skipOnKey_of_error {fault : Fault} (hpoll : (Devices.pollKey d).1 = .error fault)
    (m : Machine) (x : UInt8) (wanted : Bool) :
    m.skipOnKey d x wanted = m.stopped (Devices.pollKey d).2 fault := by
  unfold skipOnKey
  rcases hd : Devices.pollKey d with ⟨answer', e⟩
  rw [hd] at hpoll
  cases hpoll
  rfl

/-- An instruction that may skip changes nothing but the program counter, also where it fails. -/
theorem machine_execute_of_maySkip (m : Machine) (d : δ) {i : Instruction} (hi : i.MaySkip) :
    ∃ condition, (m.execute d i).machine = m.withRegisters (m.registers.skipIf condition) := by
  cases i with
  | skipEqByte | skipNeByte | skipEq | skipNe => exact ⟨_, rfl⟩
  | skipPressed x => exact machine_skipOnKey m d x true
  | skipNotPressed x => exact machine_skipOnKey m d x false
  | _ => exact False.elim hi

/-- The devices after an instruction that may skip: it polls the keyboard or leaves them alone. -/
def devicesAfter (m : Machine) (d : δ) (i : Instruction) : δ :=
  if m.requestOf? i = some .pollKey then (Devices.pollKey d).2 else d

/-- An instruction that may skip, and is not refused by the keyboard, does nothing but skip, if its
condition holds. -/
theorem execute_of_maySkip {i : Instruction} (hi : i.MaySkip)
    (hpoll : ∀ fault, m.requestOf? i = some .pollKey → (Devices.pollKey d).1 ≠ .error fault) :
    ∃ skips : Bool, (skips = true ↔ m.Skips d i) ∧
      m.execute d i =
        (m.withRegisters (m.registers.skipIf skips)).completed (m.devicesAfter d i) .next := by
  have hanswer (hrequest : m.requestOf? i = some .pollKey) :
      ∃ answer, (Devices.pollKey d).1 = .ok answer := by
    cases h : (Devices.pollKey d).1 with
    | ok answer => exact ⟨answer, rfl⟩
    | error fault => exact absurd h (hpoll fault hrequest)
  cases i with
  | skipEqByte x byte => exact ⟨m.registers.get x == byte, beq_iff_eq, rfl⟩
  | skipNeByte x byte => exact ⟨m.registers.get x != byte, bne_iff_ne, rfl⟩
  | skipEq x y => exact ⟨m.registers.get x == m.registers.get y, beq_iff_eq, rfl⟩
  | skipNe x y => exact ⟨m.registers.get x != m.registers.get y, bne_iff_ne, rfl⟩
  | skipPressed x =>
    rcases hanswer rfl with ⟨answer, hok⟩
    refine ⟨_, ?_, skipOnKey_of_ok hok m x true⟩
    rw [skips_skipPressed_iff hok, beq_true, beq_iff_eq]
  | skipNotPressed x =>
    rcases hanswer rfl with ⟨answer, hok⟩
    refine ⟨_, ?_, skipOnKey_of_ok hok m x false⟩
    rw [skips_skipNotPressed_iff hok, beq_false, Bool.not_eq_true', beq_eq_false_iff_ne]
  | _ => exact False.elim hi

/-- An instruction that polls a keyboard which cannot be polled fails and skips nothing. -/
theorem execute_of_poll_error {i : Instruction} (hi : m.requestOf? i = some .pollKey)
    {fault : Fault} (hpoll : (Devices.pollKey d).1 = .error fault) :
    ¬ m.Skips d i ∧ m.execute d i = m.stopped (Devices.pollKey d).2 fault := by
  cases i with
  | skipPressed x =>
    refine ⟨?_, skipOnKey_of_error hpoll m x true⟩
    intro h
    rcases h with ⟨key, hkey, -⟩
    rw [hpoll] at hkey
    cases hkey
  | skipNotPressed x =>
    refine ⟨?_, skipOnKey_of_error hpoll m x false⟩
    intro h
    rcases h with ⟨answer, hanswer, -⟩
    rw [hpoll] at hanswer
    cases hanswer
  | draw x y rows =>
    have hframe : (if Memory.Fits m.registers.index.toNat rows.toNat then some Request.draw
        else none) = some .pollKey := hi
    split at hframe <;> cases hframe
  | _ => cases hi

end Machine

/-! ## Pairs of skips -/

namespace Instruction.Opposite

variable {i j : Instruction}

theorem maySkip (h : i.Opposite j) : i.MaySkip ∧ j.MaySkip := by
  cases h <;> exact ⟨trivial, trivial⟩

theorem micros_eq (h : i.Opposite j) : j.micros = i.micros := by
  cases h <;> rfl

theorem requestOf?_eq (h : i.Opposite j) (m : Machine) : m.requestOf? j = m.requestOf? i := by
  cases h <;> rfl

/-- Unless the keyboard has to be polled and cannot be, exactly one of the two instructions
skips. -/
theorem skips_iff_not_skips (h : i.Opposite j) {δ : Type} [Devices δ] {m : Machine} {d : δ}
    (hpoll : ∀ fault, m.requestOf? i = some .pollKey → (Devices.pollKey d).1 ≠ .error fault) :
    m.Skips d i ↔ ¬ m.Skips d j := by
  cases h with
  | byte x byte =>
    show m.registers.get x = byte ↔ ¬ m.registers.get x ≠ byte
    exact Decidable.not_not.symm
  | register x y =>
    show m.registers.get x = m.registers.get y ↔ ¬ m.registers.get x ≠ m.registers.get y
    exact Decidable.not_not.symm
  | key x =>
    cases hd : (Devices.pollKey d).1 with
    | ok answer =>
      rw [Machine.skips_skipPressed_iff hd, Machine.skips_skipNotPressed_iff hd]
      exact Decidable.not_not.symm
    | error fault => exact absurd hd (hpoll fault rfl)

end Instruction.Opposite

namespace Machine

variable {δ : Type} [Devices δ]

/-- What a step does if it finds the given instruction at the program counter. -/
def stepWith (m : Machine) (d : δ) (i : Instruction) : Outcome δ :=
  (m.advanced.execute d i).around m.registers.pc i

theorem step_eq_stepWith {m : Machine} {i : Instruction} (h : m.upcoming? = some i) (d : δ) :
    m.step d = m.stepWith d i :=
  step_of_upcoming h d

/-- A step with an instruction that may skip goes on behind it, or behind the next one if the
condition holds. -/
theorem stepWith_of_maySkip {m : Machine} {d : δ} {i : Instruction} (hi : i.MaySkip)
    (hpoll : ∀ fault, m.requestOf? i = some .pollKey → (Devices.pollKey d).1 ≠ .error fault) :
    ∃ skips : Bool, (skips = true ↔ m.Skips d i) ∧
      m.stepWith d i =
        ⟨m.passed skips, m.devicesAfter d i, .ok .next,
          #[.executing m.registers.pc i, .paced i.micros]⟩ := by
  rw [← requestOf?_advanced] at hpoll
  rcases execute_of_maySkip hi hpoll with ⟨skips, hskips, hexecute⟩
  rw [skips_advanced] at hskips
  refine ⟨skips, hskips, ?_⟩
  rw [stepWith, hexecute, advanced_skipIf, devicesAfter, requestOf?_advanced]
  rfl

/-- A step with an instruction that polls a keyboard which cannot be polled fails behind it. -/
theorem stepWith_of_poll_error {m : Machine} {d : δ} {i : Instruction}
    (hi : m.requestOf? i = some .pollKey) {fault : Fault}
    (hpoll : (Devices.pollKey d).1 = .error fault) :
    ¬ m.Skips d i ∧
      m.stepWith d i =
        ⟨m.passed false, (Devices.pollKey d).2, .error fault, #[.executing m.registers.pc i]⟩ := by
  rw [← requestOf?_advanced] at hi
  rcases execute_of_poll_error hi hpoll with ⟨hskips, hexecute⟩
  rw [skips_advanced] at hskips
  refine ⟨hskips, ?_⟩
  rw [stepWith, hexecute]
  rfl

/-- The program counter of a reachable machine is not rolled over by a skip. -/
theorem toNat_pc_passed {m : Machine} (h : m.registers.pc.toNat ≤ highestTarget) (skips : Bool) :
    (m.passed skips).registers.pc.toNat = m.registers.pc.toNat + if skips then 4 else 2 := by
  have htop : highestTarget = 0x10FE := rfl
  have hadd : (m.passed skips).registers.pc.toNat =
      (m.registers.pc.toNat + (if skips then (4 : UInt16) else 2).toNat) % 2 ^ 16 :=
    UInt16.toNat_add ..
  rw [hadd]
  cases skips with
  | false => exact Nat.mod_eq_of_lt (by simp; omega)
  | true => exact Nat.mod_eq_of_lt (by simp; omega)

end Machine

/-- Tried in the same state of a reachable machine, exactly one of two opposite instructions skips,
unless the keyboard has to be polled and cannot be.  They then leave the program counter two bytes
apart and agree in all else: in the other registers and the rest of the machine, in the devices with
the keys that are left, in the result and in the time that they take.  Where the keyboard cannot be
polled both fail with its fault, behind the instruction, and neither skips. -/
theorem opposite_skips {settings : Settings} {m : Machine} (hreach : Reachable settings m)
    {i j : Instruction} (h : i.Opposite j) {δ : Type} [Devices δ] (d : δ) :
    let first := m.stepWith d i
    let second := m.stepWith d j
    (m.upcoming? = some i → m.step d = first) ∧ (m.upcoming? = some j → m.step d = second) ∧
      ((∀ fault, m.requestOf? i = some .pollKey → (Devices.pollKey d).1 ≠ .error fault) →
        (m.Skips d i ∧ ¬ m.Skips d j ∧
            first.machine.registers.pc.toNat = m.registers.pc.toNat + 4 ∧
            second.machine.registers.pc.toNat = m.registers.pc.toNat + 2 ∨
          ¬ m.Skips d i ∧ m.Skips d j ∧
            first.machine.registers.pc.toNat = m.registers.pc.toNat + 2 ∧
            second.machine.registers.pc.toNat = m.registers.pc.toNat + 4) ∧
          second.machine = first.machine.withRegisters
            { first.machine.registers with pc := second.machine.registers.pc } ∧
          second.devices = first.devices ∧
          first.result = .ok .next ∧ second.result = .ok .next ∧
          Event.pauses first.events.toList = [i.micros] ∧
          Event.pauses second.events.toList = [i.micros]) ∧
      ∀ fault, m.requestOf? i = some .pollKey → (Devices.pollKey d).1 = .error fault →
        ¬ m.Skips d i ∧ ¬ m.Skips d j ∧
          first.result = .error fault ∧ second.result = .error fault ∧
          first.machine = m.passed false ∧ second.machine = m.passed false ∧
          second.devices = first.devices := by
  intro first second
  refine ⟨fun hi => m.step_eq_stepWith hi d, fun hj => m.step_eq_stepWith hj d, ?_, ?_⟩
  · intro hpoll
    have hpoll' := hpoll
    rw [← h.requestOf?_eq m] at hpoll'
    have hopposite := h.skips_iff_not_skips hpoll
    rcases Machine.stepWith_of_maySkip h.maySkip.1 hpoll with ⟨skips, hskips, hfirst⟩
    rcases Machine.stepWith_of_maySkip h.maySkip.2 hpoll' with ⟨skips', hskips', hsecond⟩
    have hpc := Machine.toNat_pc_passed hreach.sound.pc_le
    have hdevices : m.devicesAfter d j = m.devicesAfter d i := by
      rw [Machine.devicesAfter, Machine.devicesAfter, h.requestOf?_eq m]
    rw [show first = _ from hfirst, show second = _ from hsecond, hpc, hpc, ← hskips, ← hskips',
      h.micros_eq, hdevices]
    refine ⟨?_, rfl, rfl, rfl, rfl, rfl, rfl⟩
    rw [← hskips, ← hskips'] at hopposite
    cases skips with
    | false =>
      cases skips' with
      | false => exact absurd (hopposite.2 Bool.false_ne_true) Bool.false_ne_true
      | true => exact .inr ⟨Bool.false_ne_true, rfl, rfl, rfl⟩
    | true =>
      cases skips' with
      | false => exact .inl ⟨rfl, Bool.false_ne_true, rfl, rfl⟩
      | true => exact absurd rfl (hopposite.1 rfl)
  · intro fault hrequest hpoll
    have hrequest' := hrequest
    rw [← h.requestOf?_eq m] at hrequest'
    rcases Machine.stepWith_of_poll_error hrequest hpoll with ⟨hskips, hfirst⟩
    rcases Machine.stepWith_of_poll_error hrequest' hpoll with ⟨hskips', hsecond⟩
    refine ⟨hskips, hskips', ?_⟩
    rw [show first = _ from hfirst, show second = _ from hsecond]
    exact ⟨rfl, rfl, rfl, rfl, rfl⟩

/-- A program skips on key 0, which is queued.  The skip on a pressed key is taken and the opposite
one is not, and each of them takes the key off the queue. -/
theorem opposite_skips_pressed :
    ∃ (m : Machine) (r : Recorder), Reachable {} m ∧ m.upcoming? = some (.skipPressed 0) ∧
      r.keys.map Key.number = [m.registers.get 0] ∧
      (m.step r).machine.registers.pc.toNat = 0x204 ∧
      (m.stepWith r (.skipNotPressed 0)).machine.registers.pc.toNat = 0x202 ∧
      (m.step r).devices.keys = [] ∧ (m.stepWith r (.skipNotPressed 0)).devices.keys = [] := by
  obtain ⟨m, hm⟩ : ∃ m, m = (Machine.fresh {} .zero).loaded [0xE0, 0x9E] := ⟨_, rfl⟩
  obtain ⟨r, hr⟩ : ∃ r : Recorder, r = { keys := [⟨0, by decide⟩] } := ⟨_, rfl⟩
  have hreach : Reachable {} m := hm ▸ .fresh_loaded (by decide) (by decide)
  have hskip : m.upcoming? = some (.skipPressed 0) := by
    rw [hm]
    exact Machine.upcoming?_loaded _ 0xE0 0x9E []
  have hpc : m.registers.pc.toNat = 0x200 := by
    rw [hm]
    exact Machine.toNat_pc_loaded ..
  have hzero : m.registers.get 0 = 0 := by
    rw [hm]
    rfl
  have hpoll : (Devices.pollKey r).1 = .ok (some ⟨0, by decide⟩) := by
    rw [hr]
    rfl
  have hpressed : m.Skips r (.skipPressed 0) := by
    rw [Machine.skips_skipPressed_iff hpoll, hzero]
    rfl
  rcases opposite_skips hreach (.key 0) r with ⟨hfirst, -, hskips, -⟩
  have hanswers : ∀ fault, m.requestOf? (.skipPressed 0) = some .pollKey →
      (Devices.pollKey r).1 ≠ .error fault := by
    intro fault _ hfault
    rw [hpoll] at hfault
    cases hfault
  have hkeys : (m.stepWith r (.skipPressed 0)).devices.keys = [] := by
    rcases Machine.stepWith_of_maySkip (i := .skipPressed 0) trivial hanswers with ⟨_, -, hstep⟩
    rw [hstep, hr]
    rfl
  rcases hskips hanswers with ⟨⟨-, -, hfour, htwo⟩ | ⟨hnot, -⟩, -, hdevices, -⟩
  · rw [hpc] at hfour htwo
    refine ⟨m, r, hreach, hskip, ?_⟩
    rw [hfirst hskip, hdevices, hzero, hr]
    rw [hr] at hfour htwo hkeys
    exact ⟨rfl, hfour, htwo, hkeys, hkeys⟩
  · exact absurd hpressed hnot

end ChipEight
