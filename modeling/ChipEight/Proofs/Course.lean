import ChipEight.Proofs.Effects

/-!
# Courses of actions

What can happen to a machine from outside: a program is loaded, a step is taken, one of the two
timers counts down.  A course is a list of such actions.  Each goes on from the state that the one
before it left, also if that one ended in a fault; a program that is refused leaves everything as it
was.

The two timers count down one by one, so that a tick of both may have steps between its halves.

Main results:

- `Reachable.after`: a course of actions leads from a reachable machine to a reachable machine,
  whatever the devices are.
- `history_append`, `after_append`: a course may be interrupted after any action.
-/

namespace ChipEight

/-- Something that happens to a machine. -/
inductive Action where
  /-- A program is put into memory. -/
  | load (program : List UInt8)
  /-- A step is taken. -/
  | step
  /-- The delay timer counts down. -/
  | tickDelay
  /-- The sound timer counts down. -/
  | tickSound
deriving DecidableEq, Repr

/-- The action puts a program into memory that fits. -/
def Action.Loads : Action → Prop
  | .load program => program.length ≤ programCapacity
  | _ => False

namespace Machine

variable {δ : Type} [Devices δ]

/-- What comes of an action. -/
def act (m : Machine) (d : δ) : Action → Outcome δ
  | .load program =>
    match m.load program with
    | .ok loaded => ⟨loaded, d, .ok .next, (m.loadEvents program).toArray⟩
    | .error fault => m.stopped d fault
  | .step => m.step d
  | .tickDelay => { m with timers := m.timers.tickDelay }.completed d .next
  | .tickSound => { m with timers := m.timers.tickSound }.completed d .next

/-- Machine and devices after a course of actions. -/
def after (m : Machine) (d : δ) : List Action → Machine × δ
  | [] => (m, d)
  | action :: actions =>
    (m.act d action).machine.after (m.act d action).devices actions

end Machine

/-- An action together with the state in which it happens. -/
structure Moment (δ : Type) where
  /-- The machine before the action. -/
  machine : Machine
  /-- The devices before the action. -/
  devices : δ
  /-- The action. -/
  action : Action

/-- What comes of the action of a moment. -/
def Moment.outcome {δ : Type} [Devices δ] (t : Moment δ) : Outcome δ :=
  t.machine.act t.devices t.action

namespace Machine

variable {δ : Type} [Devices δ]

/-- The moments of a course of actions, in order. -/
def history (m : Machine) (d : δ) : List Action → List (Moment δ)
  | [] => []
  | action :: actions =>
    ⟨m, d, action⟩ :: (m.act d action).machine.history (m.act d action).devices actions

/-! ## Interrupted courses -/

/-- A course may be interrupted after any action. -/
theorem after_append (m : Machine) (d : δ) (first second : List Action) :
    m.after d (first ++ second) = (m.after d first).1.after (m.after d first).2 second := by
  induction first generalizing m d with
  | nil => rfl
  | cons action actions ih => exact ih _ _

/-- The history of a course is that of its first part and then that of its second part. -/
theorem history_append (m : Machine) (d : δ) (first second : List Action) :
    m.history d (first ++ second) =
      m.history d first ++ (m.after d first).1.history (m.after d first).2 second := by
  induction first generalizing m d with
  | nil => rfl
  | cons action actions ih =>
    simp only [List.cons_append, history]
    rw [ih]
    rfl

/-! ## Building and loading -/

/-- The machine that is built with the given settings and the given key for random bytes. -/
def fresh (settings : Settings) (hostKey : ChaCha.Key) : Machine where
  settings := settings
  registers := {}
  memory := .initial
  screen := .dark settings.screenWidth settings.screenHeight
  timers := {}
  random := { key := Generator.keyFrom settings.seed hostKey }

/-- A machine is built exactly if its screen has cells. -/
theorem build_eq_ok_iff {settings : Settings} {hostKey : ChaCha.Key} {m : Machine} :
    build settings hostKey = .ok m ↔
      (0 < settings.screenWidth ∧ 0 < settings.screenHeight) ∧ m = fresh settings hostKey := by
  unfold build
  split
  · next hsize =>
    refine ⟨nofun, fun h => ?_⟩
    have hw := h.1.1
    have hh := h.1.2
    omega
  · next hsize =>
    rw [not_or] at hsize
    have hpos := And.intro (Nat.pos_of_ne_zero hsize.1) (Nat.pos_of_ne_zero hsize.2)
    exact ⟨fun h => ⟨hpos, (Except.ok.inj h).symm⟩, fun h => congrArg Except.ok h.2.symm⟩

/-- The machine with a program in memory and everything but the random bytes back at the start. -/
def loaded (m : Machine) (program : List UInt8) : Machine :=
  { m with
    registers := {}
    memory := Memory.initial.store programStart program
    screen := m.screen.clear
    timers := {} }

theorem memory_loaded (m : Machine) (program : List UInt8) :
    (m.loaded program).memory = Memory.initial.store programStart program := rfl

theorem toNat_pc_loaded (m : Machine) (program : List UInt8) :
    (m.loaded program).registers.pc.toNat = programStart := by
  show programStart.toUInt16.toNat = programStart
  decide

theorem load_of_le (m : Machine) {program : List UInt8} (h : program.length ≤ programCapacity) :
    m.load program = .ok (m.loaded program) := by
  unfold load Memory.load
  rw [if_pos h]
  rfl

/-- A program that does not fit is refused. -/
theorem load_of_lt (m : Machine) {program : List UInt8} (h : programCapacity < program.length) :
    m.load program = .error (.programTooLarge program.length programCapacity) := by
  unfold load Memory.load
  rw [if_neg (Nat.not_le.2 h)]
  rfl

theorem machine_act_load_of_le (m : Machine) (d : δ) {program : List UInt8}
    (h : program.length ≤ programCapacity) :
    (m.act d (.load program)).machine = m.loaded program := by
  simp only [act, load_of_le m h]

/-- An attempt to load a program that does not fit leaves everything as it was. -/
theorem act_load_of_lt (m : Machine) (d : δ) {program : List UInt8}
    (h : programCapacity < program.length) :
    m.act d (.load program) = m.stopped d (.programTooLarge program.length programCapacity) := by
  simp only [act, load_of_lt m h]

/-- An attempt to load a program is refused if the action loads none. -/
theorem act_load_of_not_loads (m : Machine) (d : δ) {program : List UInt8}
    (h : ¬ (Action.load program).Loads) :
    m.act d (.load program) = m.stopped d (.programTooLarge program.length programCapacity) :=
  act_load_of_lt m d (Nat.not_le.1 h)

omit [Devices δ] in
/-- After loading, the first two bytes of the program are the upcoming instruction. -/
theorem upcoming?_loaded (m : Machine) (high low : UInt8) (rest : List UInt8) :
    (m.loaded (high :: low :: rest)).upcoming? =
      some (Instruction.ofWord (high.toUInt16 * 0x100 + low.toUInt16)) := by
  unfold upcoming?
  rw [fetch_eq, toNat_pc_loaded, memory_loaded, Memory.peek_store, Memory.peek_store]
  simp [programStart, memorySize, Except.toOption]

omit [Devices δ] in
/-- While memory holds a program behind its start, two bytes of the program at the program counter
are the upcoming instruction. -/
theorem upcoming?_of_bytes {m : Machine} {program : List UInt8} {k : Nat} {high low : UInt8}
    (hbytes : ∀ k byte, program[k]? = some byte → m.memory.peek (programStart + k) = byte)
    (hle : program.length ≤ programCapacity) (hpc : m.registers.pc.toNat = programStart + k)
    (hhigh : program[k]? = some high) (hlow : program[k + 1]? = some low) :
    m.upcoming? = some (Instruction.ofWord (high.toUInt16 * 0x100 + low.toUInt16)) := by
  obtain ⟨hlt, -⟩ := List.getElem?_eq_some_iff.1 hlow
  have hend : programStart + k + 1 < memorySize := by
    simp only [programStart, programCapacity, memorySize] at hle ⊢
    omega
  rw [upcoming?_of_pc_le (by rw [hpc]; simp only [memorySize] at hend; omega), hpc,
    hbytes k high hhigh, Nat.add_assoc, hbytes (k + 1) low hlow]

omit [Devices δ] in
/-- While memory is as a load has left it, two bytes of the program at the program counter are the
upcoming instruction. -/
theorem upcoming?_of_program {m : Machine} {program : List UInt8} {k : Nat} {high low : UInt8}
    (hmemory : m.memory = Memory.initial.store programStart program)
    (hle : program.length ≤ programCapacity) (hpc : m.registers.pc.toNat = programStart + k)
    (hhigh : program[k]? = some high) (hlow : program[k + 1]? = some low) :
    m.upcoming? = some (Instruction.ofWord (high.toUInt16 * 0x100 + low.toUInt16)) := by
  apply upcoming?_of_bytes _ hle hpc hhigh hlow
  intro j byte hbyte
  obtain ⟨hlt, -⟩ := List.getElem?_eq_some_iff.1 hbyte
  rw [hmemory, Memory.peek_program hbyte]
  simp only [programStart, programCapacity, memorySize] at hle ⊢
  omega

end Machine

/-! ## Reachable machines -/

/-- A machine that can arise from building one with the given settings.  Each action may meet other
devices, so that every answer of the devices is covered. -/
inductive Reachable (settings : Settings) : Machine → Prop where
  /-- A machine that was built just now. -/
  | build {hostKey : ChaCha.Key} {m : Machine} (h : Machine.build settings hostKey = .ok m) :
    Reachable settings m
  /-- A machine that an action leaves. -/
  | act {m : Machine} (h : Reachable settings m) {δ : Type} [Devices δ] (d : δ) (action : Action) :
    Reachable settings (m.act d action).machine

theorem Reachable.loaded {settings : Settings} {m : Machine} (h : Reachable settings m)
    {program : List UInt8} (hle : program.length ≤ programCapacity) :
    Reachable settings (m.loaded program) := by
  have hact := h.act Headless.mk (.load program)
  rw [Machine.machine_act_load_of_le m Headless.mk hle] at hact
  exact hact

/-- A machine that was built just now, with a program in memory, is reachable. -/
theorem Reachable.fresh_loaded {settings : Settings} {hostKey : ChaCha.Key}
    (hpos : 0 < settings.screenWidth ∧ 0 < settings.screenHeight) {program : List UInt8}
    (hle : program.length ≤ programCapacity) :
    Reachable settings ((Machine.fresh settings hostKey).loaded program) := by
  have hbuild : Machine.build settings hostKey = .ok (Machine.fresh settings hostKey) :=
    Machine.build_eq_ok_iff.2 ⟨hpos, rfl⟩
  exact (Reachable.build hbuild).loaded hle

/-- A course of actions leads to a reachable machine. -/
theorem Reachable.after {settings : Settings} {m : Machine} (h : Reachable settings m)
    {δ : Type} [Devices δ] (d : δ) (actions : List Action) :
    Reachable settings (m.after d actions).1 := by
  induction actions generalizing m d with
  | nil => exact h
  | cons action actions ih => exact ih (h.act d action) _

end ChipEight
