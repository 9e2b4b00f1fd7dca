import ChipEight.Machine.Step
import ChipEight.Memory.Lemmas
import ChipEight.Proofs.Operands

/-!
# What an instruction does to each part of a machine

Memory, screen, timers and random bytes after an instruction do not depend on what the devices
answer, and each instruction changes few of them.  The functions below say what becomes of each
part, and `machine_execute` says that together they describe the machine.  Only the registers can
depend on the devices; of these, the call stack again does not.

Main results:

- `machine_execute`: every part but the registers after an instruction, whether or not it ends in a
  fault.
- `stack_execute`, `pc_execute`: the call stack and the program counter after an instruction.
- `events_execute`: what an instruction shows while it is executed.
- `step_of_upcoming`, `step_of_upcoming_eq_none`: a step is the execution of the upcoming
  instruction, and without one it is a fault that leaves everything as it was.
-/

namespace ChipEight

/-! ## Program counter and stack under register operations -/

namespace Registers

theorem pc_skipIf (r : Registers) (condition : Bool) :
    (r.skipIf condition).pc = if condition then r.pc + 2 else r.pc := by
  cases condition <;> rfl

@[simp]
theorem stack_skipIf (r : Registers) (condition : Bool) : (r.skipIf condition).stack = r.stack := by
  cases condition <;> rfl

@[simp]
theorem pc_combine (r : Registers) (op : Arithmetic) (x y : UInt8) :
    (r.combine op x y).pc = r.pc := by
  cases op <;> rfl

@[simp]
theorem stack_combine (r : Registers) (op : Arithmetic) (x y : UInt8) :
    (r.combine op x y).stack = r.stack := by
  cases op <;> rfl

/-- The call stack after an instruction: only a call and a return change it. -/
def stackAfter (r : Registers) : Instruction → CallStack
  | .call _ => (r.stack.push? r.pc).getD r.stack
  | .ret => (r.stack.pop?.map Prod.snd).getD r.stack
  | _ => r.stack

end Registers

namespace Machine

variable {δ : Type}

/-! ## Parts of a machine after an instruction -/

/-- The memory after an instruction: only a store that lies in memory changes it. -/
def memoryAfter (m : Machine) : Instruction → Memory
  | .storeDigits x =>
    ((m.memory.overwrite m.registers.index.toNat 3
      (decimalDigit (m.registers.get x))).toOption).getD m.memory
  | .save x =>
    ((m.memory.overwrite m.registers.index.toNat (x.toNat + 1)
      fun i => m.registers.general[i]?.getD 0).toOption).getD m.memory
  | _ => m.memory

/-- The screen after a sprite of memory was drawn on it, and whether that made any cell dark. -/
def drawing (m : Machine) (x y rows : UInt8) : Screen × Bool :=
  m.screen.drawSprite (m.registers.get x).toNat (m.registers.get y).toNat
    (m.memory.bytesAt m.registers.index.toNat rows.toNat)

/-- The machine after a sprite was drawn. -/
def drawn (m : Machine) (x y rows : UInt8) : Machine :=
  { m with
    registers := m.registers.setFlag (m.drawing x y rows).2
    screen := (m.drawing x y rows).1 }

/-- The screen after an instruction: only clearing it and drawing a sprite that lies in memory
change it. -/
def screenAfter (m : Machine) : Instruction → Screen
  | .clear => m.screen.clear
  | .draw x y rows =>
    if Memory.Fits m.registers.index.toNat rows.toNat then (m.drawing x y rows).1 else m.screen
  | _ => m.screen

/-- The timers after an instruction: only setting one of them changes it. -/
def timersAfter (m : Machine) : Instruction → Timers
  | .setDelay x => { m.timers with delay := m.registers.get x }
  | .setSound x => { m.timers with sound := m.registers.get x }
  | _ => m.timers

/-- The random bytes to come after an instruction: only taking one changes them. -/
def randomAfter (m : Machine) : Instruction → Generator
  | .random _ _ => m.random.nextByte.2
  | _ => m.random

/-- What executing an instruction shows: the frame of a sprite that lies in memory, or a word that
stands for no instruction and the address behind which the program counter is. -/
def eventsOf (m : Machine) : Instruction → List Event
  | .draw x y rows =>
    if Memory.Fits m.registers.index.toNat rows.toNat then [.offered (m.drawing x y rows).1] else []
  | .unknown word => [.unknownWord word (m.registers.pc - 2)]
  | _ => []

/-! ## Families of instructions -/

/-- A jump changes registers only. -/
theorem machine_jumpTo (m : Machine) (d : δ) (target : Except Fault Registers) :
    ∃ r, (m.jumpTo d target).machine = m.withRegisters r := by
  cases target with
  | ok r => exact ⟨r, rfl⟩
  | error fault => exact ⟨m.registers, rfl⟩

/-- A store changes memory only, and nothing if it ends in a fault. -/
theorem machine_writeMemory (m : Machine) (d : δ) (target : Except Fault Memory) :
    (m.writeMemory d target).machine = { m with memory := target.toOption.getD m.memory } := by
  cases target <;> rfl

variable [Devices δ]

/-- A skip on a key changes the program counter only, by one instruction or not at all. -/
theorem machine_skipOnKey (m : Machine) (d : δ) (x : UInt8) (wanted : Bool) :
    ∃ condition, (m.skipOnKey d x wanted).machine =
      m.withRegisters (m.registers.skipIf condition) := by
  unfold skipOnKey
  split
  · exact ⟨false, rfl⟩
  · exact ⟨_, rfl⟩

/-- Waiting for a key changes the awaited register only. -/
theorem machine_awaitKey (m : Machine) (d : δ) (x : UInt8) :
    (m.awaitKey d x).machine = m ∨
      ∃ key : Key, (m.awaitKey d x).machine = m.withRegisters (m.registers.set x key.number) := by
  unfold awaitKey
  split
  · exact .inl rfl
  · next key _ _ => exact .inr ⟨key, rfl⟩

/-- Drawing a sprite that lies in memory changes screen and flag, whether or not the display takes
the frame; any other drawing ends in a fault before it has changed anything. -/
theorem draw_eq (m : Machine) (d : δ) (x y rows : UInt8) :
    m.draw d x y rows =
      if Memory.Fits m.registers.index.toNat rows.toNat then
        { machine := m.drawn x y rows
          devices := (Devices.draw (m.drawing x y rows).1 d).2
          result := (Devices.draw (m.drawing x y rows).1 d).1.map fun _ => .draw
          events := #[.offered (m.drawing x y rows).1] }
      else
        m.stopped d (Memory.outOfRange m.registers.index.toNat rows.toNat) := by
  unfold draw Memory.window
  by_cases h : Memory.Fits m.registers.index.toNat rows.toNat
  · rcases hd : Devices.draw (m.drawing x y rows).1 d with ⟨answer, after⟩
    have hanswer : Devices.draw (m.screen.drawSprite (m.registers.get x).toNat
        (m.registers.get y).toNat (m.memory.bytesAt m.registers.index.toNat rows.toNat)).1 d =
        (answer, after) := hd
    simp only [if_pos h, hanswer]
    cases answer <;> rfl
  · simp only [if_neg h]

/-- Loading registers from memory changes registers only, and neither program counter nor call
stack. -/
theorem machine_restore (m : Machine) (d : δ) (x : UInt8) :
    (m.execute d (.restore x)).machine = m ∨
      ∃ bytes, (m.execute d (.restore x)).machine =
        m.withRegisters (m.registers.setFirst bytes) := by
  unfold execute
  dsimp only
  split
  · next bytes _ => exact .inr ⟨bytes, rfl⟩
  · exact .inl rfl

/-! ## All instructions -/

/-- Every part but the registers after an instruction, whether or not it ends in a fault. -/
theorem machine_execute (m : Machine) (d : δ) (i : Instruction) :
    (m.execute d i).machine =
      { settings := m.settings
        registers := (m.execute d i).machine.registers
        memory := m.memoryAfter i
        screen := m.screenAfter i
        timers := m.timersAfter i
        random := m.randomAfter i } := by
  cases i with
  | ret =>
    obtain ⟨r, hr⟩ := machine_jumpTo m d m.registers.ret
    simp only [execute, hr]
    rfl
  | call address =>
    obtain ⟨r, hr⟩ := machine_jumpTo m d (m.registers.call address)
    simp only [execute, hr]
    rfl
  | draw x y rows =>
    simp only [execute, draw_eq, screenAfter]
    split <;> rfl
  | skipPressed x =>
    obtain ⟨condition, hc⟩ := machine_skipOnKey m d x true
    simp only [execute, hc]
    rfl
  | skipNotPressed x =>
    obtain ⟨condition, hc⟩ := machine_skipOnKey m d x false
    simp only [execute, hc]
    rfl
  | awaitKey x =>
    rcases machine_awaitKey m d x with h | ⟨key, h⟩ <;> simp only [execute, h] <;> rfl
  | restore x =>
    rcases machine_restore m d x with h | ⟨bytes, h⟩ <;> simp only [h] <;> rfl
  | storeDigits x | save x =>
    simp only [execute, machine_writeMemory]
    rfl
  | _ => rfl

/-- What an instruction shows while it is executed, whether or not it ends in a fault. -/
theorem events_execute (m : Machine) (d : δ) (i : Instruction) :
    (m.execute d i).events.toList = m.eventsOf i := by
  have hjump (target : Except Fault Registers) : (m.jumpTo d target).events.toList = [] := by
    cases target <;> rfl
  have hwrite (target : Except Fault Memory) : (m.writeMemory d target).events.toList = [] := by
    cases target <;> rfl
  cases i with
  | ret | call | jump | jumpOffset => exact hjump _
  | storeDigits | save => exact hwrite _
  | draw x y rows =>
    simp only [execute, draw_eq, eventsOf]
    split <;> rfl
  | skipPressed | skipNotPressed =>
    simp only [execute, skipOnKey]
    split <;> rfl
  | awaitKey =>
    simp only [execute, awaitKey]
    split <;> rfl
  | restore =>
    simp only [execute]
    split <;> rfl
  | _ => rfl

/-- The call stack after an instruction, whether or not it ends in a fault. -/
theorem stack_execute (m : Machine) (d : δ) (i : Instruction) :
    (m.execute d i).machine.registers.stack = m.registers.stackAfter i := by
  cases i with
  | ret =>
    simp only [execute, Registers.ret]
    unfold Registers.stackAfter
    cases m.registers.stack.pop? <;> rfl
  | call address =>
    simp only [execute, Registers.call]
    unfold Registers.stackAfter
    cases m.registers.stack.push? m.registers.pc <;> rfl
  | draw x y rows =>
    simp only [execute, draw_eq]
    split <;> rfl
  | skipPressed x =>
    obtain ⟨condition, hc⟩ := machine_skipOnKey m d x true
    simp only [execute, hc]
    exact Registers.stack_skipIf _ _
  | skipNotPressed x =>
    obtain ⟨condition, hc⟩ := machine_skipOnKey m d x false
    simp only [execute, hc]
    exact Registers.stack_skipIf _ _
  | awaitKey x =>
    rcases machine_awaitKey m d x with h | ⟨key, h⟩ <;> simp only [execute, h] <;> rfl
  | restore x =>
    rcases machine_restore m d x with h | ⟨bytes, h⟩ <;> simp only [h] <;> rfl
  | storeDigits x | save x =>
    simp only [execute, machine_writeMemory]
    rfl
  | skipEqByte | skipNeByte | skipEq | skipNe => exact Registers.stack_skipIf _ _
  | arith op x y => exact Registers.stack_combine _ _ _ _
  | _ => rfl

/-- The program counter after an instruction: it stays, or it skips one instruction, or the
instruction is one of the four that jump. -/
theorem pc_execute (m : Machine) (d : δ) (i : Instruction) :
    (m.execute d i).machine.registers.pc = m.registers.pc ∨
      (m.execute d i).machine.registers.pc = m.registers.pc + 2 ∨
      (∃ address, (i = .jump address ∨ i = .call address) ∧
        (m.execute d i).machine.registers.pc = address) ∨
      (∃ address, i = .jumpOffset address ∧
        (m.execute d i).machine.registers.pc = (m.registers.get 0).toUInt16 + address) ∨
      (∃ address stack, i = .ret ∧ m.registers.stack.pop? = some (address, stack) ∧
        (m.execute d i).machine.registers.pc = address) := by
  -- All skips, by a comparison or by a key, are one conditional skip.
  have hskip (condition : Bool) :
      (m.registers.skipIf condition).pc = m.registers.pc ∨
        (m.registers.skipIf condition).pc = m.registers.pc + 2 := by
    rw [Registers.pc_skipIf]
    split
    · exact .inr rfl
    · exact .inl rfl
  have hstay {a b c : Prop} (h : a ∨ b) : a ∨ b ∨ c := h.imp_right .inl
  cases i with
  | jump address => exact .inr (.inr (.inl ⟨address, .inl rfl, rfl⟩))
  | jumpOffset address => exact .inr (.inr (.inr (.inl ⟨address, rfl, rfl⟩)))
  | ret =>
    cases h : m.registers.stack.pop? with
    | none => exact .inl (by simp [execute, Registers.ret, jumpTo, stopped, h])
    | some top =>
      refine .inr (.inr (.inr (.inr ⟨top.1, top.2, rfl, rfl, ?_⟩)))
      simp [execute, Registers.ret, jumpTo, completed, withRegisters, h]
  | call address =>
    cases h : m.registers.stack.push? m.registers.pc with
    | none => exact .inl (by simp [execute, Registers.call, jumpTo, stopped, h])
    | some stack =>
      refine .inr (.inr (.inl ⟨address, .inr rfl, ?_⟩))
      simp [execute, Registers.call, jumpTo, completed, withRegisters, h]
  | draw x y rows =>
    refine .inl ?_
    simp only [execute, draw_eq]
    split <;> rfl
  | skipPressed x =>
    obtain ⟨condition, hc⟩ := machine_skipOnKey m d x true
    simp only [execute, hc]
    exact hstay (hskip condition)
  | skipNotPressed x =>
    obtain ⟨condition, hc⟩ := machine_skipOnKey m d x false
    simp only [execute, hc]
    exact hstay (hskip condition)
  | awaitKey x =>
    rcases machine_awaitKey m d x with h | ⟨key, h⟩
    · exact .inl (congrArg (·.registers.pc) h)
    · exact .inl (congrArg (·.registers.pc) h)
  | restore x =>
    rcases machine_restore m d x with h | ⟨bytes, h⟩
    · exact .inl (congrArg (·.registers.pc) h)
    · exact .inl (congrArg (·.registers.pc) h)
  | storeDigits x | save x => exact .inl (congrArg (·.registers.pc) (machine_writeMemory m d _))
  | skipEqByte | skipNeByte | skipEq | skipNe => exact hstay (hskip _)
  | arith op x y => exact .inl (Registers.pc_combine _ _ _ _)
  | _ => exact .inl rfl

/-! ## Steps -/

omit [Devices δ]

/-- The instruction that the next step executes, if one can be fetched. -/
def upcoming? (m : Machine) : Option Instruction :=
  m.fetch.toOption.map Instruction.ofWord

/-- The machine whose program counter has passed the upcoming instruction. -/
def advanced (m : Machine) : Machine := m.withRegisters m.registers.skip

/-- The next step draws no rows at address 0. -/
def DrawsNothing (m : Machine) : Prop :=
  ∃ x y, m.upcoming? = some (.draw x y 0) ∧ m.registers.index = 0

/-- A drawing that does not draw no rows at address 0 has a window with a last address. -/
theorem pos_of_upcoming_draw {m : Machine} (hdraws : ¬ m.DrawsNothing) {x y rows : UInt8}
    (hi : m.upcoming? = some (.draw x y rows)) :
    0 < m.registers.index.toNat + rows.toNat := by
  refine Nat.pos_of_ne_zero fun hzero => hdraws ⟨x, y, ?_, ?_⟩
  · have hrows : rows = 0 := UInt8.toNat_inj.1 (Nat.add_eq_zero_iff.1 hzero).2
    rw [hi, hrows]
  · exact UInt16.toNat_inj.1 (Nat.add_eq_zero_iff.1 hzero).1

/-- A word can be fetched exactly if both its bytes lie in memory. -/
theorem fetch_eq (m : Machine) :
    m.fetch =
      if m.registers.pc.toNat ≤ 0xFFE then
        .ok ((m.memory.peek m.registers.pc.toNat).toUInt16 * 0x100 +
          (m.memory.peek (m.registers.pc.toNat + 1)).toUInt16)
      else .error (.addressOutOfRange (m.registers.pc.toNat + 1)) := by
  have hpc := m.registers.pc.toNat_lt
  have hfits : Memory.Fits m.registers.pc.toNat 2 ↔ m.registers.pc.toNat ≤ 0xFFE := by
    simp only [Memory.Fits, memorySize]
    omega
  have hlast : min (m.registers.pc.toNat + 2) Memory.addressLimit =
      m.registers.pc.toNat + 1 + 1 :=
    Nat.min_eq_left (by simp only [Memory.addressLimit]; omega)
  unfold fetch Memory.word
  by_cases h : m.registers.pc.toNat ≤ 0xFFE
  · rw [if_pos h, if_pos (hfits.2 h)]
  · rw [if_neg h, if_neg (mt hfits.1 h)]
    simp only [Memory.outOfRange, hlast]

/-- There is no upcoming instruction exactly if its word does not lie in memory. -/
theorem upcoming?_eq_none_iff {m : Machine} :
    m.upcoming? = none ↔ 0xFFE < m.registers.pc.toNat := by
  unfold upcoming?
  rw [fetch_eq]
  split
  · next h => exact ⟨nofun, fun hlt => absurd h (Nat.not_le.2 hlt)⟩
  · next h => exact ⟨fun _ => Nat.not_le.1 h, fun _ => rfl⟩

/-- The instruction that is upcoming where both bytes of its word lie in memory. -/
theorem upcoming?_of_pc_le {m : Machine} (h : m.registers.pc.toNat ≤ 0xFFE) :
    m.upcoming? =
      some (Instruction.ofWord ((m.memory.peek m.registers.pc.toNat).toUInt16 * 0x100 +
        (m.memory.peek (m.registers.pc.toNat + 1)).toUInt16)) := by
  unfold upcoming?
  rw [fetch_eq, if_pos h]
  rfl

theorem pc_le_of_upcoming {m : Machine} {i : Instruction} (h : m.upcoming? = some i) :
    m.registers.pc.toNat ≤ 0xFFE := by
  refine Nat.le_of_not_lt fun hlt => ?_
  rw [upcoming?_eq_none_iff.2 hlt] at h
  cases h

/-- Passing an upcoming instruction adds two to the program counter without wrapping it around. -/
theorem toNat_pc_advanced {m : Machine} {i : Instruction} (h : m.upcoming? = some i) :
    m.advanced.registers.pc.toNat = m.registers.pc.toNat + 2 := by
  have hpc := pc_le_of_upcoming h
  show (m.registers.pc + 2).toNat = _
  rw [UInt16.toNat_add]
  exact Nat.mod_eq_of_lt (by simp; omega)

/-- The operands of an upcoming instruction fit into their widths. -/
theorem wellFormed_of_upcoming {m : Machine} {i : Instruction} (h : m.upcoming? = some i) :
    i.WellFormed := by
  obtain ⟨word, _, rfl⟩ := Option.map_eq_some_iff.1 h
  exact Instruction.wellFormed_ofWord word

variable [Devices δ]

/-- A step executes the upcoming instruction, once the program counter has passed it. -/
theorem step_of_upcoming {m : Machine} {i : Instruction} (h : m.upcoming? = some i) (d : δ) :
    m.step d = (m.advanced.execute d i).around m.registers.pc i := by
  obtain ⟨word, hword, rfl⟩ := Option.map_eq_some_iff.1 h
  have hfetch : m.fetch = .ok word := by
    cases hf : m.fetch with
    | ok other => rw [hf] at hword; exact congrArg Except.ok (Option.some.inj hword)
    | error fault => rw [hf] at hword; cases hword
  simp only [step, hfetch, advanced]

/-- Without an upcoming instruction a step is a fault that leaves everything as it was. -/
theorem step_of_upcoming_eq_none {m : Machine} (h : m.upcoming? = none) (d : δ) :
    m.step d = m.stopped d (.addressOutOfRange (m.registers.pc.toNat + 1)) := by
  have hlt := upcoming?_eq_none_iff.1 h
  simp only [step, fetch_eq, if_neg (Nat.not_le.2 hlt)]

theorem machine_step_of_upcoming {m : Machine} {i : Instruction} (h : m.upcoming? = some i)
    (d : δ) :
    (m.step d).machine = (m.advanced.execute d i).machine := by
  rw [step_of_upcoming h]
  rfl

theorem result_step_of_upcoming {m : Machine} {i : Instruction} (h : m.upcoming? = some i) (d : δ) :
    (m.step d).result = (m.advanced.execute d i).result := by
  rw [step_of_upcoming h]
  rfl

end Machine

end ChipEight
