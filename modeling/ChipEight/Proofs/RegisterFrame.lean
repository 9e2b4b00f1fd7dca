import ChipEight.Proofs.Arithmetic
import ChipEight.Proofs.Skips
import ChipEight.Proofs.Subroutines

/-!
# What a step leaves in the registers

Each instruction writes few registers, and most of them only if it succeeds.  A general register
keeps its byte unless it is a target of an instruction that succeeds, or it is the flag register and
a sprite of memory is drawn, which writes it whether or not the display takes the frame.  Three
instructions write the index register, calls and returns the call stack, and where the program
counter goes depends on the instruction and, for a skip, on its condition.

Main results:

- `registers_execute_cases`: which registers a jump, a skip and any other instruction leave alone.
- `get_execute`, `index_execute`, `stack_execute_cases`: the registers after any instruction.
- `goesTo_step`: the program counter after a step that succeeds.
- `step_keeps_registers`: all of it, for a step of a reachable machine.
-/

namespace ChipEight

/-! ## Targets and jumps -/

/-- An instruction may write a general register when it succeeds. -/
def Instruction.Targets (i : Instruction) (j : UInt8) : Prop :=
  match i with
  | .setByte x _ | .addByte x _ | .random x _ | .readDelay x | .awaitKey x => j = x
  | .arith op x _ => j = x ∨ op ∈ [.add, .sub, .subFrom] ∧ j = 0xF
  | .shiftRight x | .shiftLeft x => j = x ∨ j = 0xF
  | .restore x => j ≤ x
  | _ => False

/-- The four instructions after which the program goes on elsewhere. -/
def Instruction.IsJump : Instruction → Prop
  | .jump _ | .call _ | .jumpOffset _ | .ret => True
  | _ => False

/-- An operation without a flag is none of the three that have one. -/
theorem Arithmetic.apply_snd_eq_none {op : Arithmetic} (h : op ∉ [.add, .sub, .subFrom])
    (a b : UInt8) : (op.apply a b).2 = none := by
  cases op with
  | add | sub | subFrom => exact absurd (by decide) h
  | copy | or | and | xor => rfl

namespace Registers

variable (r : Registers) {x j : UInt8}

theorem get_set_cases (hx : x.toNat < 16) (hj : j.toNat < 16) (byte : UInt8) :
    (r.set x byte).get j = r.get j ∨ j = x := by
  rw [get_set_of_lt r hx hj]
  split
  · next h => exact .inr h
  · exact .inl rfl

theorem get_put_cases (hx : x.toNat < 16) (hj : j.toNat < 16) (value : UInt8)
    (flag? : Option Bool) :
    (r.put x value flag?).get j = r.get j ∨ j = x ∨ flag? ≠ none ∧ j = 0xF := by
  by_cases h : flag? = none ∨ j ≠ 0xF
  · rw [get_put r hx hj value h]
    split
    · next hself => exact .inr (.inl hself)
    · exact .inl rfl
  · rw [not_or, not_not] at h
    exact .inr (.inr h)

theorem get_setFirst_cases (hj : j.toNat < 16) {bytes : List UInt8}
    (hlength : bytes.length = x.toNat + 1) : (r.setFirst bytes).get j = r.get j ∨ j ≤ x := by
  rw [get_setFirst, Nat.mod_eq_of_lt hj]
  by_cases h : j ≤ x
  · exact .inr h
  · rw [UInt8.le_iff_toNat_le] at h
    rw [List.getElem?_eq_none (by omega)]
    exact .inl rfl

theorem combine_eq_with_general (op : Arithmetic) (x y : UInt8) :
    r.combine op x y = { r with general := (r.combine op x y).general } := by
  cases op <;> rfl

theorem skipIf_eq_with_pc (condition : Bool) :
    r.skipIf condition = { r with pc := (r.skipIf condition).pc } := by
  cases condition <;> rfl

end Registers

namespace Machine

variable {δ : Type}

/-! ## Three kinds of instructions -/

/-- The address in the index register after an instruction, as a number. -/
def indexAfter (m : Machine) : Instruction → Nat
  | .setIndex address => address.toNat
  | .addIndex x => (m.registers.index.toNat + (m.registers.get x).toNat) % 65536
  | .pointGlyph x => 5 * (m.registers.get x).toNat
  | _ => m.registers.index.toNat

theorem indexAfter_of_isJump_or_maySkip {m : Machine} {i : Instruction}
    (h : i.IsJump ∨ i.MaySkip) : m.indexAfter i = m.registers.index.toNat := by
  cases i with
  | setIndex | addIndex | pointGlyph => exact absurd h (not_or.2 ⟨id, id⟩)
  | _ => rfl

variable [Devices δ]

/-- A jump keeps the general registers and the index register, a skip moves the program counter
only, and any other instruction keeps the program counter and the call stack.  This is so whether or
not the instruction fails. -/
theorem registers_execute_cases (m : Machine) (d : δ) (i : Instruction) :
    (i.IsJump ∧ ∃ pc stack,
        (m.execute d i).machine.registers = { m.registers with pc, stack }) ∨
      (i.MaySkip ∧ ∃ pc, (m.execute d i).machine.registers = { m.registers with pc }) ∨
      (¬ i.IsJump ∧ ¬ i.MaySkip ∧ ∃ general index, index.toNat = m.indexAfter i ∧
        (m.execute d i).machine.registers = { m.registers with general, index }) := by
  have hskip (h : i.MaySkip) :
      ∃ pc, (m.execute d i).machine.registers = { m.registers with pc } := by
    rcases machine_execute_of_maySkip m d h with ⟨condition, hmachine⟩
    rw [hmachine]
    exact ⟨_, m.registers.skipIf_eq_with_pc condition⟩
  -- An instruction that fails leaves the registers as they were.
  have hsame : ∃ general index, index.toNat = m.registers.index.toNat ∧
      m.registers = { m.registers with general, index } := ⟨_, _, rfl, rfl⟩
  cases i with
  | jump | jumpOffset => exact .inl ⟨trivial, _, _, rfl⟩
  | ret =>
    refine .inl ⟨trivial, ?_⟩
    rw [execute_ret]
    cases m.registers.stack.pop? <;> exact ⟨_, _, rfl⟩
  | call address =>
    refine .inl ⟨trivial, ?_⟩
    rw [execute_call]
    cases m.registers.stack.push? m.registers.pc <;> exact ⟨_, _, rfl⟩
  | skipEqByte | skipNeByte | skipEq | skipNe | skipPressed | skipNotPressed =>
    exact .inr (.inl ⟨trivial, hskip trivial⟩)
  | arith op x y =>
    exact .inr (.inr ⟨id, id, _, _, rfl, m.registers.combine_eq_with_general op x y⟩)
  | addIndex x =>
    refine .inr (.inr ⟨id, id, _, _, ?_, rfl⟩)
    rw [UInt16.toNat_add, UInt8.toNat_toUInt16]
    rfl
  | pointGlyph x =>
    have hx := (m.registers.get x).toNat_lt
    refine .inr (.inr ⟨id, id, _, _, ?_, rfl⟩)
    show (0 + (m.registers.get x).toNat * 5) % 65536 = 5 * (m.registers.get x).toNat
    omega
  | awaitKey x =>
    refine .inr (.inr ⟨id, id, ?_⟩)
    simp only [execute]
    rcases machine_awaitKey m d x with hfail | ⟨key, hkey⟩
    · rw [hfail]
      exact hsame
    · rw [hkey]
      exact ⟨_, _, rfl, rfl⟩
  | restore x =>
    refine .inr (.inr ⟨id, id, ?_⟩)
    rcases machine_restore m d x with hfail | ⟨bytes, hbytes⟩
    · rw [hfail]
      exact hsame
    · rw [hbytes]
      exact ⟨_, _, rfl, rfl⟩
  | draw x y rows =>
    refine .inr (.inr ⟨id, id, ?_⟩)
    simp only [execute, draw_eq]
    split
    · exact ⟨_, _, rfl, rfl⟩
    · exact hsame
  | storeDigits x | save x =>
    refine .inr (.inr ⟨id, id, ?_⟩)
    rw [execute, machine_writeMemory]
    exact hsame
  | _ => exact .inr (.inr ⟨id, id, _, _, rfl, rfl⟩)

/-! ## General registers and index register -/

/-- A general register after an instruction, which may have failed. -/
theorem get_execute (m : Machine) (d : δ) {i : Instruction} (hi : i.WellFormed) {j : UInt8}
    (hj : j.toNat < 16) :
    (m.execute d i).machine.registers.get j = m.registers.get j ∨
      (m.execute d i).result.isOk = true ∧ i.Targets j ∨
      ∃ x y rows, i = .draw x y rows ∧
        Memory.Fits m.registers.index.toNat rows.toNat ∧ j = 0xF := by
  -- An instruction that always succeeds writes its targets or nothing.
  have hsucceeds {a b : Prop} {c : Prop} (h : a ∨ b) : a ∨ (true = true ∧ b) ∨ c :=
    h.imp_right fun hb => .inl ⟨rfl, hb⟩
  have hkept (h : i.IsJump ∨ i.MaySkip) :
      (m.execute d i).machine.registers.get j = m.registers.get j := by
    rcases m.registers_execute_cases d i with
      ⟨-, pc, stack, hjump⟩ | ⟨-, pc, hskip⟩ | ⟨hjump, hskip, -⟩
    · rw [hjump]
      rfl
    · rw [hskip]
      rfl
    · exact absurd h (not_or.2 ⟨hjump, hskip⟩)
  cases i with
  | setByte x byte | addByte x byte | random x byte =>
    exact hsucceeds (m.registers.get_set_cases hi hj _)
  | readDelay x => exact hsucceeds (m.registers.get_set_cases hi hj _)
  | arith op x y =>
    have hput := m.registers.get_put_cases hi.1 hj
      (op.apply (m.registers.get x) (m.registers.get y)).1
      (op.apply (m.registers.get x) (m.registers.get y)).2
    rw [← Registers.combine_eq_put] at hput
    refine hsucceeds (hput.imp_right (Or.imp_right ?_))
    intro hflag
    refine ⟨?_, hflag.2⟩
    by_contra hop
    exact hflag.1 (Arithmetic.apply_snd_eq_none hop _ _)
  | shiftRight x =>
    have hput := m.registers.get_put_cases hi hj (m.registers.get x >>> 1)
      (some (m.registers.get x &&& 1 == 1))
    exact hsucceeds (hput.imp_right (Or.imp_right And.right))
  | shiftLeft x =>
    have hput := m.registers.get_put_cases hi hj (m.registers.get x <<< 1)
      (some (m.registers.get x >>> 7 == 1))
    exact hsucceeds (hput.imp_right (Or.imp_right And.right))
  | awaitKey x =>
    simp only [execute, awaitKey]
    split
    · exact .inl rfl
    · exact hsucceeds (m.registers.get_set_cases hi hj _)
  | restore x =>
    simp only [execute]
    split
    · next bytes hwindow =>
      have hlength : bytes.length = x.toNat + 1 := by
        rw [(Memory.window_eq_ok_iff.1 hwindow).2, Memory.length_bytesAt]
      exact hsucceeds (m.registers.get_setFirst_cases hj hlength)
    · exact .inl rfl
  | draw x y rows =>
    simp only [execute, draw_eq]
    split
    · next hfits =>
      by_cases hflag : j = 0xF
      · exact .inr (.inr ⟨x, y, rows, rfl, hfits, hflag⟩)
      · exact .inl ((Registers.get_setFlag_of_lt _ _ hj).trans (if_neg hflag))
    · exact .inl rfl
  | ret | call | jump | jumpOffset => exact .inl (hkept (.inl trivial))
  | skipEqByte | skipNeByte | skipEq | skipNe | skipPressed | skipNotPressed =>
    exact .inl (hkept (.inr trivial))
  | storeDigits x | save x => exact .inl (by rw [execute, machine_writeMemory])
  | _ => exact .inl rfl

/-- The index register after an instruction, which may have failed. -/
theorem index_execute (m : Machine) (d : δ) (i : Instruction) :
    (m.execute d i).machine.registers.index.toNat = m.indexAfter i := by
  rcases m.registers_execute_cases d i with
    ⟨hjump, pc, stack, hregisters⟩ | ⟨hskip, pc, hregisters⟩ |
      ⟨-, -, general, index, hindex, hregisters⟩
  · rw [hregisters, indexAfter_of_isJump_or_maySkip (.inl hjump)]
  · rw [hregisters, indexAfter_of_isJump_or_maySkip (.inr hskip)]
  · rw [hregisters]
    exact hindex

/-! ## Call stack -/

/-- The call stack after an instruction, which may have failed. -/
theorem stack_execute_cases (m : Machine) (d : δ) (i : Instruction) :
    (m.execute d i).machine.registers.stack = m.registers.stack ∨
      (m.execute d i).result.isOk = true ∧ (i = .ret ∨ ∃ address, i = .call address) := by
  cases i with
  | ret =>
    rw [execute_ret]
    cases m.registers.stack.pop? with
    | none => exact .inl rfl
    | some top => exact .inr ⟨rfl, .inl rfl⟩
  | call address =>
    rw [execute_call]
    cases m.registers.stack.push? m.registers.pc with
    | none => exact .inl rfl
    | some stack => exact .inr ⟨rfl, .inr ⟨address, rfl⟩⟩
  | _ =>
    rw [stack_execute]
    exact .inl rfl

end Machine

/-! ## Program counter -/

namespace Machine

variable {δ : Type} [Devices δ]

/-- Where a step goes on that succeeds: at the address of a jump or a call, at that of a jump with
an offset, at the newest return address, or else behind the instruction, and one instruction further
if it skips. -/
def GoesTo (m : Machine) (d : δ) (i : Instruction) (pc : UInt16) : Prop :=
  match i with
  | .jump address | .call address => pc = address
  | .jumpOffset address => pc.toNat = (m.registers.get 0).toNat + address.toNat
  | .ret => m.registers.stack.toList.getLast? = some pc
  | i =>
    (m.Skips d i → pc.toNat = m.registers.pc.toNat + 4) ∧
      (¬ m.Skips d i → pc.toNat = m.registers.pc.toNat + 2)

/-- An instruction that neither jumps nor skips leaves the program counter behind it. -/
theorem pc_execute_of_behind (m : Machine) (d : δ) {i : Instruction} (hjump : ¬ i.IsJump)
    (hskip : ¬ i.MaySkip) : (m.execute d i).machine.registers.pc = m.registers.pc := by
  rcases m.registers_execute_cases d i with
    ⟨h, -⟩ | ⟨h, -⟩ | ⟨-, -, general, index, -, hregisters⟩
  · exact absurd h hjump
  · exact absurd h hskip
  · rw [hregisters]

/-- An instruction that does not jump goes on behind it, and one instruction further if it skips. -/
theorem goesTo_of_not_isJump {m : Machine} {d : δ} {i : Instruction} (hjump : ¬ i.IsJump)
    {pc : UInt16}
    (h : (m.Skips d i → pc.toNat = m.registers.pc.toNat + 4) ∧
      (¬ m.Skips d i → pc.toNat = m.registers.pc.toNat + 2)) : m.GoesTo d i pc := by
  cases i with
  | ret | call | jump | jumpOffset => exact absurd trivial hjump
  | _ => exact h

/-- Only an instruction that may skip has a condition to do so. -/
theorem maySkip_of_skips {m : Machine} {d : δ} {i : Instruction} (h : m.Skips d i) : i.MaySkip := by
  cases i with
  | skipEqByte | skipNeByte | skipEq | skipNe | skipPressed | skipNotPressed => trivial
  | _ => exact h

theorem goesTo_of_isJump {m : Machine} (hdepth : m.registers.stack.depth ≤ stackCapacity) {d : δ}
    {i : Instruction} (hi : m.upcoming? = some i) (hjump : i.IsJump)
    (hok : (m.step d).result.isOk = true) : m.GoesTo d i (m.step d).machine.registers.pc := by
  rw [result_step_of_upcoming hi] at hok
  rw [machine_step_of_upcoming hi]
  cases i with
  | jump address => rfl
  | jumpOffset address =>
    have haddress : address.toNat < 0x1000 := wellFormed_of_upcoming hi
    have hoffset := (m.registers.get 0).toNat_lt
    show ((m.registers.get 0).toUInt16 + address).toNat = _
    rw [UInt16.toNat_add, UInt8.toNat_toUInt16]
    exact Nat.mod_eq_of_lt (by omega)
  | call address =>
    rw [execute_call] at hok ⊢
    cases hpush : m.advanced.registers.stack.push? m.advanced.registers.pc with
    | none =>
      rw [hpush] at hok
      cases hok
    | some stack => rfl
  | ret =>
    rw [execute_ret] at hok ⊢
    cases hpop : m.advanced.registers.stack.pop? with
    | none =>
      rw [hpop] at hok
      cases hok
    | some top =>
      have hlist : m.registers.stack.toList = top.2.toList ++ [top.1] :=
        CallStack.toList_of_pop? hdepth hpop
      show m.registers.stack.toList.getLast? = some top.1
      rw [hlist, List.getLast?_concat]
  | _ => exact False.elim hjump

theorem goesTo_step {m : Machine} (hdepth : m.registers.stack.depth ≤ stackCapacity) {d : δ}
    {i : Instruction} (hi : m.upcoming? = some i) (hok : (m.step d).result.isOk = true) :
    m.GoesTo d i (m.step d).machine.registers.pc := by
  by_cases hjump : i.IsJump
  · exact goesTo_of_isJump hdepth hi hjump hok
  · apply goesTo_of_not_isJump hjump
    by_cases hskip : i.MaySkip
    · have hpoll : ∀ fault, m.requestOf? i = some .pollKey →
          (Devices.pollKey d).1 ≠ .error fault := by
        intro fault hrequest hfault
        rw [step_eq_stepWith hi, (stepWith_of_poll_error hrequest hfault).2] at hok
        cases hok
      have hpc : m.registers.pc.toNat ≤ highestTarget :=
        Nat.le_trans (pc_le_of_upcoming hi) (by decide)
      rcases stepWith_of_maySkip hskip hpoll with ⟨skips, hskips, hstep⟩
      rw [step_eq_stepWith hi, hstep, ← hskips, toNat_pc_passed hpc]
      cases skips with
      | false => exact ⟨fun h => absurd h Bool.false_ne_true, fun _ => rfl⟩
      | true => exact ⟨fun _ => rfl, fun h => absurd rfl h⟩
    · rw [machine_step_of_upcoming hi, pc_execute_of_behind _ _ hjump hskip, toNat_pc_advanced hi]
      exact ⟨fun h => absurd (maySkip_of_skips h) hskip, fun _ => rfl⟩

/-! ## Steps -/

/-- What a step leaves in the registers, if it succeeds and if it fails. -/
structure KeepsRegisters (m : Machine) (d : δ) (i : Instruction) : Prop where
  /-- A general register that differs is a target of an instruction that has succeeded, or it is the
  flag register and a sprite of memory was drawn. -/
  general : ∀ j : UInt8, j.toNat < 16 →
    (m.step d).machine.registers.get j ≠ m.registers.get j →
      (m.step d).result.isOk = true ∧ i.Targets j ∨
        ∃ x y rows, i = .draw x y rows ∧
          m.registers.index.toNat + rows.toNat ≤ 0x1000 ∧ j = 0xF
  /-- The index register is set, added to or pointed at a glyph, or keeps its address. -/
  index : (m.step d).machine.registers.index.toNat = m.indexAfter i
  /-- A glyph lies at one of the first addresses. -/
  glyph : ∀ x, i = .pointGlyph x → (m.step d).machine.registers.index.toNat ≤ 1275
  /-- The program counter of a step that succeeds. -/
  pc : (m.step d).result.isOk = true → m.GoesTo d i (m.step d).machine.registers.pc
  /-- A call stack that differs, in its cells or its depth, is that of a return or a call that has
  succeeded. -/
  stack : (m.step d).machine.registers.stack ≠ m.registers.stack →
    (m.step d).result.isOk = true ∧ (i = .ret ∨ ∃ address, i = .call address)
  /-- A word that stands for no instruction is passed. -/
  unknown : ∀ word, i = .unknown word →
    (m.step d).result = .ok .next ∧ (m.step d).machine = m.passed false ∧ (m.step d).devices = d

end Machine

/-- A step of a reachable machine changes registers only where its instruction says so, whether or
not it succeeds, and nothing at all if there is no instruction to be fetched. -/
theorem step_keeps_registers {settings : Settings} {m : Machine} (hreach : Reachable settings m)
    {δ : Type} [Devices δ] (d : δ) :
    (m.upcoming? = none → (m.step d).machine = m ∧ (m.step d).result.isOk = false) ∧
      ∀ i, m.upcoming? = some i → m.KeepsRegisters d i := by
  constructor
  · intro hi
    rw [Machine.step_of_upcoming_eq_none hi]
    exact ⟨rfl, rfl⟩
  · intro i hi
    have hindex : (m.step d).machine.registers.index.toNat = m.indexAfter i := by
      rw [Machine.machine_step_of_upcoming hi, Machine.index_execute]
      cases i <;> rfl
    constructor
    case general =>
      intro j hj hne
      have hget := m.advanced.get_execute d (Machine.wellFormed_of_upcoming hi) hj
      rw [← Machine.machine_step_of_upcoming hi, ← Machine.result_step_of_upcoming hi] at hget
      rcases hget with hsame | htarget | ⟨x, y, rows, hdraw, hfits, hflag⟩
      · exact absurd hsame hne
      · exact .inl htarget
      · exact .inr ⟨x, y, rows, hdraw, hfits.2, hflag⟩
    case index => exact hindex
    case glyph =>
      rintro x rfl
      have hx := (m.registers.get x).toNat_lt
      rw [hindex]
      show 5 * (m.registers.get x).toNat ≤ 1275
      omega
    case pc => exact Machine.goesTo_step hreach.sound.stack.depth_le hi
    case stack =>
      intro hne
      have hstack := m.advanced.stack_execute_cases d i
      rw [← Machine.machine_step_of_upcoming hi, ← Machine.result_step_of_upcoming hi] at hstack
      exact hstack.resolve_left hne
    case unknown =>
      rintro word rfl
      rw [Machine.step_of_upcoming hi]
      exact ⟨rfl, rfl, rfl⟩

/-- A program that loads registers 0 and 1 with the first two bytes of the glyph of 0: register 0
differs afterwards, register 2 does not, and neither does the index register. -/
theorem step_keeps_registers_restore :
    ∃ m : Machine, Reachable {} m ∧ m.upcoming? = some (.restore 1) ∧
      (m.step Headless.mk).result.isOk = true ∧
      (m.step Headless.mk).machine.registers.get 0 ≠ m.registers.get 0 ∧
      (m.step Headless.mk).machine.registers.get 2 = m.registers.get 2 ∧
      (m.step Headless.mk).machine.registers.index = m.registers.index ∧
      (m.step Headless.mk).machine.registers.pc.toNat = 0x202 := by
  obtain ⟨m, hm⟩ : ∃ m, m = (Machine.fresh {} .zero).loaded [0xF1, 0x65] := ⟨_, rfl⟩
  have hreach : Reachable {} m := hm ▸ .fresh_loaded (by decide) (by decide)
  have hi : m.upcoming? = some (.restore 1) := by
    rw [hm]
    exact Machine.upcoming?_loaded _ 0xF1 0x65 []
  have hpc : m.registers.pc.toNat = 0x200 := by
    rw [hm]
    exact Machine.toNat_pc_loaded ..
  have hwindow : m.memory.window 0 2 = .ok [0xF0, 0x90] := by
    rw [Memory.window_eq_ok_iff, hm, Machine.memory_loaded]
    refine ⟨by decide, ?_⟩
    show _ = [(Memory.initial.store programStart [0xF1, 0x65]).peek 0,
      (Memory.initial.store programStart [0xF1, 0x65]).peek 1]
    rw [Memory.peek_loaded _ (by decide), Memory.peek_loaded _ (by decide)]
    rfl
  have hexecute : m.advanced.execute Headless.mk (.restore 1) =
      (m.advanced.withRegisters (m.advanced.registers.setFirst [0xF0, 0x90])).completed
        Headless.mk .next := by
    have hread : m.advanced.memory.window m.advanced.registers.index.toNat
        ((1 : UInt8).toNat + 1) = .ok [0xF0, 0x90] := by
      rw [hm] at hwindow ⊢
      exact hwindow
    simp only [Machine.execute, hread]
  have hkeeps := (step_keeps_registers hreach Headless.mk).2 _ hi
  have hok : (m.step Headless.mk).result.isOk = true := by
    rw [Machine.result_step_of_upcoming hi, hexecute]
    rfl
  refine ⟨m, hreach, hi, hok, ?_, ?_, UInt16.toNat_inj.1 hkeeps.index, ?_⟩
  · rw [Machine.machine_step_of_upcoming hi, hexecute, hm]
    decide
  · by_contra hne
    rcases hkeeps.general 2 (by decide) hne with ⟨-, htarget⟩ | ⟨x, y, rows, hdraw, -⟩
    · have hle : (2 : UInt8) ≤ 1 := htarget
      exact absurd hle (by decide)
    · cases hdraw
  · have hbehind := (hkeeps.pc hok).2 id
    rw [hpc] at hbehind
    exact hbehind

end ChipEight
