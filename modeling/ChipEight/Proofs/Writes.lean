import ChipEight.Proofs.Bounds

/-!
# What is in memory

Memory is what a load has put there, and over it what stores have written since.  A store writes one
window, the digits of a register or the first registers, and writes all of it or nothing.  The byte
at an address is therefore the one from the last write whose window has the address, or the one from
the load.

Main results:

- `Machine.memory_step`: a step does to memory what its write does, and nothing if it has no write.
- `Machine.peek_after`: over a course of actions without a load, each byte is the one written last.
- `memory_after_load`: both, from a load on, with the bytes that stores write and the words that are
  fetched.
-/

namespace ChipEight

variable {δ : Type}

/-! ## Digits -/

theorem decimalDigit_le (v : UInt8) (i : Nat) : decimalDigit v i ≤ 9 := by
  have hv := v.toNat_lt
  unfold decimalDigit
  split
  · rw [UInt8.le_iff_toNat_le, UInt8.toNat_div]
    simp
    omega
  · rw [UInt8.le_iff_toNat_le, UInt8.toNat_mod, UInt8.toNat_div]
    simp
    omega
  · rw [UInt8.le_iff_toNat_le, UInt8.toNat_mod]
    simp
    omega

/-- The three digits of a byte compose to it. -/
theorem decimalDigit_compose (v : UInt8) :
    100 * (decimalDigit v 0).toNat + 10 * (decimalDigit v 1).toNat + (decimalDigit v 2).toNat =
      v.toNat := by
  simp only [decimalDigit, UInt8.toNat_div, UInt8.toNat_mod]
  simp
  omega

/-! ## Writes -/

/-- Bytes that are put at consecutive addresses. -/
structure Write where
  start : Nat
  bytes : List UInt8
deriving DecidableEq, Repr

/-- The byte that a write puts at an address, if its window has the address. -/
def Write.byteAt? (w : Write) (a : Nat) : Option UInt8 :=
  if w.start ≤ a then w.bytes[a - w.start]? else none

/-- The bytes that an instruction writes when it succeeds, if it is a store. -/
def Machine.writeOf? (m : Machine) : Instruction → Option Write
  | .storeDigits x =>
    some ⟨m.registers.index.toNat, (List.range 3).map (decimalDigit (m.registers.get x))⟩
  | .save x =>
    some ⟨m.registers.index.toNat,
      (List.range (x.toNat + 1)).map fun i => m.registers.get i.toUInt8⟩
  | _ => none

namespace Moment

variable [Devices δ]

/-- What is written at a moment: the write of a store that succeeds. -/
def write? (t : Moment δ) : Option Write :=
  match t.action with
  | .step => if t.outcome.result.isOk then t.machine.upcoming?.bind t.machine.writeOf? else none
  | _ => none

/-- The byte that is written to an address at a moment, if one is. -/
def byteAt? (t : Moment δ) (a : Nat) : Option UInt8 := t.write?.bind (·.byteAt? a)

/-- The byte that was written to an address last in a history, if one was. -/
def lastByte? (history : List (Moment δ)) (a : Nat) : Option UInt8 :=
  history.reverse.findSome? (·.byteAt? a)

theorem lastByte?_cons (t : Moment δ) (history : List (Moment δ)) (a : Nat) :
    lastByte? (t :: history) a = (lastByte? history a).or (t.byteAt? a) := by
  unfold lastByte?
  rw [List.reverse_cons, List.findSome?_append]
  congr 1
  simp [List.findSome?_singleton]

end Moment

/-- Memory after a write. -/
def Memory.writing (memory : Memory) (w : Write) : Memory := memory.store w.start w.bytes

theorem Memory.peek_writing (memory : Memory) (w : Write) {a : Nat} (ha : a < memorySize) :
    (memory.writing w).peek a = (w.byteAt? a).getD (memory.peek a) := by
  unfold writing Write.byteAt?
  rw [peek_store]
  by_cases h : w.start ≤ a
  · rw [if_pos ⟨h, ha⟩, if_pos h]
  · rw [if_neg (fun h' => h h'.1), if_neg h]
    rfl

/-! ## Stores -/

/-- The first registers, selected one by one. -/
theorem Registers.map_get_eq (r : Registers) {n : Nat} (hn : n ≤ registerCount) :
    (List.range n).map (fun i => r.get i.toUInt8) =
      (List.range n).map fun i => r.general[i]?.getD 0 := by
  apply List.map_congr_left
  intro i hi
  have hlt : i < 16 := Nat.lt_of_lt_of_le (List.mem_range.1 hi) hn
  have hmod : i.toUInt8.toNat % registerCount = i := by
    show i % 2 ^ 8 % 16 = i
    omega
  rw [Registers.get, hmod]

namespace Machine

/-- An instruction without a write leaves memory as it is. -/
theorem memoryAfter_of_writeOf?_eq_none {m : Machine} {i : Instruction} (h : m.writeOf? i = none) :
    m.memoryAfter i = m.memory := by
  cases i with
  | storeDigits | save => cases h
  | _ => rfl

/-- Replacing the bytes of a window either writes all of them and succeeds, or fails and leaves
everything as it was. -/
theorem writeMemory_overwrite (m : Machine) (d : δ) (start length : Nat) (byte : Nat → UInt8) :
    (start + length ≤ memorySize ∧
        m.writeMemory d (m.memory.overwrite start length byte) =
          { m with memory := m.memory.writing ⟨start, (List.range length).map byte⟩ }.completed
            d .next) ∨
      ∃ fault, m.writeMemory d (m.memory.overwrite start length byte) = m.stopped d fault := by
  unfold Memory.overwrite
  by_cases h : Memory.Fits start length
  · left
    rw [if_pos h]
    exact ⟨h.2, rfl⟩
  · right
    rw [if_neg h]
    exact ⟨_, rfl⟩

variable [Devices δ]

/-- A store writes its whole window, which lies in memory, and succeeds, or fails and leaves
everything as it was. -/
theorem execute_of_writeOf? {m : Machine} {i : Instruction} {w : Write} (h : m.writeOf? i = some w)
    (hi : i.WellFormed) (d : δ) :
    (w.start + w.bytes.length ≤ memorySize ∧
        m.execute d i = { m with memory := m.memory.writing w }.completed d .next) ∨
      ∃ fault, m.execute d i = m.stopped d fault := by
  cases i with
  | storeDigits x =>
    cases h
    rw [List.length_map, List.length_range]
    exact m.writeMemory_overwrite d _ 3 _
  | save x =>
    have hx : x.toNat < 16 := hi
    cases h
    rw [List.length_map, List.length_range, m.registers.map_get_eq hx]
    exact m.writeMemory_overwrite d _ (x.toNat + 1) _
  | _ => cases h

/-- What is written at a step is what its instruction writes, if that succeeds. -/
theorem write?_of_upcoming {m : Machine} {i : Instruction} (hi : m.upcoming? = some i) (d : δ) :
    (Moment.mk m d .step).write? =
      if (m.advanced.execute d i).result.isOk then m.advanced.writeOf? i else none := by
  rw [← result_step_of_upcoming hi]
  simp only [Moment.write?, hi]
  rfl

theorem write?_of_upcoming_eq_none {m : Machine} (hi : m.upcoming? = none) (d : δ) :
    (Moment.mk m d .step).write? = none := by
  simp only [Moment.write?, hi]
  exact ite_self _

/-- A step does to memory what is written, all of which lies in memory, and nothing if nothing
is. -/
theorem memory_step (m : Machine) (d : δ) :
    (m.step d).machine.memory = (Moment.mk m d .step).write?.elim m.memory m.memory.writing ∧
      ∀ w ∈ (Moment.mk m d .step).write?, w.start + w.bytes.length ≤ memorySize := by
  cases hi : m.upcoming? with
  | none =>
    rw [write?_of_upcoming_eq_none hi, step_of_upcoming_eq_none hi]
    exact ⟨rfl, nofun⟩
  | some i =>
    rw [write?_of_upcoming hi, machine_step_of_upcoming hi]
    cases hw : m.advanced.writeOf? i with
    | none =>
      rw [ite_self, machine_execute]
      exact ⟨memoryAfter_of_writeOf?_eq_none hw, nofun⟩
    | some w =>
      rcases execute_of_writeOf? hw (wellFormed_of_upcoming hi) d with
        ⟨hfits, hdone⟩ | ⟨fault, hfailed⟩
      · rw [hdone]
        refine ⟨rfl, ?_⟩
        rintro _ ⟨⟩
        exact hfits
      · rw [hfailed]
        exact ⟨rfl, nofun⟩

/-- A step that fails leaves memory as it is. -/
theorem memory_step_of_error {m : Machine} {d : δ} {fault : Fault}
    (h : (m.step d).result = .error fault) : (m.step d).machine.memory = m.memory := by
  have hwrite : (Moment.mk m d .step).write? = none := by
    have hresult : (Moment.mk m d .step).outcome.result = .error fault := h
    simp only [Moment.write?, hresult]
    rfl
  have hmemory := (memory_step m d).1
  rw [hwrite] at hmemory
  exact hmemory

/-! ## Courses without a load -/

/-- An action that is no load of a program that fits does to a byte what is written to its
address. -/
theorem peek_act (m : Machine) (d : δ) {action : Action} (hload : ¬ action.Loads) {a : Nat}
    (ha : a < memorySize) :
    (m.act d action).machine.memory.peek a =
      ((Moment.mk m d action).byteAt? a).getD (m.memory.peek a) := by
  cases action with
  | load program =>
    rw [act_load_of_not_loads m d hload]
    rfl
  | step =>
    show (m.step d).machine.memory.peek a = _
    rw [(memory_step m d).1]
    unfold Moment.byteAt?
    cases (Moment.mk m d .step).write? with
    | none => rfl
    | some w => exact m.memory.peek_writing w ha
  | tickDelay => rfl
  | tickSound => rfl

/-- Over a course of actions without a load of a program that fits, each byte is the one written
last, or the one from before. -/
theorem peek_after (m : Machine) (d : δ) {actions : List Action}
    (hloads : ∀ action ∈ actions, ¬ action.Loads) {a : Nat} (ha : a < memorySize) :
    (m.after d actions).1.memory.peek a =
      (Moment.lastByte? (m.history d actions) a).getD (m.memory.peek a) := by
  induction actions generalizing m d with
  | nil => rfl
  | cons action actions ih =>
    obtain ⟨hfirst, hrest⟩ := List.forall_mem_cons.1 hloads
    show ((m.act d action).machine.after (m.act d action).devices actions).1.memory.peek a = _
    rw [ih _ _ hrest, peek_act m d hfirst ha, history, Moment.lastByte?_cons]
    -- A later write wins over an earlier one.
    cases Moment.lastByte? ((m.act d action).machine.history (m.act d action).devices actions) a <;>
      rfl

end Machine

/-! ## From a load on -/

/-- The word at the program counter has the byte there in front and the next one behind. -/
theorem Machine.toNat_fetch {m : Machine} {word : UInt16} (h : m.fetch = .ok word) :
    word.toNat = 256 * (m.memory.peek m.registers.pc.toNat).toNat +
      (m.memory.peek (m.registers.pc.toNat + 1)).toNat := by
  obtain ⟨-, rfl⟩ := Memory.word_eq_ok_iff.1 h
  exact Memory.toNat_word _ _

/-- A write is that of a store that succeeds. -/
theorem Moment.write?_eq_some_iff [Devices δ] {t : Moment δ} {w : Write} :
    t.write? = some w ↔
      t.action = .step ∧ t.outcome.result.isOk ∧
        ∃ i, t.machine.upcoming? = some i ∧ t.machine.writeOf? i = some w := by
  unfold write?
  split
  · next haction =>
    rw [Option.ite_none_right_eq_some, Option.bind_eq_some_iff]
    exact (and_iff_right haction).symm
  · next haction => exact ⟨nofun, fun h => absurd h.1 haction⟩

/-- The instructions that write are the two stores. -/
theorem Machine.writeOf?_eq_some_iff {m : Machine} {i : Instruction} {w : Write} :
    m.writeOf? i = some w ↔
      ∃ x, (i = .storeDigits x ∧
          w = ⟨m.registers.index.toNat, (List.range 3).map (decimalDigit (m.registers.get x))⟩) ∨
        (i = .save x ∧
          w = ⟨m.registers.index.toNat,
            (List.range (x.toNat + 1)).map fun k => m.registers.get k.toUInt8⟩) := by
  constructor
  · intro h
    cases i with
    | storeDigits x => exact ⟨x, .inl ⟨rfl, (Option.some.inj h).symm⟩⟩
    | save x => exact ⟨x, .inr ⟨rfl, (Option.some.inj h).symm⟩⟩
    | _ => cases h
  · rintro ⟨x, ⟨rfl, rfl⟩ | ⟨rfl, rfl⟩⟩
    · rfl
    · rfl

/-- Loading a program that fits succeeds, and over any course of actions from there without a
further such load the byte at each address is the one that was written last, or that of the load.
What is written is the window of a store that succeeds, all of which lies in memory: the digits of a
register, which are at most nine and compose to it, or the first registers.  A step without a write,
and in particular one that fails, leaves memory as it is.  The word that is fetched is made of the
bytes at the program counter. -/
theorem memory_after_load (m : Machine) {program : List UInt8} (hle : program.length ≤ 3584)
    [Devices δ] (d : δ) {actions : List Action}
    (hloads : ∀ action ∈ actions, ¬ action.Loads) :
    let final := ((m.loaded program).after d actions).1
    let history := (m.loaded program).history d actions
    m.load program = .ok (m.loaded program) ∧
      (∀ a, a < 0x1000 →
        final.memory.peek a = (Moment.lastByte? history a).getD (Memory.image program a)) ∧
      (∀ word, final.fetch = .ok word →
        word.toNat = 256 * (final.memory.peek final.registers.pc.toNat).toNat +
          (final.memory.peek (final.registers.pc.toNat + 1)).toNat) ∧
      (∀ (t : Moment δ) (w : Write), t.write? = some w ↔
        t.action = .step ∧ t.outcome.result.isOk ∧ ∃ i, t.machine.upcoming? = some i ∧
          ∃ x, (i = .storeDigits x ∧ w = ⟨t.machine.registers.index.toNat,
              (List.range 3).map (decimalDigit (t.machine.registers.get x))⟩) ∨
            (i = .save x ∧ w = ⟨t.machine.registers.index.toNat,
              (List.range (x.toNat + 1)).map fun k => t.machine.registers.get k.toUInt8⟩)) ∧
      (∀ v : UInt8, (∀ k, decimalDigit v k ≤ 9) ∧
        100 * (decimalDigit v 0).toNat + 10 * (decimalDigit v 1).toNat +
          (decimalDigit v 2).toNat = v.toNat) ∧
      (∀ (t : Moment δ) (w : Write), t.write? = some w →
        w.start + w.bytes.length ≤ 0x1000 ∧
          t.outcome.machine.memory = t.machine.memory.writing w) ∧
      (∀ t : Moment δ, t.action = .step → t.write? = none →
        t.outcome.machine.memory = t.machine.memory) ∧
      ∀ (t : Moment δ) (fault : Fault), t.action = .step → t.outcome.result = .error fault →
        t.outcome.machine.memory = t.machine.memory := by
  intro final history
  refine ⟨Machine.load_of_le m hle, ?_, ?_, ?_, ?_, ?_, ?_, ?_⟩
  · intro a ha
    rw [← Memory.peek_loaded program ha]
    exact Machine.peek_after (m.loaded program) d hloads ha
  · intro word hword
    exact Machine.toNat_fetch hword
  · intro t w
    simp only [Moment.write?_eq_some_iff, Machine.writeOf?_eq_some_iff]
  · intro v
    exact ⟨decimalDigit_le v, decimalDigit_compose v⟩
  · rintro ⟨m, d, action⟩ w hw
    obtain ⟨rfl, -⟩ := Moment.write?_eq_some_iff.1 hw
    have hstep := Machine.memory_step m d
    rw [hw] at hstep
    exact ⟨hstep.2 w rfl, hstep.1⟩
  · rintro ⟨m, d, action⟩ rfl hw
    have hstep := (Machine.memory_step m d).1
    rw [hw] at hstep
    exact hstep
  · rintro ⟨m, d, action⟩ fault rfl hfault
    exact Machine.memory_step_of_error hfault

/-- A program that stores digits at address 0 writes over the glyph of 0. -/
theorem memory_after_load_glyph :
    ∃ m : Machine, m.load [0xF0, 0x33] = .ok (m.loaded [0xF0, 0x33]) ∧
      (m.loaded [0xF0, 0x33]).memory.peek 0 = 0xF0 ∧
      ((m.loaded [0xF0, 0x33]).after Headless.mk [.step]).1.memory.peek 0 = 0 := by
  have hstore : ((Machine.fresh {} .zero).loaded [0xF0, 0x33]).upcoming? = some (.storeDigits 0) :=
    Machine.upcoming?_loaded _ 0xF0 0x33 []
  have hloads : ∀ action ∈ [Action.step], ¬ action.Loads := by
    simp [Action.Loads]
  have hle : [(0xF0 : UInt8), 0x33].length ≤ 3584 := by decide
  obtain ⟨hload, hbytes, -⟩ := memory_after_load (Machine.fresh {} .zero) hle Headless.mk hloads
  refine ⟨_, hload, Memory.peek_loaded [0xF0, 0x33] (by decide), ?_⟩
  rw [hbytes 0 (by decide)]
  have hwrite : (Moment.mk ((Machine.fresh {} .zero).loaded [0xF0, 0x33]) Headless.mk
      .step).write? = some ⟨0, [0, 0, 0]⟩ := by
    rw [Machine.write?_of_upcoming hstore]
    rfl
  simp only [Machine.history, Moment.lastByte?, Moment.byteAt?, List.reverse_singleton,
    List.findSome?_singleton, hwrite]
  rfl

end ChipEight
