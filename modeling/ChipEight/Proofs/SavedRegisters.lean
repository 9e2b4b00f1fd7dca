import ChipEight.Proofs.Writes

/-!
# Registers that were saved

Saving puts the first registers into a window of memory, and loading takes the bytes of such a
window back.  In between a program may do what it likes with the registers and with memory
elsewhere, up to the bytes next to the window: as long as nothing is written in the window, loading
from it gives the registers that were saved, or the first of them if fewer are loaded.  To save
again what was just loaded does not change memory.

Main results:

- `Machine.peek_step_save`: what a save leaves in its window.
- `Machine.peek_after_of_apart`: a byte that is in none of the windows that are written stays.
- `Machine.restores_execute`, `Machine.execute_save_of_holds`: loading the window, and saving again.
- `saved_registers_come_back`: all of it, over any course of actions.
-/

namespace ChipEight

/-! ## Memory -/

namespace Memory

/-- Memories with the same byte at every address are the same. -/
theorem ext_peek {m n : Memory} (h : ∀ a, a < memorySize → m.peek a = n.peek a) : m = n := by
  cases m with
  | mk first =>
    cases n with
    | mk second =>
      congr
      apply Vector.ext
      intro a ha
      have hbyte := h a ha
      simp only [peek, Vector.getElem?_eq_getElem ha, Option.getD_some] at hbyte
      exact hbyte

/-- To put the bytes of a window where they are changes nothing. -/
theorem store_bytesAt (m : Memory) (a n : Nat) : m.store a (m.bytesAt a n) = m := by
  apply ext_peek
  intro b hb
  rw [peek_store]
  split
  · next h =>
    by_cases hin : b - a < n
    · rw [getElem?_bytesAt m hin, Nat.add_sub_cancel' h.1]
      rfl
    · rw [List.getElem?_eq_none (by rw [length_bytesAt]; omega)]
      rfl
  · rfl

end Memory

/-- The window of a write does not meet the window of the given length at an address. -/
def Write.Apart (w : Write) (a length : Nat) : Prop :=
  w.start + w.bytes.length ≤ a ∨ a + length ≤ w.start

theorem Write.byteAt?_of_apart {w : Write} {a length b : Nat} (h : w.Apart a length) (hlow : a ≤ b)
    (hhigh : b < a + length) : w.byteAt? b = none := by
  unfold byteAt?
  split
  · next hstart =>
    apply List.getElem?_eq_none
    rcases h with hbelow | habove
    · omega
    · omega
  · rfl

variable {δ : Type} [Devices δ]

/-- An address has no last byte over a history in which it is never written to. -/
theorem Moment.lastByte?_eq_none {history : List (Moment δ)} {a : Nat}
    (h : ∀ t ∈ history, t.byteAt? a = none) : lastByte? history a = none := by
  unfold lastByte?
  rw [List.findSome?_eq_none_iff]
  intro t ht
  exact h t (List.mem_reverse.1 ht)

namespace Machine

/-- A byte stays over a course of actions in which nothing is loaded or written in a window around
it. -/
theorem peek_after_of_apart (m : Machine) (d : δ) {actions : List Action}
    (hloads : ∀ action ∈ actions, ¬ action.Loads) {a length : Nat}
    (hapart : ∀ t ∈ m.history d actions, ∀ w, t.write? = some w → w.Apart a length) {b : Nat}
    (hlow : a ≤ b) (hhigh : b < a + length) (hend : a + length ≤ memorySize) :
    (m.after d actions).1.memory.peek b = m.memory.peek b := by
  have hnone : Moment.lastByte? (m.history d actions) b = none := by
    apply Moment.lastByte?_eq_none
    intro t ht
    cases hw : t.write? with
    | none => simp only [Moment.byteAt?, hw, Option.bind_none]
    | some w =>
      simp only [Moment.byteAt?, hw, Option.bind_some]
      exact Write.byteAt?_of_apart (hapart t ht w hw) hlow hhigh
  rw [peek_after m d hloads (Nat.lt_of_lt_of_le hhigh hend), hnone]
  rfl

/-! ## Saving -/

/-- A save writes the first registers if their window lies in memory. -/
theorem execute_save (m : Machine) (d : δ) {x : UInt8} (hx : x.toNat < 16)
    (hend : m.registers.index.toNat + (x.toNat + 1) ≤ memorySize) :
    m.execute d (.save x) =
      { m with
        memory := m.memory.store m.registers.index.toNat
          ((List.range (x.toNat + 1)).map fun k : Nat => m.registers.get k.toUInt8)
        }.completed d .next := by
  have hfits : Memory.Fits m.registers.index.toNat (x.toNat + 1) := ⟨by omega, hend⟩
  rw [execute, Memory.overwrite, if_pos hfits, m.registers.map_get_eq hx]
  rfl

/-- The window at the index register holds the registers of another machine, from register 0 to
`y`. -/
def Holds (m s : Machine) (y : UInt8) : Prop :=
  ∀ j : UInt8, j ≤ y →
    m.memory.peek (m.registers.index.toNat + j.toNat) = s.registers.get j

/-- A save leaves the first registers in its window. -/
theorem peek_step_save {s : Machine} {x : UInt8} (hi : s.upcoming? = some (.save x))
    (hend : s.registers.index.toNat + (x.toNat + 1) ≤ memorySize) (d : δ) {j : UInt8} (hj : j ≤ x) :
    (s.step d).machine.memory.peek (s.registers.index.toNat + j.toNat) = s.registers.get j := by
  have hx : x.toNat < 16 := wellFormed_of_upcoming hi
  rw [UInt8.le_iff_toNat_le] at hj
  rw [machine_step_of_upcoming hi, execute_save s.advanced d hx hend]
  show (s.memory.store s.registers.index.toNat _).peek _ = _
  rw [Memory.peek_store, if_pos ⟨Nat.le_add_right _ _, by omega⟩, Nat.add_sub_cancel_left]
  have hlt : j.toNat < x.toNat + 1 := by omega
  simp only [List.getElem?_map, List.getElem?_range hlt, Option.map_some, Option.getD_some]
  exact congrArg s.registers.get (UInt8.ofNat_toNat)

/-- A save that succeeds lies in memory. -/
theorem end_of_isOk_save {s : Machine} {x : UInt8} (hi : s.upcoming? = some (.save x)) {d : δ}
    (hok : (s.step d).result.isOk = true) :
    s.registers.index.toNat + (x.toNat + 1) ≤ memorySize := by
  rw [result_step_of_upcoming hi, execute] at hok
  by_contra hend
  have hout : ¬ Memory.Fits s.advanced.registers.index.toNat (x.toNat + 1) := fun h => hend h.2
  rw [Memory.overwrite, if_neg hout] at hok
  cases hok

end Machine

/-! ## Loading -/

/-- Loading registers 0 to `y` of the machine `t` has succeeded and has given them the bytes that
they have in `s`.  Nothing else of `t` has changed but the program counter, which has passed the
instruction if it was fetched. -/
structure Outcome.Restores (o : Outcome δ) (s t : Machine) (y : UInt8) : Prop where
  result_eq : o.result = .ok .next
  /-- The registers that were loaded. -/
  loaded_eq : ∀ j : UInt8, j ≤ y → o.machine.registers.get j = s.registers.get j
  /-- The registers that were not. -/
  kept_eq : ∀ j : UInt8, y < j → j.toNat < 16 → o.machine.registers.get j = t.registers.get j
  index_eq : o.machine.registers.index = t.registers.index
  stack_eq : o.machine.registers.stack = t.registers.stack
  memory_eq : o.machine.memory = t.memory
  screen_eq : o.machine.screen = t.screen
  timers_eq : o.machine.timers = t.timers
  random_eq : o.machine.random = t.random
  settings_eq : o.machine.settings = t.settings

namespace Machine

theorem execute_restore (m : Machine) (d : δ) {y : UInt8}
    (hend : m.registers.index.toNat + (y.toNat + 1) ≤ memorySize) :
    m.execute d (.restore y) =
      (m.withRegisters (m.registers.setFirst
        (m.memory.bytesAt m.registers.index.toNat (y.toNat + 1)))).completed d .next := by
  have hfits : Memory.Fits m.registers.index.toNat (y.toNat + 1) := ⟨by omega, hend⟩
  simp only [execute, Memory.window, if_pos hfits]

/-- A register after loading is the byte at its place in the window, if it was loaded. -/
theorem get_setFirst_bytesAt (m : Machine) {j y : UInt8} (hj : j.toNat < 16) :
    (m.registers.setFirst (m.memory.bytesAt m.registers.index.toNat (y.toNat + 1))).get j =
      if j ≤ y then m.memory.peek (m.registers.index.toNat + j.toNat) else m.registers.get j := by
  rw [Registers.get_setFirst, Nat.mod_eq_of_lt hj]
  split
  · next h =>
    rw [UInt8.le_iff_toNat_le] at h
    rw [Memory.getElem?_bytesAt _ (by omega)]
    rfl
  · next h =>
    rw [UInt8.le_iff_toNat_le] at h
    rw [List.getElem?_eq_none (by rw [Memory.length_bytesAt]; omega)]
    rfl

/-- Loading from a window that holds the registers of another machine, wherever the program counter
is. -/
theorem restores_execute {s t : Machine} {y : UInt8} (hy : y.toNat < 16) (hheld : t.Holds s y)
    (hend : t.registers.index.toNat + (y.toNat + 1) ≤ memorySize) (pc : UInt16) (d : δ) :
    ((t.withRegisters { t.registers with pc }).execute d (.restore y)).Restores s t y := by
  have hget (j : UInt8) (hj : j.toNat < 16) :
      (({ t.registers with pc } : Registers).setFirst
          (t.memory.bytesAt t.registers.index.toNat (y.toNat + 1))).get j =
        if j ≤ y then t.memory.peek (t.registers.index.toNat + j.toNat) else t.registers.get j :=
    get_setFirst_bytesAt (t.withRegisters { t.registers with pc }) hj
  have hrestore := execute_restore (t.withRegisters { t.registers with pc }) d hend
  constructor
  all_goals rw [hrestore]
  case loaded_eq =>
    intro j hj
    have hlt : j.toNat < 16 := Nat.lt_of_le_of_lt (UInt8.le_iff_toNat_le.1 hj) hy
    refine (hget j hlt).trans ?_
    rw [if_pos hj]
    exact hheld j hj
  case kept_eq =>
    intro j hj hlt
    refine (hget j hlt).trans (if_neg ?_)
    exact UInt8.not_le.2 hj
  case result_eq | index_eq | stack_eq | memory_eq | screen_eq | timers_eq | random_eq
    | settings_eq => rfl

/-- To save the registers that a window holds into that window changes nothing. -/
theorem execute_save_of_holds {m : Machine} {y : UInt8} (hy : y.toNat < 16) (hheld : m.Holds m y)
    (hend : m.registers.index.toNat + (y.toNat + 1) ≤ memorySize) (d : δ) :
    m.execute d (.save y) = m.completed d .next := by
  have hsame : ((List.range (y.toNat + 1)).map fun k : Nat => m.registers.get k.toUInt8) =
      m.memory.bytesAt m.registers.index.toNat (y.toNat + 1) := by
    apply List.map_congr_left
    intro k hk
    have hlt := List.mem_range.1 hk
    have hnumber : k.toUInt8.toNat = k := by
      show k % 2 ^ 8 = k
      omega
    have hle : k.toUInt8 ≤ y := by
      rw [UInt8.le_iff_toNat_le, hnumber]
      omega
    have hbyte := hheld k.toUInt8 hle
    rw [hnumber] at hbyte
    exact hbyte.symm
  rw [execute_save m d hy hend, hsame, Memory.store_bytesAt]

/-- A window still holds the registers that were saved into it, over a course of actions that does
not load a program or write in the window, once the index register is back at it. -/
theorem holds_after_save {s t : Machine} {d : δ} {x : UInt8} (hi : s.upcoming? = some (.save x))
    (hok : (s.step d).result.isOk = true) {actions : List Action}
    (hloads : ∀ action ∈ actions, ¬ action.Loads)
    (hapart : ∀ moment ∈ (s.step d).machine.history (s.step d).devices actions,
      ∀ w, moment.write? = some w → w.Apart s.registers.index.toNat (x.toNat + 1))
    (ht : t = ((s.step d).machine.after (s.step d).devices actions).1)
    (hindex : t.registers.index = s.registers.index) : t.Holds s x := by
  have hend := end_of_isOk_save hi hok
  intro j hj
  have hle : j.toNat ≤ x.toNat := UInt8.le_iff_toNat_le.1 hj
  have hlow : s.registers.index.toNat ≤ s.registers.index.toNat + j.toNat := Nat.le_add_right _ _
  have hhigh : s.registers.index.toNat + j.toNat < s.registers.index.toNat + (x.toNat + 1) := by
    omega
  rw [hindex, ht, peek_after_of_apart _ _ hloads hapart hlow hhigh hend]
  exact peek_step_save hi hend d hj

theorem Holds.mono {m s : Machine} {x y : UInt8} (h : m.Holds s x) (hle : y ≤ x) : m.Holds s y :=
  fun j hj => h j (UInt8.le_trans hj hle)

end Machine

omit [Devices δ] in
/-- What a step shows around an instruction does not matter. -/
theorem Outcome.Restores.around {o : Outcome δ} {s t : Machine} {y : UInt8} (h : o.Restores s t y)
    (pc : UInt16) (i : Instruction) : (o.around pc i).Restores s t y where
  result_eq := h.result_eq
  loaded_eq := h.loaded_eq
  kept_eq := h.kept_eq
  index_eq := h.index_eq
  stack_eq := h.stack_eq
  memory_eq := h.memory_eq
  screen_eq := h.screen_eq
  timers_eq := h.timers_eq
  random_eq := h.random_eq
  settings_eq := h.settings_eq

/-- To save again what was just loaded, wherever the program counter is, does not change memory. -/
theorem Outcome.Restores.save_again {o : Outcome δ} {s t : Machine} {y : UInt8}
    (h : o.Restores s t y) (hy : y.toNat < 16) (hheld : t.Holds s y)
    (hend : t.registers.index.toNat + (y.toNat + 1) ≤ memorySize) (pc : UInt16) (f : δ) :
    ((o.machine.withRegisters { o.machine.registers with pc }).execute f (.save y)).result =
        .ok .next ∧
      ((o.machine.withRegisters { o.machine.registers with pc }).execute f
        (.save y)).machine.memory = t.memory := by
  have hend' : o.machine.registers.index.toNat + (y.toNat + 1) ≤ memorySize := by
    rw [h.index_eq]
    exact hend
  have hloaded : o.machine.Holds o.machine y := by
    intro j hj
    rw [h.memory_eq, h.index_eq, h.loaded_eq j hj]
    exact hheld j hj
  have hsave := Machine.execute_save_of_holds
    (m := o.machine.withRegisters { o.machine.registers with pc }) hy hloaded hend' f
  rw [hsave]
  exact ⟨rfl, h.memory_eq⟩

/-- Registers 0 to `x` are saved by a machine `s`, and a course of actions follows that does not
load a program or write in the window of the save, and that comes to a machine `t` with the index
register back at the window.  Loading registers 0 to `y`, where `y` is at most `x`, then succeeds,
gives them what they held in `s` and leaves all else as it is in `t`; and to save them again right
after that does not change memory.  This is so for the instructions themselves, and for steps that
fetch them. -/
theorem saved_registers_come_back {s : Machine} {d : δ} {x : UInt8}
    (hi : s.upcoming? = some (.save x)) (hok : (s.step d).result.isOk = true)
    {actions : List Action} (hloads : ∀ action ∈ actions, ¬ action.Loads)
    (hapart : ∀ moment ∈ (s.step d).machine.history (s.step d).devices actions,
      ∀ w, moment.write? = some w → w.Apart s.registers.index.toNat (x.toNat + 1))
    {t : Machine} (ht : t = ((s.step d).machine.after (s.step d).devices actions).1)
    (hindex : t.registers.index = s.registers.index) {y : UInt8} (hy : y ≤ x) (e : δ) :
    (t.execute e (.restore y)).Restores s t y ∧
      (∀ f : δ, ((t.execute e (.restore y)).machine.execute f (.save y)).result = .ok .next ∧
        ((t.execute e (.restore y)).machine.execute f (.save y)).machine.memory = t.memory) ∧
      (t.upcoming? = some (.restore y) → (t.step e).Restores s t y ∧
        ∀ f : δ, (t.step e).machine.upcoming? = some (.save y) →
          ((t.step e).machine.step f).result = .ok .next ∧
            ((t.step e).machine.step f).machine.memory = t.memory) := by
  have hx : x.toNat < 16 := Machine.wellFormed_of_upcoming hi
  have hle : y.toNat ≤ x.toNat := UInt8.le_iff_toNat_le.1 hy
  have hend := Machine.end_of_isOk_save hi hok
  have hend' : t.registers.index.toNat + (y.toNat + 1) ≤ memorySize := by
    rw [hindex]
    omega
  have hheld : t.Holds s y := (Machine.holds_after_save hi hok hloads hapart ht hindex).mono hy
  have hlt : y.toNat < 16 := Nat.lt_of_le_of_lt hle hx
  have hrestores (pc : UInt16) := Machine.restores_execute hlt hheld hend' pc e
  refine ⟨hrestores t.registers.pc, ?_, ?_⟩
  · intro f
    exact (hrestores t.registers.pc).save_again hlt hheld hend' _ f
  · intro hload
    have hstep : (t.step e).Restores s t y := by
      rw [Machine.step_of_upcoming hload]
      exact (hrestores (t.registers.pc + 2)).around _ _
    refine ⟨hstep, ?_⟩
    intro f hsave
    rw [Machine.result_step_of_upcoming hsave, Machine.machine_step_of_upcoming hsave]
    exact hstep.save_again hlt hheld hend' _ f

/-- A program saves register 0 to address 0, sets it to 7 and loads it from there: it is 0 again. -/
theorem saved_registers_come_back_zero :
    ∃ s t : Machine, s.upcoming? = some (.save 0) ∧ s.registers.get 0 = 0 ∧
      t = ((s.step Headless.mk).machine.after (s.step Headless.mk).devices [.step]).1 ∧
      t.registers.get 0 = 7 ∧ t.upcoming? = some (.restore 0) ∧
      (t.step Headless.mk).machine.registers.get 0 = 0 := by
  obtain ⟨program, hprogram⟩ : ∃ p : List UInt8, p = [0xF0, 0x55, 0x60, 0x07, 0xF0, 0x65] :=
    ⟨_, rfl⟩
  have hle : program.length ≤ programCapacity := by
    rw [hprogram]
    decide
  obtain ⟨s, hs⟩ : ∃ s, s = (Machine.fresh {} .zero).loaded program := ⟨_, rfl⟩
  have hindex : s.registers.index = 0 := by
    rw [hs]
    rfl
  have hzero : s.registers.get 0 = 0 := by
    rw [hs]
    rfl
  have hpc : s.registers.pc = 0x200 := by
    rw [hs]
    rfl
  have hsave : s.upcoming? = some (.save 0) := by
    rw [hs, hprogram]
    exact Machine.upcoming?_loaded _ 0xF0 0x55 [0x60, 0x07, 0xF0, 0x65]
  -- The save writes over the glyph of 0, and nothing of the program.
  obtain ⟨u, hu⟩ : ∃ u, u = { s.advanced with memory := s.memory.store 0 [0] } := ⟨_, rfl⟩
  have hexecute : s.advanced.execute Headless.mk (.save 0) = u.completed Headless.mk .next := by
    have hplace : s.advanced.registers.index.toNat = 0 := congrArg UInt16.toNat hindex
    have hvalues : ((List.range ((0 : UInt8).toNat + 1)).map fun k : Nat =>
        s.advanced.registers.get k.toUInt8) = [0] := congrArg (fun v => [v]) hzero
    rw [Machine.execute_save _ _ (by decide) (by rw [hplace]; decide), hvalues, hplace, hu]
    rfl
  have hfirst : (s.step Headless.mk).machine = u := by
    rw [Machine.machine_step_of_upcoming hsave, hexecute]
    rfl
  have hok : (s.step Headless.mk).result.isOk = true := by
    rw [Machine.result_step_of_upcoming hsave, hexecute]
    rfl
  have hbytes : ∀ k byte, program[k]? = some byte → u.memory.peek (programStart + k) = byte := by
    intro k byte hbyte
    obtain ⟨hlt, -⟩ := List.getElem?_eq_some_iff.1 hbyte
    have hplace : programStart + k < memorySize := by
      simp only [programStart, programCapacity, memorySize] at hle ⊢
      omega
    have hout : ([0] : List UInt8)[programStart + k - 0]? = none :=
      List.getElem?_eq_none (by simp [programStart]; omega)
    rw [hu]
    show (s.memory.store 0 [0]).peek (programStart + k) = byte
    rw [Memory.peek_store, hout, Option.getD_none, ite_self, hs, Machine.memory_loaded,
      Memory.peek_program hbyte hplace]
  have hset : u.upcoming? = some (.setByte 0 7) := by
    have hhigh : program[2]? = some 0x60 := congrArg (·[2]?) hprogram
    have hlow : program[2 + 1]? = some 0x07 := congrArg (·[3]?) hprogram
    refine Machine.upcoming?_of_bytes hbytes hle ?_ hhigh hlow
    rw [hu]
    show (s.registers.pc + 2).toNat = 0x202
    rw [hpc]
    rfl
  -- The second instruction overwrites register 0.
  obtain ⟨t, ht⟩ :
      ∃ t, t = u.advanced.withRegisters (u.advanced.registers.set 0 7) := ⟨_, rfl⟩
  have hsecond : (u.step Headless.mk).machine = t := by
    rw [Machine.machine_step_of_upcoming hset, ht]
    rfl
  have hload : t.upcoming? = some (.restore 0) := by
    have hmemory : t.memory = u.memory := by
      rw [ht]
      rfl
    rw [← hmemory] at hbytes
    have hhigh : program[4]? = some 0xF0 := congrArg (·[4]?) hprogram
    have hlow : program[4 + 1]? = some 0x65 := congrArg (·[5]?) hprogram
    refine Machine.upcoming?_of_bytes hbytes hle ?_ hhigh hlow
    rw [ht, hu]
    show (s.registers.pc + 2 + 2).toNat = 0x204
    rw [hpc]
    rfl
  have hafter :
      t = ((s.step Headless.mk).machine.after (s.step Headless.mk).devices [.step]).1 := by
    rw [hfirst, ← hsecond]
    rfl
  have hback : t.registers.index = s.registers.index := by
    rw [ht, hu]
    rfl
  have hloads : ∀ action ∈ [Action.step], ¬ action.Loads := by
    intro action haction
    rw [List.mem_singleton.1 haction]
    exact id
  have hapart :
      ∀ moment ∈ (s.step Headless.mk).machine.history (s.step Headless.mk).devices [.step],
      ∀ w, moment.write? = some w → w.Apart s.registers.index.toNat ((0 : UInt8).toNat + 1) := by
    intro moment hmoment w hw
    rw [hfirst] at hmoment
    rw [List.mem_singleton.1 hmoment, Machine.write?_of_upcoming hset] at hw
    cases hw
  have hrestores :=
    (saved_registers_come_back hsave hok hloads hapart hafter hback (UInt8.le_refl 0)
      Headless.mk).2.2 hload
  refine ⟨s, t, hsave, hzero, hafter, ?_, hload, ?_⟩
  · rw [ht]
    exact Registers.get_set_of_lt _ (by decide) (by decide) 7
  · exact (hrestores.1.loaded_eq 0 (UInt8.le_refl 0)).trans hzero

end ChipEight
