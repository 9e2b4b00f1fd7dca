import ChipEight.Proofs.Writes
import Mathlib.Data.List.Forall2
import Mathlib.Data.Set.Basic

/-!
# Bytes that are not read

A step reads the two bytes of its instruction, and the bytes of the sprite that it draws or of the
registers that it loads, in each case if all of them lie in memory.  No other byte of memory has an
influence on it.  Two machines that differ in some bytes therefore stay the same but for these bytes
while none of them is read, and a byte that is written meanwhile is the same from then on and may be
read.

Main results:

- `Machine.execute_sameOffMemory`, `Machine.AgreesOff.act`: what an instruction and an action make
  of two such machines.
- `Machine.AgreesOff.courses`: two such machines over a course of actions.
- `unread_memory_unseen`: all of it, from the point of view of one of the two machines.
-/

namespace ChipEight

variable {δ : Type}

/-! ## Reading memory -/

/-- Windows with the same bytes. -/
theorem Memory.bytesAt_congr (memory memory' : Memory) {start length : Nat}
    (h : ∀ a, start ≤ a → a < start + length → memory'.peek a = memory.peek a) :
    memory'.bytesAt start length = memory.bytesAt start length := by
  unfold bytesAt
  refine List.map_congr_left fun i hi => h (start + i) (Nat.le_add_right _ _) ?_
  exact Nat.add_lt_add_left (List.mem_range.1 hi) start

theorem Memory.peek_of_le (memory : Memory) {a : Nat} (h : memorySize ≤ a) : memory.peek a = 0 := by
  simp [peek, h]

namespace Machine

/-- The address lies in a window of the given length at the index register, all of which lies in
memory. -/
def InWindow (m : Machine) (length a : Nat) : Prop :=
  Memory.Fits m.registers.index.toNat length ∧
    m.registers.index.toNat ≤ a ∧ a < m.registers.index.toNat + length

/-- The instruction reads the byte at an address when it is executed. -/
def ReadsBy (m : Machine) (a : Nat) : Instruction → Prop
  | .draw _ _ rows => m.InWindow rows.toNat a
  | .restore x => m.InWindow (x.toNat + 1) a
  | _ => False

/-- The next step reads the byte at an address, as part of its instruction or because the
instruction does. -/
def Reads (m : Machine) (a : Nat) : Prop :=
  ∃ i, m.upcoming? = some i ∧
    (a = m.registers.pc.toNat ∨ a = m.registers.pc.toNat + 1 ∨ m.ReadsBy a i)

/-- Two machines are the same but for the bytes at some addresses. -/
structure AgreesOff (A : Set Nat) (m n : Machine) : Prop where
  eq_with_memory : n = { m with memory := n.memory }
  peek_eq : ∀ a, a ∉ A → n.memory.peek a = m.memory.peek a

end Machine

/-- Two outcomes differ in no more than memory. -/
structure Outcome.SameOffMemory (o p : Outcome δ) : Prop where
  machine_eq : p.machine = { o.machine with memory := p.machine.memory }
  devices_eq : p.devices = o.devices
  result_eq : p.result = o.result
  events_eq : p.events = o.events

/-- Two outcomes differ in no more than the bytes at some addresses. -/
structure Outcome.AgreesOff (A : Set Nat) (o p : Outcome δ) : Prop
    extends Outcome.SameOffMemory o p where
  peek_eq : ∀ a, a ∉ A → p.machine.memory.peek a = o.machine.memory.peek a

theorem Outcome.AgreesOff.machine {A : Set Nat} {o p : Outcome δ} (h : o.AgreesOff A p) :
    o.machine.AgreesOff A p.machine := ⟨h.machine_eq, h.peek_eq⟩

namespace Moment

variable [Devices δ]

/-- The addresses among some that are not written over a history. -/
def unwritten (A : Set Nat) (history : List (Moment δ)) : Set Nat :=
  { a | a ∈ A ∧ ∀ t ∈ history, t.byteAt? a = none }

theorem unwritten_nil (A : Set Nat) : unwritten A ([] : List (Moment δ)) = A := by
  simp [unwritten]

theorem unwritten_cons (A : Set Nat) (t : Moment δ) (history : List (Moment δ)) :
    unwritten A (t :: history) = unwritten (unwritten A [t]) history := by
  ext a
  simp [unwritten, and_assoc]

theorem notMem_of_notMem_unwritten {A : Set Nat} {t : Moment δ} {a : Nat}
    (ha : a ∉ unwritten A [t]) (hnone : t.byteAt? a = none) : a ∉ A :=
  fun hmem => ha ⟨hmem, by simpa using hnone⟩

end Moment

namespace Machine

variable [Devices δ]

/-- An instruction to which memory is the same where it reads it makes the same of everything
else. -/
theorem execute_sameOffMemory (m : Machine) (memory : Memory) {i : Instruction}
    (hread : ∀ a, m.ReadsBy a i → memory.peek a = m.memory.peek a) (d : δ) :
    (m.execute d i).SameOffMemory (({ m with memory } : Machine).execute d i) := by
  cases i with
  | draw x y rows =>
    simp only [execute, draw_eq]
    by_cases hfits : Memory.Fits m.registers.index.toNat rows.toNat
    · have hsprite := Memory.bytesAt_congr m.memory memory
        fun a hle hlt => hread a ⟨hfits, hle, hlt⟩
      have hdrawing : ({ m with memory } : Machine).drawing x y rows = m.drawing x y rows := by
        simp only [drawing, hsprite]
      simp only [if_pos hfits, drawn, hdrawing]
      exact ⟨rfl, rfl, rfl, rfl⟩
    · simp only [if_neg hfits]
      exact ⟨rfl, rfl, rfl, rfl⟩
  | restore x =>
    simp only [execute, Memory.window]
    by_cases hfits : Memory.Fits m.registers.index.toNat (x.toNat + 1)
    · have hbytes := Memory.bytesAt_congr m.memory memory
        fun a hle hlt => hread a ⟨hfits, hle, hlt⟩
      simp only [if_pos hfits, hbytes]
      exact ⟨rfl, rfl, rfl, rfl⟩
    · simp only [if_neg hfits]
      exact ⟨rfl, rfl, rfl, rfl⟩
  | storeDigits x | save x =>
    simp only [execute, Memory.overwrite]
    split <;> exact ⟨rfl, rfl, rfl, rfl⟩
  | skipPressed x | skipNotPressed x =>
    simp only [execute, skipOnKey]
    split <;> exact ⟨rfl, rfl, rfl, rfl⟩
  | awaitKey x =>
    simp only [execute, awaitKey]
    split <;> exact ⟨rfl, rfl, rfl, rfl⟩
  | ret =>
    simp only [execute]
    cases m.registers.ret <;> exact ⟨rfl, rfl, rfl, rfl⟩
  | call address =>
    simp only [execute]
    cases m.registers.call address <;> exact ⟨rfl, rfl, rfl, rfl⟩
  | _ => exact ⟨rfl, rfl, rfl, rfl⟩

namespace AgreesOff

variable {A : Set Nat} {m n : Machine}

omit [Devices δ] in
theorem registers_eq (h : m.AgreesOff A n) : n.registers = m.registers := by rw [h.eq_with_memory]

omit [Devices δ] in
/-- The same instruction is upcoming if its bytes are the same. -/
theorem upcoming?_eq (h : m.AgreesOff A n) (hread : ∀ a ∈ A, ¬ m.Reads a) :
    n.upcoming? = m.upcoming? := by
  by_cases hpc : m.registers.pc.toNat ≤ 0xFFE
  · have hi := upcoming?_of_pc_le hpc
    have hhigh := h.peek_eq m.registers.pc.toNat fun ha => hread _ ha ⟨_, hi, .inl rfl⟩
    have hlow := h.peek_eq (m.registers.pc.toNat + 1) fun ha => hread _ ha ⟨_, hi, .inr (.inl rfl)⟩
    rw [hi, upcoming?_of_pc_le (by rw [h.registers_eq]; exact hpc), h.registers_eq, hhigh, hlow]
  · have hlt := Nat.not_le.1 hpc
    rw [upcoming?_eq_none_iff.2 hlt, upcoming?_eq_none_iff.2 (by rw [h.registers_eq]; exact hlt)]

/-- A step that reads none of the addresses makes the same of everything but memory. -/
theorem step_sameOffMemory (h : m.AgreesOff A n) (hread : ∀ a ∈ A, ¬ m.Reads a) (d : δ) :
    (m.step d).SameOffMemory (n.step d) := by
  have hupcoming := h.upcoming?_eq hread
  cases hi : m.upcoming? with
  | none =>
    rw [step_of_upcoming_eq_none hi, step_of_upcoming_eq_none (hupcoming.trans hi), h.registers_eq]
    exact ⟨h.eq_with_memory, rfl, rfl, rfl⟩
  | some i =>
    have hadvanced : n.advanced = { m.advanced with memory := n.memory } := by
      rw [h.eq_with_memory]
      rfl
    have hsame := m.advanced.execute_sameOffMemory n.memory (i := i)
      (fun a ha => h.peek_eq a fun hmem => hread a hmem ⟨i, hi, .inr (.inr ?_)⟩) d
    · rw [step_of_upcoming hi, step_of_upcoming (hupcoming.trans hi), hadvanced, h.registers_eq]
      refine ⟨hsame.machine_eq, hsame.devices_eq, hsame.result_eq, ?_⟩
      simp only [Outcome.around, hsame.events_eq, hsame.result_eq]
    · cases i <;> exact ha

/-- The same is written at such a step. -/
theorem write?_eq (h : m.AgreesOff A n) (hread : ∀ a ∈ A, ¬ m.Reads a) (d : δ) :
    (Moment.mk n d .step).write? = (Moment.mk m d .step).write? := by
  have hresult : (Moment.mk n d .step).outcome.result = (Moment.mk m d .step).outcome.result :=
    (h.step_sameOffMemory hread d).result_eq
  have hwrite : n.writeOf? = m.writeOf? := by
    funext i
    cases i <;> simp only [writeOf?, h.registers_eq]
  simp only [Moment.write?, hresult, h.upcoming?_eq hread, hwrite]

/-- A step that reads none of the addresses makes the same of everything but the bytes there, and of
those which it writes as well. -/
theorem step (h : m.AgreesOff A n) (hread : ∀ a ∈ A, ¬ m.Reads a) (d : δ) :
    (m.step d).AgreesOff (Moment.unwritten A [⟨m, d, .step⟩]) (n.step d) where
  toSameOffMemory := h.step_sameOffMemory hread d
  peek_eq := by
    intro a ha
    have hkept (hnone : (Moment.mk m d .step).byteAt? a = none) :
        n.memory.peek a = m.memory.peek a :=
      h.peek_eq a (Moment.notMem_of_notMem_unwritten ha hnone)
    by_cases hlt : a < memorySize
    · rw [(memory_step n d).1, (memory_step m d).1, h.write?_eq hread d]
      cases hwrite : (Moment.mk m d .step).write? with
      | none => exact hkept (by rw [Moment.byteAt?, hwrite]; rfl)
      | some w =>
        show (n.memory.writing w).peek a = (m.memory.writing w).peek a
        rw [Memory.peek_writing _ w hlt, Memory.peek_writing _ w hlt]
        cases hbyte : w.byteAt? a with
        | none => exact hkept (by rw [Moment.byteAt?, hwrite]; exact hbyte)
        | some byte => rfl
    · rw [Memory.peek_of_le _ (Nat.not_lt.1 hlt), Memory.peek_of_le _ (Nat.not_lt.1 hlt)]

theorem act (h : m.AgreesOff A n) (d : δ) {action : Action}
    (hread : action = .step → ∀ a ∈ A, ¬ m.Reads a) :
    (m.act d action).AgreesOff (Moment.unwritten A [⟨m, d, action⟩]) (n.act d action) := by
  obtain ⟨memory, hn⟩ : ∃ memory, n = { m with memory } := ⟨_, h.eq_with_memory⟩
  -- Only a step writes single bytes.
  have hkept (hquiet : ∀ a, (Moment.mk m d action).byteAt? a = none) (a : Nat)
      (ha : a ∉ Moment.unwritten A [⟨m, d, action⟩]) : n.memory.peek a = m.memory.peek a :=
    h.peek_eq a (Moment.notMem_of_notMem_unwritten ha (hquiet a))
  cases action with
  | step => exact h.step (hread rfl) d
  | tickDelay | tickSound =>
    have hpeek := hkept fun _ => rfl
    subst hn
    exact ⟨⟨rfl, rfl, rfl, rfl⟩, hpeek⟩
  | load program =>
    have hpeek := hkept fun _ => rfl
    subst hn
    by_cases hle : program.length ≤ programCapacity
    · simp only [Machine.act, load_of_le _ hle]
      exact ⟨⟨rfl, rfl, rfl, rfl⟩, fun _ _ => rfl⟩
    · have hlt := Nat.not_le.1 hle
      rw [act_load_of_lt _ d hlt, act_load_of_lt _ d hlt]
      exact ⟨⟨rfl, rfl, rfl, rfl⟩, hpeek⟩

end AgreesOff

/-- No step of a course reads one of the addresses before it was written. -/
def IgnoresBytes (m : Machine) (d : δ) (A : Set Nat) (actions : List Action) : Prop :=
  ∀ earlier t later, m.history d actions = earlier ++ t :: later → t.action = .step →
    ∀ a ∈ Moment.unwritten A earlier, ¬ t.machine.Reads a

theorem ignoresBytes_cons_iff {m : Machine} {d : δ} {A : Set Nat} {action : Action}
    {actions : List Action} :
    m.IgnoresBytes d A (action :: actions) ↔
      (action = .step → ∀ a ∈ A, ¬ m.Reads a) ∧
        (m.act d action).machine.IgnoresBytes (m.act d action).devices
          (Moment.unwritten A [⟨m, d, action⟩]) actions := by
  constructor
  · intro h
    constructor
    · intro haction
      have hfirst := h [] ⟨m, d, action⟩ _ rfl haction
      rwa [Moment.unwritten_nil] at hfirst
    · intro earlier t later hhistory haction
      have hlater := h (⟨m, d, action⟩ :: earlier) t later (congrArg (_ :: ·) hhistory) haction
      rwa [Moment.unwritten_cons] at hlater
  · rintro ⟨hfirst, hrest⟩ earlier t later hhistory haction
    cases earlier with
    | nil =>
      cases hhistory
      rw [Moment.unwritten_nil]
      exact hfirst haction
    | cons s earlier =>
      obtain ⟨rfl, htail⟩ := List.cons.inj hhistory
      rw [Moment.unwritten_cons]
      exact hrest earlier t later htail haction

/-- A part of a course that reads none of the addresses too early reads none of them too early. -/
theorem IgnoresBytes.of_prefix {m : Machine} {d : δ} {A : Set Nat} {before actions : List Action}
    (h : m.IgnoresBytes d A actions) (hbefore : before <+: actions) :
    m.IgnoresBytes d A before := by
  obtain ⟨rest, rfl⟩ := hbefore
  intro earlier t later hhistory
  refine h earlier t (later ++ (m.after d before).1.history (m.after d before).2 rest) ?_
  rw [history_append, hhistory, List.append_assoc]
  rfl

/-- Two machines that are the same but for bytes which are not read before they are written, over a
course of actions. -/
theorem AgreesOff.courses {m n : Machine} {A : Set Nat} (h : m.AgreesOff A n) (d : δ)
    {actions : List Action} (hread : m.IgnoresBytes d A actions) :
    List.Forall₂ (fun s t => t.action = s.action ∧ s.outcome.SameOffMemory t.outcome)
        (m.history d actions) (n.history d actions) ∧
      (m.after d actions).1.AgreesOff (Moment.unwritten A (m.history d actions))
        (n.after d actions).1 ∧
      (n.after d actions).2 = (m.after d actions).2 := by
  induction actions generalizing m n d A with
  | nil =>
    rw [history, Moment.unwritten_nil]
    exact ⟨.nil, h, rfl⟩
  | cons action actions ih =>
    obtain ⟨hfirst, hrest⟩ := ignoresBytes_cons_iff.1 hread
    have hact := h.act d hfirst
    obtain ⟨hall, hfinal, hdevices⟩ := ih hact.machine _ hrest
    rw [history, history, after, after, Moment.unwritten_cons, hact.devices_eq]
    exact ⟨.cons ⟨rfl, hact.toSameOffMemory⟩ hall, hfinal, hdevices⟩

end Machine

variable [Devices δ]

/-- Two machines that are the same but for the bytes at some addresses, on the same devices, are
told apart by no course of actions in which the first of them fetches, draws and loads into
registers none of these bytes before a store has written it: action by action they have the same
results, show the same to the outside, and leave the same devices, registers, screen, timers and
random bytes; and after any part of the course their memories are the same but at those of the
addresses that were not written yet. -/
theorem unread_memory_unseen {m n : Machine} {A : Set Nat} (h : m.AgreesOff A n) (d : δ)
    {actions : List Action} (hread : m.IgnoresBytes d A actions) :
    List.Forall₂ (fun s t => t.action = s.action ∧ s.outcome.SameOffMemory t.outcome)
        (m.history d actions) (n.history d actions) ∧
      ∀ before, before <+: actions →
        (m.after d before).1.AgreesOff (Moment.unwritten A (m.history d before))
            (n.after d before).1 ∧
          (n.after d before).2 = (m.after d before).2 :=
  ⟨(h.courses d hread).1, fun _ hbefore => (h.courses d (hread.of_prefix hbefore)).2⟩

/-- A program stores digits at an address at which two machines differ, and loads a register from
it. -/
theorem unread_memory_unseen_stored :
    ∃ m n : Machine, m = (Machine.fresh {} .zero).loaded [0xA3, 0x00, 0xF0, 0x33, 0xF0, 0x65] ∧
      n = { m with memory := m.memory.poke 0x300 7 } ∧
      m.memory.peek 0x300 = 0 ∧ n.memory.peek 0x300 = 7 ∧
      (n.after Headless.mk [.step, .step, .step]).1.registers =
        (m.after Headless.mk [.step, .step, .step]).1.registers ∧
      (n.after Headless.mk [.step, .step]).1.memory.peek 0x300 =
        (m.after Headless.mk [.step, .step]).1.memory.peek 0x300 := by
  obtain ⟨m, hm⟩ : ∃ m, m = (Machine.fresh {} .zero).loaded [0xA3, 0x00, 0xF0, 0x33, 0xF0, 0x65] :=
    ⟨_, rfl⟩
  have hmemory : m.memory =
      Memory.initial.store programStart [0xA3, 0x00, 0xF0, 0x33, 0xF0, 0x65] := by
    rw [hm]
    rfl
  have hpc : m.registers.pc.toNat = programStart := by
    rw [hm]
    exact Machine.toNat_pc_loaded _ _
  have hset : m.upcoming? = some (.setIndex 0x300) :=
    Machine.upcoming?_of_program (k := 0) hmemory (by decide) hpc rfl rfl
  obtain ⟨second, hsecond⟩ : ∃ s, s = (m.step Headless.mk).machine := ⟨_, rfl⟩
  have hparts : second.memory = m.memory ∧
      second.registers = { m.advanced.registers with index := 0x300 } := by
    rw [hsecond, Machine.machine_step_of_upcoming hset]
    exact ⟨rfl, rfl⟩
  have hpc' : second.registers.pc.toNat = programStart + 2 := by
    rw [hparts.2]
    exact (Machine.toNat_pc_advanced hset).trans (by rw [hpc])
  have hstore : second.upcoming? = some (.storeDigits 0) :=
    Machine.upcoming?_of_program (hparts.1.trans hmemory) (by decide) hpc' rfl rfl
  have hwritten : (Moment.mk second Headless.mk .step).byteAt? 0x300 ≠ none := by
    have hindex : second.advanced.registers.index = 0x300 := by
      show second.registers.index = _
      rw [hparts.2]
    have hdone : (second.advanced.execute Headless.mk (.storeDigits 0)).result.isOk = true := by
      simp only [Machine.execute, hindex]
      rfl
    rw [Moment.byteAt?, Machine.write?_of_upcoming hstore, if_pos hdone]
    simp only [Machine.writeOf?, hindex]
    exact Option.some_ne_none _
  have hunread (s : Machine) (i : Instruction) (hi : s.upcoming? = some i)
      (hlow : s.registers.pc.toNat + 1 < 0x300) (hby : ¬ s.ReadsBy 0x300 i) :
      ∀ a ∈ ({0x300} : Set Nat), ¬ s.Reads a := by
    rintro a rfl ⟨other, hother, hreads⟩
    cases hother.symm.trans hi
    rcases hreads with hreads | hreads | hreads
    · omega
    · omega
    · exact hby hreads
  -- The address is read by neither of the first two steps, and the second one writes it.
  have hread : m.IgnoresBytes Headless.mk {0x300} [.step, .step, .step] := by
    rw [Machine.ignoresBytes_cons_iff]
    refine ⟨fun _ => hunread m _ hset (by rw [hpc]; decide) not_false, ?_⟩
    show ((m.step Headless.mk).machine).IgnoresBytes _ _ _
    rw [← hsecond, Machine.ignoresBytes_cons_iff]
    refine ⟨fun _ a ha => hunread second _ hstore (by rw [hpc']; decide) not_false a ha.1, ?_⟩
    rw [Machine.ignoresBytes_cons_iff]
    refine ⟨fun _ a ha => ?_, fun earlier t later hhistory => by simp [Machine.history] at hhistory⟩
    obtain ⟨⟨rfl, -⟩, hnone⟩ := ha
    exact absurd (hnone _ (List.mem_singleton_self _)) hwritten
  have hagrees : m.AgreesOff {0x300} { m with memory := m.memory.poke 0x300 7 } := by
    refine ⟨rfl, fun a ha => ?_⟩
    rw [Memory.peek_poke, if_neg fun h => ha h.1]
  obtain ⟨-, hruns⟩ := unread_memory_unseen hagrees Headless.mk hread
  refine ⟨m, _, hm, rfl, ?_, ?_, ?_, ?_⟩
  · rw [hmemory, Memory.peek_loaded _ (by decide)]
    rfl
  · rw [Memory.peek_poke]
    rfl
  · exact (hruns _ (List.prefix_refl _)).1.registers_eq
  · refine (hruns [.step, .step] ⟨[.step], rfl⟩).1.peek_eq 0x300 fun ha => hwritten ?_
    refine ha.2 _ ?_
    rw [hsecond]
    exact List.mem_cons_of_mem _ (List.mem_cons_self ..)

end ChipEight
