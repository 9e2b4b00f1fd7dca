import ChipEight.Proofs.Course
import ChipEight.Proofs.Toggles

/-!
# Bounds that every machine keeps

The program counter of a machine leaves memory by a jump with an offset at most, and then no further
step can be taken.  That bound is not inductive by itself, because a return goes wherever the call
stack says: it needs that every return address is one that a fetched call has left, at most the end
of memory.  The screen keeps its size, its number of cells, and cells that hold 0 or 1.

Main results:

- `sound_step`: one step keeps the bounds, whether or not it ends in a fault.
- `Reachable.sound`: every reachable machine keeps them.
-/

namespace ChipEight

/-! ## Call stack -/

/-- The call stack is no deeper than it has cells, and its return addresses lie behind a call in
memory. -/
structure CallStack.Bounded (s : CallStack) : Prop where
  /-- There are as many cells as return addresses, or more. -/
  depth_le : s.depth ≤ stackCapacity
  /-- A return address lies two bytes behind a fetched instruction. -/
  mem_bounds : ∀ address ∈ s.toList, 2 ≤ address.toNat ∧ address.toNat ≤ memorySize

namespace CallStack

theorem bounded_empty : ({} : CallStack).Bounded where
  depth_le := Nat.zero_le _
  mem_bounds := by
    intro address hmem
    cases hmem

/-- Pushing an address that lies behind an instruction keeps the stack bounded. -/
theorem Bounded.push {s t : CallStack} {address : UInt16} (h : s.Bounded)
    (hlow : 2 ≤ address.toNat) (hhigh : address.toNat ≤ memorySize)
    (hpush : s.push? address = some t) : t.Bounded where
  depth_le := by
    unfold push? at hpush
    split at hpush
    · next hlt => cases hpush; exact hlt
    · cases hpush
  mem_bounds := by
    intro a ha
    rw [toList_of_push? hpush, List.mem_append, List.mem_singleton] at ha
    rcases ha with hold | rfl
    · exact h.mem_bounds a hold
    · exact ⟨hlow, hhigh⟩

/-- Popping keeps the stack bounded, and what it takes off is a return address. -/
theorem Bounded.pop {s t : CallStack} {address : UInt16} (h : s.Bounded)
    (hpop : s.pop? = some (address, t)) :
    t.Bounded ∧ 2 ≤ address.toNat ∧ address.toNat ≤ memorySize := by
  have hlist := toList_of_pop? h.depth_le hpop
  have hdepth : t.depth ≤ s.depth := by
    unfold pop? at hpop
    split at hpop
    · cases hpop
    · next below hbelow =>
      cases hpop
      rw [hbelow]
      exact Nat.le_succ below
  refine ⟨⟨Nat.le_trans hdepth h.depth_le, ?_⟩, ?_⟩
  · intro a ha
    exact h.mem_bounds a (by rw [hlist]; exact List.mem_append_left _ ha)
  · exact h.mem_bounds address (by rw [hlist]; simp)

end CallStack

/-- The call stack stays bounded over an instruction that was fetched from memory. -/
theorem Registers.bounded_stackAfter {r : Registers} (h : r.stack.Bounded)
    (hlow : 2 ≤ r.pc.toNat) (hhigh : r.pc.toNat ≤ memorySize) (i : Instruction) :
    (r.stackAfter i).Bounded := by
  cases i with
  | call address =>
    unfold stackAfter
    cases hpush : r.stack.push? r.pc with
    | none => exact h
    | some stack => exact h.push hlow hhigh hpush
  | ret =>
    unfold stackAfter
    cases hpop : r.stack.pop? with
    | none => exact h
    | some top => exact (h.pop hpop).1
  | _ => exact h

/-! ## Machines -/

/-- The highest address that a jump can lead to: the highest address of twelve bits and the highest
byte. -/
abbrev highestTarget : Nat := 0x10FE

/-- The bounds that a machine with the given settings keeps. -/
structure Machine.Sound (settings : Settings) (m : Machine) : Prop where
  /-- The settings are those with which the machine was built. -/
  settings_eq : m.settings = settings
  /-- The configured screen has cells. -/
  size_pos : 0 < settings.screenWidth ∧ 0 < settings.screenHeight
  /-- The program counter is the target of a jump at most. -/
  pc_le : m.registers.pc.toNat ≤ highestTarget
  /-- The call stack has room for its return addresses, and these lie in memory or at its end. -/
  stack : m.registers.stack.Bounded
  /-- The screen has the configured size, and its cells are 0 or 1. -/
  screen : m.screen.Regular settings.screenWidth settings.screenHeight

namespace Machine

variable {δ : Type} {settings : Settings} {m : Machine}

theorem pc_le_powerOn : ({} : Registers).pc.toNat ≤ highestTarget := by
  show programStart.toUInt16.toNat ≤ highestTarget
  decide

/-- A machine that was built just now keeps the bounds. -/
theorem sound_build {hostKey : ChaCha.Key} (h : build settings hostKey = .ok m) :
    m.Sound settings := by
  obtain ⟨hpos, rfl⟩ := build_eq_ok_iff.1 h
  exact {
    settings_eq := rfl
    size_pos := hpos
    pc_le := pc_le_powerOn
    stack := CallStack.bounded_empty
    screen := Screen.regular_dark _ _ }

theorem Sound.with_timers (h : m.Sound settings) (timers : Timers) :
    ({ m with timers } : Machine).Sound settings where
  settings_eq := h.settings_eq
  size_pos := h.size_pos
  pc_le := h.pc_le
  stack := h.stack
  screen := h.screen

variable [Devices δ]

/-- Where an instruction leads that was fetched from memory: behind it, one instruction further, to
an address of twelve bits with or without an offset of one byte, or to a return address. -/
theorem pc_execute_le (h : m.registers.stack.Bounded) (hpc : m.registers.pc.toNat ≤ memorySize)
    {i : Instruction} (hi : i.WellFormed) (d : δ) :
    (m.execute d i).machine.registers.pc.toNat ≤ highestTarget := by
  have hend : memorySize = 0x1000 := rfl
  have htop : highestTarget = 0x10FE := rfl
  rcases pc_execute m d i with hstay | hskip | ⟨address, hi', hpc'⟩ | ⟨address, rfl, hpc'⟩ |
    ⟨address, stack, -, hpop, hpc'⟩
  · rw [hstay]
    omega
  · rw [hskip, UInt16.toNat_add]
    have hmod := Nat.mod_le (m.registers.pc.toNat + UInt16.toNat 2) (2 ^ 16)
    have htwo : UInt16.toNat 2 = 2 := rfl
    omega
  · have haddress : address.toNat < 0x1000 := by
      rcases hi' with rfl | rfl <;> exact hi
    rw [hpc']
    omega
  · have haddress : address.toNat < 0x1000 := hi
    have hbyte := (m.registers.get 0).toNat_lt
    rw [hpc', UInt16.toNat_add, UInt8.toNat_toUInt16]
    have hmod := Nat.mod_le ((m.registers.get 0).toNat + address.toNat) (2 ^ 16)
    omega
  · -- Only here the bound on the return addresses is needed.
    have haddress := (h.pop hpop).2.2
    rw [hpc']
    omega

/-- One step keeps the bounds, whether or not it ends in a fault. -/
theorem sound_step (h : m.Sound settings) (d : δ) : (m.step d).machine.Sound settings := by
  cases hi : m.upcoming? with
  | none =>
    rw [step_of_upcoming_eq_none hi]
    exact h
  | some i =>
    have hpc := toNat_pc_advanced hi
    have hle := pc_le_of_upcoming hi
    have hhigh : m.advanced.registers.pc.toNat ≤ memorySize := by
      have hend : memorySize = 0x1000 := rfl
      omega
    have hstack : m.advanced.registers.stack.Bounded := h.stack
    -- A fault in the execution needs no case of its own: the parts are described whatever the
    -- result is.
    have hparts := machine_execute m.advanced d i
    rw [machine_step_of_upcoming hi]
    exact {
      settings_eq := by
        rw [hparts]
        exact h.settings_eq
      size_pos := h.size_pos
      pc_le := pc_execute_le hstack hhigh (wellFormed_of_upcoming hi) d
      stack := by
        rw [stack_execute]
        exact Registers.bounded_stackAfter hstack (by omega) hhigh i
      screen := by
        rw [hparts]
        show (m.advanced.screenAfter i).Regular _ _
        unfold screenAfter
        split
        · exact h.screen.clear
        · split
          · exact h.screen.drawSprite _ _ _
          · exact h.screen
        · exact h.screen }

/-- Every action keeps the bounds. -/
theorem sound_act (h : m.Sound settings) (d : δ) (action : Action) :
    (m.act d action).machine.Sound settings := by
  cases action with
  | load program =>
    by_cases hle : program.length ≤ programCapacity
    · rw [machine_act_load_of_le m d hle]
      exact {
        settings_eq := h.settings_eq
        size_pos := h.size_pos
        pc_le := pc_le_powerOn
        stack := CallStack.bounded_empty
        screen := h.screen.clear }
    · rw [act_load_of_lt m d (Nat.not_le.1 hle)]
      exact h
  | step => exact sound_step h d
  | tickDelay => exact h.with_timers _
  | tickSound => exact h.with_timers _

end Machine

/-- Every reachable machine keeps the bounds. -/
theorem Reachable.sound {settings : Settings} {m : Machine} (h : Reachable settings m) :
    m.Sound settings := by
  induction h with
  | build h => exact Machine.sound_build h
  | act _ d action ih => exact Machine.sound_act ih d action

end ChipEight
