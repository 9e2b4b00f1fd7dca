import Mathlib.Logic.Function.Basic
import ChipEight.Proofs.Failure
import ChipEight.Proofs.Operations

/-!
# Registers with a list as their call stack

Seen from outside, the cells and the pointer of the call stack are a list of at most sixteen return
addresses that grows and shrinks at its end.  A cell that a return has left is written again before
anything reads it, so that what it holds makes no difference to any sequence of operations.

Main results:

- `perform_stacks`: an operation on the registers is the operation of the same name on the list
  machine.
- `performAll_stacks`: so is a sequence of operations, together with its answers.
- `registers_refine_list`: registers from power-on against a bounded list, and cells that cannot be
  observed.
-/

namespace ChipEight

open Function (update)
open Operations

/-! ## Operations -/

namespace Registers

/-- An operation on registers. -/
inductive Operation where
  | call (address : UInt16)
  | ret
  | skip
  | get (i : UInt8)
  | set (i byte : UInt8)
  | setFlag (flag : Bool)
  | reset
deriving DecidableEq, Repr

/-- What an operation answers: a fault, or that it is done, with a byte if it reads one. -/
abbrev Answer := Except Fault (Option UInt8)

/-- What the registers are after an operation, and what it answers. -/
def perform (r : Registers) : Operation → Registers × Answer
  | .call address => attempt r ((r.call address).map fun t => (t, none))
  | .ret => attempt r (r.ret.map fun t => (t, none))
  | .skip => (r.skip, .ok none)
  | .get i => (r, .ok (some (r.get i)))
  | .set i byte => (r.set i byte, .ok none)
  | .setFlag flag => (r.setFlag flag, .ok none)
  | .reset => ({}, .ok none)

/-- The number of the register that a byte selects. -/
def selected (i : UInt8) : Fin registerCount := ⟨i.toNat % registerCount, Nat.mod_lt _ (by decide)⟩

/-- The number of the flag register. -/
def flagNumber : Fin registerCount := ⟨flagRegister, by decide⟩

/-- The byte in a register after an operation, given the byte before it. -/
def lastStored (i : Fin registerCount) (byte : UInt8) : Operation → UInt8
  | .set j stored => if selected j = i then stored else byte
  | .setFlag flag => if i = flagNumber then flag.toUInt8 else byte
  | .reset => 0
  | _ => byte

end Registers

/-! ## The list machine -/

/-- Registers whose call stack is a list of return addresses, oldest first. -/
@[ext]
structure ListRegisters where
  pc : UInt16
  index : UInt16
  general : Fin registerCount → UInt8
  addresses : List UInt16
  length_le : addresses.length ≤ stackCapacity

namespace ListRegisters

open Registers

/-- The state at power-on, with an empty list. -/
def powerOn : ListRegisters where
  pc := 0x200
  index := 0
  general := fun _ => 0
  addresses := []
  length_le := Nat.zero_le _

/-- Puts the program counter at the end of a list that is not full. -/
def call (a : ListRegisters) (address : UInt16) : Except Fault ListRegisters :=
  if h : a.addresses.length < stackCapacity then
    .ok { a with
      pc := address
      addresses := a.addresses ++ [a.pc]
      length_le := by simpa using Nat.succ_le_of_lt h }
  else .error (.stackOverflow a.pc)

/-- Takes the program counter off the end of a list that is not empty. -/
def ret (a : ListRegisters) : Except Fault ListRegisters :=
  match a.addresses.getLast? with
  | some address =>
    .ok { a with
      pc := address
      addresses := a.addresses.dropLast
      length_le := (List.length_dropLast ▸ Nat.sub_le _ 1).trans a.length_le }
  | none => .error (.stackUnderflow a.pc)

/-- Puts a byte into a register. -/
def store (a : ListRegisters) (i : Fin registerCount) (byte : UInt8) : ListRegisters :=
  { a with general := update a.general i byte }

/-- What the list machine is after an operation, and what it answers. -/
def perform (a : ListRegisters) : Operation → ListRegisters × Answer
  | .call address => attempt a ((a.call address).map fun b => (b, none))
  | .ret => attempt a (a.ret.map fun b => (b, none))
  | .skip => ({ a with pc := a.pc + 2 }, .ok none)
  | .get i => (a, .ok (some (a.general (selected i))))
  | .set i byte => (a.store (selected i) byte, .ok none)
  | .setFlag flag => (a.store flagNumber flag.toUInt8, .ok none)
  | .reset => (powerOn, .ok none)

end ListRegisters

namespace Registers

/-- The registers with their call stack as a list. -/
def view (r : Registers) : ListRegisters where
  pc := r.pc
  index := r.index
  general := r.general.get
  addresses := r.stack.toList
  length_le := by simp [CallStack.toList]

theorem general_view (r : Registers) (i : Fin registerCount) :
    r.view.general i = getElem r.general i.val i.isLt := rfl

/-! ## One operation -/

variable {r s : Registers}

theorem view_powerOn : ({} : Registers).view = .powerOn := by
  apply ListRegisters.ext
  · rfl
  · rfl
  · funext i
    simp [general_view, ListRegisters.powerOn]
  · rfl

theorem get_eq_general_view (r : Registers) (i : UInt8) :
    r.get i = r.view.general (selected i) := by
  have hi : i.toNat % registerCount < registerCount := (selected i).isLt
  simp [get, general_view, selected, hi]

theorem view_set (r : Registers) (i byte : UInt8) :
    (r.set i byte).view = r.view.store (selected i) byte := by
  apply ListRegisters.ext
  · rfl
  · rfl
  · funext j
    simp only [general_view, ListRegisters.store, set, selected, Function.update_apply, Fin.ext_iff]
    by_cases h : j.val = i.toNat % registerCount
    · simp [← h]
    · simp [h, Ne.symm h]
  · rfl

theorem view_setFlag (r : Registers) (flag : Bool) :
    (r.setFlag flag).view = r.view.store flagNumber flag.toUInt8 := by
  apply ListRegisters.ext
  · rfl
  · rfl
  · funext j
    simp only [general_view, ListRegisters.store, setFlag, flagNumber, Function.update_apply,
      Fin.ext_iff]
    by_cases h : j.val = flagRegister
    · simp [h]
    · simp [h, Ne.symm h]
  · rfl

/-- A call pushes the program counter onto the list, and fails when the list is full. -/
theorem map_view_call (h : r.stack.depth ≤ stackCapacity) (address : UInt16) :
    (r.call address).map view = r.view.call address := by
  have hlength : r.view.addresses.length = r.stack.depth := CallStack.length_toList h
  unfold call ListRegisters.call
  cases hpush : r.stack.push? r.pc with
  | none =>
    have hfull := CallStack.push?_eq_none_iff.1 hpush
    have hlt : ¬ r.view.addresses.length < stackCapacity := by omega
    rw [dif_neg hlt]
    rfl
  | some t =>
    have hlt : r.view.addresses.length < stackCapacity := by
      rw [hlength]
      exact (CallStack.push?_eq_some_iff.1 hpush).1
    rw [dif_pos hlt]
    refine congrArg Except.ok (ListRegisters.ext rfl rfl rfl ?_)
    exact CallStack.toList_of_push? hpush

/-- A return pops the program counter off the list, and fails when the list is empty. -/
theorem map_view_ret (h : r.stack.depth ≤ stackCapacity) : r.ret.map view = r.view.ret := by
  unfold ret ListRegisters.ret
  cases hpop : r.stack.pop? with
  | none =>
    have hlast : r.view.addresses.getLast? = none := by
      rw [List.getLast?_eq_none_iff, ← List.length_eq_zero_iff]
      exact (CallStack.length_toList h).trans (CallStack.pop?_eq_none_iff.1 hpop)
    rw [hlast]
    rfl
  | some top =>
    obtain ⟨address, t⟩ := top
    have hlist : r.view.addresses = t.toList ++ [address] := CallStack.toList_of_pop? h hpop
    have hlast : r.view.addresses.getLast? = some address := by
      rw [hlist, List.getLast?_concat]
    rw [hlast]
    refine congrArg Except.ok (ListRegisters.ext rfl rfl rfl ?_)
    show t.toList = r.view.addresses.dropLast
    rw [hlist, List.dropLast_concat]

/-- What a call that succeeds leaves. -/
theorem of_call_eq_ok {t : Registers} {address : UInt16} (h : r.call address = .ok t) :
    t.pc = address ∧ t.stack.toList = r.stack.toList ++ [r.pc] ∧ t.stack.depth ≤ stackCapacity := by
  unfold call at h
  cases hpush : r.stack.push? r.pc with
  | none =>
    rw [hpush] at h
    cases h
  | some stack =>
    rw [hpush] at h
    cases h
    obtain ⟨hlt, hstack⟩ := CallStack.push?_eq_some_iff.1 hpush
    refine ⟨rfl, CallStack.toList_of_push? hpush, ?_⟩
    rw [hstack]
    exact hlt

/-- What a return that succeeds leaves. -/
theorem of_ret_eq_ok (hdepth : r.stack.depth ≤ stackCapacity) {t : Registers} (h : r.ret = .ok t) :
    r.stack.toList = t.stack.toList ++ [t.pc] ∧ t.stack.depth ≤ stackCapacity := by
  unfold ret at h
  cases hpop : r.stack.pop? with
  | none =>
    rw [hpop] at h
    cases h
  | some top =>
    rw [hpop] at h
    cases h
    have hless : r.stack.depth = top.2.depth + 1 := (CallStack.pop?_eq_some_iff.1 hpop).1
    have hleft : top.2.depth ≤ stackCapacity := by omega
    exact ⟨CallStack.toList_of_pop? hdepth hpop, hleft⟩

/-- The registers are those of a list machine, with no more addresses than there are cells. -/
structure Stacks (r : Registers) (a : ListRegisters) : Prop where
  depth_le : r.stack.depth ≤ stackCapacity
  view_eq : r.view = a

variable {a : ListRegisters}

/-- An attempt leaves and answers what the attempt of the list machine does. -/
theorem attempt_stacks (h : r.Stacks a) {target : Except Fault Registers}
    {expected : Except Fault ListRegisters} (hview : target.map view = expected)
    (hdepth : ∀ t, target = .ok t → t.stack.depth ≤ stackCapacity) (answer : Option UInt8) :
    let one := attempt r (target.map fun t => (t, answer))
    let other := attempt a (expected.map fun b => (b, answer))
    one.1.Stacks other.1 ∧ one.2 = other.2 := by
  subst hview
  cases target with
  | ok t => exact ⟨⟨hdepth t rfl, rfl⟩, rfl⟩
  | error fault => exact ⟨h, rfl⟩

/-- An operation on the registers is the operation of the same name on the list machine. -/
theorem perform_stacks (h : r.Stacks a) (op : Operation) :
    (r.perform op).1.Stacks (a.perform op).1 ∧ (r.perform op).2 = (a.perform op).2 := by
  obtain ⟨hdepth, rfl⟩ := h
  cases op with
  | call address =>
    have hleft (t : Registers) (ht : r.call address = .ok t) : t.stack.depth ≤ stackCapacity :=
      (of_call_eq_ok ht).2.2
    exact attempt_stacks ⟨hdepth, rfl⟩ (map_view_call hdepth address) hleft none
  | ret =>
    have hleft (t : Registers) (ht : r.ret = .ok t) : t.stack.depth ≤ stackCapacity :=
      (of_ret_eq_ok hdepth ht).2
    exact attempt_stacks ⟨hdepth, rfl⟩ (map_view_ret hdepth) hleft none
  | skip => exact ⟨⟨hdepth, rfl⟩, rfl⟩
  | get i => exact ⟨⟨hdepth, rfl⟩, congrArg (Except.ok ∘ some) (get_eq_general_view r i)⟩
  | set i byte => exact ⟨⟨hdepth, view_set r i byte⟩, rfl⟩
  | setFlag flag => exact ⟨⟨hdepth, view_setFlag r flag⟩, rfl⟩
  | reset => exact ⟨⟨Nat.zero_le _, view_powerOn⟩, rfl⟩

/-- An operation that fails changes nothing. -/
theorem perform_eq_of_error {op : Operation} {fault : Fault} (h : (r.perform op).2 = .error fault) :
    (r.perform op).1 = r := by
  cases op with
  | call address => exact attempt_fst_of_error h
  | ret => exact attempt_fst_of_error h
  | skip | get | set | setFlag | reset => cases h

/-- A register holds the byte that an operation has stored there, or the byte from before. -/
theorem general_perform (a : ListRegisters) (op : Operation) (i : Fin registerCount) :
    (a.perform op).1.general i = lastStored i (a.general i) op := by
  cases op with
  | call address =>
    simp only [ListRegisters.perform, ListRegisters.call]
    split <;> rfl
  | ret =>
    simp only [ListRegisters.perform, ListRegisters.ret]
    split <;> rfl
  | set j byte =>
    show update a.general (selected j) byte i = if selected j = i then byte else _
    by_cases h : selected j = i
    · rw [if_pos h, ← h, Function.update_self]
    · rw [if_neg h, Function.update_of_ne (Ne.symm h)]
  | setFlag flag =>
    show update a.general flagNumber flag.toUInt8 i = if i = flagNumber then flag.toUInt8 else _
    by_cases h : i = flagNumber
    · rw [if_pos h, h, Function.update_self]
    · rw [if_neg h, Function.update_of_ne h]
  | skip | get | reset => rfl

/-! ## Sequences of operations -/

/-- A sequence of operations on the registers leaves what it leaves of the list machine, and answers
alike. -/
theorem performAll_stacks (h : r.Stacks a) (ops : List Operation) :
    (performAll perform r ops).1.Stacks (performAll ListRegisters.perform a ops).1 ∧
      (performAll perform r ops).2 = (performAll ListRegisters.perform a ops).2 := by
  have hstep (s : Registers) (b : ListRegisters) (op : Operation) (_ : True) (hs : s.Stacks b) :
      (s.perform op).1.Stacks (b.perform op).1 ∧ (s.perform op).2 = (b.perform op).2 :=
    perform_stacks hs op
  exact performAll_related hstep h fun _ _ => trivial

/-- A register holds the byte that was stored there last. -/
theorem general_performAll (a : ListRegisters) (ops : List Operation) (i : Fin registerCount) :
    (performAll ListRegisters.perform a ops).1.general i =
      ops.foldl (lastStored i) (a.general i) := by
  induction ops generalizing a with
  | nil => rfl
  | cons op ops ih =>
    rw [List.foldl_cons, ← general_perform a op i]
    exact ih (a.perform op).1

/-! ## Cells that are not in use -/

/-- Two registers agree in everything but the cells of the call stack that are not in use. -/
structure Agree (r s : Registers) : Prop where
  pc_eq : r.pc = s.pc
  index_eq : r.index = s.index
  general_eq : r.general = s.general
  depth_eq : r.stack.depth = s.stack.depth
  cells_eq : ∀ i, i < r.stack.depth → r.stack.cells[i]? = s.stack.cells[i]?

theorem Agree.view_eq (h : r.Agree s) : r.view = s.view := by
  apply ListRegisters.ext
  · exact h.pc_eq
  · exact h.index_eq
  · funext i
    simp only [view, h.general_eq]
  · apply List.ext_getElem?
    intro i
    show (r.stack.cells.toList.take r.stack.depth)[i]? =
        (s.stack.cells.toList.take s.stack.depth)[i]?
    rw [← h.depth_eq]
    by_cases hi : i < r.stack.depth
    · have hcell := h.cells_eq i hi
      rw [List.getElem?_take_of_lt hi, List.getElem?_take_of_lt hi]
      simpa using hcell
    · rw [List.getElem?_take_eq_none (Nat.le_of_not_lt hi),
        List.getElem?_take_eq_none (Nat.le_of_not_lt hi)]

/-- Registers that agree in everything but cells that are not in use answer alike and go on to
agree. -/
theorem Agree.performAll_eq (h : r.Agree s) (hr : r.stack.depth ≤ stackCapacity)
    (ops : List Operation) :
    (performAll perform r ops).1.view = (performAll perform s ops).1.view ∧
      (performAll perform r ops).2 = (performAll perform s ops).2 := by
  have hs : s.stack.depth ≤ stackCapacity := h.depth_eq ▸ hr
  obtain ⟨hfirst, hanswers⟩ := performAll_stacks ⟨hr, h.view_eq⟩ ops
  obtain ⟨hsecond, hsame⟩ := performAll_stacks ⟨hs, rfl⟩ ops
  exact ⟨hfirst.view_eq.trans hsecond.view_eq.symm, hanswers.trans hsame.symm⟩

end Registers

/-! ## From power-on -/

open Registers in
/-- After any sequence of operations from power-on, the registers are those of the list machine, and
every answer was that of the list machine.  The list is the cells up to the pointer; a call fails
exactly when it has sixteen addresses and else puts the program counter at its end, a return fails
exactly when it is empty and else takes the program counter off its end, and no operation that fails
changes anything.  A register holds the byte that was stored there last.  Registers that differ in
no more than cells behind the pointer answer every sequence of operations alike. -/
theorem registers_refine_list :
    (∀ ops : List Operation,
      let r := (performAll perform ({} : Registers) ops).1
      let a := (performAll ListRegisters.perform .powerOn ops).1
      r.view = a ∧
        (performAll perform ({} : Registers) ops).2 =
          (performAll ListRegisters.perform .powerOn ops).2 ∧
        r.stack.pointer = (a.addresses.length : Int) - 1 ∧
        a.addresses = r.stack.cells.toList.take (r.stack.pointer + 1).toNat ∧
        (∀ address fault, r.call address = .error fault ↔
          a.addresses.length = 16 ∧ fault = .stackOverflow r.pc) ∧
        (∀ address t, r.call address = .ok t →
          t.pc = address ∧ t.view.addresses = a.addresses ++ [r.pc]) ∧
        (∀ fault, r.ret = .error fault ↔ a.addresses = [] ∧ fault = .stackUnderflow r.pc) ∧
        (∀ t, r.ret = .ok t → a.addresses = t.view.addresses ++ [t.pc]) ∧
        (∀ op fault, (r.perform op).2 = .error fault → (r.perform op).1 = r) ∧
        r.skip.pc.toNat = (r.pc.toNat + 2) % 0x10000 ∧
        ∀ i, r.get i = ops.foldl (lastStored (selected i)) 0) ∧
      ∀ r s : Registers, r.stack.depth ≤ 16 → r.Agree s → ∀ ops : List Operation,
        (performAll perform r ops).1.view = (performAll perform s ops).1.view ∧
          (performAll perform r ops).2 = (performAll perform s ops).2 := by
  constructor
  · intro ops r a
    obtain ⟨⟨hdepth, hview⟩, hanswers⟩ :
        r.Stacks a ∧ (performAll perform ({} : Registers) ops).2 =
          (performAll ListRegisters.perform .powerOn ops).2 :=
      performAll_stacks ⟨Nat.zero_le _, view_powerOn⟩ ops
    have haddresses : a.addresses = r.stack.toList := hview ▸ rfl
    have hlength : a.addresses.length = r.stack.depth := by
      rw [haddresses]
      exact CallStack.length_toList hdepth
    have hpointer : r.stack.pointer = (a.addresses.length : Int) - 1 := by
      rw [hlength]
      rfl
    refine ⟨hview, hanswers, hpointer, ?_, ?_, ?_, ?_, ?_, ?_, ?_, ?_⟩
    · have htop : (r.stack.pointer + 1).toNat = r.stack.depth := by omega
      rw [haddresses, htop]
      rfl
    · intro address fault
      rw [call_eq_error_iff hdepth]
      refine and_congr_left' ?_
      omega
    · intro address t ht
      rw [haddresses]
      exact ⟨(of_call_eq_ok ht).1, (of_call_eq_ok ht).2.1⟩
    · intro fault
      rw [ret_eq_error_iff]
      refine and_congr_left' ?_
      rw [← List.length_eq_zero_iff]
      omega
    · intro t ht
      rw [haddresses]
      exact (of_ret_eq_ok hdepth ht).1
    · intro op fault hfault
      exact perform_eq_of_error hfault
    · exact UInt16.toNat_add r.pc 2
    · intro i
      rw [get_eq_general_view, hview]
      exact general_performAll .powerOn ops (selected i)
  · intro r s hr hagree ops
    exact hagree.performAll_eq hr ops

open Registers in
/-- A subroutine that has returned leaves its return address behind the pointer, and nothing can
tell. -/
theorem registers_refine_list_stale :
    ∃ r : Registers, r = (performAll perform ({} : Registers) [.call 0x300, .ret]).1 ∧ r ≠ {} ∧
      r.view = ({} : Registers).view ∧
      ∀ ops : List Operation,
        (performAll perform r ops).2 = (performAll perform ({} : Registers) ops).2 := by
  have hagree : (performAll perform ({} : Registers) [.call 0x300, .ret]).1.Agree {} :=
    ⟨rfl, rfl, rfl, rfl, fun i hi => absurd hi (Nat.not_lt_zero i)⟩
  have halike := registers_refine_list.2 _ _ (Nat.zero_le _) hagree
  refine ⟨_, rfl, by decide, (halike []).1, ?_⟩
  intro ops
  exact (halike ops).2

end ChipEight
