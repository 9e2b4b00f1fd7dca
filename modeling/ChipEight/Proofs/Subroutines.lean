import ChipEight.Proofs.Bounds

/-!
# Subroutines

What a subroutine does to the call stack is gone when it has returned.  A call puts its return
address into the first cell that is not in use, and a return reads the last cell in use and leaves
it as it is, so that no cell is written while the stack is deeper than that cell: the address which
a call has left is there when the stack comes back to its depth, however many calls and returns
there were in between.

Main results:

- `Machine.stackMove_act`: the call stack is pushed by a call that succeeds, popped by a return that
  succeeds, and left alone by everything else.
- `Machine.depth_after`: calls and returns that succeed account for the depth of the stack.
- `Machine.cell_after`: a cell keeps its address while the stack is deeper.
- `subroutine_returns`: a subroutine that was called returns behind the call, to the stack of the
  call.
-/

namespace ChipEight

variable {δ : Type}

/-! ## Calls and returns -/

/-- The instruction calls a subroutine. -/
def Instruction.isCall : Instruction → Bool
  | .call _ => true
  | _ => false

/-- The instruction returns from a subroutine. -/
def Instruction.isReturn : Instruction → Bool
  | .ret => true
  | _ => false

namespace Moment

variable [Devices δ]

/-- A step succeeds whose instruction is of the given kind. -/
def completes (t : Moment δ) (kind : Instruction → Bool) : Bool :=
  t.action = .step && t.outcome.result.isOk && t.machine.upcoming?.any kind

/-- A subroutine is called. -/
def calls (t : Moment δ) : Bool := t.completes Instruction.isCall

/-- A subroutine returns. -/
def returns (t : Moment δ) : Bool := t.completes Instruction.isReturn

theorem completes_eq_true_iff {t : Moment δ} {kind : Instruction → Bool} :
    t.completes kind = true ↔
      t.action = .step ∧ t.outcome.result.isOk ∧ ∃ i, t.machine.upcoming? = some i ∧ kind i := by
  simp [completes, Option.any_eq_true, and_assoc]

/-- What a moment does to the call stack. -/
inductive StackMove (t : Moment δ) : Prop where
  /-- A call puts its return address on the stack. -/
  | push (hcalls : t.calls = true) (hreturns : t.returns = false)
    (h : t.machine.registers.stack.push? (t.machine.registers.pc + 2) =
      some t.outcome.machine.registers.stack)
  /-- A return takes the address off the stack at which the program goes on. -/
  | pop (hcalls : t.calls = false) (hreturns : t.returns = true)
    (h : t.machine.registers.stack.pop? =
      some (t.outcome.machine.registers.pc, t.outcome.machine.registers.stack))
  /-- The stack stays as it is. -/
  | keep (hcalls : t.calls = false) (hreturns : t.returns = false)
    (h : t.outcome.machine.registers.stack = t.machine.registers.stack)

end Moment

namespace Machine

variable [Devices δ]

theorem execute_call (m : Machine) (d : δ) (address : UInt16) :
    m.execute d (.call address) =
      (m.registers.stack.push? m.registers.pc).elim
        (m.stopped d (.stackOverflow m.registers.pc))
        fun stack =>
          (m.withRegisters { m.registers with stack, pc := address }).completed d .jump := by
  simp only [execute, Registers.call]
  cases m.registers.stack.push? m.registers.pc <;> rfl

theorem execute_ret (m : Machine) (d : δ) :
    m.execute d .ret =
      m.registers.stack.pop?.elim (m.stopped d (.stackUnderflow m.registers.pc))
        fun top =>
          (m.withRegisters { m.registers with stack := top.2, pc := top.1 }).completed d .jump := by
  simp only [execute, Registers.ret]
  cases m.registers.stack.pop? <;> rfl

theorem completes_of_upcoming {m : Machine} {i : Instruction} (hi : m.upcoming? = some i) (d : δ)
    (kind : Instruction → Bool) :
    (Moment.mk m d .step).completes kind = ((m.advanced.execute d i).result.isOk && kind i) := by
  rw [← result_step_of_upcoming hi]
  simp only [Moment.completes, hi]
  rfl

theorem completes_of_upcoming_eq_none {m : Machine} (hi : m.upcoming? = none) (d : δ)
    (kind : Instruction → Bool) : (Moment.mk m d .step).completes kind = false := by
  simp only [Moment.completes, hi]
  exact Bool.and_false _

/-- A step pushes the call stack if it calls, pops it if it returns, and else leaves it alone. -/
theorem stackMove_step (m : Machine) (d : δ) : (Moment.mk m d .step).StackMove := by
  have hmachine : (Moment.mk m d .step).outcome.machine = (m.step d).machine := rfl
  cases hi : m.upcoming? with
  | none =>
    have hnever := completes_of_upcoming_eq_none hi d
    refine .keep (hnever _) (hnever _) ?_
    rw [hmachine, step_of_upcoming_eq_none hi]
    rfl
  | some i =>
    have hcalls : (Moment.mk m d .step).calls = _ := completes_of_upcoming hi d Instruction.isCall
    have hreturns : (Moment.mk m d .step).returns = _ :=
      completes_of_upcoming hi d Instruction.isReturn
    have hstep := machine_step_of_upcoming hi d
    cases i with
    | call address =>
      rw [execute_call] at hcalls hreturns hstep
      cases hpush : m.registers.stack.push? (m.registers.pc + 2) with
      | none =>
        have hfull : m.advanced.registers.stack.push? m.advanced.registers.pc = none := hpush
        rw [hfull] at hcalls hreturns hstep
        exact .keep hcalls hreturns (congrArg (·.registers.stack) hstep)
      | some stack =>
        have hroom : m.advanced.registers.stack.push? m.advanced.registers.pc = some stack := hpush
        rw [hroom] at hcalls hreturns hstep
        refine .push hcalls hreturns ?_
        rw [hmachine, hstep]
        exact hpush
    | ret =>
      rw [execute_ret] at hcalls hreturns hstep
      cases hpop : m.registers.stack.pop? with
      | none =>
        have hempty : m.advanced.registers.stack.pop? = none := hpop
        rw [hempty] at hcalls hreturns hstep
        exact .keep hcalls hreturns (congrArg (·.registers.stack) hstep)
      | some top =>
        have hfull : m.advanced.registers.stack.pop? = some top := hpop
        rw [hfull] at hcalls hreturns hstep
        refine .pop hcalls hreturns ?_
        rw [hmachine, hstep]
        exact hpop
    | _ =>
      have hstack := stack_execute m.advanced d
      refine .keep (hcalls.trans (Bool.and_false _)) (hreturns.trans (Bool.and_false _)) ?_
      rw [hmachine, hstep, hstack]
      rfl

/-- An action that is no load of a program that fits pushes the call stack if it calls, pops it if
it returns, and else leaves it alone. -/
theorem stackMove_act (m : Machine) (d : δ) {action : Action} (hload : ¬ action.Loads) :
    (Moment.mk m d action).StackMove := by
  cases action with
  | load program =>
    have hrefused := act_load_of_not_loads m d hload
    exact .keep rfl rfl (congrArg (·.machine.registers.stack) hrefused)
  | step => exact stackMove_step m d
  | tickDelay => exact .keep rfl rfl rfl
  | tickSound => exact .keep rfl rfl rfl

/-! ## Depth -/

/-- What an action that calls adds to the depth of the stack, and one that returns takes from it. -/
theorem depth_act (m : Machine) (d : δ) {action : Action} (hload : ¬ action.Loads) :
    (m.act d action).machine.registers.stack.depth + (Moment.mk m d action).returns.toNat =
      m.registers.stack.depth + (Moment.mk m d action).calls.toNat := by
  show (Moment.mk m d action).outcome.machine.registers.stack.depth + _ = _
  cases stackMove_act m d hload with
  | push hcalls hreturns h =>
    obtain ⟨-, hstack⟩ := CallStack.push?_eq_some_iff.1 h
    rw [hcalls, hreturns, hstack]
    rfl
  | pop hcalls hreturns h =>
    have hdepth := (CallStack.pop?_eq_some_iff.1 h).1
    rw [hcalls, hreturns]
    exact hdepth.symm
  | keep hcalls hreturns h =>
    rw [hcalls, hreturns, h]

/-- Over a course of actions without a load of a program that fits, the depth of the stack changes
by the calls and returns that succeed. -/
theorem depth_after (m : Machine) (d : δ) {actions : List Action}
    (hloads : ∀ action ∈ actions, ¬ action.Loads) :
    (m.after d actions).1.registers.stack.depth + (m.history d actions).countP Moment.returns =
      m.registers.stack.depth + (m.history d actions).countP Moment.calls := by
  induction actions generalizing m d with
  | nil => rfl
  | cons action actions ih =>
    obtain ⟨hfirst, hrest⟩ := List.forall_mem_cons.1 hloads
    have hone := depth_act m d hfirst
    have hmore := ih (m.act d action).machine (m.act d action).devices hrest
    have hcount (p : Moment δ → Bool) : (m.history d (action :: actions)).countP p =
        ((m.act d action).machine.history (m.act d action).devices actions).countP p +
          (p ⟨m, d, action⟩).toNat := by
      rw [history, List.countP_cons]
      cases p ⟨m, d, action⟩ <;> rfl
    rw [hcount, hcount]
    show ((m.act d action).machine.after (m.act d action).devices actions).1.registers.stack.depth +
      _ = _
    omega

/-! ## Cells -/

/-- An action from a stack that is deeper than a cell keeps the address in the cell. -/
theorem cell_act (m : Machine) (d : δ) {action : Action} (hload : ¬ action.Loads) {i : Nat}
    (hi : i < m.registers.stack.depth) :
    (m.act d action).machine.registers.stack.cells[i]? = m.registers.stack.cells[i]? := by
  show (Moment.mk m d action).outcome.machine.registers.stack.cells[i]? = _
  cases stackMove_act m d hload with
  | push _ _ h =>
    obtain ⟨-, hstack⟩ := CallStack.push?_eq_some_iff.1 h
    rw [hstack]
    exact Vector.getElem?_setIfInBounds_ne (Nat.ne_of_gt hi)
  | pop _ _ h =>
    rw [(CallStack.pop?_eq_some_iff.1 h).2.1]
  | keep _ _ h =>
    rw [h]

/-- Over a course of actions in which the stack is always deeper than a cell, until it may have
ended, the address in the cell stays. -/
theorem cell_after (m : Machine) (d : δ) {actions : List Action}
    (hloads : ∀ action ∈ actions, ¬ action.Loads) {i : Nat}
    (hdeep : ∀ k, k < actions.length → i < (m.after d (actions.take k)).1.registers.stack.depth) :
    (m.after d actions).1.registers.stack.cells[i]? = m.registers.stack.cells[i]? := by
  induction actions generalizing m d with
  | nil => rfl
  | cons action actions ih =>
    obtain ⟨hfirst, hrest⟩ := List.forall_mem_cons.1 hloads
    have hnow : i < m.registers.stack.depth := hdeep 0 (Nat.succ_pos _)
    have hlater (k : Nat) (hk : k < actions.length) : i <
        ((m.act d action).machine.after (m.act d action).devices
          (actions.take k)).1.registers.stack.depth :=
      hdeep (k + 1) (Nat.succ_lt_succ hk)
    exact (ih _ _ hrest hlater).trans (cell_act m d hfirst hnow)

/-- If the stack was deeper than its end all along, the last action is a return that succeeds. -/
theorem returns_last (m : Machine) (d : δ) (actions : List Action) {action : Action}
    (hload : ¬ action.Loads)
    (hfall : (m.after d (actions ++ [action])).1.registers.stack.depth <
      (m.after d actions).1.registers.stack.depth) :
    ∃ t : Moment δ, (m.history d (actions ++ [action])).getLast? = some t ∧ t.returns = true ∧
      t.machine = (m.after d actions).1 ∧
      t.machine.registers.stack.pop? =
        some ((m.after d (actions ++ [action])).1.registers.pc,
          (m.after d (actions ++ [action])).1.registers.stack) := by
  have hlast : m.history d (actions ++ [action]) =
      m.history d actions ++ [⟨(m.after d actions).1, (m.after d actions).2, action⟩] :=
    history_append m d actions [action]
  have hend : (m.after d (actions ++ [action])).1 =
      ((m.after d actions).1.act (m.after d actions).2 action).machine := by
    rw [after_append]
    rfl
  rw [hlast, List.getLast?_concat]
  refine ⟨_, rfl, ?_⟩
  rw [hend] at hfall ⊢
  cases stackMove_act (m.after d actions).1 (m.after d actions).2 hload with
  | push _ _ h =>
    obtain ⟨-, hstack⟩ := CallStack.push?_eq_some_iff.1 h
    have hdepth := congrArg CallStack.depth hstack
    exact absurd hfall (Nat.not_lt.2 (hdepth ▸ Nat.le_succ _))
  | pop _ hreturns h => exact ⟨hreturns, rfl, h⟩
  | keep _ _ h => exact absurd (congrArg CallStack.depth h) (Nat.ne_of_lt hfall)

end Machine

/-! ## From a call to its return -/

namespace Machine

variable [Devices δ] {m : Machine} {d : δ} {actions : List Action}

/-- The call stack after a call that succeeds. -/
theorem stack_of_calls (h : (Moment.mk m d .step).calls = true) :
    m.registers.stack.depth < stackCapacity ∧
      (m.step d).machine.registers.stack =
        ⟨m.registers.stack.cells.setIfInBounds m.registers.stack.depth (m.registers.pc + 2),
          m.registers.stack.depth + 1⟩ := by
  cases stackMove_step m d with
  | push _ _ hpush => exact CallStack.push?_eq_some_iff.1 hpush
  | pop hcalls _ _ | keep hcalls _ _ =>
    rw [h] at hcalls
    cases hcalls

/-- While the stack is deeper than it was before a call, and until it may be so no longer, the cells
from before the call keep their addresses, and the cell behind them keeps the address that the call
has left. -/
theorem cell_of_calls (hcalls : (Moment.mk m d .step).calls = true)
    (hloads : ∀ action ∈ actions, ¬ action.Loads)
    (hdeep : ∀ k, k < actions.length → m.registers.stack.depth <
      (m.after d (.step :: actions.take k)).1.registers.stack.depth) {i : Nat}
    (hi : i ≤ m.registers.stack.depth) :
    (m.after d (.step :: actions)).1.registers.stack.cells[i]? =
      if i = m.registers.stack.depth then some (m.registers.pc + 2)
      else m.registers.stack.cells[i]? := by
  obtain ⟨hlt, hstack⟩ := stack_of_calls hcalls
  have hkept := cell_after (m.step d).machine (m.step d).devices hloads
    fun k hk => Nat.lt_of_le_of_lt hi (hdeep k hk)
  refine hkept.trans ?_
  rw [hstack]
  by_cases hcell : i = m.registers.stack.depth
  · subst hcell
    rw [if_pos rfl]
    exact Vector.getElem?_setIfInBounds_self_of_lt hlt
  · rw [if_neg hcell]
    exact Vector.getElem?_setIfInBounds_ne (Ne.symm hcell)

/-- From a call on, for as long as the stack is deeper than it was before it, and until it may be so
no longer, the cells from before the call keep their addresses. -/
theorem cell_take_of_calls (hcalls : (Moment.mk m d .step).calls = true)
    (hloads : ∀ action ∈ actions, ¬ action.Loads)
    (hdeep : ∀ k, k < actions.length → m.registers.stack.depth <
      (m.after d (.step :: actions.take k)).1.registers.stack.depth) {i : Nat}
    (hi : i < m.registers.stack.depth) {k : Nat} (hk : k ≤ (Action.step :: actions).length) :
    (m.after d ((Action.step :: actions).take k)).1.registers.stack.cells[i]? =
      m.registers.stack.cells[i]? := by
  cases k with
  | zero => rfl
  | succ k =>
    have hdeepFirst (j : Nat) (hj : j < (actions.take k).length) : m.registers.stack.depth <
        (m.after d (.step :: (actions.take k).take j)).1.registers.stack.depth := by
      rw [List.length_take] at hj
      rw [List.take_take, Nat.min_eq_left (by omega)]
      exact hdeep j (by omega)
    have hloadsFirst : ∀ action ∈ actions.take k, ¬ action.Loads := by
      intro action hmem
      exact hloads action (List.mem_of_mem_take hmem)
    have hcell := cell_of_calls hcalls hloadsFirst hdeepFirst (Nat.le_of_lt hi)
    rwa [if_neg (Nat.ne_of_lt hi)] at hcell

/-- When the stack comes back to the depth that it had before a call, a return has just succeeded,
and the program goes on behind the call. -/
theorem returns_of_calls {i : Instruction} (hi : m.upcoming? = some i)
    (hcalls : (Moment.mk m d .step).calls = true) (hloads : ∀ action ∈ actions, ¬ action.Loads)
    (hdeep : ∀ k, k < actions.length → m.registers.stack.depth <
      (m.after d (.step :: actions.take k)).1.registers.stack.depth)
    (hback : (m.after d (.step :: actions)).1.registers.stack.depth = m.registers.stack.depth) :
    (∃ t : Moment δ, (m.history d (.step :: actions)).getLast? = some t ∧ t.returns = true) ∧
      (m.after d (.step :: actions)).1.registers.pc.toNat = m.registers.pc.toNat + 2 := by
  rcases List.eq_nil_or_concat actions with rfl | ⟨before, last, hactions⟩
  · -- Right after the call the stack is deeper.
    obtain ⟨-, hstack⟩ := stack_of_calls hcalls
    have hdepth : (m.after d [.step]).1.registers.stack.depth = m.registers.stack.depth + 1 :=
      congrArg CallStack.depth hstack
    omega
  · rw [List.concat_eq_append] at hactions
    subst hactions
    obtain ⟨hbefore, hlast⟩ := List.forall_mem_append.1 hloads
    have hdeepBefore (k : Nat) (hk : k < before.length) : m.registers.stack.depth <
        (m.after d (.step :: before.take k)).1.registers.stack.depth := by
      have hk' := hdeep k (by rw [List.length_append]; omega)
      rwa [List.take_append_of_le_length (Nat.le_of_lt hk)] at hk'
    have hdeepEnd : m.registers.stack.depth <
        (m.after d (.step :: before)).1.registers.stack.depth := by
      have hend := hdeep before.length (by rw [List.length_append]; exact Nat.lt_succ_self _)
      rwa [List.take_left'] at hend
      rfl
    obtain ⟨t, hget, hreturns, hmachine, hpop⟩ := returns_last m d
      (.step :: before) (hlast last (List.mem_singleton_self _)) (hback ▸ hdeepEnd)
    refine ⟨⟨t, hget, hreturns⟩, ?_⟩
    -- The return reads the cell in which the call has left its address.
    obtain ⟨-, -, haddress⟩ := CallStack.pop?_eq_some_iff.1 hpop
    have hcell := cell_of_calls hcalls hbefore hdeepBefore (Nat.le_refl _)
    have hback' : (m.after d (.step :: before ++ [last])).1.registers.stack.depth =
        m.registers.stack.depth := hback
    rw [hback', hmachine, hcell, if_pos rfl] at haddress
    have hpc : (m.after d (.step :: (before ++ [last]))).1.registers.pc = m.registers.pc + 2 :=
      haddress
    rw [hpc]
    exact toNat_pc_advanced hi

end Machine

/-! ## Reachable machines -/

/-- From a reachable machine whose upcoming call succeeds, and over any course of actions without a
load of a program that fits in which the stack is deeper until it is back at its depth: the last
action is a return that succeeds, the program goes on behind the call, and all along the cells from
before the call keep their addresses.  Since the last load, the calls that succeeded exceed the
returns that succeeded by the addresses on the stack, of which there are at most sixteen. -/
theorem subroutine_returns {settings : Settings} {m : Machine} (h : Reachable settings m)
    [Devices δ] (d : δ) :
    (∀ (address : UInt16) (actions : List Action), m.upcoming? = some (.call address) →
      (m.step d).result.isOk → (∀ action ∈ actions, ¬ action.Loads) →
      (∀ k, 0 < k → k < (Action.step :: actions).length →
        m.registers.stack.pointer <
          (m.after d ((Action.step :: actions).take k)).1.registers.stack.pointer) →
      (m.after d (.step :: actions)).1.registers.stack.pointer = m.registers.stack.pointer →
      (∃ t : Moment δ, (m.history d (.step :: actions)).getLast? = some t ∧ t.action = .step ∧
        t.machine.upcoming? = some .ret ∧ t.outcome.result.isOk) ∧
      (m.after d (.step :: actions)).1.registers.pc.toNat = m.registers.pc.toNat + 2 ∧
      ∀ k ≤ (Action.step :: actions).length, ∀ i : Nat, (i : Int) ≤ m.registers.stack.pointer →
        (m.after d ((Action.step :: actions).take k)).1.registers.stack.cells[i]? =
          m.registers.stack.cells[i]?) ∧
      ∀ (program : List UInt8) (actions : List Action), program.length ≤ 3584 →
        (∀ action ∈ actions, ¬ action.Loads) →
        ((((m.loaded program).history d actions).countP Moment.calls : Int) -
            ((m.loaded program).history d actions).countP Moment.returns =
          ((m.loaded program).after d actions).1.registers.stack.pointer + 1) ∧
          0 ≤ ((m.loaded program).after d actions).1.registers.stack.pointer + 1 ∧
          ((m.loaded program).after d actions).1.registers.stack.pointer + 1 ≤ 16 := by
  constructor
  · intro address actions hi hok hloads hdeep hback
    have hcalls : (Moment.mk m d .step).calls = true :=
      Moment.completes_eq_true_iff.2 ⟨rfl, hok, _, hi, rfl⟩
    have hdeep' (k : Nat) (hk : k < actions.length) : m.registers.stack.depth <
        (m.after d (.step :: actions.take k)).1.registers.stack.depth := by
      have hpointer := hdeep (k + 1) (Nat.succ_pos k) (Nat.succ_lt_succ hk)
      unfold CallStack.pointer at hpointer
      rw [List.take_succ_cons] at hpointer
      omega
    have hback' : (m.after d (.step :: actions)).1.registers.stack.depth =
        m.registers.stack.depth := by
      unfold CallStack.pointer at hback
      omega
    have hreturned := Machine.returns_of_calls hi hcalls hloads hdeep' hback'
    refine ⟨?_, ?_, ?_⟩
    · obtain ⟨t, hget, hreturns⟩ := hreturned.1
      obtain ⟨haction, hok', i, hi', hreturn⟩ := Moment.completes_eq_true_iff.1 hreturns
      refine ⟨t, hget, haction, ?_, hok'⟩
      cases i with
      | ret => exact hi'
      | _ => cases hreturn
    · exact hreturned.2
    · intro k hk i hle
      have hbelow : i < m.registers.stack.depth := by
        unfold CallStack.pointer at hle
        omega
      exact Machine.cell_take_of_calls hcalls hloads hdeep' hbelow hk
  · intro program actions hle hloads
    have hreach := (h.loaded hle).after d actions
    have hbounded := hreach.sound.stack.depth_le
    have hdepth := Machine.depth_after (m.loaded program) d hloads
    have hzero : (m.loaded program).registers.stack.depth = 0 := rfl
    have hcapacity : stackCapacity = 16 := rfl
    unfold CallStack.pointer
    omega

/-- A subroutine of one instruction returns behind its call. -/
theorem subroutine_returns_two :
    ∃ m : Machine, Reachable {} m ∧ m.upcoming? = some (.call 0x202) ∧
      (∃ t : Moment Headless, (m.history Headless.mk [.step, .step]).getLast? = some t ∧
        t.action = .step ∧ t.machine.upcoming? = some .ret ∧ t.outcome.result.isOk) ∧
      (m.after Headless.mk [.step, .step]).1.registers.pc.toNat = m.registers.pc.toNat + 2 ∧
      (((m.loaded []).history Headless.mk [.step]).countP Moment.calls : Int) -
          ((m.loaded []).history Headless.mk [.step]).countP Moment.returns =
        ((m.loaded []).after Headless.mk [.step]).1.registers.stack.pointer + 1 := by
  let program : List UInt8 := [0x22, 0x02, 0x00, 0xEE]
  let m := (Machine.fresh {} .zero).loaded program
  have hreach : Reachable {} m := .fresh_loaded (by decide) (by decide)
  have hcall : m.upcoming? = some (.call 0x202) :=
    Machine.upcoming?_loaded _ 0x22 0x02 [0x00, 0xEE]
  have hloads : ∀ action ∈ [Action.step], ¬ action.Loads := by
    simp [Action.Loads]
  have hok : (m.step Headless.mk).result.isOk := by
    rw [Machine.result_step_of_upcoming hcall]
    rfl
  -- The machine after the call is at the return, with one address on the stack.
  have hone : (m.step Headless.mk).machine =
      m.advanced.withRegisters
        { m.registers with stack := (m.registers.stack.push? 0x202).getD {}, pc := 0x202 } := by
    rw [Machine.machine_step_of_upcoming hcall]
    rfl
  have hret : (m.step Headless.mk).machine.upcoming? = some .ret := by
    rw [hone, Machine.upcoming?_of_pc_le (by decide)]
    show some (Instruction.ofWord (((Memory.initial.store programStart program).peek
      0x202).toUInt16 * 0x100 +
        ((Memory.initial.store programStart program).peek 0x203).toUInt16)) = _
    have hhigh : Memory.image program 0x202 = 0x00 := by decide
    have hlow : Memory.image program 0x203 = 0xEE := by decide
    rw [Memory.peek_loaded program (by decide), Memory.peek_loaded program (by decide), hhigh, hlow]
    rfl
  have htwo : (m.after Headless.mk [.step, .step]).1 =
      ((m.step Headless.mk).machine.step Headless.mk).machine := rfl
  obtain ⟨hcalled, hcounted⟩ := subroutine_returns hreach Headless.mk
  obtain ⟨hreturn, hpc, -⟩ := hcalled 0x202 [.step] hcall hok hloads
    (by
      intro k hpos hk
      obtain rfl : k = 1 := by
        have hlength : [Action.step, Action.step].length = 2 := rfl
        omega
      show _ < (m.step Headless.mk).machine.registers.stack.pointer
      rw [hone]
      decide)
    (by
      rw [htwo, Machine.machine_step_of_upcoming hret, hone]
      decide)
  exact ⟨m, hreach, hcall, hreturn, hpc, (hcounted [] [.step] (by decide) hloads).1⟩

end ChipEight
