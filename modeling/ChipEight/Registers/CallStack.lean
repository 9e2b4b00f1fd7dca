import ChipEight.Layout

/-!
# Call stack

Sixteen cells for return addresses and the number of cells in use.  Popping leaves the cell as it
was; the view `toList` shows the cells in use, oldest first, and nothing else of a stack can be
observed.

Main results:

- `toList_of_push?`, `toList_of_pop?`: the stack is a list that grows and shrinks at its end.
- `push?_eq_none_iff`, `pop?_eq_none_iff`: pushing fails on a full stack, popping on an empty one.
- `push?_eq_some_iff`, `pop?_eq_some_iff`: what becomes of the cells.
-/

namespace ChipEight

/-- The return addresses of the subroutines that are running. -/
structure CallStack where
  /-- The cells, whether in use or not. -/
  cells : Vector UInt16 stackCapacity := Vector.replicate stackCapacity 0
  /-- The number of cells in use. -/
  depth : Nat := 0
deriving DecidableEq

namespace CallStack

/-- The return addresses in use, oldest first. -/
def toList (s : CallStack) : List UInt16 := s.cells.toList.take s.depth

/-- The position of the newest return address, one below the first cell if there is none. -/
def pointer (s : CallStack) : Int := s.depth - 1

/-- Puts an address on the stack, unless every cell is in use. -/
def push? (s : CallStack) (address : UInt16) : Option CallStack :=
  if s.depth < stackCapacity then
    some { cells := s.cells.setIfInBounds s.depth address, depth := s.depth + 1 }
  else none

/-- Takes the newest address off the stack, unless no cell is in use. -/
def pop? (s : CallStack) : Option (UInt16 × CallStack) :=
  match s.depth with
  | 0 => none
  | below + 1 => some (s.cells[below]?.getD 0, { s with depth := below })

/-! ## The stack as a list -/

/-- Pushing fails exactly on a full stack. -/
theorem push?_eq_none_iff {s : CallStack} {address : UInt16} :
    s.push? address = none ↔ stackCapacity ≤ s.depth := by
  simp [push?]

/-- Popping fails exactly on an empty stack. -/
theorem pop?_eq_none_iff {s : CallStack} : s.pop? = none ↔ s.depth = 0 := by
  unfold pop?
  split <;> simp_all

/-- What pushing leaves: the address in the first cell that was not in use, and one more cell in
use. -/
theorem push?_eq_some_iff {s t : CallStack} {address : UInt16} :
    s.push? address = some t ↔
      s.depth < stackCapacity ∧ t = ⟨s.cells.setIfInBounds s.depth address, s.depth + 1⟩ := by
  unfold push?
  split
  · next h =>
    constructor
    · intro e
      exact ⟨h, (Option.some.inj e).symm⟩
    · rintro ⟨-, rfl⟩
      rfl
  · next h => exact ⟨nofun, fun e => absurd e.1 h⟩

/-- What popping takes off and leaves: the address in the last cell in use, and the same cells with
one less in use. -/
theorem pop?_eq_some_iff {s t : CallStack} {address : UInt16} :
    s.pop? = some (address, t) ↔
      s.depth = t.depth + 1 ∧ t.cells = s.cells ∧ address = s.cells[t.depth]?.getD 0 := by
  obtain ⟨cells, depth⟩ := s
  cases depth with
  | zero => exact ⟨nofun, fun e => absurd e.1.symm (Nat.succ_ne_zero _)⟩
  | succ below =>
    constructor
    · intro e
      cases e
      exact ⟨rfl, rfl, rfl⟩
    · rintro ⟨hdepth, hcells, rfl⟩
      obtain ⟨cells', below'⟩ := t
      cases hcells
      cases Nat.succ.inj hdepth
      rfl

/-- The list has as many addresses as there are cells in use. -/
theorem length_toList {s : CallStack} (h : s.depth ≤ stackCapacity) :
    s.toList.length = s.depth := by
  simp [toList, h]

/-- Pushing adds the address at the end. -/
theorem toList_of_push? {s t : CallStack} {address : UInt16} (h : s.push? address = some t) :
    t.toList = s.toList ++ [address] := by
  unfold push? at h
  split at h
  · next hlt =>
    cases h
    have hlen : s.depth < s.cells.toList.length := by simpa using hlt
    simp only [toList, Vector.toList_setIfInBounds, List.take_add_one,
      List.take_set_of_le (Nat.le_refl _), List.getElem?_set_self hlen, Option.toList_some]
  · cases h

/-- Popping takes the address off the end. -/
theorem toList_of_pop? {s t : CallStack} {address : UInt16} (hd : s.depth ≤ stackCapacity)
    (h : s.pop? = some (address, t)) : s.toList = t.toList ++ [address] := by
  unfold pop? at h
  split at h
  · cases h
  · next below hb =>
    cases h
    have hlt : below < stackCapacity := by omega
    have hget : s.cells.toList[below]? = some (s.cells[below]?.getD 0) := by simp [hlt]
    simp only [toList, hb, List.take_add_one, hget, Option.toList_some]

end CallStack

end ChipEight
