import ChipEight.Fault
import ChipEight.Registers.CallStack

/-!
# Registers

The program counter, the index register, the sixteen general registers and the call stack.  A
general register is selected by a byte of which only the low four bits count.

Main results:

- `get_set`, `get_setFlag`, `get_setFirst`: what each operation does to the byte in a register.
- `get_set_of_lt`, `get_setFlag_of_lt`: the same for registers that are selected by their own
  numbers.
-/

namespace ChipEight

/-- The registers and the call stack; the default is the state at power-on. -/
structure Registers where
  /-- The address of the next instruction. -/
  pc : UInt16 := programStart.toUInt16
  /-- The index register, which instructions use as an address. -/
  index : UInt16 := 0
  /-- The general registers. -/
  general : Vector UInt8 registerCount := Vector.replicate registerCount 0
  /-- The return addresses. -/
  stack : CallStack := {}
deriving DecidableEq

namespace Registers

/-- The byte in the register that `i` selects. -/
def get (r : Registers) (i : UInt8) : UInt8 :=
  r.general[i.toNat % registerCount]?.getD 0

/-- Puts a byte into the register that `i` selects. -/
def set (r : Registers) (i byte : UInt8) : Registers :=
  { r with general := r.general.setIfInBounds (i.toNat % registerCount) byte }

/-- Puts 1 or 0 into the flag register. -/
def setFlag (r : Registers) (flag : Bool) : Registers :=
  { r with general := r.general.setIfInBounds flagRegister flag.toUInt8 }

/-- Puts the bytes of a list into the registers from 0 on. -/
def setFirst (r : Registers) (bytes : List UInt8) : Registers :=
  { r with general := Vector.ofFn fun i => bytes[i.val]?.getD r.general[i] }

/-- Moves the program counter past one instruction. -/
def skip (r : Registers) : Registers := { r with pc := r.pc + 2 }

/-- Moves the program counter past one instruction if a condition holds. -/
def skipIf (r : Registers) (condition : Bool) : Registers := if condition then r.skip else r

/-- Calls a subroutine: the program counter becomes its address and the old one a return address. -/
def call (r : Registers) (address : UInt16) : Except Fault Registers :=
  match r.stack.push? r.pc with
  | some stack => .ok { r with stack := stack, pc := address }
  | none => .error (.stackOverflow r.pc)

/-- Returns from a subroutine: the program counter becomes the newest return address. -/
def ret (r : Registers) : Except Fault Registers :=
  match r.stack.pop? with
  | some (address, stack) => .ok { r with stack := stack, pc := address }
  | none => .error (.stackUnderflow r.pc)

/-! ## The byte in a register -/

/-- A register keeps the byte that was put into it, and the others keep theirs. -/
theorem get_set (r : Registers) (i j byte : UInt8) :
    (r.set i byte).get j =
      if j.toNat % registerCount = i.toNat % registerCount then byte else r.get j := by
  have hj : j.toNat % registerCount < registerCount := Nat.mod_lt _ (by decide)
  simp only [get, set]
  rw [Vector.getElem?_setIfInBounds]
  split
  · next h => simp [h, hj]
  · next h => rw [if_neg (fun h' => h h'.symm)]

/-- The flag register holds the flag, and the others keep their bytes. -/
theorem get_setFlag (r : Registers) (flag : Bool) (j : UInt8) :
    (r.setFlag flag).get j =
      if j.toNat % registerCount = flagRegister then flag.toUInt8 else r.get j := by
  have hj : j.toNat % registerCount < registerCount := Nat.mod_lt _ (by decide)
  simp only [get, setFlag]
  rw [Vector.getElem?_setIfInBounds]
  split
  · next h => simp [← h]
  · next h => rw [if_neg (fun h' => h h'.symm)]

/-- A register for which the list has a byte holds that byte, and the others keep theirs. -/
theorem get_setFirst (r : Registers) (bytes : List UInt8) (j : UInt8) :
    (r.setFirst bytes).get j = bytes[j.toNat % registerCount]?.getD (r.get j) := by
  have hj : j.toNat % registerCount < registerCount := Nat.mod_lt _ (by decide)
  simp [get, setFirst, hj]

/-! ## Registers selected by their own numbers -/

/-- Of the bytes below sixteen, each selects a register of its own. -/
theorem selects_iff_eq {i j : UInt8} (hi : i.toNat < 16) (hj : j.toNat < 16) :
    i.toNat % registerCount = j.toNat % registerCount ↔ i = j := by
  rw [Nat.mod_eq_of_lt hi, Nat.mod_eq_of_lt hj]
  exact UInt8.toNat_inj

/-- The byte that selects the flag register. -/
theorem selects_flag_iff_eq {i : UInt8} (hi : i.toNat < 16) :
    i.toNat % registerCount = flagRegister ↔ i = 0xF := by
  have hflag : (0xF : UInt8).toNat < 16 := by decide
  exact selects_iff_eq hi hflag

theorem get_set_of_lt (r : Registers) {i j : UInt8} (hi : i.toNat < 16) (hj : j.toNat < 16)
    (byte : UInt8) : (r.set i byte).get j = if j = i then byte else r.get j := by
  simp only [get_set, selects_iff_eq hj hi]

theorem get_setFlag_of_lt (r : Registers) (flag : Bool) {j : UInt8} (hj : j.toNat < 16) :
    (r.setFlag flag).get j = if j = 0xF then flag.toUInt8 else r.get j := by
  simp only [get_setFlag, selects_flag_iff_eq hj]

end Registers

end ChipEight
