import ChipEight.Proofs.Assembly

/-!
# Arithmetic on registers

Ten instructions compute a value from one or two registers and put it into the first of them; five
of these also tell a carry, a borrow or a bit that was shifted out in the flag register.  Both are
computed from the registers as they were, and the flag is written last.  So the flag wins where both
go to one register, and it does not matter whether the two registers are the same or one of them is
the flag register.

Main results:

- `Arithmetic.value_apply`, `Arithmetic.flag_apply`: what an operation computes, in numbers.
- `computes_of_execute_eq`: an instruction that puts a value and perhaps a flag changes nothing
  else.
- `arithmetic_of_words`: the ten instructions, whatever registers they select.
-/

namespace ChipEight

/-! ## Operations on numbers -/

namespace Arithmetic

/-- The number that an operation computes from the numbers in two registers. -/
def value (op : Arithmetic) (a b : Nat) : Nat :=
  match op with
  | copy => b
  | or => a ||| b
  | and => a &&& b
  | xor => a ^^^ b
  | add => (a + b) % 256
  | sub => ((a - b : Int) % 256).toNat
  | subFrom => ((b - a : Int) % 256).toNat

/-- The flag of an operation, if it has one: of a sum that is no byte, or of a difference that is
positive. -/
def flag? (op : Arithmetic) (a b : Nat) : Option Nat :=
  match op with
  | add => some (if 255 < a + b then 1 else 0)
  | sub => some (if b < a then 1 else 0)
  | subFrom => some (if a < b then 1 else 0)
  | _ => none

/-- A difference of bytes is the difference of their numbers, rolled over into a byte. -/
theorem toNat_sub_eq_emod (a b : UInt8) :
    (a - b).toNat = ((a.toNat - b.toNat : Int) % 256).toNat := by
  have ha := a.toNat_lt
  have hb := b.toNat_lt
  rw [UInt8.toNat_sub]
  omega

theorem value_apply (op : Arithmetic) (a b : UInt8) :
    (op.apply a b).1.toNat = op.value a.toNat b.toNat := by
  cases op with
  | copy => rfl
  | or => exact UInt8.toNat_or a b
  | and => exact UInt8.toNat_and a b
  | xor => exact UInt8.toNat_xor a b
  | add => exact UInt8.toNat_add a b
  | sub => exact toNat_sub_eq_emod a b
  | subFrom => exact toNat_sub_eq_emod b a

theorem toNat_decide (p : Prop) [Decidable p] : (decide p).toNat = if p then 1 else 0 := by
  split
  · next h => simp [h]
  · next h => simp [h]

theorem flag_apply (op : Arithmetic) (a b : UInt8) :
    (op.apply a b).2.map Bool.toNat = op.flag? a.toNat b.toNat := by
  cases op with
  | add | sub | subFrom => exact congrArg some (toNat_decide _)
  | copy | or | and | xor => rfl

end Arithmetic

/-! ## Shifts as numbers -/

namespace Arithmetic

theorem toNat_shiftRight_one (v : UInt8) : (v >>> 1).toNat = v.toNat / 2 := by
  rw [UInt8.toNat_shiftRight]
  exact Nat.shiftRight_eq_div_pow _ 1

theorem toNat_shiftLeft_one (v : UInt8) : (v <<< 1).toNat = 2 * v.toNat % 256 := by
  rw [UInt8.toNat_shiftLeft, Nat.mul_comm]
  exact congrArg (· % 256) (Nat.shiftLeft_eq _ 1)

/-- A byte that is 0 or 1 is the number of the question whether it is 1. -/
theorem toNat_beq_one {bit : UInt8} (h : bit.toNat < 2) : (bit == 1).toNat = bit.toNat := by
  have hcases : bit = 0 ∨ bit = 1 := by
    rw [← UInt8.toNat_inj, ← UInt8.toNat_inj, UInt8.toNat_zero, UInt8.toNat_one]
    omega
  rcases hcases with hzero | hone
  · rw [hzero]
    rfl
  · rw [hone]
    rfl

/-- The bit that halving drops. -/
theorem toNat_lowest_bit (v : UInt8) : (v &&& 1 == 1).toNat = v.toNat % 2 := by
  have hlow : (v &&& 1).toNat = v.toNat % 2 := by
    rw [UInt8.toNat_and]
    exact Nat.and_one_is_mod _
  rw [toNat_beq_one, hlow]
  rw [hlow]
  exact Nat.mod_lt _ (by decide)

/-- The bit that doubling drops. -/
theorem toNat_highest_bit (v : UInt8) : (v >>> 7 == 1).toNat = v.toNat / 128 := by
  have hv := v.toNat_lt
  have hhigh : (v >>> 7).toNat = v.toNat / 128 := by
    rw [UInt8.toNat_shiftRight]
    exact Nat.shiftRight_eq_div_pow _ 7
  rw [toNat_beq_one, hhigh]
  rw [hhigh]
  omega

end Arithmetic

/-! ## A value and a flag -/

namespace Registers

/-- Puts a value into register `x`, and then a flag into the flag register if there is one. -/
def put (r : Registers) (x value : UInt8) (flag? : Option Bool) : Registers :=
  match flag? with
  | none => r.set x value
  | some flag => (r.set x value).setFlag flag

theorem combine_eq_put (r : Registers) (op : Arithmetic) (x y : UInt8) :
    r.combine op x y =
      r.put x (op.apply (r.get x) (r.get y)).1 (op.apply (r.get x) (r.get y)).2 := by
  cases op <;> rfl

/-- The value is in register `x`, unless a flag has taken its place, and every other register keeps
its byte. -/
theorem get_put (r : Registers) {x j : UInt8} (hx : x.toNat < 16) (hj : j.toNat < 16)
    (value : UInt8) {flag? : Option Bool} (h : flag? = none ∨ j ≠ 0xF) :
    (r.put x value flag?).get j = if j = x then value else r.get j := by
  cases flag? with
  | none => exact get_set_of_lt r hx hj value
  | some flag =>
    rcases h with hnone | hother
    · cases hnone
    · rw [put, get_setFlag_of_lt _ flag hj, if_neg hother]
      exact get_set_of_lt r hx hj value

/-- The flag is in the flag register, whatever the value went to. -/
theorem get_flag_put (r : Registers) (x value : UInt8) (flag : Bool) :
    (r.put x value (some flag)).get 0xF = flag.toUInt8 :=
  get_setFlag ..

end Registers

/-! ## Instructions that compute -/

namespace Machine

variable {δ : Type} [Devices δ]

/-- Executing the instruction of a word puts a number into register `x` and, if there is a flag,
then the flag into the flag register. -/
structure Computes (m : Machine) (d : δ) (word : UInt16) (x : UInt8) (value : Nat)
    (flag? : Option Nat) : Prop where
  /-- The flag is in the flag register, also if that is register `x`. -/
  flag_eq : ∀ flag ∈ flag?,
    ((m.execute d (.ofWord word)).machine.registers.get 0xF).toNat = flag
  /-- The value is in register `x`, unless that is the flag register and there is a flag. -/
  value_eq : flag? = none ∨ x ≠ 0xF →
    ((m.execute d (.ofWord word)).machine.registers.get x).toNat = value
  /-- The other general registers keep their bytes. -/
  general_eq : ∀ j : UInt8, j.toNat < 16 → j ≠ x → flag? = none ∨ j ≠ 0xF →
    (m.execute d (.ofWord word)).machine.registers.get j = m.registers.get j
  /-- The program counter stays. -/
  pc_eq : (m.execute d (.ofWord word)).machine.registers.pc = m.registers.pc
  /-- The index register stays. -/
  index_eq : (m.execute d (.ofWord word)).machine.registers.index = m.registers.index
  /-- The call stack stays. -/
  stack_eq : (m.execute d (.ofWord word)).machine.registers.stack = m.registers.stack
  /-- Nothing but registers changes. -/
  machine_eq : (m.execute d (.ofWord word)).machine =
    m.withRegisters (m.execute d (.ofWord word)).machine.registers
  /-- The devices are not called. -/
  devices_eq : (m.execute d (.ofWord word)).devices = d
  /-- The program goes on behind the instruction. -/
  result_eq : (m.execute d (.ofWord word)).result = .ok .next
  /-- Nothing is shown to the outside. -/
  events_eq : (m.execute d (.ofWord word)).events = #[]

/-- An instruction that puts a value and perhaps a flag does nothing else. -/
theorem computes_of_execute_eq {m : Machine} {d : δ} {word : UInt16} {x value : UInt8}
    (hx : x.toNat < 16) (flag? : Option Bool)
    (h : m.execute d (.ofWord word) =
      (m.withRegisters (m.registers.put x value flag?)).completed d .next) :
    m.Computes d word x value.toNat (flag?.map Bool.toNat) := by
  constructor
  all_goals rw [h]
  case flag_eq =>
    intro number hnumber
    rcases Option.map_eq_some_iff.1 hnumber with ⟨flag, rfl, rfl⟩
    show ((m.registers.put x value (some flag)).get 0xF).toNat = _
    rw [Registers.get_flag_put]
    cases flag <;> rfl
  case value_eq =>
    intro hplace
    rw [Option.map_eq_none_iff] at hplace
    have hvalue := m.registers.get_put hx hx value hplace
    rw [if_pos rfl] at hvalue
    exact congrArg UInt8.toNat hvalue
  case general_eq =>
    intro j hj hne hplace
    rw [Option.map_eq_none_iff] at hplace
    have hkept := m.registers.get_put hx hj value hplace
    rw [if_neg hne] at hkept
    exact hkept
  case pc_eq | index_eq | stack_eq => cases flag? <;> rfl
  case machine_eq | devices_eq | result_eq | events_eq => rfl

section

variable {m : Machine} {d : δ} {x y : UInt8}

theorem computes_arith (hx : x.toNat < 16) (hy : y.toNat < 16) (op : Arithmetic) :
    m.Computes d (Instruction.withNibbles 0x8 x y op.selector) x
      (op.value (m.registers.get x).toNat (m.registers.get y).toNat)
      (op.flag? (m.registers.get x).toNat (m.registers.get y).toNat) := by
  have hword : Instruction.ofWord (Instruction.withNibbles 0x8 x y op.selector) = .arith op x y :=
    Instruction.ofWord_toWord (i := .arith op x y) ⟨hx, hy⟩
  rw [← Arithmetic.value_apply, ← Arithmetic.flag_apply]
  apply computes_of_execute_eq hx (op.apply _ _).2
  rw [hword, execute, Registers.combine_eq_put]

theorem computes_shiftRight (hx : x.toNat < 16) (hy : y.toNat < 16) :
    m.Computes d (Instruction.withNibbles 0x8 x y 0x6) x ((m.registers.get x).toNat / 2)
      (some ((m.registers.get x).toNat % 2)) := by
  have hword : Instruction.ofWord (Instruction.withNibbles 0x8 x y 0x6) = .shiftRight x := by
    simp [Instruction.ofWord, Instruction.parts_withNibbles, hx, hy, Instruction.ofGroup8?]
  rw [← Arithmetic.toNat_shiftRight_one, ← Arithmetic.toNat_lowest_bit]
  apply computes_of_execute_eq hx (some _)
  rw [hword]
  rfl

theorem computes_shiftLeft (hx : x.toNat < 16) (hy : y.toNat < 16) :
    m.Computes d (Instruction.withNibbles 0x8 x y 0xE) x (2 * (m.registers.get x).toNat % 256)
      (some ((m.registers.get x).toNat / 128)) := by
  have hword : Instruction.ofWord (Instruction.withNibbles 0x8 x y 0xE) = .shiftLeft x := by
    simp [Instruction.ofWord, Instruction.parts_withNibbles, hx, hy, Instruction.ofGroup8?]
  rw [← Arithmetic.toNat_shiftLeft_one, ← Arithmetic.toNat_highest_bit]
  apply computes_of_execute_eq hx (some _)
  rw [hword]
  rfl

theorem computes_addByte (hx : x.toNat < 16) (byte : UInt8) :
    m.Computes d (Instruction.withByte 0x7 x byte) x
      (((m.registers.get x).toNat + byte.toNat) % 256) none := by
  have hword : Instruction.ofWord (Instruction.withByte 0x7 x byte) = .addByte x byte :=
    Instruction.ofWord_toWord (i := .addByte x byte) hx
  have hsum : (m.registers.get x + byte).toNat = ((m.registers.get x).toNat + byte.toNat) % 256 :=
    UInt8.toNat_add ..
  rw [← hsum]
  apply computes_of_execute_eq hx none
  rw [hword]
  rfl

end

end Machine

open Instruction in
/-- The ten instructions that compute, in any state of the machine and whatever registers they
select: the same one twice, or the flag register in either place.  The values are those of the
registers before the instruction. -/
theorem arithmetic_of_words {δ : Type} [Devices δ] (m : Machine) (d : δ) {x y : UInt8}
    (hx : x.toNat < 16) (hy : y.toNat < 16) (byte : UInt8) :
    let a := (m.registers.get x).toNat
    let b := (m.registers.get y).toNat
    m.Computes d (withNibbles 0x8 x y 0x0) x b none ∧
      m.Computes d (withNibbles 0x8 x y 0x1) x (a ||| b) none ∧
      m.Computes d (withNibbles 0x8 x y 0x2) x (a &&& b) none ∧
      m.Computes d (withNibbles 0x8 x y 0x3) x (a ^^^ b) none ∧
      m.Computes d (withNibbles 0x8 x y 0x4) x ((a + b) % 256)
        (some (if 255 < a + b then 1 else 0)) ∧
      m.Computes d (withNibbles 0x8 x y 0x5) x ((a - b : Int) % 256).toNat
        (some (if b < a then 1 else 0)) ∧
      m.Computes d (withNibbles 0x8 x y 0x6) x (a / 2) (some (a % 2)) ∧
      m.Computes d (withNibbles 0x8 x y 0x7) x ((b - a : Int) % 256).toNat
        (some (if a < b then 1 else 0)) ∧
      m.Computes d (withNibbles 0x8 x y 0xE) x (2 * a % 256) (some (a / 128)) ∧
      m.Computes d (withByte 0x7 x byte) x ((a + byte.toNat) % 256) none := by
  intro a b
  have harith (op : Arithmetic) :
      m.Computes d (withNibbles 0x8 x y op.selector) x (op.value a b) (op.flag? a b) :=
    Machine.computes_arith hx hy op
  refine ⟨harith .copy, harith .or, harith .and, harith .xor, harith .add, harith .sub, ?_,
    harith .subFrom, ?_, ?_⟩
  · exact Machine.computes_shiftRight hx hy
  · exact Machine.computes_shiftLeft hx hy
  · exact Machine.computes_addByte hx byte

/-- The flag register is added to itself while it holds 255: the sum 254 goes to it first, and then
the carry. -/
theorem arithmetic_of_words_flag :
    ∃ m : Machine, (m.registers.get 0xF).toNat = 255 ∧
      m.Computes Headless.mk 0x8FF4 0xF 254 (some 1) ∧
      ((m.execute Headless.mk (.ofWord 0x8FF4)).machine.registers.get 0xF).toNat = 1 := by
  obtain ⟨m, hm⟩ : ∃ m : Machine, m = (Machine.fresh {} .zero).withRegisters
      (({} : Registers).set 0xF 255) := ⟨_, rfl⟩
  have hflag : (m.registers.get 0xF).toNat = 255 := by
    rw [hm]
    rfl
  have hsum := (arithmetic_of_words m Headless.mk (x := 0xF) (y := 0xF) (by decide) (by decide)
    0).2.2.2.2.1
  rw [hflag] at hsum
  exact ⟨m, hflag, hsum, hsum.flag_eq 1 rfl⟩

end ChipEight
