import ChipEight.Instruction.Decode

/-!
# Encoding

The word that an assembler writes for an instruction, with zero in every nibble that decoding does
not look at, and the operand widths that make the word read back.
-/

namespace ChipEight

/-- The lowest nibble of a two-register operation. -/
def Arithmetic.selector : Arithmetic → UInt16
  | .copy => 0x0
  | .or => 0x1
  | .and => 0x2
  | .xor => 0x3
  | .add => 0x4
  | .sub => 0x5
  | .subFrom => 0x7

/-- Decoding finds an operation under its own selector. -/
@[simp]
theorem Instruction.arithmetic?_selector (op : Arithmetic) :
    arithmetic? op.selector.toUInt8 = some op := by
  cases op <;> rfl

namespace Instruction

/-- A word with a group, one register and a low byte. -/
def withByte (group : UInt16) (x byte : UInt8) : UInt16 :=
  group * 0x1000 + x.toUInt16 * 0x100 + byte.toUInt16

/-- A word with a group, two registers and a lowest nibble. -/
def withNibbles (group : UInt16) (x y : UInt8) (n : UInt16) : UInt16 :=
  group * 0x1000 + x.toUInt16 * 0x100 + y.toUInt16 * 0x10 + n

/-- A word with a group and an address. -/
def withAddress (group address : UInt16) : UInt16 :=
  group * 0x1000 + address

/-- The word that stands for an instruction. -/
def toWord : Instruction → UInt16
  | clear => 0x00E0
  | ret => 0x00EE
  | jump address => withAddress 0x1 address
  | call address => withAddress 0x2 address
  | skipEqByte x byte => withByte 0x3 x byte
  | skipNeByte x byte => withByte 0x4 x byte
  | skipEq x y => withNibbles 0x5 x y 0
  | setByte x byte => withByte 0x6 x byte
  | addByte x byte => withByte 0x7 x byte
  | arith op x y => withNibbles 0x8 x y op.selector
  | shiftRight x => withNibbles 0x8 x 0 0x6
  | shiftLeft x => withNibbles 0x8 x 0 0xE
  | skipNe x y => withNibbles 0x9 x y 0
  | setIndex address => withAddress 0xA address
  | jumpOffset address => withAddress 0xB address
  | random x mask => withByte 0xC x mask
  | draw x y rows => withNibbles 0xD x y rows.toUInt16
  | skipPressed x => withByte 0xE x 0x9E
  | skipNotPressed x => withByte 0xE x 0xA1
  | readDelay x => withByte 0xF x 0x07
  | awaitKey x => withByte 0xF x 0x0A
  | setDelay x => withByte 0xF x 0x15
  | setSound x => withByte 0xF x 0x18
  | addIndex x => withByte 0xF x 0x1E
  | pointGlyph x => withByte 0xF x 0x29
  | storeDigits x => withByte 0xF x 0x33
  | save x => withByte 0xF x 0x55
  | restore x => withByte 0xF x 0x65
  | unknown word => word

/-- A word that stands for no instruction: one of group 0, 8, E or F whose low byte or lowest nibble
is not in use. -/
def Unassigned (word : UInt16) : Prop :=
  (nibble word 3 = 0x0 ∧ lowByte word ∉ [0xE0, 0xEE]) ∨
  (nibble word 3 = 0x8 ∧ nibble word 0 ∈ [0x8, 0x9, 0xA, 0xB, 0xC, 0xD, 0xF]) ∨
  (nibble word 3 = 0xE ∧ lowByte word ∉ [0x9E, 0xA1]) ∨
  (nibble word 3 = 0xF ∧
    lowByte word ∉ [0x07, 0x0A, 0x15, 0x18, 0x1E, 0x29, 0x33, 0x55, 0x65])

/-- The operands fit into the widths that a word has for them, and a word that stands for no
instruction is the operand of nothing else. -/
def WellFormed : Instruction → Prop
  | clear | ret => True
  | jump address | call address | setIndex address | jumpOffset address =>
    address.toNat < 0x1000
  | skipEqByte x _ | skipNeByte x _ | setByte x _ | addByte x _ | random x _ => x.toNat < 16
  | skipEq x y | skipNe x y | arith _ x y => x.toNat < 16 ∧ y.toNat < 16
  | draw x y rows => x.toNat < 16 ∧ y.toNat < 16 ∧ rows.toNat < 16
  | shiftRight x | shiftLeft x | skipPressed x | skipNotPressed x | readDelay x | awaitKey x
  | setDelay x | setSound x | addIndex x | pointGlyph x | storeDigits x | save x | restore x =>
    x.toNat < 16
  | unknown word => Unassigned word

instance (word : UInt16) : Decidable (Unassigned word) := inferInstanceAs (Decidable (_ ∨ _))

instance (i : Instruction) : Decidable i.WellFormed :=
  match i with
  | clear | ret => inferInstanceAs (Decidable True)
  | jump address | call address | setIndex address | jumpOffset address =>
    inferInstanceAs (Decidable (address.toNat < 0x1000))
  | skipEqByte x _ | skipNeByte x _ | setByte x _ | addByte x _ | random x _ | shiftRight x
  | shiftLeft x | skipPressed x | skipNotPressed x | readDelay x | awaitKey x | setDelay x
  | setSound x | addIndex x | pointGlyph x | storeDigits x | save x | restore x =>
    inferInstanceAs (Decidable (x.toNat < 16))
  | skipEq x y | skipNe x y | arith _ x y =>
    inferInstanceAs (Decidable (x.toNat < 16 ∧ y.toNat < 16))
  | draw x y rows => inferInstanceAs (Decidable (x.toNat < 16 ∧ y.toNat < 16 ∧ rows.toNat < 16))
  | unknown word => inferInstanceAs (Decidable (Unassigned word))

/-- The two bytes of a word, high byte first. -/
def bytesOfWord (word : UInt16) : List UInt8 :=
  [(word.toNat / 256).toUInt8, (word.toNat % 256).toUInt8]

/-- The bytes of a program, instruction after instruction. -/
def assemble (program : List Instruction) : List UInt8 :=
  program.flatMap fun i => bytesOfWord i.toWord

end Instruction

end ChipEight
