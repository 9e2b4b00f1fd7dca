import ChipEight.Instruction.Basic

/-!
# Decoding

The instruction that a word of two bytes stands for.  The highest nibble selects a group.  Groups 0,
E and F are told apart further by the low byte and group 8 by the lowest nibble; in every other
group the remaining nibbles are operands or are not looked at.
-/

namespace ChipEight.Instruction

/-- Nibble `i` of a word, counted from the lowest. -/
def nibble (word : UInt16) (i : Nat) : UInt8 :=
  (word.toNat >>> (4 * i) % 16).toUInt8

/-- The low byte of a word. -/
def lowByte (word : UInt16) : UInt8 :=
  (word.toNat % 256).toUInt8

/-- The low twelve bits of a word. -/
def lowAddress (word : UInt16) : UInt16 :=
  (word.toNat % 4096).toUInt16

/-- The two-register operation with the given lowest nibble. -/
def arithmetic? (selector : UInt8) : Option Arithmetic :=
  match selector with
  | 0x0 => some .copy
  | 0x1 => some .or
  | 0x2 => some .and
  | 0x3 => some .xor
  | 0x4 => some .add
  | 0x5 => some .sub
  | 0x7 => some .subFrom
  | _ => none

/-- The instruction of group 0 with the given low byte. -/
def ofGroup0? (selector : UInt8) : Option Instruction :=
  match selector with
  | 0xE0 => some .clear
  | 0xEE => some .ret
  | _ => none

/-- The instruction of group 8 with the given lowest nibble and registers. -/
def ofGroup8? (selector x y : UInt8) : Option Instruction :=
  match selector with
  | 0x6 => some (.shiftRight x)
  | 0xE => some (.shiftLeft x)
  | _ => (arithmetic? selector).map fun op => .arith op x y

/-- The instruction of group E with the given low byte and register. -/
def ofGroupE? (selector x : UInt8) : Option Instruction :=
  match selector with
  | 0x9E => some (.skipPressed x)
  | 0xA1 => some (.skipNotPressed x)
  | _ => none

/-- The instruction of group F with the given low byte and register. -/
def ofGroupF? (selector x : UInt8) : Option Instruction :=
  match selector with
  | 0x07 => some (.readDelay x)
  | 0x0A => some (.awaitKey x)
  | 0x15 => some (.setDelay x)
  | 0x18 => some (.setSound x)
  | 0x1E => some (.addIndex x)
  | 0x29 => some (.pointGlyph x)
  | 0x33 => some (.storeDigits x)
  | 0x55 => some (.save x)
  | 0x65 => some (.restore x)
  | _ => none

/-- The instruction that a word stands for. -/
def ofWord (word : UInt16) : Instruction :=
  let x := nibble word 2
  let y := nibble word 1
  let n := nibble word 0
  let byte := lowByte word
  let address := lowAddress word
  match nibble word 3 with
  | 0x0 => (ofGroup0? byte).getD (.unknown word)
  | 0x1 => .jump address
  | 0x2 => .call address
  | 0x3 => .skipEqByte x byte
  | 0x4 => .skipNeByte x byte
  | 0x5 => .skipEq x y
  | 0x6 => .setByte x byte
  | 0x7 => .addByte x byte
  | 0x8 => (ofGroup8? n x y).getD (.unknown word)
  | 0x9 => .skipNe x y
  | 0xA => .setIndex address
  | 0xB => .jumpOffset address
  | 0xC => .random x byte
  | 0xD => .draw x y n
  | 0xE => (ofGroupE? byte x).getD (.unknown word)
  | _ => (ofGroupF? byte x).getD (.unknown word)

end ChipEight.Instruction
