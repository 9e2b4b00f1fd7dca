/-!
# Instructions

The instruction set.  Operands are named as usual: `x` and `y` select registers, a byte or a mask is
an immediate of eight bits, an address is one of twelve bits, and the rows of a sprite are counted
in four bits.  The type does not force these widths; `Instruction.WellFormed` states them.
-/

namespace ChipEight

/-- An operation that combines two registers and stores the result in the first of them. -/
inductive Arithmetic where
  /-- 8xy0: the second operand. -/
  | copy
  /-- 8xy1: bitwise or. -/
  | or
  /-- 8xy2: bitwise and. -/
  | and
  /-- 8xy3: bitwise exclusive or. -/
  | xor
  /-- 8xy4: sum, with carry. -/
  | add
  /-- 8xy5: first operand minus the second, flagged if the first is larger. -/
  | sub
  /-- 8xy7: second operand minus the first, flagged if the second is larger. -/
  | subFrom
deriving DecidableEq, Repr

/-- The result of an operation on two register values, and the flag if the operation sets one. -/
def Arithmetic.apply (op : Arithmetic) (a b : UInt8) : UInt8 × Option Bool :=
  match op with
  | .copy => (b, none)
  | .or => (a ||| b, none)
  | .and => (a &&& b, none)
  | .xor => (a ^^^ b, none)
  | .add => (a + b, some (255 < a.toNat + b.toNat))
  | .sub => (a - b, some (b < a))
  | .subFrom => (b - a, some (a < b))

/-- One instruction. -/
inductive Instruction where
  /-- 00E0: makes the screen dark. -/
  | clear
  /-- 00EE: returns from a subroutine. -/
  | ret
  /-- 1nnn: jumps to an address. -/
  | jump (address : UInt16)
  /-- 2nnn: calls the subroutine at an address. -/
  | call (address : UInt16)
  /-- 3xkk: skips if register `x` holds the byte. -/
  | skipEqByte (x byte : UInt8)
  /-- 4xkk: skips unless register `x` holds the byte. -/
  | skipNeByte (x byte : UInt8)
  /-- 5xy0: skips if two registers hold the same byte. -/
  | skipEq (x y : UInt8)
  /-- 6xkk: sets register `x` to the byte. -/
  | setByte (x byte : UInt8)
  /-- 7xkk: adds the byte to register `x` and sets no flag. -/
  | addByte (x byte : UInt8)
  /-- 8xy0 to 8xy5 and 8xy7: combines two registers. -/
  | arith (op : Arithmetic) (x y : UInt8)
  /-- 8xy6: halves register `x`, flagging the bit shifted out. -/
  | shiftRight (x : UInt8)
  /-- 8xyE: doubles register `x`, flagging the bit shifted out. -/
  | shiftLeft (x : UInt8)
  /-- 9xy0: skips unless two registers hold the same byte. -/
  | skipNe (x y : UInt8)
  /-- Annn: sets the index register. -/
  | setIndex (address : UInt16)
  /-- Bnnn: jumps to an address offset by register 0. -/
  | jumpOffset (address : UInt16)
  /-- Cxkk: sets register `x` to a random byte under a mask. -/
  | random (x mask : UInt8)
  /-- Dxyn: draws the sprite at the index register, with its top left corner at the coordinates in
  registers `x` and `y`. -/
  | draw (x y rows : UInt8)
  /-- Ex9E: skips if the key whose number is in register `x` is pressed. -/
  | skipPressed (x : UInt8)
  /-- ExA1: skips unless the key whose number is in register `x` is pressed. -/
  | skipNotPressed (x : UInt8)
  /-- Fx07: reads the delay timer into register `x`. -/
  | readDelay (x : UInt8)
  /-- Fx0A: waits for a key and stores its number in register `x`. -/
  | awaitKey (x : UInt8)
  /-- Fx15: sets the delay timer from register `x`. -/
  | setDelay (x : UInt8)
  /-- Fx18: sets the sound timer from register `x`. -/
  | setSound (x : UInt8)
  /-- Fx1E: adds register `x` to the index register. -/
  | addIndex (x : UInt8)
  /-- Fx29: points the index register at the glyph of the digit in register `x`. -/
  | pointGlyph (x : UInt8)
  /-- Fx33: stores the three decimal digits of register `x` at the index register. -/
  | storeDigits (x : UInt8)
  /-- Fx55: stores registers 0 to `x` at the index register. -/
  | save (x : UInt8)
  /-- Fx65: loads registers 0 to `x` from the index register. -/
  | restore (x : UInt8)
  /-- Any other word, which does nothing. -/
  | unknown (word : UInt16)
deriving DecidableEq, Repr

end ChipEight
