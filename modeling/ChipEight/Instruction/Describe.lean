import ChipEight.Instruction.Basic

/-!
# Instructions as text

The form in which a trace names an instruction: a mnemonic, and the operands by name, in decimal.
-/

namespace ChipEight.Instruction

/-- The mnemonic of a two-register operation. -/
def arithmeticMnemonic : Arithmetic → String
  | .copy => "LdReg"
  | .or => "Or"
  | .and => "And"
  | .xor => "Xor"
  | .add => "AddReg"
  | .sub => "Sub"
  | .subFrom => "Subn"

/-- The mnemonic of an instruction. -/
def mnemonic : Instruction → String
  | clear => "Cls"
  | ret => "Ret"
  | jump _ => "Jp"
  | call _ => "Call"
  | skipEqByte _ _ => "SeByte"
  | skipNeByte _ _ => "SneByte"
  | skipEq _ _ => "SeReg"
  | setByte _ _ => "LdByte"
  | addByte _ _ => "AddByte"
  | arith op _ _ => arithmeticMnemonic op
  | shiftRight _ => "Shr"
  | shiftLeft _ => "Shl"
  | skipNe _ _ => "SneReg"
  | setIndex _ => "LdI"
  | jumpOffset _ => "JpV0"
  | random _ _ => "Rnd"
  | draw _ _ _ => "Drw"
  | skipPressed _ => "Skp"
  | skipNotPressed _ => "Sknp"
  | readDelay _ => "LdVxDt"
  | awaitKey _ => "LdVxK"
  | setDelay _ => "LdDtVx"
  | setSound _ => "LdStVx"
  | addIndex _ => "AddIVx"
  | pointGlyph _ => "LdFVx"
  | storeDigits _ => "LdBVx"
  | save _ => "StoreRegs"
  | restore _ => "LoadRegs"
  | unknown _ => "Unknown"

/-- The operands of an instruction with their names; a word that stands for no instruction has no
name. -/
def operands : Instruction → List (String × Nat)
  | clear | ret => []
  | jump address | call address | setIndex address | jumpOffset address => [("nnn", address.toNat)]
  | skipEqByte x byte | skipNeByte x byte | setByte x byte | addByte x byte | random x byte =>
    [("x", x.toNat), ("kk", byte.toNat)]
  | skipEq x y | skipNe x y | arith _ x y => [("x", x.toNat), ("y", y.toNat)]
  | draw x y rows => [("x", x.toNat), ("y", y.toNat), ("n", rows.toNat)]
  | shiftRight x | shiftLeft x | skipPressed x | skipNotPressed x | readDelay x | awaitKey x
  | setDelay x | setSound x | addIndex x | pointGlyph x | storeDigits x | save x | restore x =>
    [("x", x.toNat)]
  | unknown word => [("", word.toNat)]

/-- An operand behind its name. -/
def operandText (operand : String × Nat) : String := s!"{operand.1}: {operand.2}"

/-- The text behind a mnemonic: the operands by name in braces, if there are any, or the word that
stands for no instruction in brackets. -/
def operandsText : Instruction → String
  | clear | ret => ""
  | unknown word => s!"({word.toNat})"
  | i => " \x7b " ++ ", ".intercalate (i.operands.map operandText) ++ " \x7d"

/-- The text of an instruction. -/
def describe (i : Instruction) : String := i.mnemonic ++ i.operandsText

end ChipEight.Instruction
