import ChipEight.Event
import ChipEight.Proofs.Numerals

/-!
# Descriptions

What the log says of an instruction tells the instruction.  The mnemonic ends where the operands
begin, and the numbers among the characters behind it are the values of the operands, in order.  As
an address has exactly four digits, the line that traces an instruction tells its address too.

Main results:

- `Instruction.ofParts?_mnemonic`: an instruction is told by its mnemonic and the values of its
  operands.
- `Instruction.describe_inj`: instructions with the same text are the same.
- `Event.logLine?_executing_inj`: a line that traces an instruction tells it and its address.
-/

namespace ChipEight

/-! ## Numbers in a text -/

/-- The numbers that stand in a text in decimal notation, behind the digits of a number that has
begun. -/
def numbersFrom : Option Nat → List Char → List Nat
  | begun, [] => begun.toList
  | begun, c :: cs =>
    if c.isDigit then numbersFrom (some (10 * begun.getD 0 + (c.toNat - '0'.toNat))) cs
    else begun.toList ++ numbersFrom none cs

variable {n : Nat} {c : Char} {cs rest : List Char}

theorem numbersFrom_of_not_isDigit {begun : Option Nat} (h : c.isDigit = false) :
    numbersFrom begun (c :: cs) = begun.toList ++ numbersFrom none cs := by
  simp [numbersFrom, h]

theorem numbersFrom_digits (h : Hex.IsDigits 10 cs n) (rest : List Char) :
    numbersFrom none (cs ++ rest) =
      if cs = [] then numbersFrom none rest else numbersFrom (some n) rest := by
  induction h generalizing rest with
  | nil => rfl
  | @append cs c m d hdigits hd hlt ih =>
    have hdigit : ∀ d < 10, (Nat.digitChar d).isDigit = true ∧
        (Nat.digitChar d).toNat - '0'.toNat = d := by decide
    obtain ⟨hc, hvalue⟩ := hdigit d hlt
    have hne : cs ++ [Nat.digitChar d] ≠ [] := by simp
    rw [Hex.eq_digitChar_of_digitValue? hd hlt, if_neg hne, List.append_assoc,
      List.singleton_append, ih]
    split
    · next hnil =>
      rw [numbersFrom, if_pos hc, hvalue, Hex.eq_zero_of_isDigits hdigits hnil]
      rfl
    · rw [numbersFrom, if_pos hc, hvalue]
      rfl

/-- A number is read to its end. -/
theorem numbersFrom_toDigits (n : Nat) (rest : List Char) :
    numbersFrom none (Nat.toDigits 10 n ++ rest) = numbersFrom (some n) rest := by
  rw [numbersFrom_digits (Hex.isDigits_toDigits n), if_neg Nat.toDigits_ne_nil]

namespace Instruction

/-! ## Mnemonics and operands -/

/-- The instruction with a mnemonic and values of operands. -/
def ofParts? : String → List Nat → Option Instruction
  | "Cls", [] => some clear
  | "Ret", [] => some ret
  | "Jp", [a] => some (jump (.ofNat a))
  | "Call", [a] => some (call (.ofNat a))
  | "SeByte", [x, k] => some (skipEqByte (.ofNat x) (.ofNat k))
  | "SneByte", [x, k] => some (skipNeByte (.ofNat x) (.ofNat k))
  | "SeReg", [x, y] => some (skipEq (.ofNat x) (.ofNat y))
  | "LdByte", [x, k] => some (setByte (.ofNat x) (.ofNat k))
  | "AddByte", [x, k] => some (addByte (.ofNat x) (.ofNat k))
  | "LdReg", [x, y] => some (arith .copy (.ofNat x) (.ofNat y))
  | "Or", [x, y] => some (arith .or (.ofNat x) (.ofNat y))
  | "And", [x, y] => some (arith .and (.ofNat x) (.ofNat y))
  | "Xor", [x, y] => some (arith .xor (.ofNat x) (.ofNat y))
  | "AddReg", [x, y] => some (arith .add (.ofNat x) (.ofNat y))
  | "Sub", [x, y] => some (arith .sub (.ofNat x) (.ofNat y))
  | "Subn", [x, y] => some (arith .subFrom (.ofNat x) (.ofNat y))
  | "Shr", [x] => some (shiftRight (.ofNat x))
  | "Shl", [x] => some (shiftLeft (.ofNat x))
  | "SneReg", [x, y] => some (skipNe (.ofNat x) (.ofNat y))
  | "LdI", [a] => some (setIndex (.ofNat a))
  | "JpV0", [a] => some (jumpOffset (.ofNat a))
  | "Rnd", [x, k] => some (random (.ofNat x) (.ofNat k))
  | "Drw", [x, y, n] => some (draw (.ofNat x) (.ofNat y) (.ofNat n))
  | "Skp", [x] => some (skipPressed (.ofNat x))
  | "Sknp", [x] => some (skipNotPressed (.ofNat x))
  | "LdVxDt", [x] => some (readDelay (.ofNat x))
  | "LdVxK", [x] => some (awaitKey (.ofNat x))
  | "LdDtVx", [x] => some (setDelay (.ofNat x))
  | "LdStVx", [x] => some (setSound (.ofNat x))
  | "AddIVx", [x] => some (addIndex (.ofNat x))
  | "LdFVx", [x] => some (pointGlyph (.ofNat x))
  | "LdBVx", [x] => some (storeDigits (.ofNat x))
  | "StoreRegs", [x] => some (save (.ofNat x))
  | "LoadRegs", [x] => some (restore (.ofNat x))
  | "Unknown", [word] => some (unknown (.ofNat word))
  | _, _ => none

/-- An instruction is told by its mnemonic and the values of its operands. -/
theorem ofParts?_mnemonic (i : Instruction) :
    ofParts? i.mnemonic (i.operands.map Prod.snd) = some i := by
  cases i with
  | arith op x y =>
    cases op <;>
    · refine congrArg some ?_
      simp
  | _ =>
    refine congrArg some ?_
    simp

/-- The numbers behind a mnemonic are the values of the operands. -/
theorem numbersFrom_operandsText (i : Instruction) :
    numbersFrom none i.operandsText.toList = i.operands.map Prod.snd := by
  cases i <;>
    simp [operandsText, operands, operandText, toString, numbersFrom_of_not_isDigit,
      numbersFrom_toDigits, numbersFrom]

/-- A mnemonic is letters and digits, and what follows it begins with neither. -/
theorem takeWhile_describe (i : Instruction) :
    i.describe.toList.takeWhile Char.isAlphanum = i.mnemonic.toList := by
  have hmnemonic : i.mnemonic.toList.all Char.isAlphanum = true := by
    cases i with
    | arith op x y =>
      dsimp only [mnemonic]
      cases op <;> decide
    | _ =>
      dsimp only [mnemonic]
      decide
  have hoperands : i.operandsText.toList.takeWhile Char.isAlphanum = [] := by
    cases i <;> simp [operandsText, toString]
  rw [describe, String.toList_append, List.takeWhile_append_of_pos (List.all_eq_true.1 hmnemonic),
    hoperands, List.append_nil]

/-- Instructions with the same text are the same. -/
theorem describe_inj {i j : Instruction} : i.describe = j.describe ↔ i = j := by
  constructor
  · intro h
    have hmnemonic : i.mnemonic = j.mnemonic := by
      rw [← String.toList_inj, ← takeWhile_describe, ← takeWhile_describe, h]
    have htext : i.operandsText = j.operandsText := by
      rw [describe, describe, hmnemonic] at h
      simpa [← String.toList_inj] using h
    have hparts := ofParts?_mnemonic i
    rw [hmnemonic, ← numbersFrom_operandsText, htext, numbersFrom_operandsText,
      ofParts?_mnemonic] at hparts
    exact (Option.some.inj hparts).symm
  · rintro rfl
    rfl

end Instruction

/-! ## Lines -/

/-- A line that traces an instruction tells it and its address. -/
theorem Event.logLine?_executing_inj {pc pc' : UInt16} {i i' : Instruction} :
    logLine? (executing pc i) = logLine? (executing pc' i') ↔ pc = pc' ∧ i = i' := by
  constructor
  · intro h
    have htext : Hex.paddedDigits 4 pc.toNat ++ (": ".toList ++ i.describe.toList) =
        Hex.paddedDigits 4 pc'.toNat ++ (": ".toList ++ i'.describe.toList) := by
      simpa [logLine?, toString, Hex.padded, ← String.toList_inj] using h
    obtain ⟨hpc, hrest⟩ := List.append_inj htext
      ((Hex.length_paddedDigits pc.toNat_lt).trans (Hex.length_paddedDigits pc'.toNat_lt).symm)
    have hvalue : some pc.toNat = some pc'.toNat := by
      rw [← Hex.ofDigits?_paddedDigits 4, hpc, Hex.ofDigits?_paddedDigits]
    exact ⟨UInt16.toNat_inj.1 (Option.some.inj hvalue),
      Instruction.describe_inj.1 (String.toList_inj.1 (List.append_cancel_left hrest))⟩
  · rintro ⟨rfl, rfl⟩
    rfl

end ChipEight
