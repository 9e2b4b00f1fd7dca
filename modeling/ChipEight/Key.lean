import ChipEight.Layout
import ChipEight.Text.Hex

/-!
# Keys

The pad has sixteen keys, numbered 0 to 15.  A key is labelled by its number as a small hexadecimal
digit, and typed as that digit in either case.

Main results:

- `ofNumber?_number`, `ofNumber?_eq_none_iff`: the numbers below sixteen are the keys.
-/

namespace ChipEight

/-- A key of the pad. -/
structure Key where
  /-- The number of the key. -/
  number : UInt8
  /-- There are sixteen keys. -/
  number_lt : number.toNat < keyCount
deriving DecidableEq

namespace Key

/-- The key with the given number, if there is one. -/
def ofNumber? (n : UInt8) : Option Key :=
  if h : n.toNat < keyCount then some ⟨n, h⟩ else none

/-- What is said of a number that is no key's. -/
def rangeMessage : String := s!"keycode must be in range 0 <= keycode < {keyCount}"

/-- The digit of a key as a capital letter or a decimal digit. -/
def digit (k : Key) : Char := Hex.digit k.number.toNat

/-- The label of a key: the letter k and its digit in small letters. -/
def label (k : Key) : String := String.ofList ['k', k.digit.toLower]

/-- The name of a key, which ends in its digit. -/
def name (k : Key) : String := String.ofList ['K', 'e', 'y', k.digit]

/-- The key that a typed character stands for; only the hexadecimal digits stand for keys. -/
def ofChar? (c : Char) : Option Key :=
  (Hex.digitValue? c).bind fun n => ofNumber? (UInt8.ofNat n)

/-! ## Numbers and keys -/

/-- A key is found under its number. -/
@[simp]
theorem ofNumber?_number (k : Key) : ofNumber? k.number = some k := by
  simp [ofNumber?, k.number_lt]

/-- A number finds the key whose number it is, and no other. -/
theorem ofNumber?_eq_some_iff {n : UInt8} {k : Key} : ofNumber? n = some k ↔ k.number = n := by
  constructor
  · intro h
    simp only [ofNumber?] at h
    split at h
    · cases h; rfl
    · cases h
  · rintro rfl
    exact ofNumber?_number k

/-- The numbers from sixteen on are no key's. -/
theorem ofNumber?_eq_none_iff {n : UInt8} : ofNumber? n = none ↔ keyCount ≤ n.toNat := by
  simp [ofNumber?]

end Key

end ChipEight
