import ChipEight.Text.Hex

/-!
# Values

A value as it is written in a text: a scalar, either plain or in quotes, or a collection of entries.
A plain scalar may denote nothing, a truth value or a natural number; a quoted one is always text.
-/

namespace ChipEight.Yaml

/-- A value as written. -/
inductive Value where
  /-- A scalar without quotes. -/
  | plain (text : String)
  /-- A scalar in quotes, which are not part of the text. -/
  | quoted (text : String)
  /-- A collection of entries; what they are does not matter. -/
  | collection
deriving DecidableEq, Repr

namespace Value

/-- The characters of a value, if it is a scalar. -/
def text? : Value → Option String
  | plain text | quoted text => some text
  | collection => none

/-- The value denotes nothing. -/
def isNull : Value → Bool
  | plain text => text ∈ ["", "~", "null", "Null", "NULL"]
  | quoted _ | collection => false

/-- The truth value that a value denotes. -/
def toBool? : Value → Option Bool
  | plain text =>
    if text ∈ ["true", "True", "TRUE"] then some true
    else if text ∈ ["false", "False", "FALSE"] then some false
    else none
  | quoted _ | collection => none

/-- The number that a numeral denotes: hexadecimal after 0x, octal after 0o, binary after 0b, and
otherwise decimal without leading zeros. -/
def numeralToNat? : List Char → Option Nat
  | '0' :: 'x' :: cs => Hex.digitsToNat? 16 cs
  | '0' :: 'o' :: cs => Hex.digitsToNat? 8 cs
  | '0' :: 'b' :: cs => Hex.digitsToNat? 2 cs
  | ['0'] => some 0
  | '0' :: _ => none
  | cs => Hex.digitsToNat? 10 cs

/-- The natural number that a value denotes: a numeral after an optional plus sign. -/
def toNat? : Value → Option Nat
  | plain text =>
    match text.toList with
    | '+' :: cs => numeralToNat? cs
    | cs => numeralToNat? cs
  | quoted _ | collection => none

/-- The number of 64 bits that a value denotes. -/
def toUInt64? (v : Value) : Option UInt64 :=
  v.toNat?.bind fun n => if n < UInt64.size then some n.toUInt64 else none

end Value

end ChipEight.Yaml
