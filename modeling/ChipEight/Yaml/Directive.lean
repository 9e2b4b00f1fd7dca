import ChipEight.Text.Hex
import ChipEight.Yaml.Outline

/-!
# Directives

A line that starts with a percent sign tells something about the document after it: the version of
the format that it follows, or that a handle, a short name between exclamation marks, stands for the
start of longer names.  There are no other directives.
-/

namespace ChipEight.Yaml

/-- A character of the name of a directive or of a handle. -/
def isNameCharacter (c : Char) : Bool := c.isAlphanum || c == '_' || c == '-'

/-! ## The version of the format -/

/-- The number at the start of a text, with at most nine digits, and what follows it. -/
def number? (cs : List Char) : Option (Nat × List Char) :=
  let digits := cs.takeWhile Char.isDigit
  if 0 < digits.length ∧ digits.length ≤ 9 then
    (Hex.digitsToNat? 10 digits).map fun n => (n, cs.drop digits.length)
  else none

/-- The version at the start of a text, if it is known, and what follows it. -/
def version? (cs : List Char) : Option (Token × List Char) := do
  let (major, cs) ← number? cs
  let '.' :: cs := cs | none
  let (minor, cs) ← number? cs
  if major = 1 ∧ (minor = 1 ∨ minor = 2) then some (.version, cs) else none

/-! ## Handles -/

/-- A character of a longer name, apart from letters and digits. -/
def isUriMark (c : Char) : Bool := c ∈ ";/?:@&=+$.!~*\x27(),[]".toList

/-- How many bytes follow the first byte of a character in UTF-8, if it is one. -/
def followers? (byte : Nat) : Option Nat :=
  if byte < 0x80 then some 0
  else if byte / 0x20 = 0x6 then some 1
  else if byte / 0x10 = 0xE then some 2
  else if byte / 0x8 = 0x1E then some 3
  else none

/-- How many bytes follow a byte of a character, given how many were to follow the byte before
it. -/
def followersAfter? (byte : Nat) : Nat → Option Nat
  | 0 => followers? byte
  | n + 1 => if byte / 0x40 = 0x2 then some n else none

/-- What follows the start of longer names; bytes of characters may be written as two digits behind
a percent sign, and then the given number of them has still to come. -/
def afterUri? (following : Nat) : List Char → Option (List Char)
  | '%' :: a :: b :: cs => do
    afterUri? (← followersAfter? (16 * (← Hex.digitValue? a) + (← Hex.digitValue? b)) following) cs
  | c :: cs =>
    if following ≠ 0 ∨ c = '%' then none
    else if isNameCharacter c || isUriMark c then afterUri? 0 cs
    else some (c :: cs)
  | [] => if following = 0 then some [] else none

/-- The handle at the start of a text, and what follows what it stands for. -/
def handle? (cs : List Char) : Option (Token × List Char) := do
  let '!' :: cs := cs | none
  let name := cs.takeWhile isNameCharacter
  let (closed, cs) := match cs.dropWhile isNameCharacter with
    | '!' :: cs => (true, cs)
    | cs => (false, cs)
  let uri := cs.dropWhile isBlank
  let rest ← afterUri? 0 uri
  if (closed || name.isEmpty) && uri.length < cs.length && rest.length < uri.length &&
      isApart rest then
    some (.handle (String.ofList name ++ if closed then "!" else ""), rest)
  else none

/-! ## Lines -/

/-- What follows the line of a directive, given what is behind its last word: blanks, a comment and
the break at its end. -/
def afterLine? (cs : List Char) : Option (List Char) :=
  let rest := cs.dropWhile isBlank
  let rest := if rest.head? = some '#' then rest.dropWhile fun c => !isBreak c else rest
  if rest.head?.all isBreak then some (rest.drop 1) else none

/-- The directive behind a percent sign, and what follows its line. -/
def directive? (cs : List Char) : Option (Token × List Char) := do
  let name := String.ofList (cs.takeWhile isNameCharacter)
  let words := cs.dropWhile isNameCharacter
  if !isApart words then none
  else
    let words := words.dropWhile isBlank
    let (token, rest) ←
      if name = "YAML" then version? words
      else if name = "TAG" then handle? words
      else none
    return (token, ← afterLine? rest)

end ChipEight.Yaml
