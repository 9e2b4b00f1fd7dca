import ChipEight.Memory.Basic

/-!
# Listings

A program in memory as text: one line for each word, with its address, a colon and the word, both in
four hexadecimal digits.  The addresses are even and end before the last byte of memory, so every
word of a listing lies in memory.

Main results:

- `readListing?` reads the addresses and words of a listing back.
-/

namespace ChipEight.Memory

/-- The addresses of the words in the first `count` bytes of the program area. -/
def listedAddresses (count : Nat) : List Nat :=
  let stop := min (programStart + count) (memorySize - 1)
  (List.range ((stop - programStart + 1) / 2)).map fun i => programStart + 2 * i

/-- The word at an address, and zero where none can be read. -/
def wordD (m : Memory) (address : Nat) : UInt16 :=
  match m.word address with
  | .ok word => word
  | .error _ => 0

/-- The words in the first `count` bytes of the program area, with their addresses. -/
def listed (m : Memory) (count : Nat) : List (Nat × UInt16) :=
  (listedAddresses count).map fun address => (address, m.wordD address)

/-- The line of a listing for an address and the word there. -/
def listingLine (entry : Nat × UInt16) : List Char :=
  Hex.paddedDigits 4 entry.1 ++ ':' :: ' ' :: Hex.paddedDigits 4 entry.2.toNat ++ ['\n']

/-- The listing of the first `count` bytes of the program area. -/
def listing (m : Memory) (count : Nat) : String :=
  String.ofList ((m.listed count).flatMap listingLine)

/-! ## Reading listings -/

/-- Reads the lines of a listing: four digits, a colon, a space, four digits and a line break
each. -/
def readLines? : List Char → Option (List (Nat × UInt16))
  | [] => some []
  | a :: b :: c :: d :: ':' :: ' ' :: e :: f :: g :: h :: '\n' :: rest => do
    let address ← Hex.ofDigits? [a, b, c, d]
    let word ← Hex.ofDigits? [e, f, g, h]
    return (address, word.toUInt16) :: (← readLines? rest)
  | _ => none

/-- Reads the addresses and words of a listing, or nothing if the text has another form. -/
def readListing? (text : String) : Option (List (Nat × UInt16)) := readLines? text.toList

end ChipEight.Memory
