/-!
# ChaCha key stream

The ChaCha stream cipher with twelve rounds and a block counter of 64 bits, used as a source of
numbers: a key determines a sequence of blocks of sixteen words of 32 bits each.
-/

namespace ChipEight.ChaCha

/-- The state of the cipher, and a block of its key stream. -/
abbrev Block := Vector UInt32 16

/-- A key of the cipher. -/
abbrev Key := Vector UInt32 8

/-- The key of zeros. -/
def Key.zero : Key := .replicate 8 0

/-- Rotates a word to the left. -/
def rotateLeft (x count : UInt32) : UInt32 := (x <<< count) ||| (x >>> (32 - count))

/-- Mixes four words of the state. -/
def quarterRound (s : Block) (i j k l : Fin 16) : Block :=
  let a := s[i] + s[j]
  let d := rotateLeft (s[l] ^^^ a) 16
  let c := s[k] + d
  let b := rotateLeft (s[j] ^^^ c) 12
  let a := a + b
  let d := rotateLeft (d ^^^ a) 8
  let c := c + d
  let b := rotateLeft (b ^^^ c) 7
  (((s.set i a).set j b).set k c).set l d

/-- Mixes each column of the state and then each diagonal. -/
def doubleRound (s : Block) : Block :=
  let s := quarterRound s 0 4 8 12
  let s := quarterRound s 1 5 9 13
  let s := quarterRound s 2 6 10 14
  let s := quarterRound s 3 7 11 15
  let s := quarterRound s 0 5 10 15
  let s := quarterRound s 1 6 11 12
  let s := quarterRound s 2 7 8 13
  quarterRound s 3 4 9 14

/-- The number of double rounds that make up a block. -/
abbrev doubleRounds : Nat := 6

/-- The state before the first round: four fixed words, the key, the block's number and two
zeros. -/
def start (key : Key) (number : UInt64) : Block :=
  #v[0x61707865, 0x3320646E, 0x79622D32, 0x6B206574,
    key[0], key[1], key[2], key[3], key[4], key[5], key[6], key[7],
    number.toUInt32, (number >>> 32).toUInt32, 0, 0]

/-- The block of the key stream with the given number. -/
def block (key : Key) (number : UInt64) : Block :=
  let s := start key number
  (Nat.repeat doubleRound doubleRounds s).zipWith (· + ·) s

/-- Word `i` of the key stream. -/
def word (key : Key) (i : Nat) : UInt32 :=
  (block key (i / 16).toUInt64)[Fin.ofNat 16 i]

end ChipEight.ChaCha
