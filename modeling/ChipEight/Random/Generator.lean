import ChipEight.Random.ChaCha

/-!
# Random bytes

A generator hands out the words of a key stream in order, one for each byte, and keeps the words of
the current block that are still to come.  Its key is spread from a seed of 64 bits by a linear
congruence whose states are scrambled to words; without a seed the host draws all of the key.
-/

namespace ChipEight

/-- A generator of random bytes. -/
structure Generator where
  /-- The key of the stream. -/
  key : ChaCha.Key
  /-- The number of the block that comes after the current one. -/
  nextBlock : UInt64 := 0
  /-- The words of the current block that have not been handed out. -/
  pending : List UInt32 := []
deriving DecidableEq

namespace Generator

/-- The state that follows in the congruence. -/
def advance (state : UInt64) : UInt64 :=
  state * 6364136223846793005 + 11634580027462260723

/-- Rotates a word to the right. -/
def rotateRight (x count : UInt32) : UInt32 := (x >>> count) ||| (x <<< (32 - count))

/-- The word that a state of the congruence gives. -/
def scramble (state : UInt64) : UInt32 :=
  rotateRight (((state >>> 18) ^^^ state) >>> 27).toUInt32 (state >>> 59).toUInt32

/-- The key that a seed gives: one word for each of the eight states after the seed. -/
def keyOfSeed (seed : UInt64) : ChaCha.Key :=
  Vector.ofFn fun i => scramble (Nat.repeat advance (i.val + 1) seed)

/-- The key that a seed gives if there is one, and else the key that the host has drawn. -/
def keyFrom (seed : Option UInt64) (hostKey : ChaCha.Key) : ChaCha.Key :=
  seed.elim hostKey keyOfSeed

/-- The next word of the stream. -/
def nextWord (g : Generator) : UInt32 × Generator :=
  match g.pending with
  | word :: rest => (word, { g with pending := rest })
  | [] =>
    let words := (ChaCha.block g.key g.nextBlock).toList
    (words.headD 0, { g with nextBlock := g.nextBlock + 1, pending := words.tail })

/-- The next random byte: the low byte of the next word. -/
def nextByte (g : Generator) : UInt8 × Generator :=
  let (word, g) := g.nextWord
  (word.toUInt8, g)

end Generator

end ChipEight
