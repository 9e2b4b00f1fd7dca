import ChipEight.Layout
import ChipEight.Font
import ChipEight.Fault

/-!
# Memory

One flat block of bytes.  `peek` and `store` are total and ignore what lies past the end; the
checked operations `read`, `write`, `window`, `overwrite` and `word` refuse such accesses with the
last address that was asked for, and then change nothing.  They also refuse the one window that has
no last address, that of no bytes at address 0.
-/

namespace ChipEight

/-- The bytes of the machine. -/
structure Memory where
  /-- The byte at each address. -/
  bytes : Vector UInt8 memorySize
deriving DecidableEq

namespace Memory

/-- Memory in which every byte is zero. -/
def zeros : Memory := ⟨Vector.replicate memorySize 0⟩

/-- The byte at an address, and zero past the end. -/
def peek (m : Memory) (address : Nat) : UInt8 := m.bytes[address]?.getD 0

/-- Puts a byte at an address, if there is such an address. -/
def poke (m : Memory) (address : Nat) (byte : UInt8) : Memory :=
  ⟨m.bytes.setIfInBounds address byte⟩

/-- Puts bytes at consecutive addresses. -/
def store (m : Memory) (address : Nat) : List UInt8 → Memory
  | [] => m
  | byte :: rest => (m.poke address byte).store (address + 1) rest

/-- The bytes at consecutive addresses. -/
def bytesAt (m : Memory) (address length : Nat) : List UInt8 :=
  (List.range length).map fun i => m.peek (address + i)

/-- Memory as the machine finds it without a program: the glyphs, and zeros elsewhere. -/
def initial : Memory := zeros.store Font.start Font.glyphs

/-- Memory that holds the glyphs, a program and zeros elsewhere; nothing of an earlier program
stays. -/
def load (program : List UInt8) : Except Fault Memory :=
  if program.length ≤ programCapacity then
    .ok (initial.store programStart program)
  else
    .error (.programTooLarge program.length programCapacity)

/-- The byte at an address. -/
def read (m : Memory) (address : Nat) : Except Fault UInt8 :=
  if address < memorySize then .ok (m.peek address) else .error (.addressOutOfRange address)

/-- Puts a byte at an address. -/
def write (m : Memory) (address : Nat) (byte : UInt8) : Except Fault Memory :=
  if address < memorySize then .ok (m.poke address byte) else .error (.addressOutOfRange address)

/-- A window of consecutive addresses lies in memory and ends behind some address. -/
abbrev Fits (address length : Nat) : Prop := 0 < address + length ∧ address + length ≤ memorySize

/-- The largest number that counts addresses. -/
abbrev addressLimit : Nat := 0xFFFFFFFFFFFFFFFF

/-- The fault for a window that does not lie in memory: it names the last address of the window, if
there is one, where the end of the window is counted up to the largest number that counts
addresses. -/
def outOfRange (address length : Nat) : Fault :=
  match min (address + length) addressLimit with
  | 0 => .noLastAddress
  | last + 1 => .addressOutOfRange last

/-- The bytes of a window. -/
def window (m : Memory) (address length : Nat) : Except Fault (List UInt8) :=
  if Fits address length then .ok (m.bytesAt address length)
  else .error (outOfRange address length)

/-- Replaces the bytes of a window, each by the byte for its offset. -/
def overwrite (m : Memory) (address length : Nat) (byte : Nat → UInt8) : Except Fault Memory :=
  if Fits address length then .ok (m.store address ((List.range length).map byte))
  else .error (outOfRange address length)

/-- The instruction word at an address: two bytes, the high one first. -/
def word (m : Memory) (address : Nat) : Except Fault UInt16 :=
  if Fits address 2 then
    .ok ((m.peek address).toUInt16 * 0x100 + (m.peek (address + 1)).toUInt16)
  else .error (outOfRange address 2)

end Memory

end ChipEight
