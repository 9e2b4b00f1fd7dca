import ChipEight.Machine.Step

/-!
# Guarded steps

A step in which every operation that has an answer for some operands only checks them first: a
position must lie in its table, a number in its word, a cell on the screen, a divisor must not be
zero, two runs of bytes that are copied onto each other must be of one length, and an instruction
that no other rule covers must be one of arithmetic.  A check that fails is a hazard, which leaves
no machine behind; faults are ordinary results.

The call stack is addressed by its pointer, a signed byte; counts are words of 64 bits, and
addresses are words of 16 bits.  Selecting a register is no hazard, because only four bits of the
selector count.
-/

namespace ChipEight

/-- What goes wrong inside an operation that has no answer for its operands. -/
inductive Hazard where
  /-- A position lies outside its table. -/
  | position
  /-- A number lies outside the range of its word. -/
  | range
  /-- A remainder is taken by zero. -/
  | divisor
  /-- A cell lies outside the screen. -/
  | cell
  /-- Bytes are copied onto a window of another length. -/
  | length
  /-- An instruction has no rule. -/
  | rule
deriving DecidableEq, Repr

namespace Guarded

/-- The number of addresses that a word of 16 bits tells apart. -/
abbrev wordLimit : Nat := 0x10000

/-- The number of counts that a word of 64 bits tells apart. -/
abbrev countLimit : Nat := 0x10000000000000000

/-- Goes on under a condition. -/
def require (condition : Prop) [Decidable condition] (hazard : Hazard) : Except Hazard Unit :=
  if condition then .ok () else .error hazard

/-- A number below a limit. -/
def below (limit n : Nat) : Except Hazard Nat :=
  if n < limit then .ok n else .error .range

/-- A number that a signed byte can hold. -/
def signedByte (n : Int) : Except Hazard Int :=
  if -128 ≤ n ∧ n ≤ 127 then .ok n else .error .range

/-- The number before a count. -/
def predecessor (n : Nat) : Except Hazard Nat :=
  match n with
  | 0 => .error .range
  | last + 1 => .ok last

/-- A remainder. -/
def remainder (n divisor : Nat) : Except Hazard Nat :=
  if divisor = 0 then .error .divisor else .ok (n % divisor)

/-- The entry of a table at a position. -/
def entry {α : Type} (table : List α) (position : Int) : Except Hazard α :=
  if position < 0 then .error .position
  else
    match table[position.toNat]? with
    | some value => .ok value
    | none => .error .position

end Guarded

open Guarded

/-! ## Registers -/

namespace Registers

/-- Moves the program counter past one instruction. -/
def guardedSkip (r : Registers) : Except Hazard Registers := do
  let pc ← below wordLimit (r.pc.toNat + 2)
  return { r with pc := pc.toUInt16 }

/-- Moves the program counter past one instruction if a condition holds. -/
def guardedSkipIf (r : Registers) (condition : Bool) : Except Hazard Registers :=
  if condition then r.guardedSkip else .ok r

/-- Calls a subroutine. -/
def guardedCall (r : Registers) (address : UInt16) : Except Hazard (Except Fault Registers) := do
  if stackCapacity ≤ r.stack.pointer + 1 then
    return .error (.stackOverflow r.pc)
  let top ← signedByte (r.stack.pointer + 1)
  let _ ← entry r.stack.cells.toList top
  let stack := ⟨r.stack.cells.setIfInBounds top.toNat r.pc, (top + 1).toNat⟩
  return .ok { r with stack, pc := address }

/-- Returns from a subroutine. -/
def guardedRet (r : Registers) : Except Hazard (Except Fault Registers) := do
  if r.stack.pointer < 0 then
    return .error (.stackUnderflow r.pc)
  let address ← entry r.stack.cells.toList r.stack.pointer
  let top ← signedByte (r.stack.pointer - 1)
  return .ok { r with stack := { r.stack with depth := (top + 1).toNat }, pc := address }

/-- The bytes of the first registers. -/
def guardedFirst (r : Registers) (count : Nat) : Except Hazard (List UInt8) := do
  require (count ≤ registerCount) .position
  return r.general.toList.take count

/-- The registers after arithmetic, which is what is left when no other rule covers an
instruction. -/
def guardedArithmetic (r : Registers) : Instruction → Except Hazard Registers
  | .arith op x y => .ok (r.combine op x y)
  | .shiftRight x => .ok ((r.set x (r.get x >>> 1)).setFlag (r.get x &&& 1 == 1))
  | .shiftLeft x => .ok ((r.set x (r.get x <<< 1)).setFlag (r.get x >>> 7 == 1))
  | _ => .error .rule

end Registers

/-! ## Memory -/

namespace Memory

/-- The bytes at consecutive addresses. -/
def guardedBytes (m : Memory) (address : Nat) : Nat → Except Hazard (List UInt8)
  | 0 => .ok []
  | length + 1 => do
    let byte ← entry m.bytes.toList address
    let rest ← m.guardedBytes (address + 1) length
    return byte :: rest

/-- Puts bytes at consecutive addresses. -/
def guardedStore (m : Memory) (address : Nat) : List UInt8 → Except Hazard Memory
  | [] => .ok m
  | byte :: rest => do
    let _ ← entry m.bytes.toList address
    (m.poke address byte).guardedStore (address + 1) rest

/-- The last address of a window, which is worked out before it is known whether a fault has to name
it. -/
def guardedLast (address length : Nat) : Except Hazard Nat :=
  predecessor (min (address + length) addressLimit)

/-- The bytes of a window. -/
def guardedWindow (m : Memory) (address length : Nat) :
    Except Hazard (Except Fault (List UInt8)) := do
  let last ← guardedLast address length
  if address + length ≤ memorySize then
    let bytes ← m.guardedBytes address length
    return .ok bytes
  return .error (.addressOutOfRange last)

/-- Copies bytes onto a window. -/
def guardedOverwrite (m : Memory) (address length : Nat) (bytes : Except Hazard (List UInt8)) :
    Except Hazard (Except Fault Memory) := do
  let last ← guardedLast address length
  if address + length ≤ memorySize then
    let bytes ← bytes
    require (bytes.length = length) .length
    let memory ← m.guardedStore address bytes
    return .ok memory
  return .error (.addressOutOfRange last)

end Memory

/-! ## Screen -/

namespace Screen

/-- The position of a cell of the screen. -/
def guardedIndex (s : Screen) (x y : Nat) : Except Hazard Nat := do
  require (s.Contains x y) .cell
  let row ← below countLimit (y * s.width)
  below countLimit (x + row)

/-- Writes the exclusive or of a cell and a bit, and tells whether that made the cell dark. -/
def guardedPixel (s : Screen) (x y : Nat) (bit : UInt8) : Except Hazard (Screen × Bool) := do
  let position ← s.guardedIndex x y
  let old ← entry s.cells.toList position
  let value := old ^^^ bit
  return ({ s with cells := s.cells.setIfInBounds position value }, old != 0 && value == 0)

/-- Writes the bits of a row of a sprite in the given columns. -/
def guardedColumns (s : Screen) (x y : Nat) (row : UInt8) :
    List Nat → Except Hazard (Screen × Bool)
  | [] => .ok (s, false)
  | c :: columns => do
    let u ← remainder (← below countLimit (x + c)) s.width
    let v ← remainder (← below countLimit y) s.height
    require (c < spriteWidth) .range
    let bit := (row >>> (spriteWidth - 1 - c).toUInt8) &&& 1
    let (one, erased) ← s.guardedPixel u v bit
    let (all, more) ← one.guardedColumns x y row columns
    return (all, erased || more)

/-- Writes a sprite row by row, where row `y` is the place of its first row. -/
def guardedRows (s : Screen) (x y : Nat) : List UInt8 → Except Hazard (Screen × Bool)
  | [] => .ok (s, false)
  | row :: rows => do
    let (one, erased) ← s.guardedColumns x y row (List.range spriteWidth)
    let (all, more) ← one.guardedRows x (y + 1) rows
    return (all, erased || more)

end Screen

/-! ## Machine -/

namespace Machine

variable {δ : Type} [Devices δ]

/-- Draws the sprite at the index register and hands the frame to the display. -/
def guardedDraw (m : Machine) (d : δ) (x y rows : UInt8) : Except Hazard (Outcome δ) := do
  let r := m.registers
  match ← m.memory.guardedWindow r.index.toNat rows.toNat with
  | .error fault => return m.stopped d fault
  | .ok sprite =>
    let (screen, erased) ← m.screen.guardedRows (r.get x).toNat (r.get y).toNat sprite
    let drawn := { m with registers := r.setFlag erased, screen }
    match Devices.draw screen d with
    | (.ok (), d) => return ⟨drawn, d, .ok .draw, #[.offered screen]⟩
    | (.error fault, d) => return ⟨drawn, d, .error fault, #[.offered screen]⟩

/-- Polls the keyboard and skips if the key in register `x` being pressed is what is wanted. -/
def guardedSkipOnKey (m : Machine) (d : δ) (x : UInt8) (wanted : Bool) :
    Except Hazard (Outcome δ) :=
  match Devices.pollKey d with
  | (.error fault, d) => .ok (m.stopped d fault)
  | (.ok key, d) => do
    let pressed := key.map Key.number == some (m.registers.get x)
    let r ← m.registers.guardedSkipIf (pressed == wanted)
    return (m.withRegisters r).completed d .next

/-- Executes an instruction whose word the program counter has already passed. -/
def guardedExecute (m : Machine) (d : δ) (i : Instruction) : Except Hazard (Outcome δ) :=
  let r := m.registers
  let skipIf (condition : Bool) := do
    let r ← r.guardedSkipIf condition
    return (m.withRegisters r).completed d .next
  match i with
  | .ret => do return m.jumpTo d (← r.guardedRet)
  | .call address => do return m.jumpTo d (← r.guardedCall address)
  | .skipEqByte x byte => skipIf (r.get x == byte)
  | .skipNeByte x byte => skipIf (r.get x != byte)
  | .skipEq x y => skipIf (r.get x == r.get y)
  | .skipNe x y => skipIf (r.get x != r.get y)
  | .jumpOffset address => do
    let target ← below wordLimit ((r.get 0).toNat + address.toNat)
    return m.jumpTo d (.ok { r with pc := target.toUInt16 })
  | .draw x y rows => m.guardedDraw d x y rows
  | .skipPressed x => m.guardedSkipOnKey d x true
  | .skipNotPressed x => m.guardedSkipOnKey d x false
  | .pointGlyph x => do
    let glyph ← below wordLimit (Font.start + (r.get x).toNat * Font.glyphHeight)
    return (m.withRegisters { r with index := glyph.toUInt16 }).completed d .next
  | .storeDigits x => do
    let digits := (List.range 3).map (decimalDigit (r.get x))
    return m.writeMemory d (← m.memory.guardedOverwrite r.index.toNat 3 (.ok digits))
  | .save x => do
    let count := x.toNat + 1
    return m.writeMemory d
      (← m.memory.guardedOverwrite r.index.toNat count (r.guardedFirst count))
  | .restore x => do
    let targets ← r.guardedFirst (x.toNat + 1)
    match ← m.memory.guardedWindow r.index.toNat (x.toNat + 1) with
    | .error fault => return m.stopped d fault
    | .ok bytes =>
      require (bytes.length = targets.length) .length
      return (m.withRegisters (r.setFirst bytes)).completed d .next
  | .clear | .jump _ | .setByte _ _ | .addByte _ _ | .setIndex _ | .random _ _ | .readDelay _
  | .awaitKey _ | .setDelay _ | .setSound _ | .addIndex _ | .unknown _ => .ok (m.execute d i)
  | other => do
    let r ← r.guardedArithmetic other
    return (m.withRegisters r).completed d .next

/-- Fetches and executes one instruction. -/
def guardedStep (m : Machine) (d : δ) : Except Hazard (Outcome δ) := do
  match ← m.memory.guardedWindow m.registers.pc.toNat 2 with
  | .error fault => return m.stopped d fault
  | .ok bytes =>
    let high ← entry bytes 0
    let low ← entry bytes 1
    let i := Instruction.ofWord (high.toUInt16 * 0x100 + low.toUInt16)
    let r ← m.registers.guardedSkip
    let o ← (m.withRegisters r).guardedExecute d i
    return o.around m.registers.pc i

end Machine

end ChipEight
