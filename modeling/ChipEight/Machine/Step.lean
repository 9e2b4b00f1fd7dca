import ChipEight.Devices.Basic
import ChipEight.Instruction.Decode
import ChipEight.Instruction.Timing
import ChipEight.Machine.Basic

/-!
# One step

A step fetches the word at the program counter, moves the program counter past it, executes the
instruction and asks to be paced.  A fault in the fetch leaves everything as it was.  A fault in the
execution leaves the program counter past the instruction; only a drawing whose frame the display
refuses has changed anything else by then, namely the screen and the flag.
-/

namespace ChipEight

/-- What an instruction that was completed did to the course of the program. -/
inductive Flow where
  /-- The program goes on behind the instruction, or one further. -/
  | next
  /-- The program goes on at another address. -/
  | jump
  /-- A frame was drawn and handed over. -/
  | draw
  /-- The sound timer was set. -/
  | sound
  /-- A key that the program waited for was pressed. -/
  | keyPress
deriving DecidableEq, Repr

/-- What came of running a machine. -/
structure Outcome (δ : Type) where
  /-- The machine afterwards. -/
  machine : Machine
  /-- The devices afterwards. -/
  devices : δ
  /-- The flow of the last instruction, or the fault that stopped the machine. -/
  result : Except Fault Flow
  /-- What was shown to the outside, in order. -/
  events : Array Event

/-- Combines two registers; a flag is written after the result and so wins where both go to one
register. -/
def Registers.combine (r : Registers) (op : Arithmetic) (x y : UInt8) : Registers :=
  match op.apply (r.get x) (r.get y) with
  | (result, none) => r.set x result
  | (result, some flag) => (r.set x result).setFlag flag

/-- Digit `i` of a byte in decimal, counted from the hundreds. -/
def decimalDigit (byte : UInt8) (i : Nat) : UInt8 :=
  match i with
  | 0 => byte / 100
  | 1 => byte / 10 % 10
  | _ => byte % 10

variable {δ : Type}

/-- What a request for pacing after an instruction shows: nothing if the instruction ended in a
fault. -/
def Instruction.pacing (i : Instruction) : Except Fault Flow → Array Event
  | .ok _ => #[.paced i.micros]
  | .error _ => #[]

/-- Adds to the outcome of an instruction what a step shows around it: the trace before, and the
pacing after. -/
def Outcome.around (o : Outcome δ) (pc : UInt16) (i : Instruction) : Outcome δ :=
  { o with events := #[.executing pc i] ++ o.events ++ i.pacing o.result }

namespace Machine

/-- An outcome without a fault and without events. -/
def completed (m : Machine) (d : δ) (flow : Flow) : Outcome δ := ⟨m, d, .ok flow, #[]⟩

/-- An outcome with a fault and without events. -/
def stopped (m : Machine) (d : δ) (fault : Fault) : Outcome δ := ⟨m, d, .error fault, #[]⟩

/-- The machine with other registers. -/
def withRegisters (m : Machine) (r : Registers) : Machine := { m with registers := r }

/-- Completes with new registers, or stops with the machine as it is. -/
def jumpTo (m : Machine) (d : δ) : Except Fault Registers → Outcome δ
  | .ok r => (m.withRegisters r).completed d .jump
  | .error fault => m.stopped d fault

/-- Completes with a new memory, or stops with the machine as it is. -/
def writeMemory (m : Machine) (d : δ) : Except Fault Memory → Outcome δ
  | .ok memory => { m with memory }.completed d .next
  | .error fault => m.stopped d fault

/-- Draws the sprite at the index register and hands the frame to the display. -/
def draw [Devices δ] (m : Machine) (d : δ) (x y rows : UInt8) : Outcome δ :=
  let r := m.registers
  match m.memory.window r.index.toNat rows.toNat with
  | .error fault => m.stopped d fault
  | .ok sprite =>
    let (screen, erased) := m.screen.drawSprite (r.get x).toNat (r.get y).toNat sprite
    let drawn := { m with registers := r.setFlag erased, screen }
    match Devices.draw screen d with
    | (.ok (), d) => ⟨drawn, d, .ok .draw, #[.offered screen]⟩
    | (.error fault, d) => ⟨drawn, d, .error fault, #[.offered screen]⟩

/-- Polls the keyboard and skips if the key in register `x` being pressed is what is wanted. -/
def skipOnKey [Devices δ] (m : Machine) (d : δ) (x : UInt8) (wanted : Bool) : Outcome δ :=
  match Devices.pollKey d with
  | (.error fault, d) => m.stopped d fault
  | (.ok key, d) =>
    let pressed := key.map Key.number == some (m.registers.get x)
    (m.withRegisters (m.registers.skipIf (pressed == wanted))).completed d .next

/-- Waits for a key and stores its number in register `x`. -/
def awaitKey [Devices δ] (m : Machine) (d : δ) (x : UInt8) : Outcome δ :=
  match Devices.awaitKey d with
  | (.error fault, d) => m.stopped d fault
  | (.ok key, d) => (m.withRegisters (m.registers.set x key.number)).completed d .keyPress

/-- Executes an instruction whose word the program counter has already passed. -/
def execute [Devices δ] (m : Machine) (d : δ) (i : Instruction) : Outcome δ :=
  let r := m.registers
  match i with
  | .clear => { m with screen := m.screen.clear }.completed d .next
  | .ret => m.jumpTo d r.ret
  | .jump address => m.jumpTo d (.ok { r with pc := address })
  | .call address => m.jumpTo d (r.call address)
  | .skipEqByte x byte => (m.withRegisters (r.skipIf (r.get x == byte))).completed d .next
  | .skipNeByte x byte => (m.withRegisters (r.skipIf (r.get x != byte))).completed d .next
  | .skipEq x y => (m.withRegisters (r.skipIf (r.get x == r.get y))).completed d .next
  | .skipNe x y => (m.withRegisters (r.skipIf (r.get x != r.get y))).completed d .next
  | .setByte x byte => (m.withRegisters (r.set x byte)).completed d .next
  | .addByte x byte => (m.withRegisters (r.set x (r.get x + byte))).completed d .next
  | .arith op x y => (m.withRegisters (r.combine op x y)).completed d .next
  | .shiftRight x =>
    let v := r.get x
    (m.withRegisters ((r.set x (v >>> 1)).setFlag (v &&& 1 == 1))).completed d .next
  | .shiftLeft x =>
    let v := r.get x
    (m.withRegisters ((r.set x (v <<< 1)).setFlag (v >>> 7 == 1))).completed d .next
  | .setIndex address => (m.withRegisters { r with index := address }).completed d .next
  | .jumpOffset address => m.jumpTo d (.ok { r with pc := (r.get 0).toUInt16 + address })
  | .random x mask =>
    let (byte, random) := m.random.nextByte
    { m with registers := r.set x (mask &&& byte), random }.completed d .next
  | .draw x y rows => m.draw d x y rows
  | .skipPressed x => m.skipOnKey d x true
  | .skipNotPressed x => m.skipOnKey d x false
  | .readDelay x => (m.withRegisters (r.set x m.timers.delay)).completed d .next
  | .awaitKey x => m.awaitKey d x
  | .setDelay x => { m with timers := { m.timers with delay := r.get x } }.completed d .next
  | .setSound x => { m with timers := { m.timers with sound := r.get x } }.completed d .sound
  | .addIndex x =>
    (m.withRegisters { r with index := r.index + (r.get x).toUInt16 }).completed d .next
  | .pointGlyph x =>
    let glyph := Font.start + (r.get x).toNat * Font.glyphHeight
    (m.withRegisters { r with index := glyph.toUInt16 }).completed d .next
  | .storeDigits x =>
    m.writeMemory d (m.memory.overwrite r.index.toNat 3 (decimalDigit (r.get x)))
  | .save x =>
    m.writeMemory d
      (m.memory.overwrite r.index.toNat (x.toNat + 1) fun i => r.general[i]?.getD 0)
  | .restore x =>
    match m.memory.window r.index.toNat (x.toNat + 1) with
    | .ok bytes => (m.withRegisters (r.setFirst bytes)).completed d .next
    | .error fault => m.stopped d fault
  | .unknown word => ⟨m, d, .ok .next, #[.unknownWord word (r.pc - 2)]⟩

/-- The word at the program counter. -/
def fetch (m : Machine) : Except Fault UInt16 := m.memory.word m.registers.pc.toNat

/-- Fetches and executes one instruction. -/
def step [Devices δ] (m : Machine) (d : δ) : Outcome δ :=
  match m.fetch with
  | .error fault => m.stopped d fault
  | .ok word =>
    let i := Instruction.ofWord word
    let advanced := m.withRegisters m.registers.skip
    (advanced.execute d i).around m.registers.pc i

end Machine

end ChipEight
