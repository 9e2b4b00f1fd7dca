import ChipEight.Text.Hex

/-!
# Faults

What stops a machine.  None of the causes can be recovered from: either the program is malformed, or
the world outside has stopped talking to the machine.
-/

namespace ChipEight

/-- Why the host could not start a clock for the timers. -/
inductive HostFailure where
  /-- The host has no memory left. -/
  | outOfMemory
  /-- The host would have to wait for a resource. -/
  | wouldBlock
  /-- The host does not permit it. -/
  | permissionDenied
deriving DecidableEq, Repr

/-- The wording of a host failure. -/
def HostFailure.message : HostFailure → String
  | .outOfMemory => "out of memory"
  | .wouldBlock => "operation would block"
  | .permissionDenied => "permission denied"

/-- The cause that stops a machine. -/
inductive Fault where
  /-- A program is longer than the room that memory has for programs. -/
  | programTooLarge (size capacity : Nat)
  /-- An access reaches past the end of memory; the address is the last one it asked for. -/
  | addressOutOfRange (address : Nat)
  /-- An access asks for no bytes at address 0, so that it has no last address. -/
  | noLastAddress
  /-- A subroutine is called while the call stack is full. -/
  | stackOverflow (pc : UInt16)
  /-- A subroutine returns while the call stack is empty. -/
  | stackUnderflow (pc : UInt16)
  /-- The display or the keyboard has hung up. -/
  | disconnected
  /-- A program waits for a key on devices that never produce one. -/
  | noInput
  /-- The configured screen has no cells. -/
  | emptyScreen (width height : Nat)
  /-- The clock of the timers could not be started. -/
  | noClock (reason : HostFailure)
deriving DecidableEq, Repr

/-- The wording of a fault; addresses have at least four hexadecimal digits. -/
def Fault.message : Fault → String
  | .programTooLarge size capacity =>
    s!"program too large for VM memory: {size} bytes, capacity is {capacity}"
  | .addressOutOfRange address => s!"address out of range: 0x{Hex.padded 4 address}"
  | .noLastAddress => "attempt to subtract with overflow"
  | .stackOverflow pc => s!"call stack overflow at 0x{Hex.padded 4 pc.toNat}"
  | .stackUnderflow pc => s!"call stack underflow at 0x{Hex.padded 4 pc.toNat}"
  | .disconnected => "device disconnected"
  | .noInput => "device has no keyboard input"
  | .emptyScreen width height => s!"invalid screen size: {width}x{height}"
  | .noClock reason => s!"failed to start timer thread: {reason.message}"

end ChipEight
