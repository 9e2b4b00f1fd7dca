/-!
# Machine layout

Sizes and addresses that every part of the machine agrees on.  Memory is one flat block: the glyphs
lie at the bottom, a program starts at `programStart` and may run to the end.
-/

namespace ChipEight

/-- The version that the terminal program reports. -/
def version : String := "0.4.0"

/-- Number of general purpose registers. -/
abbrev registerCount : Nat := 16

/-- Number of the register that receives carries, borrows, shifted-out bits and collisions. -/
abbrev flagRegister : Nat := 15

/-- Number of bytes in memory. -/
abbrev memorySize : Nat := 0x1000

/-- Address of the first byte of a program. -/
abbrev programStart : Nat := 0x200

/-- Number of bytes between the start of a program and the end of memory. -/
abbrev programCapacity : Nat := memorySize - programStart

/-- Number of return addresses that the call stack holds. -/
abbrev stackCapacity : Nat := 16

/-- Width of a screen that nobody configured. -/
abbrev defaultWidth : Nat := 64

/-- Height of a screen that nobody configured. -/
abbrev defaultHeight : Nat := 32

/-- Number of pixels in a row of a sprite, which is one byte. -/
abbrev spriteWidth : Nat := 8

/-- Number of keys on the pad. -/
abbrev keyCount : Nat := 16

/-- Number of key presses that a front end queues if nobody configured it. -/
abbrev defaultKeyBuffer : Nat := 16

/-- How often the timers count down in a second. -/
abbrev timerFrequency : Nat := 60

/-- Nanoseconds between two ticks of the timers, rounded down. -/
abbrev timerPeriod : Nat := 1000000000 / timerFrequency

/-- Microseconds that a skip on a key waits before the key counts as not pressed. -/
abbrev keyPollMicros : Nat := 60

end ChipEight
