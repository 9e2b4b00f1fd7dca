/-!
# Glyphs

The sixteen hexadecimal digits as sprites of five rows, packed one after the other.  A program finds
the glyph of a digit by multiplying the digit by the height of a glyph.
-/

namespace ChipEight.Font

/-- Address of the first glyph. -/
abbrev start : Nat := 0

/-- Number of rows, and so of bytes, in a glyph. -/
abbrev glyphHeight : Nat := 5

/-- The glyphs of 0 to F, top row first. -/
def glyphs : List UInt8 :=
  [ 0xF0, 0x90, 0x90, 0x90, 0xF0
  , 0x20, 0x60, 0x20, 0x20, 0x70
  , 0xF0, 0x10, 0xF0, 0x80, 0xF0
  , 0xF0, 0x10, 0xF0, 0x10, 0xF0
  , 0x90, 0x90, 0xF0, 0x10, 0x10
  , 0xF0, 0x80, 0xF0, 0x10, 0xF0
  , 0xF0, 0x80, 0xF0, 0x90, 0xF0
  , 0xF0, 0x10, 0x20, 0x40, 0x40
  , 0xF0, 0x90, 0xF0, 0x90, 0xF0
  , 0xF0, 0x90, 0xF0, 0x10, 0xF0
  , 0xF0, 0x90, 0xF0, 0x90, 0x90
  , 0xE0, 0x90, 0xE0, 0x90, 0xE0
  , 0xF0, 0x80, 0x80, 0x80, 0xF0
  , 0xE0, 0x90, 0x90, 0x90, 0xE0
  , 0xF0, 0x80, 0xF0, 0x80, 0xF0
  , 0xF0, 0x80, 0xF0, 0x80, 0x80 ]

/-- There is a glyph for each of the sixteen digits. -/
@[simp]
theorem length_glyphs : glyphs.length = 16 * glyphHeight := rfl

end ChipEight.Font
