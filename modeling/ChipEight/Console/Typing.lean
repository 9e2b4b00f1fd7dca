import ChipEight.Key

/-!
# Typed keys

A player types keys as hexadecimal digits, any number of them on a line.  Input is bytes; it is read
line by line, every other character is skipped, and reading ends at the first line that is not text.
-/

namespace ChipEight.Console

/-- The lines of an input, without their line feeds. -/
def inputLines : List UInt8 → List (List UInt8)
  | [] => []
  | byte :: rest =>
    if byte = 0x0A then [] :: inputLines rest
    else
      match inputLines rest with
      | [] => [[byte]]
      | line :: lines => (byte :: line) :: lines

/-- The text of a line, if its bytes are UTF-8. -/
def lineText? (line : List UInt8) : Option String := String.fromUTF8? ⟨line.toArray⟩

/-- The keys that the characters of a text stand for. -/
def keysOfText (text : String) : List Key := text.toList.filterMap Key.ofChar?

/-- The keys on the lines before the first one that is not text. -/
def keysOfLines : List (List UInt8) → List Key
  | [] => []
  | line :: lines =>
    match lineText? line with
    | some text => keysOfText text ++ keysOfLines lines
    | none => []

/-- The keys that an input stands for. -/
def typedKeys (input : List UInt8) : List Key := keysOfLines (inputLines input)

end ChipEight.Console
