/-!
# Characters and positions

The characters of a text, the breaks between its lines, and how far a reader has come.

A carriage return, a line feed, both together and the next-line character all break a line in the
same way, so they are made one before anything is read; the line and paragraph separators break a
line too, but stay what they are.
-/

namespace ChipEight.Yaml

/-- A character that may stand in a text: no control characters but the tab and the breaks, no
surrogates, and neither of the two last characters of the first plane. -/
def isAllowed (c : Char) : Bool :=
  let n := c.toNat
  n == 0x09 || n == 0x0A || n == 0x0D || n == 0x85 || (0x20 ≤ n && n ≤ 0x7E) ||
    (0xA0 ≤ n && n ≤ 0xFFFD) || 0x10000 ≤ n

/-- The mark that may stand at the start of a line, before what the line holds. -/
def byteOrderMark : Char := '\ufeff'

/-- A space or a tab. -/
def isBlank (c : Char) : Bool := c == ' ' || c == '\t'

/-- A break between two lines, once breaks have been made one. -/
def isBreak (c : Char) : Bool := c == '\n' || c == '\u2028' || c == '\u2029'

/-- The text with a line feed for each carriage return, line feed, pair of both, and next-line
character. -/
def withLineFeeds : List Char → List Char
  | [] => []
  | '\r' :: '\n' :: cs => '\n' :: withLineFeeds cs
  | c :: cs => (if c == '\r' || c == '\u0085' then '\n' else c) :: withLineFeeds cs

/-- What stands before this point is set apart from what follows: the text ends, or a blank or a
break comes. -/
def isApart : List Char → Bool
  | [] => true
  | c :: _ => isBlank c || isBreak c

/-- A line that starts like this marks the start or the end of a document, by three characters of
one kind that stand apart. -/
def isMarker (mark : Char) : List Char → Bool
  | a :: b :: c :: cs => a == mark && b == mark && c == mark && isApart cs
  | _ => false

/-- A line that starts like this marks the boundary of a document. -/
def isBoundary (cs : List Char) : Bool := isMarker '-' cs || isMarker '.' cs

/-- How far a reader has come. -/
structure Position where
  /-- The number of lines before. -/
  line : Nat := 0
  /-- The number of characters before on the line. -/
  column : Nat := 0
  /-- The number of bytes before on the line. -/
  width : Nat := 0
deriving DecidableEq, Repr

/-- The position after one more character. -/
def Position.after (p : Position) (c : Char) : Position :=
  if isBreak c then { line := p.line + 1 }
  else { p with column := p.column + 1, width := p.width + c.utf8Size }

/-- What is still to be read, and where it starts. -/
structure Cursor where
  /-- The characters to come. -/
  rest : List Char
  /-- The position of the first of them. -/
  position : Position := {}
deriving DecidableEq, Repr

namespace Cursor

/-- The cursor after a number of characters. -/
def skip (c : Cursor) : Nat → Cursor
  | 0 => c
  | n + 1 =>
    match c.rest with
    | [] => c
    | x :: xs => (Cursor.mk xs (c.position.after x)).skip n

/-- The start of a text. -/
def start (text : List Char) : Cursor := ⟨withLineFeeds text, {}⟩

end Cursor

end ChipEight.Yaml
