import ChipEight.Yaml.Cursor

/-!
# Gaps

The white space between two words of a scalar.  Blanks within a line are part of the scalar.  Blanks
around a break are not, and breaks fold: a single line feed stands for a space, and of several line
feeds the first stands for nothing.
-/

namespace ChipEight.Yaml

/-- The white space after a word, as far as it has been read; texts are held last character
first. -/
inductive Gap where
  /-- Blanks on one line. -/
  | blanks (text : List Char)
  /-- White space with at least one break: the first break, unless it was escaped, and the
  others. -/
  | breaks (first : Option Char) (others : List Char)
deriving DecidableEq, Repr

namespace Gap

/-- No white space. -/
def empty : Gap := blanks []

/-- The gap is there at all. -/
def isPresent : Gap → Bool
  | blanks [] => false
  | _ => true

/-- The gap goes over the end of a line. -/
def hasBreak : Gap → Bool
  | blanks _ => false
  | breaks _ _ => true

/-- The gap with one more blank. -/
def addBlank (c : Char) : Gap → Gap
  | blanks text => blanks (c :: text)
  | breaks first others => breaks first others

/-- The gap with one more break. -/
def addBreak (c : Char) : Gap → Gap
  | blanks _ => breaks (some c) []
  | breaks first others => breaks first (c :: others)

/-- What the gap stands for, last character first. -/
def text : Gap → List Char
  | blanks text => text
  | breaks (some '\n') [] => [' ']
  | breaks (some '\n') others => others
  | breaks (some c) others => others ++ [c]
  | breaks none others => others

end Gap

/-- A scalar that is being read: its words so far, last character first, and the gap after them. -/
structure Words where
  /-- The words with the gaps between them. -/
  text : List Char := []
  /-- The gap after the last word. -/
  gap : Gap := .empty
deriving DecidableEq, Repr

namespace Words

/-- The words with their last gap, last character first. -/
def closed (w : Words) : List Char := w.gap.text ++ w.text

/-- The words with one more character. -/
def add (w : Words) (c : Char) : Words := { text := c :: w.closed }

/-- The words with one more character of white space. -/
def addSpace (w : Words) (c : Char) : Words :=
  { w with gap := if isBreak c then w.gap.addBreak c else w.gap.addBlank c }

/-- The words with an escaped break, which stands for nothing. -/
def addEscapedBreak (w : Words) : Words := { text := w.closed, gap := .breaks none [] }

end Words

end ChipEight.Yaml
