import ChipEight.Yaml.Directive
import ChipEight.Yaml.Plain
import ChipEight.Yaml.Quoted

/-!
# Reading tokens

A text is cut into tokens from its start to its end.  Between tokens there are spaces, comments and
breaks, and tabs where no key may start; a mark at the start of a line is passed over there and
takes up a column.  Lists marked by dashes or brackets, anchors, tags and scalars in block form are
not read: a text with one of them is refused.
-/

namespace ChipEight.Yaml

/-- A place in a text and the outline of what comes before it. -/
structure Reader where
  /-- The place. -/
  cursor : Cursor
  /-- The outline of what comes before. -/
  outline : Outline := {}
deriving DecidableEq, Repr

namespace Reader

/-! ## Between tokens -/

/-- Passes over what stands between tokens; the flag tells that this is part of a comment. -/
def skipFrom (comment : Bool) (o : Outline) (p : Position) : List Char → Reader
  | [] => ⟨⟨[], p⟩, o⟩
  | c :: cs =>
    if isBreak c then skipFrom false o.newLine (p.after c) cs
    else if comment then skipFrom true o (p.after c) cs
    else if p.column = 0 ∧ c = byteOrderMark then skipFrom false o (p.after c) cs
    else if c = '#' then skipFrom true o (p.after c) cs
    else if c = ' ' ∨ c = '\t' ∧ (o.inBraces ∨ ¬o.keyAllowed) then skipFrom false o (p.after c) cs
    else ⟨⟨c :: cs, p⟩, o⟩

/-- Passes over what stands before the next token. -/
def skip (r : Reader) : Reader := skipFrom false r.outline r.cursor.position r.cursor.rest

/-- Comes to the next token: candidates out of reach are given up, and the lists of entries end
whose columns lie further to the right. -/
def approach (r : Reader) : Option Reader :=
  let r := r.skip
  let p := r.cursor.position
  (r.outline.retire p).map fun o => { r with outline := o.leave fun n => p.column < n }

/-! ## One token -/

/-- Takes in a directive, behind its percent sign. -/
def takeDirective (o : Outline) (p : Position) (cs : List Char) : Option Reader := do
  let (token, rest) ← directive? cs
  let o ← o.endDocument
  return ⟨⟨rest, { line := p.line + 1 }⟩, o.push token⟩

/-- Takes in a mark for the boundary of a document. -/
def takeBoundary (r : Reader) (t : Token) : Option Reader :=
  r.outline.endDocument.map fun o => ⟨r.cursor.skip 3, o.push t⟩

/-- Takes in a scalar in quotes. -/
def takeQuoted (r : Reader) (quote : Quote) : Option Reader := do
  let (text, next) ← quoted? quote (r.cursor.skip 1)
  let o ← r.outline.takeScalar r.cursor.position (.quoted text)
  return ⟨next, o⟩

/-- Takes in a plain scalar. -/
def takePlain (r : Reader) : Option Reader := do
  let read ← plain? r.outline.inBraces r.outline.depth r.cursor
  let o ← r.outline.takeScalar r.cursor.position (.plain read.text)
  return ⟨read.next, if read.brokeLine then { o with keyAllowed := true } else o⟩

/-- Takes in one token, which starts with the given character. -/
def take (r : Reader) (c : Char) (following : List Char) : Option Reader :=
  let o := r.outline
  let p := r.cursor.position
  let one (o : Option Outline) : Option Reader := o.map fun o => ⟨r.cursor.skip 1, o⟩
  if p.column = 0 ∧ c = '%' then takeDirective o p following
  else if p.column = 0 ∧ isMarker '-' (c :: following) then r.takeBoundary .documentStart
  else if p.column = 0 ∧ isMarker '.' (c :: following) then r.takeBoundary .documentEnd
  else if c = '\x7b' then one (o.openBraces p)
  else if c = '\x7d' then one o.closeBraces
  else if c = ',' then one o.takeComma
  else if c = '-' ∧ isApart following then none
  else if c = '?' ∧ (o.inBraces ∨ isApart following) then one (o.takeKey p.column)
  else if c = ':' ∧ (o.inBraces ∨ isApart following) then one (o.takeValue p.column)
  else if c = Quote.single.mark then r.takeQuoted .single
  else if c = Quote.double.mark then r.takeQuoted .double
  else if startsPlain o.inBraces (c :: following) then r.takePlain
  else none

/-! ## All tokens -/

/-- The tokens of the rest of a text, in order; the number bounds how many times a token is taken
in. -/
def tokens? (r : Reader) : Nat → Option (List Token)
  | 0 => none
  | n + 1 => do
    let r ← r.approach
    match r.cursor.rest with
    | [] => return (← r.outline.endDocument).tokens.reverse
    | c :: cs => (← r.take c cs).tokens? n

end Reader

/-- The tokens of a text; each of them takes up a character at least. -/
def tokens? (text : String) : Option (List Token) :=
  let characters := text.toList
  if characters.all isAllowed then
    Reader.tokens? ⟨Cursor.start characters, {}⟩ (characters.length + 1)
  else none

end ChipEight.Yaml
