import ChipEight.Yaml.Cursor
import ChipEight.Yaml.Value

/-!
# Tokens and the outline of a text

The tokens of a text and what has to be remembered to find them.  Some of them are not written out:
that something is the key of an entry shows only at the colon behind it, and that a list of entries
starts or ends shows in the columns of their keys.

A scalar or a collection in braces that may turn out to be a key is a candidate.  It has to be
followed by its colon on the line on which it starts and within `keyLimit` bytes.  A candidate in
the column of the open list of entries has to turn out to be a key.
-/

namespace ChipEight.Yaml

/-- A part of a text. -/
inductive Token where
  /-- The version of the format that the text follows. -/
  | version
  /-- A name that stands for the start of longer names. -/
  | handle (name : String)
  /-- The mark for the start of a document. -/
  | documentStart
  /-- The mark for the end of a document. -/
  | documentEnd
  /-- The start of entries that stand one below the other. -/
  | blockStart
  /-- The end of entries that stand one below the other. -/
  | blockEnd
  /-- The brace before entries. -/
  | flowStart
  /-- The brace after entries. -/
  | flowEnd
  /-- The comma between entries in braces. -/
  | comma
  /-- The key of an entry follows. -/
  | key
  /-- The value of an entry follows. -/
  | value
  /-- A value. -/
  | node (value : Value)
deriving DecidableEq, Repr

/-- The number of bytes from the start of a key to its colon, at most. -/
abbrev keyLimit : Nat := 1024

/-- A part of the text that may turn out to be a key. -/
structure Candidate where
  /-- Where it starts. -/
  position : Position
  /-- It has to turn out to be a key. -/
  required : Bool
  /-- The number of tokens before it. -/
  before : Nat
deriving DecidableEq, Repr

/-- A candidate that starts here can still be followed by its colon there. -/
def Candidate.reaches (c : Candidate) (p : Position) : Bool :=
  c.position.line == p.line && p.width ≤ c.position.width + keyLimit

/-- The tokens of a text so far, and what is known of its outline. -/
structure Outline where
  /-- The tokens, last one first. -/
  tokens : List Token := []
  /-- The number of tokens. -/
  count : Nat := 0
  /-- The columns of the open lists of entries, innermost first. -/
  columns : List Nat := []
  /-- The candidates outside the braces that are open, innermost first. -/
  outer : List (Option Candidate) := []
  /-- The candidate that the next colon would belong to. -/
  candidate : Option Candidate := none
  /-- A candidate may start here. -/
  keyAllowed : Bool := true
deriving DecidableEq, Repr

namespace Outline

/-- The outline with more tokens, last one first. -/
def pushAll (o : Outline) (tokens : List Token) : Outline :=
  { o with tokens := tokens ++ o.tokens, count := o.count + tokens.length }

/-- The outline with one more token. -/
def push (o : Outline) (t : Token) : Outline :=
  { o with tokens := t :: o.tokens, count := o.count + 1 }

/-- Between braces, columns do not matter. -/
def inBraces (o : Outline) : Bool := !o.outer.isEmpty

/-- The column from which on a line belongs to the open value. -/
def depth (o : Outline) : Nat := o.columns.head?.elim 0 (· + 1)

/-- Gives up the candidate of the next colon, unless it has to turn out to be a key. -/
def abandon (o : Outline) : Option Outline :=
  match o.candidate with
  | some c => if c.required then none else some { o with candidate := none }
  | none => some o

/-- Gives up the candidate of the next colon if that colon does not stand at the given position or
before. -/
def retire (o : Outline) (p : Position) : Option Outline :=
  match o.candidate with
  | some c => if c.reaches p then some o else o.abandon
  | none => some o

/-- Makes what starts at the given position the candidate of the next colon, if one may start
there. -/
def nominate (o : Outline) (p : Position) : Option Outline :=
  if o.keyAllowed then
    let required := !o.inBraces && o.columns.head? == some p.column
    let candidate := { position := p, required, before := o.count }
    o.abandon.map fun o => { o with candidate := some candidate }
  else some o

/-- Entries in the given column start a list inside the open one. -/
def opens (o : Outline) (column : Nat) : Bool := !o.inBraces && o.depth ≤ column

/-- Starts a list of entries in the given column, unless they belong to the open list. -/
def enter (o : Outline) (column : Nat) : Outline :=
  if o.opens column then { o with columns := column :: o.columns }.push .blockStart else o

/-- Ends the lists of entries whose columns satisfy a condition. -/
def leave (o : Outline) (p : Nat → Bool) : Outline :=
  if o.inBraces then o
  else
    let ended := (o.columns.takeWhile p).map fun _ => Token.blockEnd
    { o with columns := o.columns.dropWhile p }.pushAll ended

/-- Ends everything, before the boundary of a document. -/
def endDocument (o : Outline) : Option Outline :=
  (o.leave fun _ => true).abandon.map fun o => { o with keyAllowed := false }

/-- Takes in an opening brace. -/
def openBraces (o : Outline) (p : Position) : Option Outline :=
  (o.nominate p).map fun o =>
    { o.push .flowStart with
      outer := o.candidate :: o.outer, candidate := none, keyAllowed := true }

/-- Takes in a closing brace. -/
def closeBraces (o : Outline) : Option Outline :=
  o.abandon.map fun o =>
    match o.outer with
    | candidate :: outer => { o.push .flowEnd with outer, candidate, keyAllowed := false }
    | [] => { o.push .flowEnd with keyAllowed := false }

/-- Takes in a comma between braces. -/
def takeComma (o : Outline) : Option Outline :=
  o.abandon.map fun o => { o.push .comma with keyAllowed := true }

/-- Takes in a question mark before a key. -/
def takeKey (o : Outline) (column : Nat) : Option Outline :=
  if o.inBraces || o.keyAllowed then
    (o.enter column).abandon.map fun o => { o.push .key with keyAllowed := !o.inBraces }
  else none

/-- Makes the candidate before a colon a key. -/
def confirm (o : Outline) (c : Candidate) : Outline :=
  let since := o.tokens.take (o.count - c.before)
  let before := { o with tokens := o.tokens.drop (o.count - c.before), count := c.before }
  let entered := (before.enter c.position.column).push .key
  { (entered.pushAll since).push .value with candidate := none, keyAllowed := false }

/-- Takes in a colon before a value. -/
def takeValue (o : Outline) (column : Nat) : Option Outline :=
  match o.candidate with
  | some c => some (o.confirm c)
  | none =>
    if o.inBraces || o.keyAllowed then
      let o := o.enter column
      some { o.push .value with keyAllowed := !o.inBraces }
    else none

/-- Takes in a scalar that starts at the given position. -/
def takeScalar (o : Outline) (p : Position) (v : Value) : Option Outline :=
  (o.nominate p).map fun o => { o.push (.node v) with keyAllowed := false }

/-- A line ends, after which a candidate may start unless braces are open. -/
def newLine (o : Outline) : Outline := { o with keyAllowed := o.keyAllowed || !o.inBraces }

end Outline

end ChipEight.Yaml
