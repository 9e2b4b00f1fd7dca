import ChipEight.Text.Hex
import ChipEight.Yaml.Gap

/-!
# Quoted scalars

A scalar in quotes may hold any characters and may go over several lines.  In single quotes a quote
is written twice.  In double quotes a backslash starts an escape: a letter that stands for a
character, a code of two, four or eight hexadecimal digits, or a break that is left out.
-/

namespace ChipEight.Yaml

/-- The kinds of quotes. -/
inductive Quote where
  /-- Single quotes. -/
  | single
  /-- Double quotes. -/
  | double
deriving DecidableEq, Repr

/-- The character at both ends of a scalar in quotes. -/
def Quote.mark : Quote → Char
  | single => '\x27'
  | double => '\x22'

/-- What the next character of a scalar in quotes is. -/
inductive QuotedState where
  /-- A character of the text. -/
  | text
  /-- The second of two quotes, which stand for one. -/
  | secondQuote
  /-- The character after a backslash. -/
  | escape
  /-- One of the digits of a code: how many follow it, and the value of those before it. -/
  | code (following value : Nat)
deriving DecidableEq, Repr

/-- The character that a letter stands for after a backslash. -/
def escaped? (c : Char) : Option Char :=
  [ ('0', '\x00'), ('a', '\x07'), ('b', '\x08'), ('t', '\t'), ('\t', '\t'), ('n', '\n'),
    ('v', '\x0B'), ('f', '\x0C'), ('r', '\r'), ('e', '\x1B'), (' ', ' '), ('\x22', '\x22'),
    ('/', '/'), ('\\', '\\'), ('N', '\u0085'), ('_', '\u00A0'), ('L', '\u2028'),
    ('P', '\u2029') ].lookup c

/-- The number of digits of a code that a letter announces after a backslash. -/
def codeLength? (c : Char) : Option Nat := [('x', 2), ('u', 4), ('U', 8)].lookup c

/-- The character with a given code, which must not be a surrogate. -/
def ofCode? (n : Nat) : Option Char := if n.isValidChar then some (Char.ofNat n) else none

/-- Takes in the character after a backslash. -/
def takeEscape? (w : Words) (c : Char) : Option (QuotedState × Words) :=
  if isBreak c then some (.text, w.addEscapedBreak)
  else
    match escaped? c, codeLength? c with
    | some d, _ => some (.text, w.add d)
    | none, some digits => some (.code (digits - 1) 0, w)
    | none, none => none

/-- Takes in a digit of a code. -/
def takeDigit? (w : Words) (following value : Nat) (c : Char) : Option (QuotedState × Words) := do
  let value := 16 * value + (← Hex.digitValue? c)
  match following with
  | 0 => return (.text, w.add (← ofCode? value))
  | n + 1 => return (.code n value, w)

/-- Takes in a character that does not end the scalar. -/
def takeQuoted? (quote : Quote) (w : Words) (c : Char) (following : List Char) :
    QuotedState → Option (QuotedState × Words)
  | .secondQuote => some (.text, w.add c)
  | .escape => takeEscape? w c
  | .code n value => takeDigit? w n value c
  | .text =>
    if isBlank c || isBreak c then some (.text, w.addSpace c)
    else if quote = .double ∧ c = '\\' then some (.escape, w)
    else if c = quote.mark ∧ following.head? = some c then some (.secondQuote, w)
    else some (.text, w.add c)

/-- The scalar ends with this character. -/
def endsQuoted (quote : Quote) (c : Char) (following : List Char) : QuotedState → Bool
  | .text => c == quote.mark && !(quote == .single && following.head? == some c)
  | _ => false

/-- Reads on in a scalar after its first quote; no line of it may be the boundary of a document. -/
def quotedFrom (quote : Quote) (state : QuotedState) (w : Words) (p : Position) :
    List Char → Option (String × Cursor)
  | [] => none
  | c :: cs =>
    if state = .text ∧ p.column = 0 ∧ isBoundary (c :: cs) then none
    else if endsQuoted quote c cs state then
      some (String.ofList w.closed.reverse, ⟨cs, p.after c⟩)
    else
      match takeQuoted? quote w c cs state with
      | some (state, w) => quotedFrom quote state w (p.after c) cs
      | none => none

/-- Reads a scalar in quotes, with the cursor behind its first quote. -/
def quoted? (quote : Quote) (c : Cursor) : Option (String × Cursor) :=
  quotedFrom quote .text {} c.position c.rest

end ChipEight.Yaml
