import ChipEight.Yaml.Gap

/-!
# Plain scalars

A scalar without quotes goes on over blanks and breaks, as long as its lines are indented deeply
enough.  It ends before a comment, before a colon that stands apart, before the boundary of a
document and, between braces, before the characters that structure a collection.
-/

namespace ChipEight.Yaml

/-- The characters that structure collections in braces. -/
def flowIndicators : List Char := [',', '[', ']', '\x7b', '\x7d']

/-- The characters that cannot start a plain scalar, whatever follows. -/
def indicators : List Char :=
  flowIndicators ++ ['#', '&', '*', '!', '|', '>', '\x27', '\x22', '%', '@', '\x60']

/-- A plain scalar may start like this; the flag tells that it stands between braces. -/
def startsPlain (flow : Bool) : List Char → Bool
  | [] => false
  | c :: cs =>
    if c = '-' then !(cs.head?.any isBlank)
    else if c = '?' ∨ c = ':' then !flow && !isApart cs
    else !isBlank c && !isBreak c && c ∉ indicators

/-- A scalar that was read, and what comes after it. -/
structure Read where
  /-- The characters of the scalar. -/
  text : String
  /-- The scalar was followed by white space that goes over the end of a line. -/
  brokeLine : Bool
  /-- Where reading goes on. -/
  next : Cursor
deriving DecidableEq, Repr

/-- What was read, when a plain scalar ends: the gap after the last word is not part of it. -/
def Words.ended (w : Words) (next : Cursor) : Read :=
  ⟨String.ofList w.text.reverse, w.gap.hasBreak, next⟩

/-- A word of a plain scalar cannot start here, after white space. -/
def barsWord (flow : Bool) (depth : Nat) (w : Words) (p : Position) (cs : List Char) : Bool :=
  w.gap.isPresent && (cs.head? == some '#' || (!flow && p.column < depth)) ||
    p.column == 0 && isBoundary cs

/-- A plain scalar ends before this character. -/
def endsPlain (flow : Bool) (c : Char) (cs : List Char) : Bool :=
  c == ':' && isApart cs || flow && c ∈ flowIndicators

/-- Between braces a colon must not run into a character that structures a collection. -/
def isMisplacedColon (flow : Bool) (c : Char) (cs : List Char) : Bool :=
  flow && c == ':' && cs.head?.any fun d => d ∈ '?' :: flowIndicators

/-- Reads on in a plain scalar whose lines have to be indented to the given depth; a tab must not be
part of that indentation. -/
def plainFrom (flow : Bool) (depth : Nat) (w : Words) (p : Position) : List Char → Option Read
  | [] => some (w.ended ⟨[], p⟩)
  | c :: cs =>
    if isBlank c || isBreak c then
      if c == '\t' && w.gap.hasBreak && p.column < depth then none
      else plainFrom flow depth (w.addSpace c) (p.after c) cs
    else if barsWord flow depth w p (c :: cs) then some (w.ended ⟨c :: cs, p⟩)
    else if isMisplacedColon flow c cs then none
    else if endsPlain flow c cs then some (w.ended ⟨c :: cs, p⟩)
    else plainFrom flow depth (w.add c) (p.after c) cs

/-- Reads a plain scalar. -/
def plain? (flow : Bool) (depth : Nat) (c : Cursor) : Option Read :=
  plainFrom flow depth {} c.position c.rest

end ChipEight.Yaml
