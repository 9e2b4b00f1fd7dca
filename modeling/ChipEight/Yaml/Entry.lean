import ChipEight.Yaml.Collection

/-!
# Entries

A text holds one document, which is a collection of entries with scalars as their keys.  Directives
may stand before the mark for its start, and marks for its end behind it.  A text without anything
in it has no entries.
-/

namespace ChipEight.Yaml

/-- A key with its value. -/
structure Entry where
  /-- The key. -/
  key : String
  /-- The value as written. -/
  value : Value
deriving DecidableEq, Repr

namespace Entry

/-- The entries of a document after the mark for its start. -/
def ofMarked? : List Token → Option Pairs
  | [] => some ([], [])
  | .documentEnd :: rest => some ([], rest)
  | tokens => ofCollection? tokens

/-- The tokens after the directives and the mark for the start of a document; there is at most one
directive for the version and for each handle. -/
def afterDirectives? (versioned : Bool) (handles : List String) : List Token → Option (List Token)
  | .version :: rest => if versioned then none else afterDirectives? true handles rest
  | .handle name :: rest =>
    if name ∈ handles then none else afterDirectives? versioned (name :: handles) rest
  | .documentStart :: rest => some rest
  | _ => none

/-- The entries of a document. -/
def ofDocument? : List Token → Option Pairs
  | [] => some ([], [])
  | .blockStart :: rest => ofBlock? rest
  | .flowStart :: rest => ofFlow? true rest
  | tokens => (afterDirectives? false [] tokens).bind ofMarked?

/-- The entries of tokens that hold one document: nothing but marks for its end may follow it. -/
def ofTokens? (tokens : List Token) : Option (List Entry) := do
  let (pairs, rest) ← ofDocument? (← flatten? tokens)
  if rest.all (· == .documentEnd) then
    pairs.mapM fun (key, value) => key.text?.map fun key => ⟨key, value⟩
  else none

/-- The entries of a text, or nothing if it has another form. -/
def ofText? (text : String) : Option (List Entry) := (tokens? text).bind ofTokens?

/-- The entries of the text that bytes stand for, or nothing if they stand for no text. -/
def ofBytes? (bytes : List UInt8) : Option (List Entry) :=
  (String.fromUTF8? ⟨bytes.toArray⟩).bind ofText?

/-- The line that writes an entry with a plain value. -/
def line (e : Entry) : String := e.key ++ ": " ++ e.value.text?.getD "" ++ "\n"

end Entry

end ChipEight.Yaml
