import ChipEight.Yaml.Tokens

/-!
# Collections

A collection holds entries, each of them a key with a value.  Its entries stand one below the other,
or between braces with commas between them.  A key or a value that is left out is an empty one.

A collection may be the key or the value of an entry of another one.  Such a collection is checked
by itself and from then on stands for one value, so that the outermost collection is read as if
there were only scalars in it.
-/

namespace ChipEight.Yaml

/-! ## One collection -/

/-- The keys and values of a collection, and the tokens after it. -/
abbrev Pairs := List (Value × Value) × List Token

/-- A value that is left out. -/
def omitted : Value := .plain ""

/-- The pairs with one more in front. -/
def Pairs.before (key value : Value) : Option Pairs → Option Pairs :=
  Option.map fun (pairs, rest) => ((key, value) :: pairs, rest)

/-- The entries that stand one below the other, behind the token for their start. -/
def ofBlock? : List Token → Option Pairs
  | .blockEnd :: rest => some ([], rest)
  | .key :: .node key :: .value :: .node value :: rest => Pairs.before key value (ofBlock? rest)
  | .key :: .node key :: .value :: rest => Pairs.before key omitted (ofBlock? rest)
  | .key :: .node key :: rest => Pairs.before key omitted (ofBlock? rest)
  | .key :: .value :: .node value :: rest => Pairs.before omitted value (ofBlock? rest)
  | .key :: .value :: rest => Pairs.before omitted omitted (ofBlock? rest)
  | .key :: rest => Pairs.before omitted omitted (ofBlock? rest)
  | _ => none

/-- The entries between braces, behind the first of them; the flag tells that an entry may come
next, and otherwise a comma has to come before it. -/
def ofFlow? : Bool → List Token → Option Pairs
  | _, .flowEnd :: rest => some ([], rest)
  | false, .comma :: rest => ofFlow? true rest
  | true, .key :: .node key :: .value :: .node value :: rest =>
    Pairs.before key value (ofFlow? false rest)
  | true, .key :: .node key :: .value :: rest => Pairs.before key omitted (ofFlow? false rest)
  | true, .key :: .node key :: rest => Pairs.before key omitted (ofFlow? false rest)
  | true, .key :: .value :: .node value :: rest => Pairs.before omitted value (ofFlow? false rest)
  | true, .key :: .value :: rest => Pairs.before omitted omitted (ofFlow? false rest)
  | true, .key :: rest => Pairs.before omitted omitted (ofFlow? false rest)
  | true, .node key :: rest => Pairs.before key omitted (ofFlow? false rest)
  | _, _ => none

/-- The entries of a collection, from the token for its start on. -/
def ofCollection? : List Token → Option Pairs
  | .blockStart :: rest => ofBlock? rest
  | .flowStart :: rest => ofFlow? true rest
  | _ => none

/-- The tokens are those of one collection. -/
def isCollection (tokens : List Token) : Bool :=
  match ofCollection? tokens with
  | some (_, []) => true
  | _ => false

/-! ## Collections inside others -/

/-- The token starts a collection. -/
def Token.opens (t : Token) : Bool := t == .blockStart || t == .flowStart

/-- The token ends a collection. -/
def Token.closes (t : Token) : Bool := t == .blockEnd || t == .flowEnd

/-- Makes one value of each collection inside another one, given the tokens of the collection that
is open and of those around it, innermost first, all of them last token first. -/
def flattenFrom? (inner : List Token) (outer : List (List Token)) :
    List Token → Option (List Token)
  | [] => if outer.isEmpty then some inner.reverse else none
  | t :: rest =>
    if t.opens then flattenFrom? [t] (inner :: outer) rest
    else if t.closes then
      match outer with
      | [] => none
      | [around] => flattenFrom? (t :: inner ++ around) [] rest
      | around :: outer =>
        if isCollection (t :: inner).reverse then
          flattenFrom? (.node .collection :: around) outer rest
        else none
    else flattenFrom? (t :: inner) outer rest

/-- The tokens of a text with one value for each collection inside another one. -/
def flatten? (tokens : List Token) : Option (List Token) := flattenFrom? [] [] tokens

end ChipEight.Yaml
