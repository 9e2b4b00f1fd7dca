import ChipEight.Settings.Basic
import ChipEight.Yaml.Entry

/-!
# Reading settings

Settings are read from the entries of a text: each entry with the name of a choice replaces that
choice in the default settings, and entries with other keys do not matter.  An entry is refused if
its choice was made before, or if its value is not of the kind that the choice asks for.
-/

namespace ChipEight

open Yaml

namespace Settings

/-- A choice that an entry can make. -/
inductive Choice where
  /-- The number of columns of the screen. -/
  | screenWidth
  /-- The number of rows of the screen. -/
  | screenHeight
  /-- Whether instructions are paced. -/
  | throttle
  /-- The seed of the random bytes. -/
  | seed
  /-- The number of key presses that are queued. -/
  | keyBuffer
deriving DecidableEq, Repr

namespace Choice

/-- The key of the entries that make a choice. -/
def name : Choice → String
  | screenWidth => "screen_width"
  | screenHeight => "screen_height"
  | throttle => "throttle"
  | seed => "seed"
  | keyBuffer => "key_buffer"

/-- Every choice. -/
def all : List Choice := [screenWidth, screenHeight, throttle, seed, keyBuffer]

/-- The choice that entries with a key make. -/
def ofName? (key : String) : Option Choice := all.find? fun c => c.name == key

end Choice

/-- Why a settings text was refused. -/
inductive Refusal where
  /-- The text is not a list of entries. -/
  | malformed
  /-- A choice was made twice. -/
  | repeated (choice : Choice)
  /-- The value is not of the kind that the choice asks for. -/
  | wrongKind (choice : Choice)
deriving DecidableEq, Repr

/-- The wording of a refusal. -/
def Refusal.message : Refusal → String
  | .malformed => "expected a list of entries"
  | .repeated choice => s!"duplicate field {choice.name}"
  | .wrongKind choice => s!"invalid value for {choice.name}"

/-- A size as a setting: a number of 64 bits. -/
def sizeOf? (value : Value) : Option Nat := value.toUInt64?.map UInt64.toNat

/-- A seed as a setting: a number of 64 bits, or none. -/
def seedOf? (value : Value) : Option (Option UInt64) :=
  if value.isNull then some none else value.toUInt64?.map some

/-- Makes a choice, unless the value is not of the kind that the choice asks for. -/
def choose? (s : Settings) (value : Value) : Choice → Option Settings
  | .screenWidth => (sizeOf? value).map fun n => { s with screenWidth := n }
  | .screenHeight => (sizeOf? value).map fun n => { s with screenHeight := n }
  | .throttle => value.toBool?.map fun b => { s with throttle := b }
  | .seed => (seedOf? value).map fun n => { s with seed := n }
  | .keyBuffer => (sizeOf? value).map fun n => { s with keyBuffer := n }

/-- Makes the choices of entries, given the choices that were made before. -/
def overlay (s : Settings) (made : List Choice) : List Entry → Except Refusal Settings
  | [] => .ok s
  | entry :: rest =>
    match Choice.ofName? entry.key with
    | none => s.overlay made rest
    | some choice =>
      if choice ∈ made then .error (.repeated choice)
      else
        match s.choose? entry.value choice with
        | some s => s.overlay (choice :: made) rest
        | none => .error (.wrongKind choice)

/-- The default settings with the choices of entries. -/
def ofEntries (entries : List Entry) : Except Refusal Settings := overlay {} [] entries

/-- Reads settings from a text, given how it is split into entries. -/
def read {α : Type} (entries? : α → Option (List Entry)) (text : α) : Except Refusal Settings :=
  match entries? text with
  | some entries => ofEntries entries
  | none => .error .malformed

/-- Reads settings from a text. -/
def ofText : String → Except Refusal Settings := read Entry.ofText?

/-- The value that makes a choice as it is in the settings. -/
def valueOf (s : Settings) : Choice → Value
  | .screenWidth => .plain (toString s.screenWidth)
  | .screenHeight => .plain (toString s.screenHeight)
  | .throttle => .plain (if s.throttle then "true" else "false")
  | .seed => .plain (s.seed.elim "null" fun n => toString n.toNat)
  | .keyBuffer => .plain (toString s.keyBuffer)

/-- The entry that makes a choice as it is in the settings. -/
def entryOf (s : Settings) (choice : Choice) : Entry := ⟨choice.name, s.valueOf choice⟩

end Settings

end ChipEight
