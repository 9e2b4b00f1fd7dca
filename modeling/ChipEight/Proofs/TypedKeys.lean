import ChipEight.Console.Typing
import Mathlib.Data.List.TakeWhile

/-!
# Keys byte by byte

Typed keys are read in three layers: input is cut into lines, a line is decoded into characters, and
the characters are looked up.  The same keys come of looking up the bytes of the lines one by one.
A character that takes more than one byte in UTF-8 has no byte below 0x80, so that none of its bytes
looks like a digit.

Main results:

- `Console.filterMap_utf8EncodeChar`: a character stands for the key that its bytes stand for.
- `Console.typedKeys_eq_digitKeys`, `Console.digitKeys_of_isText`: the keys that an input stands
  for, byte by byte.
-/

namespace ChipEight

/-- The key that a byte stands for: a byte that is a hexadecimal digit in ASCII stands for the key
of that number. -/
def Key.ofByte? (byte : UInt8) : Option Key :=
  if 0x30 ≤ byte ∧ byte ≤ 0x39 then ofNumber? (byte - 0x30)
  else if 0x41 ≤ byte ∧ byte ≤ 0x46 then ofNumber? (byte - 0x41 + 10)
  else if 0x61 ≤ byte ∧ byte ≤ 0x66 then ofNumber? (byte - 0x61 + 10)
  else none

namespace Console

/-- The line is UTF-8. -/
def isText (line : List UInt8) : Bool := (lineText? line).isSome

/-- The keys that the bytes stand for on the lines before the first one that is not UTF-8. -/
def digitKeys (input : List UInt8) : List Key :=
  ((inputLines input).takeWhile isText).flatten.filterMap Key.ofByte?

/-! ## One character -/

/-- Within ASCII, a byte stands for the key that the character stands for. -/
theorem ofByte?_ofNat : ∀ n < 0x80, Key.ofByte? (UInt8.ofNat n) = Key.ofChar? (Char.ofNat n) := by
  decide

theorem ofByte?_of_le {byte : UInt8} (h : 0x80 ≤ byte.toNat) : Key.ofByte? byte = none := by
  have hdigit : ¬ byte ≤ 0x39 := fun hle => by
    have : byte.toNat ≤ 0x39 := hle
    omega
  have hcapital : ¬ byte ≤ 0x46 := fun hle => by
    have : byte.toNat ≤ 0x46 := hle
    omega
  have hsmall : ¬ byte ≤ 0x66 := fun hle => by
    have : byte.toNat ≤ 0x66 := hle
    omega
  rw [Key.ofByte?, if_neg fun h => hdigit h.2, if_neg fun h => hcapital h.2,
    if_neg fun h => hsmall h.2]

theorem ofChar?_of_le {c : Char} (h : 0x80 ≤ c.toNat) : Key.ofChar? c = none := by
  have hbeyond {last : Char} (hlast : last.toNat < 0x80) : ¬ c ≤ last := fun hle => by
    have : c.toNat ≤ last.toNat := hle
    omega
  have hvalue : Hex.digitValue? c = none := by
    rw [Hex.digitValue?, if_neg fun h => hbeyond (by decide) h.2,
      if_neg fun h => hbeyond (by decide) h.2, if_neg fun h => hbeyond (by decide) h.2]
  rw [Key.ofChar?, hvalue]
  rfl

theorem utf8EncodeChar_of_lt {c : Char} (h : c.toNat < 0x80) :
    String.utf8EncodeChar c = [UInt8.ofNat c.toNat] :=
  if_pos (Nat.le_of_lt_succ h)

/-- A character beyond ASCII has no byte in ASCII. -/
theorem le_toNat_of_mem_utf8EncodeChar {c : Char} (h : 0x80 ≤ c.toNat) {byte : UInt8}
    (hmem : byte ∈ String.utf8EncodeChar c) : 0x80 ≤ byte.toNat := by
  have hmore : ¬ c.val.toNat ≤ 0x7f := Nat.not_le.2 h
  -- Every byte is a number below a power of two on top of a mark that has the highest bit.
  have hmarked (bits : Nat) {n mark : Nat} (hmark : 0x80 ≤ mark) (hbits : bits + mark ≤ 0x100)
      (hn : n < bits) : 0x80 ≤ (UInt8.ofNat (n + mark)).toNat := by
    rw [UInt8.toNat_ofNat', Nat.mod_eq_of_lt (by omega)]
    omega
  unfold String.utf8EncodeChar at hmem
  simp only [if_neg hmore] at hmem
  split at hmem
  · simp only [List.mem_cons, List.not_mem_nil, or_false] at hmem
    rcases hmem with rfl | rfl
    · exact hmarked 0x20 (by decide) (by decide) (Nat.mod_lt _ (by decide))
    · exact hmarked 0x40 (by decide) (by decide) (Nat.mod_lt _ (by decide))
  · split at hmem
    · simp only [List.mem_cons, List.not_mem_nil, or_false] at hmem
      rcases hmem with rfl | rfl | rfl
      · exact hmarked 0x10 (by decide) (by decide) (Nat.mod_lt _ (by decide))
      all_goals exact hmarked 0x40 (by decide) (by decide) (Nat.mod_lt _ (by decide))
    · simp only [List.mem_cons, List.not_mem_nil, or_false] at hmem
      rcases hmem with rfl | rfl | rfl | rfl
      · exact hmarked 0x08 (by decide) (by decide) (Nat.mod_lt _ (by decide))
      all_goals exact hmarked 0x40 (by decide) (by decide) (Nat.mod_lt _ (by decide))

/-- A character stands for the key that its bytes stand for. -/
theorem filterMap_utf8EncodeChar (c : Char) :
    (String.utf8EncodeChar c).filterMap Key.ofByte? = (Key.ofChar? c).toList := by
  rcases Nat.lt_or_ge c.toNat 0x80 with hlt | hle
  · rw [utf8EncodeChar_of_lt hlt, List.filterMap_cons, ofByte?_ofNat _ hlt, Char.ofNat_toNat]
    cases Key.ofChar? c <;> rfl
  · rw [ofChar?_of_le hle]
    refine List.filterMap_eq_nil_iff.2 ?_
    intro byte hmem
    exact ofByte?_of_le (le_toNat_of_mem_utf8EncodeChar hle hmem)

/-! ## Lines -/

theorem filterMap_flatMap_utf8EncodeChar (cs : List Char) :
    (cs.flatMap String.utf8EncodeChar).filterMap Key.ofByte? = cs.filterMap Key.ofChar? := by
  induction cs with
  | nil => rfl
  | cons c cs ih =>
    rw [List.flatMap_cons, List.filterMap_append, filterMap_utf8EncodeChar, ih, List.filterMap_cons]
    cases Key.ofChar? c <;> rfl

/-- The bytes of a line that is text are those of its characters. -/
theorem eq_flatMap_of_lineText? {line : List UInt8} {text : String}
    (h : lineText? line = some text) : line = text.toList.flatMap String.utf8EncodeChar := by
  have hbytes : text.toByteArray = ⟨line.toArray⟩ := by
    unfold lineText? String.fromUTF8? at h
    split at h
    · cases h
      rfl
    · cases h
  have hencoded : (⟨line.toArray⟩ : ByteArray) = text.toList.utf8Encode := by
    rw [String.utf8Encode_toList, hbytes]
  have hdata := congrArg (fun bytes => bytes.data.toList) hencoded
  simpa [List.utf8Encode] using hdata

/-- The keys on a line that is text. -/
theorem keysOfText_eq_filterMap {line : List UInt8} {text : String}
    (h : lineText? line = some text) :
    keysOfText text = line.filterMap Key.ofByte? := by
  rw [eq_flatMap_of_lineText? h, filterMap_flatMap_utf8EncodeChar, keysOfText]

/-- The keys on a number of lines, byte by byte. -/
theorem keysOfLines_eq_filterMap (lines : List (List UInt8)) :
    keysOfLines lines = (lines.takeWhile isText).flatten.filterMap Key.ofByte? := by
  induction lines with
  | nil => rfl
  | cons line lines ih =>
    cases htext : lineText? line with
    | none =>
      have hstop : isText line = false := by rw [isText, htext]; rfl
      rw [List.takeWhile_cons_of_neg (by rw [hstop]; nofun)]
      simp only [keysOfLines, htext]
      rfl
    | some text =>
      have hgo : isText line = true := by rw [isText, htext]; rfl
      rw [List.takeWhile_cons_of_pos hgo, List.flatten_cons, List.filterMap_append, ← ih,
        ← keysOfText_eq_filterMap htext]
      simp only [keysOfLines, htext]

/-- The keys that an input stands for are those that its bytes stand for, on the lines before the
first one that is not UTF-8. -/
theorem typedKeys_eq_digitKeys (input : List UInt8) : typedKeys input = digitKeys input :=
  keysOfLines_eq_filterMap _

theorem flatten_inputLines_cons {byte : UInt8} (h : byte ≠ 0x0A) (rest : List UInt8) :
    (inputLines (byte :: rest)).flatten = byte :: (inputLines rest).flatten := by
  rw [inputLines, if_neg h]
  split
  · next hnone => rw [hnone]; rfl
  · next line lines hsome => rw [hsome]; rfl

/-- A line feed stands for no key. -/
theorem filterMap_flatten_inputLines (input : List UInt8) :
    (inputLines input).flatten.filterMap Key.ofByte? = input.filterMap Key.ofByte? := by
  induction input with
  | nil => rfl
  | cons byte rest ih =>
    by_cases hfeed : byte = 0x0A
    · have hnone : Key.ofByte? 0x0A = none := by decide
      rw [inputLines, if_pos hfeed, hfeed, List.flatten_cons, List.nil_append,
        List.filterMap_cons_none hnone, ih]
    · rw [flatten_inputLines_cons hfeed, List.filterMap_cons, ih, List.filterMap_cons]

/-- If all the input is UTF-8, it stands for the digits in it. -/
theorem digitKeys_of_isText {input : List UInt8}
    (h : ∀ line ∈ inputLines input, isText line = true) :
    digitKeys input = input.filterMap Key.ofByte? := by
  rw [digitKeys, List.takeWhile_eq_self_iff.2 h, filterMap_flatten_inputLines]

end Console

end ChipEight
