import ChipEight.Devices.Link
import ChipEight.Proofs.TypedKeys

/-!
# Keys line by line

Input is used as far as its lines are UTF-8.  A line feed is a character of one byte that is found
within no other character, so that bytes are UTF-8 exactly if all their lines are, and the input
that is used is the longest part at its start that ends with a line and is UTF-8 as a whole.  The
keys are the digits among the bytes of this part, and what two parts of an input stand for adds up
if the first of them ends with a line.

Main results:

- `Console.isText_append_iff`: bytes are UTF-8 if they are so before and behind a line feed.
- `Console.exists_readable`: the part of an input that is used, and the keys in it.
- `Console.typedKeys_append`: the keys in two parts of an input.
- `Link.acceptances_eq`: which presses find room in the queue.
- `typed_keys_digit_by_digit`: the keys that an input stands for, and what becomes of them in a
  queue.
-/

namespace ChipEight

namespace Key

/-! ## Digits -/

/-- A character stands for the key of which it is the digit in either case, and all others stand for
none. -/
theorem ofChar?_eq_some_iff {c : Char} {key : Key} :
    ofChar? c = some key ↔ c = key.digit ∨ c = key.digit.toLower := by
  constructor
  · intro h
    have hread : ∀ n < 0x80, ∀ key ∈ ofChar? (Char.ofNat n),
        Char.ofNat n = key.digit ∨ Char.ofNat n = key.digit.toLower := by decide
    rcases Nat.lt_or_ge c.toNat 0x80 with hlt | hle
    · rw [← Char.ofNat_toNat c] at h ⊢
      exact hread c.toNat hlt key h
    · rw [Console.ofChar?_of_le hle] at h
      cases h
  · have hwritten : ∀ n < 16, Hex.digitValue? (Hex.digit n) = some n ∧
        Hex.digitValue? (Hex.digit n).toLower = some n := by decide
    obtain ⟨hcapital, hsmall⟩ := hwritten key.number.toNat key.number_lt
    rintro (rfl | rfl)
    · simp [ofChar?, digit, hcapital]
    · simp [ofChar?, digit, hsmall]

/-- So do the bytes that encode these characters. -/
theorem ofByte?_eq_some_iff {byte : UInt8} {key : Key} :
    ofByte? byte = some key ↔
      byte.toNat = key.digit.toNat ∨ byte.toNat = key.digit.toLower.toNat := by
  have hdigits : ∀ n < 16, (Hex.digit n).toNat < 0x80 ∧ (Hex.digit n).toLower.toNat < 0x80 := by
    decide
  obtain ⟨hcapital, hsmall⟩ := hdigits key.number.toNat key.number_lt
  rcases Nat.lt_or_ge byte.toNat 0x80 with hlt | hle
  · have hchar : ∀ {d : Char}, Char.ofNat byte.toNat = d ↔ byte.toNat = d.toNat := by
      intro d
      have hcode : ∀ n < 0x80, (Char.ofNat n).toNat = n := by decide
      rw [← Char.toNat_inj, hcode byte.toNat hlt]
    have hbyte : ofByte? byte = ofChar? (Char.ofNat byte.toNat) := by
      rw [← Console.ofByte?_ofNat byte.toNat hlt, UInt8.ofNat_toNat]
    rw [hbyte, ofChar?_eq_some_iff, hchar, hchar]
  · rw [Console.ofByte?_of_le hle]
    simp only [digit, reduceCtorEq, false_iff]
    omega

end Key

namespace Console

/-! ## Text and line feeds -/

/-- Bytes are UTF-8 if they encode characters one after the other. -/
theorem isText_iff {bytes : List UInt8} :
    isText bytes = true ↔ ∃ cs : List Char, bytes = cs.flatMap String.utf8EncodeChar := by
  rw [isText, Option.isSome_iff_exists]
  constructor
  · rintro ⟨text, h⟩
    exact ⟨text.toList, eq_flatMap_of_lineText? h⟩
  · rintro ⟨cs, rfl⟩
    have hvalid : (⟨(cs.flatMap String.utf8EncodeChar).toArray⟩ : ByteArray).IsValidUTF8 := by
      refine ⟨cs, ByteArray.ext ?_⟩
      simp [List.utf8Encode]
    exact ⟨_, dif_pos hvalid⟩

theorem isText_nil : isText [] = true :=
  isText_iff.2 ⟨[], rfl⟩

/-- A line feed is found within no other character. -/
theorem eq_of_mem_utf8EncodeChar {c : Char} (h : 0x0A ∈ String.utf8EncodeChar c) : c = '\n' := by
  rcases Nat.lt_or_ge c.toNat 0x80 with hlt | hle
  · rw [utf8EncodeChar_of_lt hlt, List.mem_singleton] at h
    have hnat := congrArg UInt8.toNat h
    rw [UInt8.toNat_ofNat', Nat.mod_eq_of_lt (by omega)] at hnat
    exact Char.toNat_inj.1 hnat.symm
  · have := le_toNat_of_mem_utf8EncodeChar hle h
    exact absurd this (by decide)

/-- A line feed among the bytes of characters is that of a character. -/
theorem exists_of_flatMap_eq {cs : List Char} {first rest : List UInt8}
    (h : cs.flatMap String.utf8EncodeChar = first ++ 0x0A :: rest) :
    (∃ before, first = List.flatMap String.utf8EncodeChar before) ∧
      ∃ after, rest = List.flatMap String.utf8EncodeChar after := by
  induction cs generalizing first with
  | nil => simp at h
  | cons c cs ih =>
    rw [List.flatMap_cons, List.append_eq_append_iff] at h
    rcases h with ⟨more, rfl, hmore⟩ | ⟨more, hc, hrest⟩
    · -- The line feed comes behind the first character.
      obtain ⟨⟨before, rfl⟩, hafter⟩ := ih hmore
      exact ⟨⟨c :: before, by simp⟩, hafter⟩
    · cases more with
      | nil =>
        have hfeed : cs.flatMap String.utf8EncodeChar = [] ++ 0x0A :: rest := by
          simpa using hrest.symm
        obtain ⟨-, hafter⟩ := ih hfeed
        exact ⟨⟨[c], by simpa using hc.symm⟩, hafter⟩
      | cons byte more =>
        -- The line feed is in the first character, and is all of it.
        simp only [List.cons_append, List.cons.injEq] at hrest
        obtain ⟨rfl, rfl⟩ := hrest
        obtain rfl : c = '\n' := eq_of_mem_utf8EncodeChar (by simp [hc])
        have hlength := congrArg List.length hc
        simp [utf8EncodeChar_of_lt (c := '\n') (by decide)] at hlength
        obtain ⟨rfl, rfl⟩ : first = [] ∧ more = [] := by
          constructor <;> apply List.eq_nil_of_length_eq_zero <;> omega
        exact ⟨⟨[], rfl⟩, cs, rfl⟩

/-- Bytes are UTF-8 if they are so before and behind a line feed. -/
theorem isText_append_iff {first rest : List UInt8} :
    isText (first ++ 0x0A :: rest) = true ↔ isText first = true ∧ isText rest = true := by
  simp only [isText_iff]
  constructor
  · rintro ⟨cs, h⟩
    exact exists_of_flatMap_eq h.symm
  · rintro ⟨⟨before, rfl⟩, after, rfl⟩
    refine ⟨before ++ '\n' :: after, ?_⟩
    rw [List.flatMap_append, List.flatMap_cons, utf8EncodeChar_of_lt (c := '\n') (by decide)]
    rfl

/-! ## Lines -/

/-- An input is a line, or a line and a line feed and another input. -/
theorem lines_induction {motive : List UInt8 → Prop} (last : ∀ line, 0x0A ∉ line → motive line)
    (more : ∀ line rest, 0x0A ∉ line → motive rest → motive (line ++ 0x0A :: rest))
    (input : List UInt8) : motive input := by
  induction hlength : input.length using Nat.strong_induction_on generalizing input with
  | _ n ih =>
    by_cases hfeed : 0x0A ∈ input
    · obtain ⟨line, rest, rfl, hline⟩ := List.eq_append_cons_of_mem hfeed
      refine more line rest hline (ih rest.length ?_ rest rfl)
      simp at hlength
      omega
    · exact last input hfeed

theorem inputLines_append {line : List UInt8} (h : 0x0A ∉ line) (rest : List UInt8) :
    inputLines (line ++ 0x0A :: rest) = line :: inputLines rest := by
  induction line with
  | nil => simp [inputLines]
  | cons byte line ih =>
    rw [List.mem_cons, not_or] at h
    rw [List.cons_append, inputLines, if_neg (Ne.symm h.1), ih h.2]

theorem inputLines_of_notMem {line : List UInt8} (h : 0x0A ∉ line) :
    inputLines line = if line = [] then [] else [line] := by
  induction line with
  | nil => rfl
  | cons byte line ih =>
    rw [List.mem_cons, not_or] at h
    rw [inputLines, if_neg (Ne.symm h.1), ih h.2]
    cases line <;> simp

/-- Bytes are UTF-8 exactly if their lines are. -/
theorem isText_iff_forall_inputLines {input : List UInt8} :
    isText input = true ↔ ∀ line ∈ inputLines input, isText line = true := by
  induction input using lines_induction with
  | last line h =>
    rw [inputLines_of_notMem h]
    split
    · next hnil => simp [hnil, isText_nil]
    · simp
  | more line rest h ih => simp [isText_append_iff, inputLines_append h, ih]

/-! ## Keys -/

theorem typedKeys_of_isText {input : List UInt8} (h : isText input = true) :
    typedKeys input = input.filterMap Key.ofByte? := by
  rw [typedKeys_eq_digitKeys]
  exact digitKeys_of_isText (isText_iff_forall_inputLines.1 h)

/-- A line that is UTF-8 is used, and reading goes on behind it. -/
theorem typedKeys_line_append {line : List UInt8} (hline : 0x0A ∉ line) (htext : isText line = true)
    (rest : List UInt8) :
    typedKeys (line ++ 0x0A :: rest) = line.filterMap Key.ofByte? ++ typedKeys rest := by
  rw [typedKeys, typedKeys, keysOfLines_eq_filterMap, keysOfLines_eq_filterMap,
    inputLines_append hline, List.takeWhile_cons_of_pos htext, List.flatten_cons,
    List.filterMap_append]

/-- Reading ends at a line that is not UTF-8. -/
theorem typedKeys_of_not_isText {line : List UInt8} (hline : 0x0A ∉ line)
    (htext : isText line = false) :
    typedKeys line = [] ∧ ∀ rest, typedKeys (line ++ 0x0A :: rest) = [] := by
  have hstop : ∀ lines, ((line :: lines).takeWhile isText) = [] := by simp [htext]
  constructor
  · have hne : line ≠ [] := by
      rintro rfl
      simp [isText_nil] at htext
    rw [typedKeys, keysOfLines_eq_filterMap, inputLines_of_notMem hline, if_neg hne, hstop]
    rfl
  · intro rest
    rw [typedKeys, keysOfLines_eq_filterMap, inputLines_append hline, hstop]
    rfl

/-! ## Whole lines -/

/-- There is nothing behind the last line feed. -/
def EndsLine (bytes : List UInt8) : Prop := ∀ byte ∈ bytes.getLast?, byte = 0x0A

theorem EndsLine.nil_of_notMem {bytes : List UInt8} (h : EndsLine bytes) (hfeed : 0x0A ∉ bytes) :
    bytes = [] := by
  cases hlast : bytes.getLast? with
  | none => exact List.getLast?_eq_none_iff.1 hlast
  | some byte =>
    obtain rfl : byte = 0x0A := h byte hlast
    exact absurd (List.mem_of_getLast? hlast) hfeed

theorem endsLine_append_iff {line rest : List UInt8} :
    EndsLine (line ++ 0x0A :: rest) ↔ EndsLine rest := by
  cases rest with
  | nil => simp [EndsLine]
  | cons byte rest => simp [EndsLine, List.getLast?_cons]

/-- The keys in two parts of an input add up if the first of them ends with a line. -/
theorem typedKeys_append {first : List UInt8} (htext : isText first = true) (hends : EndsLine first)
    (rest : List UInt8) : typedKeys (first ++ rest) = typedKeys first ++ typedKeys rest := by
  induction first using lines_induction with
  | last line h =>
    rw [hends.nil_of_notMem h]
    rfl
  | more line more h ih =>
    obtain ⟨hline, hmore⟩ := isText_append_iff.1 htext
    have hrest := ih hmore (endsLine_append_iff.1 hends)
    rw [List.append_assoc, List.cons_append, typedKeys_line_append h hline,
      typedKeys_line_append h hline, hrest, List.append_assoc]

/-- A part at the start of an input can be used: it ends with a line or with the input, and it is
UTF-8. -/
structure Readable (front input : List UInt8) : Prop where
  begins : front <+: input
  whole : EndsLine front ∨ front = input
  text : isText front = true

theorem readable_nil (input : List UInt8) : Readable [] input where
  begins := List.nil_prefix
  whole := .inl nofun
  text := isText_nil

/-- What can be used of an input with a line feed is nothing, or starts with its first line. -/
theorem Readable.eq_nil_or_exists {line rest front : List UInt8} (hline : 0x0A ∉ line)
    (h : Readable front (line ++ 0x0A :: rest)) :
    front = [] ∨ ∃ more, front = line ++ 0x0A :: more ∧ isText line = true ∧
      Readable more rest := by
  have hfirst : line ++ [0x0A] <+: line ++ 0x0A :: rest := by simp
  rcases List.prefix_or_prefix_of_prefix h.begins hfirst with hshort | ⟨more, rfl⟩
  · rw [List.prefix_concat_iff] at hshort
    rcases hshort with rfl | hshort
    · have htext := isText_append_iff.1 h.text
      exact .inr ⟨[], rfl, htext.1, readable_nil rest⟩
    · have hfeed : 0x0A ∉ front := fun hmem => hline (hshort.subset hmem)
      rcases h.whole with hends | rfl
      · exact .inl (hends.nil_of_notMem hfeed)
      · simp at hfeed
  · have hmore : line ++ [0x0A] ++ more = line ++ 0x0A :: more := by simp
    rw [hmore] at h ⊢
    have htext := isText_append_iff.1 h.text
    refine .inr ⟨more, rfl, htext.1, ?_, ?_, htext.2⟩
    · simpa using h.begins
    · rcases h.whole with hends | heq
      · exact .inl (endsLine_append_iff.1 hends)
      · exact .inr (by simpa using heq)

theorem Readable.append {line rest front : List UInt8} (htext : isText line = true)
    (h : Readable front rest) : Readable (line ++ 0x0A :: front) (line ++ 0x0A :: rest) where
  begins := by simpa using h.begins
  whole := by
    rcases h.whole with hends | rfl
    · exact .inl (endsLine_append_iff.2 hends)
    · exact .inr rfl
  text := isText_append_iff.2 ⟨htext, h.text⟩

/-- There is a longest part at the start of an input that can be used, and the keys that the input
stands for are the digits in it. -/
theorem exists_readable (input : List UInt8) :
    ∃ front, Readable front input ∧ (∀ other, Readable other input → other <+: front) ∧
      typedKeys input = front.filterMap Key.ofByte? := by
  induction input using lines_induction with
  | last line hline =>
    cases htext : isText line with
    | true =>
      exact ⟨line, ⟨List.prefix_rfl, .inr rfl, htext⟩, fun _ h => h.begins,
        typedKeys_of_isText htext⟩
    | false =>
      refine ⟨[], readable_nil line, fun other h => ?_, (typedKeys_of_not_isText hline htext).1⟩
      rcases h.whole with hends | rfl
      · obtain rfl : other = [] := hends.nil_of_notMem fun hmem => hline (h.begins.subset hmem)
        exact List.prefix_rfl
      · simp [h.text] at htext
  | more line rest hline ih =>
    cases htext : isText line with
    | true =>
      obtain ⟨front, hfront, hlongest, hkeys⟩ := ih
      refine ⟨line ++ 0x0A :: front, hfront.append htext, fun other h => ?_, ?_⟩
      · rcases h.eq_nil_or_exists hline with rfl | ⟨more, rfl, -, hmore⟩
        · exact List.nil_prefix
        · simpa using hlongest more hmore
      · have hnone : Key.ofByte? 0x0A = none := by decide
        rw [typedKeys_line_append hline htext, hkeys, List.filterMap_append,
          List.filterMap_cons_none hnone]
    | false =>
      refine ⟨[], readable_nil _, fun other h => ?_, (typedKeys_of_not_isText hline htext).2 rest⟩
      rcases h.eq_nil_or_exists hline with rfl | ⟨more, rfl, hgood, -⟩
      · exact List.prefix_rfl
      · simp [hgood] at htext

end Console

/-! ## Presses -/

/-- Of keys that are pressed one after the other, the first are accepted for which there is room. -/
theorem Link.acceptances_eq {l : Link} (hdevices : l.devicesHeld = true) (keys : List Key) :
    l.acceptances keys =
      List.replicate (min (l.capacity - l.keys.length) keys.length) true ++
        List.replicate (keys.length - (l.capacity - l.keys.length)) false := by
  induction keys generalizing l with
  | nil => simp [acceptances]
  | cons key keys ih =>
    rw [acceptances]
    by_cases haccepts : l.Accepts
    · have hpress : l.press key = { l with keys := l.keys ++ [key] } := if_pos haccepts
      have hroom : l.capacity - l.keys.length = l.capacity - (l.keys.length + 1) + 1 := by
        have := haccepts.2
        omega
      have hrest := ih (l := { l with keys := l.keys ++ [key] }) hdevices
      rw [hpress, hrest, hroom, decide_eq_true haccepts]
      simp [Nat.add_min_add_right, List.replicate_succ]
    · have hpress : l.press key = l := if_neg haccepts
      have hfull : l.capacity - l.keys.length = 0 := by
        have : ¬ l.keys.length < l.capacity := fun hlt => haccepts ⟨hdevices, hlt⟩
        omega
      rw [hpress, ih hdevices, hfull, decide_eq_false haccepts]
      simp [List.replicate_succ]

/-! ## Typed keys -/

open Console in
/-- The keys that an input stands for are those of the digits, in order, in the longest part at its
start that ends with a line or with the input and is UTF-8.  A byte, like a character, stands for a
key if it is the key's digit in either case, and otherwise for none.  Bytes are UTF-8 exactly if all
their lines are, and of a line that is not UTF-8 nothing is used, nor of what follows it.  Of the
keys that are pressed into a queue the first are accepted for which it has room.  The keys in two
parts of an input add up if the first of them is UTF-8 and ends with a line. -/
theorem typed_keys_digit_by_digit :
    (∀ input, ∃ front, Readable front input ∧ (∀ other, Readable other input → other <+: front) ∧
      typedKeys input = front.filterMap Key.ofByte?) ∧
    (∀ byte key, Key.ofByte? byte = some key ↔
      byte.toNat = key.digit.toNat ∨ byte.toNat = key.digit.toLower.toNat) ∧
    (∀ c key, Key.ofChar? c = some key ↔ c = key.digit ∨ c = key.digit.toLower) ∧
    (∀ bytes, isText bytes = true ↔ ∀ line ∈ inputLines bytes, isText line = true) ∧
    (∀ front line rest, isText front = true → EndsLine front → 0x0A ∉ line → isText line = false →
      typedKeys (front ++ line) = front.filterMap Key.ofByte? ∧
        typedKeys (front ++ (line ++ 0x0A :: rest)) = front.filterMap Key.ofByte?) ∧
    (∀ capacity input, let link : Link := { capacity }
      let keys := typedKeys input
      (link.pressAll keys).keys = keys.take (min capacity keys.length) ∧
        link.acceptances keys = List.replicate (min capacity keys.length) true ++
          List.replicate (keys.length - capacity) false) ∧
    ∀ first rest, isText first = true → EndsLine first →
      typedKeys (first ++ rest) = typedKeys first ++ typedKeys rest := by
  refine ⟨exists_readable, fun _ _ => Key.ofByte?_eq_some_iff, fun _ _ => Key.ofChar?_eq_some_iff,
    fun _ => isText_iff_forall_inputLines, ?_, ?_,
    fun _ rest htext hends => typedKeys_append htext hends rest⟩
  · intro front line rest htext hends hline hbad
    obtain ⟨hnone, hnone'⟩ := typedKeys_of_not_isText hline hbad
    rw [typedKeys_append htext hends, typedKeys_append htext hends, hnone, hnone' rest,
      List.append_nil, typedKeys_of_isText htext]
    exact ⟨rfl, rfl⟩
  · intro capacity input link keys
    refine ⟨?_, link.acceptances_eq rfl keys⟩
    rw [link.pressAll_eq rfl, ← List.take_eq_take_min]
    rfl

open Console in
/-- A line with a digit, a character of two bytes and a carriage return; behind it a digit on a line
that is not UTF-8, and a line with another digit. -/
theorem typed_keys_digit_by_digit_mixed :
    ∃ front line rest : List UInt8,
      front = [0x61, 0xC3, 0xA9, 0x0D, 0x0A] ∧ line = [0x33, 0xFF] ∧ rest = [0x37] ∧
      isText front = true ∧ EndsLine front ∧ 0x0A ∉ line ∧ isText line = false ∧
      typedKeys (front ++ (line ++ 0x0A :: rest)) = [⟨10, by decide⟩] ∧
      typedKeys (front ++ rest) = typedKeys front ++ typedKeys rest := by
  obtain ⟨front, hfront⟩ : ∃ bytes : List UInt8, bytes = [0x61, 0xC3, 0xA9, 0x0D, 0x0A] := ⟨_, rfl⟩
  have htext : isText front = true := isText_iff.2 ⟨"aé\r\n".toList, by rw [hfront]; decide⟩
  have hends : EndsLine front := by simp [EndsLine, hfront]
  have hfeed : (0x0A : UInt8) ∉ [0x33, 0xFF] := by decide
  have hbad : isText [0x33, 0xFF] = false := by decide +kernel
  obtain ⟨-, -, -, -, hstop, -, hparts⟩ := typed_keys_digit_by_digit
  refine ⟨front, [0x33, 0xFF], [0x37], hfront, rfl, rfl, htext, hends, hfeed, hbad, ?_, ?_⟩
  · rw [(hstop front [0x33, 0xFF] [0x37] htext hends hfeed hbad).2, hfront]
    decide
  · exact hparts front [0x37] htext hends

end ChipEight
