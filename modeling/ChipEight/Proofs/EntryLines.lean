import ChipEight.Yaml.Entry

/-!
# Lines of entries

A text with one line for each entry, on which a key of letters, digits and underscores, a colon, a
space and a value of the same characters stand, reads back as these entries.

From line to line a reader only gathers tokens: at the start of each line a key may start, no
candidate is left over, and the only open list of entries, from the first line on, is that in the
first column.  On a line it reads the key, which becomes the candidate of the colon, then the colon,
which makes it a key, and then the value, which ends with the line because the next line is not
indented.

Main results:

- `plainFrom_append`: a word in a plain scalar is read to its end.
- `Reader.tokens?_line`: what a reader gathers on one line.
- `Reader.tokens?_lines`: what it gathers on all lines that are left.
- `Entry.ofText?_lines`: lines read back.
-/

namespace ChipEight.Yaml

/-! ## Words -/

/-- A letter, a digit or an underscore. -/
def isWordCharacter (c : Char) : Bool := c.isAlphanum || c == '_'

/-- The characters are those of a word, and there is one. -/
structure IsWord (cs : List Char) : Prop where
  ne_nil : cs ≠ []
  characters : ∀ c ∈ cs, isWordCharacter c = true

variable {c d : Char} {cs following : List Char}

theorem IsWord.of_all (hne : cs ≠ []) (h : cs.all isWordCharacter = true) : IsWord cs :=
  ⟨hne, List.all_eq_true.1 h⟩

theorem ne_of_isWordCharacter (hc : isWordCharacter c = true) (hd : isWordCharacter d = false) :
    c ≠ d := by
  rintro rfl
  simp [hc] at hd

theorem notMem_of_isWordCharacter (hc : isWordCharacter c = true)
    (h : cs.any isWordCharacter = false) : c ∉ cs :=
  fun hmem => List.any_eq_false.1 h c hmem hc

theorem toNat_lt_of_isWordCharacter (hc : isWordCharacter c = true) : c.toNat < 0x80 := by
  have hupper (h : c.isUpper = true) : c.toNat ≤ 'Z'.toNat := (of_decide_eq_true h).2
  have hlower (h : c.isLower = true) : c.toNat ≤ 'z'.toNat :=
    of_decide_eq_true (Bool.and_eq_true_iff.1 h).2
  have hdigit (h : c.isDigit = true) : c.toNat ≤ '9'.toNat :=
    of_decide_eq_true (Bool.and_eq_true_iff.1 h).2
  rcases Bool.or_eq_true_iff.1 hc with halphanum | hunderscore
  · rcases Bool.or_eq_true_iff.1 halphanum with halpha | h
    · rcases Bool.or_eq_true_iff.1 halpha with h | h
      · exact Nat.lt_of_le_of_lt (hupper h) (by decide)
      · exact Nat.lt_of_le_of_lt (hlower h) (by decide)
    · exact Nat.lt_of_le_of_lt (hdigit h) (by decide)
  · rw [beq_iff_eq.1 hunderscore]
    decide

theorem isAllowed_of_isWordCharacter (hc : isWordCharacter c = true) : isAllowed c = true := by
  have hcode : ∀ n < 0x80, isWordCharacter (Char.ofNat n) = true →
      isAllowed (Char.ofNat n) = true := by decide
  have hlt := toNat_lt_of_isWordCharacter hc
  rw [← Char.ofNat_toNat c] at hc ⊢
  exact hcode c.toNat hlt hc

theorem isBlank_of_isWordCharacter (hc : isWordCharacter c = true) : isBlank c = false := by
  simp [isBlank, ne_of_isWordCharacter hc (d := ' ') rfl, ne_of_isWordCharacter hc (d := '\t') rfl]

theorem isBreak_of_isWordCharacter (hc : isWordCharacter c = true) : isBreak c = false := by
  simp [isBreak, ne_of_isWordCharacter hc (d := '\n') rfl,
    ne_of_isWordCharacter hc (d := '\u2028') rfl, ne_of_isWordCharacter hc (d := '\u2029') rfl]

theorem isMarker_of_ne {mark : Char} (h : c ≠ mark) : isMarker mark (c :: cs) = false := by
  unfold isMarker
  split
  · next heq =>
    cases heq
    simp [h]
  · rfl

theorem isBoundary_of_isWordCharacter (hc : isWordCharacter c = true) :
    isBoundary (c :: cs) = false := by
  simp [isBoundary, isMarker_of_ne (ne_of_isWordCharacter hc (d := '-') rfl),
    isMarker_of_ne (ne_of_isWordCharacter hc (d := '.') rfl)]

/-! ## Positions -/

/-- The position behind a number of characters of one byte on the same line. -/
def Position.along (p : Position) (n : Nat) : Position :=
  { p with column := p.column + n, width := p.width + n }

theorem Position.after_of_isWordCharacter (p : Position) (hc : isWordCharacter c = true) :
    p.after c = p.along 1 := by
  have hsize : c.utf8Size = 1 :=
    Char.utf8Size_eq_one_iff.2 (Nat.le_of_lt_succ (toNat_lt_of_isWordCharacter hc))
  simp [after, along, isBreak_of_isWordCharacter hc, hsize]

theorem Position.along_along (p : Position) (m n : Nat) :
    (p.along m).along n = p.along (m + n) := by
  simp [along, Nat.add_assoc]

/-! ## Plain scalars -/

variable {flow : Bool} {depth : Nat} {text : List Char} {p : Position}

/-- A word in a plain scalar is read to its end. -/
theorem plainFrom_append (h : ∀ c ∈ cs, isWordCharacter c = true) (rest : List Char) :
    plainFrom flow depth { text } p (cs ++ rest) =
      plainFrom flow depth { text := cs.reverse ++ text } (p.along cs.length) rest := by
  induction cs generalizing text p with
  | nil => rfl
  | cons c cs ih =>
    have hc : isWordCharacter c = true := h c (by simp)
    have hcolon : c ≠ ':' := ne_of_isWordCharacter hc rfl
    have hflow : c ∉ flowIndicators := notMem_of_isWordCharacter hc (by decide)
    have hbars : barsWord flow depth { text } p (c :: (cs ++ rest)) = false := by
      simp [barsWord, Gap.empty, Gap.isPresent, isBoundary_of_isWordCharacter hc]
    have hmisplaced : isMisplacedColon flow c (cs ++ rest) = false := by
      simp [isMisplacedColon, hcolon]
    have hends : endsPlain flow c (cs ++ rest) = false := by
      simp [endsPlain, hcolon, hflow]
    have hadd : Words.add { text } c = { text := c :: text } := rfl
    rw [List.cons_append, plainFrom, isBlank_of_isWordCharacter hc, isBreak_of_isWordCharacter hc]
    simp only [Bool.or_false, Bool.false_eq_true, if_false, hbars, hmisplaced, hends]
    rw [hadd, p.after_of_isWordCharacter hc, ih fun d hd => h d (by simp [hd]),
      Position.along_along]
    simp [Nat.add_comm]

/-- A plain scalar outside braces ends at a colon with a space behind it. -/
theorem plainFrom_colon (rest : List Char) :
    plainFrom false depth { text } p (':' :: ' ' :: rest) =
      some ⟨String.ofList text.reverse, false, ⟨':' :: ' ' :: rest, p⟩⟩ := by
  have hboundary : isBoundary (':' :: ' ' :: rest) = false := by
    simp [isBoundary, isMarker_of_ne (show ':' ≠ '-' by decide),
      isMarker_of_ne (show ':' ≠ '.' by decide)]
  have hbars : barsWord false depth { text } p (':' :: ' ' :: rest) = false := by
    simp [barsWord, Gap.empty, Gap.isPresent, hboundary]
  have hends : endsPlain false ':' (' ' :: rest) = true := by
    simp [endsPlain, isApart, isBlank]
  rw [plainFrom, if_neg (by decide), hbars, hends]
  rfl

/-- It ends with its line if the next one is not indented as deeply. -/
theorem plainFrom_break {rest : List Char} (hdepth : 0 < depth)
    (hrest : ∀ c ∈ rest.head?, isWordCharacter c = true) :
    plainFrom false depth { text } p ('\n' :: rest) =
      some ⟨String.ofList text.reverse, true, ⟨rest, { line := p.line + 1 }⟩⟩ := by
  have hspace : Words.addSpace { text } '\n' = { text, gap := .breaks (some '\n') [] } := rfl
  have hafter : p.after '\n' = { line := p.line + 1 } := rfl
  rw [plainFrom, if_pos (by decide), if_neg (by simp), hspace, hafter]
  cases rest with
  | nil => rfl
  | cons c rest =>
    have hc : isWordCharacter c = true := hrest c rfl
    have hbars :
        barsWord false depth { text, gap := .breaks (some '\n') [] } { line := p.line + 1 }
          (c :: rest) = true := by
      simp [barsWord, Gap.isPresent, hdepth]
    rw [plainFrom, isBlank_of_isWordCharacter hc, isBreak_of_isWordCharacter hc, if_neg (by decide),
      hbars]
    rfl

theorem startsPlain_of_isWordCharacter (hc : isWordCharacter c = true) :
    startsPlain flow (c :: cs) = true := by
  have hindicators : c ∉ indicators := notMem_of_isWordCharacter hc (by decide)
  simp [startsPlain, ne_of_isWordCharacter hc (d := '-') rfl,
    ne_of_isWordCharacter hc (d := '?') rfl, ne_of_isWordCharacter hc (d := ':') rfl,
    isBlank_of_isWordCharacter hc, isBreak_of_isWordCharacter hc, hindicators]

/-! ## Tokens on a line -/

namespace Reader

/-- What a word starts is a plain scalar. -/
theorem take_of_isWordCharacter (r : Reader) (hc : isWordCharacter c = true) :
    r.take c following = r.takePlain := by
  have hne : ∀ {d : Char}, isWordCharacter d = false → c ≠ d := ne_of_isWordCharacter hc
  simp [take, isMarker_of_ne (hne (d := '-') rfl), isMarker_of_ne (hne (d := '.') rfl),
    hne (d := '%') rfl, hne (d := '\x7b') rfl, hne (d := '\x7d') rfl, hne (d := ',') rfl,
    hne (d := '-') rfl, hne (d := '?') rfl, hne (d := ':') rfl,
    hne (d := Quote.single.mark) rfl, hne (d := Quote.double.mark) rfl,
    startsPlain_of_isWordCharacter hc]

/-- A colon with a space behind it comes before a value. -/
theorem take_colon {r : Reader} {o : Outline} {rest : List Char}
    (h : r.outline.takeValue r.cursor.position.column = some o) :
    r.take ':' (' ' :: rest) = some ⟨r.cursor.skip 1, o⟩ := by
  have hapart : isApart (' ' :: rest) = true := rfl
  simp [take, isMarker_of_ne (show ':' ≠ '-' by decide), isMarker_of_ne (show ':' ≠ '.' by decide),
    hapart, h]

/-- Nothing stands between tokens before a word. -/
theorem skipFrom_of_isWordCharacter (hc : isWordCharacter c = true) (o : Outline) (p : Position) :
    skipFrom false o p (c :: cs) = ⟨⟨c :: cs, p⟩, o⟩ := by
  simp [skipFrom, isBreak_of_isWordCharacter hc, ne_of_isWordCharacter hc (d := byteOrderMark) rfl,
    ne_of_isWordCharacter hc (d := '#') rfl, ne_of_isWordCharacter hc (d := ' ') rfl,
    ne_of_isWordCharacter hc (d := '\t') rfl]

end Reader

/-- The outline at the start of a line, given the columns of the open lists of entries and the
tokens before. -/
def Outline.ready (columns : List Nat) (tokens : List Token) : Outline :=
  { tokens, count := tokens.length, columns }

/-- The outline behind a key on the given line. -/
def Outline.named (line : Nat) (columns : List Nat) (tokens : List Token) (key : String) :
    Outline :=
  { ready columns tokens with
    tokens := .node (.plain key) :: tokens
    count := tokens.length + 1
    candidate :=
      some { position := { line }, required := columns.head? == some 0, before := tokens.length }
    keyAllowed := false }

/-- The tokens before an entry, where the first entry starts the list. -/
def opened (columns : List Nat) (tokens : List Token) : List Token :=
  if columns = [] then .blockStart :: tokens else tokens

/-- The outline behind a colon. -/
def Outline.awaiting (tokens : List Token) : Outline :=
  { ready [0] tokens with keyAllowed := false }

/-- No list of entries that starts in the first column ends within a line. -/
theorem Outline.leave_of_forall_eq_zero {o : Outline} (h : ∀ n ∈ o.columns, n = 0) (column : Nat) :
    (o.leave fun n => column < n) = o := by
  have hstays : o.columns.takeWhile (fun n => column < n) = [] ∧
      o.columns.dropWhile (fun n => column < n) = o.columns := by
    cases hcolumns : o.columns with
    | nil => simp
    | cons n columns => simp [h n (by simp [hcolumns])]
  simp [leave, hstays, pushAll]

namespace Reader

variable {columns : List Nat} {tokens : List Token} {key value rest : List Char} {line n : Nat}

/-- Coming to the next token, if no candidate is given up on the way. -/
theorem approach_eq {o : Outline} {q : Position} (hcolumns : ∀ n ∈ o.columns, n = 0)
    (hskip : skipFrom false o p cs = ⟨⟨following, q⟩, o⟩) (hretire : o.retire q = some o) :
    approach ⟨⟨cs, p⟩, o⟩ = some ⟨⟨following, q⟩, o⟩ := by
  simp [approach, skip, hskip, hretire, Outline.leave_of_forall_eq_zero hcolumns]

/-- The key of a line becomes the candidate of the next colon. -/
theorem tokens?_key (hcolumns : ∀ n ∈ columns, n = 0) (hkey : IsWord key) :
    tokens? ⟨⟨key ++ ':' :: ' ' :: rest, { line }⟩, .ready columns tokens⟩ (n + 1) =
      tokens? ⟨⟨':' :: ' ' :: rest, { line, column := key.length, width := key.length }⟩,
        .named line columns tokens (String.ofList key)⟩ n := by
  obtain ⟨c, cs, rfl⟩ := List.exists_cons_of_ne_nil hkey.ne_nil
  have hc : isWordCharacter c = true := hkey.characters c (by simp)
  have happroach : approach ⟨⟨c :: cs ++ ':' :: ' ' :: rest, { line }⟩, .ready columns tokens⟩ =
      some ⟨⟨c :: cs ++ ':' :: ' ' :: rest, { line }⟩, .ready columns tokens⟩ :=
    approach_eq hcolumns (skipFrom_of_isWordCharacter hc _ _) rfl
  have hplain (depth : Nat) : plain? false depth ⟨c :: cs ++ ':' :: ' ' :: rest, { line }⟩ =
      some ⟨String.ofList (c :: cs), false,
        ⟨':' :: ' ' :: rest, { line, column := (c :: cs).length, width := (c :: cs).length }⟩⟩ := by
    simp only [plain?, plainFrom_append hkey.characters, plainFrom_colon]
    simp [Position.along]
  rw [tokens?, happroach]
  simp only [Option.bind_eq_bind, Option.bind_some, List.cons_append, take_of_isWordCharacter _ hc]
  rw [← List.cons_append, takePlain]
  simp only [Outline.inBraces, Outline.ready, List.isEmpty_nil, Bool.not_true]
  rw [hplain]
  simp [Outline.takeScalar, Outline.nominate, Outline.abandon, Outline.inBraces, Outline.push,
    Outline.named, Outline.ready]

/-- The colon behind a key tells that it is one. -/
theorem tokens?_colon {key : String} {width : Nat} (hcolumns : columns = [] ∨ columns = [0])
    (hwidth : width ≤ keyLimit) :
    tokens? ⟨⟨':' :: ' ' :: rest, { line, column := width, width }⟩,
        .named line columns tokens key⟩ (n + 1) =
      tokens? ⟨⟨' ' :: rest, { line, column := width + 1, width := width + 1 }⟩,
        .awaiting (.value :: .node (.plain key) :: .key :: opened columns tokens)⟩ n := by
  have hzero : ∀ n ∈ columns, n = 0 := by rcases hcolumns with rfl | rfl <;> simp
  have hreaches : (Outline.named line columns tokens key).retire { line, column := width, width } =
      some (.named line columns tokens key) := by
    simp [Outline.retire, Outline.named, Candidate.reaches, hwidth]
  have hskip :
      skipFrom false (.named line columns tokens key) { line, column := width, width }
        (':' :: ' ' :: rest) =
      ⟨⟨':' :: ' ' :: rest, { line, column := width, width }⟩, .named line columns tokens key⟩ := by
    simp [skipFrom, isBreak, byteOrderMark]
  have hconfirm : (Outline.named line columns tokens key).takeValue width =
      some (.awaiting (.value :: .node (.plain key) :: .key :: opened columns tokens)) := by
    rcases hcolumns with rfl | rfl <;>
      simp [Outline.takeValue, Outline.named, Outline.confirm, Outline.ready, Outline.enter,
        Outline.opens, Outline.inBraces, Outline.depth, Outline.push, Outline.pushAll,
        Outline.awaiting, opened]
  rw [tokens?, approach_eq hzero hskip hreaches]
  simp only [Option.bind_eq_bind, Option.bind_some]
  rw [take_colon hconfirm]
  simp [Cursor.skip, Position.after, isBreak, Char.utf8Size]

/-- The value of an entry ends with its line. -/
theorem tokens?_value (hvalue : IsWord value) (hrest : ∀ c ∈ rest.head?, isWordCharacter c = true)
    {width : Nat} :
    tokens? ⟨⟨' ' :: value ++ '\n' :: rest, { line, column := width, width }⟩,
        .awaiting tokens⟩ (n + 1) =
      tokens? ⟨⟨rest, { line := line + 1 }⟩,
        .ready [0] (.node (.plain (String.ofList value)) :: tokens)⟩ n := by
  obtain ⟨c, cs, rfl⟩ := List.exists_cons_of_ne_nil hvalue.ne_nil
  have hc : isWordCharacter c = true := hvalue.characters c (by simp)
  obtain ⟨p, hp⟩ : ∃ p : Position, p = { line, column := width + 1, width := width + 1 } := ⟨_, rfl⟩
  have hskip :
      skipFrom false (.awaiting tokens) { line, column := width, width }
        (' ' :: c :: cs ++ '\n' :: rest) =
      ⟨⟨c :: cs ++ '\n' :: rest, p⟩, .awaiting tokens⟩ := by
    rw [List.cons_append, List.cons_append, skipFrom, hp]
    simp [isBreak, byteOrderMark, skipFrom_of_isWordCharacter hc, Position.after, Char.utf8Size]
  have hplain : plain? false 1 ⟨c :: cs ++ '\n' :: rest, p⟩ =
      some ⟨String.ofList (c :: cs), true, ⟨rest, { line := line + 1 }⟩⟩ := by
    simp only [plain?, plainFrom_append hvalue.characters]
    rw [plainFrom_break (by decide) hrest, hp]
    simp [Position.along]
  rw [tokens?, approach_eq (by simp [Outline.awaiting, Outline.ready]) hskip rfl]
  simp only [Option.bind_eq_bind, Option.bind_some, List.cons_append, take_of_isWordCharacter _ hc]
  rw [← List.cons_append, takePlain]
  simp only [Outline.inBraces, Outline.awaiting, Outline.ready, List.isEmpty_nil, Bool.not_true,
    Outline.depth, List.head?_cons, Option.elim_some, Nat.zero_add]
  rw [hplain]
  simp [Outline.takeScalar, Outline.nominate, Outline.push]

end Reader

/-! ## Lines -/

namespace Entry

/-- The entry can be written on a line of its own. -/
structure OnLine (e : Entry) : Prop where
  key : IsWord e.key.toList
  short : e.key.toList.length ≤ keyLimit
  value : ∃ text, e.value = .plain text ∧ IsWord text.toList

/-- The tokens of an entry. -/
def tokens (e : Entry) : List Token := [.key, .node (.plain e.key), .value, .node e.value]

variable {e : Entry} {es : List Entry}

theorem toList_line {text : String} (h : e.value = .plain text) :
    e.line.toList = e.key.toList ++ ':' :: ' ' :: text.toList ++ ['\n'] := by
  simp [line, h, Value.text?]

theorem OnLine.isWordCharacter_head (h : e.OnLine) :
    ∀ c ∈ e.line.toList.head?, isWordCharacter c = true := by
  obtain ⟨text, hvalue, -⟩ := h.value
  obtain ⟨c, cs, hkey⟩ := List.exists_cons_of_ne_nil h.key.ne_nil
  have hc : isWordCharacter c = true := h.key.characters c (by simp [hkey])
  simp [toList_line hvalue, hkey, hc]

theorem isWordCharacter_head_lines (h : ∀ e ∈ es, e.OnLine) :
    ∀ c ∈ (es.flatMap fun e => e.line.toList).head?, isWordCharacter c = true := by
  cases es with
  | nil => simp
  | cons e es =>
    have hhead := (h e (by simp)).isWordCharacter_head
    intro c hc
    obtain ⟨d, cs, hline⟩ := List.exists_cons_of_ne_nil (l := e.line.toList) (by simp [line])
    simp only [List.flatMap_cons, hline] at hc hhead
    exact hhead c hc

end Entry

namespace Reader

variable {e : Entry} {es : List Entry} {columns : List Nat} {tokens : List Token} {rest : List Char}
  {line n : Nat}

/-- What a reader gathers on one line. -/
theorem tokens?_line (h : e.OnLine) (hcolumns : columns = [] ∨ columns = [0])
    (hrest : ∀ c ∈ rest.head?, isWordCharacter c = true) :
    tokens? ⟨⟨e.line.toList ++ rest, { line }⟩, .ready columns tokens⟩ (n + 3) =
      tokens? ⟨⟨rest, { line := line + 1 }⟩,
        .ready [0] (e.tokens.reverse ++ opened columns tokens)⟩ n := by
  obtain ⟨text, hvalue, hword⟩ := h.value
  have hline : e.line.toList ++ rest =
      e.key.toList ++ ':' :: ' ' :: (text.toList ++ '\n' :: rest) := by
    simp [Entry.toList_line hvalue]
  have hzero : ∀ n ∈ columns, n = 0 := by rcases hcolumns with rfl | rfl <;> simp
  rw [hline, tokens?_key hzero h.key, tokens?_colon hcolumns h.short, ← List.cons_append,
    tokens?_value hword hrest]
  simp [Entry.tokens, hvalue]

/-- What a reader gathers on all lines that are left. -/
theorem tokens?_lines (h : ∀ e ∈ es, e.OnLine) :
    tokens? ⟨⟨es.flatMap fun e => e.line.toList, { line }⟩, .ready [0] tokens⟩
        (3 * es.length + n + 1) =
      some (tokens.reverse ++ es.flatMap Entry.tokens ++ [.blockEnd]) := by
  induction es generalizing line tokens with
  | nil =>
    have hskip : skipFrom false (.ready [0] tokens) { line } [] =
        ⟨⟨[], { line }⟩, .ready [0] tokens⟩ := rfl
    rw [List.length_nil, Nat.mul_zero, Nat.zero_add, List.flatMap_nil, tokens?,
      approach_eq (by simp [Outline.ready]) hskip rfl]
    simp [Outline.ready, Outline.endDocument, Outline.leave, Outline.inBraces, Outline.pushAll,
      Outline.abandon]
  | cons e es ih =>
    have hes : ∀ e ∈ es, e.OnLine := fun e he => h e (by simp [he])
    have hfuel : 3 * (e :: es).length + n + 1 = 3 * es.length + n + 1 + 3 := by
      rw [List.length_cons]
      omega
    rw [hfuel, List.flatMap_cons,
      tokens?_line (h e (by simp)) (.inr rfl) (Entry.isWordCharacter_head_lines hes), ih hes]
    simp [opened]

end Reader

/-! ## Reading back -/

variable {es : List Entry}

/-- Collections have no others inside them if no token starts or ends one. -/
theorem flattenFrom?_append {ts inner rest : List Token} {outer : List (List Token)}
    (h : ∀ t ∈ ts, t.opens = false ∧ t.closes = false) :
    flattenFrom? inner outer (ts ++ rest) = flattenFrom? (ts.reverse ++ inner) outer rest := by
  induction ts generalizing inner with
  | nil => rfl
  | cons t ts ih =>
    obtain ⟨hopens, hcloses⟩ := h t (by simp)
    simp [flattenFrom?, hopens, hcloses, ih fun u hu => h u (by simp [hu])]

theorem flatten?_entries (es : List Entry) :
    flatten? (.blockStart :: es.flatMap Entry.tokens ++ [.blockEnd]) =
      some (.blockStart :: es.flatMap Entry.tokens ++ [.blockEnd]) := by
  have hinside : ∀ t ∈ es.flatMap Entry.tokens, t.opens = false ∧ t.closes = false := by
    intro t ht
    obtain ⟨e, -, ht⟩ := List.mem_flatMap.1 ht
    simp only [Entry.tokens, List.mem_cons, List.not_mem_nil, or_false] at ht
    rcases ht with rfl | rfl | rfl | rfl <;> exact ⟨rfl, rfl⟩
  simp [flatten?, flattenFrom?, Token.opens, Token.closes, flattenFrom?_append hinside]

/-- The entries of a list are those that its tokens were made of. -/
theorem ofBlock?_entries (es : List Entry) :
    ofBlock? (es.flatMap Entry.tokens ++ [.blockEnd]) =
      some (es.map fun e => (.plain e.key, e.value), []) := by
  induction es with
  | nil => rfl
  | cons e es ih => simp [Entry.tokens, ofBlock?, ih, Pairs.before]

namespace Entry

theorem ofTokens?_entries (es : List Entry) :
    ofTokens? (.blockStart :: es.flatMap tokens ++ [.blockEnd]) = some es := by
  have hkeys : (es.map fun e => (Value.plain e.key, e.value)).mapM
      (fun pair => pair.1.text?.map fun key => (⟨key, pair.2⟩ : Entry)) = some es := by
    induction es with
    | nil => rfl
    | cons e es ih =>
      rw [List.map_cons, List.mapM_cons, ih]
      rfl
  rw [ofTokens?, flatten?_entries]
  simp [ofDocument?, ofBlock?_entries, hkeys]

/-! ## Texts -/

/-- The characters of a line are those of words, a colon, a space and a line feed. -/
theorem OnLine.mem_line {e : Entry} (h : e.OnLine) {c : Char} (hc : c ∈ e.line.toList) :
    isWordCharacter c = true ∨ c ∈ [':', ' ', '\n'] := by
  obtain ⟨text, hvalue, hword⟩ := h.value
  simp only [toList_line hvalue, List.mem_append, List.mem_cons, List.not_mem_nil, or_false] at hc
  rcases hc with (hc | rfl | rfl | hc) | rfl
  · exact .inl (h.key.characters c hc)
  · simp
  · simp
  · exact .inl (hword.characters c hc)
  · simp

theorem mem_lines (h : ∀ e ∈ es, e.OnLine) {c : Char} (hc : c ∈ es.flatMap fun e => e.line.toList) :
    isWordCharacter c = true ∨ c ∈ [':', ' ', '\n'] := by
  obtain ⟨e, he, hc⟩ := List.mem_flatMap.1 hc
  exact (h e he).mem_line hc

theorem all_isAllowed_lines (h : ∀ e ∈ es, e.OnLine) :
    (es.flatMap fun e => e.line.toList).all isAllowed = true := by
  have hmarks : [':', ' ', '\n'].all isAllowed = true := by decide
  rw [List.all_eq_true]
  intro c hc
  rcases mem_lines h hc with hword | hmark
  · exact isAllowed_of_isWordCharacter hword
  · exact List.all_eq_true.1 hmarks c hmark

theorem withLineFeeds_eq_self {cs : List Char} (h : ∀ c ∈ cs, c ≠ '\r' ∧ c ≠ '\u0085') :
    withLineFeeds cs = cs := by
  induction cs with
  | nil => rfl
  | cons c cs ih =>
    obtain ⟨hreturn, hnext⟩ := h c (by simp)
    have hrest := ih fun d hd => h d (by simp [hd])
    unfold withLineFeeds
    split
    · next heq => simp at heq
    · next heq => simp_all
    · next heq =>
      cases heq
      simp [hreturn, hnext, hrest]

theorem withLineFeeds_lines (h : ∀ e ∈ es, e.OnLine) :
    withLineFeeds (es.flatMap fun e => e.line.toList) = es.flatMap fun e => e.line.toList := by
  apply withLineFeeds_eq_self
  intro c hc
  rcases mem_lines h hc with hword | hmark
  · exact ⟨ne_of_isWordCharacter hword rfl, ne_of_isWordCharacter hword rfl⟩
  · constructor <;> rintro rfl <;> simp at hmark

theorem length_lines_ge (h : ∀ e ∈ es, e.OnLine) :
    3 * es.length ≤ (es.flatMap fun e => e.line.toList).length := by
  induction es with
  | nil => simp
  | cons e es ih =>
    obtain ⟨text, hvalue, -⟩ := (h e (by simp)).value
    have hes := ih fun e he => h e (by simp [he])
    simp [toList_line hvalue] at hes ⊢
    omega

/-- The tokens of lines of entries. -/
theorem tokens?_join {e : Entry} (h : ∀ f ∈ e :: es, f.OnLine) :
    tokens? (String.join ((e :: es).map line)) =
      some (.blockStart :: (e :: es).flatMap tokens ++ [.blockEnd]) := by
  have htext : (String.join ((e :: es).map line)).toList =
      (e :: es).flatMap fun e => e.line.toList := by
    rw [String.toList_join, List.flatMap_map]
  -- Each line takes three tokens of those that may be taken in, and the end of the text one more.
  obtain ⟨n, hn⟩ := Nat.exists_eq_add_of_le (length_lines_ge h)
  have hfuel : ((e :: es).flatMap fun e => e.line.toList).length + 1 =
      3 * es.length + n + 1 + 3 := by
    rw [hn, List.length_cons]
    omega
  have hstart : ({} : Outline) = .ready [] [] := rfl
  have hes : ∀ f ∈ es, f.OnLine := fun f hf => h f (by simp [hf])
  rw [Yaml.tokens?, htext, if_pos (all_isAllowed_lines h), hfuel, Cursor.start,
    withLineFeeds_lines h, hstart, List.flatMap_cons,
    Reader.tokens?_line (h e (by simp)) (.inl rfl) (isWordCharacter_head_lines hes),
    Reader.tokens?_lines hes]
  simp [opened]

/-- Lines of entries read back. -/
theorem ofText?_lines (h : ∀ e ∈ es, e.OnLine) : ofText? (String.join (es.map line)) = some es := by
  cases es with
  | nil => rfl
  | cons e es => rw [ofText?, tokens?_join h, Option.bind_some, ofTokens?_entries]

end Entry

end ChipEight.Yaml
