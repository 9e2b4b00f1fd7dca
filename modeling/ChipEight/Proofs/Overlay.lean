import Mathlib.Data.List.Nodup
import ChipEight.Proofs.EntryLines
import ChipEight.Proofs.Numerals
import ChipEight.Settings.Reader

/-!
# Settings laid over the default

The entries of a text make choices, each of them one, and what was not chosen is as in the default
settings.  Whether entries can be read, and which settings they make, is told by their set alone: no
choice may be made twice, each value has to fit its choice, and the settings then show each value
and are otherwise those laid under them.  The order of the entries and those with other keys do not
matter.  Any settings can be written as lines of entries, one for each choice in any order, and are
read back from them.

Main results:

- `choose?_eq_some_iff`: what one choice does to the settings.
- `overlay_eq_ok_iff`, `exists_laidOver_iff`: what the entries of a text make of settings, and when
  they can be read.
- `ofEntries_entryOf`, `onLine_entryOf`: settings as entries, and the entries as lines.
- `SplitsLines`, `read_lines`: settings are read back from lines, however these are split into
  their entries.
- `settings_from_entries`: reading settings from entries, and back from the lines of all choices.
-/

namespace ChipEight

open Yaml

namespace Settings

/-! ## Values -/

/-- The value is a size: a number of 64 bits. -/
def IsSize (v : Value) (n : Nat) : Prop := n < UInt64.size ∧ v.Denotes n

/-- The value is a seed: a number of 64 bits, or nothing. -/
def IsSeed (v : Value) : Option UInt64 → Prop
  | none => v.isNull = true
  | some word => v.Denotes word.toNat

variable {v : Value}

theorem sizeOf?_eq_some_iff {n : Nat} : sizeOf? v = some n ↔ IsSize v n := by
  rw [sizeOf?, Option.map_eq_some_iff]
  constructor
  · rintro ⟨word, hword, rfl⟩
    exact ⟨word.toNat_lt_size, Value.toUInt64?_eq_some_iff.1 hword⟩
  · rintro ⟨hlt, hdenotes⟩
    have hnat : (UInt64.ofNat n).toNat = n := UInt64.toNat_ofNat_of_lt' hlt
    exact ⟨UInt64.ofNat n, Value.toUInt64?_eq_some_iff.2 (by rwa [hnat]), hnat⟩

theorem seedOf?_eq_some_iff {seed : Option UInt64} : seedOf? v = some seed ↔ IsSeed v seed := by
  unfold seedOf?
  split
  · next hnull =>
    cases seed with
    | none => simp [IsSeed, hnull]
    | some word => simp [IsSeed, Value.not_denotes_of_isNull hnull]
  · next hnull =>
    cases seed with
    | none => simp [IsSeed, hnull]
    | some word => simp [IsSeed, Value.toUInt64?_eq_some_iff]

/-- The value fits a choice: it is of the kind that the choice asks for. -/
def Fits (v : Value) : Choice → Prop
  | .screenWidth | .screenHeight | .keyBuffer => ∃ n, IsSize v n
  | .throttle => ∃ b, v.DenotesTruth b
  | .seed => ∃ seed, IsSeed v seed

/-! ## Choices -/

/-- The settings show a value: a choice is made as the value says. -/
def Shows (s : Settings) (v : Value) : Choice → Prop
  | .screenWidth => IsSize v s.screenWidth
  | .screenHeight => IsSize v s.screenHeight
  | .throttle => v.DenotesTruth s.throttle
  | .seed => IsSeed v s.seed
  | .keyBuffer => IsSize v s.keyBuffer

/-- A choice is made alike in two settings. -/
def SameIn (s t : Settings) : Choice → Prop
  | .screenWidth => s.screenWidth = t.screenWidth
  | .screenHeight => s.screenHeight = t.screenHeight
  | .throttle => s.throttle = t.throttle
  | .seed => s.seed = t.seed
  | .keyBuffer => s.keyBuffer = t.keyBuffer

variable {s t u : Settings} {c d : Choice}

theorem SameIn.refl (s : Settings) (c : Choice) : s.SameIn s c := by
  cases c <;> rfl

theorem SameIn.symm (h : s.SameIn t c) : t.SameIn s c := by
  cases c <;> exact Eq.symm h

theorem SameIn.trans (h : s.SameIn t c) (h' : t.SameIn u c) : s.SameIn u c := by
  cases c <;> exact Eq.trans h h'

theorem SameIn.shows (h : s.SameIn t c) (hshows : t.Shows v c) : s.Shows v c := by
  cases c <;> simp only [SameIn] at h <;> simpa only [Shows, h] using hshows

/-- Settings in which all choices are made alike are the same. -/
theorem eq_of_sameIn (h : ∀ c, s.SameIn t c) : s = t := by
  obtain ⟨width, height, throttle, seed, buffer⟩ := s
  cases (h .screenWidth : width = _)
  cases (h .screenHeight : height = _)
  cases (h .throttle : throttle = _)
  cases (h .seed : seed = _)
  cases (h .keyBuffer : buffer = _)
  rfl

/-- The settings with one choice made as in others. -/
def adopt (s t : Settings) : Choice → Settings
  | .screenWidth => { s with screenWidth := t.screenWidth }
  | .screenHeight => { s with screenHeight := t.screenHeight }
  | .throttle => { s with throttle := t.throttle }
  | .seed => { s with seed := t.seed }
  | .keyBuffer => { s with keyBuffer := t.keyBuffer }

theorem sameIn_adopt_iff : (s.adopt t c).SameIn t d ↔ d ≠ c → s.SameIn t d := by
  cases c <;> cases d <;> simp [adopt, SameIn]

theorem sameIn_adopt_of_ne (h : d ≠ c) : (s.adopt t c).SameIn s d := by
  cases c <;> cases d <;> first | rfl | exact absurd rfl h

theorem adopt_eq_iff : s.adopt t c = t ↔ ∀ d, d ≠ c → t.SameIn s d := by
  constructor
  · intro h d hd
    have hsame : (s.adopt t c).SameIn t d := by rw [h]; exact .refl t d
    exact (sameIn_adopt_iff.1 hsame hd).symm
  · intro h
    exact eq_of_sameIn fun d => sameIn_adopt_iff.2 fun hd => (h d hd).symm

/-- What is made of an optional value is told by the part of it that holds the value. -/
theorem map_eq_some_iff_of_get {α : Type} {o : Option α} {set : α → Settings} {get : Settings → α}
    (hget : ∀ a, get (set a) = a) : o.map set = some t ↔ o = some (get t) ∧ set (get t) = t := by
  rw [Option.map_eq_some_iff]
  constructor
  · rintro ⟨a, ha, rfl⟩
    rw [hget]
    exact ⟨ha, rfl⟩
  · rintro ⟨ha, ht⟩
    exact ⟨get t, ha, ht⟩

/-- What one choice does to the settings: they show its value, and the other choices are kept. -/
theorem choose?_eq_some_iff : s.choose? v c = some t ↔ t.Shows v c ∧ ∀ d, d ≠ c → t.SameIn s d := by
  rw [← adopt_eq_iff]
  cases c with
  | screenWidth =>
    exact (map_eq_some_iff_of_get fun _ => rfl).trans (and_congr_left' sizeOf?_eq_some_iff)
  | screenHeight =>
    exact (map_eq_some_iff_of_get fun _ => rfl).trans (and_congr_left' sizeOf?_eq_some_iff)
  | throttle =>
    exact (map_eq_some_iff_of_get fun _ => rfl).trans (and_congr_left' Value.toBool?_eq_some_iff)
  | seed => exact (map_eq_some_iff_of_get fun _ => rfl).trans (and_congr_left' seedOf?_eq_some_iff)
  | keyBuffer =>
    exact (map_eq_some_iff_of_get fun _ => rfl).trans (and_congr_left' sizeOf?_eq_some_iff)

/-- A choice is made by a value that fits it. -/
theorem exists_choose?_iff : (∃ t, s.choose? v c = some t) ↔ Fits v c := by
  have hmap {α : Type} {o : Option α} {f : α → Settings} :
      (∃ t, o.map f = some t) ↔ ∃ a, o = some a := by
    cases o <;> simp
  cases c with
  | screenWidth | screenHeight | keyBuffer =>
    exact hmap.trans (exists_congr fun _ => sizeOf?_eq_some_iff)
  | throttle => exact hmap.trans (exists_congr fun _ => Value.toBool?_eq_some_iff)
  | seed => exact hmap.trans (exists_congr fun _ => seedOf?_eq_some_iff)

/-! ## Entries -/

theorem Choice.ofName?_eq_some_iff {key : String} : Choice.ofName? key = some c ↔ key = c.name := by
  constructor
  · intro h
    have hname := List.find?_some h
    exact (beq_iff_eq.1 hname).symm
  · rintro rfl
    cases c <;> decide

theorem Choice.eq_of_name_eq (h : c.name = d.name) : c = d := by
  have hname : ofName? d.name = some c := ofName?_eq_some_iff.2 h.symm
  rw [ofName?_eq_some_iff.2 rfl] at hname
  exact (Option.some.inj hname).symm

/-- The choices that entries make, in order. -/
def choicesOf (entries : List Entry) : List Choice :=
  entries.filterMap fun e => Choice.ofName? e.key

variable {entries others : List Entry} {made : List Choice}

theorem mem_choicesOf : c ∈ choicesOf entries ↔ ∃ e ∈ entries, e.key = c.name := by
  simp [choicesOf, Choice.ofName?_eq_some_iff]

theorem choicesOf_cons_of_none {e : Entry} (h : Choice.ofName? e.key = none) :
    choicesOf (e :: entries) = choicesOf entries := by
  simp [choicesOf, h]

theorem choicesOf_cons {e : Entry} (h : e.key = c.name) :
    choicesOf (e :: entries) = c :: choicesOf entries := by
  simp [choicesOf, Choice.ofName?_eq_some_iff.2 h]

/-- No choice is made twice if no key occurs twice. -/
theorem nodup_choicesOf (h : (entries.map Entry.key).Nodup) : (choicesOf entries).Nodup := by
  have hkeys : choicesOf entries = (entries.map Entry.key).filterMap Choice.ofName? := by
    simp [choicesOf, List.filterMap_map]
  rw [hkeys]
  refine h.filterMap fun key key' c hc hc' => ?_
  rw [Choice.ofName?_eq_some_iff.1 hc, Choice.ofName?_eq_some_iff.1 hc']

/-- The settings show the value of every entry that makes a choice, and are otherwise those that the
entries were laid over. -/
def LaidOver (t s : Settings) (entries : List Entry) : Prop :=
  ∀ c, (∀ e ∈ entries, e.key = c.name → t.Shows e.value c) ∧ (c ∉ choicesOf entries → t.SameIn s c)

theorem laidOver_nil : t.LaidOver s [] ↔ t = s := by
  constructor
  · intro h
    exact eq_of_sameIn fun c => (h c).2 (by simp [choicesOf])
  · rintro rfl c
    exact ⟨by simp, fun _ => .refl t c⟩

theorem laidOver_cons_of_none {e : Entry} (h : Choice.ofName? e.key = none) :
    t.LaidOver s (e :: entries) ↔ t.LaidOver s entries := by
  have hname (c : Choice) : e.key ≠ c.name := by
    intro hkey
    simp [Choice.ofName?_eq_some_iff.2 hkey] at h
  simp [LaidOver, choicesOf_cons_of_none h, hname]

/-- The first of several entries makes its choice, and the others are laid over that. -/
theorem laidOver_cons {e : Entry} (h : e.key = c.name) (hc : c ∉ choicesOf entries) :
    t.LaidOver s (e :: entries) ↔ ∃ u, s.choose? e.value c = some u ∧ t.LaidOver u entries := by
  constructor
  · intro hover
    have hself : (s.adopt t c).SameIn t c := sameIn_adopt_iff.2 fun hne => absurd rfl hne
    refine ⟨s.adopt t c, choose?_eq_some_iff.2 ⟨?_, fun d hd => sameIn_adopt_of_ne hd⟩,
      fun d => ⟨?_, ?_⟩⟩
    · exact hself.shows ((hover c).1 e (by simp) h)
    · exact fun f hf => (hover d).1 f (by simp [hf])
    · intro hd
      by_cases hdc : d = c
      · rw [hdc]
        exact hself.symm
      · exact ((hover d).2 (by simp [choicesOf_cons h, hd, hdc])).trans
          (sameIn_adopt_of_ne hdc).symm
  · rintro ⟨u, hu, hover⟩ d
    obtain ⟨hshows, hkept⟩ := choose?_eq_some_iff.1 hu
    refine ⟨fun f hf hkey => ?_, fun hd => ?_⟩
    · rcases List.mem_cons.1 hf with rfl | hf
      · -- Later entries do not make the choice again.
        obtain rfl : c = d := Choice.eq_of_name_eq (h.symm.trans hkey)
        exact ((hover c).2 hc).shows hshows
      · exact (hover d).1 f hf hkey
    · rw [choicesOf_cons h, List.mem_cons, not_or] at hd
      exact ((hover d).2 hd.2).trans (hkept d hd.1)

theorem Shows.fits (h : s.Shows v c) : Fits v c := by
  cases c <;> exact ⟨_, h⟩

/-- Values that fit can be laid over any settings if no choice is made twice. -/
theorem exists_laidOver_iff (hnodup : (choicesOf entries).Nodup) :
    (∃ t, LaidOver t s entries) ↔ ∀ e ∈ entries, ∀ c : Choice, e.key = c.name → Fits e.value c := by
  constructor
  · rintro ⟨t, hover⟩ e he c hkey
    exact ((hover c).1 e he hkey).fits
  · intro hfits
    induction entries generalizing s with
    | nil => exact ⟨s, laidOver_nil.2 rfl⟩
    | cons e entries ih =>
      have hrest : ∀ f ∈ entries, ∀ c : Choice, f.key = c.name → Fits f.value c :=
        fun f hf => hfits f (by simp [hf])
      cases hname : Choice.ofName? e.key with
      | none =>
        rw [choicesOf_cons_of_none hname] at hnodup
        simpa only [laidOver_cons_of_none hname] using ih hnodup hrest
      | some c =>
        have hkey := Choice.ofName?_eq_some_iff.1 hname
        rw [choicesOf_cons hkey, List.nodup_cons] at hnodup
        obtain ⟨u, hu⟩ := (exists_choose?_iff (s := s)).2 (hfits e (by simp) c hkey)
        obtain ⟨t, hover⟩ := ih (s := u) hnodup.2 hrest
        exact ⟨t, (laidOver_cons hkey hnodup.1).2 ⟨u, hu, hover⟩⟩

/-! ## Reading -/

theorem overlay_cons_of_none {e : Entry} (h : Choice.ofName? e.key = none) :
    s.overlay made (e :: entries) = s.overlay made entries := by
  simp [overlay, h]

theorem overlay_cons_eq_ok_iff {e : Entry} (h : e.key = c.name) :
    s.overlay made (e :: entries) = .ok t ↔
      c ∉ made ∧ ∃ u, s.choose? e.value c = some u ∧ u.overlay (c :: made) entries = .ok t := by
  have hname : Choice.ofName? e.key = some c := Choice.ofName?_eq_some_iff.2 h
  simp only [overlay, hname]
  split
  · next hmade => simp [hmade]
  · next hmade =>
    cases s.choose? e.value c with
    | none => simp
    | some u => simp [hmade]

/-- What the entries of a text make of settings. -/
theorem overlay_eq_ok_iff :
    s.overlay made entries = .ok t ↔
      (choicesOf entries).Nodup ∧ (∀ c ∈ choicesOf entries, c ∉ made) ∧ t.LaidOver s entries := by
  induction entries generalizing s made with
  | nil => simp [overlay, choicesOf, laidOver_nil, eq_comm]
  | cons e entries ih =>
    cases hname : Choice.ofName? e.key with
    | none =>
      rw [overlay_cons_of_none hname, choicesOf_cons_of_none hname, laidOver_cons_of_none hname, ih]
    | some c =>
      have hkey := Choice.ofName?_eq_some_iff.1 hname
      rw [overlay_cons_eq_ok_iff hkey, choicesOf_cons hkey, List.nodup_cons]
      constructor
      · rintro ⟨hmade, u, hu, hrest⟩
        obtain ⟨hnodup, hothers, hover⟩ := ih.1 hrest
        have hc : c ∉ choicesOf entries := fun hmem => hothers c hmem (by simp)
        refine ⟨⟨hc, hnodup⟩, ?_, (laidOver_cons hkey hc).2 ⟨u, hu, hover⟩⟩
        intro d hd
        rcases List.mem_cons.1 hd with rfl | hd
        · exact hmade
        · exact fun hmem => hothers d hd (by simp [hmem])
      · rintro ⟨⟨hc, hnodup⟩, hothers, hover⟩
        obtain ⟨u, hu, hover⟩ := (laidOver_cons hkey hc).1 hover
        refine ⟨hothers c (by simp), u, hu, ih.2 ⟨hnodup, ?_, hover⟩⟩
        intro d hd hmem
        rcases List.mem_cons.1 hmem with rfl | hmem
        · exact hc hd
        · exact hothers d (by simp [hd]) hmem

/-- The settings that entries make are told by the set of entries alone. -/
theorem ofEntries_eq_ok_iff :
    ofEntries entries = .ok t ↔ (choicesOf entries).Nodup ∧ t.LaidOver {} entries := by
  simp [ofEntries, overlay_eq_ok_iff]

theorem ofEntries_perm (h : entries.Perm others) :
    ofEntries entries = .ok t ↔ ofEntries others = .ok t := by
  have hchoices : (choicesOf entries).Perm (choicesOf others) := h.filterMap _
  simp only [ofEntries_eq_ok_iff, LaidOver, hchoices.nodup_iff, hchoices.mem_iff, h.mem_iff]

theorem mem_names_iff {key : String} :
    key ∈ Choice.all.map Choice.name ↔ ∃ c, Choice.ofName? key = some c := by
  have hall (c : Choice) : c ∈ Choice.all := by cases c <;> decide
  simp only [List.mem_map, hall, true_and, Choice.ofName?_eq_some_iff]
  exact exists_congr fun _ => eq_comm

/-- Entries with other keys do not matter. -/
theorem overlay_filter (s : Settings) (made : List Choice) (entries : List Entry) :
    s.overlay made (entries.filter fun e => e.key ∈ Choice.all.map Choice.name) =
      s.overlay made entries := by
  induction entries generalizing s made with
  | nil => rfl
  | cons e entries ih =>
    cases hname : Choice.ofName? e.key with
    | none =>
      have hkey : e.key ∉ Choice.all.map Choice.name := by simp [mem_names_iff, hname]
      rw [List.filter_cons_of_neg (by simpa using hkey), ih, overlay_cons_of_none hname]
    | some c =>
      have hkey : e.key ∈ Choice.all.map Choice.name := mem_names_iff.2 ⟨c, hname⟩
      rw [List.filter_cons_of_pos (by simpa using hkey)]
      simp only [overlay, hname, ih]

/-- A choice that is made twice is refused. -/
theorem exists_ofEntries_eq_error {e f : Entry} (hsub : [e, f].Sublist entries)
    (he : e.key = c.name) (hf : f.key = c.name) :
    ∃ refusal, ofEntries entries = .error refusal := by
  cases hread : ofEntries entries with
  | error refusal => exact ⟨refusal, rfl⟩
  | ok t =>
    have htwice : [c, c].Sublist (choicesOf entries) := by
      have hchoices := hsub.filterMap fun e => Choice.ofName? e.key
      simpa [choicesOf, Choice.ofName?_eq_some_iff.2 he, Choice.ofName?_eq_some_iff.2 hf]
        using hchoices
    exact absurd htwice (List.nodup_iff_sublist.1 (ofEntries_eq_ok_iff.1 hread).1 c)

/-! ## Writing -/

/-- The settings can be written: their sizes are numbers of 64 bits. -/
structure Writable (s : Settings) : Prop where
  width_lt : s.screenWidth < UInt64.size
  height_lt : s.screenHeight < UInt64.size
  buffer_lt : s.keyBuffer < UInt64.size

theorem denotes_toString (n : Nat) : Value.Denotes (.plain (toString n)) n := by
  apply Value.Denotes.unsigned
  rw [Nat.toString_eq_repr, Nat.toList_repr]
  exact .decimal n

theorem denotesTruth_ite (b : Bool) :
    Value.DenotesTruth (.plain (if b then "true" else "false")) b := by
  cases b with
  | true => exact .yes (by simp)
  | false => exact .no (by simp)

theorem isSeed_elim (seed : Option UInt64) :
    IsSeed (.plain (seed.elim "null" fun word => toString word.toNat)) seed := by
  cases seed with
  | none =>
    show (Value.plain "null").isNull = true
    decide
  | some word => exact denotes_toString word.toNat

/-- The value of an entry shows the settings that it was written for. -/
theorem shows_valueOf (h : s.Writable) (c : Choice) : s.Shows (s.valueOf c) c := by
  cases c with
  | screenWidth => exact ⟨h.width_lt, denotes_toString _⟩
  | screenHeight => exact ⟨h.height_lt, denotes_toString _⟩
  | throttle => exact denotesTruth_ite s.throttle
  | seed => exact isSeed_elim s.seed
  | keyBuffer => exact ⟨h.buffer_lt, denotes_toString _⟩

/-- Settings are read back from the entries of all choices, in any order. -/
theorem ofEntries_entryOf (h : s.Writable) {choices : List Choice}
    (hall : choices.Perm Choice.all) : ofEntries (choices.map s.entryOf) = .ok s := by
  have hchoices : choicesOf (choices.map s.entryOf) = choices := by
    have hname (c : Choice) : Choice.ofName? (s.entryOf c).key = some c :=
      Choice.ofName?_eq_some_iff.2 rfl
    simp [choicesOf, List.filterMap_map, hname]
  have hmem (c : Choice) : c ∈ choices := hall.mem_iff.2 (by cases c <;> decide)
  rw [ofEntries_eq_ok_iff, hchoices]
  refine ⟨hall.nodup_iff.2 (by decide), fun c => ⟨?_, ?_⟩⟩
  · intro e he hkey
    obtain ⟨d, -, rfl⟩ := List.mem_map.1 he
    obtain rfl : d = c := Choice.eq_of_name_eq hkey
    exact shows_valueOf h d
  · intro hc
    rw [hchoices] at hc
    exact absurd (hmem c) hc

/-! ## Lines -/

theorem isWord_toString (n : Nat) : IsWord (toString n).toList where
  ne_nil := by
    rw [Nat.toString_eq_repr, Nat.toList_repr]
    exact Nat.toDigits_ne_nil
  characters := by
    intro c hc
    rw [Nat.toString_eq_repr, Nat.toList_repr] at hc
    have hdigit : c.isDigit = true := Nat.isDigit_of_mem_toDigits (by decide) (by decide) hc
    simp [isWordCharacter, Char.isAlphanum, hdigit]

theorem Choice.isWord_name (c : Choice) : IsWord c.name.toList := by
  cases c <;> exact .of_all (by decide) (by decide)

theorem isWord_valueOf (s : Settings) (c : Choice) :
    ∃ text, s.valueOf c = .plain text ∧ IsWord text.toList := by
  cases c with
  | screenWidth | screenHeight | keyBuffer => exact ⟨_, rfl, isWord_toString _⟩
  | throttle =>
    refine ⟨_, rfl, ?_⟩
    cases s.throttle <;> exact .of_all (by decide) (by decide)
  | seed =>
    refine ⟨_, rfl, ?_⟩
    cases s.seed with
    | none => exact .of_all (by decide) (by decide)
    | some word => exact isWord_toString word.toNat

/-- Each choice can be written on a line of its own. -/
theorem onLine_entryOf (s : Settings) (c : Choice) : (s.entryOf c).OnLine where
  key := c.isWord_name
  short := by
    show c.name.toList.length ≤ keyLimit
    cases c <;> decide
  value := s.isWord_valueOf c

/-- A way to split texts into entries that splits lines into the entries for which they were
written. -/
def SplitsLines (split : String → Option (List Entry)) : Prop :=
  ∀ entries, entries ≠ [] → (∀ e ∈ entries, e.OnLine) →
    split (String.join (entries.map Entry.line)) = some entries

theorem splitsLines_ofText? : SplitsLines Entry.ofText? :=
  fun _ _ hline => Entry.ofText?_lines hline

theorem read_of_split {α : Type} {split : α → Option (List Entry)} {text : α}
    (h : split text = some entries) : read split text = ofEntries entries := by
  rw [read, h]

/-- Settings are read back from the lines of all choices, in any order. -/
theorem read_lines {split : String → Option (List Entry)} (hsplit : SplitsLines split)
    (h : s.Writable) {choices : List Choice} (hall : choices.Perm Choice.all) :
    read split (String.join (choices.map fun c => (s.entryOf c).line)) = .ok s := by
  have hne : choices.map s.entryOf ≠ [] := by
    rw [Ne, List.map_eq_nil_iff]
    rintro rfl
    cases hall.length_eq
  have hline : ∀ e ∈ choices.map s.entryOf, e.OnLine := by
    intro e he
    obtain ⟨c, -, rfl⟩ := List.mem_map.1 he
    exact onLine_entryOf s c
  have hentries : (choices.map fun c => (s.entryOf c).line) =
      (choices.map s.entryOf).map Entry.line := by simp
  rw [hentries, read_of_split (hsplit _ hne hline)]
  exact ofEntries_entryOf h hall

end Settings

open Settings in
/-- Entries no key of which occurs twice can be read exactly if each of those with the name of a
choice has a value that fits it, and then they make the settings that show these values and are
otherwise the default.  Which settings entries make, and whether any, depends neither on their order
nor on those with other keys; if a choice is made twice, they make none.  A text makes the settings
that its entries make, however texts are split into entries.  Settings whose sizes are numbers of 64
bits are read back from the lines of all choices, in any order, however texts are split as long as
lines are split into their entries, which a reader of texts does. -/
theorem settings_from_entries :
    (∀ entries : List Entry, (entries.map Entry.key).Nodup →
      ((∃ s, ofEntries entries = .ok s) ↔
        ∀ e ∈ entries, ∀ c : Choice, e.key = c.name → Fits e.value c) ∧
      ∀ s, ofEntries entries = .ok s → ∀ c : Choice,
        (∀ e ∈ entries, e.key = c.name → s.Shows e.value c) ∧
          ((∀ e ∈ entries, e.key ≠ c.name) → s.SameIn {} c)) ∧
    (∀ entries others : List Entry, entries.Perm others →
      ∀ s, ofEntries entries = .ok s ↔ ofEntries others = .ok s) ∧
    (∀ entries : List Entry,
      ofEntries (entries.filter fun e => e.key ∈ Choice.all.map Choice.name) = ofEntries entries) ∧
    (∀ (entries : List Entry) (e f : Entry) (c : Choice), [e, f].Sublist entries →
      e.key = c.name → f.key = c.name → ∃ refusal, ofEntries entries = .error refusal) ∧
    (∀ (α : Type) (split : α → Option (List Entry)) (text : α) (entries : List Entry),
      split text = some entries → read split text = ofEntries entries) ∧
    (∀ text entries, Entry.ofText? text = some entries → ofText text = ofEntries entries) ∧
    (∀ split, SplitsLines split → ∀ s : Settings, s.Writable → ∀ choices : List Choice,
      choices.Perm Choice.all →
        read split (String.join (choices.map fun c => (s.entryOf c).line)) = .ok s) ∧
    SplitsLines Entry.ofText? ∧
    ∀ s : Settings, s.Writable → ∀ choices : List Choice, choices.Perm Choice.all →
      ofText (String.join (choices.map fun c => (s.entryOf c).line)) = .ok s := by
  refine ⟨fun entries hkeys => ?_, fun _ _ hperm _ => ofEntries_perm hperm,
    fun _ => overlay_filter _ _ _, fun _ _ _ _ hsub he hf => exists_ofEntries_eq_error hsub he hf,
    fun _ _ _ _ => read_of_split, fun _ _ => read_of_split, ?_, splitsLines_ofText?, ?_⟩
  · have hnodup := nodup_choicesOf hkeys
    constructor
    · simp only [ofEntries_eq_ok_iff, hnodup, true_and]
      exact exists_laidOver_iff hnodup
    · intro s hread c
      obtain ⟨-, hover⟩ := ofEntries_eq_ok_iff.1 hread
      refine ⟨(hover c).1, fun hother => (hover c).2 ?_⟩
      rw [mem_choicesOf]
      rintro ⟨e, he, hkey⟩
      exact hother e he hkey
  · exact fun _ hsplit _ h _ hall => read_lines hsplit h hall
  · exact fun _ h _ hall => read_lines splitsLines_ofText? h hall

open Settings in
/-- A seed in hexadecimal, a key that is none of the choices, and a truth value: read in this order
and in the other, refused with a second seed in front, and written as lines. -/
theorem settings_from_entries_mixed :
    ∃ (entries : List Entry) (s : Settings),
      entries = [⟨"seed", .plain "0x1F"⟩, ⟨"colour", .quoted "red"⟩, ⟨"throttle", .plain "False"⟩] ∧
      s = { seed := some 31, throttle := false } ∧ (entries.map Entry.key).Nodup ∧
      ofEntries entries = .ok s ∧
      s.Shows (.plain "0x1F") .seed ∧ s.SameIn {} .screenWidth ∧ ofEntries entries.reverse = .ok s ∧
      (∃ refusal, ofEntries (⟨"seed", .plain "null"⟩ :: entries) = .error refusal) ∧
      Entry.ofText? "throttle: False # slow\n" = some [⟨"throttle", .plain "False"⟩] ∧
      ofText "throttle: False # slow\n" = .ok { throttle := false } ∧ s.Writable ∧
      read Entry.ofText? (String.join (Choice.all.reverse.map fun c => (s.entryOf c).line)) =
        .ok s := by
  obtain ⟨entries, hentries⟩ : ∃ entries : List Entry,
      entries =
        [⟨"seed", .plain "0x1F"⟩, ⟨"colour", .quoted "red"⟩, ⟨"throttle", .plain "False"⟩] :=
    ⟨_, rfl⟩
  obtain ⟨s, hs⟩ : ∃ s : Settings, s = { seed := some 31, throttle := false } := ⟨_, rfl⟩
  have hkeys : (entries.map Entry.key).Nodup := by rw [hentries]; decide
  have hread : ofEntries entries = .ok s := by rw [hentries, hs]; decide +kernel
  have htext : Entry.ofText? "throttle: False # slow\n" = some [⟨"throttle", .plain "False"⟩] := by
    decide +kernel
  have hwritable : s.Writable := by rw [hs]; exact ⟨by decide, by decide, by decide⟩
  obtain ⟨hoverlay, hperm, -, htwice, -, hofText, hwritten, hsplits, -⟩ := settings_from_entries
  obtain ⟨-, hshown⟩ := hoverlay entries hkeys
  refine ⟨entries, s, hentries, hs, hkeys, hread, ?_, ?_, ?_, ?_, htext, ?_, hwritable, ?_⟩
  · exact (hshown s hread .seed).1 ⟨"seed", .plain "0x1F"⟩ (by simp [hentries]) rfl
  · exact (hshown s hread .screenWidth).2 (by rw [hentries]; decide)
  · exact (hperm entries entries.reverse entries.reverse_perm.symm s).1 hread
  · refine htwice _ ⟨"seed", .plain "null"⟩ ⟨"seed", .plain "0x1F"⟩ .seed ?_ rfl rfl
    rw [hentries]
    exact (List.nil_sublist _).cons_cons _ |>.cons_cons _
  · rw [hofText _ _ htext]
    decide +kernel
  · exact hwritten Entry.ofText? hsplits s hwritable _ Choice.all.reverse_perm

end ChipEight
