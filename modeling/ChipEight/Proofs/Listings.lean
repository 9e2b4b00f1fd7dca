import ChipEight.Instruction.Encode
import ChipEight.Memory.Listing
import ChipEight.Proofs.Course

/-!
# Listings of memory

A listing has one line for each word of the part of memory that it is asked for.  The part ends with
memory if more is asked for, and a last byte that stands alone is listed with the byte behind it.
Every line can be told apart from the next, because each numeral has four digits, so that a listing
is read back line by line.

Main results:

- `readLines?_flatMap`: lines read back, whatever addresses and words they show.
- `word_listed`: every word that is listed lies in memory.
- `listing_reads_back`: the lines of a listing, what is read back from it, and the bytes of a
  program that was loaded.
-/

namespace ChipEight

/-! ## Numerals of a fixed width -/

namespace Hex

/-- The characters are the numeral of a number with exactly so many digits, in capital letters from
ten on. -/
structure IsNumeral (width n : Nat) (cs : List Char) : Prop where
  length_eq : cs.length = width
  mem_alphabet : ∀ c ∈ cs, c ∈ "0123456789ABCDEF".toList
  value_eq : ofDigits? cs = some n

theorem digit_mem_alphabet : ∀ {n : Nat}, n < 16 → digit n ∈ "0123456789ABCDEF".toList := by decide

theorem exists_paddedDigits_eq {n : Nat} (h : n < 0x10000) :
    ∃ a b c d, paddedDigits 4 n = [a, b, c, d] := by
  have hlength : (paddedDigits 4 n).length = 4 := length_paddedDigits h
  match paddedDigits 4 n, hlength with
  | [a, b, c, d], _ => exact ⟨a, b, c, d, rfl⟩

theorem isNumeral_paddedDigits {n : Nat} (h : n < 0x10000) : IsNumeral 4 n (paddedDigits 4 n) where
  length_eq := length_paddedDigits h
  mem_alphabet := by
    intro c hc
    obtain ⟨k, hk, rfl⟩ := exists_eq_digit_of_mem_paddedDigits hc
    exact digit_mem_alphabet hk
  value_eq := ofDigits?_paddedDigits 4 n

end Hex

namespace Memory

/-! ## Lines -/

/-- A line of a listing without its line break. -/
def lineText (entry : Nat × UInt16) : List Char :=
  Hex.paddedDigits 4 entry.1 ++ [':', ' '] ++ Hex.paddedDigits 4 entry.2.toNat

theorem listingLine_eq (entry : Nat × UInt16) : listingLine entry = lineText entry ++ ['\n'] := by
  simp [listingLine, lineText]

/-- A line of a listing reads back, whatever follows it. -/
theorem readLines?_listingLine_append (entry : Nat × UInt16) (h : entry.1 < 0x10000)
    (rest : List Char) :
    readLines? (listingLine entry ++ rest) = (readLines? rest).map (entry :: ·) := by
  obtain ⟨a, b, c, d, haddress⟩ := Hex.exists_paddedDigits_eq h
  obtain ⟨e, f, g, k, hword⟩ := Hex.exists_paddedDigits_eq entry.2.toNat_lt
  have hfirst := Hex.ofDigits?_paddedDigits 4 entry.1
  have hsecond := Hex.ofDigits?_paddedDigits 4 entry.2.toNat
  rw [haddress] at hfirst
  rw [hword] at hsecond
  rw [listingLine, haddress, hword]
  simp only [List.cons_append, List.nil_append, readLines?, hfirst, hsecond, Option.bind_eq_bind,
    Option.bind_some]
  cases readLines? rest <;> simp

/-- The lines of a listing read back, whatever addresses and words they show. -/
theorem readLines?_flatMap {entries : List (Nat × UInt16)}
    (h : ∀ entry ∈ entries, entry.1 < 0x10000) :
    readLines? (entries.flatMap listingLine) = some entries := by
  induction entries with
  | nil => rfl
  | cons entry entries ih =>
    rw [List.flatMap_cons, readLines?_listingLine_append entry (h entry (List.mem_cons_self ..)),
      ih fun other hmem => h other (List.mem_cons_of_mem entry hmem)]
    rfl

/-! ## Words -/

/-- The number of words in the first bytes of the program area, where a byte that stands alone
counts. -/
def wordsIn (count : Nat) : Nat := (min count 3584 + 1) / 2

theorem listedAddresses_eq (count : Nat) :
    listedAddresses count = (List.range (wordsIn count)).map fun i => 0x200 + 2 * i := by
  have hlength : (min (programStart + count) (memorySize - 1) - programStart + 1) / 2 =
      wordsIn count := by
    simp only [wordsIn, programStart, memorySize]
    omega
  rw [← hlength]
  rfl

/-- A word that is listed lies in memory, also the last. -/
theorem word_listed (m : Memory) {count i : Nat} (hi : i < wordsIn count) :
    m.word (0x200 + 2 * i) =
      .ok ((m.peek (0x200 + 2 * i)).toUInt16 * 0x100 + (m.peek (0x200 + 2 * i + 1)).toUInt16) := by
  refine word_eq_ok_iff.2 ⟨⟨by omega, ?_⟩, rfl⟩
  simp only [wordsIn, memorySize] at hi ⊢
  omega

/-- A word is taken apart into the bytes that it is made of. -/
theorem bytesOfWord_word (high low : UInt8) :
    Instruction.bytesOfWord (high.toUInt16 * 0x100 + low.toUInt16) = [high, low] := by
  have hhigh := high.toNat_lt
  have hlow := low.toNat_lt
  have hquotient : (256 * high.toNat + low.toNat) / 256 = high.toNat := by omega
  have hremainder : (256 * high.toNat + low.toNat) % 256 = low.toNat := by omega
  rw [Instruction.bytesOfWord, toNat_word, hquotient, hremainder]
  simp

/-- Values taken two by two. -/
theorem flatMap_pairs {α : Type} (f : Nat → α) (n : Nat) :
    (List.range n).flatMap (fun i => [f (2 * i), f (2 * i + 1)]) = (List.range (2 * n)).map f := by
  induction n with
  | zero => rfl
  | succ n ih =>
    rw [List.range_succ, List.flatMap_append, ih, Nat.mul_succ, List.range_succ, List.range_succ]
    simp

/-- The entries of a listing: the addresses and words that its lines show. -/
theorem listed_eq (m : Memory) (count : Nat) :
    m.listed count = (List.range (wordsIn count)).map fun i =>
      (0x200 + 2 * i,
        (m.peek (0x200 + 2 * i)).toUInt16 * 0x100 + (m.peek (0x200 + 2 * i + 1)).toUInt16) := by
  rw [listed, listedAddresses_eq, List.map_map]
  apply List.map_congr_left
  intro i hi
  show (_, m.wordD _) = _
  rw [wordD, m.word_listed (List.mem_range.1 hi)]

theorem getElem?_listed {m : Memory} {count i : Nat} {entry : Nat × UInt16}
    (h : (m.listed count)[i]? = some entry) :
    i < wordsIn count ∧ entry = (0x200 + 2 * i,
      (m.peek (0x200 + 2 * i)).toUInt16 * 0x100 + (m.peek (0x200 + 2 * i + 1)).toUInt16) := by
  rw [listed_eq, List.getElem?_map] at h
  obtain ⟨j, hj, rfl⟩ := Option.map_eq_some_iff.1 h
  obtain ⟨hi, rfl⟩ := List.getElem?_eq_some_iff.1 hj
  rw [List.length_range] at hi
  rw [List.getElem_range]
  exact ⟨hi, rfl⟩

/-- The bytes of the words that are listed are the bytes of memory, from the start of the program
area on. -/
theorem bytes_listed (m : Memory) (count : Nat) :
    (m.listed count).flatMap (fun entry => Instruction.bytesOfWord entry.2) =
      (List.range (2 * wordsIn count)).map fun j => m.peek (0x200 + j) := by
  rw [listed_eq, List.flatMap_map, ← flatMap_pairs]
  simp only [bytesOfWord_word, Nat.add_assoc]

/-- What is read back from a listing are its entries. -/
theorem readListing?_listing (m : Memory) (count : Nat) :
    readListing? (m.listing count) = some (m.listed count) := by
  rw [readListing?, listing, String.toList_ofList]
  apply readLines?_flatMap
  intro entry hentry
  rw [listed_eq] at hentry
  obtain ⟨i, hi, rfl⟩ := List.mem_map.1 hentry
  have hlt := List.mem_range.1 hi
  simp only [wordsIn] at hlt
  show 0x200 + 2 * i < 0x10000
  omega

/-! ## Programs -/

/-- After a load, the words that cover the program are its bytes, with a zero behind them if they
are odd in number. -/
theorem bytes_loaded {program : List UInt8} (h : program.length ≤ 3584) :
    (List.range (2 * wordsIn program.length)).map
        (fun j => (initial.store programStart program).peek (0x200 + j)) =
      program ++ List.replicate (program.length % 2) 0 := by
  have hlength : 2 * wordsIn program.length = program.length + program.length % 2 := by
    simp only [wordsIn]
    omega
  rw [hlength]
  refine List.ext_getElem (by simp) fun j hj hj' => ?_
  rw [List.getElem_map, List.getElem_range]
  rw [List.length_map, List.length_range] at hj
  by_cases hin : j < program.length
  · rw [List.getElem_append_left hin]
    apply peek_program (List.getElem?_eq_getElem hin)
    simp only [programStart, memorySize]
    omega
  · rw [List.getElem_append_right (Nat.le_of_not_lt hin), List.getElem_replicate,
      peek_loaded program (by simp only [memorySize]; omega), image, if_neg (by omega),
      if_neg (by omega)]

end Memory

/-! ## Reading listings back -/

/-- Of any memory and for any number of bytes, a listing is one line for each word, the last line
being that of the last word of memory if more is asked for.  A line shows the address and the word
there, each in four digits.  What is read back are these addresses and words, and every one of the
words could be read.  From the listing of a program that was just loaded, its bytes are read
back. -/
theorem listing_reads_back :
    (∀ (m : Memory) (count : Nat),
      (∃ lines : List (List Char),
        (m.listing count).toList = lines.flatMap (· ++ ['\n']) ∧
          lines.length = (min count 3584 + 1) / 2 ∧
          ∀ i line, lines[i]? = some line → ∃ address word, line = address ++ [':', ' '] ++ word ∧
            Hex.IsNumeral 4 (0x200 + 2 * i) address ∧
            Hex.IsNumeral 4
              (256 * (m.peek (0x200 + 2 * i)).toNat + (m.peek (0x200 + 2 * i + 1)).toNat) word) ∧
        ∃ entries, Memory.readListing? (m.listing count) = some entries ∧
          entries.length = (min count 3584 + 1) / 2 ∧
          ∀ i entry, entries[i]? = some entry →
            entry.1 = 0x200 + 2 * i ∧ m.word (0x200 + 2 * i) = .ok entry.2) ∧
      ∀ (m loaded : Machine) (program : List UInt8), m.load program = .ok loaded →
        ∃ entries, Memory.readListing? (loaded.memory.listing program.length) = some entries ∧
          entries.flatMap (fun entry => Instruction.bytesOfWord entry.2) =
            program ++ List.replicate (program.length % 2) 0 := by
  refine ⟨fun m count => ⟨?_, ?_⟩, ?_⟩
  · refine ⟨(m.listed count).map Memory.lineText, ?_, ?_, ?_⟩
    · rw [Memory.listing, String.toList_ofList, List.flatMap_map, funext Memory.listingLine_eq]
    · rw [List.length_map, Memory.listed_eq, List.length_map, List.length_range, Memory.wordsIn]
    · intro i line hline
      rw [List.getElem?_map] at hline
      obtain ⟨entry, hentry, rfl⟩ := Option.map_eq_some_iff.1 hline
      obtain ⟨hi, rfl⟩ := Memory.getElem?_listed hentry
      refine ⟨_, _, rfl, Hex.isNumeral_paddedDigits ?_, ?_⟩
      · simp only [Memory.wordsIn] at hi
        show 0x200 + 2 * i < 0x10000
        omega
      · rw [← Memory.toNat_word]
        exact Hex.isNumeral_paddedDigits (UInt16.toNat_lt _)
  · refine ⟨m.listed count, m.readListing?_listing count, ?_, ?_⟩
    · rw [Memory.listed_eq, List.length_map, List.length_range, Memory.wordsIn]
    · intro i entry hentry
      obtain ⟨hi, rfl⟩ := Memory.getElem?_listed hentry
      exact ⟨rfl, m.word_listed hi⟩
  · intro m loaded program hload
    refine ⟨_, loaded.memory.readListing?_listing program.length, ?_⟩
    by_cases hle : program.length ≤ programCapacity
    · rw [m.load_of_le hle] at hload
      cases hload
      rw [Memory.bytes_listed, Machine.memory_loaded, Memory.bytes_loaded hle]
    · rw [m.load_of_lt (Nat.not_le.1 hle)] at hload
      cases hload

/-- A program of three bytes: its listing has two lines, of which the second shows address 0x202,
and reading it back gives a zero behind the program. -/
theorem listing_reads_back_odd :
    ∃ m loaded : Machine, m.load [0x60, 0x05, 0xF0] = .ok loaded ∧
      (∃ entries, Memory.readListing? (loaded.memory.listing 3) = some entries ∧
        entries.map Prod.fst = [0x200, 0x202]) ∧
      ∃ entries, Memory.readListing? (loaded.memory.listing 3) = some entries ∧
        entries.flatMap (fun entry => Instruction.bytesOfWord entry.2) =
          [0x60, 0x05, 0xF0, 0x00] := by
  obtain ⟨m, -⟩ : ∃ m, m = Machine.fresh {} .zero := ⟨_, rfl⟩
  obtain ⟨loaded, hloaded⟩ : ∃ n, n = m.loaded [0x60, 0x05, 0xF0] := ⟨_, rfl⟩
  have hload : m.load [0x60, 0x05, 0xF0] = .ok loaded := hloaded ▸ m.load_of_le (by decide)
  obtain ⟨-, entries, hread, hlength, hentry⟩ := listing_reads_back.1 loaded.memory 3
  obtain ⟨others, hothers, hbytes⟩ := listing_reads_back.2 m loaded [0x60, 0x05, 0xF0] hload
  refine ⟨m, loaded, hload, ⟨entries, hread, ?_⟩, others, hothers, hbytes⟩
  match entries, hlength with
  | [first, second], _ => simp [(hentry 0 first rfl).1, (hentry 1 second rfl).1]

end ChipEight
