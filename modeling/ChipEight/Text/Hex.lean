/-!
# Hexadecimal numerals

Numerals to base sixteen with capital letters, padded with zeros to a least width, and the value of
a single digit in either case.

Main results:

- `digitValue?_digit`: a written digit reads back.
- `ofDigits?_digits`: a written numeral reads back.
- `length_paddedDigits`: a number of sixteen bits is padded to exactly four digits.
-/

namespace ChipEight.Hex

/-- The digit of a number below sixteen, a capital letter from ten on. -/
def digit (n : Nat) : Char :=
  if n < 10 then Char.ofNat ('0'.toNat + n) else Char.ofNat ('A'.toNat + (n - 10))

/-- The digits of a number, most significant first; zero has one digit. -/
def digits (n : Nat) : List Char :=
  if n < 16 then [digit n] else digits (n / 16) ++ [digit (n % 16)]

/-- The digits of a number, with zeros in front if there are fewer than the given number. -/
def paddedDigits (width n : Nat) : List Char := (digits n).leftpad width '0'

/-- The numeral of a number with at least the given number of digits. -/
def padded (width n : Nat) : String := String.ofList (paddedDigits width n)

/-- The value of a hexadecimal digit, in either case. -/
def digitValue? (c : Char) : Option Nat :=
  if '0' ≤ c ∧ c ≤ '9' then some (c.toNat - '0'.toNat)
  else if 'a' ≤ c ∧ c ≤ 'f' then some (c.toNat - 'a'.toNat + 10)
  else if 'A' ≤ c ∧ c ≤ 'F' then some (c.toNat - 'A'.toNat + 10)
  else none

/-- The number that a list of digits denotes, or nothing if one of them is no digit. -/
def ofDigits? (cs : List Char) : Option Nat :=
  cs.foldlM (fun n c => (digitValue? c).map (16 * n + ·)) 0

/-- Takes one more digit into a number to a base; the digit has to be below the base. -/
def addDigit? (base n : Nat) (c : Char) : Option Nat :=
  (digitValue? c).bind fun d => if d < base then some (base * n + d) else none

/-- The number that digits to a base of at most sixteen denote; there has to be a digit. -/
def digitsToNat? (base : Nat) : List Char → Option Nat
  | [] => none
  | cs => cs.foldlM (addDigit? base) 0

/-! ## Reading back -/

/-- A written digit reads back. -/
@[simp]
theorem digitValue?_digit : ∀ {n : Nat}, n < 16 → digitValue? (digit n) = some n := by
  decide

/-- A numeral followed by one more digit is worth sixteen times as much, plus that digit. -/
theorem ofDigits?_append_singleton (cs : List Char) (c : Char) :
    ofDigits? (cs ++ [c]) =
      (ofDigits? cs).bind fun n => (digitValue? c).map (16 * n + ·) := by
  simp [ofDigits?, List.foldlM_append]

/-- A written numeral reads back. -/
@[simp]
theorem ofDigits?_digits (n : Nat) : ofDigits? (digits n) = some n := by
  fun_induction digits n with
  | case1 n h => simp [ofDigits?, h]
  | case2 n h ih =>
    have hmod : n % 16 < 16 := Nat.mod_lt _ (by decide)
    simp only [ofDigits?_append_singleton, ih, digitValue?_digit hmod, Option.bind_some,
      Option.map_some, Option.some.injEq]
    omega

/-! ## Padding -/

/-- Zeros in front of a numeral do not count. -/
theorem ofDigits?_replicate_append (k : Nat) (cs : List Char) :
    ofDigits? (List.replicate k '0' ++ cs) = ofDigits? cs := by
  induction k with
  | zero => rfl
  | succ k ih =>
    rw [← ih]
    rfl

/-- A padded numeral reads back. -/
@[simp]
theorem ofDigits?_paddedDigits (width n : Nat) : ofDigits? (paddedDigits width n) = some n := by
  rw [paddedDigits, List.leftpad, ofDigits?_replicate_append, ofDigits?_digits]

/-- Numbers up to sixteen times a limit have one digit more than those up to the limit. -/
theorem length_digits_le_succ {limit k : Nat} (h : ∀ m < limit, (digits m).length ≤ k) {n : Nat}
    (hn : n < 16 * limit) : (digits n).length ≤ k + 1 := by
  rw [digits]
  split
  · exact Nat.succ_le_succ (Nat.zero_le k)
  · rw [List.length_append]
    exact Nat.succ_le_succ (h (n / 16) (Nat.div_lt_of_lt_mul hn))

/-- A number of sixteen bits has at most four digits. -/
theorem length_digits_le {n : Nat} (h : n < 0x10000) : (digits n).length ≤ 4 := by
  have hone : ∀ m < 0x10, (digits m).length ≤ 1 := by
    intro m hm
    rw [digits, if_pos hm]
    exact Nat.le_refl 1
  have htwo : ∀ m < 0x100, (digits m).length ≤ 2 := fun _ hm => length_digits_le_succ hone hm
  have hthree : ∀ m < 0x1000, (digits m).length ≤ 3 := fun _ hm => length_digits_le_succ htwo hm
  exact length_digits_le_succ hthree h

/-- A number of sixteen bits is padded to exactly four digits. -/
theorem length_paddedDigits {n : Nat} (h : n < 0x10000) : (paddedDigits 4 n).length = 4 := by
  rw [paddedDigits, List.length_leftpad]
  exact Nat.max_eq_left (length_digits_le h)

/-- Each character of a numeral is the digit of a number below sixteen. -/
theorem exists_eq_digit_of_mem_digits {n : Nat} {c : Char} (h : c ∈ digits n) :
    ∃ k, k < 16 ∧ c = digit k := by
  fun_induction digits n with
  | case1 n hn => exact ⟨n, hn, List.mem_singleton.1 h⟩
  | case2 n hn ih =>
    rcases List.mem_append.1 h with hfront | hlast
    · exact ih hfront
    · exact ⟨n % 16, Nat.mod_lt _ (by decide), List.mem_singleton.1 hlast⟩

/-- So is each character of a padded numeral. -/
theorem exists_eq_digit_of_mem_paddedDigits {width n : Nat} {c : Char}
    (h : c ∈ paddedDigits width n) : ∃ k, k < 16 ∧ c = digit k := by
  rcases List.mem_append.1 h with hzero | hdigit
  · exact ⟨0, by decide, List.eq_of_mem_replicate hzero⟩
  · exact exists_eq_digit_of_mem_digits hdigit

end ChipEight.Hex
