import Mathlib.Data.List.Induction
import ChipEight.Yaml.Value

/-!
# Numerals

What it is for a value to denote a number.  A numeral is the decimal notation of a number, without
leading zeros, or any digits to another base behind the mark for that base; a plus sign may stand
before it.  A value denotes at most one number, and only a plain scalar denotes one.

Main results:

- `digitsToNat?_eq_some_iff`: digits are worth what positional notation says.
- `Value.numeralToNat?_eq_some_iff`, `Value.toNat?_eq_some_iff`: the numerals, and the values that
  denote a number.
- `Value.toUInt64?_eq_some_iff`, `Value.toBool?_eq_some_iff`: the values that denote a number of 64
  bits or a truth value.
-/

namespace ChipEight

namespace Hex

/-! ## Positional notation -/

/-- The characters are digits to a base that come to a number. -/
inductive IsDigits (base : Nat) : List Char → Nat → Prop
  | nil : IsDigits base [] 0
  | append {cs : List Char} {c : Char} {n d : Nat} :
    IsDigits base cs n → digitValue? c = some d → d < base →
      IsDigits base (cs ++ [c]) (base * n + d)

variable {base n d : Nat} {c : Char} {cs : List Char}

theorem addDigit?_eq_some_iff {m : Nat} :
    addDigit? base m c = some n ↔ ∃ d, digitValue? c = some d ∧ d < base ∧ base * m + d = n := by
  simp [addDigit?, Option.bind_eq_some_iff]

theorem foldlM_addDigit?_eq_some_iff :
    cs.foldlM (addDigit? base) 0 = some n ↔ IsDigits base cs n := by
  constructor
  · induction cs using List.reverseRecOn generalizing n with
    | nil =>
      rintro ⟨⟩
      exact .nil
    | append_singleton cs c ih =>
      intro h
      rw [List.foldlM_append, Option.bind_eq_bind, Option.bind_eq_some_iff] at h
      obtain ⟨m, hm, hlast⟩ := h
      simp only [List.foldlM_cons, List.foldlM_nil, bind_pure] at hlast
      obtain ⟨d, hd, hlt, rfl⟩ := addDigit?_eq_some_iff.1 hlast
      exact .append (ih hm) hd hlt
  · intro h
    induction h with
    | nil => rfl
    | append _ hd hlt ih => simp [List.foldlM_append, ih, addDigit?, hd, hlt]

/-- Digits are worth what positional notation says. -/
theorem digitsToNat?_eq_some_iff :
    digitsToNat? base cs = some n ↔ cs ≠ [] ∧ IsDigits base cs n := by
  cases cs with
  | nil => simp [digitsToNat?]
  | cons c cs =>
    rw [← foldlM_addDigit?_eq_some_iff]
    exact (and_iff_right (List.cons_ne_nil c cs)).symm

/-! ## Decimal notation -/

theorem digitValue?_digitChar : ∀ {d : Nat}, d < 10 → digitValue? (Nat.digitChar d) = some d := by
  decide

/-- A digit below ten is written in one way. -/
theorem eq_digitChar_of_digitValue? (h : digitValue? c = some d) (hlt : d < 10) :
    c = Nat.digitChar d := by
  have hrange : '0' ≤ c ∧ c ≤ '9' ∧ d = c.toNat - '0'.toNat := by
    unfold digitValue? at h
    split at h
    · next hdigit =>
      cases h
      exact ⟨hdigit.1, hdigit.2, rfl⟩
    · split at h
      · cases h
        omega
      · split at h
        · cases h
          omega
        · cases h
  obtain ⟨hlow, hhigh, rfl⟩ := hrange
  have hlow : 48 ≤ c.toNat := hlow
  have hhigh : c.toNat ≤ 57 := hhigh
  apply Char.toNat_inj.1
  rw [Nat.toNat_digitChar_of_lt_ten hlt]
  show c.toNat = 48 + (c.toNat - 48)
  omega

/-- The decimal notation of a number comes to the number. -/
theorem isDigits_toDigits (n : Nat) : IsDigits 10 (Nat.toDigits 10 n) n := by
  induction n using Nat.strongRecOn with
  | ind n ih =>
    rw [Nat.toDigits_eq_if (by decide)]
    split
    · next hlt => simpa using IsDigits.nil.append (digitValue?_digitChar hlt) hlt
    · have hmod : n % 10 < 10 := Nat.mod_lt n (by decide)
      have hdigits := (ih (n / 10) (by omega)).append (digitValue?_digitChar hmod) hmod
      rwa [Nat.div_add_mod] at hdigits

theorem eq_zero_of_isDigits (h : IsDigits base cs n) (hnil : cs = []) : n = 0 := by
  cases h with
  | nil => rfl
  | append => simp at hnil

/-- Digits without leading zeros are the decimal notation of what they come to. -/
theorem eq_toDigits_of_isDigits (h : IsDigits 10 cs n) (hne : cs ≠ [])
    (hhead : cs.head? ≠ some '0') : cs = Nat.toDigits 10 n := by
  induction h with
  | nil => exact absurd rfl hne
  | @append cs c m d hdigits hd hlt ih =>
    rw [eq_digitChar_of_digitValue? hd hlt]
    by_cases hfirst : cs = []
    · rw [eq_zero_of_isDigits hdigits hfirst, hfirst, Nat.mul_zero, Nat.zero_add,
        Nat.toDigits_of_lt_base hlt]
      rfl
    · have hhead : cs.head? ≠ some '0' := by
        obtain ⟨first, others, rfl⟩ := List.exists_cons_of_ne_nil hfirst
        simpa using hhead
      have hcs : cs = Nat.toDigits 10 m := ih hfirst hhead
      have hpos : 0 < m := by
        rw [Nat.pos_iff_ne_zero]
        rintro rfl
        simp [hcs] at hhead
      rw [hcs, ← Nat.toDigits_append_toDigits (by decide) hpos hlt, Nat.toDigits_of_lt_base hlt]

end Hex

namespace Yaml

open Hex

/-! ## Numerals -/

/-- The characters are a numeral of a number: its decimal notation, or digits to another base behind
the mark for that base. -/
inductive IsNumeral : List Char → Nat → Prop
  | decimal (n : Nat) : IsNumeral (Nat.toDigits 10 n) n
  | hexadecimal {cs : List Char} {n : Nat} :
    cs ≠ [] → IsDigits 16 cs n → IsNumeral ('0' :: 'x' :: cs) n
  | octal {cs : List Char} {n : Nat} : cs ≠ [] → IsDigits 8 cs n → IsNumeral ('0' :: 'o' :: cs) n
  | binary {cs : List Char} {n : Nat} : cs ≠ [] → IsDigits 2 cs n → IsNumeral ('0' :: 'b' :: cs) n

namespace Value

variable {cs : List Char} {n : Nat} {v : Value}

theorem numeralToNat?_of_head_ne (h : cs.head? ≠ some '0') :
    numeralToNat? cs = digitsToNat? 10 cs := by
  unfold numeralToNat?
  split <;> simp_all

theorem head?_toDigits_ne (h : 0 < n) : (Nat.toDigits 10 n).head? ≠ some '0' := by
  induction n using Nat.strongRecOn with
  | ind n ih =>
    rw [Nat.toDigits_eq_if (by decide)]
    split
    · next hlt =>
      have hdigit : ∀ d < 10, 0 < d → Nat.digitChar d ≠ '0' := by decide
      simpa using hdigit n hlt h
    · have hrest := ih (n / 10) (by omega) (by omega)
      obtain ⟨first, others, hcons⟩ :=
        List.exists_cons_of_ne_nil (Nat.toDigits_ne_nil (n := n / 10) (b := 10))
      simpa [hcons] using hrest

/-- The numerals, and what they are worth. -/
theorem numeralToNat?_eq_some_iff : numeralToNat? cs = some n ↔ IsNumeral cs n := by
  constructor
  · intro h
    unfold numeralToNat? at h
    split at h
    · obtain ⟨hne, hdigits⟩ := digitsToNat?_eq_some_iff.1 h
      exact .hexadecimal hne hdigits
    · obtain ⟨hne, hdigits⟩ := digitsToNat?_eq_some_iff.1 h
      exact .octal hne hdigits
    · obtain ⟨hne, hdigits⟩ := digitsToNat?_eq_some_iff.1 h
      exact .binary hne hdigits
    · cases h
      exact .decimal 0
    · cases h
    · next hzero =>
      obtain ⟨hne, hdigits⟩ := digitsToNat?_eq_some_iff.1 h
      have hhead : cs.head? ≠ some '0' := by
        cases cs with
        | nil => simp
        | cons c cs =>
          intro hc
          obtain rfl : c = '0' := by simpa using hc
          exact hzero cs rfl
      rw [eq_toDigits_of_isDigits hdigits hne hhead]
      exact .decimal n
  · intro h
    cases h with
    | decimal =>
      rcases Nat.eq_zero_or_pos n with rfl | hpos
      · rfl
      · rw [numeralToNat?_of_head_ne (head?_toDigits_ne hpos)]
        exact digitsToNat?_eq_some_iff.2 ⟨Nat.toDigits_ne_nil, isDigits_toDigits n⟩
    | hexadecimal hne hdigits => exact digitsToNat?_eq_some_iff.2 ⟨hne, hdigits⟩
    | octal hne hdigits => exact digitsToNat?_eq_some_iff.2 ⟨hne, hdigits⟩
    | binary hne hdigits => exact digitsToNat?_eq_some_iff.2 ⟨hne, hdigits⟩

/-- No numeral starts with a plus sign. -/
theorem not_isNumeral_plus : ¬ IsNumeral ('+' :: cs) n := by
  rw [← numeralToNat?_eq_some_iff]
  have hnone : numeralToNat? ('+' :: cs) = none := rfl
  simp [hnone]

/-! ## Values -/

/-- A value denotes a number: it is a plain scalar with a numeral of the number, perhaps behind a
plus sign. -/
inductive Denotes : Value → Nat → Prop
  | unsigned {text : String} {n : Nat} : IsNumeral text.toList n → Denotes (plain text) n
  | signed {text : String} {cs : List Char} {n : Nat} :
    text.toList = '+' :: cs → IsNumeral cs n → Denotes (plain text) n

/-- The values that denote a number. -/
theorem toNat?_eq_some_iff : v.toNat? = some n ↔ v.Denotes n := by
  constructor
  · intro h
    cases v with
    | plain text =>
      simp only [toNat?] at h
      split at h
      · next htext => exact .signed htext (numeralToNat?_eq_some_iff.1 h)
      · exact .unsigned (numeralToNat?_eq_some_iff.1 h)
    | quoted text => cases h
    | collection => cases h
  · intro h
    cases h with
    | @unsigned text n h =>
      simp only [toNat?]
      split
      · next htext =>
        rw [htext] at h
        exact absurd h not_isNumeral_plus
      · exact numeralToNat?_eq_some_iff.2 h
    | signed htext h =>
      simp only [toNat?, htext]
      exact numeralToNat?_eq_some_iff.2 h

/-- The values that denote a number of 64 bits. -/
theorem toUInt64?_eq_some_iff {word : UInt64} : v.toUInt64? = some word ↔ v.Denotes word.toNat := by
  rw [toUInt64?, Option.bind_eq_some_iff, ← toNat?_eq_some_iff]
  constructor
  · rintro ⟨n, hn, hword⟩
    split at hword
    · next hlt =>
      cases hword
      rw [hn, Nat.toUInt64, UInt64.toNat_ofNat', Nat.mod_eq_of_lt hlt]
    · cases hword
  · intro h
    refine ⟨word.toNat, h, ?_⟩
    rw [if_pos word.toNat_lt]
    exact congrArg some (UInt64.ofNat_toNat)

/-- A value denotes a truth value: it is a plain scalar with one of the words for it. -/
inductive DenotesTruth : Value → Bool → Prop
  | yes {text : String} : text ∈ ["true", "True", "TRUE"] → DenotesTruth (plain text) true
  | no {text : String} : text ∈ ["false", "False", "FALSE"] → DenotesTruth (plain text) false

/-- The values that denote a truth value. -/
theorem toBool?_eq_some_iff {b : Bool} : v.toBool? = some b ↔ v.DenotesTruth b := by
  constructor
  · intro h
    cases v with
    | plain text =>
      simp only [toBool?] at h
      split at h
      · next hyes =>
        cases h
        exact .yes hyes
      · split at h
        · next hno =>
          cases h
          exact .no hno
        · cases h
    | quoted text => cases h
    | collection => cases h
  · intro h
    cases h with
    | yes h => exact if_pos h
    | no h =>
      have hother : ∀ text ∈ ["false", "False", "FALSE"], text ∉ ["true", "True", "TRUE"] := by
        decide
      exact (if_neg (hother _ h)).trans (if_pos h)

/-- A value that denotes nothing denotes no number. -/
theorem not_denotes_of_isNull (h : v.isNull = true) : ¬ v.Denotes n := by
  rw [← toNat?_eq_some_iff]
  cases v with
  | plain text =>
    have hnone : ∀ text ∈ ["", "~", "null", "Null", "NULL"], (plain text).toNat? = none := by decide
    simp [hnone text (of_decide_eq_true h)]
  | quoted text => cases h
  | collection => cases h

end Value

end Yaml

end ChipEight
