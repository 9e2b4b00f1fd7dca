import ChipEight.Instruction.Encode

/-!
# Operands of decoded instructions

Decoding cuts a word into nibbles, a byte and an address of twelve bits, so that the operands of an
instruction that was read from memory always have the widths that `Instruction.WellFormed` asks for.

Main results:

- `wellFormed_ofWord`: whatever the word, its operands fit into their widths, and a word that stands
  for no instruction is unassigned.
-/

namespace ChipEight.Instruction

/-! ## Parts of a word -/

theorem toNat_nibble (word : UInt16) (i : Nat) :
    (nibble word i).toNat = word.toNat >>> (4 * i) % 16 := by
  have h : word.toNat / 16 ^ i % 16 < 16 := Nat.mod_lt _ (by decide)
  simp only [nibble, UInt8.toNat_ofNat']
  exact Nat.mod_eq_of_lt (by omega)

theorem toNat_nibble_lt (word : UInt16) (i : Nat) : (nibble word i).toNat < 16 := by
  rw [toNat_nibble]
  exact Nat.mod_lt _ (by decide)

theorem toNat_lowByte (word : UInt16) : (lowByte word).toNat = word.toNat % 256 := by
  have h : word.toNat % 256 < 256 := Nat.mod_lt _ (by decide)
  simp only [lowByte, UInt8.toNat_ofNat']
  exact Nat.mod_eq_of_lt (by omega)

theorem toNat_lowAddress (word : UInt16) : (lowAddress word).toNat = word.toNat % 4096 := by
  have h : word.toNat % 4096 < 4096 := Nat.mod_lt _ (by decide)
  simp only [lowAddress, UInt16.toNat_ofNat']
  exact Nat.mod_eq_of_lt (by omega)

theorem toNat_lowAddress_lt (word : UInt16) : (lowAddress word).toNat < 0x1000 := by
  rw [toNat_lowAddress]
  exact Nat.mod_lt _ (by decide)

/-- The group that is none of the first fifteen is the last. -/
theorem eq_last_of_notMem {n : UInt8} (hn : n.toNat < 16)
    (h : n ∉ [0x0, 0x1, 0x2, 0x3, 0x4, 0x5, 0x6, 0x7, 0x8, 0x9, 0xA, 0xB, 0xC, 0xD, 0xE]) :
    n = 0xF := by
  simp only [List.mem_cons, List.not_mem_nil, or_false, not_or, ← UInt8.toNat_inj] at h ⊢
  simp at h ⊢
  omega

/-! ## Groups of words -/

/-- An instruction of group 0 has no operands, and its low byte is in use. -/
theorem wellFormed_ofGroup0 {word : UInt16} (h : nibble word 3 = 0x0) :
    ((ofGroup0? (lowByte word)).getD (.unknown word)).WellFormed := by
  unfold ofGroup0?
  split
  · trivial
  · trivial
  · next h1 h2 => exact .inl ⟨h, by simpa using ⟨h1, h2⟩⟩

/-- A nibble that selects no two-register operation and no shift is one of the seven that are not in
use. -/
theorem mem_of_arithmetic?_eq_none {n : UInt8} (hn : n.toNat < 16) (h6 : n ≠ 0x6) (hE : n ≠ 0xE)
    (h : arithmetic? n = none) : n ∈ [0x8, 0x9, 0xA, 0xB, 0xC, 0xD, 0xF] := by
  unfold arithmetic? at h
  split at h
  any_goals cases h
  next h0 h1 h2 h3 h4 h5 h7 =>
    simp only [List.mem_cons, List.not_mem_nil, or_false, ne_eq, ← UInt8.toNat_inj] at *
    simp at *
    omega

/-- An instruction of group 8 selects two registers, and its lowest nibble is in use. -/
theorem wellFormed_ofGroup8 {word : UInt16} {x y : UInt8} (h : nibble word 3 = 0x8)
    (hx : x.toNat < 16) (hy : y.toNat < 16) :
    ((ofGroup8? (nibble word 0) x y).getD (.unknown word)).WellFormed := by
  unfold ofGroup8?
  split
  · exact hx
  · exact hx
  · next h6 hE =>
    cases hop : arithmetic? (nibble word 0) with
    | some op => exact ⟨hx, hy⟩
    | none =>
      have hmem := mem_of_arithmetic?_eq_none (toNat_nibble_lt word 0) h6 hE hop
      exact .inr (.inl ⟨h, hmem⟩)

/-- An instruction of group E selects a register, and its low byte is in use. -/
theorem wellFormed_ofGroupE {word : UInt16} {x : UInt8} (h : nibble word 3 = 0xE)
    (hx : x.toNat < 16) :
    ((ofGroupE? (lowByte word) x).getD (.unknown word)).WellFormed := by
  unfold ofGroupE?
  split
  · exact hx
  · exact hx
  · next h1 h2 => exact .inr (.inr (.inl ⟨h, by simpa using ⟨h1, h2⟩⟩))

/-- An instruction of group F selects a register, and its low byte is in use. -/
theorem wellFormed_ofGroupF {word : UInt16} {x : UInt8} (h : nibble word 3 = 0xF)
    (hx : x.toNat < 16) :
    ((ofGroupF? (lowByte word) x).getD (.unknown word)).WellFormed := by
  unfold ofGroupF?
  split
  any_goals exact hx
  next h1 h2 h3 h4 h5 h6 h7 h8 h9 =>
    exact .inr (.inr (.inr ⟨h, by simpa using ⟨h1, h2, h3, h4, h5, h6, h7, h8, h9⟩⟩))

/-! ## Every word -/

/-- The operands of the instruction that a word stands for fit into their widths. -/
theorem wellFormed_ofWord (word : UInt16) : (ofWord word).WellFormed := by
  have hx := toNat_nibble_lt word 2
  have hy := toNat_nibble_lt word 1
  have hn := toNat_nibble_lt word 0
  have ha := toNat_lowAddress_lt word
  unfold ofWord
  dsimp only
  split
  · next h => exact wellFormed_ofGroup0 h
  · exact ha
  · exact ha
  · exact hx
  · exact hx
  · exact ⟨hx, hy⟩
  · exact hx
  · exact hx
  · next h => exact wellFormed_ofGroup8 h hx hy
  · exact ⟨hx, hy⟩
  · exact ha
  · exact ha
  · exact hx
  · exact ⟨hx, hy, hn⟩
  · next h => exact wellFormed_ofGroupE h hx
  · next h0 h1 h2 h3 h4 h5 h6 h7 h8 h9 hA hB hC hD hE =>
    -- The last group is the one whose highest nibble is none of the others.
    have hlast := eq_last_of_notMem (toNat_nibble_lt word 3)
      (by simpa using ⟨h0, h1, h2, h3, h4, h5, h6, h7, h8, h9, hA, hB, hC, hD, hE⟩)
    exact wellFormed_ofGroupF hlast hx

end ChipEight.Instruction
