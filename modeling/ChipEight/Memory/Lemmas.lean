import ChipEight.Memory.Basic

/-!
# What the operations do to memory

Memory is seen through `peek`, the byte at each address.

Main results:

- `peek_store`: storing bytes changes exactly the window that they cover.
- `peek_loaded`: what a load puts at each address.
- `window_eq_ok_iff`, `overwrite_eq_ok_iff`, `word_eq_ok_iff`: an access is served exactly if all of
  it lies in memory.
-/

namespace ChipEight.Memory

/-! ## Storing -/

/-- Putting a byte at an address changes the byte there and no other. -/
theorem peek_poke (m : Memory) (a b : Nat) (byte : UInt8) :
    (m.poke a byte).peek b = if b = a ∧ a < memorySize then byte else m.peek b := by
  simp only [peek, poke]
  rw [Vector.getElem?_setIfInBounds]
  by_cases h : a = b
  · subst h
    by_cases ha : a < memorySize <;> simp [ha]
  · rw [if_neg h, if_neg (fun h' => h h'.1.symm)]

/-- Storing bytes changes exactly the window that they cover. -/
theorem peek_store (m : Memory) (a b : Nat) (bytes : List UInt8) :
    (m.store a bytes).peek b =
      if a ≤ b ∧ b < memorySize then bytes[b - a]?.getD (m.peek b) else m.peek b := by
  induction bytes generalizing m a with
  | nil => simp [store]
  | cons byte rest ih =>
    rw [store, ih, peek_poke]
    by_cases hb : b < memorySize
    · by_cases hab : b = a
      · subst hab
        have hlt : ¬ b + 1 ≤ b := by omega
        simp [hb, hlt]
      · by_cases hle : a ≤ b
        · obtain ⟨k, rfl⟩ : ∃ k, b = a + 1 + k := ⟨b - (a + 1), by omega⟩
          have hk : a + 1 + k - a = k + 1 := by omega
          simp [hb, hk, hle, hab]
        · have : ¬ a + 1 ≤ b := by omega
          simp [this, hle, hab]
    · have : ¬ (b = a ∧ a < memorySize) := by omega
      simp [hb, this]

/-! ## Windows -/

/-- A window has as many bytes as it was asked to have. -/
theorem length_bytesAt (m : Memory) (a n : Nat) : (m.bytesAt a n).length = n := by
  simp [bytesAt]

/-- The bytes of a window are those at its addresses, in order. -/
theorem getElem?_bytesAt (m : Memory) {a n i : Nat} (h : i < n) :
    (m.bytesAt a n)[i]? = some (m.peek (a + i)) := by
  simp [bytesAt, h]

/-- A window is read exactly if it lies in memory. -/
theorem window_eq_ok_iff {m : Memory} {a n : Nat} {bytes : List UInt8} :
    m.window a n = .ok bytes ↔ Fits a n ∧ bytes = m.bytesAt a n := by
  unfold window
  split
  · next h => exact ⟨fun e => ⟨h, (Except.ok.inj e).symm⟩, fun e => by rw [e.2]⟩
  · next h => exact ⟨nofun, fun e => absurd e.1 h⟩

/-- A window is replaced exactly if it lies in memory. -/
theorem overwrite_eq_ok_iff {m t : Memory} {a n : Nat} {byte : Nat → UInt8} :
    m.overwrite a n byte = .ok t ↔ Fits a n ∧ t = m.store a ((List.range n).map byte) := by
  unfold overwrite
  split
  · next h => exact ⟨fun e => ⟨h, (Except.ok.inj e).symm⟩, fun e => by rw [e.2]⟩
  · next h => exact ⟨nofun, fun e => absurd e.1 h⟩

/-- A word is read exactly if both its bytes lie in memory. -/
theorem word_eq_ok_iff {m : Memory} {a : Nat} {word : UInt16} :
    m.word a = .ok word ↔
      Fits a 2 ∧ word = (m.peek a).toUInt16 * 0x100 + (m.peek (a + 1)).toUInt16 := by
  unfold Memory.word
  split
  · next h => exact ⟨fun e => ⟨h, (Except.ok.inj e).symm⟩, fun e => by rw [e.2]⟩
  · next h => exact ⟨nofun, fun e => absurd e.1 h⟩

/-- The number that two bytes stand for, the high one first. -/
theorem toNat_word (high low : UInt8) :
    (high.toUInt16 * 0x100 + low.toUInt16).toNat = 256 * high.toNat + low.toNat := by
  have hhigh := high.toNat_lt
  have hlow := low.toNat_lt
  simp only [UInt16.toNat_add, UInt16.toNat_mul, UInt8.toNat_toUInt16, UInt16.reduceToNat]
  omega

/-! ## Loading -/

/-- The byte that a load puts at an address: of a glyph, of the program, or zero. -/
def image (program : List UInt8) (a : Nat) : UInt8 :=
  if a < 80 then Font.glyphs[a]?.getD 0
  else if 0x200 ≤ a ∧ a < 0x200 + program.length then program[a - 0x200]?.getD 0
  else 0

theorem peek_initial {a : Nat} (ha : a < memorySize) :
    initial.peek a = Font.glyphs[a]?.getD 0 := by
  have hzero : zeros.peek a = 0 := by
    simp [zeros, peek, ha]
  unfold initial
  rw [peek_store, if_pos ⟨Nat.zero_le a, ha⟩, hzero]
  rfl

theorem peek_loaded (program : List UInt8) {a : Nat} (ha : a < memorySize) :
    (initial.store programStart program).peek a = image program a := by
  have hglyphs : Font.glyphs.length = 80 := rfl
  have hstart : programStart = 0x200 := rfl
  rw [peek_store, peek_initial ha]
  unfold image
  by_cases hlow : a < 80
  · have hnot : ¬ (programStart ≤ a ∧ a < memorySize) := by omega
    rw [if_pos hlow, if_neg hnot]
  · have hdark : Font.glyphs[a]?.getD 0 = 0 := by
      rw [List.getElem?_eq_none (by omega)]
      rfl
    rw [if_neg hlow, hdark]
    by_cases hprogram : 0x200 ≤ a ∧ a < 0x200 + program.length
    · rw [if_pos ⟨hprogram.1, ha⟩, if_pos hprogram]
    · rw [if_neg hprogram]
      split
      · next h =>
        have hbehind : program.length ≤ a - programStart := by omega
        rw [List.getElem?_eq_none hbehind]
        rfl
      · rfl

/-- A byte of a program is loaded to its place behind the start. -/
theorem peek_program {program : List UInt8} {k : Nat} {byte : UInt8} (h : program[k]? = some byte)
    (hk : programStart + k < memorySize) :
    (initial.store programStart program).peek (programStart + k) = byte := by
  obtain ⟨hlt, -⟩ := List.getElem?_eq_some_iff.1 h
  have hlow : ¬ programStart + k < 80 := by simp only [programStart]; omega
  have hprogram : 0x200 ≤ programStart + k ∧ programStart + k < 0x200 + program.length := by
    simp only [programStart]
    omega
  rw [peek_loaded program hk, image, if_neg hlow, if_pos hprogram, Nat.add_sub_cancel_left, h]
  rfl

end ChipEight.Memory
