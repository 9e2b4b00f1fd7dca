import ChipEight.Proofs.Operands
import ChipEight.Proofs.Course

/-!
# Assembled programs

An instruction is written as a word, a program as the bytes of its words.  Loading such a program
and reading word after word gives the instructions back, and a word that was read is written again
as it was, except for the nibbles that reading does not look at.

Main results:

- `ofWord_toWord`: the word of an instruction with operands in their widths stands for that
  instruction.
- `agreesWith_ofWord`: nibble by nibble, the word that is written for the instruction a word stands
  for.
- `assembled_program_reads_back`: both, with the first for a whole program in memory.
-/

namespace ChipEight.Instruction

/-- The nibbles, counted from the lowest, that reading does not look at in a word that stands for
the instruction. -/
def ignored : Instruction → List Nat
  | clear | ret => [2]
  | skipEq _ _ | skipNe _ _ => [0]
  | shiftRight _ | shiftLeft _ => [1]
  | _ => []

/-- Reading looks at the group of every word. -/
theorem three_notMem_ignored (i : Instruction) : 3 ∉ i.ignored := by
  cases i <;> simp [ignored]

/-! ## Words put together from parts -/

section Parts

variable {group n address : UInt16} {x y byte : UInt8}

theorem toNat_withByte (hgroup : group.toNat < 16) (hx : x.toNat < 16) :
    (withByte group x byte).toNat = group.toNat * 4096 + x.toNat * 256 + byte.toNat := by
  have hbyte := byte.toNat_lt
  simp only [withByte, UInt16.toNat_add, UInt16.toNat_mul, UInt8.toNat_toUInt16, UInt16.reduceToNat]
  omega

theorem toNat_withNibbles (hgroup : group.toNat < 16) (hx : x.toNat < 16) (hy : y.toNat < 16)
    (hn : n.toNat < 16) :
    (withNibbles group x y n).toNat =
      group.toNat * 4096 + x.toNat * 256 + y.toNat * 16 + n.toNat := by
  simp only [withNibbles, UInt16.toNat_add, UInt16.toNat_mul, UInt8.toNat_toUInt16,
    UInt16.reduceToNat]
  omega

theorem toNat_withAddress (hgroup : group.toNat < 16) (haddress : address.toNat < 0x1000) :
    (withAddress group address).toNat = group.toNat * 4096 + address.toNat := by
  simp only [withAddress, UInt16.toNat_add, UInt16.toNat_mul, UInt16.reduceToNat]
  omega

/-- A word that was put together from a group, a register and a byte falls apart into them. -/
theorem parts_withByte (hgroup : group.toNat < 16) (hx : x.toNat < 16) :
    nibble (withByte group x byte) 3 = group.toUInt8 ∧ nibble (withByte group x byte) 2 = x ∧
      lowByte (withByte group x byte) = byte := by
  have hword : (withByte group x byte).toNat = _ := toNat_withByte hgroup hx
  have hbyte := byte.toNat_lt
  simp only [← UInt8.toNat_inj, toNat_nibble, toNat_lowByte, hword, UInt16.toNat_toUInt8,
    Nat.shiftRight_eq_div_pow]
  omega

/-- A word that was put together from a group, two registers and a lowest nibble falls apart into
them. -/
theorem parts_withNibbles (hgroup : group.toNat < 16) (hx : x.toNat < 16) (hy : y.toNat < 16)
    (hn : n.toNat < 16) :
    nibble (withNibbles group x y n) 3 = group.toUInt8 ∧ nibble (withNibbles group x y n) 2 = x ∧
      nibble (withNibbles group x y n) 1 = y ∧ nibble (withNibbles group x y n) 0 = n.toUInt8 := by
  have hword := toNat_withNibbles hgroup hx hy hn
  simp only [← UInt8.toNat_inj, toNat_nibble, hword, UInt16.toNat_toUInt8,
    Nat.shiftRight_eq_div_pow]
  omega

/-- A word that was put together from a group and an address falls apart into them. -/
theorem parts_withAddress (hgroup : group.toNat < 16) (haddress : address.toNat < 0x1000) :
    nibble (withAddress group address) 3 = group.toUInt8 ∧
      lowAddress (withAddress group address) = address := by
  have hword := toNat_withAddress hgroup haddress
  simp only [← UInt8.toNat_inj, ← UInt16.toNat_inj, toNat_nibble, toNat_lowAddress, hword,
    UInt16.toNat_toUInt8, Nat.shiftRight_eq_div_pow]
  omega

end Parts

/-! ## Reading a written word -/

/-- A word that stands for no instruction is read as unknown. -/
theorem ofWord_of_unassigned {word : UInt16} (h : Unassigned word) :
    ofWord word = unknown word := by
  obtain ⟨h3, hbyte⟩ | ⟨h3, hn⟩ | ⟨h3, hbyte⟩ | ⟨h3, hbyte⟩ := h
  · have hnone : ofGroup0? (lowByte word) = none := by
      unfold ofGroup0?
      split <;> simp_all
    simp [ofWord, h3, hnone]
  · have hnone : ofGroup8? (nibble word 0) (nibble word 2) (nibble word 1) = none := by
      simp only [List.mem_cons, List.not_mem_nil, or_false] at hn
      rcases hn with h | h | h | h | h | h | h <;> rw [h] <;> rfl
    simp [ofWord, h3, hnone]
  · have hnone : ofGroupE? (lowByte word) (nibble word 2) = none := by
      unfold ofGroupE?
      split <;> simp_all
    simp [ofWord, h3, hnone]
  · have hnone : ofGroupF? (lowByte word) (nibble word 2) = none := by
      unfold ofGroupF?
      split <;> simp_all
    simp [ofWord, h3, hnone]

/-- The selector of a two-register operation is that of no shift. -/
theorem ofGroup8?_selector (op : Arithmetic) (x y : UInt8) :
    ofGroup8? op.selector.toUInt8 x y = some (arith op x y) := by
  cases op <;> rfl

/-- The word of an instruction with operands in their widths stands for that instruction. -/
theorem ofWord_toWord {i : Instruction} (h : i.WellFormed) : ofWord i.toWord = i := by
  cases i with
  | clear | ret => rfl
  | jump address | call address | setIndex address | jumpOffset address =>
    have haddress : address.toNat < 0x1000 := h
    simp [toWord, ofWord, parts_withAddress, haddress]
  | skipEqByte x byte | skipNeByte x byte | setByte x byte | addByte x byte | random x byte =>
    have hx : x.toNat < 16 := h
    simp [toWord, ofWord, parts_withByte, hx]
  | skipEq x y | skipNe x y =>
    simp [toWord, ofWord, parts_withNibbles, h.1, h.2]
  | arith op x y =>
    have hop : op.selector.toNat < 16 := by cases op <;> decide
    simp [toWord, ofWord, parts_withNibbles, h.1, h.2, hop, ofGroup8?_selector]
  | draw x y rows =>
    simp [toWord, ofWord, parts_withNibbles, h.1, h.2.1, h.2.2]
  | shiftRight x | shiftLeft x =>
    have hx : x.toNat < 16 := h
    simp [toWord, ofWord, parts_withNibbles, hx, ofGroup8?]
  | skipPressed x | skipNotPressed x =>
    have hx : x.toNat < 16 := h
    simp [toWord, ofWord, parts_withByte, hx, ofGroupE?]
  | readDelay x | awaitKey x | setDelay x | setSound x | addIndex x | pointGlyph x | storeDigits x
  | save x | restore x =>
    have hx : x.toNat < 16 := h
    simp [toWord, ofWord, parts_withByte, hx, ofGroupF?]
  | unknown word => exact ofWord_of_unassigned h

/-! ## Writing a word that was read -/

section Reassembly

variable {word group : UInt16}

/-- The four nibbles of a word make up the word. -/
theorem toNat_eq_nibbles (word : UInt16) :
    word.toNat = (nibble word 3).toNat * 4096 + (nibble word 2).toNat * 256 +
      (nibble word 1).toNat * 16 + (nibble word 0).toNat := by
  have hword := word.toNat_lt
  simp only [toNat_nibble, Nat.shiftRight_eq_div_pow]
  omega

/-- Group, register and byte make up the word. -/
theorem withByte_parts (hgroup : group.toNat < 16) (h : nibble word 3 = group.toUInt8) :
    withByte group (nibble word 2) (lowByte word) = word := by
  have hword := toNat_eq_nibbles word
  have h0 := toNat_nibble_lt word 0
  have h1 := toNat_nibble_lt word 1
  rw [← UInt16.toNat_inj, toNat_withByte hgroup (toNat_nibble_lt word 2), toNat_lowByte]
  rw [← UInt8.toNat_inj, UInt16.toNat_toUInt8] at h
  omega

/-- Group, registers and lowest nibble make up the word. -/
theorem withNibbles_parts {n : UInt16} (hgroup : group.toNat < 16)
    (h : nibble word 3 = group.toUInt8) (hn : (nibble word 0).toUInt16 = n) :
    withNibbles group (nibble word 2) (nibble word 1) n = word := by
  have hword := toNat_eq_nibbles word
  have hlow : n.toNat = (nibble word 0).toNat := by rw [← hn, UInt8.toNat_toUInt16]
  have h0 := toNat_nibble_lt word 0
  rw [← UInt16.toNat_inj, toNat_withNibbles hgroup (toNat_nibble_lt word 2) (toNat_nibble_lt word 1)
    (by omega)]
  rw [← UInt8.toNat_inj, UInt16.toNat_toUInt8] at h
  omega

/-- Group and address make up the word. -/
theorem withAddress_parts (hgroup : group.toNat < 16) (h : nibble word 3 = group.toUInt8) :
    withAddress group (lowAddress word) = word := by
  have hword := toNat_eq_nibbles word
  have h0 := toNat_nibble_lt word 0
  have h1 := toNat_nibble_lt word 1
  have h2 := toNat_nibble_lt word 2
  rw [← UInt16.toNat_inj, toNat_withAddress hgroup (toNat_lowAddress_lt word), toNat_lowAddress]
  rw [← UInt8.toNat_inj, UInt16.toNat_toUInt8] at h
  omega

end Reassembly

/-- The word that is written for the instruction is the given word with zero in the nibbles that
reading does not look at. -/
def AgreesWith (i : Instruction) (word : UInt16) : Prop :=
  ∀ j < 4, nibble i.toWord j = if j ∈ i.ignored then 0 else nibble word j

/-- An instruction that is written as the word agrees with it, if reading looks at every nibble. -/
theorem agreesWith_of_toWord_eq {i : Instruction} {word : UInt16} (hignored : i.ignored = [])
    (h : i.toWord = word) : i.AgreesWith word := by
  intro j _
  rw [hignored, h, if_neg List.not_mem_nil]

/-- An instruction that is written with two registers and a lowest nibble agrees with a word of its
group from which it has taken those that it does not ignore. -/
theorem agreesWith_of_toWord_eq_withNibbles {i : Instruction} {group word : UInt16} {x y : UInt8}
    {n : UInt16} (hi : i.toWord = withNibbles group x y n) (hgroup : group.toNat < 16)
    (hn : n.toNat < 16) (h3 : nibble word 3 = group.toUInt8)
    (h2 : x = if 2 ∈ i.ignored then 0 else nibble word 2)
    (h1 : y = if 1 ∈ i.ignored then 0 else nibble word 1)
    (h0 : n.toUInt8 = if 0 ∈ i.ignored then 0 else nibble word 0) : i.AgreesWith word := by
  have hlt {z : UInt8} (j : Nat) (hz : z = if j ∈ i.ignored then 0 else nibble word j) :
      z.toNat < 16 := by
    rw [hz]
    split
    · decide
    · exact toNat_nibble_lt word j
  obtain ⟨hthree, htwo, hone, hzero⟩ := parts_withNibbles hgroup (hlt 2 h2) (hlt 1 h1) hn
  intro j hj
  rw [hi]
  match j, hj with
  | 0, _ => rw [hzero, h0]
  | 1, _ => rw [hone, h1]
  | 2, _ => rw [htwo, h2]
  | 3, _ => rw [hthree, if_neg i.three_notMem_ignored, h3]

/-- The two lowest nibbles of a word make up its low byte. -/
theorem nibbles_of_lowByte (word : UInt16) :
    (nibble word 1).toNat = (lowByte word).toNat / 16 ∧
      (nibble word 0).toNat = (lowByte word).toNat % 16 := by
  simp only [toNat_nibble, toNat_lowByte, Nat.shiftRight_eq_div_pow]
  omega

theorem agreesWith_ofGroup0 {word : UInt16} (h : nibble word 3 = 0x0) :
    ((ofGroup0? (lowByte word)).getD (.unknown word)).AgreesWith word := by
  obtain ⟨h1, h0⟩ := nibbles_of_lowByte word
  unfold ofGroup0?
  split
  · next hbyte =>
    rw [hbyte] at h1 h0
    have hword : clear.toWord = withNibbles 0x0 0 0xE 0 := rfl
    exact agreesWith_of_toWord_eq_withNibbles hword (by decide) (by decide) h rfl
      (UInt8.toNat_inj.1 h1.symm) (UInt8.toNat_inj.1 h0.symm)
  · next hbyte =>
    rw [hbyte] at h1 h0
    have hword : ret.toWord = withNibbles 0x0 0 0xE 0xE := rfl
    exact agreesWith_of_toWord_eq_withNibbles hword (by decide) (by decide) h rfl
      (UInt8.toNat_inj.1 h1.symm) (UInt8.toNat_inj.1 h0.symm)
  · exact agreesWith_of_toWord_eq rfl rfl

/-- The operation with the given lowest nibble has it as its selector. -/
theorem toUInt16_eq_selector {n : UInt8} {op : Arithmetic} (h : arithmetic? n = some op) :
    n.toUInt16 = op.selector := by
  unfold arithmetic? at h
  split at h <;> cases h <;> rfl

theorem agreesWith_ofGroup8 {word : UInt16} (h : nibble word 3 = 0x8) :
    ((ofGroup8? (nibble word 0) (nibble word 2) (nibble word 1)).getD (.unknown word)).AgreesWith
      word := by
  unfold ofGroup8?
  split
  · next hn =>
    have hword : (shiftRight (nibble word 2)).toWord = withNibbles 0x8 (nibble word 2) 0 0x6 := rfl
    exact agreesWith_of_toWord_eq_withNibbles hword (by decide) (by decide) h rfl rfl hn.symm
  · next hn =>
    have hword : (shiftLeft (nibble word 2)).toWord = withNibbles 0x8 (nibble word 2) 0 0xE := rfl
    exact agreesWith_of_toWord_eq_withNibbles hword (by decide) (by decide) h rfl rfl hn.symm
  · cases hop : arithmetic? (nibble word 0) with
    | some op =>
      exact agreesWith_of_toWord_eq rfl (withNibbles_parts (by decide) h (toUInt16_eq_selector hop))
    | none => exact agreesWith_of_toWord_eq rfl rfl

theorem agreesWith_ofGroupE {word : UInt16} (h : nibble word 3 = 0xE) :
    ((ofGroupE? (lowByte word) (nibble word 2)).getD (.unknown word)).AgreesWith word := by
  have hword : withByte 0xE (nibble word 2) (lowByte word) = word := withByte_parts (by decide) h
  unfold ofGroupE?
  split
  case h_3 => exact agreesWith_of_toWord_eq rfl rfl
  all_goals
    next hbyte =>
      rw [hbyte] at hword
      exact agreesWith_of_toWord_eq rfl hword

theorem agreesWith_ofGroupF {word : UInt16} (h : nibble word 3 = 0xF) :
    ((ofGroupF? (lowByte word) (nibble word 2)).getD (.unknown word)).AgreesWith word := by
  have hword : withByte 0xF (nibble word 2) (lowByte word) = word := withByte_parts (by decide) h
  unfold ofGroupF?
  split
  case h_10 => exact agreesWith_of_toWord_eq rfl rfl
  all_goals
    next hbyte =>
      rw [hbyte] at hword
      exact agreesWith_of_toWord_eq rfl hword

/-- The word that is written for the instruction a word stands for is that word, with zero in the
nibbles that reading does not look at. -/
theorem agreesWith_ofWord (word : UInt16) : (ofWord word).AgreesWith word := by
  unfold ofWord
  dsimp only
  split
  · next h => exact agreesWith_ofGroup0 h
  · next h => exact agreesWith_of_toWord_eq rfl (withAddress_parts (by decide) h)
  · next h => exact agreesWith_of_toWord_eq rfl (withAddress_parts (by decide) h)
  · next h => exact agreesWith_of_toWord_eq rfl (withByte_parts (by decide) h)
  · next h => exact agreesWith_of_toWord_eq rfl (withByte_parts (by decide) h)
  · next h =>
    exact agreesWith_of_toWord_eq_withNibbles rfl (by decide) (by decide) h rfl rfl rfl
  · next h => exact agreesWith_of_toWord_eq rfl (withByte_parts (by decide) h)
  · next h => exact agreesWith_of_toWord_eq rfl (withByte_parts (by decide) h)
  · next h => exact agreesWith_ofGroup8 h
  · next h =>
    exact agreesWith_of_toWord_eq_withNibbles rfl (by decide) (by decide) h rfl rfl rfl
  · next h => exact agreesWith_of_toWord_eq rfl (withAddress_parts (by decide) h)
  · next h => exact agreesWith_of_toWord_eq rfl (withAddress_parts (by decide) h)
  · next h => exact agreesWith_of_toWord_eq rfl (withByte_parts (by decide) h)
  · next h => exact agreesWith_of_toWord_eq rfl (withNibbles_parts (by decide) h rfl)
  · next h => exact agreesWith_ofGroupE h
  · next h0 h1 h2 h3 h4 h5 h6 h7 h8 h9 hA hB hC hD hE =>
    have hlast := eq_last_of_notMem (toNat_nibble_lt word 3)
      (by simpa using ⟨h0, h1, h2, h3, h4, h5, h6, h7, h8, h9, hA, hB, hC, hD, hE⟩)
    exact agreesWith_ofGroupF hlast

/-- A word that is read as unknown is read as itself. -/
theorem eq_of_ofWord_eq_unknown {word other : UInt16} (h : ofWord word = unknown other) :
    other = word := by
  have hagrees := agreesWith_ofWord word
  rw [h] at hagrees
  have hnibble (j : Nat) (hj : j < 4) : nibble other j = nibble word j := hagrees j hj
  rw [← UInt16.toNat_inj, toNat_eq_nibbles other, toNat_eq_nibbles word, hnibble 0 (by omega),
    hnibble 1 (by omega), hnibble 2 (by omega), hnibble 3 (by omega)]

/-! ## Programs as bytes -/

theorem length_assemble (program : List Instruction) :
    (assemble program).length = 2 * program.length := by
  induction program with
  | nil => rfl
  | cons i rest ih =>
    rw [assemble, List.flatMap_cons, List.length_append, ← assemble, ih]
    simp only [bytesOfWord, List.length_cons, List.length_nil]
    omega

/-- The bytes of the instruction at a place in a program, high byte first. -/
theorem getElem?_assemble {program : List Instruction} {k : Nat} {i : Instruction}
    (h : program[k]? = some i) :
    (assemble program)[2 * k]? = some (i.toWord.toNat / 256).toUInt8 ∧
      (assemble program)[2 * k + 1]? = some (i.toWord.toNat % 256).toUInt8 := by
  induction program generalizing k with
  | nil => cases h
  | cons first rest ih =>
    cases k with
    | zero =>
      cases h
      exact ⟨rfl, rfl⟩
    | succ k => exact ih h

/-- The two bytes of a word make up the word. -/
theorem bytes_eq_word (word : UInt16) :
    (word.toNat / 256).toUInt8.toUInt16 * 0x100 + (word.toNat % 256).toUInt8.toUInt16 = word := by
  have hword := word.toNat_lt
  simp only [← UInt16.toNat_inj, UInt16.toNat_add, UInt16.toNat_mul, UInt8.toNat_toUInt16,
    UInt16.reduceToNat, UInt8.toNat_ofNat']
  omega

/-- The word at the place of an instruction of a loaded program is the word of that instruction. -/
theorem word_assembled {program : List Instruction} (hlength : program.length ≤ 1792) {k : Nat}
    {i : Instruction} (h : program[k]? = some i) :
    (Memory.initial.store programStart (assemble program)).word (programStart + 2 * k) =
      .ok i.toWord := by
  obtain ⟨hhigh, hlow⟩ := getElem?_assemble h
  obtain ⟨hk, -⟩ := List.getElem?_eq_some_iff.1 h
  have hend : programStart + 2 * k + 1 < memorySize := by
    simp only [programStart, memorySize]
    omega
  rw [Memory.word_eq_ok_iff, Memory.peek_program hhigh (Nat.lt_of_succ_lt hend), Nat.add_assoc,
    Memory.peek_program hlow hend, bytes_eq_word]
  exact ⟨⟨by omega, hend⟩, rfl⟩

/-- A program of up to 1792 instructions with operands in their widths, written as bytes and loaded,
is read back instruction by instruction.  Conversely, whatever word is read, the operands of the
instruction fit into their widths, and the word that is written for it has zero in the nibbles that
reading does not look at and is otherwise the word that was read. -/
theorem assembled_program_reads_back :
    (∀ (m : Machine) (program : List Instruction), (∀ i ∈ program, i.WellFormed) →
      program.length ≤ 1792 →
      ∃ loaded, m.load (assemble program) = .ok loaded ∧
        ∀ k i, program[k]? = some i →
          (loaded.memory.word (programStart + 2 * k)).map ofWord = .ok i) ∧
    ∀ word : UInt16, (ofWord word).WellFormed ∧ (ofWord word).AgreesWith word := by
  refine ⟨fun m program hwell hlength => ?_,
    fun word => ⟨wellFormed_ofWord word, agreesWith_ofWord word⟩⟩
  have hle : (assemble program).length ≤ programCapacity := by
    rw [length_assemble]
    simp only [programCapacity, memorySize, programStart]
    omega
  refine ⟨m.loaded (assemble program), m.load_of_le hle, fun k i h => ?_⟩
  rw [Machine.memory_loaded, word_assembled hlength h]
  show Except.ok (ofWord i.toWord) = .ok i
  rw [ofWord_toWord (hwell i (List.mem_of_getElem? h))]

/-- A program with a word that stands for no instruction in it is read back, and the lowest nibble
of a word of group 5 is not looked at. -/
theorem assembled_program_reads_back_unknown :
    assemble [draw 1 2 5, unknown 0x8128, ret] = [0xD1, 0x25, 0x81, 0x28, 0x00, 0xEE] ∧
      (∃ loaded, (Machine.fresh {} .zero).load [0xD1, 0x25, 0x81, 0x28, 0x00, 0xEE] = .ok loaded ∧
        (loaded.memory.word 0x202).map ofWord = .ok (unknown 0x8128)) ∧
      nibble (ofWord 0x5AB7).toWord 0 = 0 := by
  have hbytes : assemble [draw 1 2 5, unknown 0x8128, ret] =
      [0xD1, 0x25, 0x81, 0x28, 0x00, 0xEE] := by decide
  have hwell : ∀ i ∈ [draw 1 2 5, unknown 0x8128, ret], i.WellFormed := by decide
  obtain ⟨hread, hwrite⟩ := assembled_program_reads_back
  obtain ⟨loaded, hloaded, hwords⟩ := hread (Machine.fresh {} .zero) _ hwell (by decide)
  rw [hbytes] at hloaded
  exact ⟨hbytes, ⟨loaded, hloaded, hwords 1 _ rfl⟩, (hwrite 0x5AB7).2 0 (by decide)⟩

end ChipEight.Instruction
