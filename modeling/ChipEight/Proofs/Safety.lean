import ChipEight.Proofs.Bounds
import ChipEight.Proofs.Guarded

/-!
# Steps without hazards

In a machine that keeps its bounds, every check of a guarded step holds, and the guarded step does
what the step does.  There is one exception, drawing no rows at address 0: the last address of that
window is worked out although there is none.

Main results:

- `guardedRows_eq`: a sprite is drawn on a screen of any size without leaving it.
- `guardedExecute_eq`: no instruction that was fetched from memory meets a hazard.
- `reachable_step_without_hazard`: the bounds and the absence of hazards in every reachable machine.
-/

namespace ChipEight

open Guarded

/-! ## Checks that hold -/

namespace Guarded

@[simp]
theorem ok_bind {α β : Type} (a : α) (f : α → Except Hazard β) : (Except.ok a >>= f) = f a := rfl

@[simp]
theorem error_bind {α β : Type} (hazard : Hazard) (f : α → Except Hazard β) :
    (Except.error hazard >>= f) = .error hazard := rfl

@[simp]
theorem pure_eq {α : Type} (a : α) : (pure a : Except Hazard α) = .ok a := rfl

theorem require_of {condition : Prop} [Decidable condition] (h : condition) (hazard : Hazard) :
    require condition hazard = .ok () := if_pos h

theorem below_of_lt {limit n : Nat} (h : n < limit) : below limit n = .ok n := if_pos h

theorem signedByte_of_le {n : Int} (hlow : -128 ≤ n) (hhigh : n ≤ 127) : signedByte n = .ok n :=
  if_pos ⟨hlow, hhigh⟩

theorem remainder_of_pos {divisor : Nat} (h : 0 < divisor) (n : Nat) :
    remainder n divisor = .ok (n % divisor) := if_neg (Nat.ne_of_gt h)

theorem entry_of_lt {α : Type} {table : List α} {position : Nat} (h : position < table.length) :
    entry table position = .ok table[position] := by
  unfold entry
  have hpos : ¬ (position : Int) < 0 := by omega
  rw [if_neg hpos]
  simp [h]

end Guarded

/-! ## Registers -/

namespace Registers

theorem guardedSkip_eq {r : Registers} (h : r.pc.toNat + 2 < wordLimit) :
    r.guardedSkip = .ok r.skip := by
  have hpc : (r.pc.toNat + 2).toUInt16 = r.pc + 2 := by
    rw [Nat.toUInt16_eq, UInt16.ofNat_add, UInt16.ofNat_toNat]
    rfl
  simp only [guardedSkip, below_of_lt h, ok_bind, pure_eq, hpc, skip]

theorem guardedSkipIf_eq {r : Registers} (h : r.pc.toNat + 2 < wordLimit) (condition : Bool) :
    r.guardedSkipIf condition = .ok (r.skipIf condition) := by
  cases condition with
  | false => rfl
  | true => exact guardedSkip_eq h

/-- A call puts the return address into a cell of the stack, and its pointer stays a signed byte. -/
theorem guardedCall_eq {r : Registers} (h : r.stack.depth ≤ stackCapacity) (address : UInt16) :
    r.guardedCall address = .ok (r.call address) := by
  have hcap : stackCapacity = 16 := rfl
  have htop : r.stack.pointer + 1 = r.stack.depth := by unfold CallStack.pointer; omega
  unfold guardedCall call CallStack.push?
  rw [htop]
  by_cases hfull : r.stack.depth < stackCapacity
  · have hroom : ¬ (stackCapacity : Int) ≤ (r.stack.depth : Int) := by omega
    have hcell : r.stack.depth < r.stack.cells.toList.length := by simpa using hfull
    have hdepth : ((r.stack.depth : Int) + 1).toNat = r.stack.depth + 1 := by omega
    rw [if_neg hroom, if_pos hfull, signedByte_of_le (by omega) (by omega), ok_bind,
      entry_of_lt hcell, ok_bind, hdepth]
    rfl
  · have hnone : (stackCapacity : Int) ≤ (r.stack.depth : Int) := by omega
    rw [if_pos hnone, if_neg hfull]
    rfl

/-- A return reads a cell of the stack, and its pointer stays a signed byte. -/
theorem guardedRet_eq {r : Registers} (h : r.stack.depth ≤ stackCapacity) :
    r.guardedRet = .ok r.ret := by
  have hcap : stackCapacity = 16 := rfl
  have hpointer : r.stack.pointer = (r.stack.depth : Int) - 1 := rfl
  unfold guardedRet ret CallStack.pop?
  cases hdepth : r.stack.depth with
  | zero =>
    have hempty : r.stack.pointer < 0 := by omega
    rw [if_pos hempty]
    rfl
  | succ below =>
    have hsome : ¬ r.stack.pointer < 0 := by omega
    have htop : r.stack.pointer = (below : Int) := by omega
    have hcell : below < r.stack.cells.toList.length := by simp; omega
    have hbelow : ((below : Int) - 1 + 1).toNat = below := by omega
    rw [if_neg hsome, htop, entry_of_lt hcell, ok_bind,
      signedByte_of_le (by omega) (by omega), ok_bind, hbelow]
    have hget : r.stack.cells[below]?.getD 0 = r.stack.cells.toList[below] := by
      have : below < stackCapacity := by omega
      simp [this]
    simp only [hget, pure_eq]

/-- There are as many registers as an instruction can ask for. -/
theorem guardedFirst_eq (r : Registers) {count : Nat} (h : count ≤ registerCount) :
    r.guardedFirst count =
      .ok ((List.range count).map fun i => r.general[i]?.getD 0) := by
  have htake : r.general.toList.take count =
      (List.range count).map fun i => r.general[i]?.getD 0 := by
    refine List.ext_getElem (by simpa using h) ?_
    intro i h1 h2
    have hi : i < count := by simpa using h2
    have hlt : i < registerCount := Nat.lt_of_lt_of_le hi h
    simp [hlt]
  simp only [guardedFirst, require_of h, ok_bind, pure_eq, htake]

end Registers

/-! ## Memory -/

namespace Memory

theorem bytesAt_succ (m : Memory) (address length : Nat) :
    m.bytesAt address (length + 1) = m.peek address :: m.bytesAt (address + 1) length := by
  unfold bytesAt
  rw [List.range_succ_eq_map, List.map_cons, List.map_map]
  refine congrArg₂ List.cons rfl (List.map_congr_left fun i _ => ?_)
  show m.peek (address + (i + 1)) = m.peek (address + 1 + i)
  rw [Nat.add_right_comm, Nat.add_assoc]

theorem entry_bytes (m : Memory) {address : Nat} (h : address < memorySize) :
    entry m.bytes.toList address = .ok (m.peek address) := by
  have hlt : address < m.bytes.toList.length := by simpa using h
  rw [entry_of_lt hlt]
  simp [peek, h]

/-- Every byte of a window that lies in memory can be read. -/
theorem guardedBytes_eq (m : Memory) {address length : Nat} (h : address + length ≤ memorySize) :
    m.guardedBytes address length = .ok (m.bytesAt address length) := by
  induction length generalizing address with
  | zero => rfl
  | succ length ih =>
    have hrest := @ih (address + 1) (by omega)
    simp only [guardedBytes, entry_bytes m (by omega : address < memorySize), ok_bind, hrest,
      pure_eq, bytesAt_succ]

/-- Every byte of a window that lies in memory can be replaced. -/
theorem guardedStore_eq (m : Memory) {address : Nat} {bytes : List UInt8}
    (h : address + bytes.length ≤ memorySize) :
    m.guardedStore address bytes = .ok (m.store address bytes) := by
  induction bytes generalizing m address with
  | nil => rfl
  | cons byte rest ih =>
    rw [List.length_cons] at h
    have hrest := @ih (m.poke address byte) (address + 1) (by omega)
    simp only [guardedStore, entry_bytes m (by omega : address < memorySize), ok_bind, hrest, store]

/-- A window that does not start and end at address 0 has a last address. -/
theorem guardedLast_eq {address length : Nat} (h : 0 < address + length) :
    ∃ last, guardedLast address length = .ok last ∧
      outOfRange address length = .addressOutOfRange last := by
  have hlimit : 0 < addressLimit := by decide
  unfold guardedLast outOfRange
  cases hmin : min (address + length) addressLimit with
  | zero => omega
  | succ last => exact ⟨last, rfl, rfl⟩

/-- Reading a window meets no hazard, unless the window has no last address. -/
theorem guardedWindow_eq (m : Memory) {address length : Nat} (h : 0 < address + length) :
    m.guardedWindow address length = .ok (m.window address length) := by
  obtain ⟨last, hlast, hfault⟩ := guardedLast_eq h
  unfold guardedWindow window
  rw [hlast, ok_bind]
  by_cases hle : address + length ≤ memorySize
  · rw [if_pos hle, if_pos ⟨h, hle⟩, guardedBytes_eq m hle]
    rfl
  · rw [if_neg hle, if_neg (fun hfits => hle hfits.2), hfault]
    rfl

theorem guardedWindow_zero (m : Memory) : m.guardedWindow 0 0 = .error .range := rfl

/-- Replacing a window meets no hazard, if as many bytes are at hand as the window has. -/
theorem guardedOverwrite_eq (m : Memory) {address length : Nat} (h : 0 < address + length)
    {bytes : Except Hazard (List UInt8)} {byte : Nat → UInt8}
    (hbytes : bytes = .ok ((List.range length).map byte)) :
    m.guardedOverwrite address length bytes = .ok (m.overwrite address length byte) := by
  obtain ⟨last, hlast, hfault⟩ := guardedLast_eq h
  unfold guardedOverwrite overwrite
  rw [hlast, ok_bind, hbytes]
  by_cases hle : address + length ≤ memorySize
  · have hlength : ((List.range length).map byte).length = length := by simp
    rw [if_pos hle, if_pos ⟨h, hle⟩, ok_bind, require_of hlength, ok_bind,
      guardedStore_eq m (by rw [hlength]; exact hle)]
    rfl
  · rw [if_neg hle, if_neg (fun hfits => hle hfits.2), hfault]
    rfl

end Memory

/-! ## Screen -/

namespace Screen

/-- The bit that a row is shifted and masked to is 1 or 0 as the row's bit is set or not. -/
theorem shifted_eq_rowBit (row : UInt8) {c : Nat} (h : c < spriteWidth) :
    (row >>> (spriteWidth - 1 - c).toUInt8) &&& 1 = if rowBit row c = true then 1 else 0 := by
  have hshift : (spriteWidth - 1 - c).toUInt8.toNat % 8 = spriteWidth - 1 - c := by
    have hwidth : spriteWidth = 8 := rfl
    rw [Nat.toUInt8_eq, UInt8.toNat_ofNat']
    omega
  have hnat : ((row >>> (spriteWidth - 1 - c).toUInt8) &&& 1).toNat =
      (row.toNat >>> (spriteWidth - 1 - c)) % 2 := by
    rw [UInt8.toNat_and, UInt8.toNat_shiftRight, hshift]
    exact Nat.and_one_is_mod _
  rw [← UInt8.toNat_inj, hnat]
  unfold rowBit
  rw [Nat.testBit_eq_decide_div_mod_eq, Nat.shiftRight_eq_div_pow]
  rcases Nat.mod_two_eq_zero_or_one (row.toNat / 2 ^ (spriteWidth - 1 - c)) with h0 | h1
  · rw [h0]; rfl
  · rw [h1]; rfl

/-- Writing back the value that a cell has changes nothing. -/
theorem put_get (s : Screen) (x y : Nat) : s.put x y (s.get x y) = s := by
  unfold put get
  split
  · have hcells : s.cells.setIfInBounds (s.index x y) (s.cells[s.index x y]?.getD 0) = s.cells := by
      refine Array.ext (by simp) fun i h1 h2 => ?_
      rw [Array.getElem_setIfInBounds]
      split
      · next heq => simp [heq, h2]
      · rfl
    rw [hcells]
  · rfl

/-- The position of a cell is worked out for the cells of the screen and no others. -/
theorem guardedIndex_eq {s : Screen} (hsize : s.width * s.height < countLimit) (x y : Nat) :
    s.guardedIndex x y = if s.Contains x y then .ok (x + y * s.width) else .error .cell := by
  unfold guardedIndex require
  split
  · next hc =>
    have hindex := index_lt hc
    unfold index at hindex
    rw [ok_bind, below_of_lt (by omega), ok_bind, below_of_lt (by omega)]
  · rfl

/-- Writing to a cell of the screen stays inside the screen. -/
theorem guardedPixel_eq {s : Screen} (hs : s.Sized) (hsize : s.width * s.height < countLimit)
    {x y : Nat} (hc : s.Contains x y) (bit : UInt8) :
    s.guardedPixel x y bit =
      .ok (s.put x y (s.get x y ^^^ bit), s.darkens x y (s.get x y ^^^ bit)) := by
  have hlt : s.index x y < s.cells.toList.length := by
    rw [Array.length_toList, hs]
    exact index_lt hc
  have hget : s.get x y = s.cells.toList[s.index x y] := by
    have : s.index x y < s.cells.size := by simpa using hlt
    simp [get, hc.1, hc.2, this]
  rw [guardedPixel, guardedIndex_eq hsize, if_pos hc, ok_bind,
    show x + y * s.width = s.index x y from rfl, entry_of_lt hlt, ok_bind, ← hget, put,
    if_pos hc, pure_eq]
  have herased : (s.get x y != 0 && s.get x y ^^^ bit == 0) =
      s.darkens x y (s.get x y ^^^ bit) := by
    unfold darkens
    by_cases h0 : s.get x y = 0 <;> by_cases h1 : s.get x y ^^^ bit = 0 <;> simp [h0, h1]
  rw [herased]

variable {width height : Nat}

/-- Writing the bits of a row in some columns toggles the cells on which its set bits fall. -/
theorem guardedColumns_eq {s : Screen} (hs : s.Sized) (hw : s.width = width)
    (hh : s.height = height) (hsize : width * height < countLimit) (hwidth : 0 < width)
    (hheight : 0 < height) {x y : Nat} (hx : x + spriteWidth ≤ countLimit) (hy : y < countLimit)
    (row : UInt8) {columns : List Nat} (hcolumns : ∀ c ∈ columns, c < spriteWidth) :
    s.guardedColumns x y row columns =
      .ok (s.toggleAll ((columns.filter (rowBit row)).map fun c =>
        ((x + c) % width, y % height))) := by
  induction columns generalizing s with
  | nil => rfl
  | cons c columns ih =>
    have hc : c < spriteWidth := hcolumns c (List.mem_cons_self ..)
    have hrest : ∀ c ∈ columns, c < spriteWidth := fun c hmem =>
      hcolumns c (List.mem_cons_of_mem _ hmem)
    have hcell : s.Contains ((x + c) % width) (y % height) := by
      constructor
      · rw [hw]; exact Nat.mod_lt _ hwidth
      · rw [hh]; exact Nat.mod_lt _ hheight
    have hpixel := guardedPixel_eq hs (by rw [hw, hh]; exact hsize) hcell
    simp only [guardedColumns, below_of_lt (by omega : x + c < countLimit), below_of_lt hy,
      ok_bind, hw, hh, remainder_of_pos hwidth, remainder_of_pos hheight, require_of hc,
      shifted_eq_rowBit row hc, hpixel]
    -- A bit that is not set writes back the value that the cell has.
    by_cases hbit : rowBit row c = true
    · have hmore := ih (sized_toggle hs ((x + c) % width, y % height))
        ((width_toggle s _).trans hw) ((height_toggle s _).trans hh) hrest
      simp only [if_pos hbit, List.filter_cons_of_pos hbit, List.map_cons, toggleAll]
      rw [show s.put ((x + c) % width) (y % height)
        (s.get ((x + c) % width) (y % height) ^^^ 1) =
          s.toggle ((x + c) % width, y % height) from rfl, hmore]
      rfl
    · have hmore := ih hs hw hh hrest
      have hkeep : s.darkens ((x + c) % width) (y % height)
          (s.get ((x + c) % width) (y % height)) = false := by
        simp [darkens]
      rw [if_neg hbit, UInt8.xor_zero, put_get, hkeep, hmore, List.filter_cons_of_neg hbit]
      simp

/-- Writing a sprite row by row is drawing it. -/
theorem guardedRows_eq {s : Screen} (hs : s.Sized) (hw : s.width = width)
    (hh : s.height = height) (hsize : width * height < countLimit) (hwidth : 0 < width)
    (hheight : 0 < height) {x y : Nat} (hx : x + spriteWidth ≤ countLimit)
    {sprite : List UInt8} (hy : y + sprite.length ≤ countLimit) :
    s.guardedRows x y sprite = .ok (s.drawSprite x y sprite) := by
  induction sprite generalizing s y with
  | nil => rfl
  | cons row rows ih =>
    rw [List.length_cons] at hy
    have hcolumns : ∀ c ∈ List.range spriteWidth, c < spriteWidth := fun c hc =>
      List.mem_range.1 hc
    have hrow := guardedColumns_eq hs hw hh hsize hwidth hheight hx (by omega : y < countLimit) row
      hcolumns
    have hfirst : ((List.range spriteWidth).filter (rowBit row)).map
        (fun c => ((x + c) % width, y % height)) = s.rowFootprint x y row := by
      rw [← hw, ← hh]
      rfl
    rw [hfirst] at hrow
    have hkept := toggleAll_keeps hs (s.rowFootprint x y row)
    have hrows := ih (s := (s.toggleAll (s.rowFootprint x y row)).1) hkept.1
      (hkept.2.1.trans hw) (hkept.2.2.trans hh) (y := y + 1) (by omega)
    have hfootprint : (s.toggleAll (s.rowFootprint x y row)).1.footprint x (y + 1) rows =
        s.footprint x (y + 1) rows := footprint_congr hkept.2.1 hkept.2.2 x (y + 1) rows
    simp only [guardedRows, hrow, ok_bind, hrows, pure_eq, drawSprite, hfootprint]
    rw [footprint, toggleAll_append]

end Screen

/-! ## Machine -/

namespace Machine

variable {δ : Type} [Devices δ] {m : Machine} {settings : Settings}

/-- Drawing stays inside memory and screen, unless there is no window to draw from. -/
theorem guardedDraw_eq (hscreen : m.screen.Regular settings.screenWidth settings.screenHeight)
    (hpos : 0 < settings.screenWidth ∧ 0 < settings.screenHeight)
    (hsize : settings.screenWidth * settings.screenHeight < countLimit) (d : δ) {x y rows : UInt8}
    (hwindow : 0 < m.registers.index.toNat + rows.toNat) :
    m.guardedDraw d x y rows = .ok (m.draw d x y rows) := by
  unfold guardedDraw draw
  simp only [Memory.guardedWindow_eq m.memory hwindow, ok_bind, pure_eq]
  cases hsprite : m.memory.window m.registers.index.toNat rows.toNat with
  | error fault => rfl
  | ok sprite =>
    have hlength : sprite.length = rows.toNat := by
      rw [(Memory.window_eq_ok_iff.1 hsprite).2, Memory.length_bytesAt]
    have hlimit : countLimit = 0x10000000000000000 := rfl
    have hwidth : spriteWidth = 8 := rfl
    have hx := (m.registers.get x).toNat_lt
    have hy := (m.registers.get y).toNat_lt
    have hrows := rows.toNat_lt
    have hcolumns : (m.registers.get x).toNat + spriteWidth ≤ countLimit := by omega
    have hlast : (m.registers.get y).toNat + sprite.length ≤ countLimit := by omega
    have hdraw := Screen.guardedRows_eq hscreen.sized hscreen.width_eq hscreen.height_eq hsize
      hpos.1 hpos.2 hcolumns hlast
    simp only [hdraw, ok_bind]
    rcases Devices.draw (m.screen.drawSprite (m.registers.get x).toNat
      (m.registers.get y).toNat sprite).1 d with ⟨answer, after⟩
    cases answer <;> rfl

/-- Drawing no rows at address 0 is a hazard. -/
theorem guardedDraw_zero (h : m.registers.index = 0) (d : δ) (x y : UInt8) :
    m.guardedDraw d x y 0 = .error .range := by
  have hwindow : m.memory.guardedWindow m.registers.index.toNat (UInt8.toNat 0) =
      .error .range := by
    rw [h]
    exact Memory.guardedWindow_zero m.memory
  unfold guardedDraw
  simp only [hwindow, error_bind]

/-- A skip on a key does not wrap the program counter around. -/
theorem guardedSkipOnKey_eq (hpc : m.registers.pc.toNat + 2 < wordLimit) (d : δ) (x : UInt8)
    (wanted : Bool) : m.guardedSkipOnKey d x wanted = .ok (m.skipOnKey d x wanted) := by
  unfold guardedSkipOnKey skipOnKey
  rcases Devices.pollKey d with ⟨answer, after⟩
  cases answer with
  | error fault => rfl
  | ok key => simp only [Registers.guardedSkipIf_eq hpc, ok_bind, pure_eq]

/-- No instruction with operands of the right widths meets a hazard behind an address of memory,
unless it draws from a window that has no last address. -/
theorem guardedExecute_eq (hstack : m.registers.stack.Bounded)
    (hpc : m.registers.pc.toNat ≤ memorySize)
    (hscreen : m.screen.Regular settings.screenWidth settings.screenHeight)
    (hpos : 0 < settings.screenWidth ∧ 0 < settings.screenHeight)
    (hsize : settings.screenWidth * settings.screenHeight < countLimit)
    {i : Instruction} (hi : i.WellFormed)
    (hdraw : ∀ x y rows, i = .draw x y rows → 0 < m.registers.index.toNat + rows.toNat) (d : δ) :
    m.guardedExecute d i = .ok (m.execute d i) := by
  have hend : memorySize = 0x1000 := rfl
  have hword : wordLimit = 0x10000 := rfl
  have hskip : m.registers.pc.toNat + 2 < wordLimit := by omega
  cases i with
  | ret =>
    unfold guardedExecute
    simp only [Registers.guardedRet_eq hstack.depth_le, ok_bind, pure_eq]
    rfl
  | call address =>
    unfold guardedExecute
    simp only [Registers.guardedCall_eq hstack.depth_le, ok_bind, pure_eq]
    rfl
  | skipEqByte | skipNeByte | skipEq | skipNe =>
    unfold guardedExecute
    simp only [Registers.guardedSkipIf_eq hskip, ok_bind, pure_eq]
    rfl
  | jumpOffset address =>
    have haddress : address.toNat < 0x1000 := hi
    have hbyte := (m.registers.get 0).toNat_lt
    have htarget : ((m.registers.get 0).toNat + address.toNat).toUInt16 =
        (m.registers.get 0).toUInt16 + address := by
      rw [Nat.toUInt16_eq, UInt16.ofNat_add, UInt16.ofNat_toNat, UInt16.ofNat_uInt8ToNat]
    have hsum : (m.registers.get 0).toNat + address.toNat < wordLimit := by omega
    unfold guardedExecute
    simp only [below_of_lt hsum, ok_bind, pure_eq, htarget]
    rfl
  | draw x y rows =>
    exact guardedDraw_eq hscreen hpos hsize d (hdraw x y rows rfl)
  | skipPressed x => exact guardedSkipOnKey_eq hskip d x true
  | skipNotPressed x => exact guardedSkipOnKey_eq hskip d x false
  | pointGlyph x =>
    have hbyte := (m.registers.get x).toNat_lt
    have hglyph : Font.start + (m.registers.get x).toNat * Font.glyphHeight < wordLimit := by
      simp only [Font.start, Font.glyphHeight]
      omega
    unfold guardedExecute
    simp only [below_of_lt hglyph, ok_bind, pure_eq]
    rfl
  | storeDigits x =>
    have hwindow : 0 < m.registers.index.toNat + 3 := by omega
    unfold guardedExecute
    simp only [Memory.guardedOverwrite_eq m.memory hwindow rfl, ok_bind, pure_eq]
    rfl
  | save x =>
    have hx : x.toNat < 16 := hi
    have hwindow : 0 < m.registers.index.toNat + (x.toNat + 1) := by omega
    have hfirst := Registers.guardedFirst_eq m.registers (Nat.succ_le_of_lt hx)
    unfold guardedExecute
    simp only [Memory.guardedOverwrite_eq m.memory hwindow hfirst, ok_bind, pure_eq]
    rfl
  | restore x =>
    have hx : x.toNat < 16 := hi
    have hwindow : 0 < m.registers.index.toNat + (x.toNat + 1) := by omega
    have hfirst := Registers.guardedFirst_eq m.registers (Nat.succ_le_of_lt hx)
    unfold guardedExecute
    simp only [execute, Memory.guardedWindow_eq m.memory hwindow, hfirst, ok_bind,
      pure_eq]
    cases hbytes : m.memory.window m.registers.index.toNat (x.toNat + 1) with
    | error fault => rfl
    | ok bytes =>
      have hlength : bytes.length =
          ((List.range x.toNat.succ).map fun i => m.registers.general[i]?.getD 0).length := by
        rw [(Memory.window_eq_ok_iff.1 hbytes).2, Memory.length_bytesAt]
        simp
      simp only [require_of hlength, ok_bind]
  | _ => rfl

/-- Without an upcoming instruction a guarded step ends in the same fault as the step. -/
theorem guardedStep_of_upcoming_eq_none (h : m.upcoming? = none) (d : δ) :
    m.guardedStep d = .ok (m.step d) := by
  have hlt := upcoming?_eq_none_iff.1 h
  have hfits : ¬ Memory.Fits m.registers.pc.toNat 2 := by
    simp only [Memory.Fits, memorySize]
    omega
  have hpos : 0 < m.registers.pc.toNat + 2 := by omega
  have hwindow := Memory.guardedWindow_eq m.memory hpos
  unfold guardedStep step fetch Memory.word
  rw [hwindow, ok_bind, Memory.window, if_neg hfits, if_neg hfits]
  rfl

/-- A guarded step executes the upcoming instruction, once the program counter has passed it. -/
theorem guardedStep_of_upcoming {i : Instruction} (h : m.upcoming? = some i) (d : δ) :
    m.guardedStep d =
      (m.advanced.guardedExecute d i).map fun o => o.around m.registers.pc i := by
  have hpc := pc_le_of_upcoming h
  have hfits : Memory.Fits m.registers.pc.toNat 2 := by
    simp only [Memory.Fits, memorySize]
    omega
  have hwindow := Memory.guardedWindow_eq m.memory hfits.1
  have hskip : m.registers.guardedSkip = .ok m.registers.skip :=
    Registers.guardedSkip_eq (by simp only [wordLimit]; omega)
  have hword : Instruction.ofWord ((m.memory.peek m.registers.pc.toNat).toUInt16 * 0x100 +
      (m.memory.peek (m.registers.pc.toNat + 1)).toUInt16) = i := by
    unfold upcoming? fetch Memory.word at h
    rw [if_pos hfits] at h
    exact Option.some.inj h
  have hbytes : m.memory.bytesAt m.registers.pc.toNat 2 =
      [m.memory.peek m.registers.pc.toNat, m.memory.peek (m.registers.pc.toNat + 1)] := by
    simp only [Memory.bytesAt_succ]
    rfl
  unfold guardedStep
  rw [hwindow, ok_bind, Memory.window, if_pos hfits, hbytes]
  simp only [entry, hskip]
  show (m.advanced.guardedExecute d (Instruction.ofWord _) >>= fun o => pure _) = _
  rw [hword]
  cases m.advanced.guardedExecute d i <;> rfl

/-- In a machine that keeps its bounds a guarded step meets a hazard exactly if it draws no rows at
address 0, and otherwise it is the step. -/
theorem Sound.guardedStep_eq (h : m.Sound settings)
    (hsize : settings.screenWidth * settings.screenHeight < countLimit) (d : δ) :
    (m.DrawsNothing → m.guardedStep d = .error .range) ∧
      (¬ m.DrawsNothing → m.guardedStep d = .ok (m.step d)) := by
  cases hi : m.upcoming? with
  | none =>
    refine ⟨?_, fun _ => guardedStep_of_upcoming_eq_none hi d⟩
    rintro ⟨x, y, hdraw, -⟩
    rw [hi] at hdraw
    cases hdraw
  | some i =>
    rw [guardedStep_of_upcoming hi, step_of_upcoming hi]
    constructor
    · rintro ⟨x, y, hdraw, hindex⟩
      rw [hi] at hdraw
      cases hdraw
      show Except.map _ (m.advanced.guardedDraw d x y 0) = _
      have hzero : m.advanced.registers.index = 0 := hindex
      rw [guardedDraw_zero hzero]
      rfl
    · intro hdraws
      have hstack : m.advanced.registers.stack.Bounded := h.stack
      have hscreen : m.advanced.screen.Regular settings.screenWidth settings.screenHeight :=
        h.screen
      have hpc := toNat_pc_advanced hi
      have hle := pc_le_of_upcoming hi
      have hhigh : m.advanced.registers.pc.toNat ≤ memorySize := by
        simp only [memorySize]
        omega
      have hwindow : ∀ x y rows, i = .draw x y rows →
          0 < m.advanced.registers.index.toNat + rows.toNat := by
        rintro x y rows rfl
        exact pos_of_upcoming_draw hdraws hi
      rw [guardedExecute_eq hstack hhigh hscreen h.size_pos hsize (wellFormed_of_upcoming hi)
        hwindow d]
      rfl

end Machine

/-! ## Reachable machines -/

/-- The bounds of every reachable machine, and what follows from them: a guarded step meets no
hazard, and is the step, unless it draws no rows at address 0. -/
theorem reachable_step_without_hazard {settings : Settings} {m : Machine}
    (h : Reachable settings m)
    (hsize : settings.screenWidth * settings.screenHeight < 2 ^ 64) :
    m.registers.pc.toNat ≤ 0x10FE ∧
      (-1 ≤ m.registers.stack.pointer ∧ m.registers.stack.pointer ≤ 15) ∧
      (∀ i : Nat, (i : Int) ≤ m.registers.stack.pointer →
        ∃ address, m.registers.stack.cells[i]? = some address ∧
          2 ≤ address.toNat ∧ address.toNat ≤ 0x1000) ∧
      (m.screen.width = settings.screenWidth ∧ m.screen.height = settings.screenHeight ∧
        m.screen.cells.size = settings.screenWidth * settings.screenHeight ∧
        ∀ cell ∈ m.screen.cells, cell = 0 ∨ cell = 1) ∧
      ∀ {δ : Type} [Devices δ] (d : δ),
        (m.DrawsNothing → m.guardedStep d = .error .range) ∧
          (¬ m.DrawsNothing → m.guardedStep d = .ok (m.step d)) := by
  have hsound := h.sound
  have hdepth : m.registers.stack.depth ≤ 16 := hsound.stack.depth_le
  have hpointer : m.registers.stack.pointer = (m.registers.stack.depth : Int) - 1 := rfl
  refine ⟨hsound.pc_le, ⟨by omega, by omega⟩, ?_, ?_, ?_⟩
  · intro i hi
    have hlt : i < m.registers.stack.depth := by omega
    have hcell : i < stackCapacity := Nat.lt_of_lt_of_le hlt hdepth
    refine ⟨m.registers.stack.cells[i], by simp [hcell], ?_⟩
    refine hsound.stack.mem_bounds _ (List.mem_of_getElem? (i := i) ?_)
    simp [CallStack.toList, hlt, hcell]
  · refine ⟨hsound.screen.width_eq, hsound.screen.height_eq, ?_, hsound.screen.binary⟩
    rw [hsound.screen.sized, hsound.screen.width_eq, hsound.screen.height_eq]
  · intro δ _ d
    exact hsound.guardedStep_eq hsize d

/-- A program that calls itself is executed without a hazard. -/
theorem reachable_step_without_hazard_call :
    ∃ m : Machine, Reachable {} m ∧ m.upcoming? = some (.call 0x200) ∧
      m.registers.pc.toNat ≤ 0x10FE ∧ m.guardedStep Headless.mk = .ok (m.step Headless.mk) := by
  have hreach : Reachable {} ((Machine.fresh {} .zero).loaded [0x22, 0x00]) :=
    .fresh_loaded (by decide) (by decide)
  have hcall : ((Machine.fresh {} .zero).loaded [0x22, 0x00]).upcoming? = some (.call 0x200) :=
    Machine.upcoming?_loaded _ 0x22 0x00 []
  have hall := reachable_step_without_hazard hreach (by decide)
  refine ⟨_, hreach, hcall, hall.1, (hall.2.2.2.2 Headless.mk).2 ?_⟩
  rintro ⟨x, y, hdraw, -⟩
  rw [hcall] at hdraw
  cases hdraw

end ChipEight
