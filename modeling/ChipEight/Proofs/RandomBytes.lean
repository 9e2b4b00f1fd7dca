import ChipEight.Proofs.Course

/-!
# Random bytes over a lifetime

A machine has one source of random bytes from the day on which it is built.  Loading a program does
not start it again, and nothing but the instruction that asks for a random byte moves it on, so that
the bytes which the programs of a machine are given are the low bytes of the words of one key
stream, in order.

The generator keeps the rest of a block at hand.  How many words it has handed out determines it,
which gives the generator after any number of words without the buffer.

Main results:

- `Generator.nextByte_handedOut`: the byte that comes after a number of words.
- `Machine.random_act`: what an action does to the source of random bytes.
- `random_bytes_in_order`: the bytes that are given over a course of actions from power-on.
-/

namespace ChipEight

/-! ## The generator after a number of words -/

namespace Generator

/-- The generator for a key that has handed out a number of words: the block of the next word is at
hand unless that word is its first. -/
def handedOut (key : ChaCha.Key) (count : Nat) : Generator where
  key := key
  nextBlock := ((count + 15) / 16).toUInt64
  pending :=
    if count % 16 = 0 then []
    else (ChaCha.block key (count / 16).toUInt64).toList.drop (count % 16)

theorem handedOut_zero (key : ChaCha.Key) : handedOut key 0 = { key } := rfl

/-- Among the words of its block a word of the key stream stands in front of the later ones. -/
theorem drop_block (key : ChaCha.Key) (count : Nat) :
    (ChaCha.block key (count / 16).toUInt64).toList.drop (count % 16) =
      ChaCha.word key count ::
        (ChaCha.block key (count / 16).toUInt64).toList.drop (count % 16 + 1) := by
  have hlt : count % 16 < (ChaCha.block key (count / 16).toUInt64).toList.length := by
    rw [Vector.length_toList]
    exact Nat.mod_lt _ (by decide)
  rw [List.drop_eq_getElem_cons hlt]
  rfl

/-- At the start of a block the next word is its first, and the others stay at hand. -/
theorem nextWord_of_mod_eq_zero (key : ChaCha.Key) {count : Nat} (h : count % 16 = 0) :
    (handedOut key count).nextWord = (ChaCha.word key count, handedOut key (count + 1)) := by
  have hwords := drop_block key count
  rw [h, List.drop_zero] at hwords
  have hblock : (count + 15) / 16 = count / 16 := by omega
  have hlater : (count + 1 + 15) / 16 = count / 16 + 1 := by omega
  have hsame : (count + 1) / 16 = count / 16 := by omega
  have hone : (count + 1) % 16 = 1 := by omega
  simp only [nextWord, handedOut, h, hblock, hlater, hsame, hone, ↓reduceIte, Nat.one_ne_zero]
  refine Prod.ext (congrArg (·.headD 0) hwords) ?_
  simp [Nat.toUInt64]

/-- Within a block the next word is the first of those at hand. -/
theorem nextWord_of_mod_ne_zero (key : ChaCha.Key) {count : Nat} (h : count % 16 ≠ 0) :
    (handedOut key count).nextWord = (ChaCha.word key count, handedOut key (count + 1)) := by
  have hpending : (handedOut key count).pending =
      ChaCha.word key count ::
        (ChaCha.block key (count / 16).toUInt64).toList.drop (count % 16 + 1) :=
    (if_neg h).trans (drop_block key count)
  have hblock : (count + 1 + 15) / 16 = (count + 15) / 16 := by omega
  simp only [nextWord, hpending]
  refine Prod.ext rfl ?_
  simp only [handedOut, hblock]
  by_cases hend : (count + 1) % 16 = 0
  · -- That was the last word of the block.
    have hlast : (ChaCha.block key (count / 16).toUInt64).toList.drop (count % 16 + 1) = [] := by
      rw [List.drop_eq_nil_iff, Vector.length_toList]
      omega
    rw [if_pos hend, hlast]
  · have hsame : (count + 1) / 16 = count / 16 := by omega
    have hnext : (count + 1) % 16 = count % 16 + 1 := by omega
    rw [if_neg hend, hsame, hnext]

/-- After a number of words comes the word of the key stream with that number. -/
theorem nextWord_handedOut (key : ChaCha.Key) (count : Nat) :
    (handedOut key count).nextWord = (ChaCha.word key count, handedOut key (count + 1)) := by
  by_cases h : count % 16 = 0
  · exact nextWord_of_mod_eq_zero key h
  · exact nextWord_of_mod_ne_zero key h

/-- After a number of words comes the low byte of the word of the key stream with that number. -/
theorem nextByte_handedOut (key : ChaCha.Key) (count : Nat) :
    (handedOut key count).nextByte =
      ((ChaCha.word key count).toUInt8, handedOut key (count + 1)) := by
  rw [nextByte, nextWord_handedOut]

end Generator

/-! ## Instructions that take a random byte -/

/-- The instruction asks for a random byte. -/
def Instruction.isRandom : Instruction → Bool
  | .random _ _ => true
  | _ => false

variable {δ : Type}

/-- A random byte is taken at a moment. -/
def Moment.rolls (t : Moment δ) : Bool :=
  t.action = .step && t.machine.upcoming?.any Instruction.isRandom

theorem Moment.rolls_eq_true_iff {t : Moment δ} :
    t.rolls = true ↔ t.action = .step ∧ ∃ x mask, t.machine.upcoming? = some (.random x mask) := by
  rw [rolls, Bool.and_eq_true, decide_eq_true_iff, Option.any_eq_true]
  refine and_congr_right fun _ => ⟨?_, ?_⟩
  · rintro ⟨i, hi, hrandom⟩
    cases i with
    | random x mask => exact ⟨x, mask, hi⟩
    | _ => cases hrandom
  · rintro ⟨x, mask, hi⟩
    exact ⟨_, hi, rfl⟩

namespace Machine

variable [Devices δ]

/-- A step that asks for a random byte puts it into its register, under its mask, and succeeds. -/
theorem step_of_random {m : Machine} {x mask : UInt8} (hi : m.upcoming? = some (.random x mask))
    (d : δ) :
    (m.step d).result = .ok .next ∧
      (m.step d).machine =
        { m.advanced with
          registers := m.advanced.registers.set x (mask &&& m.random.nextByte.1)
          random := m.random.nextByte.2 } := by
  rw [result_step_of_upcoming hi, machine_step_of_upcoming hi]
  exact ⟨rfl, rfl⟩

/-- What an action does to the source of random bytes. -/
theorem random_act (m : Machine) (d : δ) (action : Action) :
    (m.act d action).machine.random =
      if (Moment.mk m d action).rolls then m.random.nextByte.2 else m.random := by
  cases action with
  | load program =>
    by_cases hle : program.length ≤ programCapacity
    · rw [machine_act_load_of_le m d hle]
      rfl
    · rw [act_load_of_lt m d (Nat.not_le.1 hle)]
      rfl
  | step =>
    show (m.step d).machine.random = _
    cases hi : m.upcoming? with
    | none =>
      rw [step_of_upcoming_eq_none hi]
      simp only [Moment.rolls, hi]
      rfl
    | some i =>
      rw [machine_step_of_upcoming hi, machine_execute]
      simp only [Moment.rolls, hi]
      cases i <;> rfl
  | tickDelay => rfl
  | tickSound => rfl

/-! ## Courses of actions -/

/-- From a machine on that has been given a number of random bytes, each byte that is given over a
course of actions is the next one. -/
theorem random_of_getElem?_filter {m : Machine} {key : ChaCha.Key} {count : Nat}
    (h : m.random = .handedOut key count) (d : δ) (actions : List Action) {k : Nat} {t : Moment δ}
    (ht : ((m.history d actions).filter Moment.rolls)[k]? = some t) :
    t.rolls = true ∧ t.machine.random = .handedOut key (count + k) := by
  induction actions generalizing m d count k with
  | nil => cases ht
  | cons action actions ih =>
    have hnext := random_act m d action
    rw [history] at ht
    cases hrolls : (Moment.mk m d action).rolls with
    | false =>
      rw [List.filter_cons_of_neg (by rw [hrolls]; exact Bool.false_ne_true)] at ht
      rw [hrolls] at hnext
      exact ih (hnext.trans h) _ ht
    | true =>
      rw [List.filter_cons_of_pos hrolls] at ht
      rw [hrolls, if_pos rfl, h, Generator.nextByte_handedOut] at hnext
      cases k with
      | zero =>
        cases ht
        exact ⟨hrolls, h⟩
      | succ k =>
        obtain ⟨hlater, hrandom⟩ := ih hnext _ ht
        refine ⟨hlater, ?_⟩
        rw [hrandom]
        congr 1
        omega

end Machine

/-- Over any course of actions from power-on, the bytes that instructions ask for come in the order
of one key stream, which the seed determines: the one that is asked for after `k` others is the low
byte of word `k`, and it goes into the register of its instruction under the mask there.  Nothing
else moves the stream on: no other instruction, no load, and nothing that ends in a fault. -/
theorem random_bytes_in_order {settings : Settings} {hostKey : ChaCha.Key} {m : Machine}
    (h : Machine.build settings hostKey = .ok m) [Devices δ] (d : δ) (actions : List Action) :
    (∀ (k : Nat) (t : Moment δ), ((m.history d actions).filter Moment.rolls)[k]? = some t →
      ∃ x mask, t.action = .step ∧ t.machine.upcoming? = some (.random x mask) ∧
        t.outcome.result = .ok .next ∧
        t.outcome.machine.registers.get x = mask &&& (ChaCha.word
          (Generator.keyFrom settings.seed hostKey) k).toUInt8 ∧
        t.outcome.machine =
          { t.machine.advanced with
            registers := t.machine.advanced.registers.set x (mask &&& (ChaCha.word
              (Generator.keyFrom settings.seed hostKey) k).toUInt8)
            random := t.outcome.machine.random }) ∧
      (∀ t : Moment δ, t.rolls = false → t.outcome.machine.random = t.machine.random) ∧
      ∀ (t : Moment δ) (fault : Fault), t.outcome.result = .error fault →
        t.outcome.machine.random = t.machine.random := by
  have hstays (t : Moment δ) (ht : t.rolls = false) :
      t.outcome.machine.random = t.machine.random := by
    have hact := Machine.random_act t.machine t.devices t.action
    rw [ht] at hact
    exact hact
  refine ⟨?_, hstays, ?_⟩
  · intro k t ht
    obtain ⟨-, rfl⟩ := Machine.build_eq_ok_iff.1 h
    have hstart : (Machine.fresh settings hostKey).random =
        .handedOut (Generator.keyFrom settings.seed hostKey) 0 :=
      (Generator.handedOut_zero _).symm
    obtain ⟨hrolls, hrandom⟩ := Machine.random_of_getElem?_filter hstart d actions ht
    rw [Nat.zero_add] at hrandom
    obtain ⟨haction, x, mask, hi⟩ := Moment.rolls_eq_true_iff.1 hrolls
    have houtcome : t.outcome = t.machine.step t.devices := by
      rw [Moment.outcome, haction]
      rfl
    obtain ⟨hresult, hmachine⟩ := Machine.step_of_random hi t.devices
    rw [hrandom, Generator.nextByte_handedOut, ← houtcome] at hmachine
    rw [← houtcome] at hresult
    refine ⟨x, mask, haction, hi, hresult, ?_, ?_⟩
    · rw [hmachine, Registers.get_set, if_pos rfl]
    · rw [hmachine]
  · intro t fault hfault
    cases hrolls : t.rolls with
    | false => exact hstays t hrolls
    | true =>
      -- To take a random byte does not fail.
      obtain ⟨haction, x, mask, hi⟩ := Moment.rolls_eq_true_iff.1 hrolls
      have hresult : t.outcome.result = .ok .next := by
        rw [Moment.outcome, haction]
        exact (Machine.step_of_random hi t.devices).1
      rw [hresult] at hfault
      cases hfault

/-- With the seed 1, a program that is loaded after another one has taken a byte is given the second
byte of the stream. -/
theorem random_bytes_in_order_second :
    ∃ m : Machine, Machine.build { seed := some 1 } .zero = .ok m ∧
      (m.after Headless.mk
        [.load [0xC3, 0x00], .step, .load [0xC0, 0xFF], .step]).1.registers.get 0 = 0x64 := by
  obtain ⟨m, hm⟩ : ∃ m, m = Machine.fresh { seed := some 1 } .zero := ⟨_, rfl⟩
  have hbuild : Machine.build { seed := some 1 } .zero = .ok m :=
    Machine.build_eq_ok_iff.2 ⟨by decide, hm⟩
  obtain ⟨n, hn⟩ : ∃ n, n = ((m.loaded [0xC3, 0x00]).step Headless.mk).machine := ⟨_, rfl⟩
  have hactions : m.history Headless.mk [.load [0xC3, 0x00], .step, .load [0xC0, 0xFF], .step] =
      [⟨m, Headless.mk, .load [0xC3, 0x00]⟩, ⟨m.loaded [0xC3, 0x00], Headless.mk, .step⟩,
        ⟨n, Headless.mk, .load [0xC0, 0xFF]⟩, ⟨n.loaded [0xC0, 0xFF], Headless.mk, .step⟩] ∧
      (m.after Headless.mk [.load [0xC3, 0x00], .step, .load [0xC0, 0xFF], .step]).1 =
        ((n.loaded [0xC0, 0xFF]).step Headless.mk).machine := by
    have hload (n : Machine) (program : List UInt8) (hle : program.length ≤ programCapacity) :
        n.act Headless.mk (.load program) =
          ⟨n.loaded program, Headless.mk, .ok .next, (n.loadEvents program).toArray⟩ := by
      simp only [Machine.act, Machine.load_of_le n hle]
    simp only [Machine.history, Machine.after, hload _ [0xC3, 0x00] (by decide),
      hload _ [0xC0, 0xFF] (by decide), hn]
    exact ⟨rfl, rfl⟩
  have hfirst : (Moment.mk (m.loaded [0xC3, 0x00]) Headless.mk .step).rolls = true :=
    Moment.rolls_eq_true_iff.2 ⟨rfl, 3, 0, Machine.upcoming?_loaded m 0xC3 0x00 []⟩
  have hsecond : (n.loaded [0xC0, 0xFF]).upcoming? = some (.random 0 0xFF) :=
    Machine.upcoming?_loaded n 0xC0 0xFF []
  have hrolls : (Moment.mk (n.loaded [0xC0, 0xFF]) Headless.mk .step).rolls = true :=
    Moment.rolls_eq_true_iff.2 ⟨rfl, 0, 0xFF, hsecond⟩
  have hquiet (n : Machine) (program : List UInt8) :
      ¬ (Moment.mk n Headless.mk (.load program)).rolls = true := Bool.false_ne_true
  obtain ⟨x, mask, -, hi, -, hbyte, -⟩ := (random_bytes_in_order hbuild Headless.mk
    [.load [0xC3, 0x00], .step, .load [0xC0, 0xFF], .step]).1 1
      ⟨n.loaded [0xC0, 0xFF], Headless.mk, .step⟩ (by
        rw [hactions.1, List.filter_cons_of_neg (hquiet _ _), List.filter_cons_of_pos hfirst,
          List.filter_cons_of_neg (hquiet _ _), List.filter_cons_of_pos hrolls]
        rfl)
  obtain ⟨rfl, rfl⟩ : x = 0 ∧ mask = 0xFF := by
    rw [hsecond] at hi
    cases hi
    exact ⟨rfl, rfl⟩
  have hword : (ChaCha.word (Generator.keyOfSeed 1) 1).toUInt8 = 0x64 := by decide +kernel
  refine ⟨m, hbuild, ?_⟩
  rw [hactions.2]
  refine hbyte.trans ?_
  show 0xFF &&& (ChaCha.word (Generator.keyOfSeed 1) 1).toUInt8 = 0x64
  rw [hword]
  rfl

end ChipEight
