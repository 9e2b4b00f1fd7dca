import ChipEight.Memory.Lemmas
import ChipEight.Proofs.Operations

/-!
# Memory as a map

Whatever operations memory has served, single bytes, words and windows are read from and written to
one map from addresses to bytes.  An operation is refused if part of what it asks for lies outside
memory, and what is refused changes nothing.

Main results:

- `answer_perform`: what an operation answers, by the map.
- `view_perform`: what an operation makes of the map.
- `memory_refines_map`: any sequence of operations on memory against the map.
-/

namespace ChipEight

open Operations

/-! ## Operations -/

namespace Memory

/-- An operation on memory. -/
inductive Operation where
  | load (program : List UInt8)
  | read (a : Nat)
  | write (a : Nat) (byte : UInt8)
  | word (a : Nat)
  | window (a n : Nat)
  /-- Replaces the bytes of a window, each by the byte for its offset. -/
  | overwrite (a n : Nat) (byte : Nat → UInt8)

/-- What is answered to an operation that is not refused. -/
inductive Reply where
  | done
  | byte (value : UInt8)
  | word (value : UInt16)
  | bytes (values : List UInt8)
deriving DecidableEq, Repr

/-- What an operation answers: a fault, or what it was asked for. -/
abbrev Answer := Except Fault Reply

/-- What memory is after an operation, and what it answers. -/
def perform (m : Memory) : Operation → Memory × Answer
  | .load program => attempt m ((load program).map fun t => (t, .done))
  | .read a => (m, (m.read a).map .byte)
  | .write a byte => attempt m ((m.write a byte).map fun t => (t, .done))
  | .word a => (m, (m.word a).map .word)
  | .window a n => (m, (m.window a n).map .bytes)
  | .overwrite a n byte => attempt m ((m.overwrite a n byte).map fun t => (t, .done))

namespace Operation

/-- A window has a last address, and its end can be counted in 64 bits. -/
def Counted : Operation → Prop
  | .load _ | .read _ | .write _ _ => True
  | .word a => a + 2 ≤ addressLimit
  | .window a n | .overwrite a n _ => 0 < a + n ∧ a + n ≤ addressLimit

/-- All that an operation asks for lies in memory. -/
def Succeeds : Operation → Prop
  | .load program => program.length ≤ 3584
  | .read a | .write a _ => a ≤ 0xFFF
  | .word a => a + 1 ≤ 0xFFF
  | .window a n | .overwrite a n _ => a + n ≤ 0x1000

instance : DecidablePred Succeeds
  | .load _ | .read _ | .write _ _ | .word _ | .window _ _ | .overwrite _ _ _ => Nat.decLe _ _

/-- The byte that an operation that is not refused puts at an address. -/
def byteAt? (address : Nat) : Operation → Option UInt8
  | .load program => some (image program address)
  | .write a byte => if address = a then some byte else none
  | .overwrite a n byte => if a ≤ address ∧ address < a + n then some (byte (address - a)) else none
  | .read _ | .word _ | .window _ _ => none

end Operation

end Memory

/-! ## The map -/

/-- A map from addresses to bytes. -/
abbrev ByteMap := Fin 0x1000 → UInt8

namespace ByteMap

open Memory

/-- The glyphs, and zeros elsewhere. -/
def initial : ByteMap := fun a => Font.glyphs[a.val]?.getD 0

/-- The map after an operation that is not refused. -/
def apply (f : ByteMap) (op : Operation) : ByteMap := fun a => (op.byteAt? a).getD (f a)

/-- What an operation answers. -/
def answer (f : ByteMap) : Operation → Answer
  | .load program =>
    if program.length ≤ 3584 then .ok .done else .error (.programTooLarge program.length 3584)
  | .read a =>
    if h : a ≤ 0xFFF then .ok (.byte (f ⟨a, by omega⟩)) else .error (.addressOutOfRange a)
  | .write a _ => if a ≤ 0xFFF then .ok .done else .error (.addressOutOfRange a)
  | .word a =>
    if h : a + 1 ≤ 0xFFF then
      .ok (.word (UInt16.ofNat (256 * (f ⟨a, by omega⟩).toNat + (f ⟨a + 1, by omega⟩).toNat)))
    else .error (.addressOutOfRange (a + 1))
  | .window a n =>
    if h : a + n ≤ 0x1000 then .ok (.bytes (List.ofFn fun i : Fin n => f ⟨a + i, by omega⟩))
    else .error (.addressOutOfRange (a + n - 1))
  | .overwrite a n _ =>
    if a + n ≤ 0x1000 then .ok .done else .error (.addressOutOfRange (a + n - 1))

/-- An operation changes the map if it is not refused. -/
def perform (f : ByteMap) (op : Operation) : ByteMap × Answer :=
  (if op.Succeeds then f.apply op else f, f.answer op)

/-- The map after a sequence of operations is that after those of them that are not refused. -/
theorem performAll_fst (f : ByteMap) (ops : List Operation) :
    (performAll perform f ops).1 = (ops.filter (·.Succeeds)).foldl apply f := by
  induction ops generalizing f with
  | nil => rfl
  | cons op ops ih =>
    show (performAll perform (f.perform op).1 ops).1 = _
    rw [ih]
    by_cases h : op.Succeeds
    · rw [List.filter_cons_of_pos (by simpa using h), List.foldl_cons, perform, if_pos h]
    · rw [List.filter_cons_of_neg (by simpa using h), perform, if_neg h]

/-- Operations keep a byte that none of them puts anything at. -/
theorem foldl_apply_of_none (f : ByteMap) {ops : List Operation} {a : Fin 0x1000}
    (h : ∀ op ∈ ops, op.byteAt? a = none) : ops.foldl apply f a = f a := by
  induction ops generalizing f with
  | nil => rfl
  | cons op ops ih =>
    rw [List.foldl_cons, ih _ fun later hmem => h later (List.mem_cons_of_mem op hmem), apply,
      h op (List.mem_cons_self ..)]
    rfl

end ByteMap

namespace Memory

/-- The map that memory stands for. -/
def view (m : Memory) : ByteMap := fun a => m.peek a

variable {m : Memory}

theorem view_initial : initial.view = ByteMap.initial := by
  funext a
  exact peek_initial a.isLt

/-- A window that does not lie in memory is refused with its last address. -/
theorem outOfRange_eq {a n : Nat} (hpos : 0 < a + n) (hlimit : a + n ≤ addressLimit) :
    outOfRange a n = .addressOutOfRange (a + n - 1) := by
  have hmin : min (a + n) addressLimit = a + n - 1 + 1 := by
    rw [Nat.min_eq_left hlimit, Nat.sub_add_cancel hpos]
  rw [outOfRange, hmin]

/-! ## Answers -/

theorem perform_load (m : Memory) (program : List UInt8) :
    m.perform (.load program) =
      if program.length ≤ 3584 then (initial.store programStart program, .ok .done)
      else (m, .error (.programTooLarge program.length 3584)) := by
  simp only [perform, load]
  by_cases h : program.length ≤ 3584
  · rw [if_pos h, if_pos (show program.length ≤ programCapacity from h)]
    rfl
  · rw [if_neg h, if_neg (show ¬ program.length ≤ programCapacity from h)]
    rfl

theorem perform_write (m : Memory) (a : Nat) (byte : UInt8) :
    m.perform (.write a byte) =
      if a ≤ 0xFFF then (m.poke a byte, .ok .done) else (m, .error (.addressOutOfRange a)) := by
  simp only [perform, write]
  by_cases h : a ≤ 0xFFF
  · rw [if_pos h, if_pos (Nat.lt_succ_of_le h)]
    rfl
  · rw [if_neg h, if_neg fun hlt => h (Nat.le_of_lt_succ hlt)]
    rfl

theorem perform_overwrite (m : Memory) {a n : Nat} {byte : Nat → UInt8}
    (h : (Operation.overwrite a n byte).Counted) :
    m.perform (.overwrite a n byte) =
      if a + n ≤ 0x1000 then (m.store a ((List.range n).map byte), .ok .done)
      else (m, .error (.addressOutOfRange (a + n - 1))) := by
  simp only [perform, overwrite]
  by_cases hle : a + n ≤ 0x1000
  · rw [if_pos hle, if_pos ⟨h.1, hle⟩]
    rfl
  · rw [if_neg hle, if_neg fun hfits => hle hfits.2, outOfRange_eq h.1 h.2]
    rfl

/-- What an operation answers, by the map that memory stands for. -/
theorem answer_perform {op : Operation} (h : op.Counted) : (m.perform op).2 = m.view.answer op := by
  cases op with
  | load program =>
    rw [perform_load, ByteMap.answer]
    split <;> rfl
  | write a byte =>
    rw [perform_write, ByteMap.answer]
    split <;> rfl
  | overwrite a n byte =>
    rw [perform_overwrite m h, ByteMap.answer]
    split <;> rfl
  | read a =>
    simp only [perform, read, ByteMap.answer]
    by_cases hle : a ≤ 0xFFF
    · rw [dif_pos hle, if_pos (Nat.lt_succ_of_le hle)]
      rfl
    · rw [dif_neg hle, if_neg fun hlt => hle (Nat.le_of_lt_succ hlt)]
      rfl
  | word a =>
    simp only [perform, word, ByteMap.answer]
    by_cases hle : a + 1 ≤ 0xFFF
    · have hword : UInt16.ofNat (256 * (m.peek a).toNat + (m.peek (a + 1)).toNat) =
          (m.peek a).toUInt16 * 0x100 + (m.peek (a + 1)).toUInt16 := by
        rw [← toNat_word, UInt16.ofNat_toNat]
      rw [dif_pos hle, if_pos ⟨by omega, Nat.succ_le_succ hle⟩, ← hword]
      rfl
    · rw [dif_neg hle, if_neg fun hfits => hle (Nat.le_of_succ_le_succ hfits.2),
        outOfRange_eq (by omega) h]
      rfl
  | window a n =>
    simp only [perform, window, ByteMap.answer]
    by_cases hle : a + n ≤ 0x1000
    · rw [dif_pos hle, if_pos ⟨h.1, hle⟩]
      refine congrArg (fun values => Except.ok (Reply.bytes values)) ?_
      refine List.ext_getElem (by simp [bytesAt]) fun i hi hi' => ?_
      simp [bytesAt, view]
    · rw [dif_neg hle, if_neg fun hfits => hle hfits.2, outOfRange_eq h.1 h.2]
      rfl

/-! ## Changes -/

theorem view_poke (m : Memory) {a : Nat} (h : a ≤ 0xFFF) (byte : UInt8) :
    (m.poke a byte).view = m.view.apply (.write a byte) := by
  funext b
  show (m.poke a byte).peek b = (if b.val = a then some byte else none).getD (m.peek b)
  rw [peek_poke]
  by_cases hb : b.val = a
  · rw [if_pos hb, if_pos ⟨hb, Nat.lt_succ_of_le h⟩]
    rfl
  · rw [if_neg hb, if_neg fun hsame => hb hsame.1]
    rfl

theorem view_store (m : Memory) (a n : Nat) (byte : Nat → UInt8) :
    (m.store a ((List.range n).map byte)).view = m.view.apply (.overwrite a n byte) := by
  funext b
  show (m.store a ((List.range n).map byte)).peek b =
    (if a ≤ b.val ∧ b.val < a + n then some (byte (b - a)) else none).getD (m.peek b)
  rw [peek_store, List.getElem?_map]
  by_cases hb : a ≤ b.val ∧ b.val < a + n
  · rw [if_pos hb, if_pos ⟨hb.1, b.isLt⟩, List.getElem?_range (by omega)]
    rfl
  · rw [if_neg hb]
    split
    · next hin =>
      rw [List.getElem?_eq_none (by rw [List.length_range]; omega)]
      rfl
    · rfl

/-- What an operation makes of the map that memory stands for. -/
theorem view_perform {op : Operation} (h : op.Counted) :
    (m.perform op).1.view = if op.Succeeds then m.view.apply op else m.view := by
  cases op with
  | load program =>
    have hview : (initial.store programStart program).view = m.view.apply (.load program) :=
      funext fun a => peek_loaded program a.isLt
    rw [perform_load, apply_ite Prod.fst, apply_ite view, hview]
    rfl
  | write a byte =>
    rw [perform_write]
    by_cases hle : a ≤ 0xFFF
    · rw [if_pos hle]
      exact (view_poke m hle byte).trans (if_pos hle).symm
    · rw [if_neg hle]
      exact (if_neg hle).symm
  | overwrite a n byte =>
    rw [perform_overwrite m h, apply_ite Prod.fst, apply_ite view, view_store]
    rfl
  | read a | word a | window a n => exact (ite_self m.view).symm

/-- An operation is answered if all that it asks for lies in memory. -/
theorem isOk_answer_iff (f : ByteMap) (op : Operation) :
    (f.answer op).isOk = true ↔ op.Succeeds := by
  cases op <;> simp only [ByteMap.answer, Operation.Succeeds] <;> split <;>
    next h => simp [h, Except.isOk, Except.toBool]

/-- What is refused changes nothing. -/
theorem perform_of_error {op : Operation} {fault : Fault} (h : (m.perform op).2 = .error fault) :
    (m.perform op).1 = m := by
  cases op with
  | load program => exact attempt_fst_of_error h
  | write a byte => exact attempt_fst_of_error h
  | overwrite a n byte => exact attempt_fst_of_error h
  | read a | word a | window a n => rfl

/-! ## Sequences of operations -/

/-- A sequence of operations on memory is that on the map it stands for, and all answers are the
same. -/
theorem performAll_view {ops : List Operation} (hops : ∀ op ∈ ops, op.Counted) :
    (performAll perform m ops).1.view = (performAll ByteMap.perform m.view ops).1 ∧
      (performAll perform m ops).2 = (performAll ByteMap.perform m.view ops).2 := by
  have hstep : ∀ (t : Memory) (f : ByteMap) (op : Operation), op.Counted → t.view = f →
      (t.perform op).1.view = (f.perform op).1 ∧ (t.perform op).2 = (f.perform op).2 := by
    rintro t f op h rfl
    exact ⟨view_perform h, answer_perform h⟩
  exact performAll_related hstep rfl hops

/-- The byte at an address is the one that was put there last by an operation that was not
refused. -/
theorem peek_performAll {before after : List Operation} {op : Operation}
    (hops : ∀ other ∈ before ++ op :: after, other.Counted) (hop : op.Succeeds)
    {a : Fin 0x1000} {byte : UInt8} (hbyte : op.byteAt? a = some byte)
    (hafter : ∀ later ∈ after, later.Succeeds → later.byteAt? a = none) :
    (performAll perform m (before ++ op :: after)).1.peek a = byte := by
  show (performAll perform m (before ++ op :: after)).1.view a = byte
  rw [(performAll_view hops).1, ByteMap.performAll_fst, List.filter_append,
    List.filter_cons_of_pos (by simpa using hop), List.foldl_append, List.foldl_cons,
    ByteMap.foldl_apply_of_none, ByteMap.apply, hbyte]
  · rfl
  · intro later hlater
    obtain ⟨hmem, hsucceeds⟩ := List.mem_filter.1 hlater
    exact hafter later hmem (by simpa using hsucceeds)

end Memory

open Memory in
/-- After any sequence of operations on memory without a program, memory has all its bytes, and they
are those of the map that the operations that were not refused have made of the glyphs and zeros,
one after the other.  At an address is the byte that was put there last.  All answers were those of
the map.  Whatever is asked next is answered by the map, and is refused if part of it lies outside
memory.  What is refused changes nothing, and what is not refused changes no byte but those it puts
there. -/
theorem memory_refines_map (ops : List Operation) (hops : ∀ op ∈ ops, op.Counted) :
    let m := (performAll perform initial ops).1
    m.bytes.toArray.size = 0x1000 ∧
      m.view = (ops.filter (·.Succeeds)).foldl ByteMap.apply ByteMap.initial ∧
      (performAll perform initial ops).2 = (performAll ByteMap.perform ByteMap.initial ops).2 ∧
      (∀ before op after (a : Fin 0x1000) byte, ops = before ++ op :: after → op.Succeeds →
        op.byteAt? a = some byte → (∀ later ∈ after, later.Succeeds → later.byteAt? a = none) →
          m.peek a = byte) ∧
      ∀ op, op.Counted →
        (m.perform op).2 = m.view.answer op ∧
          ((m.perform op).2.isOk = true ↔ op.Succeeds) ∧
          (¬ op.Succeeds → (m.perform op).1 = m) ∧
          ∀ a : Fin 0x1000, op.Succeeds →
            (m.perform op).1.peek a = (op.byteAt? a).getD (m.peek a) := by
  intro m
  obtain ⟨hview, hanswers⟩ := performAll_view (m := initial) hops
  rw [view_initial] at hview hanswers
  refine ⟨m.bytes.size_toArray, ?_, hanswers, ?_, ?_⟩
  · rw [← ByteMap.performAll_fst]
    exact hview
  · rintro before op after a byte rfl hop hbyte hafter
    exact peek_performAll hops hop hbyte hafter
  · intro op hop
    have hok : (m.perform op).2.isOk = true ↔ op.Succeeds := by
      rw [answer_perform hop]
      exact isOk_answer_iff m.view op
    refine ⟨answer_perform hop, hok, ?_, ?_⟩
    · intro hrefused
      cases hanswer : (m.perform op).2 with
      | ok reply => exact absurd (hok.1 (by rw [hanswer]; rfl)) hrefused
      | error fault => exact perform_of_error hanswer
    · intro a hsucceeds
      have happly := congrFun (view_perform (m := m) hop) a
      rwa [if_pos hsucceeds] at happly

open Memory in
/-- A program of which two windows and one byte are overwritten, the second window up to the end of
memory, and a byte that there is no room for. -/
theorem memory_refines_map_overlap :
    ∃ ops : List Operation, ops = [.load [1, 2, 3], .overwrite 0x1FF 3 fun i => UInt8.ofNat (i + 4),
        .write 0x200 9, .overwrite 0xFFE 2 fun _ => 7, .write 0x1000 8] ∧
      (∀ op ∈ ops, op.Counted) ∧
      ∃ m, m = (performAll perform initial ops).1 ∧
        m.peek 0x1FF = 4 ∧ m.peek 0x200 = 9 ∧ m.peek 0x201 = 6 ∧ m.peek 0x202 = 3 ∧
        m.peek 0xFFF = 7 ∧
        (m.perform (.word 0x202)).2 = .ok (.word 0x0300) ∧
        (m.perform (.window 0xFFF 2)).2 = .error (.addressOutOfRange 0x1000) := by
  obtain ⟨ops, hops⟩ : ∃ ops : List Operation, ops = [.load [1, 2, 3],
    .overwrite 0x1FF 3 fun i => UInt8.ofNat (i + 4), .write 0x200 9, .overwrite 0xFFE 2 fun _ => 7,
    .write 0x1000 8] := ⟨_, rfl⟩
  have hcounted : ∀ op ∈ ops, op.Counted := by
    simp [hops, Operation.Counted, addressLimit]
  obtain ⟨-, hview, -, -, hnext⟩ := memory_refines_map ops hcounted
  have hpeek (a : Fin 0x1000) : (performAll perform initial ops).1.peek a =
      (ops.filter (·.Succeeds)).foldl ByteMap.apply ByteMap.initial a := congrFun hview a
  subst hops
  refine ⟨_, rfl, hcounted, _, rfl, hpeek 0x1FF, hpeek 0x200, hpeek 0x201, ?_, hpeek 0xFFF, ?_, ?_⟩
  · exact (hpeek 0x202).trans (by decide +kernel)
  · rw [(hnext (.word 0x202) (by simp [Operation.Counted, addressLimit])).1, hview]
    rfl
  · exact (hnext (.window 0xFFF 2) (by simp [Operation.Counted, addressLimit])).1

end ChipEight
