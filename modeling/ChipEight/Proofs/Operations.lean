/-!
# Sequences of operations

A thing that operations are performed on is a state, and an operation leaves another state and an
answer.  Two such things cannot be told apart if a relation between their states is kept by every
operation, with the same answer from both.

Main results:

- `performAll_related`: a relation that each operation keeps is kept by every sequence of
  operations, and all answers are the same.
-/

namespace ChipEight.Operations

variable {σ τ ω α ε : Type}

/-- Performs operations one after the other, each on what the one before it left, and lists the
answers. -/
def performAll (perform : σ → ω → σ × α) (s : σ) : List ω → σ × List α
  | [] => (s, [])
  | op :: ops =>
    let one := perform s op
    let rest := performAll perform one.1 ops
    (rest.1, one.2 :: rest.2)

/-- Goes on with what an attempt leaves and answers, or with what was there before it if it is
refused. -/
def attempt (before : σ) : Except ε (σ × α) → σ × Except ε α
  | .ok (after, answer) => (after, .ok answer)
  | .error reason => (before, .error reason)

/-- A refused attempt leaves what was there before. -/
theorem attempt_fst_of_error {before : σ} {target : Except ε (σ × α)} {reason : ε}
    (h : (attempt before target).2 = .error reason) : (attempt before target).1 = before := by
  cases target with
  | ok done => cases h
  | error other => rfl

/-- Sequences of operations that keep a relation between two states: the states go on to be related,
and nothing in the answers tells them apart. -/
theorem performAll_related {first : σ → ω → σ × α} {second : τ → ω → τ × α} {Related : σ → τ → Prop}
    {Admitted : ω → Prop}
    (hstep : ∀ s t op, Admitted op → Related s t →
      Related (first s op).1 (second t op).1 ∧ (first s op).2 = (second t op).2)
    {s : σ} {t : τ} (h : Related s t) {ops : List ω} (hops : ∀ op ∈ ops, Admitted op) :
    Related (performAll first s ops).1 (performAll second t ops).1 ∧
      (performAll first s ops).2 = (performAll second t ops).2 := by
  induction ops generalizing s t with
  | nil => exact ⟨h, rfl⟩
  | cons op ops ih =>
    obtain ⟨hone, hanswer⟩ := hstep s t op (hops op (List.mem_cons_self ..)) h
    obtain ⟨hrest, hanswers⟩ := ih hone fun later hmem => hops later (List.mem_cons_of_mem op hmem)
    exact ⟨hrest, List.cons_eq_cons.2 ⟨hanswer, hanswers⟩⟩

end ChipEight.Operations
