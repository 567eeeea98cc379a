import Mathlib

/-! # Scanners over a Buffered Stream

    A streaming receiver keeps the items it has not used yet in a buffer.
    A `Scanner` is the body of its loop: it either waits for more input or
    consumes some items at the front of the buffer, emits outputs and goes on.

    * **`drain`** runs the loop until it waits.
    * **`feed`** appends chunks to the buffer and drains it after each.
    * **`feed_eq_drain`**: a scanner whose decisions are not changed by later
      input ends the same way however the stream is cut into chunks.
    * **`drain_induct`**: an invariant of one iteration is one of the loop.
-/

/-- What one iteration does: the next state, its outputs and how many items
    of the buffer it consumes. -/
structure Scanned (σ β : Type*) where
  state : σ
  output : List β
  consumed : Nat

/-- The body of a streaming loop; `none` waits for more input. -/
structure Scanner (σ α β : Type*) where
  scan : σ → List α → Option (Scanned σ β)
  /-- An iteration consumes something, and only what is there. -/
  progress : ∀ {s xs r}, scan s xs = some r → 0 < r.consumed ∧ r.consumed ≤ xs.length
  /-- Later input does not change a decision already made. -/
  stable : ∀ {s xs r} (ys), scan s xs = some r → scan s (xs ++ ys) = some r

/-- Where a loop comes to rest. -/
@[ext] structure Drained (σ α β : Type*) where
  state : σ
  output : List β
  rest : List α

namespace Scanner

variable {σ α β : Type*} (M : Scanner σ α β)

/-! ## The loop -/

/-- Iterate until the scanner waits. -/
def drain (s : σ) (xs : List α) : Drained σ α β :=
  match _h : M.scan s xs with
  | none => ⟨s, [], xs⟩
  | some r =>
    let next := drain r.state (xs.drop r.consumed)
    ⟨next.state, r.output ++ next.output, next.rest⟩
termination_by xs.length
decreasing_by
  have := M.progress ‹_›
  simp only [List.length_drop]
  omega

theorem drain_wait {s : σ} {xs : List α} (h : M.scan s xs = none) :
    M.drain s xs = ⟨s, [], xs⟩ := by
  rw [drain]
  split
  · rfl
  · next r hr =>
    rw [h] at hr
    cases hr

theorem drain_step {s : σ} {xs : List α} {r : Scanned σ β} (h : M.scan s xs = some r) :
    M.drain s xs = ⟨(M.drain r.state (xs.drop r.consumed)).state,
      r.output ++ (M.drain r.state (xs.drop r.consumed)).output,
      (M.drain r.state (xs.drop r.consumed)).rest⟩ := by
  rw [drain]
  split
  · next hr =>
    rw [h] at hr
    cases hr
  · next r' hr =>
    rw [h] at hr
    cases hr
    rfl

/-- Induction along the iterations of the loop. -/
theorem drain_rec {motive : σ → List α → Prop}
    (wait : ∀ s xs, M.scan s xs = none → motive s xs)
    (step : ∀ s xs r, M.scan s xs = some r → motive r.state (xs.drop r.consumed) → motive s xs)
    (s : σ) (xs : List α) : motive s xs := by
  -- the buffer shrinks in every iteration
  induction hn : xs.length using Nat.strong_induction_on generalizing s xs with
  | _ n ih =>
    match h : M.scan s xs with
    | none => exact wait s xs h
    | some r =>
      have hprogress := M.progress h
      refine step s xs r h (ih (xs.drop r.consumed).length ?_ _ _ rfl)
      rw [List.length_drop]
      omega

/-- The loop stops where the scanner waits. -/
theorem scan_drain (s : σ) (xs : List α) :
    M.scan (M.drain s xs).state (M.drain s xs).rest = none := by
  induction s, xs using M.drain_rec with
  | wait s xs h => rw [M.drain_wait h]; exact h
  | step s xs r h ih => rw [M.drain_step h]; exact ih

/-- Draining a buffer and then more input is draining both at once. -/
theorem drain_append (s : σ) (xs ys : List α) :
    M.drain s (xs ++ ys) =
      ⟨(M.drain (M.drain s xs).state ((M.drain s xs).rest ++ ys)).state,
        (M.drain s xs).output ++
          (M.drain (M.drain s xs).state ((M.drain s xs).rest ++ ys)).output,
        (M.drain (M.drain s xs).state ((M.drain s xs).rest ++ ys)).rest⟩ := by
  induction s, xs using M.drain_rec with
  | wait s xs h => rw [M.drain_wait h]; rfl
  | step s xs r h ih =>
    have hdrop : (xs ++ ys).drop r.consumed = xs.drop r.consumed ++ ys :=
      List.drop_append_of_le_length (M.progress h).2
    rw [M.drain_step (M.stable ys h), M.drain_step h, hdrop, ih]
    simp [List.append_assoc]

/-- An invariant of the iterations, kept together with the items consumed and
    the outputs emitted so far, holds where the loop stops. -/
theorem drain_induct {P : σ → List α → List β → Prop}
    (step : ∀ {s past out xs r}, P s past out → M.scan s xs = some r →
      P r.state (past ++ xs.take r.consumed) (out ++ r.output))
    {s : σ} {xs past : List α} {out : List β} (hP : P s past out) :
    ∃ used, xs = used ++ (M.drain s xs).rest ∧
      P (M.drain s xs).state (past ++ used) (out ++ (M.drain s xs).output) := by
  induction s, xs using M.drain_rec generalizing past out with
  | wait s xs h =>
    rw [M.drain_wait h]
    refine ⟨[], rfl, ?_⟩
    rw [List.append_nil, List.append_nil]
    exact hP
  | step s xs r h ih =>
    obtain ⟨used, hused, hQ⟩ := ih (step hP h)
    rw [M.drain_step h]
    refine ⟨xs.take r.consumed ++ used, ?_, ?_⟩
    · rw [List.append_assoc, ← hused, List.take_append_drop]
    · rw [← List.append_assoc, ← List.append_assoc]
      exact hQ

/-! ## Chunks -/

/-- Drain chunks one after the other, each after what the last one left. -/
def feed (s : σ) (buffer : List α) : List (List α) → Drained σ α β
  | [] => ⟨s, [], buffer⟩
  | chunk :: chunks =>
    let first := M.drain s (buffer ++ chunk)
    let later := feed first.state first.rest chunks
    ⟨later.state, first.output ++ later.output, later.rest⟩

/-- The cuts between chunks do not matter: a scanner at rest that is fed
    chunks ends as if it had drained the whole stream. -/
theorem feed_eq_drain (chunks : List (List α)) :
    ∀ {s : σ} {buffer : List α}, M.scan s buffer = none →
      M.feed s buffer chunks = M.drain s (buffer ++ chunks.flatten) := by
  induction chunks with
  | nil =>
    intro s buffer hrest
    rw [List.flatten_nil, List.append_nil, M.drain_wait hrest]
    rfl
  | cons chunk chunks ih =>
    intro s buffer _
    rw [List.flatten_cons, ← List.append_assoc, M.drain_append]
    simp only [feed]
    rw [ih (M.scan_drain s (buffer ++ chunk))]

end Scanner
