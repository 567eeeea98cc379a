import Mathlib

/-! # Checked Computations

    A `Checked` computation returns a value or stops, and it stops in one of
    two ways: it rejects its input, as code does that returns `None`, or it
    panics, as code does that indexes out of range.

    This module collects:

    * **The operations that can panic**: indexing and subtraction.
    * **`Safe`**: no panic, and a postcondition for the value.
    * **`Returns`**: a value, which satisfies the postcondition.
    * **One rule per construct**, with invariants for the loops.
-/

/-- The two ways to stop without a value. -/
inductive Stop where
  | reject
  | panic
  deriving DecidableEq

/-- A computation that may stop. -/
abbrev Checked (α : Type*) := Except Stop α

namespace Checked

variable {α β σ : Type}

/-! ## Operations -/

def reject : Checked α := .error .reject

/-- The source calls this case unreachable, or asserts against it. -/
def panicked : Checked α := .error .panic

/-- `list[i]`. -/
def index (list : List α) (i : ℕ) : Checked α :=
  match list[i]? with
  | some a => .ok a
  | none => panicked

/-- `list[i..]`. -/
def sliceFrom (list : List α) (i : ℕ) : Checked (List α) :=
  if i ≤ list.length then .ok (list.drop i) else panicked

/-- Subtraction of naturals that must not go below zero. -/
def sub (a b : ℕ) : Checked ℕ := if b ≤ a then .ok (a - b) else panicked

theorem sub_of_le {a b : ℕ} (h : b ≤ a) : sub a b = .ok (a - b) := if_pos h

/-- Go on only if the condition holds. -/
def require (c : Prop) [Decidable c] : Checked Unit := if c then .ok () else reject

theorem ok_bind (a : α) (f : α → Checked β) : (Except.ok a : Checked α) >>= f = f a := rfl

/-! ## Safety -/

/-- The computation does not panic, and its value satisfies `P`. -/
def Safe (x : Checked α) (P : α → Prop) : Prop :=
  match x with
  | .ok a => P a
  | .error .reject => True
  | .error .panic => False

variable {x : Checked α} {P Q : α → Prop}

theorem Safe.ne_panic (h : Safe x P) : x ≠ .error .panic := by
  rintro rfl
  exact h

theorem Safe.value (h : Safe x P) {a : α} (ha : x = .ok a) : P a := by
  subst ha
  exact h

theorem Safe.imp (h : Safe x P) (himp : ∀ a, P a → Q a) : Safe x Q := by
  match x with
  | .ok a => exact himp a h
  | .error .reject => trivial
  | .error .panic => exact h

/-- A property of the value that is known otherwise. -/
theorem Safe.of_value (h : Safe x P) (hQ : ∀ a, x = .ok a → Q a) : Safe x Q := by
  match x with
  | .ok a => exact hQ a rfl
  | .error .reject => trivial
  | .error .panic => exact h

theorem safe_pure {a : α} (h : P a) : Safe (pure a) P := h

theorem safe_reject : Safe (reject : Checked α) P := trivial

theorem Safe.bind {R : β → Prop} {f : α → Checked β} (h : Safe x P)
    (hf : ∀ a, P a → Safe (f a) R) : Safe (x >>= f) R := by
  match x with
  | .ok a => exact hf a h
  | .error .reject => trivial
  | .error .panic => exact h

theorem safe_index {list : List α} {i : ℕ} (h : i < list.length)
    (hP : ∀ a ∈ list, P a) : Safe (index list i) P := by
  unfold index
  rw [List.getElem?_eq_getElem h]
  exact hP _ (List.getElem_mem h)

theorem safe_sub {a b : ℕ} {P : ℕ → Prop} (h : b ≤ a) (hP : P (a - b)) : Safe (sub a b) P := by
  unfold sub
  rw [if_pos h]
  exact hP

theorem safe_require {c : Prop} [Decidable c] : Safe (require c) fun _ => c := by
  unfold require
  split
  · next h => exact h
  · trivial

theorem safe_ite {c : Prop} [Decidable c] {x y : Checked α} (hx : c → Safe x P)
    (hy : ¬c → Safe y P) : Safe (if c then x else y) P := by
  split
  · next h => exact hx h
  · next h => exact hy h

/-! ## Loops -/

/-- A loop over a list keeps what each of its steps keeps. -/
theorem safe_foldlM {I : σ → Prop} {f : σ → α → Checked σ} {list : List α} {s : σ} (hs : I s)
    (hstep : ∀ a ∈ list, ∀ s, I s → Safe (f s a) I) : Safe (list.foldlM f s) I := by
  induction list generalizing s with
  | nil => exact hs
  | cons a list ih =>
    rw [List.foldlM_cons]
    refine (hstep a List.mem_cons_self s hs).bind fun s' hs' => ?_
    exact ih hs' fun b hb => hstep b (List.mem_cons_of_mem a hb)

/-- A loop over `0..n`, with an invariant for each count of steps done. -/
theorem safe_foldlM_range {I : ℕ → σ → Prop} {f : σ → ℕ → Checked σ} {s : σ} (n : ℕ)
    (hs : I 0 s) (hstep : ∀ k < n, ∀ s, I k s → Safe (f s k) (I (k + 1))) :
    Safe ((List.range n).foldlM f s) (I n) := by
  induction n with
  | zero => exact hs
  | succ n ih =>
    rw [List.range_succ, List.foldlM_append]
    refine (ih fun k hk => hstep k (by omega)).bind fun s' hs' => ?_
    rw [List.foldlM_cons]
    exact (hstep n (by omega) s' hs').bind fun s'' hs'' => hs''

theorem safe_mapM {P : β → Prop} {f : α → Checked β} {list : List α}
    (h : ∀ a ∈ list, Safe (f a) P) :
    Safe (list.mapM f) fun values => values.length = list.length ∧ ∀ b ∈ values, P b := by
  induction list with
  | nil => exact ⟨rfl, by simp⟩
  | cons a list ih =>
    rw [List.mapM_cons]
    refine (h a List.mem_cons_self).bind fun b hb => ?_
    refine (ih fun c hc => h c (List.mem_cons_of_mem a hc)).bind fun values hvalues => ?_
    refine safe_pure ⟨by simp [hvalues.1], fun c hc => ?_⟩
    rcases List.mem_cons.1 hc with rfl | hc
    · exact hb
    · exact hvalues.2 c hc

theorem safe_findM {p : α → Checked Bool} {P : α → Prop} {list : List α}
    (hp : ∀ a ∈ list, Safe (p a) fun b => b = true → P a) :
    Safe (list.findM? p) fun found => ∀ a, found = some a → P a := by
  induction list with
  | nil => exact fun a ha => by cases ha
  | cons a list ih =>
    unfold List.findM?
    refine (hp a List.mem_cons_self).bind fun b hb => ?_
    cases b with
    | false => exact ih fun c hc => hp c (List.mem_cons_of_mem a hc)
    | true => exact safe_pure fun c hc => Option.some.inj hc ▸ hb rfl

/-! ## Returning -/

/-- The computation comes to a value that satisfies `P`. -/
def Returns (x : Checked α) (P : α → Prop) : Prop := ∃ a, x = .ok a ∧ P a

theorem Returns.imp (h : Returns x P) (himp : ∀ a, P a → Q a) : Returns x Q := by
  obtain ⟨a, ha, hP⟩ := h
  exact ⟨a, ha, himp a hP⟩

theorem returns_pure {a : α} (h : P a) : Returns (pure a) P := ⟨a, rfl, h⟩

theorem Returns.bind {R : β → Prop} {f : α → Checked β} (h : Returns x P)
    (hf : ∀ a, P a → Returns (f a) R) : Returns (x >>= f) R := by
  obtain ⟨a, rfl, hP⟩ := h
  exact hf a hP

theorem returns_index {list : List α} {i : ℕ} (h : i < list.length) :
    Returns (index list i) fun _ => True := by
  unfold index
  rw [List.getElem?_eq_getElem h]
  exact ⟨_, rfl, trivial⟩

theorem returns_sliceFrom {list : List α} {i : ℕ} (h : i ≤ list.length) :
    Returns (sliceFrom list i) fun rest => rest.length + i = list.length := by
  unfold sliceFrom
  rw [if_pos h]
  refine ⟨_, rfl, ?_⟩
  show (list.drop i).length + i = list.length
  rw [List.length_drop]
  omega

theorem returns_ite {c : Prop} [Decidable c] {x y : Checked α} (hx : c → Returns x P)
    (hy : ¬c → Returns y P) : Returns (if c then x else y) P := by
  split
  · next h => exact hx h
  · next h => exact hy h

theorem returns_foldlM {I : σ → Prop} {f : σ → α → Checked σ} {list : List α} {s : σ} (hs : I s)
    (hstep : ∀ a ∈ list, ∀ s, I s → Returns (f s a) I) : Returns (list.foldlM f s) I := by
  induction list generalizing s with
  | nil => exact returns_pure hs
  | cons a list ih =>
    rw [List.foldlM_cons]
    refine (hstep a List.mem_cons_self s hs).bind fun s' hs' => ?_
    exact ih hs' fun b hb => hstep b (List.mem_cons_of_mem a hb)

theorem returns_foldlM_range {I : ℕ → σ → Prop} {f : σ → ℕ → Checked σ} {s : σ} (n : ℕ)
    (hs : I 0 s) (hstep : ∀ k < n, ∀ s, I k s → Returns (f s k) (I (k + 1))) :
    Returns ((List.range n).foldlM f s) (I n) := by
  induction n with
  | zero => exact returns_pure hs
  | succ n ih =>
    rw [List.range_succ, List.foldlM_append]
    refine (ih fun k hk => hstep k (by omega)).bind fun s' hs' => ?_
    rw [List.foldlM_cons]
    exact (hstep n (by omega) s' hs').bind fun s'' hs'' => returns_pure hs''

theorem returns_mapM {P : α → β → Prop} {f : α → Checked β} {list : List α}
    (h : ∀ a ∈ list, Returns (f a) (P a)) : Returns (list.mapM f) (List.Forall₂ P list) := by
  induction list with
  | nil => exact returns_pure .nil
  | cons a list ih =>
    rw [List.mapM_cons]
    refine (h a List.mem_cons_self).bind fun b hb => ?_
    refine (ih fun c hc => h c (List.mem_cons_of_mem a hc)).bind fun values hvalues => ?_
    exact returns_pure (.cons hb hvalues)

end Checked
