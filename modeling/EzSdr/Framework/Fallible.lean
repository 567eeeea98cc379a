import Mathlib

/-! # Fallible Computations with State

    A `Fallible ε σ α` reads a state and either returns a value or fails with
    an error. A failing computation keeps the changes it made before it
    failed, as an operation on shared state does when it returns early.

    This module collects:

    * **The monad** with `fail`, `ensure`, `get`, `modify` and `lift`.
    * **`Triple`**: preconditions, and one postcondition for each way out.
    * **One rule per construct**, and `Triple.seq` for a condition that is
      stated where the second part of a sequence begins.
    * **`Moves`**: a preorder along which the state moves, however the
      computation ends.
-/

/-- A computation over a state `σ` that may fail with an `ε`. -/
def Fallible (ε σ α : Type) : Type := σ → Except ε α × σ

namespace Fallible

variable {ε σ α β : Type}

/-! ## The monad -/

/-- Return a value. -/
def ret (a : α) : Fallible ε σ α := fun s => (.ok a, s)

/-- Run the second computation on the value of the first, unless it failed. -/
def andThen (x : Fallible ε σ α) (f : α → Fallible ε σ β) : Fallible ε σ β := fun s =>
  match x s with
  | (.ok a, s') => f a s'
  | (.error e, s') => (.error e, s')

instance : Monad (Fallible ε σ) where
  pure := ret
  bind := andThen

/-- Fail with an error. -/
def fail (e : ε) : Fallible ε σ α := fun s => (.error e, s)

/-- Fail unless `c` holds. -/
def ensure (c : Prop) [Decidable c] (e : ε) : Fallible ε σ Unit :=
  if c then ret () else fail e

/-- Read the state. -/
def get : Fallible ε σ σ := fun s => (.ok s, s)

/-- Change the state. -/
def modify (f : σ → σ) : Fallible ε σ Unit := fun s => (.ok (), f s)

/-- A result that is known already. -/
def lift (r : Except ε α) : Fallible ε σ α := fun s => (r, s)

/-- The value of an option, or an error. -/
def orFail (o : Option α) (e : ε) : Fallible ε σ α :=
  match o with
  | some a => ret a
  | none => fail e

@[simp] theorem bind_apply (x : Fallible ε σ α) (f : α → Fallible ε σ β) (s : σ) :
    (x >>= f) s = match x s with
      | (.ok a, s') => f a s'
      | (.error e, s') => (.error e, s') := rfl

@[simp] theorem pure_apply (a : α) (s : σ) : (pure a : Fallible ε σ α) s = (.ok a, s) := rfl

@[simp] theorem fail_apply (e : ε) (s : σ) : (fail e : Fallible ε σ α) s = (.error e, s) := rfl

@[simp] theorem get_apply (s : σ) : (get : Fallible ε σ σ) s = (.ok s, s) := rfl

@[simp] theorem modify_apply (f : σ → σ) (s : σ) :
    (modify f : Fallible ε σ Unit) s = (.ok (), f s) := rfl

@[simp] theorem lift_apply (r : Except ε α) (s : σ) : (lift r : Fallible ε σ α) s = (r, s) := rfl

/-! ## Triples -/

/-- From a state satisfying `P`, a value comes with `Q` and a failure with `E`. -/
def Triple (P : σ → Prop) (x : Fallible ε σ α) (Q : α → σ → Prop) (E : σ → Prop) : Prop :=
  ∀ s, P s → match x s with
    | (.ok a, s') => Q a s'
    | (.error _, s') => E s'

variable {P P' : σ → Prop} {Q : α → σ → Prop} {R : β → σ → Prop} {E : σ → Prop}

/-- A triple with one postcondition says where the state ends up. -/
theorem Triple.state {x : Fallible ε σ α} (h : Triple P x (fun _ => E) E) {s : σ} (hs : P s) :
    E (x s).2 := by
  have hx := h s hs
  split at hx <;> simp_all

theorem Triple.ret {a : α} (h : ∀ s, P s → Q a s) : Triple P (pure a : Fallible ε σ α) Q E :=
  fun s hs => h s hs

theorem Triple.fail {e : ε} (h : ∀ s, P s → E s) : Triple P (fail e : Fallible ε σ α) Q E :=
  fun s hs => h s hs

theorem Triple.bind {x : Fallible ε σ α} {f : α → Fallible ε σ β} (hx : Triple P x Q E)
    (hf : ∀ a, Triple (Q a) (f a) R E) : Triple P (x >>= f) R E := by
  intro s hs
  have h := hx s hs
  rw [bind_apply]
  rcases hxs : x s with ⟨a | a, s'⟩
  · rw [hxs] at h
    exact h
  · rw [hxs] at h
    exact hf a s' h

theorem Triple.weaken {x : Fallible ε σ α} (h : Triple P x Q E) (hP : ∀ s, P' s → P s) :
    Triple P' x Q E := fun s hs => h s (hP s hs)

theorem Triple.strengthen {x : Fallible ε σ α} {Q' : α → σ → Prop} {E' : σ → Prop}
    (h : Triple P x Q E) (hQ : ∀ a s, Q a s → Q' a s) (hE : ∀ s, E s → E' s) :
    Triple P x Q' E' := by
  intro s hs
  have hx := h s hs
  split at hx
  · next a s' heq => simpa [heq] using hQ a s' hx
  · next e s' heq => simpa [heq] using hE s' hx

/-- A triple may be proved for each initial state by itself. -/
theorem Triple.of_eq {x : Fallible ε σ α} (h : ∀ s₀, P s₀ → Triple (fun s => s = s₀) x Q E) :
    Triple P x Q E := fun s hs => h s hs s rfl

theorem Triple.get {Q : σ → σ → Prop} (h : ∀ s, P s → Q s s) :
    Triple P (get : Fallible ε σ σ) Q E := fun s hs => h s hs

theorem Triple.modify {f : σ → σ} {Q : Unit → σ → Prop} (h : ∀ s, P s → Q () (f s)) :
    Triple P (modify f : Fallible ε σ Unit) Q E := fun s hs => h s hs

theorem Triple.ensure {c : Prop} [Decidable c] {e : ε} {Q : Unit → σ → Prop}
    (hok : c → ∀ s, P s → Q () s) (hfail : ∀ s, P s → E s) :
    Triple P (ensure c e : Fallible ε σ Unit) Q E := by
  unfold Fallible.ensure
  split
  · next hc => exact fun s hs => hok hc s hs
  · exact fun s hs => hfail s hs

theorem Triple.lift {r : Except ε α} (hok : ∀ a, r = .ok a → ∀ s, P s → Q a s)
    (hfail : ∀ s, P s → E s) : Triple P (lift r : Fallible ε σ α) Q E := by
  intro s hs
  cases r with
  | error e => exact hfail s hs
  | ok a => exact hok a rfl s hs

theorem Triple.orFail {o : Option α} {e : ε} (hok : ∀ a, o = some a → ∀ s, P s → Q a s)
    (hfail : ∀ s, P s → E s) : Triple P (orFail o e : Fallible ε σ α) Q E := by
  cases o with
  | none => exact fun s hs => hfail s hs
  | some a => exact fun s hs => hok a rfl s hs

/-- A sequence whose second part needs a condition on the state it begins in. -/
theorem Triple.seq {S : σ → Prop} {x : Fallible ε σ α} {f : α → Fallible ε σ β}
    (hx : Triple P x (fun _ => P') E)
    (hf : ∀ a, Triple (fun s => P' s ∧ S s) (f a) R E) :
    Triple (fun s => P s ∧ ∀ a s', x s = (.ok a, s') → S s') (x >>= f) R E := by
  intro s hs
  have h := hx s hs.1
  rw [bind_apply]
  rcases hxs : x s with ⟨a | a, s'⟩
  · rw [hxs] at h
    exact h
  · rw [hxs] at h
    exact hf a s' ⟨h, hs.2 a s' hxs⟩

/-! ## Moving along a preorder -/

/-- However it ends, the state it leaves is related to the one it began in. -/
def Moves (R : σ → σ → Prop) (x : Fallible ε σ α) : Prop :=
  ∀ s₀, Triple (fun s => s = s₀) x (fun _ s => R s₀ s) (R s₀)

section Moves

variable {R : σ → σ → Prop}

/-- Where a computation that moves along `R` ends up. -/
theorem Moves.result {x : Fallible ε σ α} (h : Moves R x) (s : σ) : R s (x s).2 :=
  (h s).state rfl

theorem moves_of_result {x : Fallible ε σ α} (h : ∀ s, R s (x s).2) : Moves R x := by
  rintro s₀ s rfl
  have hs := h s
  split
  · next a s' heq =>
    rw [heq] at hs
    exact hs
  · next e s' heq =>
    rw [heq] at hs
    exact hs

theorem Moves.imp {R' : σ → σ → Prop} {x : Fallible ε σ α} (h : Moves R x)
    (himp : ∀ s t, R s t → R' s t) : Moves R' x :=
  fun s₀ => (h s₀).strengthen (fun _ s => himp s₀ s) (himp s₀)

theorem Moves.bind [IsTrans σ R] {x : Fallible ε σ α} {f : α → Fallible ε σ β} (hx : Moves R x)
    (hf : ∀ a, Moves R (f a)) : Moves R (x >>= f) := by
  intro s₀
  apply Triple.bind (hx s₀)
  intro a
  apply Triple.of_eq
  intro s₁ h₁
  exact (hf a s₁).strengthen (fun _ _ h => IsTrans.trans _ _ _ h₁ h)
    (fun _ h => IsTrans.trans _ _ _ h₁ h)

theorem moves_modify {f : σ → σ} (h : ∀ s, R s (f s)) : Moves R (modify f : Fallible ε σ Unit) :=
  moves_of_result h

variable [Std.Refl R]

theorem moves_pure (a : α) : Moves R (pure a : Fallible ε σ α) :=
  moves_of_result fun s => refl_of R s

theorem moves_fail (e : ε) : Moves R (fail e : Fallible ε σ α) :=
  moves_of_result fun s => refl_of R s

theorem moves_get : Moves R (get : Fallible ε σ σ) :=
  moves_of_result fun s => refl_of R s

theorem moves_lift (r : Except ε α) : Moves R (lift r : Fallible ε σ α) :=
  moves_of_result fun s => refl_of R s

theorem moves_ensure (c : Prop) [Decidable c] (e : ε) :
    Moves R (ensure c e : Fallible ε σ Unit) := by
  unfold ensure
  split
  · exact moves_pure ()
  · exact moves_fail e

theorem moves_orFail (o : Option α) (e : ε) : Moves R (orFail o e : Fallible ε σ α) := by
  cases o with
  | none => exact moves_fail e
  | some a => exact moves_pure a

end Moves

end Fallible
