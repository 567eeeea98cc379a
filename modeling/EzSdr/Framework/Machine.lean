import Mathlib

/-! # Deterministic Machines with Crashes

    A `Machine` reads one input at a time, moves to a new state and answers
    with an output. A step that returns `none` models a crash of the code
    (a failed unwrap, an arithmetic underflow).

    This module collects:

    * **Runs** over a list of inputs, recorded as a list of `Event`s that
      keep the state before and after every step.
    * **`run_safe`**: a history invariant preserved by every step holds after
      every run, and no step of the run crashes.
    * **`run_inv`**: the same rule for machines whose runs are given.
    * **`run_append`**: runs compose.
    * **`run_between`**: what holds from one step to a later one.
-/

/-- A deterministic machine; `none` is a crash. -/
structure Machine (σ ι ο : Type*) where
  /-- Initial state. -/
  init : σ
  /-- One step. -/
  step : σ → ι → Option (σ × ο)

namespace Machine

/-- One executed step, with the states around it. -/
structure Event (σ ι ο : Type*) where
  before : σ
  input  : ι
  output : ο
  after  : σ

variable {σ ι ο : Type*} (M : Machine σ ι ο)

/-! ## Runs -/

/-- Run the machine from `s` over a list of inputs, recording every step. -/
def run (s : σ) : List ι → Option (σ × List (Event σ ι ο))
  | [] => some (s, [])
  | i :: is =>
    match M.step s i with
    | none => none
    | some (s', o) =>
      match run s' is with
      | none => none
      | some (t, h) => some (t, ⟨s, i, o, s'⟩ :: h)

@[simp] theorem run_nil (s : σ) : M.run s [] = some (s, []) := rfl

/-- A run of `i :: is` is a step on `i` followed by a run of `is`. -/
theorem run_cons_eq_some {s t : σ} {i : ι} {is : List ι} {h : List (Event σ ι ο)} :
    M.run s (i :: is) = some (t, h) ↔
      ∃ s' o h', M.step s i = some (s', o) ∧ M.run s' is = some (t, h') ∧
        h = ⟨s, i, o, s'⟩ :: h' := by
  simp only [run]
  constructor
  · intro hrun
    split at hrun
    · cases hrun
    · next s' o hstep =>
      split at hrun
      · cases hrun
      · next t' h' hrest =>
        cases hrun
        exact ⟨s', o, h', hstep, hrest, rfl⟩
  · rintro ⟨s', o, h', hstep, hrest, rfl⟩
    simp [hstep, hrest]

/-- Runs compose: the second run starts where the first one ended. -/
theorem run_append {s t : σ} {is js : List ι} {h : List (Event σ ι ο)} :
    M.run s (is ++ js) = some (t, h) ↔
      ∃ u h₁ h₂, M.run s is = some (u, h₁) ∧ M.run u js = some (t, h₂) ∧
        h = h₁ ++ h₂ := by
  induction is generalizing s h with
  | nil => simp
  | cons i is ih =>
    simp only [List.cons_append, run_cons_eq_some, ih]
    constructor
    · rintro ⟨s', o, h', hstep, ⟨u, h₁, h₂, hu, ht, rfl⟩, rfl⟩
      exact ⟨u, _, h₂, ⟨s', o, h₁, hstep, hu, rfl⟩, ht, rfl⟩
    · rintro ⟨u, h₁, h₂, ⟨s', o, h', hstep, hu, rfl⟩, ht, rfl⟩
      exact ⟨s', o, h' ++ h₂, hstep, ⟨u, h', h₂, hu, ht, rfl⟩, rfl⟩

/-! ## History invariants -/

/-- A history invariant that every step keeps, and under which no step crashes,
    holds after every run from a state that satisfies it. -/
theorem run_safe_from {P : List (Event σ ι ο) → σ → Prop} {I : ι → Prop}
    (hstep : ∀ h s i, P h s → I i →
      ∃ s' o, M.step s i = some (s', o) ∧ P (h ++ [⟨s, i, o, s'⟩]) s') :
    ∀ (is : List ι) (h : List (Event σ ι ο)) (s : σ), P h s → (∀ i ∈ is, I i) →
      ∃ t h', M.run s is = some (t, h') ∧ P (h ++ h') t := by
  intro is
  induction is with
  | nil =>
    intro h s hP _
    exact ⟨s, [], rfl, by simpa using hP⟩
  | cons i is ih =>
    intro h s hP hI
    obtain ⟨s', o, hs, hP'⟩ := hstep h s i hP (hI i (by simp))
    obtain ⟨t, h', hrun, hPt⟩ := ih _ s' hP' (fun j hj => hI j (by simp [hj]))
    refine ⟨t, ⟨s, i, o, s'⟩ :: h', ?_, by simpa using hPt⟩
    exact (M.run_cons_eq_some).2 ⟨s', o, h', hs, hrun, rfl⟩

/-- `run_safe_from` at the initial state and the empty history. -/
theorem run_safe {P : List (Event σ ι ο) → σ → Prop} {I : ι → Prop}
    (hinit : P [] M.init)
    (hstep : ∀ h s i, P h s → I i →
      ∃ s' o, M.step s i = some (s', o) ∧ P (h ++ [⟨s, i, o, s'⟩]) s')
    (is : List ι) (hI : ∀ i ∈ is, I i) :
    ∃ t h, M.run M.init is = some (t, h) ∧ P h t := by
  simpa using M.run_safe_from hstep is [] M.init hinit hI

/-- An element of a list that has grown by one is the new one or an old one. -/
theorem split_concat {α : Type*} {front past later : List α} {new a : α}
    (h : front ++ [new] = past ++ a :: later) :
    (front = past ∧ new = a) ∨ ∃ later', front = past ++ a :: later' := by
  rcases List.eq_nil_or_concat' later with rfl | ⟨later', last, rfl⟩
  · obtain ⟨hfront, hlast⟩ := List.append_inj' h rfl
    exact .inl ⟨hfront, List.head_eq_of_cons_eq hlast⟩
  · rw [← List.cons_append, ← List.append_assoc] at h
    obtain ⟨hfront, -⟩ := List.append_inj' h rfl
    exact .inr ⟨later', hfront⟩

/-- The rule for a property `Q` of single steps, given the history before them:
    an invariant `P` that brings `Q` with it in every step does so in every run. -/
theorem run_safe_steps {P : List (Event σ ι ο) → σ → Prop}
    {Q : List (Event σ ι ο) → Event σ ι ο → Prop} {I : ι → Prop} (hinit : P [] M.init)
    (hstep : ∀ h s i, P h s → I i → ∃ s' o, M.step s i = some (s', o) ∧
      P (h ++ [⟨s, i, o, s'⟩]) s' ∧ Q h ⟨s, i, o, s'⟩)
    (is : List ι) (hI : ∀ i ∈ is, I i) :
    ∃ t h, M.run M.init is = some (t, h) ∧ P h t ∧
      ∀ past e later, h = past ++ e :: later → Q past e := by
  refine M.run_safe (P := fun h t => P h t ∧ ∀ past e later, h = past ++ e :: later → Q past e)
    ⟨hinit, fun past e later hnil => by simp at hnil⟩ ?_ is hI
  rintro h s i ⟨hP, hQ⟩ hi
  obtain ⟨s', o, hs, hP', hq⟩ := hstep h s i hP hi
  refine ⟨s', o, hs, hP', fun past e later heq => ?_⟩
  rcases split_concat heq with ⟨rfl, rfl⟩ | ⟨later', hold⟩
  · exact hq
  · exact hQ past e later' hold

/-- The rule for runs that are known to succeed: each successful step keeps `P`. -/
theorem run_inv_from {P : List (Event σ ι ο) → σ → Prop} {I : ι → Prop}
    (hstep : ∀ h s i s' o, P h s → I i → M.step s i = some (s', o) →
      P (h ++ [⟨s, i, o, s'⟩]) s') :
    ∀ (is : List ι) (h h' : List (Event σ ι ο)) (s t : σ), P h s → (∀ i ∈ is, I i) →
      M.run s is = some (t, h') → P (h ++ h') t := by
  intro is
  induction is with
  | nil =>
    intro h h' s t hP _ hrun
    cases hrun
    simpa using hP
  | cons i is ih =>
    intro h h' s t hP hI hrun
    obtain ⟨s', o, h'', hs, hrest, rfl⟩ := (M.run_cons_eq_some).1 hrun
    have hP' := hstep h s i s' o hP (hI i (by simp)) hs
    simpa using ih _ h'' s' t hP' (fun j hj => hI j (by simp [hj])) hrest

/-- `run_inv_from` at the initial state and the empty history. -/
theorem run_inv {P : List (Event σ ι ο) → σ → Prop} {I : ι → Prop}
    (hinit : P [] M.init)
    (hstep : ∀ h s i s' o, P h s → I i → M.step s i = some (s', o) →
      P (h ++ [⟨s, i, o, s'⟩]) s')
    {is : List ι} {h : List (Event σ ι ο)} {t : σ} (hI : ∀ i ∈ is, I i)
    (hrun : M.run M.init is = some (t, h)) : P h t := by
  simpa using M.run_inv_from hstep is [] h M.init t hinit hI hrun

/-- The rule of `run_safe_steps` for runs that are known to succeed. -/
theorem run_inv_steps {P : List (Event σ ι ο) → σ → Prop}
    {Q : List (Event σ ι ο) → Event σ ι ο → Prop} (hinit : P [] M.init)
    (hstep : ∀ h s i s' o, P h s → M.step s i = some (s', o) →
      P (h ++ [⟨s, i, o, s'⟩]) s' ∧ Q h ⟨s, i, o, s'⟩)
    {is : List ι} {h : List (Event σ ι ο)} {t : σ} (hrun : M.run M.init is = some (t, h)) :
    P h t ∧ ∀ past e later, h = past ++ e :: later → Q past e := by
  refine M.run_inv (P := fun h t => P h t ∧ ∀ past e later, h = past ++ e :: later → Q past e)
    (I := fun _ => True) ⟨hinit, fun past e later hnil => by simp at hnil⟩ ?_
    (fun _ _ => trivial) hrun
  intro h s i s' o ⟨hP, hQ⟩ _ hs
  obtain ⟨hP', hq⟩ := hstep h s i s' o hP hs
  refine ⟨hP', fun past e later heq => ?_⟩
  rcases split_concat heq with ⟨rfl, rfl⟩ | ⟨later', hold⟩
  · exact hq
  · exact hQ past e later' hold

/-- The rule for what holds between two steps: a step that satisfies `start` brings `R`
    about, every step that satisfies `keep` keeps it, and under `R` a step satisfies `Q`.
    Then every step after a `start`, with only `keep`s in between, satisfies `Q`. -/
theorem run_between {G R : σ → Prop} {start keep Q : Event σ ι ο → Prop} (hinit : G M.init)
    (hstep : ∀ e : Event σ ι ο, G e.before → M.step e.before e.input = some (e.after, e.output) →
      G e.after ∧ (start e → R e.after) ∧ (R e.before → (keep e → R e.after) ∧ Q e))
    {is : List ι} {h : List (Event σ ι ο)} {t : σ} (hrun : M.run M.init is = some (t, h)) :
    ∀ past e mid e' later, h = past ++ e :: (mid ++ e' :: later) → start e →
      (∀ c ∈ mid, keep c) → Q e' := by
  refine (M.run_inv (P := fun h s => G s ∧
      (∀ past e mid, h = past ++ e :: mid → start e → (∀ c ∈ mid, keep c) → R s) ∧
      ∀ past e mid e' later, h = past ++ e :: (mid ++ e' :: later) → start e →
        (∀ c ∈ mid, keep c) → Q e') (I := fun _ => True) ⟨hinit, ?_, ?_⟩ ?_
    (fun _ _ => trivial) hrun).2.2
  · intro past e mid hnil
    simp at hnil
  · intro past e mid e' later hnil
    simp at hnil
  · intro h s i s' o hP _ hs
    obtain ⟨hG, hR, hQ⟩ := hP
    obtain ⟨hG', hstart, hnext⟩ := hstep ⟨s, i, o, s'⟩ hG hs
    refine ⟨hG', fun past e mid heq he hmid => ?_, fun past e mid e' later heq he hmid => ?_⟩
    · rcases List.eq_nil_or_concat' mid with rfl | ⟨mid, last, rfl⟩
      -- the new step starts, or it keeps what an older one has started
      · obtain ⟨-, hlast⟩ := List.append_inj' heq rfl
        rw [← List.head_eq_of_cons_eq hlast] at he
        exact hstart he
      · rw [← List.cons_append, ← List.append_assoc] at heq
        obtain ⟨hfront, hlast⟩ := List.append_inj' heq rfl
        have hold := hR past e mid hfront he fun c hc => hmid c (List.mem_append_left _ hc)
        refine (hnext hold).1 ?_
        rw [List.head_eq_of_cons_eq hlast]
        exact hmid last (List.mem_append_right _ List.mem_cons_self)
    · rcases List.eq_nil_or_concat' later with rfl | ⟨later, last, rfl⟩
      · rw [← List.cons_append, ← List.append_assoc] at heq
        obtain ⟨hfront, hlast⟩ := List.append_inj' heq rfl
        rw [← List.head_eq_of_cons_eq hlast]
        exact (hnext (hR past e mid hfront he hmid)).2
      · rw [← List.cons_append, ← List.append_assoc, ← List.cons_append, ← List.append_assoc]
          at heq
        obtain ⟨hfront, -⟩ := List.append_inj' heq rfl
        exact hQ past e mid e' later (by simpa using hfront) he hmid

end Machine
