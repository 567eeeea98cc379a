import Mathlib

/-! # Commutated Delay Lines

    Items are dealt in turn to `n` first-in first-out lines of fixed lengths.
    An item that enters a line pushes the oldest one out; an empty line passes
    the item through. This is a convolutional interleaver and, with the
    lengths reversed, its inverse.

    `feed_fresh` is the law of the device: from lines of length `d b` filled
    with a blank, output `k` is input `k - n * d (k mod n)`, or the blank when
    there is no such input.
-/

/-- `n` delay lines and the line that takes the next item. -/
structure Commutator (n : Nat) (α : Type*) where
  lines : Fin n → List α
  branch : Fin n

namespace Commutator

variable {n : Nat} [NeZero n] {α : Type*}

/-! ## The device -/

/-- An item enters a line and the oldest one leaves it. -/
def shift : List α → α → α × List α
  | [], x => (x, [])
  | y :: ys, x => (y, ys ++ [x])

/-- Deal one item. -/
def push (c : Commutator n α) (x : α) : α × Commutator n α :=
  let (out, line) := shift (c.lines c.branch) x
  (out, ⟨Function.update c.lines c.branch line, c.branch + 1⟩)

/-- Deal a list of items. -/
def feed (c : Commutator n α) : List α → List α × Commutator n α
  | [] => ([], c)
  | x :: xs =>
    let (out, next) := c.push x
    let (outs, last) := feed next xs
    (out :: outs, last)

/-- Lines filled with a blank, about to deal to the first. -/
def fresh (d : Fin n → Nat) (blank : α) : Commutator n α :=
  ⟨fun b => List.replicate (d b) blank, 0⟩

/-- Item `k` of `xs` after the delay of its line. -/
def delayed (d : Fin n → Nat) (blank : α) (xs : Nat → α) (k : Nat) : α :=
  if k < n * d (Fin.ofNat n k) then blank else xs (k - n * d (Fin.ofNat n k))

@[simp] theorem feed_nil (c : Commutator n α) : c.feed [] = ([], c) := rfl

theorem feed_append (c : Commutator n α) (xs ys : List α) :
    c.feed (xs ++ ys) =
      ((c.feed xs).1 ++ ((c.feed xs).2.feed ys).1, ((c.feed xs).2.feed ys).2) := by
  induction xs generalizing c with
  | nil => rfl
  | cons x xs ih => simp only [List.cons_append, feed, ih]

/-! ## The law -/

/-- Where the lines stand after `k` items of the stream `xs`: a line holds, in
    order, what its next visits will put out. -/
structure Follows (d : Fin n → Nat) (blank : α) (xs : Nat → α) (k : Nat)
    (c : Commutator n α) : Prop where
  branch : c.branch = Fin.ofNat n k
  length : ∀ b, (c.lines b).length = d b
  holds : ∀ b v, k ≤ v → v < k + n → Fin.ofNat n v = b →
    ∀ j, j < d b → (c.lines b)[j]? = some (delayed d blank xs (v + n * j))

theorem ofNat_add_mul (v j : Nat) : Fin.ofNat n (v + n * j) = Fin.ofNat n v := by
  apply Fin.ext
  show (v + n * j) % n = v % n
  rw [Nat.add_mul_mod_self_left]

theorem fresh_follows (d : Fin n → Nat) (blank : α) (xs : Nat → α) :
    Follows d blank xs 0 (fresh d blank) := by
  refine ⟨rfl, fun b => List.length_replicate, ?_⟩
  intro b v _ hv hb j hj
  -- the visit comes before the line has been emptied once
  have hearly : v + n * j < n * d b := by
    have : n * (j + 1) ≤ n * d b := Nat.mul_le_mul_left n hj
    rw [Nat.mul_succ] at this
    omega
  unfold delayed fresh
  rw [ofNat_add_mul, hb, if_pos hearly]
  exact List.getElem?_replicate_of_lt hj

/-- One item: the output is the delayed item, and the line is left holding
    what its later visits will put out. -/
theorem Follows.push {d : Fin n → Nat} {blank : α} {xs : Nat → α} {k : Nat}
    {c : Commutator n α} (h : Follows d blank xs k c) :
    (c.push (xs k)).1 = delayed d blank xs k ∧
      Follows d blank xs (k + 1) (c.push (xs k)).2 := by
  have hn : 0 < n := Nat.pos_of_ne_zero (NeZero.ne n)
  have hfront := h.holds c.branch k le_rfl (by omega) h.branch.symm
  have hlength := h.length c.branch
  have hshift : (shift (c.lines c.branch) (xs k)).1 = delayed d blank xs k ∧
      (shift (c.lines c.branch) (xs k)).2.length = d c.branch ∧
      ∀ j, j < d c.branch → (shift (c.lines c.branch) (xs k)).2[j]? =
        some (delayed d blank xs (k + n + n * j)) := by
    match hline : c.lines c.branch with
    | [] =>
      rw [hline] at hlength
      have hzero : d c.branch = 0 := hlength.symm
      refine ⟨?_, hlength, fun j hj => by omega⟩
      show xs k = delayed d blank xs k
      unfold delayed
      rw [← h.branch, hzero, Nat.mul_zero, if_neg (Nat.not_lt_zero k), Nat.sub_zero]
    | y :: ys =>
      rw [hline] at hlength hfront
      rw [List.length_cons] at hlength
      refine ⟨?_, by simpa [shift] using hlength, ?_⟩
      · have hy := hfront 0 (by omega)
        exact Option.some.inj hy
      intro j hj
      show (ys ++ [xs k])[j]? = _
      by_cases hlast : j < ys.length
      · have hnext := hfront (j + 1) (by omega)
        rw [List.getElem?_append_left hlast]
        rw [List.getElem?_cons_succ] at hnext
        rw [hnext, Nat.mul_succ]
        congr 2
        omega
      · -- the item itself comes out after the line has turned over once
        have hj' : j = ys.length := by omega
        subst hj'
        have hindex : k + n + n * ys.length = k + n * d c.branch := by
          rw [← hlength, Nat.mul_succ]
          omega
        rw [List.getElem?_append_right le_rfl, hindex]
        unfold delayed
        rw [ofNat_add_mul, ← h.branch]
        simp
  refine ⟨hshift.1, ?_, ?_, ?_⟩
  · show c.branch + 1 = Fin.ofNat n (k + 1)
    rw [h.branch]
    apply Fin.ext
    simp [Fin.val_add, Nat.add_mod]
  · intro b
    show (Function.update c.lines c.branch _ b).length = d b
    by_cases hb : b = c.branch
    · subst hb
      rw [Function.update_self]
      exact hshift.2.1
    · rw [Function.update_of_ne hb]
      exact h.length b
  · intro b v hkv hvk hvb j hj
    show (Function.update c.lines c.branch _ b)[j]? = _
    by_cases hb : b = c.branch
    · subst hb
      -- the next visit of this line is a full turn away
      have hv : v = k + n := by
        rw [h.branch] at hvb
        have hmod : v % n = k % n := congrArg Fin.val hvb
        have : (v - k) % n = 0 := Nat.sub_mod_eq_zero_of_mod_eq hmod
        obtain ⟨m, hm⟩ := Nat.dvd_of_mod_eq_zero this
        have hm1 : m = 1 := by
          match m with
          | 0 => omega
          | 1 => rfl
          | m + 2 =>
            rw [Nat.mul_add] at hm
            omega
        subst hm1
        omega
      subst hv
      rw [Function.update_self]
      exact hshift.2.2 j hj
    · rw [Function.update_of_ne hb]
      refine h.holds b v (by omega) ?_ hvb j hj
      -- a visit a full turn away would be of the line just served
      by_contra hfar
      have hv : v = k + n * 1 := by omega
      rw [hv, ofNat_add_mul, ← h.branch] at hvb
      exact hb hvb.symm

/-- The law of the device, from any point of the stream on. -/
theorem Follows.feed {d : Fin n → Nat} {blank : α} {xs : Nat → α} {k : Nat}
    {c : Commutator n α} (h : Follows d blank xs k c) (m : Nat) :
    (c.feed ((List.range m).map fun i => xs (k + i))).1 =
      (List.range m).map fun i => delayed d blank xs (k + i) := by
  induction m generalizing k c with
  | zero => rfl
  | succ m ih =>
    have hpush := h.push
    have hrest := ih hpush.2
    simp only [Nat.succ_add_eq_add_succ] at hrest
    rw [List.range_succ_eq_map, List.map_cons, List.map_cons, List.map_map, List.map_map]
    exact congrArg₂ List.cons hpush.1 hrest

/-- **The law of the device**: from blank lines, output `k` is input
    `k - n * d (k mod n)`, or the blank when there is none. -/
theorem feed_fresh (d : Fin n → Nat) (blank : α) (xs : Nat → α) (m : Nat) :
    ((fresh d blank).feed ((List.range m).map xs)).1 =
      (List.range m).map (delayed d blank xs) := by
  have h := (fresh_follows d blank xs).feed m
  simpa using h

end Commutator
