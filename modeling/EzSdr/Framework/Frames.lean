import Mathlib

/-! # Cutting a Stream into Frames

    A list is cut from its start into frames of `n` elements; what is left over
    at the end is no frame.

    This module collects:

    * **`wholeFrames_append`**: cutting distributes over a prefix of whole
      frames.
    * **`wholeFrames_prefix`**: more input only adds frames.
    * **`wholeFrames_take`**: the first frames are those of the first elements. -/

namespace List

variable {α : Type*}

/-- The frames of `n` elements, from the start of the list. -/
def wholeFrames (n : ℕ) (l : List α) : List (List α) :=
  (List.range (l.length / n)).map fun i => (l.drop (i * n)).take n

@[simp] theorem length_wholeFrames (n : ℕ) (l : List α) :
    (wholeFrames n l).length = l.length / n := by
  rw [wholeFrames, length_map, length_range]

/-- No frame is left in less than `n` elements. -/
theorem wholeFrames_of_lt {n : ℕ} {l : List α} (h : l.length < n) : wholeFrames n l = [] := by
  rw [wholeFrames, Nat.div_eq_of_lt h, range_zero, map_nil]

/-- One frame in front. -/
theorem wholeFrames_cons {n : ℕ} (hn : 0 < n) {a : List α} (ha : a.length = n) (l : List α) :
    wholeFrames n (a ++ l) = a :: wholeFrames n l := by
  have hlen : (a ++ l).length / n = l.length / n + 1 := by
    rw [length_append, ha, Nat.add_comm, Nat.add_div_right _ hn]
  unfold wholeFrames
  rw [hlen, range_succ_eq_map, map_cons, map_map, Nat.zero_mul, drop_zero, ← ha, take_left]
  refine congrArg (a :: ·) (map_congr_left fun i _ => ?_)
  have hskip : (i + 1) * a.length = a.length + i * a.length := by rw [Nat.succ_mul, Nat.add_comm]
  simp only [Function.comp_apply, Nat.succ_eq_add_one]
  rw [hskip, drop_length_add_append]

/-- **A prefix of whole frames is cut on its own.** -/
theorem wholeFrames_append {n : ℕ} (hn : 0 < n) (k : ℕ) :
    ∀ {a : List α}, a.length = k * n → ∀ l : List α,
      wholeFrames n (a ++ l) = wholeFrames n a ++ wholeFrames n l := by
  induction k with
  | zero =>
    intro a ha l
    rw [Nat.zero_mul] at ha
    obtain rfl := eq_nil_of_length_eq_zero ha
    rw [nil_append, wholeFrames_of_lt (l := ([] : List α)) hn, nil_append]
  | succ k ih =>
    intro a ha l
    rw [Nat.succ_mul] at ha
    have hfirst : (a.take n).length = n := by
      rw [length_take]
      omega
    have hrest : (a.drop n).length = k * n := by
      rw [length_drop]
      omega
    have hsplit : a = a.take n ++ a.drop n := (take_append_drop n a).symm
    rw [hsplit, append_assoc, wholeFrames_cons hn hfirst, wholeFrames_cons hn hfirst, ih hrest l,
      cons_append]

/-- **More input only adds frames.** -/
theorem wholeFrames_prefix (n : ℕ) (l m : List α) :
    wholeFrames n l <+: wholeFrames n (l ++ m) := by
  obtain hzero | hn := Nat.eq_zero_or_pos n
  · rw [hzero, wholeFrames, Nat.div_zero, range_zero, map_nil]
    exact nil_prefix
  have hlen : (l.take (l.length / n * n)).length = l.length / n * n := by
    rw [length_take]
    exact Nat.min_eq_left (Nat.div_mul_le_self _ _)
  have hrest : (l.drop (l.length / n * n)).length < n := by
    rw [length_drop, Nat.mul_comm, ← Nat.mod_eq_sub_mul_div]
    exact Nat.mod_lt _ hn
  have hcut : l = l.take (l.length / n * n) ++ l.drop (l.length / n * n) :=
    (take_append_drop _ l).symm
  have hframes : wholeFrames n l = wholeFrames n (l.take (l.length / n * n)) := by
    conv_lhs => rw [hcut]
    rw [wholeFrames_append hn _ hlen, wholeFrames_of_lt hrest, append_nil]
  refine ⟨wholeFrames n (l.drop (l.length / n * n) ++ m), ?_⟩
  rw [hframes, ← wholeFrames_append hn _ hlen, ← append_assoc, ← hcut]

/-- **The first frames** are those of the first elements. -/
theorem wholeFrames_take {n : ℕ} (hn : 0 < n) (k : ℕ) (l : List α) (h : k * n ≤ l.length) :
    wholeFrames n (l.take (k * n)) = (wholeFrames n l).take k := by
  have hlen : (l.take (k * n)).length = k * n := by
    rw [length_take]
    exact Nat.min_eq_left h
  have hsplit := wholeFrames_append hn k hlen (l.drop (k * n))
  rw [take_append_drop] at hsplit
  have hcount : (wholeFrames n (l.take (k * n))).length = k := by
    rw [length_wholeFrames, hlen, Nat.mul_div_cancel _ hn]
  rw [hsplit]
  exact (take_left' hcount).symm

end List
