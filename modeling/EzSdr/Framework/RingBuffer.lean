import Mathlib

/-! # Ring Buffers

    A ring of cells with a place to write and a count of the cells in use. A
    full ring read from the place to write on is a window onto the end of what
    was pushed.

    This module collects:

    * **`push`**, **`clear`**, **`window`**: the operations. Clearing leaves
      the old contents in the cells.
    * **`Holds`**: what the ring keeps of a list that was pushed.
    * **`Holds.window_suffix`**: the window of a full ring. -/

/-- A ring of at least one cell. -/
structure RingBuffer (α : Type*) where
  cells  : List α
  /-- The next cell to write. -/
  write  : ℕ
  /-- The cells in use. -/
  filled : ℕ
  write_lt  : write < cells.length
  filled_le : filled ≤ cells.length

namespace RingBuffer

variable {α : Type*}

def size (r : RingBuffer α) : ℕ := r.cells.length

theorem size_pos (r : RingBuffer α) : 0 < r.size := Nat.zero_lt_of_lt r.write_lt

/-- An unused ring. -/
def replicate (n : ℕ) (a : α) (pos : 0 < n) : RingBuffer α where
  cells := List.replicate n a
  write := 0
  filled := 0
  write_lt := List.length_replicate.symm ▸ pos
  filled_le := Nat.zero_le _

/-- Start over. -/
def clear (r : RingBuffer α) : RingBuffer α where
  cells := r.cells
  write := 0
  filled := 0
  write_lt := r.size_pos
  filled_le := Nat.zero_le _

/-- Write one cell, the oldest if the ring is full. -/
def push (r : RingBuffer α) (a : α) : RingBuffer α where
  cells := r.cells.set r.write a
  write := (r.write + 1) % r.size
  filled := min (r.filled + 1) r.size
  write_lt := List.length_set.symm ▸ Nat.mod_lt _ r.size_pos
  filled_le := List.length_set.symm ▸ Nat.min_le_right _ _

/-- The cells `(write + i) % size` for `i` from 0, the oldest first. -/
def window (r : RingBuffer α) : List α := r.cells.rotate r.write

/-- The cell that is written next, which is the oldest of a full ring. -/
def oldest (r : RingBuffer α) : α := r.cells.get ⟨r.write, r.write_lt⟩

@[simp] theorem size_replicate (n : ℕ) (a : α) (pos : 0 < n) : (replicate n a pos).size = n :=
  List.length_replicate

@[simp] theorem size_clear (r : RingBuffer α) : r.clear.size = r.size := rfl

@[simp] theorem size_push (r : RingBuffer α) (a : α) : (r.push a).size = r.size := List.length_set

@[simp] theorem length_window (r : RingBuffer α) : r.window.length = r.size := List.length_rotate _ _

/-- The cells from the place to write on, and the others after them. -/
theorem window_eq (r : RingBuffer α) :
    r.window = r.oldest :: (r.cells.drop (r.write + 1) ++ r.cells.take r.write) := by
  unfold window oldest
  rw [List.rotate_eq_drop_append_take r.write_lt.le, List.drop_eq_getElem_cons r.write_lt,
    List.cons_append, List.get_eq_getElem]

theorem head_window (r : RingBuffer α) : r.window.head? = some r.oldest := by
  rw [window_eq, List.head?_cons]

/-- **The window moves on by one.** -/
theorem window_push (r : RingBuffer α) (a : α) : (r.push a).window = r.window.tail ++ [a] := by
  have hlt : r.write < r.cells.length := r.write_lt
  have hset : (r.cells.set r.write a).rotate (r.write + 1) =
      r.cells.drop (r.write + 1) ++ r.cells.take r.write ++ [a] := by
    rw [List.rotate_eq_drop_append_take (by rw [List.length_set]; exact hlt),
      List.drop_set_of_lt (Nat.lt_succ_self _), List.take_set,
      List.take_succ_eq_append_getElem hlt, List.set_append_right _ _ (by simp)]
    simp [Nat.min_eq_left hlt.le]
  have hmod : (r.cells.set r.write a).rotate ((r.write + 1) % r.size) =
      (r.cells.set r.write a).rotate (r.write + 1) := by
    have h := List.rotate_mod (r.cells.set r.write a) (r.write + 1)
    rwa [List.length_set] at h
  rw [window_eq r, List.tail_cons, ← hset, ← hmod]
  rfl

/-- A full ring stays full. -/
theorem push_full {r : RingBuffer α} (h : r.filled = r.size) (a : α) :
    (r.push a).filled = (r.push a).size := by
  have hmin : (r.push a).filled = min (r.filled + 1) r.size := rfl
  rw [hmin, size_push, h]
  exact Nat.min_eq_right (Nat.le_succ _)

/-! ## What a ring keeps -/

/-- The ring was cleared and `pushed` was written since: the end of `pushed`
    stands at the end of the window, after cells from before. -/
structure Holds (r : RingBuffer α) (pushed : List α) : Prop where
  filled_eq : r.filled = min pushed.length r.size
  newest    : r.window.drop (r.size - r.filled) = pushed.drop (pushed.length - r.filled)

theorem holds_clear (r : RingBuffer α) : r.clear.Holds [] where
  filled_eq := (Nat.zero_min _).symm
  newest := by
    have hlen : r.clear.window.length ≤ r.clear.size - r.clear.filled := by
      rw [length_window]
      exact le_refl _
    rw [List.drop_eq_nil_of_le hlen, List.drop_nil]

theorem holds_replicate (n : ℕ) (a : α) (pos : 0 < n) : (replicate n a pos).Holds [] :=
  holds_clear (replicate n a pos)

/-- One more element is kept, and the oldest is lost if the ring was full. -/
theorem Holds.push {r : RingBuffer α} {pushed : List α} (h : r.Holds pushed) (a : α) :
    (r.push a).Holds (pushed ++ [a]) := by
  have hfilled : (r.push a).filled = min (pushed.length + 1) r.size := by
    change min (r.filled + 1) r.size = _
    rw [h.filled_eq]
    omega
  refine ⟨by rw [hfilled, List.length_append, List.length_singleton, size_push], ?_⟩
  have hwin : r.window.length = r.size := r.length_window
  have hpos : 0 < r.size := r.size_pos
  rw [window_push, size_push, hfilled, List.length_append, List.length_singleton]
  have hleft : r.size - min (pushed.length + 1) r.size ≤ r.window.tail.length := by
    rw [List.length_tail, hwin]
    omega
  have hright : pushed.length + 1 - min (pushed.length + 1) r.size ≤ pushed.length := by omega
  rw [List.drop_append_of_le_length hleft, List.drop_append_of_le_length hright,
    ← List.drop_one, List.drop_drop]
  congr 1
  -- of what was kept before, the first element goes when the ring is full
  by_cases hfull : pushed.length < r.size
  · have hn := h.newest
    rw [h.filled_eq, Nat.min_eq_left hfull.le] at hn
    rw [Nat.min_eq_left (show pushed.length + 1 ≤ r.size from hfull)]
    have hstart : 1 + (r.size - (pushed.length + 1)) = r.size - pushed.length := by omega
    rw [hstart, hn, Nat.sub_self, Nat.sub_self]
  · have hn := h.newest
    rw [h.filled_eq, Nat.min_eq_right (not_lt.1 hfull), Nat.sub_self, List.drop_zero] at hn
    rw [Nat.min_eq_right (show r.size ≤ pushed.length + 1 by omega), hn, List.drop_drop]
    congr 1
    omega

/-- **The window of a full ring** is the end of what was pushed. -/
theorem Holds.window_suffix {r : RingBuffer α} {pushed : List α} (h : r.Holds pushed)
    (hfull : r.filled = r.size) : r.window <:+ pushed := by
  have hn := h.newest
  rw [hfull, Nat.sub_self, List.drop_zero] at hn
  rw [hn]
  exact List.drop_suffix _ _

end RingBuffer
