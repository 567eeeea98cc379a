import Mathlib

/-! # Bounded FIFO Queues

    A queue of at least one place, with the two non-blocking operations of a
    bounded channel: `trySend` fails on a full queue, `tryRecv` on an empty
    one. The bound is part of the type, so a queue above its capacity cannot
    be built. -/

/-- A queue of at most `capacity` items, oldest first. -/
structure BoundedQueue (α : Type*) where
  capacity : ℕ
  items    : List α
  /-- There is room for one item at least. -/
  pos      : 0 < capacity
  fits     : items.length ≤ capacity

namespace BoundedQueue

variable {α : Type*}

/-- The empty queue. -/
def empty (capacity : ℕ) (pos : 0 < capacity) : BoundedQueue α := ⟨capacity, [], pos, pos.le⟩

/-- Append an item, unless the queue is full. -/
def trySend (q : BoundedQueue α) (a : α) : Option (BoundedQueue α) :=
  if h : q.items.length < q.capacity then
    some ⟨q.capacity, q.items ++ [a], q.pos, by simpa using h⟩
  else none

/-- Take the oldest item, unless the queue is empty. -/
def tryRecv (q : BoundedQueue α) : Option (α × BoundedQueue α) :=
  match h : q.items with
  | [] => none
  | a :: rest =>
    some (a, ⟨q.capacity, rest, q.pos, by have := q.fits; rw [h] at this; exact Nat.le_of_lt this⟩)

/-- A queue of the same capacity that holds one item more. -/
theorem trySend_eq_some {q q' : BoundedQueue α} {a : α} (h : q.trySend a = some q') :
    q'.items = q.items ++ [a] ∧ q'.capacity = q.capacity := by
  unfold trySend at h
  split at h
  · cases h
    exact ⟨rfl, rfl⟩
  · cases h

/-- Only a full queue refuses an item. -/
theorem trySend_eq_none {q : BoundedQueue α} {a : α} :
    q.trySend a = none ↔ q.items.length = q.capacity := by
  have := q.fits
  unfold trySend
  split
  · simp
    omega
  · simp
    omega

theorem tryRecv_eq_some {q q' : BoundedQueue α} {a : α} (h : q.tryRecv = some (a, q')) :
    q.items = a :: q'.items ∧ q'.capacity = q.capacity := by
  unfold tryRecv at h
  split at h
  · cases h
  · next hitems =>
    cases h
    exact ⟨hitems, rfl⟩

theorem tryRecv_eq_none {q : BoundedQueue α} (h : q.tryRecv = none) : q.items = [] := by
  unfold tryRecv at h
  split at h
  · next hitems => exact hitems
  · cases h

/-- After a `tryRecv` there is room, whether it took an item or not. -/
theorem room_of_tryRecv_some {q q' : BoundedQueue α} {a : α} (h : q.tryRecv = some (a, q')) :
    q'.items.length < q'.capacity := by
  obtain ⟨hitems, hcapacity⟩ := tryRecv_eq_some h
  have := q.fits
  rw [hitems, List.length_cons] at this
  omega

theorem room_of_tryRecv_none {q : BoundedQueue α} (h : q.tryRecv = none) :
    q.items.length < q.capacity := by
  rw [tryRecv_eq_none h]
  exact q.pos

end BoundedQueue
