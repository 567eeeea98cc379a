import Mathlib

/-! # What Was Offered to a Queue

    A log of the items offered to a bounded queue, each with whether the queue
    took it. The queue hands out what it took in order, so a reader is always
    at some place of the log: everything before has been read or was refused.

    * **`taken`** and **`refused`**: the two parts of a log.
    * **`exists_first`**: the next item a reader gets, and what was refused
      before it. -/

/-- Items in the order in which they were offered; `true` if the queue took it. -/
abbrev OfferLog (α : Type*) := List (α × Bool)

namespace OfferLog

variable {α : Type*}

def offered (l : OfferLog α) : List α := l.map Prod.fst

def taken (l : OfferLog α) : List α := (l.filter (·.2)).map Prod.fst

def refused (l : OfferLog α) : List α := (l.filter (!·.2)).map Prod.fst

@[simp] theorem offered_nil : offered ([] : OfferLog α) = [] := rfl

@[simp] theorem taken_nil : taken ([] : OfferLog α) = [] := rfl

@[simp] theorem refused_nil : refused ([] : OfferLog α) = [] := rfl

@[simp] theorem offered_append (l l' : OfferLog α) :
    offered (l ++ l') = offered l ++ offered l' := List.map_append

@[simp] theorem taken_append (l l' : OfferLog α) : taken (l ++ l') = taken l ++ taken l' := by
  simp [taken]

@[simp] theorem refused_append (l l' : OfferLog α) :
    refused (l ++ l') = refused l ++ refused l' := by
  simp [refused]

@[simp] theorem offered_cons (a : α) (b : Bool) (l : OfferLog α) :
    offered ((a, b) :: l) = a :: offered l := rfl

@[simp] theorem taken_cons_true (a : α) (l : OfferLog α) : taken ((a, true) :: l) = a :: taken l :=
  rfl

@[simp] theorem taken_cons_false (a : α) (l : OfferLog α) : taken ((a, false) :: l) = taken l := rfl

@[simp] theorem refused_cons_true (a : α) (l : OfferLog α) :
    refused ((a, true) :: l) = refused l := rfl

@[simp] theorem refused_cons_false (a : α) (l : OfferLog α) :
    refused ((a, false) :: l) = a :: refused l := rfl

/-- If nothing was taken, everything was refused. -/
theorem refused_of_taken_nil {l : OfferLog α} (h : taken l = []) : refused l = offered l := by
  induction l with
  | nil => rfl
  | cons e l ih =>
    obtain ⟨a, b⟩ := e
    cases b with
    | false => rw [refused_cons_false, offered_cons, ih h]
    | true => cases h

/-- The first item that was taken, after some that were not. -/
theorem exists_first {l : OfferLog α} {a : α} {rest : List α} (h : taken l = a :: rest) :
    ∃ front back, l = front ++ (a, true) :: back ∧ taken front = [] ∧ taken back = rest := by
  induction l with
  | nil => cases h
  | cons e l ih =>
    obtain ⟨x, b⟩ := e
    cases b with
    | false =>
      obtain ⟨front, back, rfl, hfront, hback⟩ := ih h
      exact ⟨(x, false) :: front, back, rfl, hfront, hback⟩
    | true =>
      cases h
      exact ⟨[], l, rfl, rfl, rfl⟩

/-- Sums over a log are sums over its two parts. -/
theorem sum_offered (f : α → ℕ) (l : OfferLog α) :
    ((offered l).map f).sum = ((taken l).map f).sum + ((refused l).map f).sum := by
  induction l with
  | nil => rfl
  | cons e l ih =>
    obtain ⟨a, b⟩ := e
    cases b with
    | false =>
      simp only [offered_cons, taken_cons_false, refused_cons_false, List.map_cons, List.sum_cons]
      omega
    | true =>
      simp only [offered_cons, taken_cons_true, refused_cons_true, List.map_cons, List.sum_cons]
      omega

end OfferLog
