import Mathlib

/-! # Merging in any Order and any Grouping

    A `MergeTree` says which values are merged, in which order and how they are
    grouped; `eval` carries the merges out.

    This module collects:

    * **`eval_rule`**: what holds of single values and is kept by a merge holds
      of the result, for trees whose leaves satisfy a hereditary condition.
    * **`comb`**: merging one value after the other into the first. -/

/-- Values to be merged, and how they are grouped. -/
inductive MergeTree (α : Type*) where
  | leaf (a : α)
  | node (left right : MergeTree α)

namespace MergeTree

variable {α : Type*}

/-- The values merged, from left to right. -/
def leaves : MergeTree α → List α
  | leaf a => [a]
  | node left right => left.leaves ++ right.leaves

/-- The result of all merges. -/
def eval (merge : α → α → α) : MergeTree α → α
  | leaf a => a
  | node left right => merge (left.eval merge) (right.eval merge)

/-- **The rule for merges.** `Q` is what is known of the leaves of every subtree. -/
theorem eval_rule {merge : α → α → α} {P : List α → α → Prop} {Q : List α → Prop}
    (hereditary : ∀ {xs ys}, Q (xs ++ ys) → Q xs ∧ Q ys)
    (single : ∀ a, Q [a] → P [a] a)
    (merged : ∀ {xs ys a b}, Q (xs ++ ys) → P xs a → P ys b → P (xs ++ ys) (merge a b)) :
    ∀ t : MergeTree α, Q t.leaves → P t.leaves (t.eval merge) := by
  intro t
  induction t with
  | leaf a => exact single a
  | node left right ihleft ihright =>
    intro hQ
    obtain ⟨hleft, hright⟩ := hereditary hQ
    exact merged hQ (ihleft hleft) (ihright hright)

/-- The values of a list, merged one after the other into the first. -/
def comb (first : α) (rest : List α) : MergeTree α :=
  rest.foldl (fun t a => node t (leaf a)) (leaf first)

theorem leaves_foldl (rest : List α) (t : MergeTree α) :
    (rest.foldl (fun t a => node t (leaf a)) t).leaves = t.leaves ++ rest := by
  induction rest generalizing t with
  | nil => rw [List.foldl_nil, List.append_nil]
  | cons a rest ih =>
    rw [List.foldl_cons, ih]
    show t.leaves ++ [a] ++ rest = t.leaves ++ a :: rest
    rw [List.append_assoc, List.singleton_append]

@[simp] theorem leaves_comb (first : α) (rest : List α) :
    (comb first rest).leaves = first :: rest :=
  leaves_foldl rest (leaf first)

end MergeTree
