import Mathlib

/-! # Runs of Equal Keys

    Neighbours in a list that have the same key form a run. `latest` keeps the
    last element of every run.

    This module collects:

    * **`latest_append`**: of the elements in front, only the latest matter.
    * **`latest_replace`**: the last element can be replaced by a later one with
      its key.
    * **`map_latest`**: the keys that are left are the keys without adjacent
      repetitions. -/

namespace List

variable {α κ : Type*} [DecidableEq κ] {key : α → κ}

/-- One more element: it takes the place of the last one if that has its key. -/
def pushLatest (key : α → κ) (l : List α) (a : α) : List α :=
  if l.getLast?.map key = some (key a) then l.dropLast ++ [a] else l ++ [a]

/-- The last element of every run. -/
def latest (key : α → κ) (l : List α) : List α := l.foldl (pushLatest key) []

@[simp] theorem latest_nil : latest key ([] : List α) = [] := rfl

theorem latest_concat (l : List α) (a : α) :
    latest key (l ++ [a]) = pushLatest key (latest key l) a := by
  unfold latest
  rw [foldl_append, foldl_cons, foldl_nil]

/-- The new element is in every case the last one. -/
theorem pushLatest_eq (l : List α) (a : α) :
    ∃ front, pushLatest key l a = front ++ [a] ∧
      (∀ b, key b = key a → pushLatest key l b = front ++ [b]) := by
  by_cases h : l.getLast?.map key = some (key a)
  · exact ⟨l.dropLast, if_pos h, fun b hb => if_pos (h.trans (congrArg some hb.symm))⟩
  · refine ⟨l, if_neg h, fun b hb => if_neg fun hsame => h ?_⟩
    exact hsame.trans (congrArg some hb)

/-- An element with the key of the one before it replaces that one. -/
theorem pushLatest_pushLatest {a b : α} (h : key a = key b) (l : List α) :
    pushLatest key (pushLatest key l a) b = pushLatest key l b := by
  obtain ⟨front, ha, hb⟩ : ∃ front, pushLatest key l a = front ++ [a] ∧
      ∀ b, key b = key a → pushLatest key l b = front ++ [b] := pushLatest_eq l a
  rw [ha, hb b h.symm]
  unfold pushLatest
  rw [getLast?_concat, Option.map_some, if_pos (congrArg some h), dropLast_concat]

/-- **The last element can be replaced** by a later one with its key. -/
theorem latest_replace {a b : α} (h : key a = key b) (l : List α) :
    latest key (l ++ [a] ++ [b]) = latest key (l ++ [b]) := by
  rw [latest_concat, latest_concat, latest_concat, pushLatest_pushLatest h]

/-- **Only the latest elements in front matter** to what follows. -/
theorem latest_append {l l' : List α} (h : latest key l = latest key l') (m : List α) :
    latest key (l ++ m) = latest key (l' ++ m) := by
  induction m using List.reverseRecOn with
  | nil => rw [append_nil, append_nil, h]
  | append_singleton m a ih => rw [← append_assoc, ← append_assoc, latest_concat, latest_concat, ih]

/-- The keys that are left, one element more. -/
theorem map_pushLatest (l : List α) (a : α) :
    (pushLatest key l a).map key =
      if (l.map key).getLast? = some (key a) then l.map key else l.map key ++ [key a] := by
  unfold pushLatest
  rw [getLast?_map]
  split
  · next hsame =>
    obtain ⟨b, hb, hkey⟩ := Option.map_eq_some_iff.1 hsame
    obtain ⟨front, rfl⟩ := getLast?_eq_some_iff.1 hb
    rw [dropLast_concat, map_append, map_append, map_singleton, map_singleton, hkey]
  · rw [map_append, map_singleton]

/-- Repetitions at the end are left out. -/
theorem destutter'_concat (k : κ) (l : List κ) (a : κ) :
    (l ++ [a]).destutter' (· ≠ ·) k =
      if (l.destutter' (· ≠ ·) k).getLast? = some a then l.destutter' (· ≠ ·) k
      else l.destutter' (· ≠ ·) k ++ [a] := by
  induction l generalizing k with
  | nil =>
    by_cases h : k = a
    · simp [h]
    · simp [h]
  | cons b l ih =>
    by_cases h : k ≠ b
    · have hne : l.destutter' (· ≠ ·) b ≠ [] := destutter'_ne_nil _ _
      rw [cons_append, destutter'_cons_pos _ h, destutter'_cons_pos _ h, ih,
        getLast?_cons_of_ne_nil hne]
      split
      · rfl
      · rfl
    · rw [cons_append, destutter'_cons_neg _ h, destutter'_cons_neg _ h, ih]

/-- **The keys of the latest elements** are the keys without adjacent repetitions. -/
theorem map_latest (l : List α) : (latest key l).map key = (l.map key).destutter (· ≠ ·) := by
  induction l using List.reverseRecOn with
  | nil => rfl
  | append_singleton l a ih =>
    rw [latest_concat, map_pushLatest, ih, map_append, map_singleton]
    cases l with
    | nil => rfl
    | cons b l =>
      rw [map_cons, cons_append, destutter_cons', destutter_cons', destutter'_concat]

end List
