import Mathlib

/-! # Maps with Entries Removed, and Maps with a Queue

    `AList.retain` keeps the entries of a map that satisfy a test. A queue that
    lists every key of a map once puts its entries in line.

    This module collects:

    * **`lookup_retain`**: which values are left.
    * **`lined_insert_new`**, **`lined_insert_old`**, **`lined_retain`** and
      **`lined_erase_head`**: what the updates of map and queue do to the line. -/

namespace AList

variable {κ ν : Type*} [DecidableEq κ]

/-- Keep the entries that satisfy the test. -/
def retain (p : κ → ν → Bool) (m : AList fun _ : κ => ν) : AList fun _ : κ => ν where
  entries := m.entries.filter fun e => p e.1 e.2
  nodupKeys := m.nodupKeys.sublist List.filter_sublist

theorem lookup_retain (p : κ → ν → Bool) (m : AList fun _ : κ => ν) (k : κ) :
    (m.retain p).lookup k = (m.lookup k).filter (p k) := by
  apply Option.ext
  intro v
  have hleft : (m.retain p).lookup k = some v ↔ (⟨k, v⟩ : Sigma fun _ : κ => ν) ∈
      m.entries.filter fun e => p e.1 e.2 := mem_lookup_iff
  have hright : m.lookup k = some v ↔ (⟨k, v⟩ : Sigma fun _ : κ => ν) ∈ m.entries :=
    mem_lookup_iff
  rw [hleft, List.mem_filter, ← hright, Option.filter_eq_some_iff]

theorem mem_retain {p : κ → ν → Bool} {m : AList fun _ : κ => ν} {k : κ} :
    k ∈ m.retain p ↔ ∃ v, m.lookup k = some v ∧ p k v = true := by
  rw [← lookup_isSome, lookup_retain, Option.isSome_iff_exists]
  simp only [Option.filter_eq_some_iff]

/-- The entries of a map in the order of a queue of keys. -/
def line (m : AList fun _ : κ => ν) (order : List κ) : List (κ × ν) :=
  order.filterMap fun k => (m.lookup k).map (k, ·)

/-- The queue lists every key of the map once, and nothing else. -/
structure Lined (m : AList fun _ : κ => ν) (order : List κ) : Prop where
  nodup : order.Nodup
  mem   : ∀ k, k ∈ order ↔ k ∈ m

omit [DecidableEq κ] in
theorem lined_empty : Lined (∅ : AList fun _ : κ => ν) [] := ⟨List.nodup_nil, fun k => by simp⟩

section Line

variable {m : AList fun _ : κ => ν} {order : List κ}

theorem line_append (order' : List κ) : m.line (order ++ order') = m.line order ++ m.line order' :=
  List.filterMap_append

theorem mem_line {k : κ} {v : ν} :
    (k, v) ∈ m.line order ↔ k ∈ order ∧ m.lookup k = some v := by
  rw [line, List.mem_filterMap]
  constructor
  · rintro ⟨k', hk', h⟩
    obtain ⟨v', hv', heq⟩ := Option.map_eq_some_iff.1 h
    obtain ⟨rfl, rfl⟩ := Prod.mk.inj heq
    exact ⟨hk', hv'⟩
  · rintro ⟨hk, hv⟩
    exact ⟨k, hk, by rw [hv, Option.map_some]⟩

/-- The line of a queue whose keys are all in the map has just these keys. -/
theorem map_fst_line (h : ∀ k ∈ order, k ∈ m) : (m.line order).map Prod.fst = order := by
  induction order with
  | nil => rfl
  | cons k order ih =>
    obtain ⟨v, hv⟩ := Option.isSome_iff_exists.1 (lookup_isSome.2 (h k List.mem_cons_self))
    have hrest := ih fun k' hk' => h k' (List.mem_cons_of_mem _ hk')
    rw [line, List.filterMap_cons, hv]
    exact congrArg (k :: ·) hrest

/-- A map looks the same on a queue where the lookups are the same. -/
theorem line_congr {m' : AList fun _ : κ => ν} (h : ∀ k ∈ order, m'.lookup k = m.lookup k) :
    m'.line order = m.line order :=
  List.filterMap_congr fun k hk => by rw [h k hk]

theorem Lined.map_fst (h : Lined m order) : (m.line order).map Prod.fst = order :=
  map_fst_line fun k hk => (h.mem k).1 hk

omit [DecidableEq κ] in
theorem Lined.perm_keys (h : Lined m order) : order.Perm m.keys :=
  (List.perm_ext_iff_of_nodup h.nodup m.keys_nodup).2 fun k => (h.mem k).trans mem_keys

/-- The line is the map, in another order. -/
theorem Lined.perm_entries (h : Lined m order) :
    (m.line order).Perm (m.entries.map fun e => (e.1, e.2)) := by
  have hentries : (m.entries.map fun e => (e.1, e.2)) = m.line m.keys := by
    have hself : ∀ e ∈ m.entries, (m.lookup e.1).map (e.1, ·) = some (e.1, e.2) := by
      intro e he
      have hlookup : m.lookup e.1 = some e.2 := mem_lookup_iff.2 he
      rw [hlookup, Option.map_some]
    rw [line, keys, List.keys, List.filterMap_map, ← List.filterMap_eq_map]
    exact (List.filterMap_congr hself).symm
  rw [hentries]
  exact h.perm_keys.filterMap _

/-! ## Updates -/

/-- A new key goes to the end of the line. -/
theorem lined_insert_new {k : κ} (h : Lined m order) (hk : k ∉ m) (v : ν) :
    Lined (m.insert k v) (order ++ [k]) ∧
      (m.insert k v).line (order ++ [k]) = m.line order ++ [(k, v)] := by
  have hnot : k ∉ order := fun hmem => hk ((h.mem k).1 hmem)
  refine ⟨⟨?_, fun k' => ?_⟩, ?_⟩
  · exact List.nodup_append.2 ⟨h.nodup, List.nodup_singleton k, fun a ha b hb hab => by
      rw [List.mem_singleton.1 hb] at hab
      exact hnot (hab ▸ ha)⟩
  · rw [List.mem_append, List.mem_singleton, h.mem, mem_insert, or_comm]
  · have hold : (m.insert k v).line order = m.line order :=
      line_congr fun k' hk' => lookup_insert_ne fun heq => hnot (heq ▸ hk')
    have hnew : (m.insert k v).line [k] = [(k, v)] := by
      rw [line, List.filterMap_cons, lookup_insert]
      rfl
    rw [line_append, hold, hnew]

/-- A value that is replaced keeps its place. -/
theorem lined_insert_old {k : κ} (h : Lined m order) (hk : k ∈ m) (v : ν) :
    Lined (m.insert k v) order ∧
      (m.insert k v).line order =
        (m.line order).map fun e => if e.1 = k then (k, v) else e := by
  refine ⟨⟨h.nodup, fun k' => ?_⟩, ?_⟩
  · rw [h.mem, mem_insert]
    constructor
    · exact .inr
    · rintro (rfl | hk')
      · exact hk
      · exact hk'
  · have hmem : ∀ k' ∈ order, k' ∈ m := fun k' hk' => (h.mem k').1 hk'
    clear h
    induction order with
    | nil => rfl
    | cons k' order ih =>
      have hrest := ih fun a ha => hmem a (List.mem_cons_of_mem _ ha)
      obtain ⟨v', hv'⟩ :=
        Option.isSome_iff_exists.1 (lookup_isSome.2 (hmem k' List.mem_cons_self))
      rw [line, line, List.filterMap_cons, List.filterMap_cons, hv']
      by_cases heq : k' = k
      · subst heq
        rw [lookup_insert]
        exact congrArg₂ (· :: ·) (if_pos rfl).symm hrest
      · rw [lookup_insert_ne heq, hv']
        exact congrArg₂ (· :: ·) (if_neg heq).symm hrest

/-- Map and queue thinned out alike. -/
theorem lined_retain (p : κ → ν → Bool) (h : Lined m order) :
    Lined (m.retain p) (order.filter fun k => k ∈ m.retain p) ∧
      (m.retain p).line (order.filter fun k => k ∈ m.retain p) =
        (m.line order).filter fun e => p e.1 e.2 := by
  refine ⟨⟨h.nodup.filter _, fun k => ?_⟩, ?_⟩
  · rw [List.mem_filter, decide_eq_true_iff, h.mem]
    constructor
    · exact fun hk => hk.2
    · intro hk
      obtain ⟨v, hv, -⟩ := mem_retain.1 hk
      exact ⟨lookup_isSome.1 (by rw [hv, Option.isSome_some]), hk⟩
  · rw [line, line, List.filterMap_filter, List.filter_filterMap]
    apply List.filterMap_congr
    intro k hk
    rw [lookup_retain]
    cases hv : m.lookup k with
    | none => simp
    | some v =>
      by_cases hp : p k v = true
      · have hmem : k ∈ m.retain p := mem_retain.2 ⟨v, hv, hp⟩
        rw [if_pos (decide_eq_true hmem), Option.filter_some, if_pos hp, Option.map_some,
          Option.filter_some, if_pos hp]
      · have hmem : ¬ decide (k ∈ m.retain p) = true := by
          rw [decide_eq_true_iff]
          intro hk'
          obtain ⟨v', hv', hp'⟩ := mem_retain.1 hk'
          rw [hv] at hv'
          cases hv'
          exact hp hp'
        rw [if_neg hmem, Option.map_some, Option.filter_some, if_neg hp]

/-- The first key leaves. -/
theorem lined_erase_head {k : κ} (h : Lined m (k :: order)) :
    Lined (m.erase k) order ∧
      ∃ v, m.lookup k = some v ∧ m.line (k :: order) = (k, v) :: (m.erase k).line order := by
  obtain ⟨hnot, hnodup⟩ := List.nodup_cons.1 h.nodup
  refine ⟨⟨hnodup, fun k' => ?_⟩, ?_⟩
  · rw [mem_erase, ← h.mem, List.mem_cons]
    constructor
    · intro hk'
      exact ⟨fun heq => hnot (heq ▸ hk'), .inr hk'⟩
    · rintro ⟨hne, heq | hk'⟩
      · exact absurd heq hne
      · exact hk'
  · obtain ⟨v, hv⟩ :=
      Option.isSome_iff_exists.1 (lookup_isSome.2 ((h.mem k).1 List.mem_cons_self))
    refine ⟨v, hv, ?_⟩
    have hrest : (m.erase k).line order = m.line order :=
      line_congr fun k' hk' => lookup_erase_ne fun heq => hnot (heq ▸ hk')
    rw [hrest, line, List.filterMap_cons, hv]
    rfl

end Line

end AList
