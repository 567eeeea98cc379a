import Mathlib

/-! # Registries with One Owner for Each Entry

    A registry hands out its entries under increasing numbers, and a table says
    which entry each of its keys has. `Owned` says that the two fit: the live
    entries are exactly those some key has, and no two keys have the same one.
    Handing out a new entry and taking one back keep it. -/

variable {κ : Type*}

/-- The live entries of a registry, each the entry of exactly one key. -/
structure Owned (owner : κ → Option ℕ) (live : Set ℕ) (next : ℕ) : Prop where
  lt_next : ∀ k ∈ live, k < next
  mem_iff : ∀ k, k ∈ live ↔ ∃ key, owner key = some k
  unique  : ∀ i j k, owner i = some k → owner j = some k → i = j

namespace Owned

variable {owner : κ → Option ℕ} {live : Set ℕ} {next : ℕ}

theorem empty : Owned (fun _ : κ => none) ∅ 0 where
  lt_next := fun _ h => absurd h (Set.notMem_empty _)
  mem_iff := by simp
  unique := by simp

theorem owner_lt (h : Owned owner live next) {key : κ} {k : ℕ} (hkey : owner key = some k) :
    k < next :=
  h.lt_next k ((h.mem_iff k).2 ⟨key, hkey⟩)

/-- The entry is live exactly as long as the key has it. -/
theorem bijOn (h : Owned owner live next) :
    Set.BijOn owner {key | (owner key).isSome = true} (some '' live) := by
  refine ⟨?_, ?_, ?_⟩
  · intro key hkey
    obtain ⟨k, hk⟩ := Option.isSome_iff_exists.1 hkey
    exact ⟨k, (h.mem_iff k).2 ⟨key, hk⟩, hk.symm⟩
  · intro i hi j _ heq
    obtain ⟨k, hk⟩ := Option.isSome_iff_exists.1 hi
    exact h.unique i j k hk (heq ▸ hk)
  · rintro _ ⟨k, hk, rfl⟩
    obtain ⟨key, hkey⟩ := (h.mem_iff k).1 hk
    exact ⟨key, Option.isSome_iff_exists.2 ⟨k, hkey⟩, hkey⟩

/-- Numbers may be skipped. -/
theorem mono (h : Owned owner live next) {next' : ℕ} (hle : next ≤ next') :
    Owned owner live next' :=
  ⟨fun k hk => (h.lt_next k hk).trans_le hle, h.mem_iff, h.unique⟩

variable [DecidableEq κ]

/-- A key without an entry gets the next one. -/
theorem give (h : Owned owner live next) {key : κ} (hnone : owner key = none) :
    Owned (Function.update owner key (some next)) (insert next live) (next + 1) := by
  constructor
  case lt_next =>
    intro k hk
    rcases hk with rfl | hk
    · exact Nat.lt_succ_self k
    · exact Nat.lt_succ_of_lt (h.lt_next k hk)
  case mem_iff =>
    intro k
    constructor
    · intro hk
      rcases hk with rfl | hk
      · exact ⟨key, Function.update_self key _ owner⟩
      · obtain ⟨i, hi⟩ := (h.mem_iff k).1 hk
        have hne : i ≠ key := by
          rintro rfl
          rw [hnone] at hi
          cases hi
        exact ⟨i, by rw [Function.update_of_ne hne, hi]⟩
    · rintro ⟨i, hi⟩
      by_cases hne : i = key
      · rw [hne, Function.update_self] at hi
        exact .inl (Option.some.inj hi).symm
      · rw [Function.update_of_ne hne] at hi
        exact .inr ((h.mem_iff k).2 ⟨i, hi⟩)
  case unique =>
    intro i j k hi hj
    -- the next number is no key's yet
    have hfresh : ∀ m, owner m ≠ some next := fun m hm => lt_irrefl _ (h.owner_lt hm)
    by_cases hik : i = key <;> by_cases hjk : j = key
    · rw [hik, hjk]
    · rw [hik, Function.update_self] at hi
      rw [Function.update_of_ne hjk, ← hi] at hj
      exact absurd hj (hfresh j)
    · rw [hjk, Function.update_self] at hj
      rw [Function.update_of_ne hik, ← hj] at hi
      exact absurd hi (hfresh i)
    · rw [Function.update_of_ne hik] at hi
      rw [Function.update_of_ne hjk] at hj
      exact h.unique i j k hi hj

/-- A key loses its entry, if it has one, and the entry is no longer live. -/
theorem take (h : Owned owner live next) (key : κ) :
    Owned (Function.update owner key none) {k | k ∈ live ∧ owner key ≠ some k} next := by
  constructor
  case lt_next => exact fun k hk => h.lt_next k hk.1
  case mem_iff =>
    intro k
    constructor
    · rintro ⟨hk, hkey⟩
      obtain ⟨i, hi⟩ := (h.mem_iff k).1 hk
      have hne : i ≠ key := by
        rintro rfl
        exact hkey hi
      exact ⟨i, by rw [Function.update_of_ne hne, hi]⟩
    · rintro ⟨i, hi⟩
      by_cases hne : i = key
      · rw [hne, Function.update_self] at hi
        cases hi
      · rw [Function.update_of_ne hne] at hi
        refine ⟨(h.mem_iff k).2 ⟨i, hi⟩, fun hkey => ?_⟩
        exact hne (h.unique i key k hi hkey)
  case unique =>
    intro i j k hi hj
    have hold : ∀ m, Function.update owner key none m = some k → owner m = some k := by
      intro m hm
      by_cases hmk : m = key
      · rw [hmk, Function.update_self] at hm
        cases hm
      · rw [Function.update_of_ne hmk] at hm
        exact hm
    exact h.unique i j k (hold i hi) (hold j hj)

end Owned
