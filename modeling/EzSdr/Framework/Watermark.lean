import Mathlib.Data.List.Sort
import Mathlib.Data.Nat.Basic

/-! # Merging by Position

    Several sources observe the same events, each at a position. A merger
    takes a candidate when it is good and lies past the last one taken, by
    more than a tolerance; the position it took last is its mark.

    When the candidates come in order and the tolerance is zero, the merger
    takes every position at which there is a good candidate, and each once. -/

namespace Watermark

variable {α : Type*} (position : α → ℕ) (good : α → Bool) (tolerance : ℕ)

/-- A position past the mark. -/
def Past (mark : Option ℕ) (p : ℕ) : Prop := ∀ m ∈ mark, m + tolerance < p

instance (mark : Option ℕ) (p : ℕ) : Decidable (Past tolerance mark p) :=
  inferInstanceAs (Decidable (∀ m ∈ mark, m + tolerance < p))

/-- The candidates taken, in order. -/
def sift (mark : Option ℕ) : List α → List α
  | [] => []
  | c :: cs =>
    if Past tolerance mark (position c) ∧ good c = true then c :: sift (some (position c)) cs
    else sift mark cs

/-- The mark after some candidates have been taken. -/
def markAfter (mark : Option ℕ) (taken : List α) : Option ℕ :=
  (taken.getLast?.map position).or mark

variable {position good tolerance} {mark : Option ℕ} {c : α} {cs : List α}

theorem sift_take (hpast : Past tolerance mark (position c)) (hgood : good c = true) :
    sift position good tolerance mark (c :: cs) =
      c :: sift position good tolerance (some (position c)) cs :=
  if_pos ⟨hpast, hgood⟩

theorem sift_pass (h : ¬ (Past tolerance mark (position c) ∧ good c = true)) :
    sift position good tolerance mark (c :: cs) = sift position good tolerance mark cs :=
  if_neg h

theorem markAfter_nil : markAfter position mark [] = mark := by
  simp [markAfter]

theorem markAfter_cons (taken : List α) :
    markAfter position mark (c :: taken) = markAfter position (some (position c)) taken := by
  unfold markAfter
  cases taken with
  | nil => rfl
  | cons d taken => rw [List.getLast?_cons_cons]; simp [List.getLast?_cons]

theorem mem_sift (h : c ∈ sift position good tolerance mark cs) : c ∈ cs ∧ good c = true := by
  induction cs generalizing mark with
  | nil => cases h
  | cons d cs ih =>
    by_cases hd : Past tolerance mark (position d) ∧ good d = true
    · rw [sift_take hd.1 hd.2, List.mem_cons] at h
      rcases h with rfl | htail
      · exact ⟨List.mem_cons_self, hd.2⟩
      · exact ⟨List.mem_cons_of_mem _ (ih htail).1, (ih htail).2⟩
    · rw [sift_pass hd] at h
      exact ⟨List.mem_cons_of_mem _ (ih h).1, (ih h).2⟩

/-- Nothing is taken twice: positions grow by more than the tolerance. -/
theorem sift_increasing :
    (∀ a ∈ sift position good tolerance mark cs, Past tolerance mark (position a)) ∧
      (sift position good tolerance mark cs).Pairwise
        fun a b => position a + tolerance < position b := by
  induction cs generalizing mark with
  | nil => exact ⟨nofun, .nil⟩
  | cons c cs ih =>
    by_cases h : Past tolerance mark (position c) ∧ good c = true
    · rw [sift_take h.1 h.2]
      obtain ⟨hpast, hpairwise⟩ := @ih (some (position c))
      -- what comes later is past the new mark, hence past the old one
      have hlater : ∀ a ∈ sift position good tolerance (some (position c)) cs,
          position c + tolerance < position a := fun a ha => hpast a ha _ rfl
      refine ⟨fun a ha => ?_, List.pairwise_cons.2 ⟨hlater, hpairwise⟩⟩
      rcases List.mem_cons.1 ha with rfl | htail
      · exact h.1
      · intro m hm
        have hfirst := h.1 m hm
        have hnext := hlater a htail
        omega
    · rw [sift_pass h]
      exact ih

/-- A good candidate that is not taken lies past neither the mark nor all that are taken. -/
theorem sift_near (hmem : c ∈ cs) (hgood : good c = true) :
    (∃ m ∈ mark, position c ≤ m + tolerance) ∨
      ∃ a ∈ sift position good tolerance mark cs, position c ≤ position a + tolerance := by
  induction cs generalizing mark with
  | nil => cases hmem
  | cons d cs ih =>
    by_cases hd : Past tolerance mark (position d) ∧ good d = true
    · rw [sift_take hd.1 hd.2]
      rcases List.mem_cons.1 hmem with rfl | htail
      · exact .inr ⟨_, List.mem_cons_self, Nat.le_add_right _ _⟩
      -- the mark of the rest is the candidate just taken
      · rcases @ih (some (position d)) htail with ⟨m, hm, hle⟩ | ⟨a, ha, hle⟩
        · obtain rfl := Option.some.inj hm
          exact .inr ⟨d, List.mem_cons_self, hle⟩
        · exact .inr ⟨a, List.mem_cons_of_mem _ ha, hle⟩
    · rw [sift_pass hd]
      rcases List.mem_cons.1 hmem with rfl | htail
      · left
        by_contra hfar
        exact hd ⟨fun m hm => Nat.lt_of_not_le fun hle => hfar ⟨m, hm, hle⟩, hgood⟩
      · exact ih htail

/-- Nothing is lost: with the candidates in order and no tolerance, each position past the mark
    with a good candidate is taken. -/
theorem sift_complete (hsorted : cs.Pairwise fun a b => position a ≤ position b) (hmem : c ∈ cs)
    (hgood : good c = true) (hpast : Past 0 mark (position c)) :
    ∃ a ∈ sift position good 0 mark cs, position a = position c := by
  induction cs generalizing mark with
  | nil => cases hmem
  | cons d cs ih =>
    obtain ⟨hfirst, hrest⟩ := List.pairwise_cons.1 hsorted
    by_cases hd : Past 0 mark (position d) ∧ good d = true
    · rw [sift_take hd.1 hd.2]
      rcases List.mem_cons.1 hmem with rfl | htail
      · exact ⟨_, List.mem_cons_self, rfl⟩
      -- at the same position the one just taken stands for `c`
      rcases Nat.lt_or_eq_of_le (hfirst c htail) with hlt | heq
      · obtain ⟨a, ha, hposition⟩ := @ih (some (position d)) hrest htail (by
          intro m hm
          obtain rfl := Option.some.inj hm
          exact hlt)
        exact ⟨a, List.mem_cons_of_mem _ ha, hposition⟩
      · exact ⟨d, List.mem_cons_self, heq⟩
    · rw [sift_pass hd]
      rcases List.mem_cons.1 hmem with rfl | htail
      · exact absurd ⟨hpast, hgood⟩ hd
      · exact ih hrest htail hpast

theorem markAfter_append (taken fresh : List α) :
    markAfter position mark (taken ++ fresh) =
      markAfter position (markAfter position mark taken) fresh := by
  induction taken generalizing mark with
  | nil => rw [List.nil_append, markAfter_nil]
  | cons a taken ih => rw [List.cons_append, markAfter_cons, markAfter_cons, ih]

/-- Everything taken in order lies at the mark or before it. -/
theorem le_markAfter {taken : List α} (h : taken.Pairwise fun a b => position a ≤ position b)
    (hmem : c ∈ taken) : ∃ m ∈ markAfter position mark taken, position c ≤ m := by
  have hne : taken ≠ [] := List.ne_nil_of_mem hmem
  refine ⟨position (taken.getLast hne), ?_, ?_⟩
  · unfold markAfter
    rw [List.getLast?_eq_some_getLast hne]
    rfl
  · rw [← List.dropLast_append_getLast hne] at hmem h
    rcases List.mem_append.1 hmem with hearlier | hlast
    · exact (List.pairwise_append.1 h).2.2 c hearlier _ (List.mem_singleton_self _)
    · rw [List.mem_singleton.1 hlast]

/-- The mark is the position taken last. -/
theorem mem_markAfter {taken : List α} {m : ℕ} (h : m ∈ markAfter position mark taken) :
    m ∈ mark ∨ ∃ a ∈ taken, position a = m := by
  unfold markAfter at h
  match hlast : taken.getLast? with
  | none =>
    rw [hlast] at h
    exact .inl h
  | some a =>
    rw [hlast] at h
    exact .inr ⟨a, List.mem_of_getLast? hlast, Option.some.inj h⟩

end Watermark
