import Mathlib

/-! # Checking a Grid at Samples

    The points `start, start + step, …` up to `stop` are too many to look at
    each one. A property that is decided between edges, and there holds of an
    interval, need only be looked at next to the edges and at both ends.

    This module collects:

    * **`samples`**: the points to look at.
    * **`exists_sample_le`, `exists_sample_ge`**: every point of the grid has
      samples on both sides with no edge in between.
    * **`forall_samples_iff`**: the samples stand for the grid. -/

namespace GridSamples

/-- The last point of the grid. -/
def last (start step stop : ℕ) : ℕ := start + (stop - start) / step * step

/-- The last point below an edge. -/
def before (start step edge : ℕ) : ℕ := start + (edge - 1 - start) / step * step

/-- The points next to an edge within the grid. -/
def around (start step stop edge : ℕ) : List ℕ :=
  if start < edge ∧ edge ≤ last start step stop then
    before start step edge ::
      if before start step edge + step ≤ last start step stop then [before start step edge + step]
      else []
  else []

def samples (start step stop : ℕ) (edges : List ℕ) : List ℕ :=
  start :: last start step stop :: edges.flatMap (around start step stop)

/-- No edge lies between two numbers. -/
def SameSide (edges : List ℕ) (f g : ℕ) : Prop := ∀ e ∈ edges, e ≤ f ↔ e ≤ g

variable {start step stop edge f : ℕ} {edges : List ℕ}

/-- A number at or below another one, with no edge up to it. -/
theorem sameSide_of_le {g : ℕ} (hle : f ≤ g) (h : ∀ e ∈ edges, e ≤ g → e ≤ f) :
    SameSide edges f g :=
  fun e he => ⟨fun hf => hf.trans hle, h e he⟩

/-- `f` is a point of the grid. -/
def OnGrid (start step stop f : ℕ) : Prop := f ≤ stop ∧ ∃ k, f = start + k * step

theorem OnGrid.start_le (h : OnGrid start step stop f) : start ≤ f := by
  obtain ⟨-, k, rfl⟩ := h
  exact Nat.le_add_right _ _

/-- Multiples of the step up to a bound. -/
theorem mul_le_floor {k n : ℕ} (hstep : 0 < step) (h : k * step ≤ n) :
    k * step ≤ n / step * step :=
  Nat.mul_le_mul_right _ ((Nat.le_div_iff_mul_le hstep).2 h)

theorem OnGrid.le_last (hstep : 0 < step) (h : OnGrid start step stop f) :
    f ≤ last start step stop := by
  obtain ⟨hstop, k, rfl⟩ := h
  exact Nat.add_le_add_left (mul_le_floor hstep (by omega)) start

theorem last_onGrid (step : ℕ) (hordered : start ≤ stop) : OnGrid start step stop (last start step stop) := by
  refine ⟨?_, _, rfl⟩
  have hfloor := Nat.div_mul_le_self (stop - start) step
  unfold last
  omega

/-- The point before an edge is the last one below it. -/
theorem before_lt (step : ℕ) (hedge : start < edge) : before start step edge < edge := by
  have hfloor := Nat.div_mul_le_self (edge - 1 - start) step
  unfold before
  omega

theorem OnGrid.le_before (hstep : 0 < step) (h : OnGrid start step stop f) (hlt : f < edge) :
    f ≤ before start step edge := by
  obtain ⟨-, k, rfl⟩ := h
  exact Nat.add_le_add_left (mul_le_floor hstep (by omega)) start

/-- The next point is at or above the edge, and no point in between is. -/
theorem le_before_add (hstep : 0 < step) (hedge : start < edge) :
    edge ≤ before start step edge + step := by
  have hceil := Nat.lt_div_mul_add (a := edge - 1 - start) hstep
  unfold before
  omega

theorem OnGrid.before_add_le (h : OnGrid start step stop f)
    (hedge : start < edge) (hle : edge ≤ f) : before start step edge + step ≤ f := by
  have hbefore := before_lt step hedge
  obtain ⟨-, k, rfl⟩ := h
  unfold before at *
  have hless : (edge - 1 - start) / step < k := by
    by_contra hover
    have hmul := Nat.mul_le_mul_right step (not_lt.1 hover)
    omega
  have hmul := Nat.mul_le_mul_right step (Nat.succ_le_of_lt hless)
  rw [Nat.succ_mul] at hmul
  omega

theorem mem_samples_before (hmem : edge ∈ edges) (hedge : start < edge)
    (hlast : edge ≤ last start step stop) :
    before start step edge ∈ samples start step stop edges := by
  refine List.mem_cons_of_mem _ (List.mem_cons_of_mem _ (List.mem_flatMap.2 ⟨edge, hmem, ?_⟩))
  unfold around
  rw [if_pos ⟨hedge, hlast⟩]
  exact List.mem_cons_self

theorem mem_samples_after (hmem : edge ∈ edges) (hedge : start < edge)
    (hlast : before start step edge + step ≤ last start step stop) (hstep : 0 < step) :
    before start step edge + step ∈ samples start step stop edges := by
  refine List.mem_cons_of_mem _ (List.mem_cons_of_mem _ (List.mem_flatMap.2 ⟨edge, hmem, ?_⟩))
  unfold around
  rw [if_pos ⟨hedge, (le_before_add hstep hedge).trans hlast⟩, if_pos hlast]
  exact List.mem_cons_of_mem _ List.mem_cons_self

/-- **A sample below**: the start, or the first point after the last edge. -/
theorem exists_sample_le (edges : List ℕ) (hstep : 0 < step) (h : OnGrid start step stop f) :
    ∃ l ∈ samples start step stop edges, l ≤ f ∧ SameSide edges l f := by
  by_cases hedges : ∃ e ∈ edges, start < e ∧ e ≤ f
  · -- the greatest edge up to `f`
    obtain ⟨e, he, hmax⟩ := Finset.exists_max_image (edges.toFinset.filter fun e => start < e ∧ e ≤ f)
      id (by
        obtain ⟨e, hmem, hbetween⟩ := hedges
        exact ⟨e, Finset.mem_filter.2 ⟨List.mem_toFinset.2 hmem, hbetween⟩⟩)
    obtain ⟨hmem, hstart, hle⟩ := Finset.mem_filter.1 he
    have hafter := h.before_add_le hstart hle
    refine ⟨before start step e + step, mem_samples_after (List.mem_toFinset.1 hmem) hstart
      (hafter.trans (h.le_last hstep)) hstep, hafter, sameSide_of_le hafter ?_⟩
    intro e' he' hbelow
    by_cases hstart' : start < e'
    · have hgreatest : e' ≤ e :=
        hmax e' (Finset.mem_filter.2 ⟨List.mem_toFinset.2 he', hstart', hbelow⟩)
      exact hgreatest.trans (le_before_add hstep hstart)
    · exact (not_lt.1 hstart').trans ((Nat.le_add_right _ _).trans (Nat.le_add_right _ _))
  · refine ⟨start, List.mem_cons_self, h.start_le, sameSide_of_le h.start_le ?_⟩
    intro e he hle
    by_contra hstart
    exact hedges ⟨e, he, not_le.1 hstart, hle⟩

/-- **A sample above**: the last point, or the one before the next edge. -/
theorem exists_sample_ge (edges : List ℕ) (hstep : 0 < step) (h : OnGrid start step stop f) :
    ∃ r ∈ samples start step stop edges, f ≤ r ∧ SameSide edges f r := by
  by_cases hedges : ∃ e ∈ edges, f < e ∧ e ≤ last start step stop
  · -- the least edge above `f`
    obtain ⟨e, he, hmin⟩ := Finset.exists_min_image
      (edges.toFinset.filter fun e => f < e ∧ e ≤ last start step stop) id (by
        obtain ⟨e, hmem, hbetween⟩ := hedges
        exact ⟨e, Finset.mem_filter.2 ⟨List.mem_toFinset.2 hmem, hbetween⟩⟩)
    obtain ⟨hmem, habove, hlast⟩ := Finset.mem_filter.1 he
    have hstart := h.start_le.trans_lt habove
    have hbefore := h.le_before hstep habove
    refine ⟨before start step e, mem_samples_before (List.mem_toFinset.1 hmem) hstart hlast,
      hbefore, sameSide_of_le hbefore ?_⟩
    intro e' he' hbelow
    by_contra hover
    have hlt := hbelow.trans_lt (before_lt step hstart)
    have hleast : e ≤ e' := hmin e' (Finset.mem_filter.2
      ⟨List.mem_toFinset.2 he', not_le.1 hover, hlt.le.trans hlast⟩)
    exact absurd hlt (not_lt.2 hleast)
  · refine ⟨_, List.mem_cons_of_mem _ List.mem_cons_self, h.le_last hstep,
      sameSide_of_le (h.le_last hstep) ?_⟩
    intro e he hle
    by_contra habove
    exact hedges ⟨e, he, not_le.1 habove, hle⟩

/-- Samples are points of the grid. -/
theorem onGrid_of_mem_samples (hordered : start ≤ stop)
    (h : f ∈ samples start step stop edges) : OnGrid start step stop f := by
  have hlast := (last_onGrid step hordered).1
  obtain rfl | h := List.mem_cons.1 h
  · exact ⟨hordered, 0, by rw [Nat.zero_mul, Nat.add_zero]⟩
  obtain rfl | h := List.mem_cons.1 h
  · exact last_onGrid step hordered
  obtain ⟨edge, -, haround⟩ := List.mem_flatMap.1 h
  unfold around at haround
  split at haround
  · next hbetween =>
    obtain rfl | hafter := List.mem_cons.1 haround
    · exact ⟨((before_lt step hbetween.1).le.trans hbetween.2).trans hlast, _, rfl⟩
    · split at hafter
      · next hfits =>
        obtain rfl := List.mem_singleton.1 hafter
        refine ⟨hfits.trans hlast, (edge - 1 - start) / step + 1, ?_⟩
        rw [Nat.succ_mul, ← Nat.add_assoc]
        rfl
      · cases hafter
  · cases haround

/-- **The samples stand for the grid**, for a property that between edges holds
    of an interval. -/
theorem forall_samples_iff {P : ℕ → Prop} (hstep : 0 < step) (hordered : start ≤ stop)
    (hinterval : ∀ l f r, l ≤ f → f ≤ r → SameSide edges l f → SameSide edges f r →
      P l → P r → P f) :
    (∀ f ∈ samples start step stop edges, P f) ↔ ∀ f, OnGrid start step stop f → P f := by
  constructor
  · intro hsamples f hf
    obtain ⟨l, hl, hlf, hleft⟩ := exists_sample_le edges hstep hf
    obtain ⟨r, hr, hfr, hright⟩ := exists_sample_ge edges hstep hf
    exact hinterval l f r hlf hfr hleft hright (hsamples l hl) (hsamples r hr)
  · intro hgrid f hf
    exact hgrid f (onGrid_of_mem_samples hordered hf)

end GridSamples
