import Mathlib

/-! # The Key Equation of a Reed-Solomon Code

    The syndromes of an error are power sums: every error has a place `x i` and
    a weight `c i`, and syndrome `k` is the sum of the `c i * x i ^ k`. The
    locator has the inverse places as its roots, and its product with the
    syndromes is a polynomial of small degree, the evaluator, up to a high power
    of `X`. Massey's register finds the locator from the syndromes, one syndrome
    a step.

    * **`Solves`**: a solution of the key equation, and `solves_locator`.
    * **`Register`**: Massey's algorithm, and `witnessed_run`, its invariant.
    * **`run_lambda`**: the register ends with the locator whenever there are twice
      as many syndromes as errors.
    * **`eval_evaluator`**: the weights from the evaluator and the derivative of the
      locator. -/

namespace KeyEquation

open Polynomial

variable {F : Type*} [Field F]

/-! ## Section 1: Degrees -/

theorem degreeLT_mul {p q : F[X]} {i j : ℕ} (hp : p ∈ degreeLT F (i + 1))
    (hq : q ∈ degreeLT F j) : p * q ∈ degreeLT F (i + j) := by
  rw [mem_degreeLT, degree_lt_iff_coeff_zero] at *
  intro k hk
  rw [coeff_mul]
  apply Finset.sum_eq_zero
  rintro ⟨a, b⟩ hab
  have hsum : a + b = k := Finset.HasAntidiagonal.mem_antidiagonal.1 hab
  rcases Nat.lt_or_ge a (i + 1) with ha | ha
  · rw [hq b (by omega), mul_zero]
  · rw [hp a ha, zero_mul]

theorem degreeLT_C_mul {p : F[X]} {n : ℕ} (hp : p ∈ degreeLT F n) (a : F) :
    C a * p ∈ degreeLT F n := by
  rw [← smul_eq_C_mul]
  exact Submodule.smul_mem _ a hp

theorem degreeLT_X_mul {p : F[X]} {n : ℕ} (hp : p ∈ degreeLT F n) :
    X * p ∈ degreeLT F (n + 1) := by
  rw [add_comm]
  apply degreeLT_mul _ hp
  rw [mem_degreeLT]
  exact degree_X_le.trans_lt (by norm_num)

theorem eq_zero_of_dvd {p : F[X]} {n : ℕ} (hdvd : X ^ n ∣ p) (hp : p ∈ degreeLT F n) : p = 0 := by
  rw [X_pow_dvd_iff] at hdvd
  rw [mem_degreeLT, degree_lt_iff_coeff_zero] at hp
  ext k
  rcases Nat.lt_or_ge k n with hk | hk
  · rw [hdvd k hk, coeff_zero]
  · rw [hp k hk, coeff_zero]

theorem eval_eq_sum_of_lt {p : F[X]} {n : ℕ} (hp : p ∈ degreeLT F n) (x : F) :
    eval x p = ∑ i ∈ Finset.range n, p.coeff i * x ^ i := by
  by_cases hzero : p = 0
  · simp [hzero]
  · rw [mem_degreeLT] at hp
    exact eval_eq_sum_range' ((natDegree_lt_iff_degree_lt hzero).2 hp) x

/-! ## Section 2: Massey's register -/

/-- A solution of the key equation for `n` syndromes, with room for `t` errors. -/
structure Solves (S : F[X]) (n t : ℕ) (locator evaluator : F[X]) : Prop where
  one          : locator.coeff 0 = 1
  locator_lt   : locator ∈ degreeLT F (t + 1)
  evaluator_lt : evaluator ∈ degreeLT F t
  key          : X ^ n ∣ locator * S - evaluator

/-- The register: a solution for the syndromes so far, the polynomial that corrects it, and the
    length. -/
structure Register (F : Type*) [Field F] where
  lambda : F[X]
  b      : F[X]
  el     : ℕ

namespace Register

/-- The syndrome `m` that the register does not predict. -/
noncomputable def discrepancy (S : F[X]) (m : ℕ) (r : Register F) : F := (r.lambda * S).coeff m

/-- One more syndrome. -/
noncomputable def step (S : F[X]) (r : Register F) (m : ℕ) : Register F :=
  haveI := Classical.dec
  let d := r.discrepancy S m
  if d = 0 then { r with b := X * r.b }
  else if 2 * r.el ≤ m then ⟨r.lambda - C d * r.b, X * (C d⁻¹ * r.lambda), m + 1 - r.el⟩
  else ⟨r.lambda - C d * r.b, X * r.b, r.el⟩

/-- The register after `m` syndromes. -/
noncomputable def run (S : F[X]) (m : ℕ) : Register F :=
  (List.range m).foldl (step S) ⟨1, X, 0⟩

theorem run_succ (S : F[X]) (m : ℕ) : run S (m + 1) = (run S m).step S m := by
  unfold run
  rw [List.range_succ, List.foldl_concat]

/-- What holds of the register after `m` syndromes: with evaluators `p` for the locator and `q`
    for the corrections, the two equations and their determinant. -/
structure Witnessed (S : F[X]) (m : ℕ) (r : Register F) (p q : F[X]) : Prop where
  room   : r.el ≤ m
  solves : Solves S m r.el r.lambda p
  shift  : X ∣ r.b
  b_lt   : r.b ∈ degreeLT F (m + 2 - r.el)
  q_lt   : q ∈ degreeLT F (m + 1 - r.el)
  other  : X ^ (m + 1) ∣ r.b * S - q - X ^ m
  det    : p * r.b - r.lambda * q = X ^ m

theorem witnessed_zero (S : F[X]) : Witnessed S 0 ⟨1, X, 0⟩ 0 (-1) where
  room := le_rfl
  solves := {
    one := coeff_one_zero
    locator_lt := by
      rw [mem_degreeLT]
      exact degree_one_le.trans_lt (by norm_num)
    evaluator_lt := Submodule.zero_mem _
    key := by simp }
  shift := dvd_rfl
  b_lt := by
    rw [mem_degreeLT]
    exact degree_X_le.trans_lt (by norm_num)
  q_lt := by
    apply Submodule.neg_mem
    rw [mem_degreeLT]
    exact degree_one_le.trans_lt (by norm_num)
  other := by simp
  det := by simp

variable {S : F[X]} {m : ℕ} {r : Register F} {p q : F[X]}

/-- The discrepancy is the first coefficient of what is left of the key equation. -/
theorem Witnessed.coeff (h : Witnessed S m r p q) :
    (r.lambda * S - p).coeff m = r.discrepancy S m := by
  have hp : p.coeff m = 0 := by
    have hdegree := h.solves.evaluator_lt
    rw [mem_degreeLT, degree_lt_iff_coeff_zero] at hdegree
    exact hdegree m h.room
  rw [coeff_sub, hp, sub_zero]
  rfl

/-- With its first coefficient gone, what is left of the key equation is one power higher. -/
theorem Witnessed.key_succ (h : Witnessed S m r p q) :
    X ^ (m + 1) ∣ (r.lambda * S - p) - C (r.discrepancy S m) * X ^ m := by
  rw [X_pow_dvd_iff]
  intro k hk
  rw [coeff_sub, coeff_C_mul_X_pow]
  rcases Nat.lt_succ_iff_lt_or_eq.1 hk with hlt | rfl
  · rw [X_pow_dvd_iff.1 h.solves.key k hlt, if_neg hlt.ne, sub_zero]
  · rw [h.coeff, if_pos rfl, sub_self]

/-- The corrected locator solves the equation for one syndrome more. -/
theorem Witnessed.corrected (h : Witnessed S m r p q) :
    X ^ (m + 1) ∣ (r.lambda - C (r.discrepancy S m) * r.b) * S -
      (p - C (r.discrepancy S m) * q) := by
  have hsplit : (r.lambda - C (r.discrepancy S m) * r.b) * S - (p - C (r.discrepancy S m) * q) =
      ((r.lambda * S - p) - C (r.discrepancy S m) * X ^ m) -
        C (r.discrepancy S m) * (r.b * S - q - X ^ m) := by
    ring
  rw [hsplit]
  exact dvd_sub h.key_succ (h.other.mul_left _)

theorem Witnessed.one_corrected (h : Witnessed S m r p q) (d : F) :
    (r.lambda - C d * r.b).coeff 0 = 1 := by
  have hzero : r.b.coeff 0 = 0 := X_dvd_iff.1 h.shift
  rw [coeff_sub, coeff_C_mul, hzero, mul_zero, sub_zero, h.solves.one]

/-- One step keeps the two equations and their determinant. -/
theorem Witnessed.step (h : Witnessed S m r p q) :
    ∃ p' q', Witnessed S (m + 1) (r.step S m) p' q' := by
  have hroom := h.room
  have hkey := h.corrected
  unfold Register.step
  dsimp only
  set d := r.discrepancy S m
  split_ifs with hzero hlong
  · -- the register predicts the syndrome
    rw [hzero] at hkey
    refine ⟨p, X * q, ?_⟩
    constructor
    case room => exact hroom.trans (Nat.le_succ m)
    case solves =>
      refine ⟨h.solves.one, h.solves.locator_lt, h.solves.evaluator_lt, ?_⟩
      simpa using hkey
    case shift => exact dvd_mul_right X r.b
    case b_lt =>
      rw [show m + 1 + 2 - r.el = m + 2 - r.el + 1 by omega]
      exact degreeLT_X_mul h.b_lt
    case q_lt =>
      rw [show m + 1 + 1 - r.el = m + 1 - r.el + 1 by omega]
      exact degreeLT_X_mul h.q_lt
    case other =>
      rw [show X * r.b * S - X * q - X ^ (m + 1) = X * (r.b * S - q - X ^ m) by ring, pow_succ']
      exact mul_dvd_mul_left X h.other
    case det => linear_combination X * h.det
  · -- the register becomes longer, and its old locator corrects from here on
    refine ⟨p - C d * q, X * (C d⁻¹ * p), ?_⟩
    have hinv : C d⁻¹ * C d = (1 : F[X]) := by
      rw [← C_mul, inv_mul_cancel₀ hzero, C_1]
    constructor
    case room =>
      show m + 1 - r.el ≤ m + 1
      omega
    case solves =>
      refine ⟨h.one_corrected d, ?_, ?_, hkey⟩
      · show r.lambda - C d * r.b ∈ degreeLT F (m + 1 - r.el + 1)
        apply Submodule.sub_mem
        · exact degreeLT_mono (by omega) h.solves.locator_lt
        · exact degreeLT_C_mul (degreeLT_mono (by omega) h.b_lt) d
      · show p - C d * q ∈ degreeLT F (m + 1 - r.el)
        apply Submodule.sub_mem
        · exact degreeLT_mono (by omega) h.solves.evaluator_lt
        · exact degreeLT_C_mul h.q_lt d
    case shift => exact dvd_mul_right X _
    case b_lt =>
      show X * (C d⁻¹ * r.lambda) ∈ degreeLT F (m + 1 + 2 - (m + 1 - r.el))
      rw [show m + 1 + 2 - (m + 1 - r.el) = r.el + 1 + 1 by omega]
      exact degreeLT_X_mul (degreeLT_C_mul h.solves.locator_lt d⁻¹)
    case q_lt =>
      show X * (C d⁻¹ * p) ∈ degreeLT F (m + 1 + 1 - (m + 1 - r.el))
      rw [show m + 1 + 1 - (m + 1 - r.el) = r.el + 1 by omega]
      exact degreeLT_X_mul (degreeLT_C_mul h.solves.evaluator_lt d⁻¹)
    case other =>
      have hfirst := mul_dvd_mul_left (X * C d⁻¹) h.key_succ
      have hpower : X * C d⁻¹ * X ^ (m + 1) = C d⁻¹ * X ^ (m + 1 + 1) := by ring
      rw [hpower] at hfirst
      refine (dvd_mul_left _ _).trans (hfirst.trans (dvd_of_eq ?_))
      show X * C d⁻¹ * ((r.lambda * S - p) - C d * X ^ m) =
        X * (C d⁻¹ * r.lambda) * S - X * (C d⁻¹ * p) - X ^ (m + 1)
      linear_combination -X ^ (m + 1) * hinv
    case det =>
      show (p - C d * q) * (X * (C d⁻¹ * r.lambda)) -
        (r.lambda - C d * r.b) * (X * (C d⁻¹ * p)) = X ^ (m + 1)
      linear_combination X * C d⁻¹ * C d * h.det + X ^ (m + 1) * hinv
  · -- the register is long enough
    refine ⟨p - C d * q, X * q, ?_⟩
    constructor
    case room => exact hroom.trans (Nat.le_succ m)
    case solves =>
      refine ⟨h.one_corrected d, ?_, ?_, hkey⟩
      · show r.lambda - C d * r.b ∈ degreeLT F (r.el + 1)
        apply Submodule.sub_mem
        · exact h.solves.locator_lt
        · exact degreeLT_C_mul (degreeLT_mono (by omega) h.b_lt) d
      · show p - C d * q ∈ degreeLT F r.el
        apply Submodule.sub_mem
        · exact h.solves.evaluator_lt
        · exact degreeLT_C_mul (degreeLT_mono (by omega) h.q_lt) d
    case shift => exact dvd_mul_right X r.b
    case b_lt =>
      show X * r.b ∈ degreeLT F (m + 1 + 2 - r.el)
      rw [show m + 1 + 2 - r.el = m + 2 - r.el + 1 by omega]
      exact degreeLT_X_mul h.b_lt
    case q_lt =>
      show X * q ∈ degreeLT F (m + 1 + 1 - r.el)
      rw [show m + 1 + 1 - r.el = m + 1 - r.el + 1 by omega]
      exact degreeLT_X_mul h.q_lt
    case other =>
      show X ^ (m + 1 + 1) ∣ X * r.b * S - X * q - X ^ (m + 1)
      rw [show X * r.b * S - X * q - X ^ (m + 1) = X * (r.b * S - q - X ^ m) by ring, pow_succ']
      exact mul_dvd_mul_left X h.other
    case det =>
      show (p - C d * q) * (X * r.b) - (r.lambda - C d * r.b) * (X * q) = X ^ (m + 1)
      linear_combination X * h.det

theorem witnessed_run (S : F[X]) (m : ℕ) : ∃ p q, Witnessed S m (run S m) p q := by
  induction m with
  | zero => exact ⟨0, -1, witnessed_zero S⟩
  | succ m ih =>
    obtain ⟨p, q, h⟩ := ih
    rw [run_succ]
    exact h.step

end Register

/-! ## Section 3: Uniqueness -/

/-- The key equation leaves no choice: a reduced solution for at most half as many errors as there
    are syndromes is the locator of the register. -/
theorem Register.Witnessed.unique {S : F[X]} {n t : ℕ} {r : Register F} {p q l e : F[X]}
    (h : r.Witnessed S n p q) (hsolves : Solves S n t l e) (hcoprime : IsCoprime l e)
    (hhalf : 2 * t ≤ n) : r.lambda = l := by
  -- both solutions are evaluators of one series, so their cross product has a high power of `X`
  have hcross : X ^ n ∣ p * l - r.lambda * e := by
    have hsplit : p * l - r.lambda * e =
        r.lambda * (l * S - e) - l * (r.lambda * S - p) := by
      ring
    rw [hsplit]
    exact dvd_sub (hsolves.key.mul_left _) (h.solves.key.mul_left _)
  have hother : X ^ n ∣ e * r.b - l * q := by
    have hsplit : e * r.b - l * q =
        l * (r.b * S - q - X ^ n) + l * X ^ n - r.b * (l * S - e) := by
      ring
    have hfirst : X ^ n ∣ r.b * S - q - X ^ n := (pow_dvd_pow X (Nat.le_succ n)).trans h.other
    rw [hsplit]
    exact dvd_sub (dvd_add (hfirst.mul_left _) (dvd_mul_left _ _)) (hsolves.key.mul_left _)
  have hroom := h.room
  rcases Nat.lt_or_ge n (r.el + t) with hlong | hshort
  · -- a long register: the solution is a multiple of the corrections, which have no constant term
    have hzero : e * r.b - l * q = 0 := by
      apply eq_zero_of_dvd hother
      apply Submodule.sub_mem
      · rw [mul_comm]
        have hb : r.b ∈ degreeLT F (n + 1 - r.el + 1) := degreeLT_mono (by omega) h.b_lt
        exact degreeLT_mono (by omega) (degreeLT_mul hb hsolves.evaluator_lt)
      · exact degreeLT_mono (by omega) (degreeLT_mul hsolves.locator_lt h.q_lt)
    have hpower : X ^ n * l = (p * l - r.lambda * e) * r.b := by
      linear_combination -l * h.det + r.lambda * hzero
    obtain ⟨c, hc⟩ := hcross
    obtain ⟨b, hb⟩ := h.shift
    have hl : l = X * (c * b) := by
      apply mul_left_cancel₀ (pow_ne_zero n (X_ne_zero (R := F)))
      rw [hpower, hc, hb]
      ring
    have hone := hsolves.one
    rw [hl, coeff_X_mul_zero] at hone
    exact absurd hone zero_ne_one
  · -- a short register: the solution is a multiple of the one the register has
    have hzero : p * l - r.lambda * e = 0 := by
      apply eq_zero_of_dvd hcross
      apply Submodule.sub_mem
      · rw [mul_comm]
        exact degreeLT_mono (by omega) (degreeLT_mul hsolves.locator_lt h.solves.evaluator_lt)
      · exact degreeLT_mono (by omega) (degreeLT_mul h.solves.locator_lt hsolves.evaluator_lt)
    obtain ⟨c, hc⟩ := hother
    have hl : l = c * r.lambda := by
      apply mul_left_cancel₀ (pow_ne_zero n (X_ne_zero (R := F)))
      linear_combination -l * h.det + r.b * hzero + r.lambda * hc
    have he : e = c * p := by
      apply mul_left_cancel₀ (pow_ne_zero n (X_ne_zero (R := F)))
      linear_combination -e * h.det + q * hzero + p * hc
    have hunit : IsUnit c := hcoprime.isUnit_of_dvd' ⟨_, hl⟩ ⟨_, he⟩
    obtain ⟨u, -, rfl⟩ := isUnit_iff.1 hunit
    have hone := hsolves.one
    rw [hl, coeff_C_mul, h.solves.one, mul_one] at hone
    rw [hl, hone, C_1, one_mul]

/-! ## Section 4: Errors -/

variable {ι : Type*} (s : Finset ι) (x c : ι → F)

/-- The syndromes of the errors in `s`. -/
noncomputable def powerSums (n : ℕ) : F[X] :=
  ∑ k ∈ Finset.range n, C (∑ i ∈ s, c i * x i ^ k) * X ^ k

noncomputable def locator : F[X] := ∏ i ∈ s, (1 - C (x i) * X)

theorem coeff_locator_zero : (locator s x).coeff 0 = 1 := by
  rw [coeff_zero_eq_eval_zero, locator, eval_prod]
  simp

theorem eval_locator (z : F) : eval z (locator s x) = ∏ i ∈ s, (1 - x i * z) := by
  rw [locator, eval_prod]
  simp

theorem natDegree_locator (hx0 : ∀ i ∈ s, x i ≠ 0) : (locator s x).natDegree = s.card := by
  have hfactor : ∀ i ∈ s, (1 - C (x i) * X).natDegree = 1 := by
    intro i hi
    rw [show 1 - C (x i) * X = C (-x i) * X + C 1 by simp; ring]
    exact natDegree_linear (neg_ne_zero.2 (hx0 i hi))
  have hne : ∀ i ∈ s, 1 - C (x i) * X ≠ 0 := by
    intro i hi hzero
    have hdegree := hfactor i hi
    rw [hzero, natDegree_zero] at hdegree
    exact zero_ne_one hdegree
  rw [locator, natDegree_prod _ _ hne, Finset.sum_congr rfl hfactor, Finset.sum_const, smul_eq_mul,
    mul_one]

/-- The inverse places are the roots of the locator. -/
theorem eval_locator_eq_zero {z : F} : eval z (locator s x) = 0 ↔ ∃ i ∈ s, x i * z = 1 := by
  rw [eval_locator, Finset.prod_eq_zero_iff]
  simp only [sub_eq_zero, @eq_comm F 1]

/-- The power sums are the sum of one geometric series for each error. -/
theorem powerSums_eq (n : ℕ) :
    powerSums s x c n = ∑ i ∈ s, C (c i) * ∑ k ∈ Finset.range n, (C (x i) * X) ^ k := by
  unfold powerSums
  simp only [Finset.mul_sum, map_sum, Finset.sum_mul]
  rw [Finset.sum_comm]
  refine Finset.sum_congr rfl fun i _ => Finset.sum_congr rfl fun k _ => ?_
  rw [C_mul, C_pow, mul_pow, mul_assoc]

theorem coeff_powerSums {n k : ℕ} (hk : k < n) :
    (powerSums s x c n).coeff k = ∑ i ∈ s, c i * x i ^ k := by
  unfold powerSums
  rw [finsetSum_coeff]
  simp only [coeff_C_mul_X_pow]
  rw [Finset.sum_ite_eq (Finset.range n) k, if_pos (Finset.mem_range.2 hk)]

variable [DecidableEq ι]

noncomputable def evaluator : F[X] := ∑ i ∈ s, C (c i) * locator (s.erase i) x

variable {s x c}

theorem locator_mul_erase {i : ι} (hi : i ∈ s) :
    (1 - C (x i) * X) * locator (s.erase i) x = locator s x :=
  Finset.mul_prod_erase s (fun i => 1 - C (x i) * X) hi

variable (s x c)

theorem locator_lt : locator s x ∈ degreeLT F (s.card + 1) := by
  have hone : (1 : F[X]) ∈ degreeLT F 1 := by
    rw [mem_degreeLT]
    exact degree_one_le.trans_lt (by norm_num)
  induction s using Finset.induction_on with
  | empty =>
    unfold locator
    rw [Finset.prod_empty]
    exact hone
  | insert i s hi ih =>
    have hfactor : 1 - C (x i) * X ∈ degreeLT F (1 + 1) := by
      apply Submodule.sub_mem
      · exact degreeLT_mono (Nat.le_succ 1) hone
      · rw [mul_comm]
        exact degreeLT_X_mul (mul_one (C (x i)) ▸ degreeLT_C_mul hone (x i))
    unfold locator at ih ⊢
    rw [Finset.prod_insert hi, Finset.card_insert_of_notMem hi, add_comm (s.card + 1)]
    exact degreeLT_mul hfactor ih

theorem evaluator_lt : evaluator s x c ∈ degreeLT F s.card := by
  apply Submodule.sum_mem
  intro i hi
  apply degreeLT_C_mul
  rw [← Finset.card_erase_add_one hi]
  exact locator_lt _ x

/-- **The key equation** holds of the locator and the evaluator. -/
theorem solves_locator (n : ℕ) :
    Solves (powerSums s x c n) n s.card (locator s x) (evaluator s x c) where
  one := coeff_locator_zero s x
  locator_lt := locator_lt s x
  evaluator_lt := evaluator_lt s x c
  key := by
    rw [powerSums_eq, evaluator, Finset.mul_sum, ← Finset.sum_sub_distrib]
    apply Finset.dvd_sum
    intro i hi
    have hterm : locator s x * (C (c i) * ∑ k ∈ Finset.range n, (C (x i) * X) ^ k) -
        C (c i) * locator (s.erase i) x =
        X ^ n * -(C (c i) * locator (s.erase i) x * C (x i) ^ n) := by
      have hseries := mul_neg_geom_sum (C (x i) * X) n
      rw [← locator_mul_erase hi]
      rw [mul_pow] at hseries
      linear_combination C (c i) * locator (s.erase i) x * hseries
    rw [hterm]
    exact dvd_mul_right _ _

variable {s x c}

/-- At an inverse place all terms of the evaluator vanish but one. -/
theorem eval_evaluator {i : ι} (hi : i ∈ s) {z : F} (hz : x i * z = 1) :
    eval z (evaluator s x c) = c i * eval z (locator (s.erase i) x) := by
  rw [evaluator, eval_finsetSum, Finset.sum_eq_single_of_mem i hi]
  · simp
  · intro j hj hji
    have hmem : i ∈ s.erase j := Finset.mem_erase.2 ⟨hji.symm, hi⟩
    rw [eval_mul, (eval_locator_eq_zero _ x).2 ⟨i, hmem, hz⟩, mul_zero]

/-- So do all terms of the derivative of the locator. -/
theorem eval_derivative_locator {i : ι} (hi : i ∈ s) {z : F} (hz : x i * z = 1) :
    eval z (derivative (locator s x)) = -(x i * eval z (locator (s.erase i) x)) := by
  rw [← locator_mul_erase hi, derivative_mul]
  simp [hz]

/-- Distinct places: the other places have other inverses. -/
theorem eval_erase_ne_zero (hx : Set.InjOn x s) {i : ι} (hi : i ∈ s) {z : F} (hz : x i * z = 1) :
    eval z (locator (s.erase i) x) ≠ 0 := by
  rw [ne_eq, eval_locator_eq_zero]
  rintro ⟨j, hj, hjz⟩
  obtain ⟨hji, hjs⟩ := Finset.mem_erase.1 hj
  have hz0 : z ≠ 0 := right_ne_zero_of_mul_eq_one hz
  exact hji (hx hjs hi (mul_right_cancel₀ hz0 (hjz.trans hz.symm)))

/-- Errors are seen: their syndromes do not all vanish. -/
theorem exists_ne_zero (hx : Set.InjOn x s) (hx0 : ∀ i ∈ s, x i ≠ 0) (hc : ∀ i ∈ s, c i ≠ 0)
    (hs : s.Nonempty) {n : ℕ} (hn : s.card ≤ n) : ∃ k < n, ∑ i ∈ s, c i * x i ^ k ≠ 0 := by
  by_contra! hall
  have hzero : powerSums s x c n = 0 := by
    apply Finset.sum_eq_zero
    intro k hk
    rw [hall k (Finset.mem_range.1 hk), C_0, zero_mul]
  obtain ⟨i, hi⟩ := hs
  have hkey := (solves_locator s x c n).key
  rw [hzero, mul_zero, zero_sub, dvd_neg] at hkey
  have he : evaluator s x c = 0 :=
    eq_zero_of_dvd hkey (degreeLT_mono hn (evaluator_lt s x c))
  have hz : x i * (x i)⁻¹ = 1 := mul_inv_cancel₀ (hx0 i hi)
  have hvalue := eval_evaluator hi hz (c := c)
  rw [he, eval_zero] at hvalue
  exact mul_ne_zero (hc i hi) (eval_erase_ne_zero hx hi hz) hvalue.symm

theorem isCoprime_locator (hx : Set.InjOn x s) (hx0 : ∀ i ∈ s, x i ≠ 0)
    (hc : ∀ i ∈ s, c i ≠ 0) : IsCoprime (locator s x) (evaluator s x c) := by
  apply IsCoprime.prod_left
  intro i hi
  have hz : x i * (x i)⁻¹ = 1 := mul_inv_cancel₀ (hx0 i hi)
  have hfactor : 1 - C (x i) * X = C (-x i) * (X - C (x i)⁻¹) := by
    rw [mul_sub, ← C_mul, neg_mul, hz]
    simp
    ring
  have hunit : IsUnit (C (-x i)) := isUnit_C.2 (neg_ne_zero.2 (hx0 i hi)).isUnit
  rw [hfactor, isCoprime_mul_unit_left_left hunit,
    (irreducible_X_sub_C (x i)⁻¹).coprime_iff_not_dvd, dvd_iff_isRoot, IsRoot.def,
    eval_evaluator hi hz]
  exact mul_ne_zero (hc i hi) (eval_erase_ne_zero hx hi hz)

/-- **Massey's algorithm finds the locator** of any errors at distinct places, of which there are
    at most half as many as syndromes. -/
theorem run_lambda {n : ℕ} (hx : Set.InjOn x s) (hx0 : ∀ i ∈ s, x i ≠ 0)
    (hc : ∀ i ∈ s, c i ≠ 0) (hhalf : 2 * s.card ≤ n) :
    (Register.run (powerSums s x c n) n).lambda = locator s x := by
  obtain ⟨p, q, h⟩ := Register.witnessed_run (powerSums s x c n) n
  exact h.unique (solves_locator s x c n) (isCoprime_locator hx hx0 hc) hhalf

end KeyEquation
