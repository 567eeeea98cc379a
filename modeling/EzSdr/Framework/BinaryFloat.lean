import Mathlib

/-! # Rounding to a Binary Precision

    Positive rationals rounded to `p` significant bits, ties to the even
    mantissa, without bounds on the exponent.

    This module collects:

    * **`roundEven`**, and its error of half a unit.
    * **`round`**, and its relative error of `2^-p`.
    * **`eq_of_round_div`**: a quotient of a small integer that is rounded to
      an integer is that integer. -/

namespace BinaryFloat

/-- The nearest integer; the even one of two. -/
def roundEven (x : ℚ) : ℤ :=
  if 2 * Int.fract x < 1 then ⌊x⌋
  else if 1 < 2 * Int.fract x ∨ ⌊x⌋ % 2 = 1 then ⌊x⌋ + 1
  else ⌊x⌋

theorem roundEven_error (x : ℚ) : |(roundEven x : ℚ) - x| ≤ 1 / 2 := by
  have hsplit := Int.floor_add_fract x
  have hlow := Int.fract_nonneg x
  have hhigh := Int.fract_lt_one x
  unfold roundEven
  rw [abs_le]
  split_ifs with hbelow habove
  · constructor <;> linarith
  · push_cast
    constructor <;> linarith
  · -- a tie, and the floor is even
    have htie := not_or.1 habove
    constructor <;> linarith [htie.1]

/-- The weight of the last bit of the mantissa. -/
def unit (p : ℕ) (q : ℚ) : ℚ := 2 ^ (Int.log 2 q + 1 - p)

/-- Round to `p` significant bits. -/
def round (p : ℕ) (q : ℚ) : ℚ := roundEven (q / unit p q) * unit p q

theorem unit_pos (p : ℕ) (q : ℚ) : 0 < unit p q := by
  unfold unit
  positivity

/-- The mantissa has no more than `p` bits. -/
theorem unit_mul_le {p : ℕ} {q : ℚ} (hq : 0 < q) : unit p q * 2 ^ p ≤ 2 * q := by
  have hlog : ((2 : ℕ) : ℚ) ^ Int.log 2 q ≤ q := Int.zpow_log_le_self (by norm_num) hq
  have hunit : unit p q * 2 ^ p = 2 * 2 ^ Int.log 2 q := by
    unfold unit
    rw [← zpow_natCast (2 : ℚ) p, ← zpow_add₀ (by norm_num : (2 : ℚ) ≠ 0),
      ← zpow_one_add₀ (by norm_num : (2 : ℚ) ≠ 0)]
    congr 1
    ring
  rw [hunit]
  push_cast at hlog
  linarith

/-- The relative error of a rounding. -/
theorem round_error {p : ℕ} {q : ℚ} (hq : 0 < q) : |round p q - q| * 2 ^ p ≤ q := by
  have hpos := unit_pos p q
  have heven := roundEven_error (q / unit p q)
  have hscaled : round p q - q = (roundEven (q / unit p q) - q / unit p q) * unit p q := by
    unfold round
    field_simp
  have hbound : |round p q - q| ≤ 1 / 2 * unit p q := by
    rw [hscaled, abs_mul, abs_of_pos hpos]
    exact mul_le_mul_of_nonneg_right heven hpos.le
  calc |round p q - q| * 2 ^ p ≤ 1 / 2 * unit p q * 2 ^ p :=
        mul_le_mul_of_nonneg_right hbound (by positivity)
    _ = 1 / 2 * (unit p q * 2 ^ p) := by ring
    _ ≤ 1 / 2 * (2 * q) := by
        have := unit_mul_le (p := p) hq
        linarith
    _ = q := by ring

/-- Where the numerator has no more than `p` bits, only an exact quotient is rounded to an
    integer. -/
theorem eq_of_round_div {p a b n : ℕ} (hb : 0 < b) (ha : 0 < a) (hsmall : a < 2 ^ p)
    (h : round p (a / b) = n) : a = n * b := by
  have hb' : (0 : ℚ) < b := by exact_mod_cast hb
  have ha' : (0 : ℚ) < a := by exact_mod_cast ha
  have herror := round_error (p := p) (div_pos ha' hb')
  rw [h] at herror
  have hsmall' : (a : ℚ) < 2 ^ p := by exact_mod_cast hsmall
  -- the difference of the products is an integer below one
  have hscaled : |(n * b : ℚ) - a| * 2 ^ p ≤ a := by
    have hmul : (n * b : ℚ) - a = (n - a / b) * b := by field_simp
    rw [hmul, abs_mul, abs_of_pos hb']
    calc |(n : ℚ) - a / b| * b * 2 ^ p = |(n : ℚ) - a / b| * 2 ^ p * b := by ring
      _ ≤ a / b * b := mul_le_mul_of_nonneg_right herror hb'.le
      _ = a := by field_simp
  have hlt : |(n * b : ℚ) - a| < 1 := by
    by_contra hge
    have hpow : (0 : ℚ) < 2 ^ p := by positivity
    have := mul_le_mul_of_nonneg_right (not_lt.1 hge) hpow.le
    linarith
  have hint : |((n * b : ℕ) : ℤ) - a| < 1 := by exact_mod_cast hlt
  have := Int.abs_lt_one_iff.1 hint
  omega

end BinaryFloat
