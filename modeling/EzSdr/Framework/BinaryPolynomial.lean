import Mathlib

/-! # Bit Vectors as Polynomials

    A bit vector stands for a polynomial over the field with two elements:
    bit `i` is the coefficient of `X ^ i`. Exclusive or is addition, and a
    register that shifts and subtracts a generator multiplies by `X` modulo
    that generator.

    * **`ofBits`** and its algebra.
    * **`generator`**: the divisor that a register with given feedback works with.
    * **`shiftRegister_iterate`**: what shifting does.
    * **`eq_modByMonic`**: what the register holds is a remainder.
    * **`not_dvd_of_burst`**: a short burst is no multiple of a generator. -/

namespace BinaryPolynomial

open Polynomial

noncomputable section

/-! ## Bits and coefficients -/

/-- One bit as a coefficient. -/
def bit (b : Bool) : ZMod 2 := if b then 1 else 0

theorem bit_xor (a b : Bool) : bit (a ^^ b) = bit a + bit b := by
  revert a b
  decide

theorem bit_eq_zero {b : Bool} : bit b = 0 ↔ b = false := by
  revert b
  decide

/-- The polynomial of a bit vector. -/
def ofBits {w : ℕ} (v : BitVec w) : (ZMod 2)[X] :=
  ∑ i ∈ Finset.range w, C (bit (v.getLsbD i)) * X ^ i

theorem coeff_ofBits {w : ℕ} (v : BitVec w) (i : ℕ) : (ofBits v).coeff i = bit (v.getLsbD i) := by
  unfold ofBits
  rw [finsetSum_coeff]
  simp only [coeff_C_mul_X_pow]
  rw [Finset.sum_ite_eq (Finset.range w) i]
  split
  · rfl
  · next hout =>
    rw [BitVec.getLsbD_of_ge v i (by simpa using hout)]
    rfl

theorem degree_ofBits_lt {w : ℕ} (v : BitVec w) : (ofBits v).degree < w := by
  rw [degree_lt_iff_coeff_zero]
  intro i hi
  rw [coeff_ofBits, BitVec.getLsbD_of_ge v i hi]
  rfl

@[simp] theorem ofBits_zero (w : ℕ) : ofBits 0#w = 0 := by
  ext i
  rw [coeff_ofBits, BitVec.getLsbD_zero, coeff_zero]
  rfl

/-- Exclusive or is addition. -/
theorem ofBits_xor {w : ℕ} (a b : BitVec w) : ofBits (a ^^^ b) = ofBits a + ofBits b := by
  ext i
  rw [coeff_add, coeff_ofBits, coeff_ofBits, coeff_ofBits, BitVec.getLsbD_xor, bit_xor]

/-- The same bits in a vector of another width. -/
theorem ofBits_congr {u w : ℕ} {a : BitVec u} {b : BitVec w}
    (h : ∀ i, a.getLsbD i = b.getLsbD i) : ofBits a = ofBits b := by
  ext i
  rw [coeff_ofBits, coeff_ofBits, h]

/-- Bits moved up by `n`. -/
theorem ofBits_mul_X_pow {u w : ℕ} {a : BitVec u} {b : BitVec w} (n : ℕ)
    (hlow : ∀ i < n, b.getLsbD i = false) (hhigh : ∀ i, b.getLsbD (i + n) = a.getLsbD i) :
    ofBits b = ofBits a * X ^ n := by
  ext i
  rw [coeff_mul_X_pow', coeff_ofBits]
  by_cases hi : n ≤ i
  · rw [if_pos hi, coeff_ofBits, ← hhigh, Nat.sub_add_cancel hi]
  · rw [if_neg hi, hlow i (not_le.1 hi)]
    rfl

/-- The polynomial of a message of words, the first word highest. -/
def ofWords {k : ℕ} (words : List (BitVec k)) : (ZMod 2)[X] :=
  words.foldl (fun p v => p * X ^ k + ofBits v) 0

theorem ofWords_append_singleton {k : ℕ} (words : List (BitVec k)) (v : BitVec k) :
    ofWords (words ++ [v]) = ofWords words * X ^ k + ofBits v :=
  List.foldl_concat ..

/-! ## Shift registers -/

/-- The divisor of a register with the given feedback. -/
def generator {w : ℕ} (feedback : BitVec w) : (ZMod 2)[X] := X ^ w + ofBits feedback

theorem generator_monic {w : ℕ} (feedback : BitVec w) : (generator feedback).Monic :=
  monic_X_pow_add (degree_ofBits_lt feedback)

theorem degree_generator {w : ℕ} (feedback : BitVec w) : (generator feedback).degree = w := by
  have hlt : (ofBits feedback).degree < (X ^ w : (ZMod 2)[X]).degree := by
    rw [degree_X_pow]
    exact degree_ofBits_lt feedback
  rw [generator, degree_add_eq_left_of_degree_lt hlt, degree_X_pow]

/-- One shift, with feedback when a bit leaves the register. -/
def shiftRegister {w : ℕ} (feedback c : BitVec w) : BitVec w :=
  (c <<< 1) ^^^ (if c.msb then feedback else 0#w)

/-- Equality modulo the generator. -/
abbrev modulo {w : ℕ} (feedback : BitVec w) : (ZMod 2)[X] →+* AdjoinRoot (generator feedback) :=
  AdjoinRoot.mk (generator feedback)

theorem modulo_generator {w : ℕ} (feedback : BitVec w) :
    modulo feedback (generator feedback) = 0 := AdjoinRoot.mk_self

/-- What is shifted out of the register: its uppermost bit. -/
theorem ofBits_shiftLeft_one {w : ℕ} (c : BitVec w) :
    ofBits c * X = ofBits (c <<< 1) + C (bit c.msb) * X ^ w := by
  ext i
  rw [coeff_add, coeff_ofBits, coeff_C_mul_X_pow]
  cases i with
  | zero =>
    rw [coeff_mul_X_zero]
    cases w with
    | zero => simp [BitVec.msb, BitVec.getMsbD, bit]
    | succ w => simp [bit]
  | succ i =>
    rw [coeff_mul_X, coeff_ofBits, BitVec.getLsbD_shiftLeft]
    obtain hlt | heq | hgt := lt_trichotomy (i + 1) w
    · simp [hlt, hlt.ne, bit]
    · subst heq
      simp [BitVec.msb_eq_getLsbD_last, bit]
    · have hout : c.getLsbD i = false := BitVec.getLsbD_of_ge c i (by omega)
      simp [hgt.ne', hout, bit, show ¬ i + 1 < w by omega]

/-- A shift multiplies by `X`. -/
theorem modulo_shiftRegister {w : ℕ} (feedback c : BitVec w) :
    modulo feedback (ofBits (shiftRegister feedback c)) = modulo feedback (ofBits c * X) := by
  unfold shiftRegister
  rw [ofBits_xor, ofBits_shiftLeft_one]
  cases c.msb with
  | false => simp [bit]
  | true =>
    -- the bit that leaves is `X ^ w`, and the feedback is the same modulo the generator
    have hzero : modulo feedback (X ^ w) + modulo feedback (ofBits feedback) = 0 := by
      rw [← map_add]
      exact modulo_generator feedback
    have hsign : modulo feedback (ofBits feedback) = modulo feedback (X ^ w) := by
      rw [eq_neg_of_add_eq_zero_right hzero, ← map_neg]
      congr 1
      exact CharTwo.neg_eq _
    rw [if_pos rfl, map_add, map_add, hsign]
    simp [bit]

/-- **Shifting `n` times multiplies by `X ^ n`.** -/
theorem shiftRegister_iterate {w : ℕ} (feedback c : BitVec w) (n : ℕ) :
    modulo feedback (ofBits ((shiftRegister feedback)^[n] c)) =
      modulo feedback (ofBits c * X ^ n) := by
  induction n generalizing c with
  | zero => simp
  | succ n ih =>
    rw [Function.iterate_succ_apply, ih, map_mul, modulo_shiftRegister, ← map_mul, pow_succ']
    ring_nf

/-- **What a register holds is a remainder.** -/
theorem eq_modByMonic {w : ℕ} {feedback v : BitVec w} {p : (ZMod 2)[X]}
    (h : modulo feedback (ofBits v) = modulo feedback p) :
    ofBits v = p %ₘ generator feedback := by
  rw [← modByMonic_eq_of_dvd_sub (generator_monic feedback) (AdjoinRoot.mk_eq_mk.1 h), eq_comm,
    modByMonic_eq_self_iff (generator_monic feedback), degree_generator]
  exact degree_ofBits_lt v

/-! ## Bursts -/

/-- A burst: coefficients that are zero outside of a range of `n` exponents. -/
def IsBurst (n : ℕ) (p : (ZMod 2)[X]) : Prop :=
  p ≠ 0 ∧ ∃ start, ∀ i, p.coeff i ≠ 0 → start ≤ i ∧ i < start + n

/-- A generator whose last feedback bit is set has no factor `X`. -/
theorem isCoprime_X {w : ℕ} {feedback : BitVec w} (hpos : 0 < w)
    (hlast : feedback.getLsbD 0 = true) : IsCoprime (generator feedback) X := by
  have hconst : (generator feedback).coeff 0 = 1 := by
    rw [generator, coeff_add, coeff_ofBits, hlast, coeff_X_pow, if_neg (by omega)]
    rfl
  obtain ⟨q, hq⟩ : X ∣ generator feedback - C ((generator feedback).coeff 0) := X_dvd_sub_C
  rw [hconst, C_1] at hq
  refine ⟨1, -q, ?_⟩
  linear_combination hq

/-- **A burst no longer than the register is no multiple of the generator.** -/
theorem not_dvd_of_burst {w : ℕ} {feedback : BitVec w} (hpos : 0 < w)
    (hlast : feedback.getLsbD 0 = true) {p : (ZMod 2)[X]} (hp : IsBurst w p) :
    ¬ generator feedback ∣ p := by
  intro hdvd
  obtain ⟨hne, start, hrange⟩ := hp
  obtain ⟨q, hq⟩ : X ^ start ∣ p := by
    rw [X_pow_dvd_iff]
    intro i hi
    by_contra hnonzero
    exact absurd (hrange i hnonzero).1 (not_le.2 hi)
  have hdegree : q.degree < w := by
    rw [degree_lt_iff_coeff_zero]
    intro i hi
    by_contra hnonzero
    have hcoeff : p.coeff (i + start) = q.coeff i := by
      rw [hq, mul_comm, coeff_mul_X_pow]
    have hout := (hrange (i + start) (by rwa [hcoeff])).2
    omega
  -- the power of `X` does not help the generator to divide
  have hdvd' : generator feedback ∣ q := by
    rw [hq] at hdvd
    exact (isCoprime_X hpos hlast).pow_right.dvd_of_dvd_mul_left hdvd
  have hzero : q = 0 := by
    by_contra hq0
    exact absurd (degree_le_of_dvd hdvd' hq0) (by rw [degree_generator]; exact not_le.2 hdegree)
  exact hne (by rw [hq, hzero, mul_zero])

end

end BinaryPolynomial
