import EzSdr.Uat.Field

/-! # Locating the Errors of a UAT Frame

    What the decoder computes with logarithms before it corrects anything: the
    syndromes of a word, Massey's register on them, the roots of the locator by a
    search with one register for each coefficient, and the values of the error by
    Forney's formula. Each is what the key equation asks for.

    * **`sym_syndromesOf_errors`**: the syndromes of a word with errors are power sums.
    * **`represents_run`**: the decoder runs Massey's algorithm.
    * **`chien_eq`**: the search finds the roots of the locator.
    * **`forney_eq`**: the formula gives the values. -/

namespace Uat

open Polynomial KeyEquation

/-! ## Section 1: Words and their syndromes -/

/-- The value of a word; its first byte has the highest power. -/
noncomputable def value (x : Symbol) (word : List UInt8) : Symbol :=
  word.foldl (fun sum byte => sum * x + sym byte) 0

/-- A word whose syndromes all vanish. -/
def IsCodeword (roots : ℕ) (word : List UInt8) : Prop :=
  ∀ k < roots, value (α ^ (120 + k)) word = 0

theorem value_append (x : Symbol) (word : List UInt8) (byte : UInt8) :
    value x (word ++ [byte]) = value x word * x + sym byte := List.foldl_concat ..

theorem value_eq_sum (x : Symbol) (word : List UInt8) :
    value x word =
      ∑ j ∈ Finset.range word.length, sym (word.getD j 0) * x ^ (word.length - 1 - j) := by
  induction word using List.reverseRecOn with
  | nil => rfl
  | append_singleton word byte ih =>
    rw [value_append, List.length_append, List.length_singleton, Finset.sum_range_succ, ih,
      Finset.sum_mul]
    congr 1
    · apply Finset.sum_congr rfl
      intro j hj
      have hlt := Finset.mem_range.1 hj
      rw [List.getD_append _ _ _ _ hlt, mul_assoc, ← pow_succ]
      congr 2
      omega
    · rw [List.getD_append_right _ _ _ _ le_rfl]
      simp

theorem length_feedSyndromes (syndromes : List UInt8) (byte : UInt8) :
    (feedSyndromes Gf.new syndromes byte).length = syndromes.length := List.length_mapIdx

theorem sym_feedSyndromes {syndromes : List UInt8} {k : ℕ} (hk : k < syndromes.length)
    (byte : UInt8) : sym ((feedSyndromes Gf.new syndromes byte).getD k 0) =
      sym (syndromes.getD k 0) * α ^ (120 + k) + sym byte := by
  have hget : syndromes.getD k 0 = syndromes[k] := List.getD_eq_getElem _ _ hk
  have hfeed : (feedSyndromes Gf.new syndromes byte).getD k 0 =
      if syndromes[k] = 0 then byte
      else byte ^^^ Gf.new.pow (Gf.new.log syndromes[k] + (120 + k)) := by
    unfold feedSyndromes
    rw [List.getD_eq_getElem _ _ (by rwa [List.length_mapIdx]), List.getElem_mapIdx]
  rw [hget, hfeed]
  split
  · next h => rw [h, sym_zero, zero_mul, zero_add]
  · next h => rw [sym_xor, sym_pow, pow_add, sym_log h, add_comm]

theorem foldl_feedSyndromes (raw syndromes : List UInt8) {k : ℕ} (hk : k < syndromes.length) :
    (raw.foldl (feedSyndromes Gf.new) syndromes).length = syndromes.length ∧
      sym ((raw.foldl (feedSyndromes Gf.new) syndromes).getD k 0) =
        raw.foldl (fun sum byte => sum * α ^ (120 + k) + sym byte) (sym (syndromes.getD k 0)) := by
  induction raw generalizing syndromes with
  | nil => exact ⟨rfl, rfl⟩
  | cons byte raw ih =>
    have hlength := length_feedSyndromes syndromes byte
    rw [List.foldl_cons, List.foldl_cons, ← sym_feedSyndromes hk, ← hlength]
    exact ih _ (hlength.symm ▸ hk)

theorem length_syndromesOf (raw : List UInt8) (roots : ℕ) :
    (syndromesOf Gf.new raw roots).length = roots := by
  unfold syndromesOf
  rcases Nat.eq_zero_or_pos roots with rfl | hroots
  · induction raw.tail with
    | nil => rfl
    | cons byte raw ih => exact ih
  · have hpos : 0 < (List.replicate roots (raw.headD 0)).length := by rwa [List.length_replicate]
    rw [(foldl_feedSyndromes raw.tail _ hpos).1, List.length_replicate]

/-- The syndromes of the decoder are values of the word. -/
theorem sym_syndromesOf {raw : List UInt8} (hraw : raw ≠ []) {roots k : ℕ} (hk : k < roots) :
    sym ((syndromesOf Gf.new raw roots).getD k 0) = value (α ^ (120 + k)) raw := by
  obtain ⟨byte, raw, rfl⟩ := List.exists_cons_of_ne_nil hraw
  have hlt : k < (List.replicate roots byte).length := by rwa [List.length_replicate]
  have hfirst : (List.replicate roots byte).getD k 0 = byte := by
    rw [List.getD_eq_getElem _ _ hlt, List.getElem_replicate]
  unfold syndromesOf value
  rw [List.tail_cons, List.headD_cons, (foldl_feedSyndromes raw _ hlt).2, hfirst, List.foldl_cons,
    zero_mul, zero_add]

/-! ## Section 2: Errors -/

/-- The places where two words differ. -/
def errors (raw word : List UInt8) : Finset ℕ :=
  (Finset.range raw.length).filter fun j => raw.getD j 0 ≠ word.getD j 0

/-- The number of places where two words differ. -/
def distance (raw word : List UInt8) : ℕ := (errors raw word).card

/-- The power that belongs to a place of a word. -/
noncomputable def place (length j : ℕ) : Symbol := α ^ (length - 1 - j)

/-- What is added to a word at a place. -/
def amount (raw word : List UInt8) (j : ℕ) : Symbol := sym (raw.getD j 0 ^^^ word.getD j 0)

/-- The weight of an error in the syndromes. -/
noncomputable def weight (raw word : List UInt8) (j : ℕ) : Symbol :=
  amount raw word j * place raw.length j ^ 120

variable {raw word : List UInt8} {roots pad : ℕ}

theorem mem_errors {j : ℕ} :
    j ∈ errors raw word ↔ j < raw.length ∧ raw.getD j 0 ≠ word.getD j 0 := by
  unfold errors
  rw [Finset.mem_filter, Finset.mem_range]

theorem amount_eq_zero {j : ℕ} : amount raw word j = 0 ↔ raw.getD j 0 = word.getD j 0 := by
  unfold amount
  rw [sym_eq_zero, UInt8.xor_eq_zero_iff]

/-- The value of a word with errors. -/
theorem value_add_errors (hlength : word.length = raw.length) (x : Symbol) :
    value x raw = value x word +
      ∑ j ∈ errors raw word, amount raw word j * x ^ (raw.length - 1 - j) := by
  have hall : ∑ j ∈ errors raw word, amount raw word j * x ^ (raw.length - 1 - j) =
      ∑ j ∈ Finset.range raw.length, amount raw word j * x ^ (raw.length - 1 - j) := by
    apply Finset.sum_subset (Finset.filter_subset _ _)
    intro j hj hno
    have hsame : raw.getD j 0 = word.getD j 0 := by
      by_contra hne
      exact hno (mem_errors.2 ⟨Finset.mem_range.1 hj, hne⟩)
    rw [amount_eq_zero.2 hsame, zero_mul]
  rw [hall, value_eq_sum, value_eq_sum, hlength, ← Finset.sum_add_distrib]
  apply Finset.sum_congr rfl
  intro j _
  unfold amount
  rw [sym_xor, ← add_mul, add_comm (sym (raw.getD j 0)), ← add_assoc, CharTwo.add_self_eq_zero,
    zero_add]

/-- The syndromes of a word with errors are power sums. -/
theorem sym_syndromesOf_errors (hraw : raw ≠ []) (hlength : word.length = raw.length)
    (hword : IsCodeword roots word) {k : ℕ} (hk : k < roots) :
    sym ((syndromesOf Gf.new raw roots).getD k 0) =
      ∑ j ∈ errors raw word, weight raw word j * place raw.length j ^ k := by
  rw [sym_syndromesOf hraw hk, value_add_errors hlength, hword k hk, zero_add]
  apply Finset.sum_congr rfl
  intro j _
  unfold weight place
  rw [mul_assoc, ← pow_add, ← pow_mul, ← pow_mul, mul_comm (120 + k)]

theorem place_ne_zero (length j : ℕ) : place length j ≠ 0 := pow_ne_zero _ α_ne_zero

theorem place_injOn (hlength : raw.length + pad = FIELD) :
    Set.InjOn (place raw.length) (errors raw word) := by
  intro i hi j hj h
  have hi := (mem_errors.1 hi).1
  have hj := (mem_errors.1 hj).1
  have hexponent : raw.length - 1 - i = raw.length - 1 - j :=
    α_pow_injOn (show raw.length - 1 - i < FIELD by omega)
      (show raw.length - 1 - j < FIELD by omega) h
  omega

theorem weight_ne_zero {j : ℕ} (hj : j ∈ errors raw word) : weight raw word j ≠ 0 := by
  apply mul_ne_zero _ (pow_ne_zero _ (place_ne_zero _ _))
  exact fun hzero => (mem_errors.1 hj).2 (amount_eq_zero.1 hzero)

/-! ## Section 3: Massey's register -/

/-- The arrays of the decoder hold the coefficients of the register. The corrections are kept
    without the factor `X`. -/
structure Represents (roots : ℕ) (state : Massey) (r : Register Symbol) : Prop where
  length_lambda : state.lambda.length = roots + 1
  length_b      : state.b.length = roots + 1
  lambda        : ∀ i, sym (state.lambda.getD i 0) = r.lambda.coeff i
  b             : ∀ i, ofLog (state.b.getD i A0) = r.b.coeff (i + 1)
  el            : state.el = r.el

/-- The table of logarithms of a list of bytes. -/
theorem ofLog_getD_log (bytes : List UInt8) (i : ℕ) :
    ofLog ((bytes.map Gf.new.log).getD i A0) = sym (bytes.getD i 0) := by
  rcases Nat.lt_or_ge i bytes.length with hi | hi
  · rw [List.getD_eq_getElem _ _ (by rwa [List.length_map]), List.getElem_map, ofLog_log,
      List.getD_eq_getElem _ _ hi]
  · rw [List.getD_eq_default _ _ (by rwa [List.length_map]), List.getD_eq_default _ _ hi, ofLog_A0,
      sym_zero]

theorem sum_map_range (f : ℕ → Symbol) (n : ℕ) :
    ((List.range n).map f).sum = ∑ i ∈ Finset.range n, f i := by
  induction n with
  | zero => rfl
  | succ n ih => rw [List.range_succ, Finset.sum_range_succ, List.map_append, List.sum_append, ih,
      List.map_singleton, List.sum_singleton]

/-- A product of a byte with a logarithm. -/
theorem sym_product (a : UInt8) (n : ℕ) :
    (if a ≠ 0 ∧ n ≠ A0 then sym (Gf.new.pow (Gf.new.log a + n)) else 0) = sym a * ofLog n := by
  by_cases ha : a = 0
  · simp [ha]
  by_cases hn : n = A0
  · simp [hn]
  rw [if_pos ⟨ha, hn⟩, sym_pow, pow_add, sym_log ha, ofLog_of_ne hn]

variable {S : Symbol[X]} {si : List ℕ} {m : ℕ} {state : Massey} {r : Register Symbol}
  {p q : Symbol[X]}

theorem Represents.discrepancy (h : Represents roots state r)
    (hsi : ∀ k < roots, ofLog (si.getD k A0) = S.coeff k) (hm : m < roots) :
    sym (Massey.discrepancy Gf.new si state.lambda (m + 1)) = r.discrepancy S m := by
  unfold Massey.discrepancy Register.discrepancy
  rw [sym_foldl, sym_zero, zero_add, sum_map_range, coeff_mul,
    Finset.Nat.sum_antidiagonal_eq_sum_range_succ fun i j => r.lambda.coeff i * S.coeff j]
  apply Finset.sum_congr rfl
  intro i hi
  rw [sym_product, h.lambda, show m + 1 - i - 1 = m - i by omega, hsi _ (by omega)]

/-- The corrections do not fill their array, so nothing is lost when they are moved. -/
theorem Represents.shifted (h : Represents roots state r) (hw : r.Witnessed S m p q)
    (hm : m < roots) (i : ℕ) :
    ofLog ((A0 :: state.b.take roots).getD i A0) = (X * r.b).coeff (i + 1) := by
  rw [coeff_X_mul]
  cases i with
  | zero =>
    rw [List.getD_cons_zero, ofLog_A0, X_dvd_iff.1 hw.shift]
  | succ j =>
    rw [List.getD_cons_succ, ← h.b, List.getD_eq_getElem?_getD, List.getElem?_take]
    split
    · rw [List.getD_eq_getElem?_getD]
    · next hout =>
      have hdegree := hw.b_lt
      rw [mem_degreeLT, degree_lt_iff_coeff_zero] at hdegree
      rw [h.b, hdegree (j + 1) (by omega)]
      exact ofLog_A0

/-- The corrected locator. -/
theorem Represents.corrected (h : Represents roots state r) (hw : r.Witnessed S m p q)
    (hm : m < roots) {d : UInt8} (hd : d ≠ 0) (i : ℕ) :
    sym ((state.lambda.getD 0 0 :: (List.range roots).map fun i =>
      if state.b.getD i A0 ≠ A0 then
        state.lambda.getD (i + 1) 0 ^^^ Gf.new.pow (Gf.new.log d + state.b.getD i A0)
      else state.lambda.getD (i + 1) 0).getD i 0) =
        (r.lambda - C (sym d) * r.b).coeff i := by
  rw [coeff_sub, coeff_C_mul, CharTwo.sub_eq_add]
  cases i with
  | zero =>
    rw [List.getD_cons_zero, h.lambda, X_dvd_iff.1 hw.shift, mul_zero, add_zero]
  | succ j =>
    rw [List.getD_cons_succ, ← h.lambda, ← h.b]
    rcases Nat.lt_or_ge j roots with hj | hj
    · rw [List.getD_eq_getElem _ _ (by simpa using hj), List.getElem_map, List.getElem_range]
      split
      · next hb => rw [sym_xor, sym_pow, pow_add, sym_log hd, ofLog_of_ne hb]
      · next hb => rw [not_not.1 hb, ofLog_A0, mul_zero, add_zero]
    · have hdegree := hw.b_lt
      rw [mem_degreeLT, degree_lt_iff_coeff_zero] at hdegree
      rw [List.getD_eq_default _ _ (by simpa using hj), h.b, hdegree (j + 1) (by omega), mul_zero,
        add_zero, List.getD_eq_default _ _ (by rw [h.length_lambda]; omega)]

/-- The old locator as the new corrections. -/
theorem Represents.divided (h : Represents roots state r) {d : UInt8} (hd : d ≠ 0) (i : ℕ) :
    ofLog ((state.lambda.map fun x =>
      if x = 0 then A0 else (Gf.new.log x + FIELD - Gf.new.log d) % FIELD).getD i A0) =
        (X * (C (sym d)⁻¹ * r.lambda)).coeff (i + 1) := by
  rw [coeff_X_mul, coeff_C_mul, ← h.lambda]
  rcases Nat.lt_or_ge i state.lambda.length with hi | hi
  · rw [List.getD_eq_getElem _ _ (by simpa using hi), List.getElem_map,
      List.getD_eq_getElem _ _ hi]
    split
    · next hzero => rw [hzero, ofLog_A0, sym_zero, mul_zero]
    · next hne => rw [ofLog_div (log_lt hd).le, sym_log hne, sym_log hd, div_eq_inv_mul]
  · rw [List.getD_eq_default _ _ (by simpa using hi), List.getD_eq_default _ _ hi, ofLog_A0,
      sym_zero, mul_zero]

/-- One step of the decoder is one step of the register. -/
theorem Represents.step (h : Represents roots state r) (hw : r.Witnessed S m p q)
    (hsi : ∀ k < roots, ofLog (si.getD k A0) = S.coeff k) (hm : m < roots) :
    Represents roots (Massey.step Gf.new si roots state (m + 1)) (r.step S m) := by
  have hdiscrepancy := h.discrepancy hsi hm
  unfold Massey.step Register.step
  dsimp only
  rw [← hdiscrepancy]
  generalize Massey.discrepancy Gf.new si state.lambda (m + 1) = d
  have hlength : (A0 :: state.b.take roots).length = roots + 1 := by
    simp [h.length_b]
  by_cases hd : d = 0
  · -- nothing to correct
    rw [if_pos (log_eq_A0.2 hd), if_pos (sym_eq_zero.2 hd)]
    exact ⟨h.length_lambda, hlength, h.lambda, h.shifted hw hm, h.el⟩
  rw [if_neg fun hlog => hd (log_eq_A0.1 hlog), if_neg fun hzero => hd (sym_eq_zero.1 hzero)]
  have hiff : 2 * state.el < m + 1 ↔ 2 * r.el ≤ m := by
    rw [h.el]
    omega
  by_cases hlong : 2 * r.el ≤ m
  · rw [if_pos (hiff.2 hlong), if_pos hlong]
    constructor
    case length_lambda => simp
    case length_b => simp [h.length_lambda]
    case lambda => exact h.corrected hw hm hd
    case b => exact h.divided hd
    case el => rw [h.el]
  · rw [if_neg fun hlt => hlong (hiff.1 hlt), if_neg hlong]
    constructor
    case length_lambda => simp
    case length_b => exact hlength
    case lambda => exact h.corrected hw hm hd
    case b => exact h.shifted hw hm
    case el => exact h.el

/-- The decoder runs Massey's algorithm. -/
theorem represents_run (hsi : ∀ k < roots, ofLog (si.getD k A0) = S.coeff k) :
    Represents roots (Massey.run Gf.new si roots) (Register.run S roots) := by
  have hinit : Represents roots ⟨1 :: List.replicate roots 0,
      (1 :: List.replicate roots 0).map Gf.new.log, 0⟩ (Register.run S 0) := by
    have hlambda : ∀ i, sym ((1 :: List.replicate roots 0).getD i 0) = (1 : Symbol[X]).coeff i := by
      intro i
      cases i with
      | zero => rw [List.getD_cons_zero, coeff_one_zero, sym_one]
      | succ i =>
        have hzero : (List.replicate roots (0 : UInt8)).getD i 0 = 0 := by
          rw [List.getD_eq_getElem?_getD, List.getElem?_replicate]
          split
          · rfl
          · rfl
        rw [List.getD_cons_succ, hzero, sym_zero, coeff_one, if_neg (Nat.succ_ne_zero i)]
    constructor
    case length_lambda => simp
    case length_b => simp
    case lambda => exact hlambda
    case b =>
      intro i
      show _ = (X : Symbol[X]).coeff (i + 1)
      rw [← mul_one (X : Symbol[X]), coeff_X_mul, ← hlambda, ofLog_getD_log]
    case el => rfl
  have hrun : ∀ n ≤ roots, Represents roots
      (((List.range n).map (· + 1)).foldl (Massey.step Gf.new si roots)
        ⟨1 :: List.replicate roots 0, (1 :: List.replicate roots 0).map Gf.new.log, 0⟩)
      (Register.run S n) := by
    intro n
    induction n with
    | zero => exact fun _ => hinit
    | succ n ih =>
      intro hn
      obtain ⟨p, q, hw⟩ := Register.witnessed_run S n
      rw [List.range_succ, List.map_append, List.foldl_append, Register.run_succ,
        List.map_singleton, List.foldl_cons, List.foldl_nil]
      exact (ih (Nat.le_of_succ_le hn)).step hw hsi hn
  exact hrun roots le_rfl

/-! ## Section 4: The search for the roots -/

theorem ofLog_eq_zero {n : ℕ} : ofLog n = 0 ↔ n = A0 := by
  constructor
  · intro h
    by_contra hn
    rw [ofLog_of_ne hn] at h
    exact pow_ne_zero n α_ne_zero h
  · rintro rfl
    exact ofLog_A0

/-- The last coefficient that is not zero is the one of the degree. -/
theorem degreeOf_eq {logs : List ℕ} {l : Symbol[X]}
    (hlogs : ∀ i, ofLog (logs.getD i A0) = l.coeff i) (hone : l.coeff 0 = 1) :
    degreeOf logs = l.natDegree := by
  have hlast : ∀ n, l.coeff ((List.range n).foldl
      (fun degree i => if logs.getD i A0 ≠ A0 then i else degree) 0) ≠ 0 ∧
      ∀ i < n, (List.range n).foldl
        (fun degree i => if logs.getD i A0 ≠ A0 then i else degree) 0 < i → l.coeff i = 0 := by
    intro n
    induction n with
    | zero => exact ⟨by rw [List.range_zero, List.foldl_nil, hone]; exact one_ne_zero,
        fun i hi => absurd hi (Nat.not_lt_zero i)⟩
    | succ n ih =>
      rw [List.range_succ, List.foldl_concat]
      split
      · next hn =>
        refine ⟨fun hzero => hn (ofLog_eq_zero.1 ((hlogs n).trans hzero)), ?_⟩
        intro i hi hni
        omega
      · next hn =>
        refine ⟨ih.1, ?_⟩
        intro i hi hlt
        rcases Nat.lt_succ_iff_lt_or_eq.1 hi with hin | rfl
        · exact ih.2 i hin hlt
        · rw [← hlogs, not_not.1 hn, ofLog_A0]
  obtain ⟨hcoeff, hafter⟩ := hlast logs.length
  symm
  apply natDegree_eq_of_le_of_coeff_ne_zero _ hcoeff
  rw [natDegree_le_iff_coeff_eq_zero]
  intro i hi
  rcases Nat.lt_or_ge i logs.length with hlt | hge
  · exact hafter i hlt hi
  · rw [← hlogs, List.getD_eq_default _ _ hge, ofLog_A0]

theorem getD_log_le (bytes : List UInt8) (j : ℕ) : (bytes.map Gf.new.log).getD j A0 ≤ A0 := by
  rcases Nat.lt_or_ge j bytes.length with hj | hj
  · rw [List.getD_eq_getElem _ _ (by rwa [List.length_map]), List.getElem_map]
    by_cases hzero : bytes[j] = 0
    · rw [hzero, log_zero]
    · exact (log_lt hzero).le
  · rw [List.getD_eq_default _ _ (by rwa [List.length_map])]

/-- The registers of the search after `k` steps: each term of the locator at the power `k`. -/
structure Turned (degree : ℕ) (l : Symbol[X]) (k : ℕ) (reg : List ℕ) : Prop where
  small : ∀ j, reg.getD j A0 ≤ A0
  terms : ∀ j, 1 ≤ j → j ≤ degree → ofLog (reg.getD j A0) = l.coeff j * (α ^ k) ^ j

variable {degree k : ℕ} {l : Symbol[X]} {reg : List ℕ}

theorem getD_advance (degree : ℕ) (reg : List ℕ) (j : ℕ) :
    (advance degree reg).getD j A0 =
      if 1 ≤ j ∧ j ≤ degree ∧ reg.getD j A0 ≠ A0 then (reg.getD j A0 + j) % FIELD
      else reg.getD j A0 := by
  unfold advance
  rcases Nat.lt_or_ge j reg.length with hj | hj
  · rw [List.getD_eq_getElem _ _ (by rwa [List.length_mapIdx]), List.getElem_mapIdx,
      List.getD_eq_getElem _ _ hj]
  · rw [List.getD_eq_default _ _ (by rwa [List.length_mapIdx]), List.getD_eq_default _ _ hj,
      if_neg fun h => h.2.2 rfl]

theorem Turned.advance (h : Turned degree l k reg) :
    Turned degree l (k + 1) (advance degree reg) := by
  have hmod : ∀ n, n % FIELD < A0 := fun n => Nat.mod_lt n (Nat.succ_pos 254)
  constructor
  case small =>
    intro j
    rw [getD_advance]
    split
    · exact (hmod _).le
    · exact h.small j
  case terms =>
    intro j hj hdegree
    have hterm : l.coeff j * (α ^ (k + 1)) ^ j = ofLog (reg.getD j A0) * α ^ j := by
      rw [h.terms j hj hdegree, pow_succ, mul_pow, mul_assoc]
    rw [getD_advance, hterm]
    by_cases hzero : reg.getD j A0 = A0
    · rw [if_neg fun h => h.2.2 hzero, hzero, ofLog_A0, zero_mul]
    · rw [if_pos ⟨hj, hdegree, hzero⟩, ofLog_of_ne (hmod _).ne, α_pow_mod, pow_add,
        ofLog_of_ne hzero]

/-- The search evaluates the locator at the powers of the generator. -/
theorem Turned.evaluate (h : Turned degree l k reg) (hone : l.coeff 0 = 1)
    (hdegree : l.natDegree = degree) :
    sym (evaluate Gf.new degree reg) = eval (α ^ k) l := by
  have hbyte : ∀ j, (if reg.getD j A0 ≠ A0 then sym (Gf.new.alpha.getD (reg.getD j A0) 0) else 0) =
      ofLog (reg.getD j A0) := by
    intro j
    split
    · next hj =>
      have hlt : reg.getD j A0 < FIELD := lt_of_le_of_ne (h.small j) hj
      rw [ofLog_of_ne hj, ← sym_pow, Gf.pow, Nat.mod_eq_of_lt hlt]
    · next hj => rw [not_not.1 hj, ofLog_A0]
  unfold Uat.evaluate
  rw [sym_foldl, eval_eq_sum_range, hdegree, Finset.sum_range_succ', hone, pow_zero, mul_one,
    sym_one, add_comm, List.map_reverse, List.sum_reverse, List.map_map, sum_map_range]
  congr 1
  apply Finset.sum_congr rfl
  intro j hj
  have hlt := Finset.mem_range.1 hj
  exact (hbyte (j + 1)).trans (h.terms (j + 1) (Nat.succ_pos j) hlt)

open Classical in
/-- With as many roots as the degree, none of them in the padding, the search finds them all. -/
theorem chien_eq (hone : l.coeff 0 = 1) (hdegree : l.natDegree = degree) (n : ℕ) {found : List ℕ}
    (h : Turned degree l k reg)
    (hcount : found.length +
      ((List.range' (k + 1) n).filter fun i => eval (α ^ i) l = 0).length = degree)
    (hpad : ∀ i ∈ List.range' (k + 1) n, eval (α ^ i) l = 0 → pad ≤ i - 1) :
    chien Gf.new degree pad (List.range' (k + 1) n) reg found =
      some (found ++ (List.range' (k + 1) n).filter fun i => eval (α ^ i) l = 0) := by
  induction n generalizing k reg found with
  | zero => simp [chien]
  | succ n ih =>
    have hvalue := h.advance.evaluate hone hdegree
    rw [List.range'_succ] at hcount hpad ⊢
    unfold chien
    dsimp only
    by_cases hroot : eval (α ^ (k + 1)) l = 0
    · rw [if_pos (sym_eq_zero.1 (hvalue.trans hroot)),
        if_neg (not_lt.2 (hpad _ (List.mem_cons_self ..) hroot)),
        List.filter_cons_of_pos (by simpa using hroot)]
      rw [List.filter_cons_of_pos (by simpa using hroot), List.length_cons] at hcount
      split
      · next hall =>
        -- the last root: there is none among the powers that are left
        rw [List.length_append, List.length_singleton] at hall
        have hnil : ((List.range' (k + 1 + 1) n).filter fun i => eval (α ^ i) l = 0) = [] :=
          List.length_eq_zero_iff.1 (by omega)
        rw [hnil]
      · rw [ih h.advance (by rw [List.length_append, List.length_singleton]; omega)
          fun i hi => hpad i (List.mem_cons_of_mem _ hi), List.append_assoc]
        rfl
    · rw [if_neg fun hzero => hroot (hvalue.symm.trans (sym_eq_zero.2 hzero)),
        List.filter_cons_of_neg (by simpa using hroot)]
      rw [List.filter_cons_of_neg (by simpa using hroot)] at hcount
      exact ih h.advance hcount fun i hi => hpad i (List.mem_cons_of_mem _ hi)

/-- Whatever the search finds are positions in order and outside of the padding. -/
theorem chien_sublist {list found result : List ℕ} {reg : List ℕ}
    (h : chien Gf.new degree pad list reg found = some result) :
    ∃ new, result = found ++ new ∧ new.Sublist list ∧ ∀ i ∈ new, pad ≤ i - 1 := by
  induction list generalizing reg found with
  | nil =>
    obtain rfl : found = result := Option.some.inj h
    exact ⟨[], (List.append_nil _).symm, List.Sublist.slnil, fun i hi => by cases hi⟩
  | cons i list ih =>
    unfold chien at h
    dsimp only at h
    split_ifs at h with hroot hpad hall
    · obtain rfl := Option.some.inj h
      refine ⟨[i], rfl, (List.nil_sublist list).cons_cons i, ?_⟩
      rintro j hj
      rw [List.mem_singleton] at hj
      exact hj ▸ not_lt.1 hpad
    · obtain ⟨new, rfl, hsub, hnew⟩ := ih h
      refine ⟨i :: new, by simp, hsub.cons_cons i, ?_⟩
      rintro j hj
      rcases List.mem_cons.1 hj with rfl | hj
      · exact not_lt.1 hpad
      · exact hnew j hj
    · obtain ⟨new, rfl, hsub, hnew⟩ := ih h
      exact ⟨new, rfl, hsub.cons i, hnew⟩

/-! ## Section 5: The values of the error -/

theorem α_pow_eq_one {n : ℕ} : α ^ n = 1 ↔ n % FIELD = 0 := by
  constructor
  · intro h
    have hmod : n % FIELD < FIELD := Nat.mod_lt n (Nat.succ_pos 254)
    apply α_pow_injOn hmod (show 0 < FIELD from Nat.succ_pos 254)
    show α ^ (n % FIELD) = α ^ 0
    rw [α_pow_mod, h, pow_zero]
  · intro h
    rw [← α_pow_mod, h, pow_zero]

/-- The root of the locator that belongs to a place. -/
theorem place_mul_root (hlength : raw.length + pad = FIELD) {j : ℕ} (hj : j < raw.length) :
    place raw.length j * α ^ (j + pad + 1) = 1 := by
  unfold place
  rw [← pow_add, show raw.length - 1 - j + (j + pad + 1) = FIELD by omega, α_pow_FIELD]

/-- The roots of the locator are the positions of the errors in the full code. -/
theorem locator_root (hlength : raw.length + pad = FIELD) {i : ℕ} (hpos : 1 ≤ i) (hi : i ≤ FIELD) :
    eval (α ^ i) (locator (errors raw word) (place raw.length)) = 0 ↔
      ∃ j ∈ errors raw word, j + pad + 1 = i := by
  rw [eval_locator_eq_zero]
  constructor
  · rintro ⟨j, hj, hplace⟩
    refine ⟨j, hj, ?_⟩
    have hlt := (mem_errors.1 hj).1
    unfold place at hplace
    rw [← pow_add, α_pow_eq_one] at hplace
    have hquotient := Nat.div_add_mod (raw.length - 1 - j + i) FIELD
    rw [hplace] at hquotient
    have hone : (raw.length - 1 - j + i) / FIELD = 1 := by
      unfold FIELD at *
      omega
    rw [hone] at hquotient
    omega
  · rintro ⟨j, hj, rfl⟩
    exact ⟨j, hj, place_mul_root hlength (mem_errors.1 hj).1⟩

/-- A product of two logarithms. -/
theorem sym_logs (a b : ℕ) :
    (if a ≠ A0 ∧ b ≠ A0 then sym (Gf.new.pow (a + b)) else 0) = ofLog a * ofLog b := by
  by_cases ha : a = A0
  · simp [ha]
  by_cases hb : b = A0
  · simp [hb]
  rw [if_pos ⟨ha, hb⟩, sym_pow, pow_add, ofLog_of_ne ha, ofLog_of_ne hb]

/-- A term of a polynomial at a power of the generator. -/
theorem sym_term (a i root : ℕ) :
    (if a ≠ A0 then sym (Gf.new.pow (a + i * root)) else 0) = ofLog a * (α ^ root) ^ i := by
  split
  · next ha => rw [sym_pow, pow_add, ofLog_of_ne ha, mul_comm i, pow_mul]
  · next ha => rw [not_not.1 ha, ofLog_A0, zero_mul]

/-- The evaluator of the decoder is the evaluator of the key equation. -/
theorem ofLog_evaluator {logs : List ℕ} {e : Symbol[X]}
    (hlogs : ∀ i, ofLog (logs.getD i A0) = l.coeff i)
    (hsi : ∀ k < roots, ofLog (si.getD k A0) = S.coeff k) (hdegree : degree ≤ roots)
    (hsolves : Solves S roots degree l e) (i : ℕ) :
    ofLog ((evaluator Gf.new si logs degree).getD i A0) = e.coeff i := by
  rcases Nat.lt_or_ge i degree with hi | hi
  · have hkey := X_pow_dvd_iff.1 hsolves.key i (hi.trans_le hdegree)
    rw [coeff_sub, sub_eq_zero, mul_comm, coeff_mul,
      Finset.Nat.sum_antidiagonal_eq_sum_range_succ fun a b => S.coeff a * l.coeff b,
      ← Finset.sum_range_reflect] at hkey
    unfold evaluator
    rw [List.getD_eq_getElem _ _ (by simpa using hi), List.getElem_map, List.getElem_range,
      ofLog_log, sym_foldl, sym_zero, zero_add, sum_map_range, ← hkey]
    apply Finset.sum_congr rfl
    intro j hj
    have hlt := Finset.mem_range.1 hj
    rw [sym_logs, hlogs, hsi _ (by omega), show i + 1 - 1 - j = i - j by omega,
      show i - (i - j) = j by omega]
  · have he := hsolves.evaluator_lt
    rw [mem_degreeLT, degree_lt_iff_coeff_zero] at he
    unfold evaluator
    rw [List.getD_eq_default _ _ (by simpa using hi), ofLog_A0, he i hi]

/-- The numerator of Forney's formula. -/
theorem sym_numerator {omega : List ℕ} {e : Symbol[X]}
    (homega : ∀ i, ofLog (omega.getD i A0) = e.coeff i) (he : e ∈ degreeLT Symbol degree)
    (root : ℕ) :
    sym ((List.range degree).reverse.foldl (fun sum i =>
      if omega.getD i A0 ≠ A0 then sum ^^^ Gf.new.pow (omega.getD i A0 + i * root) else sum) 0) =
        eval (α ^ root) e := by
  rw [sym_foldl, sym_zero, zero_add, List.map_reverse, List.sum_reverse, sum_map_range]
  simp only [sym_term, homega]
  rw [eval_eq_sum_of_lt he]

theorem sum_filter (f : ℕ → Symbol) (p : ℕ → Bool) (list : List ℕ) :
    ((list.filter p).map f).sum = (list.map fun i => if p i then f i else 0).sum := by
  induction list with
  | nil => rfl
  | cons i list ih =>
    rw [List.map_cons, List.sum_cons, ← ih, List.filter_cons]
    split
    · rw [List.map_cons, List.sum_cons]
    · rw [zero_add]

theorem cast_succ_eq (i : ℕ) : ((i : Symbol) + 1) = if i % 2 = 0 then 1 else 0 := by
  have heven : ∀ k : ℕ, ((2 * k : ℕ) : Symbol) = 0 := by
    intro k
    rw [Nat.cast_mul, Nat.cast_two, CharTwo.two_eq_zero, zero_mul]
  split
  · next h =>
    rw [show i = 2 * (i / 2) by omega, heven, zero_add]
  · next h =>
    rw [← Nat.cast_succ, show i.succ = 2 * (i / 2 + 1) by omega, heven]

/-- The denominator: only odd powers have a derivative. -/
theorem sym_denominator {logs : List ℕ} (hlogs : ∀ i, ofLog (logs.getD i A0) = l.coeff i) {n : ℕ}
    (hn : l.natDegree ≤ n) (root : ℕ) :
    sym (((List.range (n + 1)).filter (· % 2 = 0)).foldl (fun sum i =>
      if logs.getD (i + 1) A0 ≠ A0 then sum ^^^ Gf.new.pow (logs.getD (i + 1) A0 + i * root)
      else sum) 0) = eval (α ^ root) (derivative l) := by
  have hlt : derivative l ∈ degreeLT Symbol (n + 1) := by
    rw [mem_degreeLT, degree_lt_iff_coeff_zero]
    intro i hi
    rw [coeff_derivative, coeff_eq_zero_of_natDegree_lt (by omega), zero_mul]
  rw [sym_foldl, sym_zero, zero_add, sum_filter, sum_map_range, eval_eq_sum_of_lt hlt]
  apply Finset.sum_congr rfl
  intro i _
  rw [sym_term, hlogs, coeff_derivative, cast_succ_eq]
  by_cases heven : i % 2 = 0
  · simp [heven]
  · simp [heven]

/-- Forney's formula gives the value of the error. -/
theorem forney_eq {logs omega : List ℕ} (hlength : raw.length + pad = FIELD)
    (hlogs : ∀ i, ofLog (logs.getD i A0) =
      (locator (errors raw word) (place raw.length)).coeff i)
    (homega : ∀ i, ofLog (omega.getD i A0) =
      (KeyEquation.evaluator (errors raw word) (place raw.length) (weight raw word)).coeff i)
    (hdegree : (errors raw word).card = degree) (hroots : degree < roots) {j : ℕ}
    (hj : j ∈ errors raw word) :
    forney Gf.new omega logs roots degree (j + pad + 1) =
      some (raw.getD j 0 ^^^ word.getD j 0) := by
  have hz := place_mul_root hlength (mem_errors.1 hj).1
  -- at its own root, the locator without the factor of that root is not zero
  have hrest : eval (α ^ (j + pad + 1))
      (locator ((errors raw word).erase j) (place raw.length)) ≠ 0 :=
    eval_erase_ne_zero (place_injOn hlength) hj hz
  have hnumerator := sym_numerator homega
    (hdegree ▸ evaluator_lt (errors raw word) (place raw.length) (weight raw word)) (j + pad + 1)
  have hnatDegree : (locator (errors raw word) (place raw.length)).natDegree ≤
      min degree (roots - 1) := by
    have hlt := locator_lt (errors raw word) (place raw.length)
    rw [mem_degreeLT, degree_lt_iff_coeff_zero, hdegree] at hlt
    rw [Nat.min_eq_left (by omega), natDegree_le_iff_coeff_eq_zero]
    exact fun i hi => hlt i hi
  have hdenominator := sym_denominator hlogs hnatDegree (j + pad + 1)
  rw [eval_evaluator hj hz] at hnumerator
  rw [eval_derivative_locator hj hz, CharTwo.neg_eq] at hdenominator
  unfold forney
  dsimp only
  -- the two sums of the code are the evaluator and the derivative of the locator
  generalize (List.range degree).reverse.foldl (fun sum i =>
    if omega.getD i A0 ≠ A0 then sum ^^^ Gf.new.pow (omega.getD i A0 + i * (j + pad + 1))
    else sum) 0 = numerator at hnumerator ⊢
  generalize ((List.range (min degree (roots - 1) + 1)).filter (· % 2 = 0)).foldl (fun sum i =>
    if logs.getD (i + 1) A0 ≠ A0 then
      sum ^^^ Gf.new.pow (logs.getD (i + 1) A0 + i * (j + pad + 1))
    else sum) 0 = denominator at hdenominator ⊢
  have hn : numerator ≠ 0 := by
    rintro rfl
    exact mul_ne_zero (weight_ne_zero hj) hrest hnumerator.symm
  have hd : denominator ≠ 0 := by
    rintro rfl
    exact mul_ne_zero (place_ne_zero _ _) hrest hdenominator.symm
  have hp : Gf.new.pow ((j + pad + 1) * 119 + FIELD) ≠ 0 := by
    rw [ne_eq, ← sym_eq_zero, sym_pow]
    exact pow_ne_zero _ α_ne_zero
  rw [if_neg hn, if_neg hd, Option.some.injEq]
  apply sym_injective
  show sym (Gf.new.pow _) = amount raw word j
  rw [sym_pow, α_pow_sub (log_lt hd).le, pow_add, sym_log hn, sym_log hp, sym_log hd, sym_pow,
    hnumerator, hdenominator, pow_add α _ FIELD, α_pow_FIELD, mul_one, pow_mul, weight,
    div_eq_iff (mul_ne_zero (place_ne_zero _ _) hrest)]
  have hpower : place raw.length j ^ 119 * (α ^ (j + pad + 1)) ^ 119 = 1 := by
    rw [← mul_pow, hz, one_pow]
  linear_combination amount raw word j * place raw.length j * eval (α ^ (j + pad + 1))
    (locator ((errors raw word).erase j) (place raw.length)) * hpower

end Uat
