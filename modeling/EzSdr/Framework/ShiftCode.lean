import Mathlib

/-! # Words of a Shift Register

    The words `1, T 1, T (T 1), …` of a linear, injective shift `T`. A sum of
    a few of them is zero only if it cancels term by term; to see this, shift
    back until one of the terms is `1`, and look the others up.

    * **`Residues`**: a set of numbers that a kernel computation can look up.
    * **`Separated`**: what has to be looked up.
    * **`four_terms`**, **`three_terms`**: sums that vanish. -/

/-! ## Looking numbers up

    A list of numbers is kept as the set of their residues, in the bits of one
    number. A number whose residue is missing is not in the list. -/

namespace Residues

def ofList (m : ℕ) (xs : List ℕ) : ℕ := xs.foldr (fun x bits => bits ||| 1 <<< (x % m)) 0

def missing (m bits x : ℕ) : Bool := Nat.beq ((bits >>> (x % m)) % 2) 0

theorem missing_eq (m bits x : ℕ) : missing m bits x = !bits.testBit (x % m) := by
  unfold missing
  rw [Nat.testBit_eq_decide_div_mod_eq, ← Nat.shiftRight_eq_div_pow]
  obtain h | h := Nat.mod_two_eq_zero_or_one (bits >>> (x % m))
  all_goals
    rw [h]
    rfl

theorem testBit_ofList {m x : ℕ} {xs : List ℕ} (h : x ∈ xs) :
    (ofList m xs).testBit (x % m) = true := by
  induction xs with
  | nil => cases h
  | cons y ys ih =>
    show (ofList m ys ||| 1 <<< (y % m)).testBit (x % m) = true
    rw [Nat.testBit_lor, Bool.or_eq_true]
    obtain rfl | h := List.mem_cons.mp h
    · right
      simp [Nat.one_shiftLeft]
    · exact .inl (ih h)

theorem notMem_of_missing {m x : ℕ} {xs : List ℕ} (h : missing m (ofList m xs) x = true) :
    x ∉ xs := by
  intro hmem
  rw [missing_eq, testBit_ofList hmem] at h
  cases h

end Residues

/-! ## The words of a shift register -/

namespace ShiftCode

/-- Sums of two different elements of a list. -/
def pairSums : List ℕ → List ℕ
  | [] => []
  | x :: xs => xs.map (x ^^^ ·) ++ pairSums xs

theorem mem_pairSums {xs : List ℕ} {i j x y : ℕ} (hij : i < j) (hi : xs[i]? = some x)
    (hj : xs[j]? = some y) : x ^^^ y ∈ pairSums xs := by
  induction xs generalizing i j with
  | nil => cases hi
  | cons z zs ih =>
    obtain ⟨j, rfl⟩ : ∃ j', j = j' + 1 := ⟨j - 1, by omega⟩
    rw [List.getElem?_cons_succ] at hj
    unfold pairSums
    cases i with
    | zero =>
      obtain rfl : z = x := Option.some.inj hi
      exact List.mem_append_left _ (List.mem_map.mpr ⟨y, List.mem_of_getElem? hj, rfl⟩)
    | succ i => exact List.mem_append_right _ (ih (by omega) hi hj)

/-- No sum of `1` and another word is zero, a word, or a sum of two other words.
    The list holds the words after `1`; they are looked up modulo `m`. -/
def Separated (m : ℕ) (later : List ℕ) : Prop :=
  (0 :: 1 :: later ++ pairSums later).all
    (Residues.missing m (Residues.ofList m (later.map (1 ^^^ ·)))) = true

instance (m : ℕ) (later : List ℕ) : Decidable (Separated m later) :=
  inferInstanceAs (Decidable (_ = true))

section

variable {w : ℕ} {T : BitVec w → BitVec w} {one : BitVec w} {later : List ℕ} {m : ℕ}

/-- The shift is linear and injective, and its first words are listed. -/
structure Words (T : BitVec w → BitVec w) (one : BitVec w) (later : List ℕ) : Prop where
  linear : ∀ a b, T (a ^^^ b) = T a ^^^ T b
  kernel : ∀ a, T a = 0#w → a = 0#w
  unit   : one.toNat = 1
  listed : ∀ n < later.length, (T^[n + 1] one).toNat = later.getD n 0

theorem Words.iterate_xor (h : Words T one later) (n : ℕ) (a b : BitVec w) :
    T^[n] (a ^^^ b) = T^[n] a ^^^ T^[n] b := by
  induction n generalizing a b with
  | zero => rfl
  | succ n ih => rw [Function.iterate_succ_apply, h.linear, ih]; rfl

theorem Words.iterate_kernel (h : Words T one later) {n : ℕ} {a : BitVec w}
    (hzero : T^[n] a = 0#w) : a = 0#w := by
  induction n generalizing a with
  | zero => exact hzero
  | succ n ih => exact h.kernel a (ih hzero)

theorem Words.getElem? (h : Words T one later) {n : ℕ} (hpos : 0 < n) (hn : n ≤ later.length) :
    later[n - 1]? = some (T^[n] one).toNat := by
  have hlisted := h.listed (n - 1) (by omega)
  rw [Nat.sub_add_cancel hpos] at hlisted
  rw [hlisted, List.getD_eq_getElem?_getD, List.getElem?_eq_getElem (by omega)]
  rfl

/-- What the table of sums says about a number that was looked up. -/
theorem Words.ne_of_mem (h : Words T one later) (hsep : Separated m later) {x : ℕ}
    (hx : x ∈ 0 :: 1 :: later ++ pairSums later) {a : ℕ} (hpos : 0 < a) (ha : a ≤ later.length) :
    (one ^^^ T^[a] one).toNat ≠ x := by
  intro heq
  have hall := List.all_eq_true.mp hsep x hx
  have hout : x ∉ later.map (1 ^^^ ·) := Residues.notMem_of_missing hall
  refine hout (List.mem_map.mpr ⟨_, List.mem_of_getElem? (h.getElem? hpos ha), ?_⟩)
  rw [← heq, BitVec.toNat_xor, h.unit]

theorem Words.ne_one (h : Words T one later) (hsep : Separated m later) {a : ℕ} (hpos : 0 < a)
    (ha : a ≤ later.length) : T^[a] one ≠ one := by
  intro heq
  refine h.ne_of_mem hsep (x := 0) (by simp) hpos ha ?_
  rw [heq, BitVec.xor_self]
  rfl

theorem Words.injective (h : Words T one later) (hsep : Separated m later) {a b : ℕ}
    (ha : a ≤ later.length) (hb : b ≤ later.length) (heq : T^[a] one = T^[b] one) : a = b := by
  have hless (a b : ℕ) (hb : b ≤ later.length) (hab : a < b) : T^[a] one ≠ T^[b] one := by
    intro heq
    -- shift back until the first word is `1`
    have hzero : T^[a] (one ^^^ T^[b - a] one) = 0#w := by
      rw [h.iterate_xor, ← Function.iterate_add_apply, Nat.add_sub_cancel' hab.le, heq,
        BitVec.xor_self]
    have hback := BitVec.xor_eq_zero_iff.mp (h.iterate_kernel hzero)
    exact h.ne_one hsep (Nat.sub_pos_of_lt hab) (by omega) hback.symm
  obtain hab | rfl | hba := lt_trichotomy a b
  · exact absurd heq (hless a b hb hab)
  · rfl
  · exact absurd heq.symm (hless b a ha hba)

/-- Three words never cancel, if one of them is `1`. -/
theorem Words.three_terms_one (h : Words T one later) (hsep : Separated m later) {a b : ℕ}
    (ha : a ≤ later.length) (hb : b ≤ later.length) : one ^^^ T^[a] one ≠ T^[b] one := by
  intro heq
  have hmem (n : ℕ) (hn : n ≤ later.length) :
      (T^[n] one).toNat ∈ 0 :: 1 :: later ++ pairSums later := by
    cases n with
    | zero =>
      rw [show (T^[0] one).toNat = 1 from h.unit]
      simp
    | succ n =>
      have hlater := List.mem_of_getElem? (h.getElem? (Nat.succ_pos n) hn)
      exact List.mem_append_left _ (List.mem_cons_of_mem _ (List.mem_cons_of_mem _ hlater))
  cases a with
  | zero =>
    -- `1` cancels itself, and no word is zero
    have hzero : T^[b] one = 0#w := by
      rw [← heq]
      exact BitVec.xor_self
    have hone := congrArg BitVec.toNat (h.iterate_kernel hzero)
    rw [h.unit] at hone
    simp at hone
  | succ a => exact h.ne_of_mem hsep (hmem b hb) (Nat.succ_pos a) ha (congrArg BitVec.toNat heq)

/-- Four words cancel only in pairs, if one of them is `1`. -/
theorem Words.four_terms_one (h : Words T one later) (hsep : Separated m later) {a b c : ℕ}
    (ha : a ≤ later.length) (hb : b ≤ later.length) (hc : c ≤ later.length)
    (heq : one ^^^ T^[a] one = T^[b] one ^^^ T^[c] one) :
    (a = 0 ∧ b = c) ∨ (b = 0 ∧ a = c) ∨ (c = 0 ∧ a = b) := by
  have hcancel (x y : BitVec w) (hxy : one ^^^ x = one ^^^ y) : x = y :=
    (BitVec.xor_right_inj one).mp hxy
  by_cases ha0 : a = 0
  · rw [ha0, show one ^^^ T^[0] one = 0#w from BitVec.xor_self] at heq
    exact .inl ⟨ha0, h.injective hsep hb hc (BitVec.xor_eq_zero_iff.mp heq.symm)⟩
  by_cases hb0 : b = 0
  · rw [hb0] at heq
    exact .inr (.inl ⟨hb0, h.injective hsep ha hc (hcancel _ _ heq)⟩)
  by_cases hc0 : c = 0
  · rw [hc0, BitVec.xor_comm (T^[b] one)] at heq
    exact .inr (.inr ⟨hc0, h.injective hsep ha hb (hcancel _ _ heq)⟩)
  -- the sum of two other words was looked up
  exfalso
  have hsum (b c : ℕ) (hb0 : b ≠ 0) (hc : c ≤ later.length) (hbc : b < c) :
      (T^[b] one ^^^ T^[c] one).toNat ∈ 0 :: 1 :: later ++ pairSums later := by
    rw [BitVec.toNat_xor]
    have hmem := mem_pairSums (show b - 1 < c - 1 by omega)
      (h.getElem? (Nat.pos_of_ne_zero hb0) (by omega)) (h.getElem? (by omega) hc)
    simp [hmem]
  obtain hbc | rfl | hcb := lt_trichotomy b c
  · exact h.ne_of_mem hsep (hsum b c hb0 hc hbc) (Nat.pos_of_ne_zero ha0) ha
      (congrArg BitVec.toNat heq)
  · rw [BitVec.xor_self] at heq
    exact h.ne_one hsep (Nat.pos_of_ne_zero ha0) ha (BitVec.xor_eq_zero_iff.mp heq).symm
  · rw [BitVec.xor_comm (T^[b] one)] at heq
    exact h.ne_of_mem hsep (hsum c b hc0 hb hcb) (Nat.pos_of_ne_zero ha0) ha
      (congrArg BitVec.toNat heq)

/-- Shifting back the four terms of a sum until the least exponent is zero. -/
theorem Words.four_terms_least (h : Words T one later) (hsep : Separated m later) {a b c e : ℕ}
    (ha : a ≤ later.length) (hb : b ≤ later.length) (hc : c ≤ later.length)
    (hea : e ≤ a) (heb : e ≤ b) (hec : e ≤ c)
    (heq : T^[e] one ^^^ T^[a] one = T^[b] one ^^^ T^[c] one) :
    (a = e ∧ b = c) ∨ (b = e ∧ a = c) ∨ (c = e ∧ a = b) := by
  have hback (n : ℕ) (hn : e ≤ n) : T^[n] one = T^[e] (T^[n - e] one) := by
    rw [← Function.iterate_add_apply, Nat.add_sub_cancel' hn]
  rw [hback a hea, hback b heb, hback c hec, ← h.iterate_xor, ← h.iterate_xor,
    ← BitVec.xor_eq_zero_iff, ← h.iterate_xor] at heq
  have hone := BitVec.xor_eq_zero_iff.mp (h.iterate_kernel heq)
  obtain hcase | hcase | hcase := h.four_terms_one hsep (by omega) (by omega) (by omega) hone
  · left; omega
  · right; left; omega
  · right; right; omega

/-- **Four words cancel only in pairs.** -/
theorem Words.four_terms (h : Words T one later) (hsep : Separated m later) {a b c e : ℕ}
    (ha : a ≤ later.length) (hb : b ≤ later.length) (hc : c ≤ later.length)
    (he : e ≤ later.length) (heq : T^[e] one ^^^ T^[a] one = T^[b] one ^^^ T^[c] one) :
    (a = e ∧ b = c) ∨ (b = e ∧ a = c) ∨ (c = e ∧ a = b) := by
  have hleast : (e ≤ a ∧ e ≤ b ∧ e ≤ c) ∨ (a ≤ e ∧ a ≤ b ∧ a ≤ c) ∨
      (b ≤ e ∧ b ≤ a ∧ b ≤ c) ∨ (c ≤ e ∧ c ≤ a ∧ c ≤ b) := by
    omega
  obtain ⟨h₁, h₂, h₃⟩ | ⟨h₁, h₂, h₃⟩ | ⟨h₁, h₂, h₃⟩ | ⟨h₁, h₂, h₃⟩ := hleast
  · exact h.four_terms_least hsep ha hb hc h₁ h₂ h₃ heq
  · rw [BitVec.xor_comm (T^[e] one)] at heq
    obtain hcase | hcase | hcase := h.four_terms_least hsep he hb hc h₁ h₂ h₃ heq
    all_goals omega
  · obtain hcase | hcase | hcase := h.four_terms_least hsep hc he ha h₃ h₁ h₂ heq.symm
    all_goals omega
  · rw [BitVec.xor_comm (T^[b] one)] at heq
    obtain hcase | hcase | hcase := h.four_terms_least hsep hb he ha h₃ h₁ h₂ heq.symm
    all_goals omega

/-- **Three words never cancel.** -/
theorem Words.three_terms (h : Words T one later) (hsep : Separated m later) {a b c : ℕ}
    (ha : a ≤ later.length) (hb : b ≤ later.length) (hc : c ≤ later.length) :
    T^[a] one ^^^ T^[b] one ≠ T^[c] one := by
  have hleast (a b c : ℕ) (hb : b ≤ later.length) (hc : c ≤ later.length) (hab : a ≤ b)
      (hac : a ≤ c) : T^[a] one ^^^ T^[b] one ≠ T^[c] one := by
    intro heq
    have hback (n : ℕ) (hn : a ≤ n) : T^[n] one = T^[a] (T^[n - a] one) := by
      rw [← Function.iterate_add_apply, Nat.add_sub_cancel' hn]
    rw [hback b hab, hback c hac, ← h.iterate_xor, ← BitVec.xor_eq_zero_iff, ← h.iterate_xor] at heq
    exact h.three_terms_one hsep (by omega) (by omega)
      (BitVec.xor_eq_zero_iff.mp (h.iterate_kernel heq))
  intro heq
  have hcases : (a ≤ b ∧ a ≤ c) ∨ (b ≤ a ∧ b ≤ c) ∨ (c ≤ a ∧ c ≤ b) := by omega
  obtain ⟨h₁, h₂⟩ | ⟨h₁, h₂⟩ | ⟨h₁, h₂⟩ := hcases
  · exact hleast a b c hb hc h₁ h₂ heq
  · exact hleast b a c ha hc h₁ h₂ (by rw [BitVec.xor_comm]; exact heq)
  · refine hleast c b a hb ha h₂ h₁ ?_
    rw [← heq, BitVec.xor_assoc, BitVec.xor_self, BitVec.xor_zero]

end

end ShiftCode
