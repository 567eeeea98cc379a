import EzSdr.Framework.CyclicField
import EzSdr.Framework.KeyEquation
import EzSdr.Uat.Fec

/-! # The Field of the UAT Codes

    The tables of powers and logarithms are those of a register of full period,
    so bytes under exclusive or are a field in which the tables multiply. A byte
    stands for an element of this field, a logarithm for a power of its
    generator, and a list of bytes for a polynomial. -/

namespace Uat

open Polynomial

/-! ## Section 1: The tables -/

namespace Gf

/-- The value that is entered as the power `k`. -/
def word (k : ℕ) : ℕ := double^[k] 1

/-- `double` is the shift of a register. -/
theorem double_eq : ∀ b : Fin 256, double b.val =
    (BinaryPolynomial.shiftRegister 0x87#8 (BitVec.ofNat 8 b.val)).toNat := by
  decide +kernel

theorem word_FIELD : word FIELD = 1 := by
  decide +kernel

/-- The register does not return before its period. -/
theorem word_ne_one : ∀ k < 254, word (k + 1) ≠ 1 := by
  decide +kernel

theorem word_succ (k : ℕ) : word (k + 1) = double (word k) := Function.iterate_succ_apply' ..

theorem word_add (n k : ℕ) : word (n + k) = double^[n] (word k) := Function.iterate_add_apply ..

theorem word_lt (k : ℕ) : word k < 256 := by
  cases k with
  | zero => exact Nat.one_lt_two_pow (n := 8) (by norm_num)
  | succ k =>
    rw [word_succ]
    exact Nat.and_lt_two_pow (n := 8) _ (by norm_num)

/-- Were two values equal, the register would return early. -/
theorem word_ne {i j : ℕ} (hij : i < j) (hj : j < FIELD) : word i ≠ word j := by
  intro h
  have hearly : word (FIELD - j + i) = 1 := by
    rw [word_add, h, ← word_add, Nat.sub_add_cancel hj.le, word_FIELD]
  have hlt : FIELD - j + i - 1 < 254 := by
    unfold FIELD at *
    omega
  apply word_ne_one _ hlt
  rwa [Nat.sub_add_cancel (by omega)]

/-- Nor can it die. -/
theorem word_ne_zero {k : ℕ} (hk : k < FIELD) : word k ≠ 0 := by
  intro h
  have hdead : word FIELD = 0 := by
    rw [← Nat.sub_add_cancel hk.le, word_add, h]
    exact Function.iterate_fixed rfl _
  rw [word_FIELD] at hdead
  cases hdead

/-- The empty tables. -/
def blank : Gf × ℕ := (⟨List.replicate 256 0, List.replicate 256 A0⟩, 1)

/-- The tables after the powers below `n` have been entered. -/
structure Filled (n : ℕ) (t : Gf × ℕ) : Prop where
  value        : t.2 = word n
  length_alpha : t.1.alpha.length = 256
  length_index : t.1.index.length = 256
  alpha        : ∀ k < n, t.1.alpha.getD k 0 = (word k).toUInt8
  index        : ∀ k < n, t.1.index.getD (word k) A0 = k
  /-- What is not a power has no logarithm. -/
  rest         : ∀ b, (∀ k < n, word k ≠ b) → t.1.index.getD b A0 = A0

theorem Filled.fill {n : ℕ} {t : Gf × ℕ} (h : Filled n t) (hn : n < FIELD) :
    Filled (n + 1) (fill t n) := by
  have hplace : n < t.1.alpha.length := by
    rw [h.length_alpha]
    exact hn.trans (by decide)
  have hindex : word n < t.1.index.length := h.length_index ▸ word_lt n
  have hset : (Gf.fill t n).1.index = t.1.index.set (word n) n := by
    rw [← h.value]
    rfl
  have halpha : (Gf.fill t n).1.alpha = t.1.alpha.set n (word n).toUInt8 := by
    rw [← h.value]
    rfl
  constructor
  case value => rw [word_succ, ← h.value]; rfl
  case length_alpha => rw [halpha, List.length_set, h.length_alpha]
  case length_index => rw [hset, List.length_set, h.length_index]
  case alpha =>
    intro k hk
    rw [halpha, List.getD_eq_getElem?_getD, List.getElem?_set]
    rcases Nat.lt_succ_iff_lt_or_eq.1 hk with hlt | rfl
    · rw [if_neg hlt.ne', ← List.getD_eq_getElem?_getD, h.alpha k hlt]
    · rw [if_pos rfl, if_pos hplace]
      rfl
  case index =>
    intro k hk
    rw [hset, List.getD_eq_getElem?_getD, List.getElem?_set]
    rcases Nat.lt_succ_iff_lt_or_eq.1 hk with hlt | rfl
    · rw [if_neg (word_ne hlt hn).symm, ← List.getD_eq_getElem?_getD, h.index k hlt]
    · rw [if_pos rfl, if_pos hindex]
      rfl
  case rest =>
    intro b hb
    rw [hset, List.getD_eq_getElem?_getD, List.getElem?_set,
      if_neg (hb n (Nat.lt_succ_self n)), ← List.getD_eq_getElem?_getD]
    exact h.rest b fun k hk => hb k (hk.trans (Nat.lt_succ_self n))

theorem filled_blank : Filled 0 blank where
  value := rfl
  length_alpha := List.length_replicate
  length_index := List.length_replicate
  alpha := fun k hk => absurd hk (Nat.not_lt_zero k)
  index := fun k hk => absurd hk (Nat.not_lt_zero k)
  rest := by
    intro b _
    unfold blank
    rw [List.getD_eq_getElem?_getD, List.getElem?_replicate]
    split
    · rfl
    · rfl

theorem filled (n : ℕ) (hn : n ≤ FIELD) : Filled n ((List.range n).foldl Gf.fill blank) := by
  induction n with
  | zero => exact filled_blank
  | succ n ih =>
    rw [List.range_succ, List.foldl_concat]
    exact (ih (Nat.le_of_succ_le hn)).fill hn

/-- All powers have been entered. -/
theorem filled_new : ∃ t, Filled FIELD t ∧ Gf.new.alpha = t.1.alpha.set FIELD 0 ∧
    Gf.new.index = t.1.index := by
  refine ⟨_, filled FIELD le_rfl, ?_, ?_⟩
  · simp only [Gf.new, blank]
  · simp only [Gf.new, blank]

theorem pow_eq {n : ℕ} (hn : n < FIELD) : Gf.new.pow n = (word n).toUInt8 := by
  obtain ⟨t, hfilled, halpha, -⟩ := filled_new
  unfold Gf.pow
  rw [Nat.mod_eq_of_lt hn, ← hfilled.alpha n hn, halpha, List.getD_eq_getElem?_getD,
    List.getElem?_set, if_neg hn.ne', ← List.getD_eq_getElem?_getD]

theorem index_word {n : ℕ} (hn : n < FIELD) : Gf.new.index.getD (word n) A0 = n := by
  obtain ⟨t, hfilled, -, hindex⟩ := filled_new
  rw [hindex, hfilled.index n hn]

theorem index_zero : Gf.new.index.getD 0 A0 = A0 := by
  obtain ⟨t, hfilled, -, hindex⟩ := filled_new
  rw [hindex, hfilled.rest 0 fun _ hk => word_ne_zero hk]

/-- All values but zero are entered. -/
theorem exists_word {b : ℕ} (hb : b ≠ 0) (hlt : b < 256) : ∃ k < FIELD, word k = b := by
  have hinj : Set.InjOn word (Finset.range FIELD) := by
    intro i hi j hj h
    rw [Finset.coe_range, Set.mem_Iio] at hi hj
    rcases lt_trichotomy i j with hij | hij | hij
    · exact absurd h (word_ne hij hj)
    · exact hij
    · exact absurd h.symm (word_ne hij hi)
  have hmaps : ∀ k ∈ Finset.range FIELD, word k ∈ Finset.Ioo 0 256 := by
    intro k hk
    rw [Finset.mem_Ioo]
    exact ⟨Nat.pos_of_ne_zero (word_ne_zero (Finset.mem_range.1 hk)), word_lt k⟩
  have hcard : (Finset.Ioo 0 256).card ≤ (Finset.range FIELD).card := by
    rw [Nat.card_Ioo, Finset.card_range]
    exact le_rfl
  obtain ⟨k, hk, hword⟩ := Finset.surjOn_of_injOn_of_card_le word hmaps hinj hcard
    (Finset.mem_coe.2 (Finset.mem_Ioo.2 ⟨Nat.pos_of_ne_zero hb, hlt⟩))
  exact ⟨k, Finset.mem_range.1 hk, hword⟩

end Gf

theorem log_zero : Gf.new.log 0 = A0 := Gf.index_zero

/-- A byte that is not zero is the power of its logarithm. -/
theorem log_spec {b : UInt8} (h : b ≠ 0) :
    Gf.new.log b < FIELD ∧ Gf.new.pow (Gf.new.log b) = b := by
  have hne : b.toNat ≠ 0 := fun hzero => h (UInt8.toNat_inj.1 hzero)
  obtain ⟨k, hk, hword⟩ := Gf.exists_word hne b.toNat_lt
  have hlog : Gf.new.log b = k := by
    unfold Gf.log
    rw [← hword, Gf.index_word hk]
  rw [hlog, Gf.pow_eq hk, hword]
  exact ⟨hk, UInt8.ofNat_toNat⟩

theorem log_lt {b : UInt8} (h : b ≠ 0) : Gf.new.log b < FIELD := (log_spec h).1

theorem pow_log {b : UInt8} (h : b ≠ 0) : Gf.new.pow (Gf.new.log b) = b := (log_spec h).2

theorem log_eq_A0 {b : UInt8} : Gf.new.log b = A0 ↔ b = 0 := by
  constructor
  · intro hlog
    by_contra h
    exact (log_lt h).ne hlog
  · rintro rfl
    exact log_zero

theorem log_pow {n : ℕ} (hn : n < FIELD) : Gf.new.log (Gf.new.pow n) = n := by
  have hbyte : (Gf.word n).toUInt8.toNat = Gf.word n := UInt8.toNat_ofNat_of_lt (Gf.word_lt n)
  unfold Gf.log
  rw [Gf.pow_eq hn, hbyte, Gf.index_word hn]

theorem pow_zero_eq : Gf.new.pow 0 = 1 := Gf.pow_eq (Nat.succ_pos 254)

theorem pow_bits {n : ℕ} (hn : n < FIELD) :
    (Gf.new.pow n).toBitVec = BitVec.ofNat 8 (Gf.word n) := by
  rw [Gf.pow_eq hn]
  rfl

theorem pow_mod (n : ℕ) : Gf.new.pow (n % FIELD) = Gf.new.pow n := by
  unfold Gf.pow
  rw [Nat.mod_mod]

theorem pow_FIELD : Gf.new.pow FIELD = 1 := by
  rw [← pow_mod, Nat.mod_self, pow_zero_eq]

theorem pow_succ_bits (n : ℕ) : (Gf.new.pow (n + 1)).toBitVec =
    BinaryPolynomial.shiftRegister 0x87#8 (Gf.new.pow n).toBitVec := by
  have hn : n % FIELD < FIELD := Nat.mod_lt n (Nat.succ_pos 254)
  have hdouble := Gf.double_eq ⟨Gf.word (n % FIELD), Gf.word_lt _⟩
  have hword : Gf.word (n % FIELD + 1) = Gf.double (Gf.word (n % FIELD)) := Gf.word_succ _
  have hnext : (Gf.new.pow (n % FIELD + 1)).toBitVec =
      BitVec.ofNat 8 (Gf.word (n % FIELD + 1)) := by
    rcases Nat.lt_or_ge (n % FIELD + 1) FIELD with hlt | hge
    · exact pow_bits hlt
    · rw [le_antisymm hn hge, pow_FIELD, Gf.word_FIELD]
      rfl
  rw [← pow_mod n, ← pow_mod (n + 1), ← Nat.mod_add_mod, pow_mod, hnext, hword, hdouble,
    pow_bits hn, BitVec.ofNat_toNat, BitVec.setWidth_eq]

/-! ## Section 2: The field -/

theorem iterate_shift (n : ℕ) : (XorWord.shift 0x87#8)^[n] ⟨1⟩ = ⟨(Gf.new.pow n).toBitVec⟩ := by
  induction n with
  | zero =>
    rw [pow_zero_eq]
    rfl
  | succ n ih =>
    rw [Function.iterate_succ_apply', ih, pow_succ_bits, XorWord.shift_apply]

/-- The register of the codes runs through all bytes but zero. -/
def register : FullRegister (XorWord 8) where
  next := XorWord.shift 0x87#8
  one := ⟨1⟩
  nonzero := fun h => by cases h
  reaches := by
    rintro ⟨bits⟩ hbits
    have hne : UInt8.ofBitVec bits ≠ 0 := fun h => hbits (XorWord.ext (congrArg UInt8.toBitVec h))
    exact ⟨Gf.new.log (.ofBitVec bits), by rw [iterate_shift, pow_log hne]⟩
  returns := ⟨254, by
    rw [iterate_shift, show 254 + 1 = FIELD from rfl, pow_FIELD]
    rfl⟩

abbrev Symbol : Type := register.Element

/-- The field element of a byte. -/
def sym (b : UInt8) : Symbol := ⟨⟨b.toBitVec⟩⟩

noncomputable def α : Symbol := register.generator

theorem sym_injective {a b : UInt8} (h : sym a = sym b) : a = b := by
  cases a
  cases b
  cases h
  rfl

@[simp] theorem sym_zero : sym 0 = 0 := rfl

@[simp] theorem sym_one : sym 1 = 1 := rfl

@[simp] theorem sym_xor (a b : UInt8) : sym (a ^^^ b) = sym a + sym b := rfl

theorem sym_eq_zero {b : UInt8} : sym b = 0 ↔ b = 0 :=
  ⟨fun h => sym_injective h, fun h => h ▸ sym_zero⟩

instance : CharP Symbol 2 := by
  apply CharTwo.of_one_ne_zero_of_two_eq_zero one_ne_zero
  rw [← one_add_one_eq_two, ← sym_one, ← sym_xor]
  rfl

@[simp] theorem sym_pow (n : ℕ) : sym (Gf.new.pow n) = α ^ n := by
  rw [α, FullRegister.generator_pow]
  exact FullRegister.Element.ext (iterate_shift n).symm

theorem α_ne_zero : α ≠ 0 := FullRegister.generator_ne_zero register

theorem α_pow_FIELD : α ^ FIELD = 1 := by
  rw [← sym_pow, pow_FIELD, sym_one]

theorem α_pow_mod (n : ℕ) : α ^ (n % FIELD) = α ^ n := (pow_eq_pow_mod n α_pow_FIELD).symm

theorem sym_log {b : UInt8} (h : b ≠ 0) : α ^ Gf.new.log b = sym b := by
  rw [← sym_pow, pow_log h]

/-- Powers below the period are distinct. -/
theorem α_pow_injOn : Set.InjOn (α ^ ·) {n | n < FIELD} := by
  intro n hn m hm h
  have hbytes : Gf.new.pow n = Gf.new.pow m := by
    apply sym_injective
    rw [sym_pow, sym_pow]
    exact h
  rw [← log_pow hn, hbytes, log_pow hm]

/-! ## Section 3: Logarithms -/

/-- The element of a logarithm, where `A0` is the logarithm of zero. -/
noncomputable def ofLog (n : ℕ) : Symbol := if n = A0 then 0 else α ^ n

@[simp] theorem ofLog_A0 : ofLog A0 = 0 := if_pos rfl

theorem ofLog_of_ne {n : ℕ} (h : n ≠ A0) : ofLog n = α ^ n := if_neg h

theorem ofLog_log (b : UInt8) : ofLog (Gf.new.log b) = sym b := by
  by_cases h : b = 0
  · rw [h, log_zero, ofLog_A0, sym_zero]
  · rw [ofLog_of_ne (log_lt h).ne, sym_log h]

/-- A difference of logarithms, made positive with the period. -/
theorem α_pow_sub {n m : ℕ} (hm : m ≤ FIELD) : α ^ (n + FIELD - m) = α ^ n / α ^ m := by
  rw [eq_div_iff (pow_ne_zero m α_ne_zero), ← pow_add,
    Nat.sub_add_cancel (hm.trans (Nat.le_add_left FIELD n)), pow_add, α_pow_FIELD, mul_one]

theorem ofLog_div {n m : ℕ} (hm : m ≤ FIELD) : ofLog ((n + FIELD - m) % FIELD) = α ^ n / α ^ m := by
  have hlt : (n + FIELD - m) % FIELD < FIELD := Nat.mod_lt _ (Nat.succ_pos 254)
  rw [ofLog_of_ne hlt.ne, α_pow_mod, α_pow_sub hm]

/-! ## Section 4: Sums -/

/-- A loop that adds some bytes up. -/
theorem sym_foldl {ι : Type*} {p : ι → Prop} [DecidablePred p] {f : ι → UInt8} (l : List ι)
    (a : UInt8) : sym (l.foldl (fun sum i => if p i then sum ^^^ f i else sum) a) =
      sym a + (l.map fun i => if p i then sym (f i) else 0).sum := by
  induction l generalizing a with
  | nil => simp
  | cons i l ih =>
    rw [List.foldl_cons, ih, List.map_cons, List.sum_cons]
    split
    · rw [sym_xor, add_assoc]
    · rw [zero_add]

end Uat
