import EzSdr.Lrpt.ReedSolomon
import EzSdr.Uat.ReedSolomon

/-! # Transport Frames

    A transport frame is four interleaved code words, with a pseudo-random sequence
    added. The encoder is the one the receiver is tested against. -/

namespace Lrpt

open Checked Gf256
open Uat (Symbol sym α value)

/-! ## Section 1: The encoder -/

/-- One coefficient of a product. -/
def addProduct (out : List UInt8) (position : ℕ) (a b : UInt8) : Checked (List UInt8) := do
  let x ← index out position
  let y ← gfMul a b
  pure (out.set position (x ^^^ y))

/-- A multiple of a polynomial added to the coefficients from a position on. -/
def addMultiple (out : List UInt8) (position : ℕ) (factor : UInt8) (b : List UInt8) :
    Checked (List UInt8) :=
  b.zipIdx.foldlM (fun out (y, j) => addProduct out (position + j) factor y) out

def mulPoly (a b : List UInt8) : Checked (List UInt8) := do
  let n ← sub (a.length + b.length) 1
  let out ← a.zipIdx.foldlM (fun out (x, i) => addMultiple out i x b) (List.replicate n 0)
  pure (trim out)

def generator : Checked (List UInt8) :=
  (List.range RS_PARITY_LEN).foldlM (fun g i => do
    let x ← root i
    mulPoly g [1, x]) [1]

/-- One step of the division by the generator. -/
def divideStep (g work : List UInt8) (i : ℕ) : Checked (List UInt8) := do
  let factor ← index work i
  if factor ≠ 0 then addMultiple work i factor g else pure work

/-- The data, and the remainder of its division by the generator. -/
def encodeCodeword (data : List UInt8) : Checked (List UInt8) := do
  let g ← generator
  let work ← (List.range RS_DATA_LEN).foldlM (divideStep g)
    (data ++ List.replicate RS_PARITY_LEN 0)
  pure (data ++ work.drop RS_DATA_LEN)

/-! ## Section 2: The tables multiply -/

theorem double_eq : ∀ x : Fin 256, double x.val = Uat.Gf.double x.val := by
  decide +kernel

/-- The tables after the powers below `n` have been entered. -/
structure Filled (n : ℕ) (s : Gf256 × ℕ) : Prop where
  value      : s.2 = Uat.Gf.word n
  length_exp : s.1.exp.length = FIELD_SIZE * 2
  length_log : s.1.log.length = 256
  exp        : ∀ k < n, s.1.exp.getD k 0 = (Uat.Gf.word k).toUInt8
  log        : ∀ k < n, s.1.log.getD (Uat.Gf.word k) 0 = k.toUInt8

theorem Filled.fill {n : ℕ} {s : Gf256 × ℕ} (h : Filled n s) (hn : n < FIELD_SIZE) :
    Filled (n + 1) (fill s n) := by
  obtain ⟨gf, x⟩ := s
  obtain rfl : x = Uat.Gf.word n := h.value
  have hplace : n < gf.exp.length := by
    rw [h.length_exp]
    omega
  have hindex : Uat.Gf.word n < gf.log.length := h.length_log ▸ Uat.Gf.word_lt n
  constructor
  case value =>
    rw [Uat.Gf.word_succ]
    exact double_eq ⟨Uat.Gf.word n, Uat.Gf.word_lt n⟩
  case length_exp => exact List.length_set.trans h.length_exp
  case length_log => exact List.length_set.trans h.length_log
  case exp =>
    intro k hk
    show (gf.exp.set n _).getD k 0 = _
    rw [Uat.getD_set]
    rcases Nat.lt_succ_iff_lt_or_eq.1 hk with hlt | rfl
    · rw [if_neg (by omega), h.exp k hlt]
    · rw [if_pos ⟨rfl, hplace⟩]
  case log =>
    intro k hk
    show (gf.log.set _ _).getD _ 0 = _
    rw [Uat.getD_set]
    rcases Nat.lt_succ_iff_lt_or_eq.1 hk with hlt | rfl
    · have hne : Uat.Gf.word n ≠ Uat.Gf.word k := (Uat.Gf.word_ne hlt hn).symm
      rw [if_neg fun h => hne h.1, h.log k hlt]
    · rw [if_pos ⟨rfl, hindex⟩]

theorem filled (n : ℕ) (hn : n ≤ FIELD_SIZE) : Filled n ((List.range n).foldl Gf256.fill
    (⟨List.replicate (FIELD_SIZE * 2) 0, List.replicate 256 255⟩, 1)) := by
  induction n with
  | zero =>
    exact ⟨rfl, List.length_replicate, List.length_replicate,
      fun k hk => absurd hk (Nat.not_lt_zero k), fun k hk => absurd hk (Nat.not_lt_zero k)⟩
  | succ n ih =>
    rw [List.range_succ, List.foldl_concat]
    exact (ih (Nat.le_of_succ_le hn)).fill hn

/-- The powers below `FIELD_SIZE + n`, when the first are there already. -/
theorem getD_repeated {gf : Gf256} (hlength : gf.exp.length = FIELD_SIZE * 2)
    (hexp : ∀ k < FIELD_SIZE, gf.exp.getD k 0 = (Uat.Gf.word k).toUInt8) (n : ℕ)
    (hn : n ≤ FIELD_SIZE) : ∀ k < FIELD_SIZE + n,
      ((List.range' FIELD_SIZE n).foldl repeated gf).exp.getD k 0 =
        (Uat.Gf.word (k % FIELD_SIZE)).toUInt8 := by
  induction n with
  | zero =>
    intro k hk
    rw [List.range'_zero, List.foldl_nil, hexp k hk, Nat.mod_eq_of_lt (by omega)]
  | succ n ih =>
    intro k hk
    rw [List.range'_1_concat, List.foldl_concat]
    have hlen := (length_repeated (List.range' FIELD_SIZE n) gf).1.trans hlength
    have hold := ih (Nat.le_of_succ_le hn)
    show (List.set _ _ _).getD k 0 = _
    rw [Uat.getD_set]
    by_cases hlast : FIELD_SIZE + n = k
    · rw [if_pos ⟨hlast, by omega⟩, Nat.add_sub_cancel_left, hold n (by omega), ← hlast,
        Nat.add_mod_left]
    · rw [if_neg fun h => hlast h.1, hold k (by omega)]

/-- The powers are those of the generator of the field. -/
theorem sym_exp {n : ℕ} (hn : n < 2 * FIELD_SIZE) : sym (tables.exp.getD n 0) = α ^ n := by
  have hfilled := filled FIELD_SIZE le_rfl
  have hmod : n % FIELD_SIZE < FIELD_SIZE := Nat.mod_lt n (by decide)
  unfold tables
  rw [getD_repeated hfilled.length_exp hfilled.exp FIELD_SIZE le_rfl n (by omega),
    ← Uat.Gf.pow_eq hmod, Uat.sym_pow]
  exact Uat.α_pow_mod n

/-- The table of logarithms inverts that of powers. -/
theorem log_word {k : ℕ} (hk : k < FIELD_SIZE) :
    tables.log.getD (Uat.Gf.word k) 0 = k.toUInt8 := by
  unfold tables
  rw [(length_repeated _ _).2]
  exact (filled FIELD_SIZE le_rfl).log k hk

theorem returns_getD {list : List UInt8} {i : ℕ} (h : i < list.length) :
    Returns (index list i) fun x => x = list.getD i 0 := by
  unfold index
  rw [List.getElem?_eq_getElem h, List.getD_eq_getElem _ _ h]
  exact ⟨_, rfl, rfl⟩

theorem returns_log {a : UInt8} (h : a ≠ 0) :
    Returns (index tables.log a.toNat) fun x => x.toNat < FIELD_SIZE ∧ α ^ x.toNat = sym a := by
  have hpos : a.toNat ≠ 0 := fun hzero => h (UInt8.toNat.inj hzero)
  obtain ⟨k, hk, hword⟩ := Uat.Gf.exists_word hpos a.toNat_lt
  have hsmall : k < FIELD_SIZE := hk
  refine (returns_getD (show a.toNat < tables.log.length by
    rw [length_log]; exact a.toNat_lt)).imp ?_
  rintro x rfl
  have hbyte : k.toUInt8.toNat = k := UInt8.toNat_ofNat_of_lt (hsmall.trans (by decide))
  rw [← hword, log_word hsmall, hbyte]
  refine ⟨hsmall, ?_⟩
  rw [← Uat.sym_pow, Uat.Gf.pow_eq hk, hword]
  exact congrArg sym UInt8.ofNat_toNat

/-- The product of the tables is the product of the field. -/
theorem returns_gfMul (a b : UInt8) : Returns (gfMul a b) fun c => sym c = sym a * sym b := by
  unfold gfMul
  refine returns_ite (fun hzero => ?_) fun hne => ?_
  · refine returns_pure ?_
    rcases hzero with rfl | rfl
    · rw [Uat.sym_zero, zero_mul]
    · rw [Uat.sym_zero, mul_zero]
  rw [not_or] at hne
  refine (returns_log hne.1).bind fun x hx => (returns_log hne.2).bind fun y hy => ?_
  refine (returns_getD (by rw [length_exp]; omega)).imp ?_
  rintro c rfl
  rw [sym_exp (by omega), pow_add, hx.2, hy.2]

theorem returns_gfAlpha (n : ℕ) : Returns (gfAlpha n) fun x => sym x = α ^ n := by
  have hlt := Nat.mod_lt n (show 0 < FIELD_SIZE by decide)
  refine (returns_getD (by rw [length_exp]; omega)).imp ?_
  rintro x rfl
  rw [sym_exp (by omega)]
  exact Uat.α_pow_mod n

/-- The place of root `i`. -/
noncomputable def rootAt (i : ℕ) : Symbol := α ^ ((FIRST_ROOT + i) * PRIMITIVE_STEP)

theorem returns_root (i : ℕ) : Returns (root i) fun x => sym x = rootAt i := returns_gfAlpha _

/-! ## Section 3: Code words -/

theorem returns_evalPoly (p : List UInt8) {x : UInt8} :
    Returns (evalPoly p x) fun y => sym y = value (sym x) p := by
  unfold evalPoly
  induction p using List.reverseRecOn with
  | nil => exact returns_pure rfl
  | append_singleton p c ih =>
    rw [List.foldlM_append]
    refine ih.bind fun y hy => ?_
    rw [List.foldlM_cons]
    obtain ⟨z, hz, hsym⟩ := returns_gfMul y x
    rw [hz]
    refine returns_pure ?_
    rw [Uat.sym_xor, hsym, hy, Uat.value_append]

/-- The syndromes of a code word vanish. -/
theorem syndromes_eq_zero {word : List UInt8}
    (h : ∀ i < RS_PARITY_LEN, value (rootAt i) word = 0) :
    syndromes word = .ok (List.replicate RS_PARITY_LEN 0) := by
  have hmap : Returns (syndromes word)
      (List.Forall₂ (fun _ y => y = 0) (List.range RS_PARITY_LEN)) := by
    refine returns_mapM fun i hi => (returns_root i).bind fun x hx => ?_
    refine (returns_evalPoly word).imp fun y hy => ?_
    rw [hx, h i (List.mem_range.1 hi)] at hy
    exact Uat.sym_eq_zero.1 hy
  obtain ⟨s, hs, hall⟩ := hmap
  have hzeros : s = List.replicate RS_PARITY_LEN 0 := by
    rw [List.eq_replicate_iff]
    refine ⟨by rw [← hall.length_eq, List.length_range], fun y hy => ?_⟩
    obtain ⟨i, hi, rfl⟩ := List.getElem_of_mem hy
    exact hall.get (hall.length_eq ▸ hi) hi
  rw [hs, hzeros]

/-! ## Section 4: Adding multiples -/

theorem value_append_list (x : Symbol) (a b : List UInt8) :
    value x (a ++ b) = value x a * x ^ b.length + value x b := by
  induction b using List.reverseRecOn with
  | nil => simp [value]
  | append_singleton b c ih =>
    rw [← List.append_assoc, Uat.value_append, ih, Uat.value_append, List.length_append,
      List.length_singleton]
    ring

theorem value_cons (x : Symbol) (c : UInt8) (p : List UInt8) :
    value x (c :: p) = sym c * x ^ p.length + value x p := by
  rw [← List.singleton_append, value_append_list]
  simp [value]

theorem value_zeros (x : Symbol) (n : ℕ) : value x (List.replicate n 0) = 0 := by
  induction n with
  | zero => rfl
  | succ n ih => rw [List.replicate_succ, value_cons, ih, Uat.sym_zero, zero_mul, zero_add]

theorem value_xor {word : List UInt8} {j : ℕ} (hj : j < word.length) (a : UInt8) (x : Symbol) :
    value x (word.set j (word.getD j 0 ^^^ a)) =
      value x word + sym a * x ^ (word.length - 1 - j) := by
  by_cases ha : a = 0
  · rw [ha, UInt8.xor_zero, Uat.sym_zero, zero_mul, add_zero, List.getD_eq_getElem _ _ hj,
      List.set_getElem_self]
  · exact Uat.value_set hj ha x

/-- What adding a multiple does to a word. -/
structure Added (word : List UInt8) (position : ℕ) (factor : UInt8) (b out : List UInt8) : Prop where
  length : out.length = word.length
  value  : ∀ x, value x out = value x word +
    sym factor * value x b * x ^ (word.length - position - b.length)
  below  : ∀ k < position, out.getD k 0 = word.getD k 0
  first  : b ≠ [] → sym (out.getD position 0) =
    sym (word.getD position 0) + sym factor * sym (b.headD 0)

theorem returns_addProduct {word : List UInt8} {position : ℕ} (h : position < word.length)
    (factor y : UInt8) :
    Returns (addProduct word position factor y) (Added word position factor [y]) := by
  refine (returns_getD h).bind fun x hx => (returns_gfMul factor y).bind fun z hz => ?_
  subst hx
  refine returns_pure ⟨List.length_set, fun x => ?_, fun k hk => ?_, fun _ => ?_⟩
  · rw [value_xor h, hz, value_cons, show word.length - position - [y].length =
      word.length - 1 - position by rw [List.length_singleton]; omega]
    simp [value]
  · rw [Uat.getD_set, if_neg (by omega)]
  · rw [Uat.getD_set, if_pos ⟨rfl, h⟩, Uat.sym_xor, hz, List.headD_cons]

theorem returns_addMultiple {b word : List UInt8} {position : ℕ}
    (h : position + b.length ≤ word.length) (factor : UInt8) :
    Returns (addMultiple word position factor b) (Added word position factor b) := by
  unfold addMultiple
  -- the loop at entry `n`, with the rest of the coefficients still to add
  have hloop (n : ℕ) (h : position + n + b.length ≤ word.length) :
      Returns ((b.zipIdx n).foldlM (fun out (y, j) => addProduct out (position + j) factor y) word)
        (Added word (position + n) factor b) := by
    clear * - h
    induction b generalizing word n with
    | nil => exact returns_pure ⟨rfl, fun x => by simp [value], fun _ _ => rfl, fun hne => absurd rfl hne⟩
    | cons y b ih =>
      rw [List.length_cons] at h
      rw [List.zipIdx_cons, List.foldlM_cons]
      refine (returns_addProduct (by omega) factor y).bind fun next hnext => ?_
      have hlength := hnext.length
      refine (ih (n + 1) (by omega)).imp fun out hout => ?_
      constructor
      case length => rw [hout.length, hlength]
      case value =>
        intro x
        have hsplit : word.length - (position + n) - [y].length =
            b.length + (next.length - (position + (n + 1)) - b.length) := by
          rw [hlength, List.length_singleton]
          omega
        rw [hout.value, hnext.value, value_cons, value_cons, hsplit, pow_add,
          show word.length - (position + n) - (y :: b).length =
            next.length - (position + (n + 1)) - b.length by
              rw [hlength, List.length_cons]; omega]
        simp only [value, List.foldl_nil, List.length_nil, pow_zero]
        ring
      case below =>
        intro k hk
        rw [hout.below k (by omega), hnext.below k hk]
      case first =>
        intro _
        rw [hout.below _ (by omega), hnext.first (List.cons_ne_nil _ _)]
        rfl
  exact hloop 0 h

/-! ## Section 5: The generator -/

/-- The first coefficient is one. -/
def Monic (p : List UInt8) : Prop := p.head? = some 1

theorem Monic.ne_nil {p : List UInt8} (h : Monic p) : p ≠ [] := by
  rintro rfl
  cases h

theorem Monic.headD {p : List UInt8} (h : Monic p) : p.headD 0 = 1 := by
  rw [List.headD_eq_head?_getD, h]
  rfl

theorem Monic.trim {p : List UInt8} (h : Monic p) : trim p = p := by
  fun_cases Lrpt.trim p with
  | case1 b rest => cases h
  | case2 a b rest hne => rfl
  | case3 p hp => rfl

/-- A product of monic polynomials. -/
structure Product (a b out : List UInt8) : Prop where
  length : out.length = a.length + b.length - 1
  monic  : Monic out
  value  : ∀ x, value x out = value x a * value x b

theorem returns_mulPoly {a b : List UInt8} (ha : Monic a) (hb : Monic b) :
    Returns (mulPoly a b) (Product a b) := by
  have hpos := List.length_pos_of_ne_nil ha.ne_nil
  have hposb := List.length_pos_of_ne_nil hb.ne_nil
  -- the loop at entry `n`, with the rest of the first factor still to multiply
  have hloop (p word : List UInt8) (n : ℕ) (h : n + p.length + b.length ≤ word.length + 1) :
      Returns ((p.zipIdx n).foldlM (fun out (x, i) => addMultiple out i x b) word) fun out =>
        out.length = word.length ∧
        (∀ x, value x out = value x word +
          value x p * value x b * x ^ (word.length + 1 - n - p.length - b.length)) ∧
        (∀ k < n, out.getD k 0 = word.getD k 0) ∧
        (p ≠ [] → sym (out.getD n 0) = sym (word.getD n 0) + sym (p.headD 0)) := by
    induction p generalizing word n with
    | nil => exact returns_pure ⟨rfl, fun x => by simp [value], fun _ _ => rfl, fun h => absurd rfl h⟩
    | cons c p ih =>
      rw [List.length_cons] at h
      rw [List.zipIdx_cons, List.foldlM_cons]
      have hstep : Returns (addMultiple word n c b) (Added word n c b) :=
        returns_addMultiple (by omega) c
      refine hstep.bind fun next hnext => ?_
      have hlength := hnext.length
      refine (ih next (n + 1) (by omega)).imp fun out hout => ?_
      obtain ⟨hout, hvalue, hbelow, -⟩ := hout
      refine ⟨hout.trans hlength, fun x => ?_, fun k hk => ?_, fun _ => ?_⟩
      · rw [hvalue, hnext.value, value_cons, hlength, List.length_cons,
          show word.length - n - b.length =
            p.length + (word.length + 1 - (n + 1) - p.length - b.length) by omega,
          show word.length + 1 - n - (p.length + 1) - b.length =
            word.length + 1 - (n + 1) - p.length - b.length by omega, pow_add]
        ring
      · rw [hbelow k (by omega), hnext.below k hk]
      · rw [hbelow n (Nat.lt_succ_self n), hnext.first hb.ne_nil, hb.headD, Uat.sym_one, mul_one,
          List.headD_cons]
  have hsub : sub (a.length + b.length) 1 = .ok (a.length + b.length - 1) :=
    sub_of_le (by omega)
  unfold mulPoly
  rw [hsub]
  refine (hloop a (List.replicate (a.length + b.length - 1) 0) 0 (by
    rw [List.length_replicate]; omega)).bind fun out hout => ?_
  obtain ⟨hlength, hvalue, -, hfirst⟩ := hout
  rw [List.length_replicate] at hlength hvalue
  have hmonic : Monic out := by
    have hone := hfirst ha.ne_nil
    have hlt : 0 < out.length := by omega
    have hzero : (List.replicate (a.length + b.length - 1) (0 : UInt8)).getD 0 0 = 0 := by
      rw [List.getD_eq_getElem?_getD, List.getElem?_replicate]
      split
      · rfl
      · rfl
    rw [hzero, Uat.sym_zero, zero_add, ha.headD] at hone
    rw [Monic, List.head?_eq_getElem?, List.getElem?_eq_getElem hlt, ← List.getD_eq_getElem _ 0 hlt,
      Uat.sym_injective hone]
  refine returns_pure ⟨?_, ?_, fun x => ?_⟩
  · rw [hmonic.trim, hlength]
  · rw [hmonic.trim]
    exact hmonic
  · rw [hmonic.trim, hvalue, value_zeros, zero_add,
      show a.length + b.length - 1 + 1 - 0 - a.length - b.length = 0 by omega, pow_zero, mul_one]

/-- A generator of the code: monic, of degree 32, with the 32 roots. -/
structure Generates (g : List UInt8) : Prop where
  length : g.length = RS_PARITY_LEN + 1
  monic  : Monic g
  roots  : ∀ i < RS_PARITY_LEN, value (rootAt i) g = 0

theorem returns_generator : Returns generator Generates := by
  have hloop : Returns generator fun g => g.length = RS_PARITY_LEN + 1 ∧ Monic g ∧
      ∀ i < RS_PARITY_LEN, value (rootAt i) g = 0 := by
    have hone : ([1] : List UInt8).length = 0 + 1 ∧ Monic [1] ∧
        ∀ i < 0, value (rootAt i) [1] = 0 := ⟨rfl, rfl, fun i hi => absurd hi (Nat.not_lt_zero i)⟩
    refine returns_foldlM_range (I := fun n g => g.length = n + 1 ∧ Monic g ∧
      ∀ i < n, value (rootAt i) g = 0) RS_PARITY_LEN hone ?_
    rintro n - g ⟨hlength, hmonic, hroots⟩
    refine (returns_root n).bind fun x hx => ?_
    refine (returns_mulPoly hmonic (show Monic [1, x] from rfl)).imp fun out hout => ?_
    refine ⟨by rw [hout.length, hlength]; rfl, hout.monic, fun i hi => ?_⟩
    rw [hout.value]
    rcases Nat.lt_succ_iff_lt_or_eq.1 hi with hlt | rfl
    · rw [hroots i hlt, zero_mul]
    · -- the new factor vanishes at the new root
      rw [value_cons, value_cons, hx]
      simp [value, CharTwo.add_self_eq_zero]
  exact hloop.imp fun g h => ⟨h.1, h.2.1, h.2.2⟩

/-! ## Section 6: The encoder gives code words -/

/-- The word after the division of the first `n` coefficients. -/
structure Divided (data : List UInt8) (n : ℕ) (work : List UInt8) : Prop where
  length : work.length = RS_CODEWORD_LEN
  zeros  : ∀ k < n, work.getD k 0 = 0
  value  : ∀ i < RS_PARITY_LEN, value (rootAt i) work =
    value (rootAt i) (data ++ List.replicate RS_PARITY_LEN 0)

theorem divided_zero {data : List UInt8} (hdata : data.length = RS_DATA_LEN) :
    Divided data 0 (data ++ List.replicate RS_PARITY_LEN 0) where
  length := by
    rw [List.length_append, hdata, List.length_replicate]
    rfl
  zeros := fun k hk => absurd hk (Nat.not_lt_zero k)
  value := fun _ _ => rfl

theorem returns_divideStep {g data work : List UInt8} {n : ℕ} (hg : Generates g)
    (hn : n < RS_DATA_LEN) (h : Divided data n work) :
    Returns (divideStep g work n) (Divided data (n + 1)) := by
  have hlen := h.length
  have hglen := hg.length
  have hsizes : RS_CODEWORD_LEN = RS_DATA_LEN + RS_PARITY_LEN := rfl
  refine (returns_getD (by omega)).bind fun factor hfactor => ?_
  refine returns_ite (fun _ => ?_) fun hzero => ?_
  · refine (returns_addMultiple (by omega) factor).imp fun out hout => ?_
    refine ⟨hout.length.trans hlen, fun k hk => ?_, fun i hi => ?_⟩
    · rcases Nat.lt_succ_iff_lt_or_eq.1 hk with hlt | rfl
      · rw [hout.below k hlt, h.zeros k hlt]
      · have hfirst := hout.first hg.monic.ne_nil
        rw [hg.monic.headD, Uat.sym_one, mul_one, ← hfactor, CharTwo.add_self_eq_zero] at hfirst
        exact Uat.sym_eq_zero.1 hfirst
    · rw [hout.value, hg.roots i hi, mul_zero, zero_mul, add_zero, h.value i hi]
  · refine returns_pure ⟨hlen, fun k hk => ?_, h.value⟩
    rcases Nat.lt_succ_iff_lt_or_eq.1 hk with hlt | rfl
    · exact h.zeros k hlt
    · rw [← hfactor, not_not.1 hzero]

/-- The code word of some data. -/
structure Encoded (data word : List UInt8) : Prop where
  length : word.length = RS_CODEWORD_LEN
  data   : word.take RS_DATA_LEN = data
  roots  : ∀ i < RS_PARITY_LEN, value (rootAt i) word = 0

theorem returns_encodeCodeword {data : List UInt8} (hdata : data.length = RS_DATA_LEN) :
    Returns (encodeCodeword data) (Encoded data) := by
  refine returns_generator.bind fun g hg => ?_
  refine (returns_foldlM_range RS_DATA_LEN (divided_zero hdata) fun n hn work hwork =>
    returns_divideStep hg hn hwork).bind fun work hwork => ?_
  have hlen := hwork.length
  have hsizes : RS_CODEWORD_LEN = RS_DATA_LEN + RS_PARITY_LEN := rfl
  have htail : (work.drop RS_DATA_LEN).length = RS_PARITY_LEN := by
    rw [List.length_drop]
    omega
  -- nothing but the remainder is left
  have hwork_eq : work = List.replicate RS_DATA_LEN 0 ++ work.drop RS_DATA_LEN := by
    conv_lhs => rw [← List.take_append_drop RS_DATA_LEN work]
    congr 1
    rw [List.eq_replicate_iff]
    refine ⟨by rw [List.length_take]; omega, fun y hy => ?_⟩
    obtain ⟨k, hk, rfl⟩ := List.getElem_of_mem hy
    rw [List.length_take] at hk
    rw [List.getElem_take, ← List.getD_eq_getElem _ 0 (by omega)]
    exact hwork.zeros k (by omega)
  refine returns_pure ⟨?_, ?_, fun i hi => ?_⟩
  · rw [List.length_append, hdata, htail]
    rfl
  · rw [← hdata, List.take_left]
  · have hvalue := hwork.value i hi
    rw [hwork_eq, value_append_list, value_zeros, zero_mul, zero_add, value_append_list,
      value_zeros, add_zero, List.length_replicate] at hvalue
    rw [value_append_list, htail, hvalue, CharTwo.add_self_eq_zero]

/-! ## Section 7: Interleaving -/

def INTERLEAVE : ℕ := 4
def INTERLEAVED_FRAME_LEN : ℕ := RS_CODEWORD_LEN * INTERLEAVE

structure RsDecodeResult where
  data            : List UInt8
  codewordsOk     : ℕ
  codewordsFailed : ℕ
deriving DecidableEq, Repr

/-- The code words of a frame, with zeros for the bytes it does not have. -/
def deinterleave (frame : List UInt8) : List (List UInt8) :=
  (List.range INTERLEAVE).map fun cw =>
    (List.range RS_CODEWORD_LEN).map fun i => frame.getD (i * INTERLEAVE + cw) 0

/-- One byte of each word in turn. -/
def interleave (length : ℕ) (words : List (List UInt8)) : List UInt8 :=
  (List.range (length * INTERLEAVE)).map fun i =>
    (words.getD (i % INTERLEAVE) []).getD (i / INTERLEAVE) 0

/-- The data of the code words, zeros where there is none. -/
def decodeInterleaved (frame : List UInt8) : RsDecodeResult :=
  let corrected := (deinterleave frame).map fun codeword => (correctCodeword codeword).toOption
  ⟨interleave RS_DATA_LEN (corrected.map fun word =>
      (word.map (·.take RS_DATA_LEN)).getD (List.replicate RS_DATA_LEN 0)),
    corrected.countP Option.isSome, corrected.countP Option.isNone⟩

/-- The parts of a payload, one for each code word. -/
def parts (payload : List UInt8) : List (List UInt8) :=
  (List.range INTERLEAVE).map fun cw =>
    (List.range RS_DATA_LEN).map fun i => payload.getD (i * INTERLEAVE + cw) 0

def encodeInterleaved (payload : List UInt8) : Checked (List UInt8) := do
  require (payload.length = RS_DATA_LEN * INTERLEAVE)
  let codewords ← (parts payload).mapM encodeCodeword
  pure (interleave RS_CODEWORD_LEN codewords)

theorem length_interleave (length : ℕ) (words : List (List UInt8)) :
    (interleave length words).length = length * INTERLEAVE := by
  unfold interleave
  rw [List.length_map, List.length_range]

theorem getD_map_range {β : Type*} (f : ℕ → β) (d : β) {n i : ℕ} (hi : i < n) :
    ((List.range n).map f).getD i d = f i := by
  rw [List.getD_eq_getElem _ _ (by rwa [List.length_map, List.length_range]), List.getElem_map,
    List.getElem_range]

theorem index_split {length i cw : ℕ} (hcw : cw < INTERLEAVE) (hi : i < length) :
    i * INTERLEAVE + cw < length * INTERLEAVE ∧ (i * INTERLEAVE + cw) % INTERLEAVE = cw ∧
      (i * INTERLEAVE + cw) / INTERLEAVE = i := by
  unfold INTERLEAVE at *
  omega

theorem getD_interleave {length i cw : ℕ} (words : List (List UInt8)) (hcw : cw < INTERLEAVE)
    (hi : i < length) :
    (interleave length words).getD (i * INTERLEAVE + cw) 0 = (words.getD cw []).getD i 0 := by
  obtain ⟨hlt, hmod, hdiv⟩ := index_split hcw hi
  unfold interleave
  rw [getD_map_range _ _ hlt, hmod, hdiv]

/-- Words of one length come back from a frame. -/
theorem map_getD_interleave {length : ℕ} {words : List (List UInt8)}
    (hwords : words.length = INTERLEAVE) (hlength : ∀ word ∈ words, word.length = length) :
    ((List.range INTERLEAVE).map fun cw => (List.range length).map fun i =>
      (interleave length words).getD (i * INTERLEAVE + cw) 0) = words := by
  apply List.ext_getElem
  · rw [List.length_map, List.length_range, hwords]
  intro cw hcw hcw'
  rw [List.getElem_map, List.getElem_range]
  have hword : (words[cw]).length = length := hlength _ (List.getElem_mem hcw')
  apply List.ext_getElem
  · rw [List.length_map, List.length_range, hword]
  intro i hi hi'
  rw [List.getElem_map, List.getElem_range, getD_interleave words (hwords ▸ hcw') (hword ▸ hi'),
    List.getD_eq_getElem _ _ hcw', List.getD_eq_getElem _ _ hi']

/-- A payload is the interleaved data of its parts. -/
theorem interleave_parts {length : ℕ} {payload : List UInt8}
    (h : payload.length = length * INTERLEAVE) :
    interleave length ((List.range INTERLEAVE).map fun cw => (List.range length).map fun i =>
      payload.getD (i * INTERLEAVE + cw) 0) = payload := by
  apply List.ext_getElem
  · rw [length_interleave, h]
  intro k hk hk'
  have hmod : k % INTERLEAVE < INTERLEAVE := Nat.mod_lt k (by decide)
  have hdiv : k / INTERLEAVE < length := Nat.div_lt_of_lt_mul (by rwa [Nat.mul_comm, ← h])
  rw [← List.getD_eq_getElem _ 0 hk, ← List.getD_eq_getElem _ 0 hk']
  conv_lhs => rw [← Nat.div_add_mod' k INTERLEAVE]
  rw [getD_interleave _ hmod hdiv, getD_map_range _ _ hmod, getD_map_range _ _ hdiv,
    Nat.div_add_mod']

/-- A word with zero syndromes is returned as it is. -/
theorem correctCodeword_of_roots {word : List UInt8}
    (h : ∀ i < RS_PARITY_LEN, value (rootAt i) word = 0) : correctCodeword word = .ok word := by
  have hall : (List.replicate RS_PARITY_LEN (0 : UInt8)).all (· = 0) = true := by decide
  unfold correctCodeword
  rw [syndromes_eq_zero h]
  rw [Checked.ok_bind, if_pos hall]
  rfl

theorem length_parts (payload : List UInt8) : (parts payload).length = INTERLEAVE := by
  unfold parts
  rw [List.length_map, List.length_range]

theorem length_part {payload part : List UInt8} (h : part ∈ parts payload) :
    part.length = RS_DATA_LEN := by
  obtain ⟨cw, -, rfl⟩ := List.mem_map.1 h
  rw [List.length_map, List.length_range]

/-- The frame of four code words is decoded to their data. -/
theorem decodeInterleaved_encoded {payload : List UInt8} {words : List (List UInt8)}
    (hpayload : payload.length = RS_DATA_LEN * INTERLEAVE)
    (h : List.Forall₂ Encoded (parts payload) words) :
    decodeInterleaved (interleave RS_CODEWORD_LEN words) = ⟨payload, 4, 0⟩ := by
  have hcount : words.length = INTERLEAVE := h.length_eq.symm.trans (length_parts payload)
  have hword (word : List UInt8) (hmem : word ∈ words) : ∃ part, Encoded part word := by
    obtain ⟨i, hi, rfl⟩ := List.getElem_of_mem hmem
    exact ⟨_, h.get (h.length_eq ▸ hi) hi⟩
  have hdeinterleave : deinterleave (interleave RS_CODEWORD_LEN words) = words := by
    apply map_getD_interleave hcount
    intro word hmem
    obtain ⟨part, hencoded⟩ := hword word hmem
    exact hencoded.length
  have hcorrected : (words.map fun codeword => (correctCodeword codeword).toOption) =
      words.map some := by
    apply List.map_congr_left
    intro word hmem
    obtain ⟨part, hencoded⟩ := hword word hmem
    rw [correctCodeword_of_roots hencoded.roots]
    rfl
  have htake : (words.map some).map (fun word =>
      (word.map (·.take RS_DATA_LEN)).getD (List.replicate RS_DATA_LEN 0)) = parts payload := by
    rw [List.map_map]
    apply List.ext_getElem
    · rw [List.length_map, h.length_eq]
    intro i hi hi'
    rw [List.getElem_map]
    exact (h.get hi' (h.length_eq ▸ hi')).data
  have hok : (words.map some).countP Option.isSome = 4 := by
    rw [List.countP_map]
    exact (List.countP_eq_length.2 fun _ _ => rfl).trans hcount
  have hfailed : (words.map some).countP Option.isNone = 0 := by
    rw [List.countP_map]
    exact List.countP_eq_zero.2 fun _ _ => Bool.false_ne_true
  have hparts : interleave RS_DATA_LEN (parts payload) = payload := interleave_parts hpayload
  unfold decodeInterleaved
  dsimp only
  rw [hdeinterleave, hcorrected, hok, hfailed, htake, hparts]

/-- **Encoded frames decode.** Every payload is encoded, and its frame is decoded to it with all
    four code words accepted. -/
theorem decode_encodeInterleaved {payload : List UInt8}
    (h : payload.length = RS_DATA_LEN * INTERLEAVE) :
    Returns (encodeInterleaved payload) fun frame => frame.length = INTERLEAVED_FRAME_LEN ∧
      decodeInterleaved frame = ⟨payload, 4, 0⟩ := by
  have hrequire : require (payload.length = RS_DATA_LEN * INTERLEAVE) = .ok () := if_pos h
  have hwords : Returns ((parts payload).mapM encodeCodeword)
      (List.Forall₂ Encoded (parts payload)) :=
    returns_mapM fun part hpart => returns_encodeCodeword (length_part hpart)
  unfold encodeInterleaved
  rw [hrequire, ok_bind]
  refine hwords.bind fun words hwords => returns_pure ⟨length_interleave .., ?_⟩
  exact decodeInterleaved_encoded h hwords

/-! ## Section 8: The randomizer -/

def PN_PERIOD : ℕ := 255

/-- The bit that is shifted out, and the register after it. -/
def pnStep (state : UInt8) : UInt8 × UInt8 :=
  let fb := ((state >>> 7) ^^^ (state >>> 5) ^^^ (state >>> 3) ^^^ state) &&& 1
  (state &&& 1, (state >>> 1) ||| (fb <<< 7))

/-- One byte of the sequence, the first bit on top. -/
def pnByte (state : UInt8) : UInt8 × UInt8 :=
  (List.range 8).foldl (fun (out, state) bit =>
    let (bitOut, next) := pnStep state
    (out ||| (bitOut <<< (7 - bit).toUInt8), next)) (0, state)

def generatePnTable : List UInt8 :=
  ((List.range PN_PERIOD).foldl (fun (table, state) _ =>
    let (byte, next) := pnByte state
    (table ++ [byte], next)) ([], (0xFF : UInt8))).1

def derandomize (data : List UInt8) : List UInt8 :=
  data.zipIdx.map fun (byte, i) => byte ^^^ generatePnTable.getD (i % PN_PERIOD) 0

theorem length_derandomize (data : List UInt8) : (derandomize data).length = data.length := by
  unfold derandomize
  rw [List.length_map, List.length_zipIdx]

theorem getElem?_derandomize (data : List UInt8) (i : ℕ) :
    (derandomize data)[i]? = data[i]?.map (· ^^^ generatePnTable.getD (i % PN_PERIOD) 0) := by
  unfold derandomize
  rw [List.getElem?_map, List.getElem?_zipIdx, Option.map_map, Nat.zero_add]
  rfl

/-- Adding the sequence twice changes nothing. -/
theorem derandomize_derandomize (data : List UInt8) : derandomize (derandomize data) = data := by
  apply List.ext_getElem?
  intro i
  rw [getElem?_derandomize, getElem?_derandomize, Option.map_map]
  cases data[i]? with
  | none => rfl
  | some byte =>
    rw [Option.map_some, Function.comp_apply, UInt8.xor_assoc, UInt8.xor_self, UInt8.xor_zero]

end Lrpt
