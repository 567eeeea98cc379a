import EzSdr.Framework.Checked

/-! # The Reed-Solomon Decoder of the Transport Frames

    RS(255,223) over the field of `0x187`, with 32 roots from `alpha^112` on in
    steps of `alpha^11`: Berlekamp-Massey for the locator, a search for its
    roots, elimination for the magnitudes, and a last check of the syndromes.

    Polynomials are lists of coefficients, the highest first. Whatever the code
    indexes, subtracts or inverts can panic here too.
-/

namespace Lrpt

open Checked

/-! ## Section 1: The field -/

def RS_DATA_LEN : ℕ := 223
def RS_PARITY_LEN : ℕ := 32
def RS_CODEWORD_LEN : ℕ := RS_DATA_LEN + RS_PARITY_LEN
def FIELD_SIZE : ℕ := 255
def FIRST_ROOT : ℕ := 112
def PRIMITIVE_STEP : ℕ := 11

structure Gf256 where
  exp : List UInt8
  log : List UInt8

namespace Gf256

def double (x : ℕ) : ℕ :=
  let x := x <<< 1
  if x &&& 0x100 ≠ 0 then x ^^^ 0x187 else x

/-- One power more in both tables. -/
def fill (s : Gf256 × ℕ) (i : ℕ) : Gf256 × ℕ :=
  let (gf, x) := s
  (⟨gf.exp.set i x.toUInt8, gf.log.set x i.toUInt8⟩, double x)

/-- The powers over again, so that a sum of two logarithms is an index. -/
def repeated (gf : Gf256) (j : ℕ) : Gf256 :=
  { gf with exp := gf.exp.set j (gf.exp.getD (j - FIELD_SIZE) 0) }

/-- `gf`. -/
@[irreducible] def tables : Gf256 :=
  let gf := ((List.range FIELD_SIZE).foldl fill
    (⟨List.replicate (FIELD_SIZE * 2) 0, List.replicate 256 255⟩, 1)).1
  (List.range' FIELD_SIZE FIELD_SIZE).foldl repeated gf

end Gf256

open Gf256 (tables)

def gfMul (a b : UInt8) : Checked UInt8 :=
  if a = 0 ∨ b = 0 then pure 0
  else do
    let x ← index tables.log a.toNat
    let y ← index tables.log b.toNat
    index tables.exp (x.toNat + y.toNat)

def gfInv (a : UInt8) : Checked UInt8 :=
  if a = 0 then panicked
  else do
    let x ← index tables.log a.toNat
    let i ← sub FIELD_SIZE x.toNat
    index tables.exp i

def gfAlpha (exponent : ℕ) : Checked UInt8 := index tables.exp (exponent % FIELD_SIZE)

def gfPow (value : UInt8) (exponent : ℕ) : Checked UInt8 :=
  if value = 0 then pure (if exponent = 0 then 1 else 0)
  else do
    let x ← index tables.log value.toNat
    gfAlpha (x.toNat * exponent)

/-- The root `i` of the generator. -/
def root (i : ℕ) : Checked UInt8 := gfAlpha ((FIRST_ROOT + i) * PRIMITIVE_STEP)

/-! ## Section 2: Polynomials -/

/-- `trim`: no leading zero, but for the zero polynomial. -/
def trim : List UInt8 → List UInt8
  | a :: b :: p => if a = 0 then trim (b :: p) else a :: b :: p
  | p => p

/-- The coefficient of `p` at index `i` of a sum of length `n`. -/
def aligned (p : List UInt8) (n i : ℕ) : Checked UInt8 := do
  let shift ← sub n p.length
  if shift ≤ i then index p (i - shift) else pure 0

def addPoly (a b : List UInt8) : Checked (List UInt8) := do
  let n := max a.length b.length
  let out ← (List.range n).mapM fun i => do
    let x ← aligned a n i
    let y ← aligned b n i
    pure (x ^^^ y)
  pure (trim out)

def scalePoly (a : List UInt8) (factor : UInt8) : Checked (List UInt8) :=
  a.mapM fun x => gfMul x factor

def evalPoly (p : List UInt8) (x : UInt8) : Checked UInt8 :=
  p.foldlM (fun acc c => do
    let y ← gfMul acc x
    pure (y ^^^ c)) 0

/-! ## Section 3: Decoding -/

def syndromes (codeword : List UInt8) : Checked (List UInt8) :=
  (List.range RS_PARITY_LEN).mapM fun i => do
    let x ← root i
    evalPoly codeword x

/-- The discrepancy of the locator at syndrome `k`. -/
def discrepancyAt (s locator : List UInt8) (k : ℕ) : Checked UInt8 := do
  let first ← index s k
  (List.range (locator.length - 1)).foldlM (fun discrepancy i => do
    let j := i + 1
    let top ← sub locator.length (1 + j)
    let c ← index locator top
    let earlier ← sub k j
    let x ← index s earlier
    let y ← gfMul c x
    pure (discrepancy ^^^ y)) first

/-- One round of `find_error_locator` on the locator and the old one. -/
def locatorStep (s : List UInt8) (state : List UInt8 × List UInt8) (k : ℕ) :
    Checked (List UInt8 × List UInt8) := do
  let (locator, old) := state
  let discrepancy ← discrepancyAt s locator k
  let old := old ++ [0]
  if discrepancy = 0 then pure (locator, old)
  else if locator.length < old.length then do
    let next ← scalePoly old discrepancy
    let inverse ← gfInv discrepancy
    let old ← scalePoly locator inverse
    let back ← scalePoly old discrepancy
    let locator ← addPoly next back
    pure (locator, old)
  else do
    let change ← scalePoly old discrepancy
    let locator ← addPoly locator change
    pure (locator, old)

def findErrorLocator (s : List UInt8) : Checked (List UInt8) := do
  let (locator, _) ← (List.range s.length).foldlM (locatorStep s) ([1], [1])
  let degree ← sub locator.length 1
  require (degree ≤ RS_PARITY_LEN / 2)
  pure locator

/-- The positions of a word where the reversed locator has its roots. -/
def errorPositions (locator : List UInt8) : Checked (List ℕ) := do
  let expected ← sub locator.length 1
  let positions ← (List.range RS_CODEWORD_LEN).foldlM (fun positions i => do
    let x ← gfAlpha (i * PRIMITIVE_STEP)
    let value ← evalPoly locator.reverse x
    if value = 0 then do
      let position ← sub RS_CODEWORD_LEN (1 + i)
      pure (positions ++ [position])
    else pure positions) []
  require (positions.length = expected)
  pure positions

abbrev Matrix := List (List UInt8)

def cell (m : Matrix) (row column : ℕ) : Checked UInt8 := do
  let r ← index m row
  index r column

def setCell (m : Matrix) (row column : ℕ) (value : UInt8) : Checked Matrix := do
  let r ← index m row
  let _ ← index r column
  pure (m.set row (r.set column value))

/-- The equations for the magnitudes, one for each position. -/
def equations (s : List UInt8) (positions : List ℕ) : Checked Matrix :=
  (List.range positions.length).mapM fun row => do
    let x ← root row
    let terms ← positions.mapM fun position => do
      let degree ← sub RS_CODEWORD_LEN (1 + position)
      gfPow x degree
    let value ← index s row
    pure (terms ++ [value])

def swapRows (m : Matrix) (i j : ℕ) : Checked Matrix := do
  let a ← index m i
  let b ← index m j
  pure ((m.set i b).set j a)

/-- Every entry of the pivot row from its column on, times the inverse of the pivot. -/
def normalizeRow (n column : ℕ) (m : Matrix) : Checked Matrix := do
  let pivot ← cell m column column
  let inverse ← gfInv pivot
  (List.range' column (n + 1 - column)).foldlM (fun m item => do
    let x ← cell m column item
    let y ← gfMul x inverse
    setCell m column item y) m

/-- The pivot row taken off another row. -/
def eliminateRow (n column : ℕ) (m : Matrix) (row : ℕ) : Checked Matrix :=
  if row = column then pure m
  else do
    let factor ← cell m row column
    if factor = 0 then pure m
    else
      (List.range' column (n + 1 - column)).foldlM (fun m item => do
        let x ← cell m row item
        let y ← cell m column item
        let z ← gfMul factor y
        setCell m row item (x ^^^ z)) m

/-- One column of the elimination. -/
def eliminateColumn (n : ℕ) (m : Matrix) (column : ℕ) : Checked Matrix := do
  let found ← (List.range' column (n - column)).findM? fun row => do
    let x ← cell m row column
    pure (decide (x ≠ 0))
  match found with
  | none => reject
  | some pivot => do
    let m ← swapRows m column pivot
    let m ← normalizeRow n column m
    (List.range n).foldlM (eliminateRow n column) m

def solveErrorMagnitudes (s : List UInt8) (positions : List ℕ) : Checked (List UInt8) := do
  let n := positions.length
  let m ← equations s positions
  let m ← (List.range n).foldlM (eliminateColumn n) m
  (List.range n).mapM fun row => cell m row n

/-- The word with the magnitudes added at the positions. -/
def applyMagnitudes (input : List UInt8) (positions : List ℕ) (magnitudes : List UInt8) :
    Checked (List UInt8) :=
  (positions.zip magnitudes).foldlM (fun word (position, magnitude) => do
    let x ← index word position
    pure (word.set position (x ^^^ magnitude))) input

def correctCodeword (input : List UInt8) : Checked (List UInt8) := do
  let s ← syndromes input
  if s.all (· = 0) then pure input
  else do
    let locator ← findErrorLocator s
    let positions ← errorPositions locator
    require (positions ≠ [] ∧ positions.length ≤ RS_PARITY_LEN / 2)
    let magnitudes ← solveErrorMagnitudes s positions
    let corrected ← applyMagnitudes input positions magnitudes
    let check ← syndromes corrected
    require (check.all (· = 0))
    pure corrected

/-! ## Section 4: No panic in the field -/

theorem length_fill (list : List ℕ) (s : Gf256 × ℕ) :
    (list.foldl Gf256.fill s).1.exp.length = s.1.exp.length ∧
      (list.foldl Gf256.fill s).1.log.length = s.1.log.length := by
  induction list generalizing s with
  | nil => exact ⟨rfl, rfl⟩
  | cons i list ih =>
    obtain ⟨hexp, hlog⟩ := ih (Gf256.fill s i)
    exact ⟨hexp.trans List.length_set, hlog.trans List.length_set⟩

theorem length_repeated (list : List ℕ) (gf : Gf256) :
    (list.foldl Gf256.repeated gf).exp.length = gf.exp.length ∧
      (list.foldl Gf256.repeated gf).log = gf.log := by
  induction list generalizing gf with
  | nil => exact ⟨rfl, rfl⟩
  | cons i list ih =>
    obtain ⟨hexp, hlog⟩ := ih (Gf256.repeated gf i)
    exact ⟨hexp.trans List.length_set, hlog⟩

theorem length_exp : tables.exp.length = 2 * FIELD_SIZE := by
  unfold Gf256.tables
  rw [(length_repeated _ _).1, (length_fill _ _).1, List.length_replicate, Nat.mul_comm]

theorem length_log : tables.log.length = 256 := by
  unfold Gf256.tables
  rw [(length_repeated _ _).2, (length_fill _ _).2, List.length_replicate]

/-- A logarithm below 255 stays one, whatever is entered after it. -/
theorem log_fill_lt {list : List ℕ} (hlist : ∀ i ∈ list, i < FIELD_SIZE) (s : Gf256 × ℕ) {y : ℕ}
    (h : (s.1.log.getD y 255).toNat < FIELD_SIZE) :
    ((list.foldl Gf256.fill s).1.log.getD y 255).toNat < FIELD_SIZE := by
  induction list generalizing s with
  | nil => exact h
  | cons i list ih =>
    have hi : i < FIELD_SIZE := hlist i List.mem_cons_self
    refine ih (fun j hj => hlist j (List.mem_cons_of_mem i hj)) (Gf256.fill s i) ?_
    show ((s.1.log.set s.2 i.toUInt8).getD y 255).toNat < FIELD_SIZE
    rw [List.getD_eq_getElem?_getD] at h ⊢
    rw [List.getElem?_set]
    split_ifs
    · rw [Option.getD_some, UInt8.toNat_ofNat_of_lt' (Nat.lt_succ_of_lt hi)]
      exact hi
    · rename_i hout
      rwa [List.getElem?_eq_none (by omega)] at h
    · exact h

/-- What the power is doubled to on the way is entered. -/
theorem log_fill_iterate {list : List ℕ} (hlist : ∀ i ∈ list, i < FIELD_SIZE) (s : Gf256 × ℕ)
    {y : ℕ} (hy : y ∈ List.iterate Gf256.double s.2 list.length) (hlt : y < s.1.log.length) :
    ((list.foldl Gf256.fill s).1.log.getD y 255).toNat < FIELD_SIZE := by
  induction list generalizing s with
  | nil => exact absurd hy List.not_mem_nil
  | cons i list ih =>
    have hi : i < FIELD_SIZE := hlist i List.mem_cons_self
    have hrest : ∀ j ∈ list, j < FIELD_SIZE := fun j hj => hlist j (List.mem_cons_of_mem i hj)
    rcases List.mem_cons.1 hy with rfl | hlater
    · refine log_fill_lt hrest (Gf256.fill s i) ?_
      show ((s.1.log.set s.2 i.toUInt8).getD s.2 255).toNat < FIELD_SIZE
      rw [List.getD_eq_getElem?_getD, List.getElem?_set_self hlt, Option.getD_some,
        UInt8.toNat_ofNat_of_lt' (Nat.lt_succ_of_lt hi)]
      exact hi
    · refine ih hrest (Gf256.fill s i) hlater ?_
      show y < (s.1.log.set s.2 i.toUInt8).length
      rwa [List.length_set]

theorem mem_iterate_double : ∀ x : Fin FIELD_SIZE,
    x.val + 1 ∈ List.iterate Gf256.double 1 FIELD_SIZE := by
  decide +kernel

/-- Every byte but zero is a power below 255. -/
theorem log_lt {x : ℕ} (hpos : x ≠ 0) (hlt : x < 256) :
    (tables.log.getD x 255).toNat < FIELD_SIZE := by
  obtain ⟨i, rfl⟩ := Nat.exists_eq_succ_of_ne_zero hpos
  unfold Gf256.tables
  rw [(length_repeated _ _).2]
  refine log_fill_iterate (fun _ => List.mem_range.1) _ ?_ ?_
  · rw [List.length_range]
    exact mem_iterate_double ⟨i, Nat.lt_of_succ_lt_succ hlt⟩
  · rwa [List.length_replicate]

/-- The logarithm of a byte that is not zero. -/
theorem safe_log {a : UInt8} (h : a ≠ 0) :
    Safe (index tables.log a.toNat) fun x => x.toNat < FIELD_SIZE := by
  have hlog := log_lt (fun hzero => h (UInt8.toNat.inj hzero)) a.toNat_lt
  have hlt : a.toNat < tables.log.length := by
    rw [length_log]
    exact a.toNat_lt
  rw [List.getD_eq_getElem _ _ hlt] at hlog
  unfold index
  rw [List.getElem?_eq_getElem hlt]
  exact hlog

theorem safe_exp {i : ℕ} (h : i < 2 * FIELD_SIZE) :
    Safe (index tables.exp i) fun _ => True :=
  safe_index (by rwa [length_exp]) fun _ _ => trivial

theorem safe_gfMul (a b : UInt8) : Safe (gfMul a b) fun _ => True := by
  unfold gfMul
  refine safe_ite (fun _ => trivial) fun hne => ?_
  rw [not_or] at hne
  refine (safe_log hne.1).bind fun x hx => ?_
  refine (safe_log hne.2).bind fun y hy => ?_
  exact safe_exp (by omega)

/-- The inverse is taken of what is not zero. -/
theorem safe_gfInv {a : UInt8} (h : a ≠ 0) : Safe (gfInv a) fun _ => True := by
  unfold gfInv
  rw [if_neg h]
  refine (safe_log h).bind fun x hx => ?_
  refine (safe_sub (by omega) rfl).bind fun i (hi : FIELD_SIZE - x.toNat = i) => ?_
  exact safe_exp (by unfold FIELD_SIZE at hi ⊢; omega)

theorem safe_gfAlpha (exponent : ℕ) : Safe (gfAlpha exponent) fun _ => True := by
  have hlt := Nat.mod_lt exponent (show 0 < FIELD_SIZE by decide)
  exact safe_exp (by omega)

theorem safe_gfPow (value : UInt8) (exponent : ℕ) : Safe (gfPow value exponent) fun _ => True := by
  unfold gfPow
  refine safe_ite (fun _ => trivial) fun hne => ?_
  exact (safe_log hne).bind fun x _ => safe_gfAlpha _

/-! ## Section 5: No panic in the decoder -/

theorem safe_evalPoly (p : List UInt8) (x : UInt8) : Safe (evalPoly p x) fun _ => True := by
  refine safe_foldlM trivial fun c _ acc _ => ?_
  exact (safe_gfMul acc x).bind fun y _ => trivial

theorem safe_scalePoly (a : List UInt8) (factor : UInt8) :
    Safe (scalePoly a factor) fun out => out.length = a.length :=
  (safe_mapM fun x _ => safe_gfMul x factor).imp fun _ h => h.1

theorem length_trim {p : List UInt8} (h : p ≠ []) :
    0 < (trim p).length ∧ (trim p).length ≤ p.length := by
  fun_induction trim p with
  | case1 b p ih =>
    obtain ⟨hpos, hle⟩ := ih (List.cons_ne_nil b p)
    exact ⟨hpos, hle.trans (Nat.le_succ _)⟩
  | case2 a b p hne => simp
  | case3 p hp => exact ⟨List.length_pos_of_ne_nil h, le_rfl⟩

theorem safe_aligned {p : List UInt8} {n i : ℕ} (hle : p.length ≤ n) (hlt : i < n) :
    Safe (aligned p n i) fun _ => True := by
  refine (safe_sub hle rfl).bind fun shift (hshift : n - p.length = shift) => ?_
  refine safe_ite (fun hi => ?_) fun _ => trivial
  exact safe_index (by omega) fun _ _ => trivial

theorem safe_addPoly {a b : List UInt8} (ha : a ≠ []) :
    Safe (addPoly a b) fun out => 0 < out.length ∧ out.length ≤ max a.length b.length := by
  have hout : ∀ i ∈ List.range (max a.length b.length), Safe (do
      let x ← aligned a (max a.length b.length) i
      let y ← aligned b (max a.length b.length) i
      pure (x ^^^ y)) fun _ => True := by
    intro i hi
    have hlt := List.mem_range.1 hi
    refine (safe_aligned (le_max_left _ _) hlt).bind fun x _ => ?_
    exact (safe_aligned (le_max_right _ _) hlt).bind fun y _ => trivial
  refine (safe_mapM hout).bind fun out hlen => ?_
  rw [List.length_range] at hlen
  have hpos := List.length_pos_of_ne_nil ha
  have hne : out ≠ [] := by
    rintro rfl
    simp at hlen
    omega
  obtain ⟨htrim, hle⟩ := length_trim hne
  exact ⟨htrim, hle.trans hlen.1.le⟩

theorem safe_syndromes (codeword : List UInt8) :
    Safe (syndromes codeword) fun s => s.length = RS_PARITY_LEN := by
  refine (safe_mapM (P := fun _ => True) fun i _ => ?_).imp fun s h =>
    h.1.trans List.length_range
  exact (safe_gfAlpha _).bind fun x _ => safe_evalPoly codeword x

/-! ### Berlekamp-Massey -/

/-- Before round `k` both polynomials have at most `k + 1` coefficients, so the
    discrepancy reads no syndrome before the first. -/
def LocatorInv (k : ℕ) (state : List UInt8 × List UInt8) : Prop :=
  0 < state.1.length ∧ state.1.length ≤ k + 1 ∧ state.2.length ≤ k + 1

theorem safe_discrepancyAt {s locator : List UInt8} {k : ℕ} (hk : k < s.length)
    (hle : locator.length ≤ k + 1) : Safe (discrepancyAt s locator k) fun _ => True := by
  refine (safe_index hk fun _ _ => trivial).bind fun first _ => ?_
  refine safe_foldlM trivial fun i hi discrepancy _ => ?_
  have hlt := List.mem_range.1 hi
  refine (safe_sub (by omega) rfl).bind fun top (htop : locator.length - (1 + (i + 1)) = top) => ?_
  refine (safe_index (by omega) fun _ _ => trivial).bind fun c _ => ?_
  refine (safe_sub (by omega) rfl).bind fun earlier (hearlier : k - (i + 1) = earlier) => ?_
  refine (safe_index (by omega) fun _ _ => trivial).bind fun x _ => ?_
  exact (safe_gfMul c x).bind fun y _ => trivial

theorem safe_locatorStep {s : List UInt8} {state : List UInt8 × List UInt8} {k : ℕ}
    (hk : k < s.length) (h : LocatorInv k state) :
    Safe (locatorStep s state k) (LocatorInv (k + 1)) := by
  obtain ⟨locator, old⟩ := state
  obtain ⟨hpos, hlocator, hold⟩ := h
  dsimp only at hpos hlocator hold
  have hne : locator ≠ [] := List.ne_nil_of_length_pos hpos
  have hgrown : (old ++ [0]).length ≤ k + 1 + 1 := by
    rw [List.length_append, List.length_singleton]
    omega
  unfold locatorStep
  refine (safe_discrepancyAt hk hlocator).bind fun discrepancy _ => ?_
  refine safe_ite (fun _ => ⟨hpos, hlocator.trans (Nat.le_succ _), hgrown⟩) fun hdiscrepancy => ?_
  refine safe_ite (fun _ => ?_) fun _ => ?_
  · refine (safe_scalePoly (old ++ [0]) discrepancy).bind fun next hnext => ?_
    refine (safe_gfInv hdiscrepancy).bind fun inverse _ => ?_
    refine (safe_scalePoly locator inverse).bind fun old' hold' => ?_
    refine (safe_scalePoly old' discrepancy).bind fun back hback => ?_
    have hnext' : next ≠ [] := List.ne_nil_of_length_pos (by rw [hnext]; simp)
    refine (safe_addPoly hnext').bind fun sum hsum => ?_
    refine safe_pure ⟨hsum.1, hsum.2.trans (max_le (by omega) (by omega)), ?_⟩
    show old'.length ≤ k + 1 + 1
    omega
  · refine (safe_scalePoly (old ++ [0]) discrepancy).bind fun change hchange => ?_
    refine (safe_addPoly hne).bind fun sum hsum => ?_
    exact safe_pure ⟨hsum.1, hsum.2.trans (max_le (by omega) (by omega)), hgrown⟩

theorem safe_findErrorLocator (s : List UInt8) :
    Safe (findErrorLocator s) fun locator => 0 < locator.length := by
  have hloop : Safe ((List.range s.length).foldlM (locatorStep s) ([1], [1]))
      (LocatorInv s.length) :=
    safe_foldlM_range s.length ⟨by simp, by simp, by simp⟩
      fun k hk state hstate => safe_locatorStep hk hstate
  refine hloop.bind fun state hstate => ?_
  obtain ⟨locator, old⟩ := state
  refine (safe_sub (P := fun _ => True) hstate.1 trivial).bind fun degree _ => ?_
  exact safe_require.bind fun _ _ => safe_pure hstate.1

theorem safe_errorPositions {locator : List UInt8} (hpos : 0 < locator.length) :
    Safe (errorPositions locator) fun positions =>
      ∀ position ∈ positions, position < RS_CODEWORD_LEN := by
  refine (safe_sub (P := fun _ => True) hpos trivial).bind fun expected _ => ?_
  have hloop : Safe ((List.range RS_CODEWORD_LEN).foldlM (fun positions i => do
      let x ← gfAlpha (i * PRIMITIVE_STEP)
      let value ← evalPoly locator.reverse x
      if value = 0 then do
        let position ← sub RS_CODEWORD_LEN (1 + i)
        pure (positions ++ [position])
      else pure positions) []) fun positions =>
        ∀ position ∈ positions, position < RS_CODEWORD_LEN := by
    refine safe_foldlM (by simp) fun i hi positions hpositions => ?_
    have hlt := List.mem_range.1 hi
    refine (safe_gfAlpha _).bind fun x _ => ?_
    refine (safe_evalPoly _ x).bind fun value _ => ?_
    refine safe_ite (fun _ => ?_) fun _ => hpositions
    refine (safe_sub (by omega) rfl).bind
      fun position (hposition : RS_CODEWORD_LEN - (1 + i) = position) => ?_
    refine safe_pure fun p hp => ?_
    rcases List.mem_append.1 hp with hp | hp
    · exact hpositions p hp
    · have hlast : p = position := List.mem_singleton.1 hp
      omega
  refine hloop.bind fun positions hpositions => ?_
  exact safe_require.bind fun _ _ => safe_pure hpositions

/-! ### Elimination -/

/-- A matrix of `n` equations. -/
def Shape (n : ℕ) (m : Matrix) : Prop := m.length = n ∧ ∀ r ∈ m, r.length = n + 1

variable {n : ℕ} {m : Matrix}

theorem safe_row (h : Shape n m) {row : ℕ} (hrow : row < n) :
    Safe (index m row) fun r => r.length = n + 1 :=
  safe_index (h.1.symm ▸ hrow) h.2

theorem safe_cell (h : Shape n m) {row column : ℕ} (hrow : row < n) (hcolumn : column ≤ n) :
    Safe (cell m row column) fun _ => True := by
  refine (safe_row h hrow).bind fun r hr => ?_
  exact safe_index (by omega) fun _ _ => trivial

theorem Shape.set (h : Shape n m) (row : ℕ) {r : List UInt8} (hr : r.length = n + 1) :
    Shape n (m.set row r) := by
  refine ⟨List.length_set.trans h.1, fun r' hr' => ?_⟩
  rcases List.mem_or_eq_of_mem_set hr' with hold | rfl
  · exact h.2 r' hold
  · exact hr

theorem safe_setCell (h : Shape n m) {row column : ℕ} (hrow : row < n) (hcolumn : column ≤ n)
    (value : UInt8) : Safe (setCell m row column value) (Shape n) := by
  refine (safe_row h hrow).bind fun r hr => ?_
  refine (safe_index (P := fun _ => True) (by omega) fun _ _ => trivial).bind fun _ _ => ?_
  exact h.set row (List.length_set.trans hr)

/-- The first row of the two is then what the second was. -/
theorem safe_swapRows (h : Shape n m) {i j : ℕ} (hi : i < n) (hj : j < n) :
    Safe (swapRows m i j) fun m' => Shape n m' ∧ m'[i]? = m[j]? := by
  have hrow {k : ℕ} (hk : k < n) :
      Safe (index m k) fun r => r.length = n + 1 ∧ m[k]? = some r := by
    have hlt : k < m.length := h.1.symm ▸ hk
    unfold index
    rw [List.getElem?_eq_getElem hlt]
    exact ⟨h.2 _ (List.getElem_mem hlt), rfl⟩
  refine (hrow hi).bind fun a ha => ?_
  refine (hrow hj).bind fun b hb => ?_
  refine safe_pure ⟨(h.set i hb.1).set j ha.1, ?_⟩
  have hlt : i < m.length := h.1.symm ▸ hi
  by_cases hij : j = i
  · subst hij
    rw [List.getElem?_set_self (by rwa [List.length_set])]
    exact ha.2.symm
  · rw [List.getElem?_set_ne hij, List.getElem?_set_self hlt]
    exact hb.2.symm

theorem cell_congr {m m' : Matrix} {i j : ℕ} (h : m'[i]? = m[j]?) (column : ℕ) :
    cell m' i column = cell m j column := by
  unfold cell index
  rw [h]

/-- A position of the slice of a row from its column on. -/
theorem slice_le {column item : ℕ} (hcolumn : column < n)
    (hitem : item ∈ List.range' column (n + 1 - column)) : item ≤ n := by
  rw [List.mem_range'_1] at hitem
  omega

theorem safe_normalizeRow (h : Shape n m) {column : ℕ} (hcolumn : column < n)
    (hpivot : Safe (cell m column column) fun x => x ≠ 0) :
    Safe (normalizeRow n column m) (Shape n) := by
  refine hpivot.bind fun pivot hne => ?_
  refine (safe_gfInv hne).bind fun inverse _ => ?_
  refine safe_foldlM h fun item hitem m' hm => ?_
  have hle := slice_le hcolumn hitem
  refine (safe_cell hm hcolumn hle).bind fun x _ => ?_
  refine (safe_gfMul x inverse).bind fun y _ => ?_
  exact safe_setCell hm hcolumn hle y

theorem safe_eliminateRow (h : Shape n m) {column row : ℕ} (hcolumn : column < n)
    (hrow : row < n) : Safe (eliminateRow n column m row) (Shape n) := by
  refine safe_ite (fun _ => h) fun _ => ?_
  refine (safe_cell h hrow hcolumn.le).bind fun factor _ => ?_
  refine safe_ite (fun _ => h) fun _ => ?_
  refine safe_foldlM h fun item hitem m' hm => ?_
  have hle := slice_le hcolumn hitem
  refine (safe_cell hm hrow hle).bind fun x _ => ?_
  refine (safe_cell hm hcolumn hle).bind fun y _ => ?_
  refine (safe_gfMul factor y).bind fun z _ => ?_
  exact safe_setCell hm hrow hle _

/-- The row found has a pivot, and brings it along when it is swapped in. -/
theorem safe_eliminateColumn (h : Shape n m) {column : ℕ} (hcolumn : column < n) :
    Safe (eliminateColumn n m column) (Shape n) := by
  have hfound : Safe ((List.range' column (n - column)).findM? fun row => do
      let x ← cell m row column
      pure (decide (x ≠ 0))) fun found =>
        ∀ row, found = some row → row < n ∧ ∀ x, cell m row column = .ok x → x ≠ 0 := by
    refine safe_findM fun row hrow => ?_
    rw [List.mem_range'_1] at hrow
    have hcell := safe_cell h (show row < n by omega) hcolumn.le
    refine (hcell.of_value (Q := fun x => cell m row column = .ok x) fun x hx => hx).bind
      fun x hx => ?_
    refine safe_pure fun hne => ⟨by omega, fun y hy => ?_⟩
    obtain rfl : x = y := Except.ok.inj (hx.symm.trans hy)
    exact of_decide_eq_true hne
  refine hfound.bind fun found hrows => ?_
  cases found with
  | none => exact safe_reject
  | some pivot =>
    obtain ⟨hpivot, hne⟩ := hrows pivot rfl
    refine (safe_swapRows h hcolumn hpivot).bind fun m' hm' => ?_
    obtain ⟨hshape, hrow⟩ := hm'
    have hcell : Safe (cell m' column column) fun x => x ≠ 0 := by
      rw [cell_congr hrow]
      exact (safe_cell h hpivot hcolumn.le).of_value hne
    refine (safe_normalizeRow hshape hcolumn hcell).bind fun m'' hm'' => ?_
    exact safe_foldlM hm'' fun row hrow rows hrows =>
      safe_eliminateRow hrows hcolumn (List.mem_range.1 hrow)

theorem safe_equations {s : List UInt8} {positions : List ℕ} (hs : positions.length ≤ s.length)
    (hpositions : ∀ position ∈ positions, position < RS_CODEWORD_LEN) :
    Safe (equations s positions) (Shape positions.length) := by
  refine (safe_mapM (P := fun r => r.length = positions.length + 1) fun row hrow => ?_).imp
    fun m hm => ⟨hm.1.trans List.length_range, hm.2⟩
  have hlt := List.mem_range.1 hrow
  refine (safe_gfAlpha _).bind fun x _ => ?_
  have hterms : Safe (positions.mapM fun position => do
      let degree ← sub RS_CODEWORD_LEN (1 + position)
      gfPow x degree) fun terms => terms.length = positions.length ∧ ∀ b ∈ terms, True := by
    refine safe_mapM fun position hposition => ?_
    have hle := hpositions position hposition
    refine (safe_sub (P := fun _ => True) (by omega) trivial).bind fun degree _ => ?_
    exact safe_gfPow x degree
  refine hterms.bind fun terms hterms => ?_
  refine (safe_index (P := fun _ => True) (by omega) fun _ _ => trivial).bind fun value _ => ?_
  exact safe_pure (by rw [List.length_append, hterms.1]; rfl)

theorem safe_solveErrorMagnitudes {s : List UInt8} {positions : List ℕ}
    (hs : positions.length ≤ s.length)
    (hpositions : ∀ position ∈ positions, position < RS_CODEWORD_LEN) :
    Safe (solveErrorMagnitudes s positions) fun _ => True := by
  refine (safe_equations hs hpositions).bind fun m hm => ?_
  have hloop : Safe ((List.range positions.length).foldlM (eliminateColumn positions.length) m)
      (Shape positions.length) :=
    safe_foldlM hm fun column hcolumn m' hm' =>
      safe_eliminateColumn hm' (List.mem_range.1 hcolumn)
  refine hloop.bind fun m' hm' => ?_
  exact (safe_mapM fun row hrow => safe_cell hm' (List.mem_range.1 hrow) le_rfl).imp
    fun _ _ => trivial

/-! ## Section 6: Soundness -/

/-- The number of positions in which two words differ. -/
def distance (a b : List UInt8) : ℕ := (a.zip b).countP fun p => p.1 ≠ p.2

theorem distance_self (a : List UInt8) : distance a a = 0 := by
  induction a with
  | nil => rfl
  | cons x a ih => simpa [distance] using ih

/-- One position changed adds at most one difference. -/
theorem distance_set (a b : List UInt8) (i : ℕ) (x : UInt8) :
    distance a (b.set i x) ≤ distance a b + 1 := by
  induction b generalizing a i with
  | nil => simp [distance]
  | cons y b ih =>
    cases a with
    | nil => simp [distance]
    | cons z a =>
      cases i with
      | zero =>
        simp only [distance, List.set_cons_zero, List.zip_cons_cons, List.countP_cons]
        split <;> split <;> omega
      | succ i =>
        have hrest := ih a i
        simp only [distance, List.set_cons_succ, List.zip_cons_cons, List.countP_cons] at hrest ⊢
        omega

/-- Only the positions are changed. -/
theorem safe_applyMagnitudes {input : List UInt8} {positions : List ℕ} (magnitudes : List UInt8)
    (hpositions : ∀ position ∈ positions, position < input.length) :
    Safe (applyMagnitudes input positions magnitudes) fun word =>
      word.length = input.length ∧ distance input word ≤ positions.length := by
  have hgeneral (word : List UInt8) (hword : word.length = input.length) :
      Safe ((positions.zip magnitudes).foldlM (fun word (position, magnitude) => do
        let x ← index word position
        pure (word.set position (x ^^^ magnitude))) word) fun out =>
          out.length = input.length ∧
            distance input out ≤ distance input word + positions.length := by
    induction positions generalizing word magnitudes with
    | nil => exact ⟨hword, le_rfl⟩
    | cons position positions ih =>
      cases magnitudes with
      | nil => exact ⟨hword, Nat.le_add_right _ _⟩
      | cons magnitude magnitudes =>
        have hlt := hpositions position List.mem_cons_self
        rw [List.zip_cons_cons, List.foldlM_cons]
        have hchange : Safe (do
            let x ← index word position
            pure (word.set position (x ^^^ magnitude))) fun next =>
              next.length = input.length ∧ distance input next ≤ distance input word + 1 := by
          refine (safe_index (P := fun _ => True) (by omega) fun _ _ => trivial).bind fun x _ => ?_
          exact safe_pure ⟨List.length_set.trans hword, distance_set input word position _⟩
        refine hchange.bind fun next hnext => ?_
        refine (ih magnitudes (fun p hp => hpositions p (List.mem_cons_of_mem _ hp)) next
          hnext.1).imp fun out hout => ⟨hout.1, ?_⟩
        have hle := hnext.2
        rw [List.length_cons]
        omega
  have hword := hgeneral input rfl
  rwa [distance_self, Nat.zero_add] at hword

/-- What the decoder returns: a word of the code near the input. -/
structure Corrected (input word : List UInt8) : Prop where
  length    : word.length = input.length
  syndromes : Lrpt.syndromes word = .ok (List.replicate RS_PARITY_LEN 0)
  near      : distance input word ≤ RS_PARITY_LEN / 2

/-- Syndromes that pass the check. -/
theorem all_zero {s : List UInt8} (hlen : s.length = RS_PARITY_LEN)
    (hall : s.all (· = 0) = true) : s = List.replicate RS_PARITY_LEN 0 := by
  rw [List.eq_replicate_iff]
  exact ⟨hlen, fun x hx => by simpa using List.all_eq_true.1 hall x hx⟩

theorem safe_syndromes_eq (codeword : List UInt8) :
    Safe (syndromes codeword) fun s => s.length = RS_PARITY_LEN ∧ syndromes codeword = .ok s :=
  (safe_syndromes codeword).of_value fun _ hs => ⟨(safe_syndromes codeword).value hs, hs⟩

theorem safe_correctCodeword {input : List UInt8} (hlen : input.length = RS_CODEWORD_LEN) :
    Safe (correctCodeword input) (Corrected input) := by
  refine (safe_syndromes_eq input).bind fun s hs => ?_
  refine safe_ite (fun hall => ?_) fun _ => ?_
  · have hzero := all_zero hs.1 hall
    exact safe_pure ⟨rfl, hzero ▸ hs.2, by rw [distance_self]; exact Nat.zero_le _⟩
  refine (safe_findErrorLocator s).bind fun locator hlocator => ?_
  refine (safe_errorPositions hlocator).bind fun positions hpositions => ?_
  refine safe_require.bind fun _ hcount => ?_
  have hle : positions.length ≤ s.length := by
    have := hcount.2
    rw [hs.1]
    omega
  refine (safe_solveErrorMagnitudes hle hpositions).bind fun magnitudes _ => ?_
  refine (safe_applyMagnitudes magnitudes fun p hp => hlen.symm ▸ hpositions p hp).bind
    fun corrected hcorrected => ?_
  refine (safe_syndromes_eq corrected).bind fun check hcheck => ?_
  refine safe_require.bind fun _ hall => ?_
  have hzero := all_zero hcheck.1 hall
  exact safe_pure ⟨hcorrected.1, hzero ▸ hcheck.2, hcorrected.2.trans hcount.2⟩

/-- **Soundness of the decoder.** It does not panic on any input, and a word it
    returns has zero syndromes and at most 16 bytes changed. -/
theorem correctCodeword_sound (input : Vector UInt8 RS_CODEWORD_LEN) :
    correctCodeword input.toList ≠ .error .panic ∧
      ∀ word, correctCodeword input.toList = .ok word → Corrected input.toList word := by
  have hsafe := safe_correctCodeword input.length_toList
  exact ⟨hsafe.ne_panic, fun word hword => hsafe.value hword⟩

end Lrpt
