import Mathlib

/-! # UAT Error Correction

    Shortened Reed-Solomon codes over GF(256) with the polynomial `0x187` and
    the first root 120, decoded in logarithms: Berlekamp-Massey, Chien search
    over the positions that are sent, Forney, and a last check of the
    syndromes.
-/

namespace Uat

def FIELD : Nat := 255
def A0 : Nat := FIELD

/-! ## Field tables -/

structure Gf where
  alpha : List UInt8
  index : List Nat

namespace Gf

def double (value : Nat) : Nat :=
  let value := value <<< 1
  (if value &&& 0x100 ≠ 0 then value ^^^ 0x187 else value) &&& 0xff

/-- The tables after the powers below `i` have been entered; `value` is the
    power `i`. -/
def fill (tables : Gf × Nat) (i : Nat) : Gf × Nat :=
  let (gf, value) := tables
  (⟨gf.alpha.set i value.toUInt8, gf.index.set value i⟩, double value)

def new : Gf :=
  let gf := ((List.range FIELD).foldl fill
    (⟨List.replicate 256 0, List.replicate 256 A0⟩, 1)).1
  { gf with alpha := gf.alpha.set FIELD 0 }

/-- The power `n` of the generator. -/
def pow (gf : Gf) (n : Nat) : UInt8 := gf.alpha.getD (n % FIELD) 0

/-- The logarithm of a byte, `A0` for zero. -/
def log (gf : Gf) (byte : UInt8) : Nat := gf.index.getD byte.toNat A0

end Gf

/-! ## Decoding -/

/-- One byte more of every syndrome. -/
def feedSyndromes (gf : Gf) (syndromes : List UInt8) (byte : UInt8) : List UInt8 :=
  syndromes.mapIdx fun i s => if s = 0 then byte else byte ^^^ gf.pow (gf.log s + (120 + i))

def syndromesOf (gf : Gf) (raw : List UInt8) (roots : Nat) : List UInt8 :=
  raw.tail.foldl (feedSyndromes gf) (List.replicate roots (raw.headD 0))

/-- The state of the Berlekamp-Massey iteration: the locator, the logarithms
    of the correction polynomial, and the length of the register. -/
structure Massey where
  lambda : List UInt8
  b      : List Nat
  el     : Nat

namespace Massey

def discrepancy (gf : Gf) (si : List Nat) (lambda : List UInt8) (r : Nat) : UInt8 :=
  (List.range r).foldl (fun discrepancy i =>
    if lambda.getD i 0 ≠ 0 ∧ si.getD (r - i - 1) A0 ≠ A0 then
      discrepancy ^^^ gf.pow (gf.log (lambda.getD i 0) + si.getD (r - i - 1) A0)
    else discrepancy) 0

def step (gf : Gf) (si : List Nat) (roots : Nat) (state : Massey) (r : Nat) : Massey :=
  let dlog := gf.log (discrepancy gf si state.lambda r)
  if dlog = A0 then { state with b := A0 :: state.b.take roots }
  else
    let t := state.lambda.getD 0 0 :: (List.range roots).map fun i =>
      if state.b.getD i A0 ≠ A0 then
        state.lambda.getD (i + 1) 0 ^^^ gf.pow (dlog + state.b.getD i A0)
      else state.lambda.getD (i + 1) 0
    if 2 * state.el < r then
      ⟨t, state.lambda.map fun x => if x = 0 then A0 else (gf.log x + FIELD - dlog) % FIELD,
        r - state.el⟩
    else ⟨t, A0 :: state.b.take roots, state.el⟩

def run (gf : Gf) (si : List Nat) (roots : Nat) : Massey :=
  let lambda := 1 :: List.replicate roots 0
  ((List.range roots).map (· + 1)).foldl (step gf si roots) ⟨lambda, lambda.map gf.log, 0⟩

end Massey

/-- The position of the last coefficient that is not zero. -/
def degreeOf (lambdaLog : List Nat) : Nat :=
  (List.range lambdaLog.length).foldl
    (fun degree i => if lambdaLog.getD i A0 ≠ A0 then i else degree) 0

/-- The registers of the search after one more step. -/
def advance (degree : Nat) (reg : List Nat) : List Nat :=
  reg.mapIdx fun j r => if 1 ≤ j ∧ j ≤ degree ∧ r ≠ A0 then (r + j) % FIELD else r

/-- The value of the locator for registers that have just been advanced. -/
def evaluate (gf : Gf) (degree : Nat) (reg : List Nat) : UInt8 :=
  ((List.range degree).map (· + 1)).reverse.foldl
    (fun q j => if reg.getD j A0 ≠ A0 then q ^^^ gf.alpha.getD (reg.getD j A0) 0 else q) 1

/-- The search over the given positions; a root in the padding is refused. -/
def chien (gf : Gf) (degree pad : Nat) : List Nat → List Nat → List Nat → Option (List Nat)
  | [], _, found => some found
  | i :: later, reg, found =>
    let reg := advance degree reg
    if evaluate gf degree reg = 0 then
      if i - 1 < pad then none
      else if (found ++ [i]).length = degree then some (found ++ [i])
      else chien gf degree pad later reg (found ++ [i])
    else chien gf degree pad later reg found

/-- The logarithms of the error evaluator. -/
def evaluator (gf : Gf) (si lambdaLog : List Nat) (degree : Nat) : List Nat :=
  (List.range degree).map fun i => gf.log ((List.range (i + 1)).foldl (fun value j =>
    if si.getD (i - j) A0 ≠ A0 ∧ lambdaLog.getD j A0 ≠ A0 then
      value ^^^ gf.pow (si.getD (i - j) A0 + lambdaLog.getD j A0)
    else value) 0)

/-- The value of the error at one root; `none` when the derivative vanishes. -/
def forney (gf : Gf) (omega lambdaLog : List Nat) (roots degree root : Nat) : Option UInt8 :=
  let numerator := (List.range degree).reverse.foldl (fun sum i =>
    if omega.getD i A0 ≠ A0 then sum ^^^ gf.pow (omega.getD i A0 + i * root) else sum) 0
  if numerator = 0 then some 0
  else
    let numerator2 := gf.pow (root * 119 + FIELD)
    let denominator := ((List.range (min degree (roots - 1) + 1)).filter (· % 2 = 0)).foldl
      (fun sum i =>
        if lambdaLog.getD (i + 1) A0 ≠ A0 then
          sum ^^^ gf.pow (lambdaLog.getD (i + 1) A0 + i * root)
        else sum) 0
    if denominator = 0 then none
    else some (gf.alpha.getD
      ((gf.log numerator + gf.log numerator2 + FIELD - gf.log denominator) % FIELD) 0)

/-- The syndrome `i` of the corrections. -/
def syndromeAt (gf : Gf) (corrections : List (Nat × UInt8)) (i : Nat) : UInt8 :=
  corrections.foldl (fun actual c =>
    if c.2 ≠ 0 then
      actual ^^^ gf.pow (gf.log c.2 + ((120 + i) * (FIELD - c.1 - 1)) % FIELD)
    else actual) 0

/-- Each correction is a position in the full code and what to add there. -/
def applyCorrections (raw : List UInt8) (pad : Nat) (corrections : List (Nat × UInt8)) : List UInt8 :=
  corrections.foldl (fun corrected c =>
    if c.2 ≠ 0 then corrected.set (c.1 - pad) (corrected.getD (c.1 - pad) 0 ^^^ c.2)
    else corrected) raw

def decodeShortened (raw : List UInt8) (roots pad : Nat) : Option (List UInt8 × Nat) :=
  if raw.length + pad ≠ FIELD ∨ roots = 0 ∨ roots ≥ FIELD then none
  else
    let gf := Gf.new
    let syndromes := syndromesOf gf raw roots
    if syndromes.all (· = 0) then some (raw.take (raw.length - roots), 0)
    else
      let si := syndromes.map gf.log
      let lambdaLog := (Massey.run gf si roots).lambda.map gf.log
      let degree := degreeOf lambdaLog
      if degree = 0 then none
      else do
        let rootsAt ← chien gf degree pad ((List.range FIELD).map (· + 1)) lambdaLog []
        if rootsAt.length ≠ degree then none
        else
          let omega := evaluator gf si lambdaLog degree
          let values ← rootsAt.mapM (forney gf omega lambdaLog roots degree)
          let corrections := (rootsAt.map (· - 1)).zip values
          if (List.range roots).all fun i =>
              syndromeAt gf corrections i = syndromes.getD i 0 then
            let corrected := applyCorrections raw pad corrections
            some (corrected.take (corrected.length - roots), (values.filter (· ≠ 0)).length)
          else none

/-! ## Frames -/

def isShort (payload : List UInt8) : Bool := payload.headD 0 >>> 3 = 0

def correctDownlink (raw : List UInt8) : Option (List UInt8 × Nat) :=
  if raw.length = 30 then (decodeShortened raw 12 225).filter fun result => isShort result.1
  else if raw.length ≠ 48 then none
  else
    ((decodeShortened raw 14 207).filter fun result => !isShort result.1).or
      ((decodeShortened (raw.take 30) 12 225).filter fun result => isShort result.1)

/-- One of the six interleaved blocks. -/
def uplinkBlock (raw : List UInt8) (block : Nat) : List UInt8 :=
  (List.range 92).map fun i => raw.getD (i * 6 + block) 0

def correctUplink (raw : List UInt8) : Option (List UInt8 × Nat) :=
  if raw.length ≠ 552 then none
  else
    ((List.range 6).mapM fun block => decodeShortened (uplinkBlock raw block) 20 163).map
      fun blocks => (blocks.flatMap Prod.fst, (blocks.map Prod.snd).sum)

end Uat
