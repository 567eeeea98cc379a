import EzSdr.Lrpt.Viterbi

/-! # Distance of the Convolutional Code

    The code of the decoder as a trellis, and how far two of its words are
    apart: the difference of two paths is again a path of the encoder, up to
    the inverted output bits, so that the distance is the weight of a walk
    from the zero state.

    **`distance_ge`**: words that differ in some bit, and go on for 19 steps
    after it, differ in at least nine places.
-/

namespace Lrpt.Viterbi

/-! ## The trellis -/

def trellis : Trellis (Fin STATES) Bool (UInt8 × UInt8) where
  next state input := nextState state input.toUInt8
  emit state input := expected state input.toUInt8
  last state := state.val.testBit 5
  last_next := by decide

theorem stateBit_eq (state : Fin STATES) : stateBit state = (trellis.last state).toUInt8 := by
  revert state
  decide

/-- The state is a shift register: the new bit comes in at the top. -/
theorem next_val : ∀ (s : Fin STATES) (b : Bool),
    (trellis.next s b).val = s.val / 2 + 32 * b.toNat := by
  decide

theorem trellis_forgets : trellis.Forgets 6 := by
  intro s t us hus
  have hs : s.val < 64 := s.isLt
  have ht : t.val < 64 := t.isLt
  match us with
  | [a, b, c, d, e, f] =>
    apply Fin.ext
    simp only [Trellis.endState, List.foldl_cons, List.foldl_nil, next_val]
    omega

/-! ## Mismatches -/

theorem mismatches_comm (x y : UInt8 × UInt8) : mismatches x y = mismatches y x := by
  simp only [mismatches, ne_comm]

theorem mismatches_le (x y : UInt8 × UInt8) : mismatches x y ≤ 2 := by
  unfold mismatches
  split <;> split <;> omega

theorem mismatches_triangle (x y z : UInt8 × UInt8) :
    mismatches x z ≤ mismatches x y + mismatches y z := by
  -- a place in which the outer two differ is one in which the middle one differs
  have hplace : ∀ a b c : UInt8, (if a ≠ c then 1 else 0) ≤
      (if a ≠ b then 1 else 0) + (if b ≠ c then 1 else 0) := by
    intro a b c
    by_cases hab : a = b
    · rw [hab]
      exact Nat.le_add_left _ _
    · rw [if_pos hab]
      split <;> omega
  have hfirst := hplace x.1 y.1 z.1
  have hsecond := hplace x.2 y.2 z.2
  unfold mismatches
  omega

theorem mismatches_congr {x y x' y' : UInt8 × UInt8} (hfirst : x.1 ^^^ y.1 = x'.1 ^^^ y'.1)
    (hsecond : x.2 ^^^ y.2 = x'.2 ^^^ y'.2) : mismatches x y = mismatches x' y' := by
  have hplace : ∀ {a b a' b' : UInt8}, a ^^^ b = a' ^^^ b' → (a ≠ b ↔ a' ≠ b') := by
    intro a b a' b' h
    rw [ne_eq, ne_eq, ← UInt8.xor_eq_zero_iff, h, UInt8.xor_eq_zero_iff]
  simp only [mismatches, hplace hfirst, hplace hsecond]

/-! ## Linearity -/

theorem filter_xor_length {α : Type*} (p q : α → Bool) (xs : List α) :
    (xs.filter fun x => p x ^^ q x).length % 2 =
      ((xs.filter p).length + (xs.filter q).length) % 2 := by
  induction xs with
  | nil => rfl
  | cons x xs ih =>
    cases hp : p x <;> cases hq : q x <;> simp [hp, hq] <;> omega

theorem parity_eq (v : UInt8) : parity v = (countOnes v % 2).toUInt8 := by
  have hle : countOnes v ≤ 8 := List.length_filter_le _ _
  have hall : ∀ n : Fin 9, n.val.toUInt8 &&& 1 = (n.val % 2).toUInt8 := by decide
  exact hall ⟨countOnes v, by omega⟩

theorem parity_xor (v w : UInt8) : parity (v ^^^ w) = parity v ^^^ parity w := by
  have hcount : countOnes (v ^^^ w) % 2 = (countOnes v + countOnes w) % 2 := by
    have hbits : ∀ i, (v ^^^ w).toBitVec.getLsbD i =
        (v.toBitVec.getLsbD i ^^ w.toBitVec.getLsbD i) := by
      intro i
      rw [UInt8.toBitVec_xor, BitVec.getLsbD_xor]
    unfold countOnes
    simp only [hbits]
    exact filter_xor_length _ _ _
  rw [parity_eq, parity_eq, parity_eq, hcount]
  rcases Nat.mod_two_eq_zero_or_one (countOnes v) with hv | hv <;>
    rcases Nat.mod_two_eq_zero_or_one (countOnes w) with hw | hw <;>
    rw [Nat.add_mod, hv, hw] <;> decide

theorem val_xor (s t : Fin STATES) : (s ^^^ t).val = s.val ^^^ t.val :=
  Nat.mod_eq_of_lt (@Nat.xor_lt_two_pow s.val t.val 6 s.isLt t.isLt)

theorem xor_self (s : Fin STATES) : s ^^^ s = 0 :=
  Fin.ext ((val_xor s s).trans (Nat.xor_self s.val))

theorem register_xor (s t : Fin STATES) (u v : Bool) :
    register (s ^^^ t) (u ^^ v).toUInt8 =
      register s u.toUInt8 ^^^ register t v.toUInt8 := by
  have hsplit : ∀ (s : Fin STATES) (u : Bool),
      register s u.toUInt8 = s.val.toUInt8 ^^^ register 0 u.toUInt8 := by decide
  have hinput : ∀ u v : Bool, register 0 (u ^^ v).toUInt8 =
      register 0 u.toUInt8 ^^^ register 0 v.toUInt8 := by decide
  have hstate : (s ^^^ t).val.toUInt8 = s.val.toUInt8 ^^^ t.val.toUInt8 := by
    rw [val_xor]
    exact UInt8.ofNat_xor _ _
  rw [hsplit, hinput, hstate, hsplit s, hsplit t]
  ac_rfl

theorem next_xor (s t : Fin STATES) (u v : Bool) :
    trellis.next (s ^^^ t) (u ^^ v) = trellis.next s u ^^^ trellis.next t v := by
  have hsplit : ∀ (s : Fin STATES) (u : Bool),
      (trellis.next s u).val = (s.val >>> 1) ^^^ (trellis.next 0 u).val := by decide
  have hinput : ∀ u v : Bool, (trellis.next 0 (u ^^ v)).val =
      (trellis.next 0 u).val ^^^ (trellis.next 0 v).val := by decide
  apply Fin.ext
  rw [val_xor, hsplit, hsplit s, hsplit t, hinput, val_xor, Nat.shiftRight_xor_distrib]
  ac_rfl

/-- In how many bits the symbols of two edges differ, given the difference of
    the states and of the inputs. -/
def stepWeight (x : Fin STATES) (b : Bool) : Nat :=
  mismatches (trellis.emit x b) (trellis.emit zeroState false)

theorem mismatches_emit (s t : Fin STATES) (u v : Bool) :
    mismatches (trellis.emit s u) (trellis.emit t v) = stepWeight (s ^^^ t) (u ^^ v) := by
  -- the inverted output bits cancel, and so does the word of the zero state
  have hbit : ∀ g : UInt8,
      (parity (register s u.toUInt8 &&& g) ^^^ 1) ^^^ (parity (register t v.toUInt8 &&& g) ^^^ 1) =
        (parity (register (s ^^^ t) (u ^^ v).toUInt8 &&& g) ^^^ 1) ^^^
          (parity (register 0 false.toUInt8 &&& g) ^^^ 1) := by
    intro g
    have hzero : parity (register 0 false.toUInt8 &&& g) = 0 := by
      have hregister : register 0 false.toUInt8 = 0 := by decide
      rw [hregister, UInt8.zero_and]
      decide
    have hxor : register (s ^^^ t) (u ^^ v).toUInt8 &&& g =
        (register s u.toUInt8 &&& g) ^^^ (register t v.toUInt8 &&& g) := by
      rw [register_xor]
      apply UInt8.eq_of_toBitVec_eq
      ext i
      simp [Bool.and_xor_distrib_right]
    rw [hzero, hxor, parity_xor, UInt8.zero_xor]
    ac_rfl
  exact mismatches_congr (hbit G1) (hbit G2)

/-- The distance of two words is the weight of the walk of their difference. -/
theorem distance_encode (s t : Fin STATES) {us vs : List Bool} (h : us.length = vs.length) :
    Trellis.distance mismatches (trellis.encode s us) (trellis.encode t vs) =
      Trellis.weight trellis.next stepWeight (s ^^^ t) (List.zipWith xor us vs) := by
  induction us generalizing s t vs with
  | nil => rw [List.eq_nil_of_length_eq_zero h.symm]; rfl
  | cons u us ih =>
    match vs with
    | v :: vs =>
      show Trellis.distance mismatches (trellis.emit s u :: _) (trellis.emit t v :: _) =
        stepWeight (s ^^^ t) (u ^^ v) + Trellis.weight _ _ (trellis.next (s ^^^ t) (u ^^ v)) _
      rw [Trellis.distance_cons, mismatches_emit, ih _ _ (Nat.succ.inj h), next_xor]

/-! ## Potentials -/

/-- The least weight of a walk from the zero state. -/
def forwardTable : List Nat :=
  [0, 8, 7, 7, 7, 5, 6, 6, 5, 7, 4, 8, 4, 6, 5, 7, 3, 7, 6, 6, 4, 4, 7, 7, 4, 6, 5, 7, 5, 7, 6, 6,
   2, 8, 5, 7, 5, 5, 4, 6, 3, 7, 4, 8, 6, 6, 7, 7, 3, 5, 6, 4, 4, 6, 7, 7, 4, 4, 5, 7, 5, 5, 6, 6]

def forward (x : Fin STATES) : Nat := forwardTable.getD x.val 0

theorem forward_step : ∀ (x : Fin STATES) (b : Bool),
    forward (trellis.next x b) ≤ forward x + stepWeight x b := by
  decide

/-- From what the rest of a walk weighs, for each state, what it weighs with one step before it. -/
def stepBack (table : List Nat) : List Nat :=
  (List.finRange STATES).map fun x =>
    min (stepWeight x false + table.getD (trellis.next x false).val 0)
      (stepWeight x true + table.getD (trellis.next x true).val 0)

theorem stepBack_le (table : List Nat) (x : Fin STATES) (b : Bool) :
    (stepBack table).getD x.val 0 ≤ stepWeight x b + table.getD (trellis.next x b).val 0 := by
  have hentry : (stepBack table).getD x.val 0 =
      min (stepWeight x false + table.getD (trellis.next x false).val 0)
        (stepWeight x true + table.getD (trellis.next x true).val 0) := by
    simp [stepBack, List.getD_eq_getElem?_getD]
  rw [hentry]
  match b with
  | false => exact Nat.min_le_left _ _
  | true => exact Nat.min_le_right _ _

/-- The least weight of a walk of `n` steps, for each state it may start in. -/
def backwardTable : Nat → List Nat
  | 0 => List.replicate STATES 0
  | n + 1 => stepBack (backwardTable n)

def backward (n : Nat) (x : Fin STATES) : Nat := (backwardTable n).getD x.val 0

theorem backward_zero (x : Fin STATES) : backward 0 x = 0 := by
  simp [backward, backwardTable]

theorem backward_step (n : Nat) (x : Fin STATES) (b : Bool) :
    backward (n + 1) x ≤ stepWeight x b + backward n (trellis.next x b) :=
  stepBack_le (backwardTable n) x b

theorem backwardTable_nineteen : backwardTable 19 =
    [0, 2, 3, 3, 3, 5, 4, 4, 5, 3, 6, 6, 6, 4, 5, 5, 6, 5, 4, 4, 5, 5, 6, 6, 6, 6, 5, 5, 5, 6, 5, 5,
     7, 7, 6, 5, 5, 5, 6, 4, 6, 6, 5, 6, 6, 6, 6, 5, 6, 6, 6, 6, 6, 6, 5, 5, 6, 6, 5, 6, 6, 6, 5,
     5] := by
  decide +kernel

/-- A walk from the zero state with a one in it: what leads there, that step,
    and the steps after it weigh at least nine. -/
theorem forward_backward : ∀ x : Fin STATES,
    9 ≤ forward x + stepWeight x true + backward 19 (trellis.next x true) := by
  unfold backward
  rw [backwardTable_nineteen]
  decide

theorem weight_ge (ds es : List Bool) (hes : 19 ≤ es.length) :
    9 ≤ Trellis.weight trellis.next stepWeight 0 (ds ++ true :: es) := by
  have hbefore : forward (ds.foldl trellis.next 0) ≤
      forward 0 + Trellis.weight trellis.next stepWeight 0 ds :=
    Trellis.forward_le forward_step 0 ds
  have hsuffix : backward 19 (trellis.next (ds.foldl trellis.next 0) true) ≤
      Trellis.weight trellis.next stepWeight (trellis.next (ds.foldl trellis.next 0) true) es :=
    Trellis.backward_le backward_zero backward_step hes _
  have hmiddle := forward_backward (ds.foldl trellis.next 0)
  have hzero : forward 0 = 0 := rfl
  rw [Trellis.weight_append]
  show 9 ≤ _ + (stepWeight _ true + Trellis.weight _ _ _ es)
  omega

/-- **Distance of the code.** -/
theorem distance_ge (s : Fin STATES) {us vs : List Bool} (h : us.length = vs.length) {j : Nat}
    (hj : j + 20 ≤ us.length) (hne : us[j]? ≠ vs[j]?) :
    9 ≤ Trellis.distance mismatches (trellis.encode s us) (trellis.encode s vs) := by
  set ds := List.zipWith xor us vs with hds
  have hlen : ds.length = us.length := by
    rw [hds, List.length_zipWith, h, Nat.min_self]
  have hbit : ds[j]? = some true := by
    have hus : us[j]? = some us[j] := List.getElem?_eq_getElem _
    have hvs : vs[j]? = some vs[j] := List.getElem?_eq_getElem _
    rw [hus, hvs] at hne
    rw [hds, List.getElem?_zipWith, hus, hvs]
    simpa using hne
  obtain ⟨hlt, hget⟩ := List.getElem?_eq_some_iff.mp hbit
  have hsplit : ds = ds.take j ++ true :: ds.drop (j + 1) := by
    rw [← hget, List.getElem_cons_drop, List.take_append_drop]
  rw [distance_encode s s h, ← hds, hsplit, xor_self]
  refine weight_ge _ _ ?_
  rw [List.length_drop, hlen]
  omega

end Lrpt.Viterbi
