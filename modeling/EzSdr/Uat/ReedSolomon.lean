import EzSdr.Uat.Locator

/-! # The Reed-Solomon Decoder of the UAT Frames

    The errors that have been located are corrected, and a last check of the
    syndromes decides whether the result is a code word.

    * **`decodeShortened_correct`**: the decoder finds a code word at a distance of at
      most half the number of roots whenever there is one, and what it returns is
      always taken from a code word at the distance it returns.
    * **`correctUplink_correct`**, **`correctDownlink_correct`**: the same for the frames
      of six interleaved blocks, and for the two kinds of short frames. -/

namespace Uat

open Polynomial KeyEquation

variable {raw word : List UInt8} {roots pad : ℕ}

/-! ## Section 1: Corrections -/

theorem distance_self (raw : List UInt8) : distance raw raw = 0 := by
  unfold distance errors
  simp

theorem getD_set (word : List UInt8) (i j : ℕ) (a : UInt8) :
    (word.set j a).getD i 0 = if j = i ∧ j < word.length then a else word.getD i 0 := by
  rw [List.getD_eq_getElem?_getD, List.getElem?_set, List.getD_eq_getElem?_getD]
  by_cases hji : j = i
  · subst hji
    by_cases hj : j < word.length
    · simp [hj]
    · simp [hj]
  · simp [hji]

theorem ne_xor_iff {a b : UInt8} : b ≠ b ^^^ a ↔ a ≠ 0 := by
  rw [not_iff_not, ← sym_eq_zero]
  constructor
  · intro h
    have hsym := congrArg sym h
    rwa [sym_xor, left_eq_add] at hsym
  · intro h
    rw [sym_eq_zero.1 h, UInt8.xor_zero]

/-- What one correction adds to the value of a word. -/
theorem value_set {j : ℕ} (hj : j < raw.length) {a : UInt8} (ha : a ≠ 0) (x : Symbol) :
    value x (raw.set j (raw.getD j 0 ^^^ a)) = value x raw + sym a * x ^ (raw.length - 1 - j) := by
  have herrors : errors (raw.set j (raw.getD j 0 ^^^ a)) raw = {j} := by
    ext i
    rw [mem_errors, List.length_set, getD_set, Finset.mem_singleton]
    by_cases hji : j = i
    · subst hji
      simp [hj, ha]
    · simp [hji, Ne.symm hji]
  have hamount : amount (raw.set j (raw.getD j 0 ^^^ a)) raw j = sym a := by
    unfold amount
    rw [getD_set, if_pos ⟨rfl, hj⟩, UInt8.xor_comm (raw.getD j 0), UInt8.xor_assoc, UInt8.xor_self,
      UInt8.xor_zero]
  have hadd := @value_add_errors (raw.set j (raw.getD j 0 ^^^ a)) raw (by rw [List.length_set]) x
  rw [hadd, herrors, Finset.sum_singleton, hamount, List.length_set]

/-- Corrections at distinct positions of the word. -/
structure Placed (raw : List UInt8) (pad : ℕ) (corrections : List (ℕ × UInt8)) : Prop where
  length : raw.length + pad = FIELD
  nodup  : (corrections.map Prod.fst).Nodup
  range  : ∀ c ∈ corrections, pad ≤ c.1 ∧ c.1 < FIELD

variable {corrections : List (ℕ × UInt8)}

/-- One correction. -/
def correctOne (pad : ℕ) (raw : List UInt8) (c : ℕ × UInt8) : List UInt8 :=
  if c.2 ≠ 0 then raw.set (c.1 - pad) (raw.getD (c.1 - pad) 0 ^^^ c.2) else raw

theorem applyCorrections_cons (raw : List UInt8) (pad : ℕ) (c : ℕ × UInt8)
    (corrections : List (ℕ × UInt8)) : applyCorrections raw pad (c :: corrections) =
      applyCorrections (correctOne pad raw c) pad corrections := rfl

theorem length_correctOne (pad : ℕ) (raw : List UInt8) (c : ℕ × UInt8) :
    (correctOne pad raw c).length = raw.length := by
  unfold correctOne
  split
  · rw [List.length_set]
  · rfl

theorem Placed.tail {c : ℕ × UInt8} (h : Placed raw pad (c :: corrections)) :
    Placed (correctOne pad raw c) pad corrections where
  length := by rw [length_correctOne, h.length]
  nodup := (List.nodup_cons.1 h.nodup).2
  range := fun d hd => h.range d (List.mem_cons_of_mem c hd)

theorem length_applyCorrections (raw : List UInt8) (pad : ℕ) (corrections : List (ℕ × UInt8)) :
    (applyCorrections raw pad corrections).length = raw.length := by
  induction corrections generalizing raw with
  | nil => rfl
  | cons c corrections ih => rw [applyCorrections_cons, ih, length_correctOne]

theorem getD_correctOne (pad : ℕ) (raw : List UInt8) (c : ℕ × UInt8) (j : ℕ) :
    (correctOne pad raw c).getD j 0 =
      if c.1 - pad = j ∧ c.1 - pad < raw.length then raw.getD j 0 ^^^ c.2 else raw.getD j 0 := by
  unfold correctOne
  split
  · rw [getD_set]
    split
    · next h => rw [h.1]
    · rfl
  · next hzero =>
    rw [not_not.1 hzero, UInt8.xor_zero, ite_self]

/-- A byte without a correction stays as it is. -/
theorem Placed.getD_of_notMem (h : Placed raw pad corrections) {j : ℕ}
    (hj : j + pad ∉ corrections.map Prod.fst) :
    (applyCorrections raw pad corrections).getD j 0 = raw.getD j 0 := by
  induction corrections generalizing raw with
  | nil => rfl
  | cons c corrections ih =>
    rw [List.map_cons, List.mem_cons, not_or] at hj
    have hpad := (h.range c (List.mem_cons_self ..)).1
    rw [applyCorrections_cons, ih h.tail hj.2, getD_correctOne, if_neg]
    rintro ⟨hcj, -⟩
    exact hj.1 (by omega)

/-- A byte with a correction is corrected once. -/
theorem Placed.getD_of_mem (h : Placed raw pad corrections) {j : ℕ} {a : UInt8}
    (hj : (j + pad, a) ∈ corrections) :
    (applyCorrections raw pad corrections).getD j 0 = raw.getD j 0 ^^^ a := by
  induction corrections generalizing raw with
  | nil => cases hj
  | cons c corrections ih =>
    have hnodup := (List.nodup_cons.1 h.nodup).1
    have hlength := h.length
    have hrange := h.range
    rcases List.mem_cons.1 hj with rfl | htail
    · have hlt := (hrange _ (List.mem_cons_self ..)).2
      rw [applyCorrections_cons, h.tail.getD_of_notMem hnodup, getD_correctOne, if_pos]
      exact ⟨by omega, by omega⟩
    · have hne : c.1 ≠ j + pad := by
        rintro hcj
        exact hnodup (List.mem_map.2 ⟨_, htail, hcj.symm⟩)
      have hpad := (hrange c (List.mem_cons_self ..)).1
      rw [applyCorrections_cons, ih h.tail htail, getD_correctOne, if_neg]
      rintro ⟨hcj, -⟩
      exact hne (by omega)

/-- What the corrections add to the value of a word. -/
theorem Placed.value (h : Placed raw pad corrections) (x : Symbol) :
    value x (applyCorrections raw pad corrections) = value x raw +
      (corrections.map fun c => sym c.2 * x ^ (FIELD - c.1 - 1)).sum := by
  induction corrections generalizing raw with
  | nil => exact (add_zero _).symm
  | cons c corrections ih =>
    obtain ⟨hpad, hlt⟩ := h.range c (List.mem_cons_self ..)
    have hlength := h.length
    have hone : Uat.value x (correctOne pad raw c) =
        Uat.value x raw + sym c.2 * x ^ (FIELD - c.1 - 1) := by
      unfold correctOne
      split
      · next hne =>
        rw [value_set (by omega) hne, show raw.length - 1 - (c.1 - pad) = FIELD - c.1 - 1 by omega]
      · next hzero => rw [not_not.1 hzero, sym_zero, zero_mul, add_zero]
    rw [applyCorrections_cons, ih h.tail, hone, List.map_cons, List.sum_cons, add_assoc]

/-- The syndromes of the corrections, as the last check computes them. -/
theorem sym_syndromeAt (corrections : List (ℕ × UInt8)) (k : ℕ) :
    sym (syndromeAt Gf.new corrections k) =
      (corrections.map fun c => sym c.2 * (α ^ (120 + k)) ^ (FIELD - c.1 - 1)).sum := by
  unfold syndromeAt
  rw [sym_foldl, sym_zero, zero_add]
  congr 1
  apply List.map_congr_left
  intro c _
  split
  · next hne => rw [sym_pow, pow_add, α_pow_mod, sym_log hne, pow_mul]
  · next hzero => rw [not_not.1 hzero, sym_zero, zero_mul]

/-- The last check passes exactly if the corrected word is a code word. -/
theorem Placed.isCodeword_iff (h : Placed raw pad corrections) (hraw : raw ≠ []) :
    IsCodeword roots (applyCorrections raw pad corrections) ↔
      ∀ k < roots, syndromeAt Gf.new corrections k = (syndromesOf Gf.new raw roots).getD k 0 := by
  unfold IsCodeword
  refine forall₂_congr fun k hk => ?_
  rw [h.value, ← sym_syndromeAt, ← sym_syndromesOf hraw hk, CharTwo.add_eq_zero]
  exact ⟨fun hsame => sym_injective hsame.symm, fun hsame => congrArg sym hsame.symm⟩

/-- The corrections that change something count the distance. -/
theorem Placed.distance (h : Placed raw pad corrections) :
    distance raw (applyCorrections raw pad corrections) =
      (corrections.filter fun c => c.2 ≠ 0).length := by
  have hlength := h.length
  have himage : errors raw (applyCorrections raw pad corrections) =
      ((corrections.filter fun c => c.2 ≠ 0).map fun c => c.1 - pad).toFinset := by
    ext j
    rw [mem_errors, List.mem_toFinset, List.mem_map]
    constructor
    · rintro ⟨hj, hne⟩
      by_cases hmem : j + pad ∈ corrections.map Prod.fst
      · obtain ⟨⟨i, a⟩, hc, rfl⟩ := List.mem_map.1 hmem
        rw [h.getD_of_mem hc] at hne
        refine ⟨(j + pad, a), List.mem_filter.2 ⟨hc, ?_⟩, Nat.add_sub_cancel ..⟩
        exact decide_eq_true (ne_xor_iff.1 hne)
      · exact absurd (h.getD_of_notMem hmem).symm hne
    · rintro ⟨⟨i, a⟩, hc, rfl⟩
      obtain ⟨hc, ha⟩ := List.mem_filter.1 hc
      obtain ⟨hpad, hlt⟩ : pad ≤ i ∧ i < FIELD := h.range _ hc
      show i - pad < raw.length ∧ raw.getD (i - pad) 0 ≠ _
      rw [← Nat.sub_add_cancel hpad] at hc
      refine ⟨by omega, ?_⟩
      rw [h.getD_of_mem hc]
      exact ne_xor_iff.2 (of_decide_eq_true ha)
  have hnodup : ((corrections.filter fun c => c.2 ≠ 0).map fun c => c.1 - pad).Nodup := by
    have hfst : ((corrections.filter fun c => c.2 ≠ 0).map Prod.fst).Nodup :=
      h.nodup.sublist (List.filter_sublist.map Prod.fst)
    rw [show (fun c : ℕ × UInt8 => c.1 - pad) = (· - pad) ∘ Prod.fst from rfl, ← List.map_map]
    apply hfst.map_on
    intro a ha b hb hab
    obtain ⟨c, hc, rfl⟩ := List.mem_map.1 ha
    obtain ⟨d, hd, rfl⟩ := List.mem_map.1 hb
    have hcpad := (h.range c (List.mem_of_mem_filter hc)).1
    have hdpad := (h.range d (List.mem_of_mem_filter hd)).1
    omega
  unfold Uat.distance
  rw [himage, List.toFinset_card_of_nodup hnodup, List.length_map]

/-! ## Section 2: The decoder -/

theorem range_add_one (n : ℕ) : (List.range n).map (· + 1) = List.range' 1 n := by
  rw [List.range'_eq_map_range]
  exact List.map_congr_left fun i _ => add_comm i 1

/-- Corrections at positions of the search are at distinct positions of the word. -/
theorem placed_zip (hlength : raw.length + pad = FIELD) {rootsAt : List ℕ} {values : List UInt8}
    (hsub : rootsAt.Sublist (List.range' 1 FIELD)) (hpad : ∀ i ∈ rootsAt, pad ≤ i - 1)
    (hvalues : values.length = rootsAt.length) :
    Placed raw pad ((rootsAt.map (· - 1)).zip values) where
  length := hlength
  nodup := by
    rw [List.map_fst_zip (by rw [List.length_map, hvalues])]
    have hnodup : rootsAt.Nodup := List.Nodup.sublist hsub List.nodup_range'
    apply hnodup.map_on
    intro i hi j hj hij
    have hi := List.mem_range'_1.1 (hsub.subset hi)
    have hj := List.mem_range'_1.1 (hsub.subset hj)
    omega
  range := by
    rintro ⟨c, a⟩ hc
    obtain ⟨i, hi, rfl⟩ := List.mem_map.1 (List.of_mem_zip hc).1
    have hrange := List.mem_range'_1.1 (hsub.subset hi)
    exact ⟨hpad i hi, show i - 1 < FIELD by omega⟩

theorem length_filter_zip {rootsAt : List ℕ} {values : List UInt8}
    (hvalues : values.length = rootsAt.length) :
    (((rootsAt.map (· - 1)).zip values).filter fun c => c.2 ≠ 0).length =
      (values.filter (· ≠ 0)).length := by
  have hsnd : ((rootsAt.map (· - 1)).zip values).map Prod.snd = values :=
    List.map_snd_zip (by rw [List.length_map, hvalues])
  conv_rhs => rw [← hsnd, List.filter_map, List.length_map]
  rfl

/-- A loop of fallible calls succeeds exactly if all of them do. -/
theorem mapM_eq_some_iff {ι κ : Type*} {f : ι → Option κ} {list : List ι} {values : List κ} :
    list.mapM f = some values ↔ list.map f = values.map some := by
  induction list generalizing values with
  | nil =>
    constructor
    · intro h
      obtain rfl : [] = values := Option.some.inj h
      rfl
    · intro h
      rw [List.map_eq_nil_iff.1 h.symm]
      rfl
  | cons i list ih =>
    rw [List.mapM_cons, Option.bind_eq_bind, Option.bind_eq_some_iff, List.map_cons]
    constructor
    · rintro ⟨a, ha, h⟩
      rw [Option.bind_eq_bind, Option.bind_eq_some_iff] at h
      obtain ⟨rest, hrest, h⟩ := h
      obtain rfl : a :: rest = values := Option.some.inj h
      rw [List.map_cons, ha, ih.1 hrest]
    · intro h
      cases values with
      | nil => cases h
      | cons a rest =>
        rw [List.map_cons, List.cons.injEq] at h
        refine ⟨a, h.1, ?_⟩
        rw [ih.2 h.2]
        rfl

theorem eq_of_getD {a b : List UInt8} (hlength : a.length = b.length)
    (h : ∀ j < a.length, a.getD j 0 = b.getD j 0) : a = b := by
  apply List.ext_getElem hlength
  intro j ha hb
  rw [← List.getD_eq_getElem _ 0 ha, h j ha, List.getD_eq_getElem _ _ hb]

theorem eq_of_errors (hword : word.length = raw.length) (h : errors raw word = ∅) : raw = word := by
  apply eq_of_getD hword.symm
  intro j hj
  by_contra hne
  have hmem : j ∈ errors raw word := mem_errors.2 ⟨hj, hne⟩
  rw [h] at hmem
  cases hmem

/-- The syndromes of a code word vanish. -/
theorem syndromesOf_eq_zero (hraw : raw ≠ []) :
    (syndromesOf Gf.new raw roots).all (· = 0) = true ↔ IsCodeword roots raw := by
  rw [List.all_eq_true]
  constructor
  · intro hzero k hk
    have hlt : k < (syndromesOf Gf.new raw roots).length := by rwa [length_syndromesOf]
    rw [← sym_syndromesOf hraw hk, sym_eq_zero, List.getD_eq_getElem _ _ hlt]
    exact of_decide_eq_true (hzero _ (List.getElem_mem hlt))
  · intro hcode s hs
    obtain ⟨k, hk, rfl⟩ := List.mem_iff_getElem.1 hs
    have hroots : k < roots := by rwa [length_syndromesOf] at hk
    apply decide_eq_true
    rw [← List.getD_eq_getElem _ 0 hk, ← sym_eq_zero, sym_syndromesOf hraw hroots, hcode k hroots]

/-- What the decoder returns is taken from a code word, at the distance it returns. -/
theorem decodeShortened_sound (hraw : raw ≠ []) {data : List UInt8} {count : ℕ}
    (h : decodeShortened raw roots pad = some (data, count)) :
    ∃ word, word.length = raw.length ∧ IsCodeword roots word ∧ distance raw word = count ∧
      data = word.take (raw.length - roots) := by
  unfold decodeShortened at h
  dsimp only at h
  split at h
  · cases h
  next hok =>
  rw [not_or, not_or, not_not] at hok
  split at h
  · -- no syndrome: the word is a code word
    next hzero =>
    obtain ⟨rfl, rfl⟩ := Prod.mk.inj (Option.some.inj h)
    exact ⟨raw, rfl, (syndromesOf_eq_zero hraw).1 hzero, distance_self raw, rfl⟩
  split at h
  · cases h
  rw [Option.bind_eq_bind, Option.bind_eq_some_iff] at h
  obtain ⟨rootsAt, hchien, h⟩ := h
  split at h
  · cases h
  rw [Option.bind_eq_bind, Option.bind_eq_some_iff] at h
  obtain ⟨values, hvalues, h⟩ := h
  split at h
  · next hcheck =>
    obtain ⟨rfl, rfl⟩ := Prod.mk.inj (Option.some.inj h)
    rw [range_add_one] at hchien
    obtain ⟨_, rfl, hsub, hpad⟩ := chien_sublist hchien
    have hlength : values.length = rootsAt.length := by
      have hmap := congrArg List.length (mapM_eq_some_iff.1 hvalues)
      rw [List.length_map, List.length_map] at hmap
      exact hmap.symm
    have hplaced := placed_zip hok.1 hsub hpad hlength
    refine ⟨applyCorrections raw pad ((rootsAt.map (· - 1)).zip values), length_applyCorrections ..,
      ?_, ?_, ?_⟩
    · rw [hplaced.isCodeword_iff hraw]
      intro k hk
      exact of_decide_eq_true (List.all_eq_true.1 hcheck k (List.mem_range.2 hk))
    · rw [hplaced.distance, length_filter_zip hlength]
    · rw [length_applyCorrections]
  · cases h

open Classical in
/-- The search finds the positions of all errors. -/
theorem chien_errors (hlength : raw.length + pad = FIELD) {logs : List ℕ}
    (hlogs : ∀ i, ofLog (logs.getD i A0) =
      (locator (errors raw word) (place raw.length)).coeff i)
    (hsmall : ∀ j, logs.getD j A0 ≤ A0) :
    ∃ rootsAt,
      chien Gf.new (errors raw word).card pad (List.range' 1 FIELD) logs [] = some rootsAt ∧
      rootsAt.Sublist (List.range' 1 FIELD) ∧
      (∀ i, i ∈ rootsAt ↔ ∃ j ∈ errors raw word, j + pad + 1 = i) ∧
      rootsAt.length = (errors raw word).card := by
  obtain ⟨rootsAt, hrootsAt⟩ : ∃ rootsAt, rootsAt = (List.range' 1 FIELD).filter fun i =>
    eval (α ^ i) (locator (errors raw word) (place raw.length)) = 0 := ⟨_, rfl⟩
  have hmem : ∀ i, i ∈ rootsAt ↔ ∃ j ∈ errors raw word, j + pad + 1 = i := by
    intro i
    rw [hrootsAt, List.mem_filter, List.mem_range'_1, decide_eq_true_iff]
    constructor
    · rintro ⟨⟨hpos, hlt⟩, hroot⟩
      exact (locator_root hlength hpos (by omega)).1 hroot
    · rintro ⟨j, hj, rfl⟩
      have hlt := (mem_errors.1 hj).1
      exact ⟨⟨by omega, by omega⟩, (locator_root hlength (by omega) (by omega)).2 ⟨j, hj, rfl⟩⟩
  have hsub : rootsAt.Sublist (List.range' 1 FIELD) := hrootsAt ▸ List.filter_sublist
  -- no root lies in the padding, where the search gives up
  have hpad : ∀ i ∈ rootsAt, pad ≤ i - 1 := by
    intro i hi
    obtain ⟨j, -, rfl⟩ := (hmem i).1 hi
    omega
  have hcount : rootsAt.length = (errors raw word).card := by
    have hnodup : rootsAt.Nodup := List.Nodup.sublist hsub List.nodup_range'
    have himage : rootsAt.toFinset = (errors raw word).image (· + pad + 1) := by
      ext i
      rw [List.mem_toFinset, hmem, Finset.mem_image]
    rw [← List.toFinset_card_of_nodup hnodup, himage, Finset.card_image_of_injective]
    exact fun a b hab => by simpa using hab
  have hturned : Turned (errors raw word).card (locator (errors raw word) (place raw.length)) 0
      logs := by
    constructor
    case small => exact hsmall
    case terms => exact fun j _ _ => by rw [hlogs, pow_zero, one_pow, mul_one]
  refine ⟨rootsAt, ?_, hsub, hmem, hcount⟩
  have hnatDegree := natDegree_locator (errors raw word) (place raw.length)
    fun j _ => place_ne_zero _ j
  rw [hrootsAt]
  refine (chien_eq (coeff_locator_zero ..) hnatDegree FIELD hturned ?_ ?_).trans ?_
  · rw [← hcount, hrootsAt]
    exact zero_add _
  · exact fun i hi hroot => hpad i (hrootsAt ▸ List.mem_filter.2 ⟨hi, decide_eq_true hroot⟩)
  · rw [List.nil_append]

/-- The errors as corrections restore the word. -/
theorem corrections_restore (hlength : raw.length + pad = FIELD) (hword : word.length = raw.length)
    {rootsAt : List ℕ} (hsub : rootsAt.Sublist (List.range' 1 FIELD))
    (hmem : ∀ i, i ∈ rootsAt ↔ ∃ j ∈ errors raw word, j + pad + 1 = i) :
    Placed raw pad ((rootsAt.map (· - 1)).zip (rootsAt.map fun i =>
      raw.getD (i - 1 - pad) 0 ^^^ word.getD (i - 1 - pad) 0)) ∧
    applyCorrections raw pad ((rootsAt.map (· - 1)).zip (rootsAt.map fun i =>
      raw.getD (i - 1 - pad) 0 ^^^ word.getD (i - 1 - pad) 0)) = word := by
  have hpad : ∀ i ∈ rootsAt, pad ≤ i - 1 := by
    intro i hi
    obtain ⟨j, -, rfl⟩ := (hmem i).1 hi
    omega
  have hvalues : (rootsAt.map fun i =>
      raw.getD (i - 1 - pad) 0 ^^^ word.getD (i - 1 - pad) 0).length = rootsAt.length :=
    List.length_map ..
  have hplaced := placed_zip hlength hsub hpad hvalues
  refine ⟨hplaced, ?_⟩
  apply eq_of_getD (by rw [length_applyCorrections, hword])
  intro j hj
  rw [length_applyCorrections] at hj
  by_cases hne : raw.getD j 0 = word.getD j 0
  · rw [hplaced.getD_of_notMem, hne]
    rw [List.map_fst_zip (by rw [List.length_map, hvalues]), List.mem_map]
    rintro ⟨i, hi, hij⟩
    obtain ⟨k, hk, rfl⟩ := (hmem i).1 hi
    obtain rfl : k = j := by omega
    exact (mem_errors.1 hk).2 hne
  · have hi : j + pad + 1 ∈ rootsAt := (hmem _).2 ⟨j, mem_errors.2 ⟨hj, hne⟩, rfl⟩
    have hc : (j + pad, raw.getD j 0 ^^^ word.getD j 0) ∈
        (rootsAt.map (· - 1)).zip (rootsAt.map fun i =>
          raw.getD (i - 1 - pad) 0 ^^^ word.getD (i - 1 - pad) 0) := by
      rw [List.zip_map', List.mem_map]
      refine ⟨j + pad + 1, hi, ?_⟩
      rw [show j + pad + 1 - 1 - pad = j by omega, Nat.add_sub_cancel]
    rw [hplaced.getD_of_mem hc, ← UInt8.xor_assoc, UInt8.xor_self, UInt8.zero_xor]

/-- A code word at a distance of at most half the number of roots is found. -/
theorem decodeShortened_complete (hlength : raw.length + pad = FIELD) (hpos : 0 < roots)
    (hroots : roots < raw.length) (hword : word.length = raw.length) (hcode : IsCodeword roots word)
    (hhalf : 2 * distance raw word ≤ roots) :
    decodeShortened raw roots pad = some (word.take (raw.length - roots), distance raw word) := by
  have hraw : raw ≠ [] := List.ne_nil_of_length_pos (by omega)
  have hFIELD : ¬ (raw.length + pad ≠ FIELD ∨ roots = 0 ∨ roots ≥ FIELD) := by omega
  have hx := @place_injOn raw word pad hlength
  have hx0 : ∀ j ∈ errors raw word, place raw.length j ≠ 0 := fun j _ => place_ne_zero _ j
  have hc : ∀ j ∈ errors raw word, weight raw word j ≠ 0 := fun j => weight_ne_zero
  have hsi : ∀ k < roots, ofLog (((syndromesOf Gf.new raw roots).map Gf.new.log).getD k A0) =
      (powerSums (errors raw word) (place raw.length) (weight raw word) roots).coeff k := by
    intro k hk
    rw [ofLog_getD_log, sym_syndromesOf_errors hraw hword hcode hk, coeff_powerSums _ _ _ hk]
  have hlogs : ∀ i, ofLog (((Massey.run Gf.new ((syndromesOf Gf.new raw roots).map Gf.new.log)
      roots).lambda.map Gf.new.log).getD i A0) =
        (locator (errors raw word) (place raw.length)).coeff i := by
    intro i
    rw [ofLog_getD_log, (represents_run hsi).lambda, run_lambda hx hx0 hc hhalf]
  have hone := coeff_locator_zero (errors raw word) (place raw.length)
  have hnatDegree := natDegree_locator (errors raw word) (place raw.length) hx0
  have hdegree := (degreeOf_eq hlogs hone).trans hnatDegree
  unfold decodeShortened
  dsimp only
  rw [if_neg hFIELD]
  by_cases hnone : errors raw word = ∅
  · obtain rfl : raw = word := eq_of_errors hword hnone
    rw [if_pos ((syndromesOf_eq_zero hraw).2 hcode), distance_self]
  have hsome : (errors raw word).Nonempty := Finset.nonempty_iff_ne_empty.2 hnone
  have hcard : (errors raw word).card ≤ roots := by
    unfold distance at hhalf
    omega
  have hseen : ¬ (syndromesOf Gf.new raw roots).all (· = 0) = true := by
    rw [syndromesOf_eq_zero hraw]
    intro hcodeword
    obtain ⟨k, hk, hne⟩ := exists_ne_zero hx hx0 hc hsome hcard
    rw [← sym_syndromesOf_errors hraw hword hcode hk, sym_syndromesOf hraw hk] at hne
    exact hne (hcodeword k hk)
  rw [if_neg hseen, hdegree, if_neg (Finset.card_ne_zero.2 hsome), range_add_one]
  -- the search finds the positions of all errors
  obtain ⟨rootsAt, hchien, hsub, hmem, hcount⟩ := chien_errors hlength hlogs (getD_log_le _)
  rw [hchien, Option.bind_eq_bind, Option.bind_some, if_neg (not_not.2 hcount)]
  -- Forney's formula gives their values
  have hforney : rootsAt.mapM (forney Gf.new (evaluator Gf.new
      ((syndromesOf Gf.new raw roots).map Gf.new.log) ((Massey.run Gf.new
        ((syndromesOf Gf.new raw roots).map Gf.new.log) roots).lambda.map Gf.new.log)
      (errors raw word).card) ((Massey.run Gf.new ((syndromesOf Gf.new raw roots).map Gf.new.log)
        roots).lambda.map Gf.new.log) roots (errors raw word).card) =
        some (rootsAt.map fun i => raw.getD (i - 1 - pad) 0 ^^^ word.getD (i - 1 - pad) 0) := by
    rw [mapM_eq_some_iff, List.map_map]
    apply List.map_congr_left
    intro i hi
    obtain ⟨j, hj, rfl⟩ := (hmem i).1 hi
    rw [Function.comp_apply, show j + pad + 1 - 1 - pad = j by omega]
    unfold distance at hhalf
    exact forney_eq hlength hlogs (ofLog_evaluator hlogs hsi hcard (solves_locator ..)) rfl
      (by omega) hj
  rw [hforney, Option.bind_eq_bind, Option.bind_some]
  -- so the corrections restore the code word
  obtain ⟨hplaced, hrestored⟩ := corrections_restore hlength hword hsub hmem
  have hcheck := (hplaced.isCodeword_iff hraw).1 (hrestored.symm ▸ hcode)
  have hdistance := hplaced.distance
  rw [length_filter_zip (List.length_map ..), hrestored] at hdistance
  rw [if_pos, hrestored, hword, hdistance]
  exact List.all_eq_true.2 fun k hk => decide_eq_true (hcheck k (List.mem_range.1 hk))

/-- The corrected word as the decoder returns it. -/
def Decodes (raw : List UInt8) (roots : ℕ) (word : List UInt8) : Prop :=
  word.length = raw.length ∧ IsCodeword roots word ∧ 2 * distance raw word ≤ roots

/-- What a decoder of a code owes for a word: the code word nearby if there is one, and nothing but
    code words at the distance it returns. -/
structure Bounded (raw : List UInt8) (roots : ℕ) (result : Option (List UInt8 × ℕ)) : Prop where
  complete : ∀ word, Decodes raw roots word →
    result = some (word.take (raw.length - roots), distance raw word)
  sound    : ∀ data count, result = some (data, count) →
    ∃ word, word.length = raw.length ∧ IsCodeword roots word ∧ distance raw word = count ∧
      data = word.take (raw.length - roots)

theorem bounded_decodeShortened (hlength : raw.length + pad = FIELD) (hpos : 0 < roots)
    (hroots : roots < raw.length) : Bounded raw roots (decodeShortened raw roots pad) where
  complete := by
    rintro word ⟨hword, hcode, hhalf⟩
    exact decodeShortened_complete hlength hpos hroots hword hcode hhalf
  sound := by
    intro data count h
    exact decodeShortened_sound (List.ne_nil_of_length_pos (by omega)) h

/-- **The decoder is complete and sound.** A code word that differs from the word received in at
    most half as many symbols as there are roots is found, with the number of these symbols; and
    whatever is returned comes from a code word at exactly the distance that is returned. -/
theorem decodeShortened_correct (hlength : raw.length + pad = FIELD) (hpos : 0 < roots)
    (hroots : roots < raw.length) :
    (∀ word, Decodes raw roots word → decodeShortened raw roots pad =
      some (word.take (raw.length - roots), distance raw word)) ∧
    ∀ data count, decodeShortened raw roots pad = some (data, count) →
      ∃ word, word.length = raw.length ∧ IsCodeword roots word ∧ distance raw word = count ∧
        data = word.take (raw.length - roots) := by
  obtain ⟨hcomplete, hsound⟩ := bounded_decodeShortened hlength hpos hroots
  exact ⟨hcomplete, hsound⟩

theorem isCodeword_zeros (roots n : ℕ) : IsCodeword roots (List.replicate n 0) := by
  intro k _
  rw [value_eq_sum]
  apply Finset.sum_eq_zero
  intro j hj
  rw [List.length_replicate, Finset.mem_range] at hj
  rw [List.getD_eq_getElem _ _ (by rwa [List.length_replicate]), List.getElem_replicate, sym_zero,
    zero_mul]

/-- Six errors in a short frame. -/
theorem decodeShortened_correct_six :
    decodeShortened ([1, 2, 3, 4, 5, 6] ++ List.replicate 24 0) 12 225 =
      some (List.replicate 18 0, 6) := by
  have hdistance :
      distance ([1, 2, 3, 4, 5, 6] ++ List.replicate 24 0) (List.replicate 30 0) = 6 := by
    decide
  have hcorrect := (@decodeShortened_correct ([1, 2, 3, 4, 5, 6] ++ List.replicate 24 0) 12 225
    rfl (by norm_num) (by simp)).1 (List.replicate 30 0)
    ⟨rfl, isCodeword_zeros 12 30, by rw [hdistance]⟩
  rw [hcorrect, hdistance]
  rfl

/-! ## Section 3: Frames -/

theorem length_uplinkBlock (raw : List UInt8) (block : ℕ) :
    (uplinkBlock raw block).length = 92 := by
  unfold uplinkBlock
  rw [List.length_map, List.length_range]

/-- The frame of six blocks, one symbol of each in turn. -/
def interleave (words : ℕ → List UInt8) : List UInt8 :=
  (List.range 552).map fun i => (words (i % 6)).getD (i / 6) 0

theorem length_interleave (words : ℕ → List UInt8) : (interleave words).length = 552 := by
  unfold interleave
  rw [List.length_map, List.length_range]

theorem uplinkBlock_interleave {words : ℕ → List UInt8} {block : ℕ} (hblock : block < 6)
    (hlength : (words block).length = 92) : uplinkBlock (interleave words) block = words block := by
  apply eq_of_getD (by rw [length_uplinkBlock, hlength])
  intro j hj
  rw [length_uplinkBlock] at hj
  have hlt : j * 6 + block < 552 := by omega
  unfold uplinkBlock interleave
  rw [List.getD_eq_getElem _ _ (by simpa using hj), List.getElem_map, List.getElem_range,
    List.getD_eq_getElem _ _ (by simpa using hlt), List.getElem_map, List.getElem_range,
    show (j * 6 + block) % 6 = block by omega, show (j * 6 + block) / 6 = j by omega]

/-- **Uplink frames.** From a frame that differs from six interleaved code words in at most ten
    symbols of each, the decoder restores the data of all six, and the number of symbols that
    differ. What it returns is always taken from six code words at the total distance it
    returns. -/
theorem correctUplink_correct {raw : List UInt8} (hlength : raw.length = 552) :
    (∀ words : ℕ → List UInt8, (∀ block < 6, Decodes (uplinkBlock raw block) 20 (words block)) →
      correctUplink raw = some ((List.range 6).flatMap fun block => (words block).take 72,
        ((List.range 6).map fun block => distance (uplinkBlock raw block) (words block)).sum)) ∧
    ∀ payload count, correctUplink raw = some (payload, count) →
      ∃ words : ℕ → List UInt8,
        (∀ block < 6, (words block).length = 92 ∧ IsCodeword 20 (words block)) ∧
        payload = ((List.range 6).flatMap fun block => (words block).take 72) ∧
        count = ((List.range 6).map fun block =>
          distance (uplinkBlock raw block) (words block)).sum := by
  -- what the decoder does with one block
  have hdecoder : ∀ block, (∀ word, Decodes (uplinkBlock raw block) 20 word →
      decodeShortened (uplinkBlock raw block) 20 163 =
        some (word.take 72, distance (uplinkBlock raw block) word)) ∧
      ∀ data count, decodeShortened (uplinkBlock raw block) 20 163 = some (data, count) →
        ∃ word, word.length = 92 ∧ IsCodeword 20 word ∧
          distance (uplinkBlock raw block) word = count ∧ data = word.take 72 := by
    intro block
    have hblock := length_uplinkBlock raw block
    obtain ⟨hcomplete, hsound⟩ := @bounded_decodeShortened (uplinkBlock raw block) 20 163
      (by rw [hblock]; rfl) (by norm_num) (by rw [hblock]; norm_num)
    rw [hblock] at hcomplete hsound
    exact ⟨hcomplete, hsound⟩
  unfold correctUplink
  rw [if_neg (not_not.2 hlength)]
  constructor
  · intro words hwords
    have hall : (List.range 6).mapM (fun block => decodeShortened (uplinkBlock raw block) 20 163) =
        some ((List.range 6).map fun block =>
          ((words block).take 72, distance (uplinkBlock raw block) (words block))) := by
      rw [mapM_eq_some_iff, List.map_map]
      apply List.map_congr_left
      intro block hblock
      exact (hdecoder block).1 _ (hwords block (List.mem_range.1 hblock))
    rw [hall, Option.map_some, List.flatMap_map, List.map_map]
    rfl
  · intro payload count h
    obtain ⟨blocks, hblocks, hresult⟩ := Option.map_eq_some_iff.1 h
    obtain ⟨rfl, rfl⟩ := Prod.mk.inj hresult
    have hmap := mapM_eq_some_iff.1 hblocks
    -- each block has its code word; beyond the sixth any word will do
    have hword : ∀ block, ∃ word : List UInt8, block < 6 →
        (word.length = 92 ∧ IsCodeword 20 word) ∧
        decodeShortened (uplinkBlock raw block) 20 163 =
          some (word.take 72, distance (uplinkBlock raw block) word) := by
      intro block
      by_cases hlt : block < 6
      · have hmem : decodeShortened (uplinkBlock raw block) 20 163 ∈ blocks.map some :=
          hmap ▸ List.mem_map_of_mem (List.mem_range.2 hlt)
        obtain ⟨⟨data, count⟩, -, hsome⟩ := List.mem_map.1 hmem
        obtain ⟨word, hlen, hcode, hdistance, hdata⟩ := (hdecoder block).2 data count hsome.symm
        exact ⟨word, fun _ => ⟨⟨hlen, hcode⟩, by rw [← hsome, hdistance, hdata]⟩⟩
      · exact ⟨[], fun h => absurd h hlt⟩
    choose words hwords using hword
    have hall : blocks = (List.range 6).map fun block =>
        ((words block).take 72, distance (uplinkBlock raw block) (words block)) := by
      apply (List.map_injective_iff.2 (Option.some_injective _))
      rw [← hmap, List.map_map]
      apply List.map_congr_left
      intro block hblock
      exact (hwords block (List.mem_range.1 hblock)).2
    refine ⟨words, fun block hblock => (hwords block hblock).1, ?_, ?_⟩
    · rw [hall, List.flatMap_map]
    · rw [hall, List.map_map]
      rfl

/-- Zeros, with ten errors in the first block. -/
def tenErrors (block : ℕ) : List UInt8 :=
  if block = 0 then List.replicate 10 7 ++ List.replicate 82 0 else List.replicate 92 0

theorem correctUplink_correct_ten :
    correctUplink (interleave tenErrors) = some (List.replicate 432 0, 10) := by
  have hdistance : ∀ block ∈ List.range 6,
      distance (uplinkBlock (interleave tenErrors) block) (List.replicate 92 0) =
        if block = 0 then 10 else 0 := by
    intro block hblock
    have hlength : (tenErrors block).length = 92 := by
      unfold tenErrors
      split
      · rfl
      · rfl
    rw [uplinkBlock_interleave (List.mem_range.1 hblock) hlength]
    unfold tenErrors
    split
    · decide
    · exact distance_self _
  have hcorrect := (@correctUplink_correct (interleave tenErrors) (length_interleave _)).1
    (fun _ => List.replicate 92 0) (by
      intro block hblock
      refine ⟨by rw [length_uplinkBlock, List.length_replicate], isCodeword_zeros 20 92, ?_⟩
      rw [hdistance block (List.mem_range.2 hblock)]
      split
      · norm_num
      · norm_num)
  rw [hcorrect, List.map_congr_left hdistance]
  decide +kernel

/-- **Downlink frames.** A short frame with at most six errors, and a long one with at most seven,
    are restored; the first five bits of a payload say which of the two it is. Whatever is returned
    is the data of a code word of its kind, at the distance returned. -/
theorem correctDownlink_correct (raw : List UInt8) :
    (raw.length = 30 → ∀ word, Decodes raw 12 word → isShort (word.take 18) = true →
      correctDownlink raw = some (word.take 18, distance raw word)) ∧
    (raw.length = 48 → ∀ word, Decodes raw 14 word → isShort (word.take 34) = false →
      correctDownlink raw = some (word.take 34, distance raw word)) ∧
    ∀ payload count, correctDownlink raw = some (payload, count) →
      (∃ word, word.length = 30 ∧ IsCodeword 12 word ∧ distance (raw.take 30) word = count ∧
        payload = word.take 18 ∧ isShort payload = true) ∨
      ∃ word, word.length = 48 ∧ IsCodeword 14 word ∧ distance raw word = count ∧
        payload = word.take 34 ∧ isShort payload = false := by
  -- a short frame, alone or as the front of a long one that could not be decoded
  have hshort : ∀ short : List UInt8, short.length = 30 → ∀ payload count,
      (decodeShortened short 12 225).filter (fun result => isShort result.1) =
        some (payload, count) →
      ∃ word, word.length = 30 ∧ IsCodeword 12 word ∧ distance short word = count ∧
        payload = word.take 18 ∧ isShort payload = true := by
    intro short hlength payload count h
    obtain ⟨hdecoded, hheader⟩ := Option.filter_eq_some_iff.1 h
    have hbounded := @bounded_decodeShortened short 12 225 (by rw [hlength]; rfl) (by norm_num)
      (by rw [hlength]; norm_num)
    obtain ⟨word, hword, hcode, hdistance, hdata⟩ := hbounded.sound _ _ hdecoded
    rw [hlength] at hword hdata
    exact ⟨word, hword, hcode, hdistance, hdata, hheader⟩
  unfold correctDownlink
  refine ⟨?_, ?_, ?_⟩
  · intro hlength word hdecodes hheader
    have hcorrect := (@bounded_decodeShortened raw 12 225 (by rw [hlength]; rfl) (by norm_num)
      (by rw [hlength]; norm_num)).complete word hdecodes
    rw [hlength] at hcorrect
    rw [if_pos hlength, hcorrect, Option.filter_some, if_pos hheader]
  · intro hlength word hdecodes hheader
    have hcorrect := (@bounded_decodeShortened raw 14 207 (by rw [hlength]; rfl) (by norm_num)
      (by rw [hlength]; norm_num)).complete word hdecodes
    rw [hlength] at hcorrect
    rw [if_neg (by rw [hlength]; norm_num), if_neg (not_not.2 hlength), hcorrect,
      Option.filter_some, if_pos (by rw [hheader]; rfl)]
    rfl
  · intro payload count h
    split at h
    · next hlength =>
      left
      rw [List.take_of_length_le hlength.le]
      exact hshort raw hlength payload count h
    split at h
    · cases h
    next hlength =>
    have hlength := not_not.1 hlength
    -- a long frame first, and only if that fails its front as a short one
    rcases Option.or_eq_some_iff.1 h with hlong | ⟨-, hprefix⟩
    · right
      obtain ⟨hdecoded, hheader⟩ := Option.filter_eq_some_iff.1 hlong
      have hbounded := @bounded_decodeShortened raw 14 207 (by rw [hlength]; rfl) (by norm_num)
        (by rw [hlength]; norm_num)
      obtain ⟨word, hword, hcode, hdistance, hdata⟩ := hbounded.sound _ _ hdecoded
      rw [hlength] at hword hdata
      exact ⟨word, hword, hcode, hdistance, hdata, by simpa using hheader⟩
    · left
      exact hshort _ (by rw [List.length_take, hlength]; rfl) payload count hprefix

end Uat
