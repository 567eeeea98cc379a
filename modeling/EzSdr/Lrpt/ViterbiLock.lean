import EzSdr.Lrpt.ViterbiDecode

/-! # Locking On

    The decoder takes it that the encoder begins in the zero state. When it did not, the first bits
    are lost, but not what follows.

    **`Decoding.agrees_home`**: once the metrics speak for the state the encoder is in, the best
    survivor follows the encoder from there. **`pushBits_locks`**: the nine symbols of an encoder
    that has sent ones for some time are enough for that. -/

namespace Lrpt.Viterbi

/-- The metrics speak for `home`: whichever other state a path has come through, it will cost more
    than the path of an encoder that goes on from `home`. -/
def ViterbiDecoder.Prefers (decoder : ViterbiDecoder) (home : Fin STATES) : Prop :=
  decoder.metrics.get home < INF ∧ ∀ x, x ≠ home →
    decoder.metrics.get home < decoder.metrics.get x + backward 19 (x ^^^ home)

theorem mismatches_self (x : UInt8 × UInt8) : mismatches x x = 0 := by
  simp [mismatches]

/-- Of a decoder that prefers `home`, the best survivor agrees with what was sent from there, except
    in the last bits. -/
theorem Decoding.agrees_home {before : List (UInt8 × UInt8)} {start decoder : ViterbiDecoder}
    {offset₀ offset : Nat} {path₀ path : Fin STATES → List Bool}
    (hstart : Decoding start before offset₀ path₀) {home : Fin STATES}
    (hprefers : start.Prefers home) {info : List Bool}
    (h : Decoding decoder (before ++ trellis.encode home info) offset path)
    {n : Nat} (hn : n + 19 ≤ info.length) :
    ((path (bestState decoder.metrics)).drop before.length).take n = info.take n := by
  obtain ⟨hfinite, hothers⟩ := hprefers
  have hlen := h.survivors.length _ h.finite_best
  have hcost := h.survivors.cost _ h.finite_best
  generalize path (bestState decoder.metrics) = us at *
  rw [List.length_append, Trellis.encode_length] at hlen
  have htake : (us.take before.length).length = before.length := by
    rw [List.length_take]
    omega
  have hdrop : (us.drop before.length).length = info.length := by
    rw [List.length_drop]
    omega
  -- the survivor of `home`, continued by what was sent, bounds the cost of the best one
  have hhome := hstart.survivors.length home hfinite
  obtain ⟨-, hleast⟩ := h.survivors.least (path₀ home ++ info) (by
    rw [List.length_append, List.length_append, hhome, Trellis.encode_length])
  have hbest := bestState_le decoder.metrics (trellis.endState 0 (path₀ home ++ info))
  rw [Trellis.encode_append, Trellis.distance_append (by rw [Trellis.encode_length, hhome]),
    hstart.survivors.ends home hfinite, hstart.survivors.cost home hfinite,
    Trellis.distance_self mismatches_self] at hleast
  -- its cost is that of its first part and the weight of what it differs in after that
  obtain ⟨-, hfirst⟩ := hstart.survivors.least (us.take before.length) htake
  have hweight := distance_encode (trellis.endState 0 (us.take before.length)) home hdrop
  rw [← List.take_append_drop before.length us, Trellis.encode_append,
    Trellis.distance_append (by rw [Trellis.encode_length, htake]), hweight] at hcost
  have hback : backward 19 (trellis.endState 0 (us.take before.length) ^^^ home) ≤
      Trellis.weight trellis.next stepWeight
        (trellis.endState 0 (us.take before.length) ^^^ home)
        (List.zipWith xor (us.drop before.length) info) :=
    Trellis.backward_le backward_zero backward_step (by
      rw [List.length_zipWith, hdrop, Nat.min_self]
      omega) _
  have hthrough : trellis.endState 0 (us.take before.length) = home := by
    by_contra hne
    have hclear := hothers _ hne
    omega
  rw [hthrough] at hweight hcost hfirst
  apply List.ext_getElem?
  intro j
  rw [List.getElem?_take, List.getElem?_take]
  split
  · by_contra hne
    have hfar := distance_ge home hdrop (by omega) hne
    omega
  · rfl

/-- What the decoder has put out after every symbol that was sent from the state it prefers. -/
theorem stepAll_locks {before : List (UInt8 × UInt8)} {home : Fin STATES}
    (hprefers : (stepAll ViterbiDecoder.new before).1.Prefers home) (info : List Bool) :
    ∃ early, (stepAll ViterbiDecoder.new (before ++ trellis.encode home info)).2 =
      early ++ (info.take (info.length - (TRACEBACK - 1))).map Bool.toUInt8 := by
  have hTRACEBACK : TRACEBACK = 64 := rfl
  induction info using List.reverseRecOn with
  | nil => exact ⟨_, (List.append_nil _).symm⟩
  | append_singleton info bit ih =>
    obtain ⟨early, hout⟩ := ih
    obtain ⟨offset₀, path₀, hstart⟩ := stepAll_decoding before
    obtain ⟨offset, path, hdecoding⟩ := stepAll_decoding (before ++ trellis.encode home info)
    obtain ⟨symbol, hsymbol⟩ : ∃ symbol, trellis.encode home (info ++ [bit]) =
        trellis.encode home info ++ [symbol] := ⟨_, Trellis.encode_append _ home info [bit]⟩
    obtain ⟨offset', path', hdecoding', hbits⟩ := hdecoding.step symbol
    have hlength : (info ++ [bit]).length = info.length + 1 := List.length_append
    have hreceived : (before ++ trellis.encode home info).length = before.length + info.length := by
      rw [List.length_append, Trellis.encode_length]
    rw [hsymbol, ← List.append_assoc, stepAll_concat]
    show ∃ early, (stepAll _ _).2 ++ (ViterbiDecoder.step _ symbol).2 = _
    rw [hout, hlength]
    by_cases hearly : info.length < TRACEBACK - 1
    · -- as yet the bits that come out belong to `before`
      refine ⟨early ++ ((stepAll ViterbiDecoder.new
        (before ++ trellis.encode home info)).1.step symbol).2, ?_⟩
      rw [Nat.sub_eq_zero_of_le hearly.le, Nat.sub_eq_zero_of_le hearly]
      simp
    · obtain ⟨n, hn⟩ : ∃ n, info.length = n + (TRACEBACK - 1) := ⟨_, (Nat.sub_add_cancel (by omega)).symm⟩
      rw [List.append_assoc, ← hsymbol] at hdecoding'
      have hagrees := hstart.agrees_home hprefers hdecoding' (n := n + 1) (by omega)
      rw [hreceived, hn, show before.length + (n + (TRACEBACK - 1)) + 1 - (TRACEBACK - 1) =
        before.length + (n + 1) by omega, show before.length + (n + (TRACEBACK - 1)) -
          (TRACEBACK - 1) = before.length + n by omega, ← List.drop_drop, List.drop_take,
        Nat.add_sub_cancel_left, hagrees] at hbits
      have hold : info.take n = ((info ++ [bit]).take (n + 1)).take n := by
        rw [List.take_take, Nat.min_eq_left (Nat.le_succ n),
          List.take_append_of_le_length (by omega)]
      refine ⟨early, ?_⟩
      rw [hbits, hn, Nat.add_sub_cancel, hold, Nat.add_right_comm, Nat.add_sub_cancel,
        List.append_assoc, ← List.map_append, List.take_append_drop]

theorem symbolsOf_encodeFrom (s : Fin STATES) (info : List Bool) :
    symbolsOf (encodeFrom s (info.map Bool.toUInt8)) = trellis.encode s info := by
  induction info generalizing s with
  | nil => rfl
  | cons bit info ih =>
    obtain ⟨hfirst, hsecond⟩ := emit_masked s bit
    rw [encodeFrom_cons, symbolsOf, hfirst, hsecond, ih]
    rfl

/-- The state of an encoder that has been given ones only. -/
abbrev onesState : Fin STATES := ⟨63, by decide⟩

/-- How many of its symbols the decoder needs. -/
def lockSymbols : ℕ := 9

/-- The least weight of a walk of `n` steps that has not come to zero, together with that of
    nineteen steps more. -/
def strayTable (n : ℕ) : List ℕ := stepBack^[n] ((backwardTable 19).set 0 INF)

theorem stray_le (x : Fin STATES) {us : List Bool} (h : us.foldl trellis.next x ≠ 0) :
    (strayTable us.length).getD x.val 0 ≤
      Trellis.weight trellis.next stepWeight x us + backward 19 (us.foldl trellis.next x) := by
  induction us generalizing x with
  | nil =>
    have hne : (0 : ℕ) ≠ x.val := fun hzero => h (Fin.ext hzero.symm)
    show ((backwardTable 19).set 0 INF).getD x.val 0 ≤ 0 + (backwardTable 19).getD x.val 0
    rw [List.getD_eq_getElem?_getD, List.getElem?_set_ne hne, ← List.getD_eq_getElem?_getD,
      Nat.zero_add]
  | cons u us ih =>
    have hrest := ih (trellis.next x u) h
    have hhead := stepBack_le (strayTable us.length) x u
    have hstep : strayTable (us.length + 1) = stepBack (strayTable us.length) :=
      Function.iterate_succ_apply' stepBack _ _
    show (strayTable (us.length + 1)).getD x.val 0 ≤
      stepWeight x u + Trellis.weight trellis.next stepWeight (trellis.next x u) us +
        backward 19 (us.foldl trellis.next (trellis.next x u))
    rw [hstep]
    omega

theorem foldl_next_xor (s t : Fin STATES) {us vs : List Bool} (h : us.length = vs.length) :
    (List.zipWith xor us vs).foldl trellis.next (s ^^^ t) =
      trellis.endState s us ^^^ trellis.endState t vs := by
  induction us generalizing s t vs with
  | nil => rw [List.eq_nil_of_length_eq_zero h.symm]; rfl
  | cons u us ih =>
    match vs with
    | v :: vs =>
      show (List.zipWith xor us vs).foldl trellis.next (trellis.next (s ^^^ t) (u ^^ v)) = _
      rw [next_xor, ih _ _ (Nat.succ.inj h)]
      rfl

/-- The path of ones from the zero state is six away, and every path into another state is more. -/
theorem prefers_ones : (stepAll ViterbiDecoder.new
    (trellis.encode onesState (List.replicate lockSymbols true))).1.Prefers onesState := by
  set ones := List.replicate lockSymbols true with hones
  obtain ⟨offset, path, hdecoding⟩ := stepAll_decoding (trellis.encode onesState ones)
  have hlength : ones.length = lockSymbols := List.length_replicate
  have hends : trellis.endState 0 ones = onesState := by decide
  have hstays : trellis.endState onesState ones = onesState := by decide
  have hsix : Trellis.distance mismatches (trellis.encode 0 ones)
      (trellis.encode onesState ones) = 6 := by decide
  have hstray : 6 < (strayTable lockSymbols).getD (0 ^^^ onesState : Fin STATES).val 0 := by
    unfold strayTable
    rw [backwardTable_nineteen]
    decide +kernel
  obtain ⟨hfinite, hleast⟩ := hdecoding.survivors.least ones (Trellis.encode_length _ _ _).symm
  rw [hends] at hfinite hleast
  refine ⟨hfinite, fun x hx => ?_⟩
  by_cases hreached : (stepAll ViterbiDecoder.new
      (trellis.encode onesState ones)).1.metrics.get x < INF
  · have hpath := hdecoding.survivors.length x hreached
    rw [Trellis.encode_length] at hpath
    have hcost := hdecoding.survivors.cost x hreached
    have hend := foldl_next_xor 0 onesState hpath
    have hzip : (List.zipWith xor (path x) ones).length = lockSymbols := by
      rw [List.length_zipWith, hpath, Nat.min_self, hlength]
    rw [hdecoding.survivors.ends x hreached, hstays] at hend
    have hne : x ^^^ onesState ≠ 0 := by
      intro hzero
      have hval := congrArg Fin.val hzero
      rw [val_xor] at hval
      exact hx (Fin.ext (Nat.xor_eq_zero_iff.1 hval))
    have hbound := @stray_le _ (List.zipWith xor (path x) ones) (hend ▸ hne)
    rw [hzip, hend] at hbound
    rw [distance_encode _ _ hpath] at hcost
    omega
  · omega

/-- **Locking on.** An encoder that is in the state of ones goes on with some ones. What it sends
    after them is decoded up to the latency of the traceback, and the decoder puts out as many bits
    before it. -/
theorem pushBits_locks {info : List Bool} (hlong : TRACEBACK - 1 ≤ info.length) :
    ∃ early : List UInt8, early.length = lockSymbols ∧
      (ViterbiDecoder.new.pushBits (encodeFrom onesState
        ((List.replicate lockSymbols true ++ info).map Bool.toUInt8))).2 =
          early ++ (info.take (info.length - (TRACEBACK - 1))).map Bool.toUInt8 := by
  have hends : trellis.endState onesState (List.replicate lockSymbols true) = onesState := by
    decide
  obtain ⟨early, hout⟩ := stepAll_locks prefers_ones info
  refine ⟨early, ?_, ?_⟩
  · have hlength := congrArg List.length hout
    have hdepth : ViterbiDecoder.new.decisions.length = 0 := rfl
    rw [@stepAll_length ViterbiDecoder.new (hdepth ▸ Nat.zero_le 63), hdepth, List.length_append,
      List.length_append, List.length_map, List.length_take, Trellis.encode_length,
      Trellis.encode_length, List.length_replicate] at hlength
    have hTRACEBACK : TRACEBACK = 64 := rfl
    omega
  · rw [pushBits_none rfl, steps_eq_stepAll _ (length_encodeFrom _ _), symbolsOf_encodeFrom,
      Trellis.encode_append, hends, hout]

end Lrpt.Viterbi
