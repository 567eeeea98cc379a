import EzSdr.Lrpt.ViterbiCode

/-! # Correctness of the Viterbi Decoder

    The decoder keeps survivors: its metrics and the decisions it stores
    describe cheapest paths into every state reached. With at most four wrong
    bits in the stream the best survivor is closer than the distance of the
    code, so that it agrees with the path that was sent in every bit the
    decoder puts out.

    **`pushAll_decodes`**: the output is the information sequence up to the
    latency of the traceback, and it does not depend on how the stream is cut.
-/

namespace Lrpt.Viterbi

/-! ## Add, compare, select -/

/-- The tables after the given edges have been tried. -/
structure Relaxed (metrics : Vector Nat STATES) (received : UInt8 × UInt8)
    (edges : List (Fin STATES × Bool)) (tables : Tables) : Prop where
  bounded : ∀ t : Fin STATES, tables.next.get t ≤ INF
  least : ∀ s u, (s, u) ∈ edges → tables.next.get (trellis.next s u) ≤
    metrics.get s + mismatches (trellis.emit s u) received
  achieved : ∀ t : Fin STATES, tables.next.get t < INF →
    metrics.get (tables.predecessor.get t) < INF ∧
      trellis.next (tables.predecessor.get t) (trellis.last t) = t ∧
      tables.next.get t = metrics.get (tables.predecessor.get t) +
        mismatches (trellis.emit (tables.predecessor.get t) (trellis.last t)) received

section Relaxed

variable {metrics : Vector Nat STATES} {received : UInt8 × UInt8}
  {edges : List (Fin STATES × Bool)} {tables : Tables}

theorem Relaxed.init : Relaxed metrics received []
    ⟨Vector.replicate STATES INF, Vector.replicate STATES 0⟩ where
  bounded t := by simp
  least s u h := by simp at h
  achieved t ht := by simp at ht

theorem get_set {α : Type*} {n : Nat} (v : Vector α n) (t t' : Fin n) (x : α) :
    (v.set t x).get t' = if t = t' then x else v.get t' := by
  simp [Vector.get_eq_getElem, Vector.getElem_set, Fin.ext_iff]

theorem Relaxed.relax (h : Relaxed metrics received edges tables) {s : Fin STATES}
    (hs : metrics.get s < INF) (u : Bool) :
    Relaxed metrics received (edges ++ [(s, u)])
      (tables.relax metrics received s u.toUInt8) := by
  set target := trellis.next s u with htarget
  set cost := metrics.get s + mismatches (trellis.emit s u) received with hcost
  have hnew : ∀ s' u', (s', u') ∈ edges ++ [(s, u)] → (s', u') ∈ edges ∨ s' = s ∧ u' = u := by
    intro s' u' hmem
    simpa using hmem
  have hunfold : tables.relax metrics received s u.toUInt8 =
      if cost < tables.next.get target then
        ⟨tables.next.set target cost, tables.predecessor.set target s⟩ else tables := rfl
  rw [hunfold]
  split
  · next hless =>
    -- the entry of the target only gets smaller
    refine ⟨fun t => ?_, fun s' u' hmem => ?_, fun t ht => ?_⟩
    · have := h.bounded t
      have := h.bounded target
      simp only [get_set]
      split <;> omega
    · simp only [get_set]
      rcases hnew s' u' hmem with hold | ⟨rfl, rfl⟩
      · have hbefore := h.least s' u' hold
        split
        · next heq =>
          have hentry : tables.next.get target = tables.next.get (trellis.next s' u') :=
            congrArg tables.next.get heq
          omega
        · exact hbefore
      · rw [if_pos htarget]
    · simp only [get_set] at ht ⊢
      by_cases heq : target = t
      · simp only [if_pos heq] at ht ⊢
        have hlast : trellis.last t = u := by rw [← heq, htarget, trellis.last_next]
        rw [hlast]
        exact ⟨hs, heq, rfl⟩
      · simp only [if_neg heq] at ht ⊢
        exact h.achieved t ht
  · next hnot =>
    refine ⟨h.bounded, fun s' u' hmem => ?_, h.achieved⟩
    rcases hnew s' u' hmem with hold | ⟨rfl, rfl⟩
    · exact h.least s' u' hold
    · exact Nat.le_of_not_lt hnot

/-- The edges out of the given states that are reached. -/
def edgesOf (metrics : Vector Nat STATES) (states : List (Fin STATES)) :
    List (Fin STATES × Bool) :=
  states.flatMap fun s => if metrics.get s ≥ INF then [] else [(s, false), (s, true)]

theorem Relaxed.states (h : Relaxed metrics received edges tables) (states : List (Fin STATES)) :
    Relaxed metrics received (edges ++ edgesOf metrics states)
      (states.foldl (fun tables state =>
        if metrics.get state ≥ INF then tables
        else [0, 1].foldl (Tables.relax metrics received state) tables) tables) := by
  induction states generalizing edges tables with
  | nil => simpa [edgesOf] using h
  | cons s states ih =>
    rw [List.foldl_cons]
    have hedges : edgesOf metrics (s :: states) =
        (if metrics.get s ≥ INF then [] else [(s, false), (s, true)]) ++ edgesOf metrics states := rfl
    rw [hedges, ← List.append_assoc]
    apply ih
    by_cases hs : metrics.get s ≥ INF
    · rw [if_pos hs, if_pos hs, List.append_nil]
      exact h
    · rw [if_neg hs, if_neg hs]
      have hboth := (h.relax (Nat.lt_of_not_ge hs) false).relax (Nat.lt_of_not_ge hs) true
      rw [List.append_assoc] at hboth
      exact hboth

/-- The step computes what survivors need. -/
theorem addCompareSelect_selected (metrics : Vector Nat STATES) (received : UInt8 × UInt8) :
    trellis.Selected mismatches INF received (fun s => metrics.get s)
      (fun t => (addCompareSelect metrics received).next.get t)
      (fun t => (addCompareSelect metrics received).predecessor.get t) := by
  have hall : Relaxed metrics received ([] ++ edgesOf metrics (List.finRange STATES))
      (addCompareSelect metrics received) := Relaxed.init.states _
  refine ⟨fun s u hs => ?_, hall.achieved⟩
  have hmem : (s, u) ∈ [] ++ edgesOf metrics (List.finRange STATES) := by
    refine List.mem_flatMap.mpr ⟨s, List.mem_finRange s, ?_⟩
    rw [if_neg (Nat.not_le_of_lt hs)]
    cases u <;> simp
  exact hall.least s u hmem

end Relaxed

/-! ## Best state and common minimum -/

theorem bestState_le (metrics : Vector Nat STATES) (s : Fin STATES) :
    metrics.get (bestState metrics) ≤ metrics.get s := by
  -- the best of a state and a list is at most each of them
  have hfold : ∀ (states : List (Fin STATES)) (best : Fin STATES),
      ∀ t, t = best ∨ t ∈ states → metrics.get (states.foldl
        (fun best state => if metrics.get state < metrics.get best then state else best) best) ≤
          metrics.get t := by
    intro states
    induction states with
    | nil =>
      intro best t ht
      rcases ht with rfl | ht
      · exact Nat.le_refl _
      · simp at ht
    | cons x states ih =>
      intro best t ht
      have hless := ih (if metrics.get x < metrics.get best then x else best)
      have hfirst : metrics.get (if metrics.get x < metrics.get best then x else best) ≤ metrics.get best ∧
          metrics.get (if metrics.get x < metrics.get best then x else best) ≤ metrics.get x := by
        split <;> omega
      rcases ht with rfl | ht
      · exact Nat.le_trans (hless _ (.inl rfl)) hfirst.1
      · rcases List.mem_cons.mp ht with rfl | ht
        · exact Nat.le_trans (hless _ (.inl rfl)) hfirst.2
        · exact hless t (.inr ht)
  exact hfold _ 0 s (.inr (List.mem_finRange s))

/-- The common minimum is the metric of the best state. -/
theorem minimum_eq (metrics : Vector Nat STATES) :
    metrics.toList.min?.getD 0 = metrics.get (bestState metrics) := by
  have hmem : ∀ s : Fin STATES, (metrics.get s) ∈ metrics.toList := by
    intro s
    rw [Vector.mem_toList_iff]
    exact Vector.getElem_mem _
  have hmin : metrics.toList.min? = some (metrics.get (bestState metrics)) := by
    refine List.min?_eq_some_iff.mpr ⟨hmem _, fun b hb => ?_⟩
    rw [Vector.mem_toList_iff] at hb
    obtain ⟨i, hi, rfl⟩ := Vector.mem_iff_getElem.mp hb
    exact bestState_le metrics ⟨i, hi⟩
  rw [hmin]
  rfl

theorem normalize_get (metrics : Vector Nat STATES) (s : Fin STATES) :
    (normalize metrics)[s] =
      if metrics.get s < INF then metrics.get s - metrics.get (bestState metrics) else metrics.get s := by
  simp [normalize, minimum_eq, Vector.get_eq_getElem]

/-! ## What the decoder keeps -/

/-- The stored decisions as maps, the newest first. -/
def history (decisions : List (Vector (Fin STATES) STATES)) : List (Fin STATES → Fin STATES) :=
  decisions.reverse.map fun decision s => decision.get s

theorem history_concat (decisions : List (Vector (Fin STATES) STATES))
    (decision : Vector (Fin STATES) STATES) :
    history (decisions ++ [decision]) = (fun s => decision.get s) :: history decisions := by
  simp [history]

theorem history_tail (decisions : List (Vector (Fin STATES) STATES)) :
    history decisions.tail = (history decisions).take (decisions.length - 1) := by
  match decisions with
  | [] => rfl
  | decision :: later => simp [history]

theorem traceback_eq (decisions : List (Vector (Fin STATES) STATES)) (s : Fin STATES) :
    traceback decisions.reverse s =
      (trellis.trace (history decisions) s).map Bool.toUInt8 := by
  unfold history
  generalize decisions.reverse = newest
  induction newest generalizing s with
  | nil => rfl
  | cons decision older ih =>
    show traceback older (decision.get s) ++ [stateBit s] =
      (trellis.trace (older.map fun decision s => decision.get s) (decision.get s) ++
        [trellis.last s]).map Bool.toUInt8
    rw [ih, stateBit_eq, List.map_append]
    rfl

/-- The decoder after some symbols: the metrics are those of the survivors
    `path`, and tracing back from a reached state reads the end of its
    survivor. -/
structure Decoding (decoder : ViterbiDecoder) (received : List (UInt8 × UInt8))
    (offset : Nat) (path : Fin STATES → List Bool) : Prop where
  survivors : trellis.Survivors mismatches INF 0 received (fun s => decoder.metrics.get s) offset path
  stored : ∀ s : Fin STATES, decoder.metrics.get s < INF →
    trellis.trace (history decoder.decisions) s <:+ path s
  least : decoder.metrics.get (bestState decoder.metrics) = 0
  depth : decoder.decisions.length = min received.length (TRACEBACK - 1)

theorem Decoding.new : Decoding ViterbiDecoder.new [] 0 fun _ => [] where
  survivors := by
    have hmetric : ∀ s : Fin STATES, ViterbiDecoder.new.metrics.get s = if 0 = s then 0 else INF := by
      intro s
      rw [ViterbiDecoder.new]
      rw [show ((Vector.replicate STATES INF).set 0 0).get s = if (0 : Fin STATES) = s then 0 else
        (Vector.replicate STATES INF).get s from get_set _ (0 : Fin STATES) s 0]
      simp
    refine Trellis.Survivors.init rfl (show 0 < INF by decide) fun s hs => ?_
    by_contra hne
    rw [hmetric s, if_neg (Ne.symm hne)] at hs
    exact Nat.lt_irrefl _ hs
  stored s _ := List.nil_suffix
  least := Nat.le_zero.mp (bestState_le _ 0)
  depth := rfl

section Step

variable {decoder : ViterbiDecoder} {received : List (UInt8 × UInt8)} {offset : Nat}
  {path : Fin STATES → List Bool}

theorem Decoding.finite_best (h : Decoding decoder received offset path) :
    decoder.metrics.get (bestState decoder.metrics) < INF := by
  rw [h.least]
  decide

/-- No metric comes near the sentinel: the code forgets a state in six steps
    of two bits each. -/
theorem Decoding.metric_le (h : Decoding decoder received offset path) {s : Fin STATES}
    (hs : decoder.metrics.get s < INF) : decoder.metrics.get s ≤ 12 := by
  have hspread := h.survivors.spread_le trellis_forgets mismatches_le hs h.finite_best
  rw [h.least] at hspread
  exact hspread

/-- The tables and metrics of the next step, before the oldest decision is
    dropped. -/
theorem Decoding.select (h : Decoding decoder received offset path) (symbol : UInt8 × UInt8) :
    let tables := addCompareSelect decoder.metrics symbol
    let metrics := normalize tables.next
    ∃ offset' path', trellis.Survivors mismatches INF 0 (received ++ [symbol])
        (fun s => metrics.get s) offset' path' ∧
      (∀ s : Fin STATES, metrics.get s < INF →
        trellis.trace (history (decoder.decisions ++ [tables.predecessor])) s <:+ path' s) ∧
      metrics.get (bestState metrics) = 0 := by
  intro tables metrics
  have hselected := addCompareSelect_selected decoder.metrics symbol
  have hroom : ∀ (s : Fin STATES) u, decoder.metrics.get s < INF →
      decoder.metrics.get s + mismatches (trellis.emit s u) symbol < INF := by
    intro s u hs
    have hmetric := h.metric_le hs
    have hwidth := mismatches_le (trellis.emit s u) symbol
    have hinf : INF = 1000000 := rfl
    omega
  have hsurvivors := h.survivors.select hselected hroom
  have hle : ∀ s : Fin STATES, metrics.get s = if tables.next.get s < INF then
      tables.next.get s - tables.next.get (bestState tables.next) else tables.next.get s :=
    normalize_get tables.next
  have hfinite : ∀ s : Fin STATES, metrics.get s < INF → tables.next.get s < INF := by
    intro s hs
    by_contra hnot
    rw [hle, if_neg hnot] at hs
    exact hnot hs
  refine ⟨_, _, hsurvivors.normalize
    (fun s _ => bestState_le tables.next s) (fun s hs => ?_) (fun s hs => ?_), fun s hs => ?_, ?_⟩
  · rw [hle, if_pos hs]
  · rw [hle, if_neg hs]
  · -- the newest decision leads to a state that was reached before
    have hpred := (hselected.achieved s (hfinite s hs)).1
    obtain ⟨front, hfront⟩ := h.stored _ hpred
    rw [history_concat]
    refine ⟨front, ?_⟩
    show front ++ (trellis.trace (history decoder.decisions) (tables.predecessor.get s) ++ _) = _
    rw [← List.append_assoc, hfront]
  · -- some state is reached, so the best one is
    have hbest := bestState_le metrics (bestState tables.next)
    obtain ⟨hreached, -⟩ := hsurvivors.least
      (path (bestState decoder.metrics) ++ [false]) (by
        rw [List.length_append, List.length_append, h.survivors.length _ h.finite_best]
        rfl)
    have hnext : tables.next.get (bestState tables.next) < INF :=
      Nat.lt_of_le_of_lt (bestState_le tables.next _) hreached
    have hzero : metrics.get (bestState tables.next) = 0 := by
      rw [hle, if_pos hnext, Nat.sub_self]
    omega

theorem step_full (symbol : UInt8 × UInt8) (hfull : decoder.decisions.length + 1 ≥ TRACEBACK) :
    decoder.step symbol =
      (⟨normalize (addCompareSelect decoder.metrics symbol).next,
        (decoder.decisions ++ [(addCompareSelect decoder.metrics symbol).predecessor]).tail,
        decoder.pendingBit⟩,
      [(traceback
        (decoder.decisions ++ [(addCompareSelect decoder.metrics symbol).predecessor]).reverse
        (bestState (normalize (addCompareSelect decoder.metrics symbol).next))).headD 0]) :=
  if_pos (by rw [List.length_append]; exact hfull)

theorem step_filling (symbol : UInt8 × UInt8)
    (hfilling : ¬ decoder.decisions.length + 1 ≥ TRACEBACK) :
    decoder.step symbol =
      (⟨normalize (addCompareSelect decoder.metrics symbol).next,
        decoder.decisions ++ [(addCompareSelect decoder.metrics symbol).predecessor],
        decoder.pendingBit⟩, []) :=
  if_neg (by rw [List.length_append]; exact hfilling)

/-- The bit at the far end of a full trace is the one of the survivor that
    has now got the latency behind it. -/
theorem headD_traceback {decisions : List (Vector (Fin STATES) STATES)} {s : Fin STATES}
    {bits : List Bool} {n : Nat} (hdepth : decisions.length = TRACEBACK)
    (hbits : bits.length = n + 1) (hn : n + 1 ≥ TRACEBACK)
    (hstored : trellis.trace (history decisions) s <:+ bits) :
    [(traceback decisions.reverse s).headD 0] =
      ((bits.take (n + 1 - (TRACEBACK - 1))).drop (n - (TRACEBACK - 1))).map Bool.toUInt8 := by
  have htrace : (trellis.trace (history decisions) s).length = TRACEBACK := by
    rw [Trellis.trace_length, history, List.length_map, List.length_reverse, hdepth]
  have hsuffix := List.suffix_iff_eq_drop.mp hstored
  rw [hbits, htrace] at hsuffix
  have hTRACEBACK : TRACEBACK = 64 := rfl
  have hlatency : n - (TRACEBACK - 1) = n + 1 - TRACEBACK := by omega
  have hone : n + 1 - (TRACEBACK - 1) = n + 1 - TRACEBACK + 1 := by omega
  rw [traceback_eq, hsuffix, hlatency, hone, List.drop_take, Nat.add_sub_cancel_left]
  match hbit : bits.drop (n + 1 - TRACEBACK) with
  | [] =>
    rw [List.drop_eq_nil_iff] at hbit
    omega
  | bit :: later => rfl

/-- One step keeps the decoder going, and puts out what the best survivor has
    got beyond the latency. -/
theorem Decoding.step (h : Decoding decoder received offset path) (symbol : UInt8 × UInt8) :
    ∃ offset' path', Decoding (decoder.step symbol).1 (received ++ [symbol]) offset' path' ∧
      (decoder.step symbol).2 =
        (((path' (bestState (decoder.step symbol).1.metrics)).take
          (received.length + 1 - (TRACEBACK - 1))).drop
            (received.length - (TRACEBACK - 1))).map Bool.toUInt8 := by
  obtain ⟨offset', path', hsurvivors, hstored, hleast⟩ := h.select symbol
  have hdepth := h.depth
  have hTRACEBACK : TRACEBACK = 64 := rfl
  have hreceived : (received ++ [symbol]).length = received.length + 1 := List.length_append
  refine ⟨offset', path', ?_⟩
  by_cases hfull : decoder.decisions.length + 1 ≥ TRACEBACK
  · rw [step_full symbol hfull]
    refine ⟨⟨hsurvivors, fun s hs => ?_, hleast, ?_⟩, ?_⟩
    · rw [history_tail]
      exact (trellis.trace_take _ _ s).trans (hstored s hs)
    · rw [List.length_tail, List.length_append, List.length_singleton, hreceived]
      omega
    · have hbest := Nat.lt_of_le_of_lt (Nat.le_of_eq hleast) (show 0 < INF by decide)
      refine headD_traceback ?_ ?_ (by omega) (hstored _ hbest)
      · rw [List.length_append, List.length_singleton]
        omega
      · rw [hsurvivors.length _ hbest, hreceived]
  · rw [step_filling symbol hfull]
    refine ⟨⟨hsurvivors, hstored, hleast, ?_⟩, ?_⟩
    · rw [List.length_append, List.length_singleton, hreceived]
      omega
    · have hnone : received.length + 1 - (TRACEBACK - 1) = 0 := by omega
      rw [hnone, List.take_zero, List.drop_nil, List.map_nil]

end Step

/-! ## Whole streams -/

/-- The complete symbols of a coded stream. -/
def symbolsOf : List UInt8 → List (UInt8 × UInt8)
  | first :: second :: coded => (first &&& 1, second &&& 1) :: symbolsOf coded
  | _ => []

def stepAll (decoder : ViterbiDecoder) : List (UInt8 × UInt8) → ViterbiDecoder × List UInt8
  | [] => (decoder, [])
  | symbol :: symbols =>
    ((stepAll (decoder.step symbol).1 symbols).1,
      (decoder.step symbol).2 ++ (stepAll (decoder.step symbol).1 symbols).2)

theorem stepAll_concat (decoder : ViterbiDecoder) (symbols : List (UInt8 × UInt8))
    (symbol : UInt8 × UInt8) :
    stepAll decoder (symbols ++ [symbol]) =
      (((stepAll decoder symbols).1.step symbol).1,
        (stepAll decoder symbols).2 ++ ((stepAll decoder symbols).1.step symbol).2) := by
  induction symbols generalizing decoder with
  | nil => simp [stepAll]
  | cons first symbols ih => simp [stepAll, ih]

/-- The decoder keeps survivors along every stream. -/
theorem stepAll_decoding (symbols : List (UInt8 × UInt8)) :
    ∃ offset path, Decoding (stepAll ViterbiDecoder.new symbols).1 symbols offset path := by
  induction symbols using List.reverseRecOn with
  | nil => exact ⟨0, _, Decoding.new⟩
  | append_singleton symbols symbol ih =>
    obtain ⟨offset, path, h⟩ := ih
    obtain ⟨offset', path', h', -⟩ := h.step symbol
    rw [stepAll_concat]
    exact ⟨offset', path', h'⟩

theorem stepAll_length {decoder : ViterbiDecoder} (h : decoder.decisions.length ≤ 63)
    (symbols : List (UInt8 × UInt8)) :
    (stepAll decoder symbols).2.length = decoder.decisions.length + symbols.length - 63 := by
  induction symbols generalizing decoder with
  | nil => simp only [stepAll, List.length_nil]; omega
  | cons symbol symbols ih =>
    simp only [stepAll, List.length_append, List.length_cons]
    by_cases hfull : decoder.decisions.length + 1 ≥ TRACEBACK
    · have hdepth : decoder.decisions.length = 63 := by
        unfold TRACEBACK at hfull
        omega
      rw [step_full symbol hfull, ih (by simp [hdepth])]
      simp only [List.length_singleton, List.length_tail, List.length_append]
      omega
    · rw [step_filling symbol hfull, ih (by
        unfold TRACEBACK at hfull
        simp only [List.length_append, List.length_singleton]
        omega)]
      simp only [List.length_nil, List.length_append, List.length_singleton]
      omega

theorem steps_cons (decoder : ViterbiDecoder) (first second : UInt8) (coded : List UInt8) :
    decoder.steps (first :: second :: coded) =
      (((decoder.step (first &&& 1, second &&& 1)).1.steps coded).1,
        (decoder.step (first &&& 1, second &&& 1)).2 ++
          ((decoder.step (first &&& 1, second &&& 1)).1.steps coded).2) := rfl

/-- On whole symbols the loop is one step for each of them. -/
theorem steps_eq_stepAll (decoder : ViterbiDecoder) {coded : List UInt8} {n : Nat}
    (heven : coded.length = 2 * n) : decoder.steps coded = stepAll decoder (symbolsOf coded) := by
  induction n generalizing decoder coded with
  | zero => rw [List.eq_nil_of_length_eq_zero heven]; rfl
  | succ n ih =>
    match coded with
    | first :: second :: coded =>
      have hrest : coded.length = 2 * n := by
        simp only [List.length_cons] at heven
        omega
      rw [steps_cons, ih _ hrest]
      rfl

/-- The best survivor agrees with the path that was sent, except in the last
    bits. -/
theorem Decoding.agrees {decoder : ViterbiDecoder} {received : List (UInt8 × UInt8)} {offset : Nat}
    {path : Fin STATES → List Bool} (h : Decoding decoder received offset path)
    {info : List Bool} (hlen : info.length = received.length)
    (herrors : Trellis.distance mismatches (trellis.encode 0 info) received ≤ 4)
    {n : Nat} (hn : n + 19 ≤ info.length) :
    (path (bestState decoder.metrics)).take n = info.take n := by
  obtain ⟨hpath, -, hclose⟩ := h.survivors.distance_le mismatches_comm mismatches_triangle hlen
    herrors (bestState_le decoder.metrics)
  apply List.ext_getElem?
  intro j
  rw [List.getElem?_take, List.getElem?_take]
  split
  · next hj =>
    by_contra hne
    -- a bit that differs would make the two words differ in nine places
    have hfar := distance_ge 0 hpath (by omega) hne
    omega
  · rfl

/-- What the decoder has put out after every symbol of a stream with at most
    four wrong bits. -/
theorem stepAll_decodes {symbols : List (UInt8 × UInt8)} {info : List Bool}
    (hlen : info.length = symbols.length)
    (herrors : Trellis.distance mismatches (trellis.encode 0 info) symbols ≤ 4) :
    (stepAll ViterbiDecoder.new symbols).2 =
      (info.take (info.length - (TRACEBACK - 1))).map Bool.toUInt8 := by
  induction symbols using List.reverseRecOn generalizing info with
  | nil =>
    rw [List.eq_nil_of_length_eq_zero hlen]
    rfl
  | append_singleton symbols symbol ih =>
    obtain ⟨before, bit, rfl⟩ : ∃ before bit, info = before ++ [bit] := by
      have hne : info ≠ [] := by
        intro hnil
        rw [hnil, List.length_append] at hlen
        simp at hlen
      exact ⟨info.dropLast, info.getLast hne, (List.dropLast_append_getLast hne).symm⟩
    have hbefore : before.length = symbols.length := by simpa using hlen
    have hearlier : Trellis.distance mismatches (trellis.encode 0 before) symbols ≤ 4 := by
      rw [Trellis.encode_append, Trellis.distance_append
        (by rw [Trellis.encode_length, hbefore])] at herrors
      omega
    obtain ⟨offset, path, hdecoding⟩ := stepAll_decoding symbols
    obtain ⟨offset', path', hdecoding', hbits⟩ := hdecoding.step symbol
    have hlength : (before ++ [bit]).length = before.length + 1 := List.length_append
    have hTRACEBACK : TRACEBACK = 64 := rfl
    rw [stepAll_concat]
    show (stepAll _ symbols).2 ++ (ViterbiDecoder.step _ symbol).2 = _
    rw [ih hbefore hearlier, hbits, ← hbefore, ← List.map_append, hlength]
    congr 1
    by_cases hfull : before.length + 1 - (TRACEBACK - 1) = 0
    · have hzero : before.length - (TRACEBACK - 1) = 0 := by omega
      rw [hfull, hzero]
      simp
    · rw [hdecoding'.agrees hlen herrors (by omega)]
      have hold : before.take (before.length - (TRACEBACK - 1)) =
          ((before ++ [bit]).take (before.length + 1 - (TRACEBACK - 1))).take
            (before.length - (TRACEBACK - 1)) := by
        rw [List.take_take, Nat.min_eq_left (by omega), List.take_append_of_le_length (by omega)]
      rw [hold, List.take_append_drop]

/-! ## Errors on the way -/

/-- The number of bits that differ. -/
def differences (xs ys : List UInt8) : Nat :=
  ((xs.zip ys).filter fun bits => bits.1 ≠ bits.2).length

theorem encoderNext_eq : ∀ (s : Fin STATES) (bit : Bool),
    encoderNext s bit.toUInt8 = trellis.next s bit := by
  decide

theorem emit_masked : ∀ (s : Fin STATES) (bit : Bool),
    (trellis.emit s bit).1 &&& 1 = (trellis.emit s bit).1 ∧
      (trellis.emit s bit).2 &&& 1 = (trellis.emit s bit).2 := by
  decide

theorem encodeFrom_cons (s : Fin STATES) (bit : Bool) (info : List Bool) :
    encodeFrom s ((bit :: info).map Bool.toUInt8) =
      (trellis.emit s bit).1 :: (trellis.emit s bit).2 ::
        encodeFrom (trellis.next s bit) (info.map Bool.toUInt8) := by
  have hmask : bit.toUInt8 &&& 1 = bit.toUInt8 := by
    cases bit <;> rfl
  show (expected s (bit.toUInt8 &&& 1)).1 :: (expected s (bit.toUInt8 &&& 1)).2 ::
    encodeFrom (encoderNext s bit.toUInt8) (info.map Bool.toUInt8) = _
  rw [hmask, encoderNext_eq]
  rfl

/-- A wrong symbol has a wrong bit. -/
theorem mismatches_mask {symbol : UInt8 × UInt8} (hfirst : symbol.1 &&& 1 = symbol.1)
    (hsecond : symbol.2 &&& 1 = symbol.2) (first second : UInt8) :
    mismatches symbol (first &&& 1, second &&& 1) ≤
      (if symbol.1 ≠ first then 1 else 0) + (if symbol.2 ≠ second then 1 else 0) := by
  have hplace : ∀ a b : UInt8, a &&& 1 = a →
      (if a ≠ b &&& 1 then 1 else 0) ≤ (if a ≠ b then 1 else 0) := by
    intro a b ha
    by_cases hab : a = b
    · rw [← hab, ha]
    · rw [if_pos hab]
      split <;> omega
  exact Nat.add_le_add (hplace _ first hfirst) (hplace _ second hsecond)

theorem differences_cons (x y : UInt8) (xs ys : List UInt8) :
    differences (x :: xs) (y :: ys) = (if x ≠ y then 1 else 0) + differences xs ys := by
  unfold differences
  rw [List.zip_cons_cons, List.filter_cons]
  by_cases hxy : x = y
  · simp [hxy]
  · simp [hxy, Nat.add_comm]

theorem symbolsOf_length {coded : List UInt8} {n : Nat} (h : coded.length = 2 * n) :
    (symbolsOf coded).length = n := by
  induction n generalizing coded with
  | zero => rw [List.eq_nil_of_length_eq_zero h]; rfl
  | succ n ih =>
    match coded with
    | _ :: _ :: coded =>
      simp only [List.length_cons] at h
      have hrest : coded.length = 2 * n := by omega
      exact congrArg Nat.succ (ih hrest)

theorem distance_symbolsOf (s : Fin STATES) {info : List Bool} {received : List UInt8}
    (hlen : received.length = 2 * info.length) :
    Trellis.distance mismatches (trellis.encode s info) (symbolsOf received) ≤
      differences (encodeFrom s (info.map Bool.toUInt8)) received := by
  induction info generalizing s received with
  | nil => rw [List.eq_nil_of_length_eq_zero hlen]; exact Nat.le_refl _
  | cons bit info ih =>
    match received with
    | first :: second :: received =>
      have hrest : received.length = 2 * info.length := by
        simp only [List.length_cons] at hlen
        omega
      have hsymbol := mismatches_mask (emit_masked s bit).1 (emit_masked s bit).2 first second
      have hlater := ih (trellis.next s bit) hrest
      rw [encodeFrom_cons, differences_cons, differences_cons]
      show Trellis.distance mismatches (trellis.emit s bit :: _) (_ :: _) ≤ _
      rw [Trellis.distance_cons]
      omega

/-! ## Pieces -/

theorem step_pendingBit (decoder : ViterbiDecoder) (symbol : UInt8 × UInt8) :
    (decoder.step symbol).1.pendingBit = decoder.pendingBit := by
  by_cases hfull : decoder.decisions.length + 1 ≥ TRACEBACK
  · rw [step_full symbol hfull]
  · rw [step_filling symbol hfull]

theorem pushBits_none {decoder : ViterbiDecoder} (hnone : decoder.pendingBit = none)
    (bits : List UInt8) : decoder.pushBits bits = decoder.steps bits := by
  obtain ⟨metrics, decisions, pendingBit⟩ := decoder
  rw [show pendingBit = none from hnone]
  rfl

/-- The loop over one part of a stream and then over the rest, the odd bit
    between them carried over. -/
theorem steps_append {decoder : ViterbiDecoder} (hnone : decoder.pendingBit = none) :
    ∀ xs ys : List UInt8, decoder.steps (xs ++ ys) =
      (((decoder.steps xs).1.pushBits ys).1,
        (decoder.steps xs).2 ++ ((decoder.steps xs).1.pushBits ys).2)
  | [], ys => by
    show decoder.steps ys = ((decoder.pushBits ys).1, (decoder.pushBits ys).2)
    rw [pushBits_none hnone]
  | [first], ys => by
    obtain ⟨metrics, decisions, pendingBit⟩ := decoder
    rw [show pendingBit = none from hnone]
    rfl
  | first :: second :: xs, ys => by
    have hrest := steps_append
      ((step_pendingBit decoder (first &&& 1, second &&& 1)).trans hnone) xs ys
    rw [List.cons_append, List.cons_append, steps_cons, steps_cons, hrest, List.append_assoc]

theorem pushBits_append (decoder : ViterbiDecoder) (xs ys : List UInt8) :
    decoder.pushBits (xs ++ ys) =
      (((decoder.pushBits xs).1.pushBits ys).1,
        (decoder.pushBits xs).2 ++ ((decoder.pushBits xs).1.pushBits ys).2) := by
  show ViterbiDecoder.steps _ (decoder.pendingBit.toList ++ (xs ++ ys)) = _
  rw [← List.append_assoc, steps_append rfl]
  rfl

theorem pushBits_nil (decoder : ViterbiDecoder) : decoder.pushBits [] = (decoder, []) := by
  obtain ⟨metrics, decisions, pendingBit⟩ := decoder
  match pendingBit with
  | none => rfl
  | some first => rfl

/-- However a stream is cut, the decoder ends as if it came in one piece. -/
theorem pushAll_eq_pushBits (decoder : ViterbiDecoder) (pieces : List (List UInt8)) :
    decoder.pushAll pieces = decoder.pushBits pieces.flatten := by
  induction pieces generalizing decoder with
  | nil => exact (pushBits_nil decoder).symm
  | cons bits later ih =>
    show (((decoder.pushBits bits).1.pushAll later).1,
      (decoder.pushBits bits).2 ++ ((decoder.pushBits bits).1.pushAll later).2) = _
    rw [ih, List.flatten_cons, pushBits_append]

theorem length_encodeFrom (s : Fin STATES) (bits : List UInt8) :
    (encodeFrom s bits).length = 2 * bits.length := by
  induction bits generalizing s with
  | nil => rfl
  | cons bit bits ih =>
    rw [encodeFrom, List.length_cons, List.length_cons, ih, List.length_cons, Nat.mul_succ]

/-- Four wrong bits do no harm. -/
theorem pushBits_decodes {info : List Bool} {received : List UInt8}
    (hlen : received.length = 2 * info.length)
    (herrors : differences (encode (info.map Bool.toUInt8)) received ≤ 4) :
    (ViterbiDecoder.new.pushBits received).2 =
      (info.take (info.length - (TRACEBACK - 1))).map Bool.toUInt8 := by
  have hdistance := Nat.le_trans (distance_symbolsOf 0 hlen) herrors
  rw [pushBits_none rfl, steps_eq_stepAll _ hlen]
  exact stepAll_decodes (symbolsOf_length hlen).symm hdistance

/-- **The decoder recovers what was sent.** The information bits come out up
    to the latency of the traceback when at most four coded bits are wrong,
    and no output depends on how a stream is cut. -/
theorem pushAll_decodes :
    (∀ (info : List Bool) (received : List UInt8),
      received.length = (encode (info.map Bool.toUInt8)).length →
      differences (encode (info.map Bool.toUInt8)) received ≤ 4 →
      ∀ pieces : List (List UInt8), pieces.flatten = received →
        (ViterbiDecoder.new.pushAll pieces).2 =
          (info.take (info.length - (TRACEBACK - 1))).map Bool.toUInt8) ∧
    (∀ (decoder : ViterbiDecoder) (pieces pieces' : List (List UInt8)),
      pieces.flatten = pieces'.flatten → decoder.pushAll pieces = decoder.pushAll pieces') := by
  refine ⟨fun info received hlen herrors pieces hpieces => ?_, fun decoder pieces pieces' h => ?_⟩
  · rw [encode, length_encodeFrom, List.length_map] at hlen
    rw [pushAll_eq_pushBits, hpieces]
    exact pushBits_decodes hlen herrors
  · rw [pushAll_eq_pushBits, pushAll_eq_pushBits, h]

/-- A stream of 66 bits with one bit wrong, cut after an odd number of bits. -/
theorem pushAll_decodes_flipped :
    let info := List.replicate 65 true ++ [false]
    let coded := encode (info.map Bool.toUInt8)
    let received := coded.set 9 (coded.getD 9 0 ^^^ 1)
    received ≠ coded ∧
      (ViterbiDecoder.new.pushAll [received.take 33, received.drop 33]).2 = [1, 1, 1] := by
  intro info coded received
  have hlen : received.length = coded.length := List.length_set
  have hdifferences : differences coded received ≤ 4 := by decide
  refine ⟨by decide, ?_⟩
  rw [pushAll_decodes.1 info received hlen hdifferences [received.take 33, received.drop 33]
    (by rw [List.flatten_cons, List.flatten_singleton, List.take_append_drop])]
  decide

end Lrpt.Viterbi
