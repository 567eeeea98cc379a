import EzSdr.Lrpt.Interleaver
import EzSdr.Lrpt.ViterbiDecode

/-! # What the Metrics of the Viterbi Decoder Are

    After any stream the metric of a state is the distance between the hard
    bits received and the nearest coded path into that state, less the distance
    of the nearest path of all. A state that no path of this length reaches,
    and no other, has the metric `INF`.

    The decoder is not told which bits were erased: an erasure counts as the
    hard bit that stands for it.

    **`metrics_exact`**: this holds for streams of every length, cut in any way. -/

namespace Lrpt.Viterbi

/-! ## Section 1: Paths of the encoder -/

/-- The state of the encoder after some bits. -/
def encoderEnd (bits : List UInt8) : Fin STATES := bits.foldl encoderNext zeroState

/-- Number of received bits in which a stream differs from a coded path. -/
def hardDistance (coded : List UInt8) (received : List ChannelBit) : Nat :=
  differences coded (received.map fun bit => bit.value &&& 1)

/-- The same, where an erased bit differs from nothing. -/
def observedDistance (coded : List UInt8) (received : List ChannelBit) : Nat :=
  ((coded.zip received).filter fun bits =>
    bits.2.valid && bits.1 ≠ (bits.2.value &&& 1)).length

/-- What a stream costs, by the distance `d`, on the way along some path of as
    many steps as it has whole symbols. -/
def pathCosts (d : List UInt8 → List ChannelBit → Nat) (received : List ChannelBit)
    (paths : Set (List Bool)) : Set Nat :=
  {cost | ∃ info ∈ paths, info.length = received.length / 2 ∧
    cost = d (encode (info.map Bool.toUInt8)) received}

/-- The paths that end in a state. -/
def pathsInto (s : Fin STATES) : Set (List Bool) :=
  {info | encoderEnd (info.map Bool.toUInt8) = s}

/-- The metrics of a decoder are those of a stream: least costs less the least cost of all. -/
def ExactMetrics (d : List UInt8 → List ChannelBit → Nat) (received : List ChannelBit)
    (decoder : ViterbiDecoder) : Prop :=
  ∃ low, IsLeast (pathCosts d received Set.univ) low ∧ ∀ s : Fin STATES,
    ((pathCosts d received (pathsInto s)).Nonempty → decoder.metrics.get s < INF ∧
      IsLeast (pathCosts d received (pathsInto s)) (decoder.metrics.get s + low)) ∧
    (pathCosts d received (pathsInto s) = ∅ → decoder.metrics.get s = INF)

theorem encoderEnd_eq (info : List Bool) :
    encoderEnd (info.map Bool.toUInt8) = trellis.endState 0 info := by
  have hfrom : ∀ (info : List Bool) (s : Fin STATES),
      (info.map Bool.toUInt8).foldl encoderNext s = trellis.endState s info := by
    intro info
    induction info with
    | nil => exact fun _ => rfl
    | cons bit info ih =>
      intro s
      show (info.map Bool.toUInt8).foldl encoderNext (encoderNext s bit.toUInt8) = _
      rw [encoderNext_eq, ih]
      rfl
  exact hfrom info 0

/-! ## Section 2: Symbols and bits -/

/-- The hard bits of a stream. -/
def hardBits (received : List ChannelBit) : List UInt8 := received.map ChannelBit.value

/-- A masked symbol differs in as many bits as its bits do. -/
theorem mismatches_masked (symbol : UInt8 × UInt8) (first second : UInt8) :
    mismatches symbol (first &&& 1, second &&& 1) =
      (if symbol.1 ≠ first &&& 1 then 1 else 0) + (if symbol.2 ≠ second &&& 1 then 1 else 0) := rfl

theorem distance_hardBits (s : Fin STATES) {info : List Bool} {received : List ChannelBit}
    (hlen : info.length = received.length / 2) :
    Trellis.distance mismatches (trellis.encode s info) (symbolsOf (hardBits received)) =
      hardDistance (encodeFrom s (info.map Bool.toUInt8)) received := by
  induction info generalizing s received with
  | nil =>
    -- at most half a symbol is left
    simp [Trellis.distance, Trellis.encode, hardDistance, encodeFrom, differences]
  | cons bit info ih =>
    cases received with
    | nil => simp at hlen
    | cons first received =>
      cases received with
      | nil => simp at hlen
      | cons second received =>
        have hrest : info.length = received.length / 2 := by
          simp only [List.length_cons] at hlen
          omega
        have hlater := ih (trellis.next s bit) hrest
        unfold hardDistance at hlater ⊢
        rw [encodeFrom_cons, List.map_cons, List.map_cons, differences_cons, differences_cons,
          ← hlater, ← Nat.add_assoc, ← mismatches_masked]
        exact Trellis.distance_cons _ _ _ _ _

theorem symbolsOf_hardBits_length (received : List ChannelBit) :
    (symbolsOf (hardBits received)).length = received.length / 2 := by
  match received with
  | [] => rfl
  | [_] => exact (by decide : 0 = 1 / 2)
  | first :: second :: received =>
    have hrest := symbolsOf_hardBits_length received
    show (symbolsOf (hardBits received)).length + 1 = (received.length + 1 + 1) / 2
    omega

/-- An odd bit at the end changes no metric. -/
theorem steps_metrics (decoder : ViterbiDecoder) (coded : List UInt8) :
    (decoder.steps coded).1.metrics = (stepAll decoder (symbolsOf coded)).1.metrics := by
  match coded with
  | [] => rfl
  | [_] => rfl
  | first :: second :: coded =>
    rw [steps_cons]
    exact steps_metrics (decoder.step (first &&& 1, second &&& 1)).1 coded

/-! ## Section 3: No metric above the sentinel -/

theorem addCompareSelect_le (metrics : Vector Nat STATES) (received : UInt8 × UInt8)
    (s : Fin STATES) : (addCompareSelect metrics received).next.get s ≤ INF := by
  have hall : Relaxed metrics received ([] ++ edgesOf metrics (List.finRange STATES))
      (addCompareSelect metrics received) := Relaxed.init.states _
  exact hall.bounded s

theorem step_metrics_le (decoder : ViterbiDecoder) (symbol : UInt8 × UInt8) (s : Fin STATES) :
    (decoder.step symbol).1.metrics.get s ≤ INF := by
  have hnormal : (normalize (addCompareSelect decoder.metrics symbol).next).get s ≤ INF := by
    have hle := addCompareSelect_le decoder.metrics symbol s
    show (normalize _)[s] ≤ INF
    rw [normalize_get]
    split <;> omega
  unfold ViterbiDecoder.step
  dsimp only
  split
  · exact hnormal
  · exact hnormal

theorem stepAll_metrics_le (symbols : List (UInt8 × UInt8)) (s : Fin STATES) :
    (stepAll ViterbiDecoder.new symbols).1.metrics.get s ≤ INF := by
  induction symbols using List.reverseRecOn with
  | nil =>
    revert s
    decide
  | append_singleton symbols symbol ih =>
    rw [stepAll_concat]
    exact step_metrics_le _ symbol s

/-! ## Section 4: The metrics -/

/-- **The metrics are exact.** For every stream, in any pieces, the metric of a reached state is
    the least hard distance of a path into it, less the least of all, and never the sentinel;
    the others have the sentinel. -/
theorem metrics_exact (pieces : List (List ChannelBit)) :
    ExactMetrics hardDistance pieces.flatten
      (ViterbiDecoder.new.pushAll (pieces.map hardBits)).1 := by
  generalize hreceived : pieces.flatten = received
  have hflat : (pieces.map hardBits).flatten = hardBits received := by
    rw [← hreceived]
    unfold hardBits
    rw [List.map_flatten]
  have hmetrics : (ViterbiDecoder.new.pushAll (pieces.map hardBits)).1.metrics =
      (stepAll ViterbiDecoder.new (symbolsOf (hardBits received))).1.metrics := by
    rw [pushAll_eq_pushBits, hflat, pushBits_none rfl, steps_metrics]
  obtain ⟨offset, path, hdecoding⟩ := stepAll_decoding (symbolsOf (hardBits received))
  have hle := stepAll_metrics_le (symbolsOf (hardBits received))
  unfold ExactMetrics
  rw [hmetrics]
  generalize (stepAll ViterbiDecoder.new (symbolsOf (hardBits received))).1 = decoder at *
  have hsurvivors := hdecoding.survivors
  have hsteps := symbolsOf_hardBits_length received
  -- the survivor of a reached state is a path that costs its metric
  have hpath (s : Fin STATES) (hs : decoder.metrics.get s < INF) :
      (path s).length = received.length / 2 ∧ encoderEnd ((path s).map Bool.toUInt8) = s ∧
        hardDistance (encode ((path s).map Bool.toUInt8)) received =
          decoder.metrics.get s + offset := by
    have hlength := (hsurvivors.length s hs).trans hsteps
    refine ⟨hlength, (encoderEnd_eq _).trans (hsurvivors.ends s hs), ?_⟩
    rw [← hsurvivors.cost s hs]
    exact (distance_hardBits 0 hlength).symm
  have hleast (info : List Bool) (hinfo : info.length = received.length / 2) :
      decoder.metrics.get (encoderEnd (info.map Bool.toUInt8)) < INF ∧
        decoder.metrics.get (encoderEnd (info.map Bool.toUInt8)) + offset ≤
          hardDistance (encode (info.map Bool.toUInt8)) received := by
    rw [encoderEnd_eq]
    obtain ⟨hfinite, hbound⟩ := hsurvivors.least info (hinfo.trans hsteps.symm)
    exact ⟨hfinite, hbound.trans (distance_hardBits 0 hinfo).le⟩
  refine ⟨offset, ⟨?_, ?_⟩, fun s => ⟨?_, ?_⟩⟩
  · obtain ⟨hlength, -, hcost⟩ := hpath _ hdecoding.finite_best
    refine ⟨path (bestState decoder.metrics), trivial, hlength, ?_⟩
    rw [hcost, hdecoding.least, Nat.zero_add]
  · rintro cost ⟨info, -, hinfo, rfl⟩
    exact (Nat.le_add_left _ _).trans (hleast info hinfo).2
  · rintro ⟨cost, info, hinto, hinfo, rfl⟩
    have hinto : encoderEnd (info.map Bool.toUInt8) = s := hinto
    have hfinite : decoder.metrics.get s < INF := by
      rw [← hinto]
      exact (hleast info hinfo).1
    refine ⟨hfinite, ?_, ?_⟩
    · obtain ⟨hlength, hends, hcost⟩ := hpath s hfinite
      exact ⟨path s, hends, hlength, hcost.symm⟩
    · rintro cost ⟨info', hinto', hinfo', rfl⟩
      have hinto' : encoderEnd (info'.map Bool.toUInt8) = s := hinto'
      rw [← hinto']
      exact (hleast info' hinfo').2
  · intro hempty
    by_contra hne
    have hfinite : decoder.metrics.get s < INF := lt_of_le_of_ne (hle s) hne
    obtain ⟨hlength, hends, hcost⟩ := hpath s hfinite
    have hmem : decoder.metrics.get s + offset ∈ pathCosts hardDistance received (pathsInto s) :=
      ⟨path s, hends, hlength, hcost.symm⟩
    rw [hempty] at hmem
    exact hmem

/-- An erased symbol is no help to the state it stands for: the decoder charges the other one. -/
theorem erasures_are_charged : ¬ ∀ pieces : List (List ChannelBit),
    ExactMetrics observedDistance pieces.flatten
      (ViterbiDecoder.new.pushAll (pieces.map hardBits)).1 := by
  intro hall
  obtain ⟨low, -, hstates⟩ := hall [[.ERASURE, .ERASURE]]
  have hzero : 0 ∈ pathCosts observedDistance [.ERASURE, .ERASURE] (pathsInto 0) :=
    ⟨[false], (by decide : encoderEnd [0] = 0), rfl, by decide⟩
  obtain ⟨-, -, hbound⟩ := (hstates 0).1 ⟨0, hzero⟩
  have hmetric : (ViterbiDecoder.new.pushAll [hardBits [.ERASURE, .ERASURE]]).1.metrics.get 0 = 2 := by
    decide +kernel
  have hle := hbound hzero
  have hsum : (ViterbiDecoder.new.pushAll [hardBits [.ERASURE, .ERASURE]]).1.metrics.get 0 + low
    ≤ 0 := hle
  omega

end Lrpt.Viterbi
