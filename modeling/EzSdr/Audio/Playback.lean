import EzSdr.Audio.RateConverter
import EzSdr.Capture.Block

/-! # Playback of Audio Frames

    Frames from the daemon are converted to the rate of the sound card. Every
    channel has a lane, a filter with an integer phase. A frame goes on with
    the lanes of the one before it if its channel, its sequence number and its
    audio clock are the ones expected; otherwise it starts afresh.

    **`playback_spec`**: the output is that of fresh lanes for each maximal run
    of frames that go on with one another, with `⌈n * output / source⌉` frames
    for `n` samples in every lane. -/

namespace Playback

open AudioRate (RateFilter emitLoop f64)
open Capture (Dsp offsetSamples)
open Ingest (CaptureClock)

/-! ## Section 1: The resampler -/

/-- The arithmetic on samples `α`, output samples `β` and gains `γ`. -/
structure PlaybackArithmetic (α β γ : Type*) where
  /-- Samples that are not finite become zero, all others are clipped. -/
  clean  : α → α
  /-- `RateFilter::output` of a ratio at the phase `next / denominator`. -/
  output : ℚ → ℕ → ℕ → List α → β
  /-- Gain and clipping of a filtered sample. -/
  scale  : γ → β → β
  /-- A sample as it is, with gain. -/
  direct : γ → α → β

/-- Rates a frame can have. -/
def ValidRates (sourceRate stride outputRate : ℕ) : Prop :=
  stride ≠ 0 ∧ 8000 * stride ≤ sourceRate ∧ sourceRate ≤ 384000 * stride ∧
    8000 ≤ outputRate ∧ outputRate ≤ 384000

instance (sourceRate stride outputRate : ℕ) : Decidable (ValidRates sourceRate stride outputRate) :=
  inferInstanceAs (Decidable (_ ∧ _))

structure ResamplerLane (α : Type*) where
  /-- Source rate, stride and output rate. -/
  rates  : ℕ × ℕ × ℕ
  filter : Option (RateFilter α)
  /-- Next output position, in units of `1 / (output rate * stride)`. -/
  next   : ℕ

def ResamplerLane.default {α : Type*} : ResamplerLane α := ⟨(0, 0, 0), none, 0⟩

structure AudioResampler (α : Type*) where
  left     : ResamplerLane α
  right    : ResamplerLane α
  /-- Channel, sequence number and audio clock of the next frame. -/
  expected : Option (ℕ × ℕ × CaptureClock)
  channels : ℕ

def AudioResampler.default {α : Type*} : AudioResampler α :=
  ⟨ResamplerLane.default, ResamplerLane.default, none, 0⟩

structure AudioFrame (α : Type*) where
  audioClock   : CaptureClock
  sequence     : ℕ
  channelId    : ℕ
  sampleRateHz : ℕ
  /-- Number of interleaved channels. -/
  channels     : ℕ
  samples      : List α

/-- A frame with the output rate and the gain it is played with. -/
structure Call (α γ : Type*) where
  frame      : AudioFrame α
  outputRate : ℕ
  gain       : γ

/-- `skip(k).step_by(n)`. -/
def stepBy {α : Type*} (n : ℕ) : ℕ → List α → List α
  | _, [] => []
  | 0, a :: l => a :: stepBy n (n - 1) l
  | k + 1, _ :: l => stepBy n k l

/-- Left and right samples in turn, as many as there are of both. -/
def interleave {β : Type*} (left right : List β) : List β :=
  (left.zip right).flatMap fun pair => [pair.1, pair.2]

section

variable {α ν β γ : Type*} (A : Dsp α ν) (B : PlaybackArithmetic α β γ)

/-- The loop of `process_ratio`, over samples with their gains. A phase that could not be set
    back would panic. -/
def playLoop (sourceRate denominator : ℕ) :
    List (α × γ) → RateFilter α → ℕ → Option (RateFilter α × ℕ × List β)
  | [], filter, next => some (filter, next, [])
  | (sample, gain) :: samples, filter, next =>
    let filter := filter.push (B.clean sample)
    let frame := fun phase =>
      B.scale gain (B.output filter.inputPerOutput phase denominator filter.window)
    match emitLoop frame sourceRate denominator (denominator - next) next with
    | none => none
    | some (next, frames) =>
      if next < denominator then none
      else
        match playLoop sourceRate denominator samples filter (next - denominator) with
        | none => none
        | some (filter, next, rest) => some (filter, next, frames ++ rest)

/-- `process_ratio`; every sample comes with the gain of its frame. -/
def processRatio (lane : ResamplerLane α) (samples : List (α × γ))
    (sourceRate stride outputRate : ℕ) : Option (ResamplerLane α × List β) :=
  if ¬ValidRates sourceRate stride outputRate then some (ResamplerLane.default, [])
  else
    let denominator := outputRate * stride
    if sourceRate = denominator then
      some (ResamplerLane.default, samples.map fun sample => B.direct sample.2 sample.1)
    else
      let lane :=
        if lane.rates ≠ (sourceRate, stride, outputRate) then
          { rates := (sourceRate, stride, outputRate)
            filter := some (RateFilter.new A (f64 (sourceRate / denominator)))
            next := 0 }
        else lane
      match lane.filter with
      | none => none
      | some filter =>
        match playLoop B sourceRate denominator samples filter lane.next with
        | none => none
        | some (filter, next, frames) =>
          some ({ lane with filter := some filter, next := next }, frames)

namespace Call

/-- The geometry of the frame is right. -/
def Valid (c : Call α γ) : Prop :=
  c.frame.audioClock.sampleStride ≠ 0 ∧
    c.frame.sampleRateHz =
      c.frame.audioClock.sourceSampleRateHz / c.frame.audioClock.sampleStride ∧
    (c.frame.channels = 1 ∨ c.frame.channels = 2) ∧
    c.frame.channels ∣ c.frame.samples.length ∧
    ValidRates c.frame.audioClock.sourceSampleRateHz c.frame.audioClock.sampleStride c.outputRate

instance (c : Call α γ) : Decidable c.Valid := inferInstanceAs (Decidable (_ ∧ _))

/-- The samples of a channel, with the gain. -/
def lane (c : Call α γ) (channel : ℕ) : List (α × γ) :=
  (stepBy c.frame.channels channel c.frame.samples).map fun sample => (sample, c.gain)

/-- Channel, sequence number and audio clock of the frame that goes on with this one. -/
def successor (c : Call α γ) : Option (ℕ × ℕ × CaptureClock) :=
  (offsetSamples c.frame.audioClock (c.frame.samples.length / c.frame.channels)).map fun clock =>
    (c.frame.channelId, min (c.frame.sequence + 1) (2 ^ 64 - 1), { clock with discontinuous := false })

/-- `process_ratio` for samples at the rates of this frame. -/
def convert (c : Call α γ) (lane : ResamplerLane α) (samples : List (α × γ)) :
    Option (ResamplerLane α × List β) :=
  processRatio A B lane samples c.frame.audioClock.sourceSampleRateHz
    c.frame.audioClock.sampleStride c.outputRate

end Call

namespace AudioResampler

/-- The lanes a valid frame is played with. -/
def playFrame (s : AudioResampler α) (c : Call α γ) : Option (AudioResampler α × List β) :=
  match c.convert A B s.left (c.lane 0) with
  | none => none
  | some (left, l) =>
    if c.frame.channels = 1 then
      some (⟨left, s.right, c.successor, c.frame.channels⟩, l)
    else
      match c.convert A B s.right (c.lane 1) with
      | none => none
      | some (right, r) => some (⟨left, right, c.successor, c.frame.channels⟩, interleave l r)

/-- `process_frame`. -/
def processFrame (s : AudioResampler α) (c : Call α γ) : Option (AudioResampler α × List β) :=
  let continuous :=
    s.expected = some (c.frame.channelId, c.frame.sequence, c.frame.audioClock)
  let s := if ¬continuous ∨ s.channels ≠ c.frame.channels then default else s
  if ¬c.Valid then some (default, [])
  else s.playFrame A B c

/-- Frames one after the other. -/
def processAll (s : AudioResampler α) : List (Call α γ) → Option (AudioResampler α × List β)
  | [] => some (s, [])
  | c :: calls =>
    match s.processFrame A B c with
    | none => none
    | some (s, output) =>
      match processAll s calls with
      | none => none
      | some (s, rest) => some (s, output ++ rest)

end AudioResampler

end

/-! ## Section 2: Lanes -/

section

variable {α ν β γ : Type*}

/-- As many samples as there are steps, the first after `k`. -/
theorem length_stepBy {n k : ℕ} (hk : k < n) (l : List α) :
    (stepBy n k l).length = (l.length + (n - 1 - k)) / n := by
  induction l generalizing k with
  | nil =>
    unfold stepBy
    rw [List.length_nil, Nat.zero_add]
    exact (Nat.div_eq_of_lt (by omega)).symm
  | cons a l ih =>
    cases k with
    | zero =>
      unfold stepBy
      rw [List.length_cons, ih (show n - 1 < n by omega), List.length_cons]
      have hsum : l.length + 1 + (n - 1 - 0) = l.length + n := by omega
      have hlast : l.length + (n - 1 - (n - 1)) = l.length := by omega
      rw [hsum, Nat.add_div_right _ (by omega), hlast]
    | succ k =>
      unfold stepBy
      rw [ih (by omega), List.length_cons]
      congr 1
      omega

/-- All channels of a frame have the same number of samples. -/
theorem Call.length_lane {c : Call α γ} (hc : c.Valid) {channel : ℕ}
    (h : channel < c.frame.channels) :
    (c.lane channel).length = c.frame.samples.length / c.frame.channels := by
  obtain ⟨n, hn⟩ := hc.2.2.2.1
  unfold Call.lane
  rw [List.length_map, length_stepBy h, hn, Nat.mul_add_div (by omega),
    Nat.mul_div_cancel_left n (by omega), Nat.div_eq_of_lt (by omega), Nat.add_zero]

variable {A : Dsp α ν} {B : PlaybackArithmetic α β γ}

/-- The phase counts the output of a lane. -/
theorem playLoop_spec {sourceRate : ℕ} (denominator : ℕ) (hpos : 0 < sourceRate)
    (samples : List (α × γ)) (filter : RateFilter α) {next : ℕ} (hnext : next < sourceRate) :
    ∃ filter' last frames,
      playLoop B sourceRate denominator samples filter next = some (filter', last, frames) ∧
      last < sourceRate ∧
      last + samples.length * denominator = next + frames.length * sourceRate := by
  induction samples generalizing filter next with
  | nil => exact ⟨filter, next, [], rfl, hnext, by simp⟩
  | cons sample samples ih =>
    obtain ⟨past, frames, hloop, hpast, hnear, hlast⟩ := AudioRate.emitLoop_spec
      (fun phase => B.scale sample.2 (B.output (filter.push (B.clean sample.1)).inputPerOutput
        phase denominator (filter.push (B.clean sample.1)).window)) hpos (denominator - next)
      (le_refl (denominator - next)) (Nat.lt_add_left denominator hnext)
    obtain ⟨filter', last, rest, hrest, hlt, hcount⟩ :=
      @ih (filter.push (B.clean sample.1)) (past - denominator) (by omega)
    refine ⟨filter', last, frames ++ rest, ?_, hlt, ?_⟩
    · unfold playLoop
      simp only [hloop, if_neg (not_lt.2 hpast), hrest]
    · rw [List.length_cons, List.length_append, Nat.add_mul, Nat.add_mul, Nat.one_mul]
      omega

/-- Filter and phase survive the end of a frame. -/
theorem playLoop_append {sourceRate denominator : ℕ} (samples samples' : List (α × γ))
    {filter filter' : RateFilter α} {next next' : ℕ} {frames : List β}
    (h : playLoop B sourceRate denominator samples filter next = some (filter', next', frames)) :
    playLoop B sourceRate denominator (samples ++ samples') filter next =
      (playLoop B sourceRate denominator samples' filter' next').map
        fun r => (r.1, r.2.1, frames ++ r.2.2) := by
  induction samples generalizing filter next frames with
  | nil =>
    obtain ⟨rfl, rfl, rfl⟩ : filter = filter' ∧ next = next' ∧ [] = frames := by
      simpa [playLoop] using h
    cases hloop : playLoop B sourceRate denominator samples' filter next with
    | none => rw [List.nil_append, hloop]; rfl
    | some r => rw [List.nil_append, hloop]; rfl
  | cons sample samples ih =>
    rw [List.cons_append]
    conv_lhs => unfold playLoop
    unfold playLoop at h
    dsimp only at h ⊢
    -- what one sample emits; none when the loop runs out of steps
    cases hemit : emitLoop (fun phase => B.scale sample.2
        (B.output (filter.push (B.clean sample.1)).inputPerOutput phase denominator
          (filter.push (B.clean sample.1)).window)) sourceRate denominator
        (denominator - next) next with
    | none =>
      rw [hemit] at h
      cases h
    | some emitted =>
      rw [hemit] at h
      dsimp only at h ⊢
      by_cases hlt : emitted.1 < denominator
      · rw [if_pos hlt] at h
        cases h
      · rw [if_neg hlt] at h ⊢
        cases hrest : playLoop B sourceRate denominator samples (filter.push (B.clean sample.1))
            (emitted.1 - denominator) with
        | none =>
          rw [hrest] at h
          cases h
        | some r =>
          rw [hrest] at h
          obtain ⟨rfl, rfl, rfl⟩ : r.1 = filter' ∧ r.2.1 = next' ∧ emitted.2 ++ r.2.2 = frames := by
            simpa using h
          rw [ih hrest]
          cases playLoop B sourceRate denominator samples' r.1 r.2.1 with
          | none => rfl
          | some r' => simp only [Option.map_some, List.append_assoc]

/-! ### `process_ratio` -/

variable {sourceRate stride outputRate : ℕ}

/-- A lane for these rates: the one there is, or a fresh one. -/
def startLane (A : Dsp α ν) (lane : ResamplerLane α) (sourceRate stride outputRate : ℕ) :
    ResamplerLane α :=
  if lane.rates ≠ (sourceRate, stride, outputRate) then
    { rates := (sourceRate, stride, outputRate)
      filter := some (RateFilter.new A (f64 (sourceRate / (outputRate * stride : ℕ))))
      next := 0 }
  else lane

theorem startLane_rates (A : Dsp α ν) (lane : ResamplerLane α) (sourceRate stride outputRate : ℕ) :
    (startLane A lane sourceRate stride outputRate).rates = (sourceRate, stride, outputRate) := by
  unfold startLane
  split
  · rfl
  · next h => exact not_not.mp h

theorem startLane_of_rates {lane : ResamplerLane α}
    (h : lane.rates = (sourceRate, stride, outputRate)) :
    startLane A lane sourceRate stride outputRate = lane := by
  unfold startLane
  rw [if_neg (not_not.mpr h)]

/-- Equal rates need no filter. -/
theorem processRatio_equal (hrates : ValidRates sourceRate stride outputRate)
    (h : sourceRate = outputRate * stride) (lane : ResamplerLane α) (samples : List (α × γ)) :
    processRatio A B lane samples sourceRate stride outputRate =
      some (ResamplerLane.default, samples.map fun sample => B.direct sample.2 sample.1) := by
  unfold processRatio
  rw [if_neg (not_not.mpr hrates)]
  dsimp only
  rw [if_pos h]

/-- Any other rates run the filter of the lane. -/
theorem processRatio_filter (hrates : ValidRates sourceRate stride outputRate)
    (h : sourceRate ≠ outputRate * stride) {lane : ResamplerLane α} (filter : RateFilter α)
    (hfilter : (startLane A lane sourceRate stride outputRate).filter = some filter)
    (samples : List (α × γ)) :
    processRatio A B lane samples sourceRate stride outputRate =
      (playLoop B sourceRate (outputRate * stride) samples filter
        (startLane A lane sourceRate stride outputRate).next).map fun r =>
          (⟨(sourceRate, stride, outputRate), some r.1, r.2.1⟩, r.2.2) := by
  have hstart := startLane_rates A lane sourceRate stride outputRate
  unfold processRatio
  rw [if_neg (not_not.mpr hrates)]
  dsimp only
  rw [if_neg h]
  unfold startLane at hfilter hstart ⊢
  rw [hfilter]
  dsimp only
  rw [hstart]
  cases playLoop B sourceRate (outputRate * stride) samples filter _ with
  | none => rfl
  | some r => rfl

/-- A lane of other rates starts afresh. -/
theorem processRatio_restart (hrates : ValidRates sourceRate stride outputRate)
    {lane : ResamplerLane α}
    (h : sourceRate = outputRate * stride ∨ lane.rates ≠ (sourceRate, stride, outputRate))
    (samples : List (α × γ)) :
    processRatio A B lane samples sourceRate stride outputRate =
      processRatio A B ResamplerLane.default samples sourceRate stride outputRate := by
  by_cases heq : sourceRate = outputRate * stride
  · rw [processRatio_equal hrates heq, processRatio_equal hrates heq]
  · have hzero : (ResamplerLane.default : ResamplerLane α).rates ≠
        (sourceRate, stride, outputRate) := by
      intro hbad
      have hstride : 0 = stride := congrArg (fun rates => rates.2.1) hbad
      exact hrates.1 hstride.symm
    have hother := h.resolve_left heq
    unfold processRatio
    dsimp only
    rw [if_pos hother, if_pos hzero]

/-- What a lane keeps between two frames. -/
def ResamplerLane.InPhase (lane : ResamplerLane α) : Prop :=
  lane = ResamplerLane.default ∨
    lane.next < lane.rates.1 ∧ ∃ filter, lane.filter = some filter

/-- **A fresh lane**: samples for as long as the input lasts. -/
theorem processRatio_fresh (hrates : ValidRates sourceRate stride outputRate)
    (samples : List (α × γ)) :
    ∃ lane output, processRatio A B ResamplerLane.default samples sourceRate stride outputRate =
        some (lane, output) ∧ lane.InPhase ∧
      (lane = ResamplerLane.default ∨ lane.rates = (sourceRate, stride, outputRate)) ∧
      output.length = ⌈(samples.length * outputRate * stride : ℚ) / sourceRate⌉₊ := by
  have hpos : 0 < sourceRate := by
    have hstride := Nat.pos_of_ne_zero hrates.1
    have hlow := hrates.2.1
    omega
  have hposq : (0 : ℚ) < sourceRate := by exact_mod_cast hpos
  by_cases heq : sourceRate = outputRate * stride
  · refine ⟨_, _, processRatio_equal hrates heq _ samples, .inl rfl, .inl rfl, ?_⟩
    have hexact : (samples.length * outputRate * stride : ℚ) / sourceRate = samples.length := by
      rw [div_eq_iff hposq.ne', heq]
      push_cast
      ring
    rw [List.length_map, hexact, Nat.ceil_natCast]
  · have hstart : startLane A ResamplerLane.default sourceRate stride outputRate =
        ⟨(sourceRate, stride, outputRate),
          some (RateFilter.new A (f64 (sourceRate / (outputRate * stride : ℕ)))), 0⟩ := by
      unfold startLane
      rw [if_pos]
      intro hbad
      have hstride : 0 = stride := congrArg (fun rates => rates.2.1) hbad
      exact hrates.1 hstride.symm
    obtain ⟨filter, last, output, hloop, hlast, hcount⟩ := playLoop_spec (B := B)
      (outputRate * stride) hpos samples
      (RateFilter.new A (f64 (sourceRate / (outputRate * stride : ℕ)))) hpos
    refine ⟨⟨(sourceRate, stride, outputRate), some filter, last⟩, output, ?_,
      .inr ⟨hlast, filter, rfl⟩, .inr rfl, ?_⟩
    · rw [processRatio_filter hrates heq _ (by rw [hstart]), hstart,
        hloop]
      rfl
    · -- the last phase is the rest of the division
      have hcountq : (last : ℚ) + samples.length * (outputRate * stride) =
          output.length * sourceRate := by
        rw [Nat.zero_add] at hcount
        exact_mod_cast hcount
      have hlastq : (last : ℚ) < sourceRate := by exact_mod_cast hlast
      have hlow : (0 : ℚ) ≤ last := Nat.cast_nonneg last
      have hceil : (samples.length * outputRate * stride : ℚ) / sourceRate ≤ output.length := by
        rw [div_le_iff₀ hposq]
        linarith
      have hnear : (output.length : ℚ) <
          (samples.length * outputRate * stride : ℚ) / sourceRate + 1 := by
        rw [← sub_lt_iff_lt_add, lt_div_iff₀ hposq]
        linarith
      refine le_antisymm ?_ (Nat.ceil_le.mpr hceil)
      have hle := hnear.trans_le (add_le_add_left (Nat.le_ceil
        ((samples.length * outputRate * stride : ℚ) / sourceRate)) 1)
      exact Nat.lt_succ_iff.mp (by exact_mod_cast hle)

/-- A lane goes on where the frame before has left it. -/
theorem processRatio_append (hrates : ValidRates sourceRate stride outputRate)
    (samples samples' : List (α × γ)) {lane lane' : ResamplerLane α} {output : List β}
    (h : processRatio A B lane samples sourceRate stride outputRate = some (lane', output)) :
    processRatio A B lane (samples ++ samples') sourceRate stride outputRate =
      (processRatio A B lane' samples' sourceRate stride outputRate).map fun r =>
        (r.1, output ++ r.2) := by
  by_cases heq : sourceRate = outputRate * stride
  · rw [processRatio_equal hrates heq] at h ⊢
    obtain ⟨rfl, rfl⟩ := Prod.mk.inj (Option.some.inj h)
    rw [processRatio_equal hrates heq, List.map_append]
    rfl
  · cases hfilter : (startLane A lane sourceRate stride outputRate).filter with
    | none =>
      -- a lane of these rates without a filter would panic
      exfalso
      unfold processRatio at h
      rw [if_neg (not_not.mpr hrates)] at h
      dsimp only at h
      rw [if_neg heq] at h
      unfold startLane at hfilter
      rw [hfilter] at h
      cases h
    | some filter =>
      rw [processRatio_filter hrates heq _ hfilter] at h ⊢
      obtain ⟨⟨filter', next', frames⟩, hloop, hr⟩ := Option.map_eq_some_iff.mp h
      obtain ⟨rfl, rfl⟩ := Prod.mk.inj hr
      have hstart : startLane A ⟨(sourceRate, stride, outputRate), some filter', next'⟩
          sourceRate stride outputRate =
          ⟨(sourceRate, stride, outputRate), some filter', next'⟩ := startLane_of_rates rfl
      rw [processRatio_filter hrates heq filter' (by rw [hstart]), hstart,
        playLoop_append samples samples' hloop]
      simp only [Option.map_map]
      rfl

end

/-! ## Section 3: Runs -/

section

variable {α ν β γ : Type*}

namespace Call

/-- The second frame is the one expected after the first, for the same sound card. -/
def Joins (c d : Call α γ) : Prop :=
  c.Valid ∧ d.Valid ∧
    c.successor = some (d.frame.channelId, d.frame.sequence, d.frame.audioClock) ∧
    c.frame.channels = d.frame.channels ∧ c.outputRate = d.outputRate

instance (c d : Call α γ) : Decidable (c.Joins d) := inferInstanceAs (Decidable (_ ∧ _))

end Call

/-- No frame is broken. -/
def intact (group : List (Call α γ)) : Bool := group.all fun c => c.Valid

/-- The maximal runs of frames that go on with one another, broken frames left out. -/
def runs (calls : List (Call α γ)) : List (List (Call α γ)) :=
  (calls.splitBy fun c d => c.Joins d).filter intact

/-- The samples of a run in one channel, one frame after the other. -/
def joined (run : List (Call α γ)) (channel : ℕ) : List (α × γ) :=
  run.flatMap fun c => c.lane channel

variable (A : Dsp α ν) (B : PlaybackArithmetic α β γ)

/-- What fresh lanes make of a run that ends with `c`: `l` and `r` for its channels. -/
structure Lanes (run : List (Call α γ)) (c : Call α γ) (left right : ResamplerLane α)
    (l r : List β) : Prop where
  first  : c.convert A B ResamplerLane.default (joined run 0) = some (left, l)
  second : c.frame.channels ≠ 1 →
    c.convert A B ResamplerLane.default (joined run 1) = some (right, r)
  mono   : c.frame.channels = 1 → right = ResamplerLane.default ∧ r = []
  /-- As many samples as the input lasts for. -/
  count  : l.length = ⌈((joined run 0).length * c.outputRate *
    c.frame.audioClock.sampleStride : ℚ) / c.frame.audioClock.sourceSampleRateHz⌉₊
  even   : c.frame.channels ≠ 1 → r.length = l.length

/-- The samples of one channel, or of two in turn. -/
def output (c : Call α γ) (l r : List β) : List β :=
  if c.frame.channels = 1 then l else interleave l r

variable {A B}

theorem interleave_append {l r : List β} (h : l.length = r.length) (l' r' : List β) :
    interleave (l ++ l') (r ++ r') = interleave l r ++ interleave l' r' := by
  unfold interleave
  rw [List.zip_append h, List.flatMap_append]

/-- Frames of a run have the same rates. -/
theorem Call.Joins.convert_eq {c d : Call α γ} (h : c.Joins d) :
    d.convert A B = c.convert A B := by
  obtain ⟨-, -, hnext, -, hrate⟩ := h
  obtain ⟨clock, hoffset, hclock⟩ := Option.map_eq_some_iff.mp hnext
  obtain ⟨-, rfl⟩ := Capture.offsetSamples_eq_some.mp hoffset
  have hd : d.frame.audioClock = _ := (congrArg (fun p => p.2.2) hclock).symm
  unfold Call.convert
  rw [hd, hrate]

theorem length_joined {run : List (Call α γ)} {channels : ℕ}
    (hrun : ∀ c ∈ run, c.Valid ∧ c.frame.channels = channels) {channel : ℕ}
    (h : channel < channels) :
    (joined run channel).length = (joined run 0).length := by
  unfold joined
  induction run with
  | nil => rfl
  | cons c run ih =>
    obtain ⟨hvalid, hchannels⟩ := hrun c List.mem_cons_self
    rw [List.flatMap_cons, List.flatMap_cons, List.length_append, List.length_append,
      Call.length_lane hvalid (by omega), Call.length_lane hvalid (by omega),
      ih fun d hd => hrun d (List.mem_cons_of_mem c hd)]

/-- Every valid call has its lanes, whatever the samples. -/
theorem convert_fresh {c : Call α γ} (hc : c.Valid) (samples : List (α × γ)) :
    ∃ lane out, c.convert A B ResamplerLane.default samples = some (lane, out) ∧ lane.InPhase ∧
      (lane = ResamplerLane.default ∨ lane.rates = (c.frame.audioClock.sourceSampleRateHz,
        c.frame.audioClock.sampleStride, c.outputRate)) ∧
      out.length = ⌈(samples.length * c.outputRate * c.frame.audioClock.sampleStride : ℚ) /
        c.frame.audioClock.sourceSampleRateHz⌉₊ :=
  processRatio_fresh hc.2.2.2.2 samples

theorem lanes_of_valid {c : Call α γ} (hc : c.Valid) (run : List (Call α γ))
    (hrun : ∀ d ∈ run, d.Valid ∧ d.frame.channels = c.frame.channels) :
    ∃ left right l r, Lanes A B run c left right l r := by
  obtain ⟨left, l, hleft, -, -, hcount⟩ := convert_fresh (A := A) (B := B) hc (joined run 0)
  by_cases hmono : c.frame.channels = 1
  · exact ⟨left, ResamplerLane.default, l, [], hleft, fun h => absurd hmono h,
      fun _ => ⟨rfl, rfl⟩, hcount,
      fun h => absurd hmono h⟩
  · obtain ⟨right, r, hright, -, -, hcount'⟩ :=
      convert_fresh (A := A) (B := B) hc (joined run 1)
    have htwo := hc.2.2.1.resolve_left hmono
    refine ⟨left, right, l, r, hleft, fun _ => hright, fun h => absurd h hmono, hcount, fun _ => ?_⟩
    rw [hcount', hcount, length_joined hrun (show 1 < c.frame.channels by omega)]

/-- **One frame of a run**: the lanes of the frames before it take in its samples. -/
theorem playFrame_joins {run : List (Call α γ)} {c d : Call α γ} (h : c.Joins d)
    (hrun : ∀ d ∈ run, d.Valid ∧ d.frame.channels = c.frame.channels)
    {left right : ResamplerLane α} {l r : List β} (hlanes : Lanes A B run c left right l r)
    (expected : Option (ℕ × ℕ × CaptureClock)) (channels : ℕ) :
    ∃ left' right' l' r' out, Lanes A B (run ++ [d]) d left' right' l' r' ∧
      (⟨left, right, expected, channels⟩ : AudioResampler α).playFrame A B d =
        some (⟨left', right', d.successor, d.frame.channels⟩, out) ∧
      output d l' r' = output c l r ++ out := by
  have hvalid := h.1
  have hchannels := h.2.2.2.1
  have hconv := h.convert_eq (A := A) (B := B)
  have hrun' : ∀ e ∈ run ++ [d], e.Valid ∧ e.frame.channels = d.frame.channels := by
    intro e he
    rcases List.mem_append.mp he with he | he
    · exact ⟨(hrun e he).1, (hrun e he).2.trans hchannels⟩
    · rw [List.mem_singleton.mp he]
      exact ⟨h.2.1, rfl⟩
  obtain ⟨left', right', l', r', hlanes'⟩ := lanes_of_valid (A := A) (B := B) h.2.1 _ hrun'
  have hsplit : ∀ channel, joined (run ++ [d]) channel = joined run channel ++ d.lane channel := by
    intro channel
    unfold joined
    rw [List.flatMap_append, List.flatMap_singleton]
  -- a lane of the longer run is the lane of the shorter one with the new samples
  have hleft := hlanes'.first
  rw [hsplit, hconv] at hleft
  unfold Call.convert at hleft
  rw [processRatio_append hvalid.2.2.2.2 _ _ hlanes.first] at hleft
  obtain ⟨⟨left'', lnew⟩, hlnew, hl⟩ := Option.map_eq_some_iff.mp hleft
  obtain ⟨rfl, rfl⟩ := Prod.mk.inj hl
  have hnew : d.convert A B left (d.lane 0) = some (left'', lnew) := by
    rw [hconv]
    exact hlnew
  by_cases hmono : d.frame.channels = 1
  · have hmonoc : c.frame.channels = 1 := hchannels.trans hmono
    obtain ⟨rfl, rfl⟩ := hlanes.mono hmonoc
    obtain ⟨rfl, rfl⟩ := hlanes'.mono hmono
    refine ⟨_, _, _, _, lnew, hlanes', ?_, ?_⟩
    · unfold AudioResampler.playFrame
      rw [hnew]
      dsimp only
      rw [if_pos hmono]
    · unfold output
      rw [if_pos hmono, if_pos hmonoc]
  · have hmonoc : c.frame.channels ≠ 1 := fun hc => hmono (hchannels.symm.trans hc)
    have hright := hlanes'.second hmono
    rw [hsplit, hconv] at hright
    unfold Call.convert at hright
    rw [processRatio_append hvalid.2.2.2.2 _ _ (hlanes.second hmonoc)] at hright
    obtain ⟨⟨right'', rnew⟩, hrnew, hr⟩ := Option.map_eq_some_iff.mp hright
    obtain ⟨rfl, rfl⟩ := Prod.mk.inj hr
    have hnew' : d.convert A B right (d.lane 1) = some (right'', rnew) := by
      rw [hconv]
      exact hrnew
    refine ⟨_, _, _, _, interleave lnew rnew, hlanes', ?_, ?_⟩
    · unfold AudioResampler.playFrame
      rw [hnew]
      dsimp only
      rw [if_neg hmono, hnew']
    · unfold output
      rw [if_neg hmono, if_neg hmonoc, interleave_append (hlanes.even hmonoc).symm]

/-- The lanes keep their phase, and the rates of the run. -/
theorem Lanes.inPhase {run : List (Call α γ)} {c : Call α γ} (hc : c.Valid)
    {left right : ResamplerLane α} {l r : List β} (h : Lanes A B run c left right l r) :
    (left.InPhase ∧ (left = ResamplerLane.default ∨
      left.rates = (c.frame.audioClock.sourceSampleRateHz, c.frame.audioClock.sampleStride,
        c.outputRate))) ∧
    (right.InPhase ∧ (right = ResamplerLane.default ∨
      right.rates = (c.frame.audioClock.sourceSampleRateHz, c.frame.audioClock.sampleStride,
        c.outputRate))) := by
  have hfresh : ∀ {samples : List (α × γ)} {lane : ResamplerLane α} {out : List β},
      c.convert A B ResamplerLane.default samples = some (lane, out) →
      lane.InPhase ∧ (lane = ResamplerLane.default ∨
        lane.rates = (c.frame.audioClock.sourceSampleRateHz, c.frame.audioClock.sampleStride,
          c.outputRate)) := by
    intro samples lane out hconv
    obtain ⟨lane', out', hconv', hphase, hrates, -⟩ :=
      convert_fresh (A := A) (B := B) hc samples
    obtain ⟨rfl, rfl⟩ := Prod.mk.inj (Option.some.inj (hconv.symm.trans hconv'))
    exact ⟨hphase, hrates⟩
  refine ⟨hfresh h.first, ?_⟩
  by_cases hmono : c.frame.channels = 1
  · rw [(h.mono hmono).1]
    exact ⟨.inl rfl, .inl rfl⟩
  · exact hfresh (h.second hmono)

/-- The first frame of a run. -/
theorem playFrame_first {c : Call α γ} (hc : c.Valid) :
    ∃ left right l r, Lanes A B [c] c left right l r ∧
      AudioResampler.default.playFrame A B c =
        some (⟨left, right, c.successor, c.frame.channels⟩, output c l r) := by
  obtain ⟨left, right, l, r, hlanes⟩ := lanes_of_valid (A := A) (B := B) hc [c] (by
    intro d hd
    rw [List.mem_singleton.mp hd]
    exact ⟨hc, rfl⟩)
  have hsingle : ∀ channel, joined [c] channel = c.lane channel := fun channel =>
    List.flatMap_singleton _ _
  have hfirst := hlanes.first
  have hsecond := hlanes.second
  rw [hsingle] at hfirst hsecond
  refine ⟨left, right, l, r, hlanes, ?_⟩
  unfold AudioResampler.playFrame output
  have hleft : c.convert A B AudioResampler.default.left (c.lane 0) = some (left, l) := hfirst
  rw [hleft]
  dsimp only
  by_cases hmono : c.frame.channels = 1
  · obtain ⟨rfl, rfl⟩ := hlanes.mono hmono
    rw [if_pos hmono, if_pos hmono]
    rfl
  · have hright : c.convert A B AudioResampler.default.right (c.lane 1) = some (right, r) :=
      hsecond hmono
    rw [if_neg hmono, if_neg hmono, hright]

namespace AudioResampler

theorem processAll_cons (s : AudioResampler α) (c : Call α γ) (calls : List (Call α γ)) :
    s.processAll A B (c :: calls) =
      (s.processFrame A B c).bind fun r =>
        (r.1.processAll A B calls).map fun r' => (r'.1, r.2 ++ r'.2) := by
  conv_lhs => unfold processAll
  cases s.processFrame A B c with
  | none => rfl
  | some r =>
    rw [Option.bind_some]
    cases h : r.1.processAll A B calls with
    | none => simp only [h, Option.map_none]
    | some r' => simp only [h, Option.map_some]

theorem processAll_append (s : AudioResampler α) (calls calls' : List (Call α γ)) :
    s.processAll A B (calls ++ calls') =
      (s.processAll A B calls).bind fun r =>
        (r.1.processAll A B calls').map fun r' => (r'.1, r.2 ++ r'.2) := by
  induction calls generalizing s with
  | nil =>
    cases h : s.processAll A B calls' with
    | none => simp only [List.nil_append, h, processAll, Option.bind_some, Option.map_none]
    | some r => simp only [List.nil_append, h, processAll, Option.bind_some, Option.map_some]
  | cons c calls ih =>
    rw [List.cons_append, processAll_cons, processAll_cons]
    cases s.processFrame A B c with
    | none => rfl
    | some r =>
      rw [Option.bind_some, Option.bind_some, ih]
      cases r.1.processAll A B calls with
      | none => rfl
      | some r' =>
        simp only [Option.bind_some, Option.map_some, Option.map_map, Function.comp_def,
          List.append_assoc]

theorem processAll_singleton {s s' : AudioResampler α} {c : Call α γ} {out : List β}
    (h : s.processFrame A B c = some (s', out)) :
    s.processAll A B [c] = some (s', out) := by
  simp only [processAll, h, List.append_nil]

/-- A broken frame leaves nothing behind. -/
theorem processFrame_invalid {c : Call α γ} (hc : ¬c.Valid) (s : AudioResampler α) :
    s.processFrame A B c = some (default, []) := by
  unfold processFrame
  dsimp only
  rw [if_pos hc]

theorem processFrame_default {c : Call α γ} (hc : c.Valid) :
    default.processFrame A B c = default.playFrame A B c := by
  unfold processFrame
  dsimp only
  rw [if_neg (not_not.mpr hc)]
  split <;> rfl

theorem processFrame_continuous {s : AudioResampler α} {c : Call α γ} (hc : c.Valid)
    (hnext : s.expected = some (c.frame.channelId, c.frame.sequence, c.frame.audioClock))
    (hchannels : s.channels = c.frame.channels) :
    s.processFrame A B c = s.playFrame A B c := by
  unfold processFrame
  dsimp only
  rw [if_neg (not_not.mpr hc), if_neg]
  rintro (hbad | hbad)
  · exact hbad hnext
  · exact hbad hchannels

/-- **A run**: its frames, from the default state on, are played by fresh lanes. -/
theorem processAll_run (front : List (Call α γ)) {c : Call α γ} (hc : c.Valid)
    (hchain : (front ++ [c]).IsChain Call.Joins) :
    (∀ d ∈ front ++ [c], d.Valid ∧ d.frame.channels = c.frame.channels) ∧
    ∃ left right l r, Lanes A B (front ++ [c]) c left right l r ∧
      default.processAll A B (front ++ [c]) =
        some (⟨left, right, c.successor, c.frame.channels⟩, output c l r) := by
  induction front using List.reverseRecOn generalizing c with
  | nil =>
    obtain ⟨left, right, l, r, hlanes, hplay⟩ := playFrame_first (A := A) (B := B) hc
    refine ⟨fun d hd => ?_, left, right, l, r, hlanes, ?_⟩
    · rw [List.mem_singleton.mp hd]
      exact ⟨hc, rfl⟩
    · exact processAll_singleton ((processFrame_default hc).trans hplay)
  | append_singleton front b ih =>
    obtain ⟨hchain', -, hjoin⟩ := List.isChain_append.mp hchain
    have hbc : b.Joins c := hjoin b (by simp) c (by simp)
    obtain ⟨hvalid, left, right, l, r, hlanes, hrun⟩ := ih hbc.1 hchain'
    obtain ⟨left', right', l', r', out, hlanes', hplay, hout⟩ :=
      playFrame_joins hbc hvalid hlanes b.successor b.frame.channels
    have hstep : (⟨left, right, b.successor, b.frame.channels⟩ : AudioResampler α).processFrame
        A B c = some (⟨left', right', c.successor, c.frame.channels⟩, out) :=
      (processFrame_continuous hc hbc.2.2.1 hbc.2.2.2.1).trans hplay
    refine ⟨fun d hd => ?_, left', right', l', r', hlanes', ?_⟩
    · rcases List.mem_append.mp hd with hd | hd
      · exact ⟨(hvalid d hd).1, (hvalid d hd).2.trans hbc.2.2.2.1⟩
      · rw [List.mem_singleton.mp hd]
        exact ⟨hc, rfl⟩
    · rw [processAll_append, hrun, Option.bind_some, processAll_singleton hstep, hout]
      rfl

/-- Lanes of other rates make no difference to a frame. -/
theorem playFrame_restart {c d : Call α γ} (hd : d.Valid)
    (hchannels : c.frame.channels = d.frame.channels)
    (hrates : (c.frame.audioClock.sourceSampleRateHz, c.frame.audioClock.sampleStride,
        c.outputRate) ≠ (d.frame.audioClock.sourceSampleRateHz, d.frame.audioClock.sampleStride,
        d.outputRate)) (hc : c.Valid) {run : List (Call α γ)} {left right : ResamplerLane α}
    {l r : List β} (hlanes : Lanes A B run c left right l r)
    (expected : Option (ℕ × ℕ × CaptureClock)) (channels : ℕ) :
    (⟨left, right, expected, channels⟩ : AudioResampler α).playFrame A B d =
      default.playFrame A B d := by
  obtain ⟨⟨-, hleft⟩, -, hright⟩ := hlanes.inPhase hc
  have hconvert : ∀ {lane : ResamplerLane α} (samples : List (α × γ)),
      (lane = ResamplerLane.default ∨ lane.rates = (c.frame.audioClock.sourceSampleRateHz,
        c.frame.audioClock.sampleStride, c.outputRate)) →
      d.convert A B lane samples = d.convert A B ResamplerLane.default samples := by
    rintro lane samples (rfl | hlane)
    · rfl
    · refine processRatio_restart hd.2.2.2.2 (.inr ?_) samples
      rw [hlane]
      exact hrates
  have hl := hconvert (d.lane 0) hleft
  have hr := hconvert (d.lane 1) hright
  unfold playFrame
  dsimp only
  rw [hl, hr]
  by_cases hmono : d.frame.channels = 1
  · rw [(hlanes.mono (hchannels.trans hmono)).1]
    rfl
  · simp only [if_neg hmono]
    rfl

/-- **Where a run ends**: the next frame finds nothing of it. -/
theorem processFrame_restart {c d : Call α γ} (hc : c.Valid) (hcd : ¬c.Joins d)
    {run : List (Call α γ)} {left right : ResamplerLane α} {l r : List β}
    (hlanes : Lanes A B run c left right l r) :
    (⟨left, right, c.successor, c.frame.channels⟩ : AudioResampler α).processFrame A B d =
      default.processFrame A B d := by
  by_cases hd : d.Valid
  · by_cases hnext : c.successor = some (d.frame.channelId, d.frame.sequence, d.frame.audioClock) ∧
        c.frame.channels = d.frame.channels
    · -- only the sound card has another rate
      have hrate : c.outputRate ≠ d.outputRate := fun hrate =>
        hcd ⟨hc, hd, hnext.1, hnext.2, hrate⟩
      rw [processFrame_continuous hd hnext.1 hnext.2, processFrame_default hd]
      exact playFrame_restart hd hnext.2
        (fun hrates => hrate (congrArg (fun rates => rates.2.2) hrates)) hc hlanes _ _
    · rw [processFrame_default hd]
      unfold processFrame
      dsimp only
      rw [if_neg (not_not.mpr hd), if_pos]
      by_contra hbad
      rw [not_or, not_not, not_not] at hbad
      exact hnext hbad
  · rw [processFrame_invalid hd, processFrame_invalid hd]

end AudioResampler

/-! ## Section 4: Any frames -/

/-- The phases at which a filter is read, from a phase before the first of them. -/
theorem emitLoop_phases {sourceRate denominator : ℕ} :
    ∀ (fuel : ℕ) {next last : ℕ} {phases : List ℕ},
      emitLoop id sourceRate denominator fuel next = some (last, phases) →
      ∀ phase ∈ phases, phase < denominator := by
  intro fuel
  induction fuel with
  | zero =>
    intro next last phases h phase hmem
    unfold emitLoop at h
    split at h
    · cases h
    · obtain ⟨-, rfl⟩ := Prod.mk.inj (Option.some.inj h)
      cases hmem
  | succ fuel ih =>
    intro next last phases h phase hmem
    unfold emitLoop at h
    split at h
    · next hlt =>
      split at h
      · cases h
      · next last' phases' hrest =>
        obtain ⟨-, rfl⟩ := Prod.mk.inj (Option.some.inj h)
        rcases List.mem_cons.mp hmem with rfl | hmem
        · exact hlt
        · exact ih hrest phase hmem
    · obtain ⟨-, rfl⟩ := Prod.mk.inj (Option.some.inj h)
      cases hmem

variable (A B) in
/-- What fresh lanes make of a run. -/
def Played (run : List (Call α γ)) (out : List β) : Prop :=
  ∃ c left right l r, run.getLast? = some c ∧ Lanes A B run c left right l r ∧ out = output c l r

/-- One group of frames after another: runs are played, a broken frame is not. -/
theorem processAll_groups (groups : List (List (Call α γ))) (hnil : [] ∉ groups)
    (hchain : ∀ group ∈ groups, group.IsChain Call.Joins)
    (hbreak : groups.IsChain fun a b => ∃ ha hb, decide ((a.getLast ha).Joins (b.head hb)) = false)
    {s : AudioResampler α}
    (hs : ∀ group rest c tail, groups = group :: rest → group = c :: tail →
      s.processFrame A B c = AudioResampler.default.processFrame A B c)
    (hphase : s.left.InPhase ∧ s.right.InPhase) :
    ∃ s' outs, s.processAll A B groups.flatten = some (s', outs.flatten) ∧
      List.Forall₂ (Played A B) (groups.filter intact) outs ∧
      s'.left.InPhase ∧ s'.right.InPhase := by
  induction groups generalizing s with
  | nil => exact ⟨s, [], rfl, .nil, hphase⟩
  | cons group groups ih =>
    have hne : group ≠ [] := fun h => hnil (h ▸ List.mem_cons_self)
    have hchain' := fun g hg => hchain g (List.mem_cons_of_mem group hg)
    have hnil' : [] ∉ groups := fun h => hnil (List.mem_cons_of_mem group h)
    have hbreak' := (List.isChain_cons.mp hbreak).2
    -- the group finds nothing of the frames before it
    have hstart : s.processAll A B group = AudioResampler.default.processAll A B group := by
      obtain ⟨c, tail, rfl⟩ := List.exists_cons_of_ne_nil hne
      rw [AudioResampler.processAll_cons, AudioResampler.processAll_cons,
        hs _ groups c tail rfl rfl]
    obtain ⟨front, c, rfl⟩ := (List.eq_nil_or_concat' group).resolve_left hne
    rw [List.flatten_cons, AudioResampler.processAll_append, hstart]
    by_cases hc : c.Valid
    · obtain ⟨hvalid, left, right, l, r, hlanes, hrun⟩ := AudioResampler.processAll_run
        (A := A) (B := B) front hc (hchain _ List.mem_cons_self)
      have hlanesPhase := hlanes.inPhase hc
      obtain ⟨s', outs, hall, hplayed, hphases⟩ := ih hnil' hchain' hbreak'
        (s := ⟨left, right, c.successor, c.frame.channels⟩) (by
          rintro group' rest d tail rfl rfl
          obtain ⟨_, _, hbreaks⟩ := (List.isChain_cons_cons.mp hbreak).1
          rw [List.getLast_append_singleton, List.head_cons] at hbreaks
          exact AudioResampler.processFrame_restart hc (of_decide_eq_false hbreaks) hlanes)
        ⟨hlanesPhase.1.1, hlanesPhase.2.1⟩
      refine ⟨s', output c l r :: outs, ?_, ?_, hphases⟩
      · rw [hrun, Option.bind_some, hall]
        rfl
      · have hkept : intact (front ++ [c]) = true :=
          List.all_eq_true.mpr fun d hd => decide_eq_true (hvalid d hd).1
        rw [List.filter_cons_of_pos hkept]
        exact .cons ⟨c, left, right, l, r, by simp, hlanes, rfl⟩ hplayed
    · -- a broken frame is a group of its own
      have hfront : front = [] := by
        by_contra hfront
        obtain ⟨front, b, rfl⟩ := (List.eq_nil_or_concat' front).resolve_left hfront
        obtain ⟨-, -, hjoin⟩ := List.isChain_append.mp (hchain _ List.mem_cons_self)
        exact hc (hjoin b (by simp) c (by simp)).2.1
      subst hfront
      obtain ⟨s', outs, hall, hplayed, hphases⟩ := ih hnil' hchain' hbreak'
        (s := AudioResampler.default) (fun _ _ _ _ _ _ => rfl) ⟨.inl rfl, .inl rfl⟩
      refine ⟨s', outs, ?_, ?_, hphases⟩
      · rw [List.nil_append,
          AudioResampler.processAll_singleton (AudioResampler.processFrame_invalid hc _),
          Option.bind_some, hall]
        rfl
      · have hdropped : ¬intact ([] ++ [c]) = true := by
          simp [intact, hc]
        rw [List.filter_cons_of_neg hdropped]
        exact hplayed

variable (A B) in
/-- **Playback**: any frames are played as fresh lanes play their runs, and the phase of a lane
    stays below the source rate between frames, and below the sum of both rates within them. -/
theorem playback_spec (calls : List (Call α γ)) :
    (∃ s outs, AudioResampler.default.processAll A B calls = some (s, outs.flatten) ∧
      List.Forall₂ (Played A B) (runs calls) outs ∧ s.left.InPhase ∧ s.right.InPhase) ∧
    ∀ {sourceRate denominator next : ℕ}, next < sourceRate →
      ∃ last phases, emitLoop id sourceRate denominator (denominator - next) next =
          some (last, phases) ∧
        ∀ phase ∈ last :: phases, phase < sourceRate + denominator := by
  constructor
  · have hchain : ∀ group ∈ calls.splitBy fun c d => decide (c.Joins d),
        group.IsChain Call.Joins := by
      intro group hgroup
      exact (List.isChain_of_mem_splitBy hgroup).imp fun _ _ h => of_decide_eq_true h
    have hgroups := processAll_groups (A := A) (B := B) (s := AudioResampler.default)
      (calls.splitBy fun c d => decide (c.Joins d)) (List.nil_notMem_splitBy _ _) hchain
      (List.isChain_getLast_head_splitBy (fun c d => decide (Call.Joins c d)) calls)
      (fun _ _ _ _ _ _ => rfl) ⟨.inl rfl, .inl rfl⟩
    rw [List.flatten_splitBy] at hgroups
    exact hgroups
  · intro sourceRate denominator next hnext
    obtain ⟨last, phases, hloop, -, hlast, -⟩ := AudioRate.emitLoop_spec (id : ℕ → ℕ)
      (Nat.zero_lt_of_lt hnext) (denominator - next) (le_refl (denominator - next))
      (Nat.lt_add_left denominator hnext)
    refine ⟨last, phases, hloop, fun phase hmem => ?_⟩
    rcases List.mem_cons.mp hmem with rfl | hmem
    · omega
    · have := emitLoop_phases (denominator - next) hloop phase hmem
      omega

end

end Playback
