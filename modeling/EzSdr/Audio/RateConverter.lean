import EzSdr.Framework.BinaryFloat
import EzSdr.Capture.Decimator

/-! # The Audio Rate Converter

    Samples pass an integer decimator and a fractional filter. Two clocks with
    integer phases decide how many frames there are: one follows the decimated
    samples and says when the filter is read, the other follows the input and
    says how many of these frames are due. Frames that are not due yet wait.

    Rates are 64-bit floats in the code, and rationals with 53 bits here.

    **`convertAll_length`**: the number of frames is the duration of the input
    at the output rate, rounded up, however the input is cut. -/

namespace AudioRate

open Capture (Dsp FirDecimator)

/-! ## Section 1: The converter -/

/-- The arithmetic on samples `α`, frames `β` and gains `γ`. -/
structure RateArithmetic (α β γ : Type*) where
  /-- Components that are not finite become zero. -/
  clean  : α → α
  /-- `RateFilter::output` of a ratio at the phase `next / coarse_denominator`. -/
  output : ℚ → ℕ → ℕ → List α → β
  /-- Gain and clipping of a filtered frame. -/
  scale  : Bool → γ → β → β
  /-- A sample as it is, with gain and clipping. -/
  direct : Bool → γ → α → β

/-- Rounding to a 64-bit float. -/
def f64 (q : ℚ) : ℚ := BinaryFloat.round 53 q

/-- The delay line, stored twice over; its two filters take the two components of a sample. -/
structure RateFilter (α : Type*) where
  inputPerOutput : ℚ
  history        : List α
  write          : ℕ
  len            : ℕ
  length_history : history.length = 2 * len

structure IqAudioConverter (α β : Type*) where
  settings          : Option (ℚ × ℕ)
  clockRatio        : Option (ℕ × ℕ)
  coarse            : Option (FirDecimator α)
  filters           : Option (RateFilter α)
  numerator         : ℕ
  outputDenominator : ℕ
  coarseDenominator : ℕ
  next              : ℕ
  durationPhase     : ℕ
  pending           : List β
  unclipped         : Bool

section

variable {α ν β γ : Type*} (A : Dsp α ν) (B : RateArithmetic α β γ)

namespace RateFilter

def new (inputPerOutput : ℚ) : RateFilter α :=
  let len := ⌈f64 (100 * max inputPerOutput 1)⌉₊ ||| 1
  { inputPerOutput := inputPerOutput
    history := List.replicate (2 * len) A.zero
    write := 0
    len := len
    length_history := List.length_replicate }

def push (f : RateFilter α) (sample : α) : RateFilter α where
  inputPerOutput := f.inputPerOutput
  history := (f.history.set f.write sample).set (f.write + f.len) sample
  write := (f.write + 1) % f.len
  len := f.len
  length_history := by simp [f.length_history]

def window (f : RateFilter α) : List α := (f.history.drop f.write).take f.len

end RateFilter

/-- `exact_ratio`: mantissa and power of two without their common factors of two, which leaves
    them without common factors. -/
def exactRatio (rate : ℚ) : ℕ × ℕ := (rate.num.toNat, rate.den)

/-- The rates the converter works for. -/
def Admitted (inputRate : ℚ) (outputRate : ℕ) : Prop :=
  (100 ≤ inputRate ∧ inputRate ≤ 20000000) ∧ 8000 ≤ outputRate ∧ outputRate ≤ 384000

instance (inputRate : ℚ) (outputRate : ℕ) : Decidable (Admitted inputRate outputRate) :=
  inferInstanceAs (Decidable (_ ∧ _))

/-- The factor of the decimator. -/
def coarseFactor (inputRate : ℚ) (outputRate : ℕ) : ℕ :=
  max ⌊f64 (inputRate / max (4 * outputRate) 250000)⌋₊ 1

namespace IqAudioConverter

/-- `default`, or `for_detector`, which does not clip. -/
def default (unclipped : Bool) : IqAudioConverter α β where
  settings := none
  clockRatio := none
  coarse := none
  filters := none
  numerator := 0
  outputDenominator := 0
  coarseDenominator := 0
  next := 0
  durationPhase := 0
  pending := []
  unclipped := unclipped

def reset (c : IqAudioConverter α β) : IqAudioConverter α β := default c.unclipped

/-- `configure`: whether the rates are admitted. -/
def configure (c : IqAudioConverter α β) (inputRate : ℚ) (outputRate : ℕ) :
    IqAudioConverter α β × Bool :=
  if ¬ Admitted inputRate outputRate then (c.reset, false)
  else if c.settings = some (inputRate, outputRate) then (c, true)
  else
    let (numerator, denominator) := exactRatio inputRate
    let coarse := coarseFactor inputRate outputRate
    let filters :=
      if inputRate ≠ outputRate then
        some (RateFilter.new A (f64 (f64 (inputRate / coarse) / outputRate)))
      else none
    ({ c.reset with
        numerator := numerator
        outputDenominator := denominator * outputRate
        coarseDenominator := denominator * outputRate * coarse
        -- ceil(input duration * output rate)
        durationPhase := numerator - 1
        coarse := some (FirDecimator.new A coarse)
        filters := filters
        settings := some (inputRate, outputRate) }, true)

end IqAudioConverter

/-- The inner loop of `process`: read the filter as long as the clock is within the sample. -/
def emitLoop (frame : ℕ → β) (numerator coarseDenominator : ℕ) : ℕ → ℕ → Option (ℕ × List β)
  | 0, next => if next < coarseDenominator then none else some (next, [])
  | fuel + 1, next =>
    if next < coarseDenominator then
      match emitLoop frame numerator coarseDenominator fuel (next + numerator) with
      | none => none
      | some (last, frames) => some (last, frame next :: frames)
    else some (next, [])

/-- The outer loop, over decimated samples. A clock that could not be set back would panic. -/
def filterLoop (numerator coarseDenominator : ℕ) :
    List α → RateFilter α → ℕ → Option (RateFilter α × ℕ × List β)
  | [], filter, next => some (filter, next, [])
  | sample :: samples, filter, next =>
    let filter := filter.push sample
    let frame := fun phase =>
      B.output filter.inputPerOutput phase coarseDenominator filter.window
    match emitLoop frame numerator coarseDenominator (coarseDenominator - next) next with
    | none => none
    | some (next, frames) =>
      if next < coarseDenominator then none
      else
        match filterLoop numerator coarseDenominator samples filter (next - coarseDenominator) with
        | none => none
        | some (filter, next, rest) => some (filter, next, frames ++ rest)

namespace IqAudioConverter

/-- The part of `process` that filters. The assertion on the pending frames fails with `none`. -/
def convert (c : IqAudioConverter α β) (coarse : FirDecimator α) (filter : RateFilter α)
    (input : List α) (gain : γ) : Option (IqAudioConverter α β × List β) :=
  let phase := c.durationPhase + input.length * c.outputDenominator
  let frames := phase / c.numerator
  let (coarse, samples) := coarse.process A (input.map B.clean)
  match filterLoop B c.numerator c.coarseDenominator samples filter c.next with
  | none => none
  | some (filter, next, produced) =>
    let pending := c.pending ++ produced
    if pending.length < frames then none
    else
      some
        ({ c with
            durationPhase := phase % c.numerator
            coarse := some coarse
            filters := some filter
            next := next
            pending := pending.drop frames },
          (pending.take frames).map (B.scale c.unclipped gain))

/-- `process`. -/
def process (c : IqAudioConverter α β) (input : List α) (inputRate : ℚ) (outputRate : ℕ)
    (gain : γ) : Option (IqAudioConverter α β × List β) :=
  match c.configure A inputRate outputRate with
  | (c, false) => some (c, [])
  | (c, true) =>
    if input.length = 0 then some (c, [])
    else if inputRate = outputRate then some (c, input.map (B.direct c.unclipped gain))
    else
      match c.coarse, c.filters with
      | some coarse, some filter => c.convert A B coarse filter input gain
      | _, _ => none

/-- The clock of a source in lowest terms. -/
def clockOf (sourceRate stride : UInt32) : ℕ × ℕ :=
  let a := Nat.gcd sourceRate.toNat stride.toNat
  (sourceRate.toNat / a, stride.toNat / a)

def inputRateOf (sourceRate stride : UInt32) : ℚ := f64 (sourceRate.toNat / stride.toNat)

/-- The clock replaces the ratio of the rounded rate. -/
def withClock (c : IqAudioConverter α β) (ratio : ℕ × ℕ) (outputRate : ℕ) :
    IqAudioConverter α β :=
  let coarse := c.coarseDenominator / c.outputDenominator
  { c with
    numerator := ratio.1
    outputDenominator := ratio.2 * outputRate
    coarseDenominator := ratio.2 * outputRate * coarse
    durationPhase := ratio.1 - 1
    clockRatio := some ratio }

/-- `process_clocked`. -/
def processClocked (c : IqAudioConverter α β) (input : List α) (sourceRate stride : UInt32)
    (outputRate : ℕ) (gain : γ) : Option (IqAudioConverter α β × List β) :=
  if sourceRate = 0 ∨ stride = 0 then some (c.reset, [])
  else
    let inputRate := inputRateOf sourceRate stride
    let ratio := clockOf sourceRate stride
    if c.clockRatio ≠ some ratio ∨ c.settings ≠ some (inputRate, outputRate) then
      match c.reset.configure A inputRate outputRate with
      | (c, false) => some (c, [])
      | (c, true) => (c.withClock ratio outputRate).process A B input inputRate outputRate gain
    else c.process A B input inputRate outputRate gain

/-- Calls one after the other, each with its samples and its gain. -/
def convertAll (c : IqAudioConverter α β) (sourceRate stride : UInt32) (outputRate : ℕ) :
    List (List α × γ) → Option (IqAudioConverter α β × List β)
  | [] => some (c, [])
  | (input, gain) :: calls =>
    match c.processClocked A B input sourceRate stride outputRate gain with
    | none => none
    | some (c, frames) =>
      match convertAll c sourceRate stride outputRate calls with
      | none => none
      | some (c, rest) => some (c, frames ++ rest)

end IqAudioConverter

/-! ## Section 2: Loops -/

variable {A B}

/-- Once read, the clock is past the sample, by less than a step. -/
theorem emitLoop_spec (frame : ℕ → β) {numerator coarse : ℕ} (hpos : 0 < numerator) (fuel : ℕ)
    {next : ℕ} (hfuel : coarse - next ≤ fuel) (hnext : next < coarse + numerator) :
    ∃ last frames, emitLoop frame numerator coarse fuel next = some (last, frames) ∧
      coarse ≤ last ∧ last < coarse + numerator ∧ last = next + frames.length * numerator := by
  induction fuel generalizing next with
  | zero =>
    have hdone : ¬ next < coarse := by omega
    refine ⟨next, [], ?_, by omega, hnext, by simp⟩
    unfold emitLoop
    rw [if_neg hdone]
  | succ fuel ih =>
    unfold emitLoop
    by_cases hread : next < coarse
    · obtain ⟨last, frames, hloop, hpast, hnear, hlast⟩ := @ih (next + numerator) (by omega) (by omega)
      refine ⟨last, frame next :: frames, ?_, hpast, hnear, ?_⟩
      · rw [if_pos hread, hloop]
      · rw [hlast, List.length_cons]
        ring
    · refine ⟨next, [], ?_, by omega, hnext, by simp⟩
      rw [if_neg hread]

/-- The first clock counts the frames of decimated samples. -/
theorem filterLoop_spec {numerator : ℕ} (coarse : ℕ) (hpos : 0 < numerator) (samples : List α)
    (filter : RateFilter α) {next : ℕ} (hnext : next < numerator) :
    ∃ filter' last frames,
      filterLoop B numerator coarse samples filter next = some (filter', last, frames) ∧
      last < numerator ∧ last + samples.length * coarse = next + frames.length * numerator := by
  induction samples generalizing filter next with
  | nil => exact ⟨filter, next, [], rfl, hnext, by simp⟩
  | cons sample samples ih =>
    obtain ⟨past, frames, hloop, hpast, hnear, hlast⟩ := emitLoop_spec
      (fun phase => B.output (filter.push sample).inputPerOutput phase coarse
        (filter.push sample).window) hpos (coarse - next) (le_refl (coarse - next))
      (Nat.lt_add_left coarse hnext)
    obtain ⟨filter', last, rest, hrest, hlt, hcount⟩ :=
      @ih (filter.push sample) (past - coarse) (by omega)
    refine ⟨filter', last, frames ++ rest, ?_, hlt, ?_⟩
    · unfold filterLoop
      simp only [hloop, if_neg (not_lt.2 hpast), hrest]
    · rw [List.length_cons, List.length_append, Nat.add_mul, Nat.add_mul, Nat.one_mul]
      omega

namespace IqAudioConverter

/-! ## Section 3: The clocks -/

/-- The converter runs on a clock, has taken `n` samples and given `f` frames. -/
structure Converting (c : IqAudioConverter α β) (n f : ℕ) : Prop where
  positive : 0 < c.numerator
  /-- The frames given are those whose time has begun. -/
  duration : c.durationPhase + f * c.numerator = c.numerator - 1 + n * c.outputDenominator
  phase : c.durationPhase < c.numerator
  coarse : ∃ coarse filter, c.coarse = some coarse ∧ c.filters = some filter ∧ coarse.Due ∧
    c.coarseDenominator = c.outputDenominator * coarse.decimation ∧
    ∃ decimated produced, decimated * coarse.decimation = n + coarse.skip ∧
      c.next + decimated * c.coarseDenominator = produced * c.numerator ∧
      produced = c.pending.length + f
  next : c.next < c.numerator

/-- No frame is due that has not been produced: the decimated samples reach as far as the input. -/
theorem due_le_produced {numerator outputDenominator n f phase decimated decimation skip produced
      next : ℕ}
    (hduration : phase + f * numerator = numerator - 1 + n * outputDenominator)
    (hpos : 0 < numerator) (hdecimated : decimated * decimation = n + skip)
    (hproduced : next + decimated * (outputDenominator * decimation) = produced * numerator) :
    f ≤ produced := by
  have hreach : n * outputDenominator ≤ produced * numerator := by
    calc n * outputDenominator ≤ (n + skip) * outputDenominator :=
          Nat.mul_le_mul_right _ (Nat.le_add_right n skip)
      _ = decimated * (outputDenominator * decimation) := by
          rw [← hdecimated]
          ring
      _ ≤ produced * numerator := by omega
  have hlt : f * numerator < (produced + 1) * numerator := by
    rw [Nat.add_mul, Nat.one_mul]
    omega
  exact Nat.le_of_lt_succ (Nat.lt_of_mul_lt_mul_right hlt)

/-- One call on the clock. -/
theorem convert_spec {c : IqAudioConverter α β} {n f : ℕ} {coarse : FirDecimator α}
    {filter : RateFilter α} (h : c.Converting n f) (hcoarse : c.coarse = some coarse)
    (hfilter : c.filters = some filter) (input : List α) (gain : γ) :
    ∃ c' frames, c.convert A B coarse filter input gain = some (c', frames) ∧
      c'.Converting (n + input.length) (f + frames.length) ∧
      c'.settings = c.settings ∧ c'.clockRatio = c.clockRatio ∧
      c'.numerator = c.numerator ∧ c'.outputDenominator = c.outputDenominator := by
  obtain ⟨hpos, hduration, hphase, hcoarses, hnext⟩ := h
  obtain ⟨coarse', filter', hc, hf, hdue, hdenominator, decimated, produced, hdecimated, hclock,
    hpending⟩ := hcoarses
  obtain rfl : coarse = coarse' := Option.some.inj (hcoarse.symm.trans hc)
  obtain rfl : filter = filter' := Option.some.inj (hfilter.symm.trans hf)
  obtain ⟨hdue', hshape, hskip⟩ := FirDecimator.process_due A hdue (input.map B.clean)
  cases hprocess : coarse.process A (input.map B.clean) with
  | mk after samples =>
    rw [hprocess] at hdue' hshape hskip
    dsimp only at hdue' hshape hskip
    rw [List.length_map] at hskip
    obtain ⟨filter₂, last, frames, hloop, hlast, hcount⟩ := filterLoop_spec (B := B)
      c.coarseDenominator hpos samples filter hnext
    have hdecimation := hshape.decimation
    -- both clocks after the call
    have hdecimated' : (decimated + samples.length) * after.decimation =
        n + input.length + after.skip := by
      rw [hdecimation, Nat.add_mul, hdecimated]
      omega
    have hclock' : last + (decimated + samples.length) * c.coarseDenominator =
        (produced + frames.length) * c.numerator := by
      rw [Nat.add_mul, Nat.add_mul, ← hclock]
      omega
    have hdivmod := Nat.mod_add_div (c.durationPhase + input.length * c.outputDenominator)
      c.numerator
    set due := (c.durationPhase + input.length * c.outputDenominator) / c.numerator with hdueDef
    set phase := (c.durationPhase + input.length * c.outputDenominator) % c.numerator with hphaseDef
    have hduration' : phase + (f + due) * c.numerator =
        c.numerator - 1 + (n + input.length) * c.outputDenominator := by
      rw [Nat.add_mul, Nat.add_mul, Nat.mul_comm due]
      omega
    have henough : f + due ≤ produced + frames.length := by
      have hproduced : last + (decimated + samples.length) *
          (c.outputDenominator * after.decimation) = (produced + frames.length) * c.numerator := by
        rw [hdecimation, ← hdenominator]
        exact hclock'
      exact due_le_produced hduration' hpos hdecimated' hproduced
    have hassert : ¬ (c.pending ++ frames).length < due := by
      rw [List.length_append]
      omega
    have hgiven : (((c.pending ++ frames).take due).map (B.scale c.unclipped gain)).length = due := by
      rw [List.length_map, List.length_take]
      omega
    refine ⟨{ c with durationPhase := phase, coarse := some after, filters := some filter₂,
                     next := last, pending := (c.pending ++ frames).drop due },
      ((c.pending ++ frames).take due).map (B.scale c.unclipped gain), ?_, ?_, rfl, rfl, rfl, rfl⟩
    · unfold convert
      simp only [hprocess, hloop]
      rw [if_neg hassert]
    · rw [hgiven]
      refine ⟨hpos, hduration', Nat.mod_lt _ hpos, ⟨after, filter₂, rfl, rfl, hdue', ?_,
        decimated + samples.length, produced + frames.length, hdecimated', hclock', ?_⟩, hlast⟩
      · rw [hdecimation]
        exact hdenominator
      · show _ = ((c.pending ++ frames).drop due).length + _
        rw [List.length_drop, List.length_append]
        rw [List.length_append] at hassert
        omega

/-! ## Section 4: Calls -/

/-- The source and output rates the converter accepts. -/
structure Accepts (sourceRate stride : UInt32) (outputRate : ℕ) : Prop where
  source_ne : sourceRate ≠ 0
  stride_ne : stride ≠ 0
  rates : Admitted (inputRateOf sourceRate stride) outputRate

/-- The converter works for these rates, has taken `n` samples and given `f` frames. -/
structure Running (c : IqAudioConverter α β) (sourceRate stride : UInt32) (outputRate n f : ℕ) :
    Prop where
  settings : c.settings = some (inputRateOf sourceRate stride, outputRate)
  ratio : c.clockRatio = some (clockOf sourceRate stride)
  numerator : c.numerator = (clockOf sourceRate stride).1
  denominator : c.outputDenominator = (clockOf sourceRate stride).2 * outputRate
  direct : inputRateOf sourceRate stride = outputRate → f = n
  converting : inputRateOf sourceRate stride ≠ outputRate → c.Converting n f

/-- The converter was not at work for these rates, and starts afresh. -/
def Restarts (c : IqAudioConverter α β) (sourceRate stride : UInt32) (outputRate : ℕ) : Prop :=
  c.clockRatio ≠ some (clockOf sourceRate stride) ∨
    c.settings ≠ some (inputRateOf sourceRate stride, outputRate)

variable {sourceRate stride : UInt32} {outputRate n f : ℕ} {c : IqAudioConverter α β}

theorem toNat_pos {x : UInt32} (h : x ≠ 0) : 0 < x.toNat := by
  rw [Nat.pos_iff_ne_zero]
  intro hzero
  exact h (UInt32.toNat_inj.1 hzero)

theorem configure_running (haccepts : Accepts sourceRate stride outputRate)
    (h : c.Running sourceRate stride outputRate n f) :
    c.configure A (inputRateOf sourceRate stride) outputRate = (c, true) := by
  unfold configure
  rw [if_neg (not_not.2 haccepts.rates), if_pos h.settings]

/-- A call in the middle of the work. -/
theorem process_running (haccepts : Accepts sourceRate stride outputRate)
    (h : c.Running sourceRate stride outputRate n f) (input : List α) (gain : γ) :
    ∃ c' frames, c.process A B input (inputRateOf sourceRate stride) outputRate gain =
        some (c', frames) ∧
      c'.Running sourceRate stride outputRate (n + input.length) (f + frames.length) := by
  unfold process
  rw [configure_running haccepts h]
  dsimp only
  by_cases hempty : input.length = 0
  · rw [if_pos hempty, hempty]
    exact ⟨c, [], rfl, h⟩
  rw [if_neg hempty]
  by_cases hdirect : inputRateOf sourceRate stride = outputRate
  · rw [if_pos hdirect]
    refine ⟨c, input.map (B.direct c.unclipped gain), rfl, h.settings, h.ratio, h.numerator,
      h.denominator, fun _ => ?_, fun hne => absurd hdirect hne⟩
    rw [List.length_map, h.direct hdirect]
  · rw [if_neg hdirect]
    have hconverting := h.converting hdirect
    obtain ⟨coarse, filter, hcoarse, hfilter, -⟩ := hconverting.coarse
    obtain ⟨c', frames, hconvert, hnext, hsettings, hratio, hnumerator, hdenominator⟩ :=
      convert_spec (A := A) (B := B) hconverting hcoarse hfilter input gain
    rw [hcoarse, hfilter]
    refine ⟨c', frames, hconvert, ?_, ?_, ?_, ?_, fun heq => absurd heq hdirect, fun _ => hnext⟩
    · rw [hsettings, h.settings]
    · rw [hratio, h.ratio]
    · rw [hnumerator, h.numerator]
    · rw [hdenominator, h.denominator]

theorem processClocked_running (haccepts : Accepts sourceRate stride outputRate)
    (h : c.Running sourceRate stride outputRate n f) (input : List α) (gain : γ) :
    c.processClocked A B input sourceRate stride outputRate gain =
      c.process A B input (inputRateOf sourceRate stride) outputRate gain := by
  have hnonzero : ¬ (sourceRate = 0 ∨ stride = 0) := by
    rw [not_or]
    exact ⟨haccepts.source_ne, haccepts.stride_ne⟩
  have hsame : ¬ (c.clockRatio ≠ some (clockOf sourceRate stride) ∨
      c.settings ≠ some (inputRateOf sourceRate stride, outputRate)) := by
    rw [not_or]
    exact ⟨not_not.2 h.ratio, not_not.2 h.settings⟩
  unfold processClocked
  rw [if_neg hnonzero]
  dsimp only
  rw [if_neg hsame]

theorem new_skip (decimation : ℕ) : (FirDecimator.new A decimation).skip = 0 := by
  unfold FirDecimator.new
  split
  · rfl
  · rfl

/-- A fresh converter on its clock. -/
theorem withClock_running (haccepts : Accepts sourceRate stride outputRate)
    (c₀ : IqAudioConverter α β) :
    ∃ c₁, c₀.reset.configure A (inputRateOf sourceRate stride) outputRate = (c₁, true) ∧
      (c₁.withClock (clockOf sourceRate stride) outputRate).Running sourceRate stride outputRate
        0 0 := by
  have hout : 0 < outputRate := by
    have := haccepts.rates.2.1
    omega
  have hden : 0 < (inputRateOf sourceRate stride).den * outputRate :=
    Nat.mul_pos (Rat.den_pos _) hout
  have hnumerator : 0 < (clockOf sourceRate stride).1 :=
    Nat.div_pos (Nat.gcd_le_left _ (toNat_pos haccepts.source_ne))
      (Nat.gcd_pos_of_pos_left _ (toNat_pos haccepts.source_ne))
  have hcoarse : 0 < coarseFactor (inputRateOf sourceRate stride) outputRate :=
    lt_of_lt_of_le one_pos (le_max_right _ _)
  have hfresh : (c₀.reset).settings ≠ some (inputRateOf sourceRate stride, outputRate) :=
    fun h => by cases h
  unfold configure
  rw [if_neg (not_not.2 haccepts.rates), if_neg hfresh]
  refine ⟨_, rfl, rfl, rfl, rfl, rfl, fun _ => rfl, fun hne => ?_⟩
  refine ⟨hnumerator, ?_, ?_, ⟨_, _, rfl, if_pos hne, FirDecimator.new_due A hcoarse, ?_, 0, 0, ?_,
    ?_, rfl⟩, hnumerator⟩
  · show (clockOf sourceRate stride).1 - 1 + _ = (clockOf sourceRate stride).1 - 1 + _
    rw [Nat.zero_mul, Nat.zero_mul]
  · show (clockOf sourceRate stride).1 - 1 < (clockOf sourceRate stride).1
    omega
  · rw [FirDecimator.new_decimation]
    show _ * (_ / _) = _
    congr 1
    exact Nat.mul_div_cancel_left _ hden
  · rw [new_skip, Nat.zero_mul]
  · rw [Nat.zero_mul, Nat.zero_mul]
    rfl

theorem processClocked_restarts (haccepts : Accepts sourceRate stride outputRate)
    (h : c.Restarts sourceRate stride outputRate) :
    ∃ c₁ : IqAudioConverter α β, c₁.Running sourceRate stride outputRate 0 0 ∧
      ∀ (input : List α) (gain : γ), c.processClocked A B input sourceRate stride outputRate gain =
        c₁.process A B input (inputRateOf sourceRate stride) outputRate gain := by
  obtain ⟨c₁, hconfigure, hrunning⟩ := withClock_running (A := A) haccepts c
  refine ⟨_, hrunning, fun input gain => ?_⟩
  have hnonzero : ¬ (sourceRate = 0 ∨ stride = 0) := by
    rw [not_or]
    exact ⟨haccepts.source_ne, haccepts.stride_ne⟩
  unfold processClocked
  rw [if_neg hnonzero]
  dsimp only
  rw [if_pos (show _ ∨ _ from h), hconfigure]

/-! ## Section 5: The number of frames -/

theorem ceilDiv_eq {x s k : ℕ} (hpos : 0 < s) (hle : x ≤ k * s) (hlt : k * s < x + s) :
    x ⌈/⌉ s = k := by
  rw [Nat.ceilDiv_eq_add_pred_div]
  apply Nat.div_eq_of_lt_le
  · omega
  · rw [Nat.add_mul, Nat.one_mul]
    omega

/-- The frames so far are the time of the samples so far, rounded up. -/
theorem Running.frames (haccepts : Accepts sourceRate stride outputRate)
    (h : c.Running sourceRate stride outputRate n f) :
    f = (n * outputRate * stride.toNat) ⌈/⌉ sourceRate.toNat := by
  have hsource := toNat_pos haccepts.source_ne
  have hstride := toNat_pos haccepts.stride_ne
  symm
  by_cases hdirect : inputRateOf sourceRate stride = outputRate
  · -- the rounded rate is an integer, so it was not rounded
    have hexact : sourceRate.toNat = outputRate * stride.toNat := by
      apply BinaryFloat.eq_of_round_div hstride hsource _ hdirect
      exact lt_trans sourceRate.toNat_lt (by norm_num)
    rw [h.direct hdirect, Nat.mul_assoc, ← hexact]
    exact ceilDiv_eq hsource (le_refl _) (Nat.lt_add_of_pos_right hsource)
  · obtain ⟨hpos, hduration, hphase, -, -⟩ := h.converting hdirect
    rw [h.numerator] at hpos hduration hphase
    rw [h.denominator] at hduration
    -- both sides in units of the greatest common divisor
    set g := Nat.gcd sourceRate.toNat stride.toNat with hg
    have hsplit : sourceRate.toNat = (clockOf sourceRate stride).1 * g :=
      (Nat.div_mul_cancel (Nat.gcd_dvd_left _ _)).symm
    have hsplit' : stride.toNat = (clockOf sourceRate stride).2 * g :=
      (Nat.div_mul_cancel (Nat.gcd_dvd_right _ _)).symm
    have hgpos : 0 < g := Nat.gcd_pos_of_pos_left _ hsource
    generalize (clockOf sourceRate stride).1 = a at *
    generalize (clockOf sourceRate stride).2 = b at *
    have htotal : n * outputRate * stride.toNat = n * (b * outputRate) * g := by
      rw [hsplit']
      ring
    rw [htotal, hsplit]
    have hassoc : f * (a * g) = f * a * g := (Nat.mul_assoc f a g).symm
    apply ceilDiv_eq (Nat.mul_pos hpos hgpos)
    · rw [hassoc]
      have hle : n * (b * outputRate) ≤ f * a := by omega
      exact Nat.mul_le_mul_right g hle
    · rw [hassoc, ← Nat.add_mul]
      have hlt : f * a < n * (b * outputRate) + a := by omega
      exact Nat.mul_lt_mul_of_pos_right hlt hgpos

/-- The work of several calls. -/
theorem convertAll_running (haccepts : Accepts sourceRate stride outputRate)
    (calls : List (List α × γ)) (h : c.Running sourceRate stride outputRate n f) :
    ∃ c' frames, c.convertAll A B sourceRate stride outputRate calls = some (c', frames) ∧
      c'.Running sourceRate stride outputRate (n + (calls.map fun call => call.1.length).sum)
        (f + frames.length) := by
  induction calls generalizing c n f with
  | nil => exact ⟨c, [], rfl, h⟩
  | cons call calls ih =>
    obtain ⟨input, gain⟩ := call
    obtain ⟨c₁, frames, hcall, h₁⟩ := process_running (A := A) (B := B) haccepts h input gain
    obtain ⟨c', rest, hrest, h'⟩ := ih h₁
    refine ⟨c', frames ++ rest, ?_, ?_⟩
    · unfold convertAll
      simp only [processClocked_running haccepts h, hcall, hrest]
    · rw [List.map_cons, List.sum_cons, List.length_append, ← Nat.add_assoc, ← Nat.add_assoc]
      exact h'

/-- **The number of frames.** A converter that starts with the first call gives, over any calls,
    one frame for each output period that has begun, and no assertion fails. -/
theorem convertAll_length (A : Dsp α ν) (B : RateArithmetic α β γ)
    (haccepts : Accepts sourceRate stride outputRate)
    (hrestarts : c.Restarts sourceRate stride outputRate) (calls : List (List α × γ)) :
    ∃ c' frames, c.convertAll A B sourceRate stride outputRate calls = some (c', frames) ∧
      frames.length =
        ((calls.map fun call => call.1.length).sum * outputRate * stride.toNat) ⌈/⌉
          sourceRate.toNat := by
  cases calls with
  | nil =>
    refine ⟨c, [], rfl, ?_⟩
    rw [List.map_nil, List.sum_nil, Nat.zero_mul, Nat.zero_mul, zero_ceilDiv]
    rfl
  | cons call calls =>
    obtain ⟨input, gain⟩ := call
    obtain ⟨c₁, h₁, hstart⟩ := processClocked_restarts (A := A) (B := B) haccepts hrestarts
    obtain ⟨c', frames, hcalls, h'⟩ := convertAll_running (A := A) (B := B) haccepts
      ((input, gain) :: calls) h₁
    refine ⟨c', frames, ?_, ?_⟩
    · -- the first call is that of the fresh converter
      rw [← hcalls]
      unfold convertAll
      rw [hstart, processClocked_running haccepts h₁]
    · have htotal := h'.frames haccepts
      rw [Nat.zero_add, Nat.zero_add] at htotal
      exact htotal

/-- Arithmetic that keeps every sample. -/
def plainDsp : Dsp ℤ Unit where
  zero := 0
  ncoNew := fun _ _ _ _ => ()
  ncoSeek := fun _ _ _ => ()
  ncoMix := fun _ x => (x, ())
  halfBand := fun window => window.sum
  phaseOutput := fun _ _ window => window.sum

def plainRate : RateArithmetic ℤ ℤ Unit where
  clean := id
  output := fun _ _ _ window => window.sum
  scale := fun _ _ x => x
  direct := fun _ _ x => x

/-- A third of 192005 Hz to 48 kHz, in uneven pieces. -/
theorem convertAll_length_third :
    ∃ c' frames, (default false : IqAudioConverter ℤ ℤ).convertAll plainDsp plainRate 192005 3 48000
        [([1, 2, 3], ()), ([], ()), ([4, 5], ())] = some (c', frames) ∧ frames.length = 4 := by
  have haccepts : Accepts 192005 3 48000 := by
    refine ⟨by decide, by decide, ?_, by norm_num⟩
    -- the rounded rate is within one of the quotient
    have herror := @BinaryFloat.round_error 53 (192005 / 3) (by norm_num)
    have hnear : |BinaryFloat.round 53 (192005 / 3) - 192005 / 3| ≤ 1 := by
      by_contra hfar
      have hbig := mul_lt_mul_of_pos_right (not_le.1 hfar) (show (0 : ℚ) < 2 ^ 53 by norm_num)
      norm_num at hbig herror
      linarith
    rw [abs_le] at hnear
    show 100 ≤ BinaryFloat.round 53 (192005 / 3) ∧ BinaryFloat.round 53 (192005 / 3) ≤ 20000000
    constructor <;> linarith
  exact convertAll_length plainDsp plainRate haccepts (.inl fun h => by cases h)
    [([1, 2, 3], ()), ([], ()), ([4, 5], ())]

end IqAudioConverter

end

end AudioRate
