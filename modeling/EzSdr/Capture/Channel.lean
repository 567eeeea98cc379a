import EzSdr.Capture.Block
import EzSdr.Capture.Decimator

/-! # Virtual Channels over Sample Blocks

    `VirtualChannel::process`: one wideband block in, at most one narrowband
    block out, with the capture clock of its first sample.

    The bus of a channel is left out; its blocks are the outputs here. The
    counter behind `new_capture_epoch` is threaded through as `next`. -/

namespace Capture

open Ingest (CaptureClock)

/-! ## Section 1: The channel -/

/-- Where the last input block ended. -/
structure InputEnd where
  sample   : ℕ
  clock    : CaptureClock
  rateHz   : ℕ
  centerHz : ℕ

structure VirtualChannel (α ν : Type*) where
  id                   : ℕ
  centerFreqHz         : ℕ
  outputRateHz         : ℕ
  nco                  : ν
  decimator            : FirDecimator α
  lastInput            : Option InputEnd
  outputEpoch          : ℕ
  pendingDiscontinuity : Bool

variable {α ν : Type*} (A : Dsp α ν)

/-- `Nco::mix`. -/
def mix (nco : ν) : List α → List α × ν
  | [] => ([], nco)
  | sample :: samples =>
    let (value, nco) := A.ncoMix nco sample
    let (values, nco) := mix nco samples
    (value :: values, nco)

/-- The block starts where the input ended, on the same clock. -/
def InputEnd.admits (last : InputEnd) (block : SampleBlock α) : Bool :=
  let clock := block.captureClock
  last.sample = block.startSample && last.rateHz = block.sampleRateHz &&
  last.centerHz = block.centerFreqHz && last.clock.epoch = clock.epoch &&
  last.clock.sourceSampleIndex = clock.sourceSampleIndex &&
  last.clock.sourceSampleRateHz = clock.sourceSampleRateHz &&
  last.clock.sampleStride = clock.sampleStride &&
  last.clock.originUnixNs = clock.originUnixNs

namespace VirtualChannel

/-- `VirtualChannel::new`, with an epoch of its own. -/
def new (id widebandCenterHz widebandRateHz centerFreqHz decimation epoch : ℕ) :
    VirtualChannel α ν where
  id := id
  centerFreqHz := centerFreqHz
  outputRateHz := widebandRateHz / decimation % 2 ^ 32
  nco := A.ncoNew centerFreqHz widebandCenterHz widebandRateHz 1
  decimator := .new A decimation
  lastInput := none
  outputEpoch := epoch
  pendingDiscontinuity := true

/-- The start after a break: an epoch of its own, the first output on the next
    multiple of the decimation, no history. -/
def restart (ch : VirtualChannel α ν) (block : SampleBlock α) (epoch : ℕ) : VirtualChannel α ν :=
  let clock := block.captureClock
  let decimation := ch.decimator.decimation
  let firstOffset := (decimation - block.startSample % decimation) % decimation
  let nco := A.ncoNew ch.centerFreqHz block.centerFreqHz clock.sourceSampleRateHz
    (max clock.sampleStride 1)
  { ch with
    outputEpoch := epoch
    pendingDiscontinuity := true
    decimator := ch.decimator.reset A firstOffset
    nco := A.ncoSeek nco clock.sourceSampleIndex clock.sourceSampleRateHz }

/-- The clock of an output block whose first sample lies `firstOffset` into the input. -/
def outputClock (ch : VirtualChannel α ν) (clock : CaptureClock) (firstOffset : ℕ) :
    Option CaptureClock := do
  let clock ← offsetSamples clock firstOffset
  let stride := clock.sampleStride * (ch.decimator.decimation % 2 ^ 32)
  if stride < 2 ^ 32 then
    some { clock with
      epoch := ch.outputEpoch
      sampleStride := stride
      discontinuous := ch.pendingDiscontinuity }
  else none

/-- The end of `process`: mix, decimate, and put a clock on what came out. -/
def convert (ch : VirtualChannel α ν) (block : SampleBlock α) :
    VirtualChannel α ν × Option (SampleBlock α) :=
  let clock := block.captureClock
  let firstOffset := ch.decimator.skip
  let (mixed, nco) := mix A ch.nco block.samples
  let (decimator, decimated) := ch.decimator.process A mixed
  let ch := { ch with nco := nco, decimator := decimator }
  match offsetSamples clock block.samples.length with
  | none => (ch, none)
  | some clock' =>
    let ch := { ch with
      lastInput := some ⟨block.startSample + block.samples.length, clock', block.sampleRateHz,
        block.centerFreqHz⟩ }
    if decimated.isEmpty then (ch, none)
    else
      match ch.outputClock clock firstOffset with
      | none => (ch, none)
      | some capture =>
        let rate := block.sampleRateHz / (ch.decimator.decimation % 2 ^ 32)
        ({ ch with pendingDiscontinuity := false, outputRateHz := rate },
          some { productSession := block.productSession
                 capture := some capture
                 startSample := (block.startSample + firstOffset) / ch.decimator.decimation
                 sampleRateHz := rate
                 centerFreqHz := ch.centerFreqHz
                 samples := decimated })

/-- `process`. -/
def process (ch : VirtualChannel α ν) (block : SampleBlock α) (next : ℕ) :
    VirtualChannel α ν × ℕ × Option (SampleBlock α) :=
  let clock := block.captureClock
  if clock.sourceSampleRateHz = 0 ∨ clock.sampleStride = 0 ∨ block.sampleRateHz = 0 then
    ({ ch with pendingDiscontinuity := true, lastInput := none }, next, none)
  else
    let contiguous := !clock.discontinuous && ch.lastInput.any (·.admits block)
    let (ch, next) := if contiguous then (ch, next) else (ch.restart A block next, next + 1)
    let (ch, output) := ch.convert A block
    (ch, next, output)

end VirtualChannel

/-! ## Section 2: Streams of blocks -/

/-- Where a block begins: its position, its tuning and its clock. -/
structure Origin where
  startSample  : ℕ
  sampleRateHz : ℕ
  centerFreqHz : ℕ
  clock        : CaptureClock
  deriving DecidableEq

namespace Origin

/-- `n` samples further on, without a break. -/
def advance (o : Origin) (n : ℕ) : Origin :=
  { o with
    startSample := o.startSample + n
    clock := { o.clock with
      sourceSampleIndex := o.clock.sourceSampleIndex + n * o.clock.sampleStride
      discontinuous := false } }

/-- `n` samples from here on have 64-bit positions. -/
def Fits (o : Origin) (n : ℕ) : Prop :=
  o.startSample + n < 2 ^ 64 ∧ o.clock.sourceSampleIndex + n * o.clock.sampleStride < 2 ^ 64

/-- `process` can work with the rates and the stride. -/
def Valid (o : Origin) : Prop :=
  o.clock.sourceSampleRateHz ≠ 0 ∧ o.clock.sampleStride ≠ 0 ∧ o.sampleRateHz ≠ 0

instance (o : Origin) : Decidable o.Valid := instDecidableAnd

theorem Fits.mono {o : Origin} {m n : ℕ} (h : o.Fits n) (hle : m ≤ n) : o.Fits m := by
  have hmul := Nat.mul_le_mul_right o.clock.sampleStride hle
  exact ⟨by have := h.1; omega, by have := h.2; omega⟩

theorem Fits.advance {o : Origin} {m n : ℕ} (h : o.Fits (m + n)) : (o.advance m).Fits n := by
  obtain ⟨hstart, hindex⟩ := h
  rw [Nat.add_mul] at hindex
  refine ⟨?_, ?_⟩
  · show o.startSample + m + n < 2 ^ 64
    omega
  · show o.clock.sourceSampleIndex + m * o.clock.sampleStride + n * o.clock.sampleStride < 2 ^ 64
    omega

end Origin

/-- The origin of a block. -/
def SampleBlock.origin (block : SampleBlock α) : Origin :=
  ⟨block.startSample, block.sampleRateHz, block.centerFreqHz, block.captureClock⟩

/-- The blocks cover the samples from an origin on, one after the other. -/
def StreamFrom (o : Origin) : List (SampleBlock α) → Prop
  | [] => True
  | block :: blocks => block.origin = o ∧ StreamFrom (o.advance block.samples.length) blocks

/-- What the channel expects the next block to begin with. -/
def InputEnd.origin (last : InputEnd) : Origin :=
  ⟨last.sample, last.rateHz, last.centerHz, { last.clock with discontinuous := false }⟩

/-- The contiguity test compares origins. -/
theorem admits_iff (last : InputEnd) (block : SampleBlock α) :
    (!block.captureClock.discontinuous && last.admits block) = true ↔
      last.origin = block.origin := by
  obtain ⟨sample, clock, rateHz, centerHz⟩ := last
  simp only [InputEnd.admits, InputEnd.origin, SampleBlock.origin, Origin.mk.injEq]
  generalize block.captureClock = c
  obtain ⟨epoch, index, rate, stride, origin, flag⟩ := clock
  obtain ⟨epoch', index', rate', stride', origin', flag'⟩ := c
  simp only [Bool.and_eq_true, Bool.not_eq_true', decide_eq_true_eq, CaptureClock.mk.injEq]
  tauto

/-! ## Section 3: One block or two -/

theorem length_mix (nco : ν) (samples : List α) : (mix A nco samples).1.length = samples.length := by
  induction samples generalizing nco with
  | nil => rfl
  | cons sample samples ih => simp [mix, ih]

theorem mix_append (nco : ν) (xs ys : List α) :
    mix A nco (xs ++ ys) =
      ((mix A nco xs).1 ++ (mix A (mix A nco xs).2 ys).1, (mix A (mix A nco xs).2 ys).2) := by
  induction xs generalizing nco with
  | nil => rfl
  | cons x xs ih => simp [mix, ih]

namespace VirtualChannel

/-- The filters of a channel: samples in, samples out. -/
def filter (ch : VirtualChannel α ν) (samples : List α) : List α :=
  (ch.decimator.process A (mix A ch.nco samples).1).2

/-- The filters after these samples. -/
def filtered (ch : VirtualChannel α ν) (samples : List α) : VirtualChannel α ν :=
  { ch with
    nco := (mix A ch.nco samples).2
    decimator := (ch.decimator.process A (mix A ch.nco samples).1).1 }

@[simp] theorem filter_nil (ch : VirtualChannel α ν) : ch.filter A [] = [] := by
  unfold filter mix
  cases h : ch.decimator.finalFilter with
  | none => rw [FirDecimator.process_none A h]
  | some f => rw [FirDecimator.process_some A h, FirDecimator.processLoop_nil]

theorem filter_append {ch : VirtualChannel α ν} (h : ch.decimator.Due) (xs ys : List α) :
    ch.filter A (xs ++ ys) = ch.filter A xs ++ (ch.filtered A xs).filter A ys := by
  simp only [filter, filtered, mix_append, FirDecimator.process_append A h]

/-- Where the output of a channel begins that goes on reading at an origin. -/
def outputOrigin (ch : VirtualChannel α ν) (o : Origin) : Origin where
  startSample := (o.startSample + ch.decimator.skip) / ch.decimator.decimation
  sampleRateHz := o.sampleRateHz / ch.decimator.decimation
  centerFreqHz := ch.centerFreqHz
  clock := { o.clock with
    epoch := ch.outputEpoch
    sourceSampleIndex := o.clock.sourceSampleIndex + ch.decimator.skip * o.clock.sampleStride
    sampleStride := o.clock.sampleStride * ch.decimator.decimation
    discontinuous := ch.pendingDiscontinuity }

/-- A channel about to read at a position: the next output is due on the grid. -/
structure Aligned (ch : VirtualChannel α ν) (decimation start : ℕ) : Prop where
  due   : ch.decimator.Due
  shape : FirDecimator.SameShape (.new A decimation) ch.decimator
  grid  : (start + ch.decimator.skip) % decimation = 0

section

variable {A} {ch : VirtualChannel α ν} {decimation start : ℕ}

theorem Aligned.decimation_eq (h : ch.Aligned A decimation start) :
    ch.decimator.decimation = decimation :=
  h.shape.decimation.trans (FirDecimator.new_decimation A decimation)

/-- The filters give one sample for each grid point of the input. -/
theorem Aligned.length_filter (h : ch.Aligned A decimation start) (samples : List α) :
    (ch.filter A samples).length = FirDecimator.gridCount start decimation samples.length := by
  have hdec := h.decimation_eq
  have hgrid := h.grid
  rw [← hdec] at hgrid ⊢
  rw [filter, FirDecimator.process_count A h.due _ hgrid, length_mix]

/-- How far the next output moves. -/
theorem Aligned.skip_filtered (h : ch.Aligned A decimation start) (samples : List α) :
    (ch.filtered A samples).decimator.skip + samples.length =
      ch.decimator.skip + (ch.filter A samples).length * decimation := by
  obtain ⟨-, -, hskip⟩ := FirDecimator.process_due A h.due (mix A ch.nco samples).1
  rw [length_mix, h.decimation_eq] at hskip
  exact hskip

theorem Aligned.filtered (h : ch.Aligned A decimation start) (samples : List α) :
    (ch.filtered A samples).Aligned A decimation (start + samples.length) := by
  obtain ⟨hdue, hshape, -⟩ := FirDecimator.process_due A h.due (mix A ch.nco samples).1
  refine ⟨hdue, h.shape.trans hshape, ?_⟩
  have hskip := h.skip_filtered samples
  have hsum : start + samples.length + (ch.filtered A samples).decimator.skip =
      start + ch.decimator.skip + (ch.filter A samples).length * decimation := by omega
  rw [hsum, Nat.add_mul_mod_self_right]
  exact h.grid

/-- An output in these samples is due before their end. -/
theorem Aligned.skip_lt (h : ch.Aligned A decimation start) {samples : List α}
    (hne : ch.filter A samples ≠ []) : ch.decimator.skip < samples.length := by
  have hskip := h.skip_filtered samples
  have hlt := (h.filtered samples).due.skip
  rw [(h.filtered samples).decimation_eq] at hlt
  have hpos : 0 < (ch.filter A samples).length := List.length_pos_of_ne_nil hne
  have hmul := Nat.le_mul_of_pos_left decimation hpos
  omega

/-- Nothing is due before the next output. -/
theorem Aligned.filter_before (h : ch.Aligned A decimation start) {samples : List α}
    (hle : samples.length ≤ ch.decimator.skip) : ch.filter A samples = [] := by
  by_contra hne
  have hlt := h.skip_lt hne
  omega

/-- One output comes with the sample it is due at. -/
theorem Aligned.filter_at (h : ch.Aligned A decimation start) {samples : List α}
    (hlen : samples.length = ch.decimator.skip + 1) : (ch.filter A samples).length = 1 := by
  have hskip := h.skip_filtered samples
  have hlt := (h.filtered samples).due.skip
  rw [(h.filtered samples).decimation_eq] at hlt
  have hmul : (ch.filter A samples).length * decimation =
      (ch.filtered A samples).decimator.skip + 1 := by omega
  generalize (ch.filter A samples).length = count at hmul ⊢
  -- one step is enough and two are too many
  rcases count with _ | _ | count
  · omega
  · rfl
  · have htwo := Nat.mul_le_mul_right decimation (show 2 ≤ count + 1 + 1 by omega)
    omega

end

/-! ## Section 4: What a block does -/

/-- The result of `convert`. -/
structure Converted (ch : VirtualChannel α ν) (block : SampleBlock α) (ch' : VirtualChannel α ν)
    (output : Option (SampleBlock α)) : Prop where
  nco       : ch'.nco = (ch.filtered A block.samples).nco
  decimator : ch'.decimator = (ch.filtered A block.samples).decimator
  center    : ch'.centerFreqHz = ch.centerFreqHz
  epoch     : ch'.outputEpoch = ch.outputEpoch
  last      : ch'.lastInput.map InputEnd.origin = some (block.origin.advance block.samples.length)
  output    : (output = none ∧ ch'.pendingDiscontinuity = ch.pendingDiscontinuity ∧
        (ch.filter A block.samples = [] ∨
          2 ^ 32 ≤ block.captureClock.sampleStride * ch.decimator.decimation)) ∨
      ∃ out, output = some out ∧ out.origin = ch.outputOrigin block.origin ∧
        out.samples = ch.filter A block.samples ∧ out.samples ≠ [] ∧
        ch'.pendingDiscontinuity = false ∧
        block.captureClock.sampleStride * ch.decimator.decimation < 2 ^ 32

theorem convert_spec {ch : VirtualChannel α ν} {decimation : ℕ} {block : SampleBlock α}
    (h : ch.Aligned A decimation block.startSample) (hdec : decimation < 2 ^ 32)
    (hfits : block.origin.Fits block.samples.length) :
    Converted A ch block (ch.convert A block).1 (ch.convert A block).2 := by
  have hindex (n : ℕ) (hle : n ≤ block.samples.length) :
      block.captureClock.sourceSampleIndex + n * block.captureClock.sampleStride < 2 ^ 64 :=
    (hfits.mono hle).2
  have hend := offsetSamples_of_lt (hindex _ le_rfl)
  have hsmall : ch.decimator.decimation % 2 ^ 32 = ch.decimator.decimation := by
    rw [h.decimation_eq]
    exact Nat.mod_eq_of_lt hdec
  have hfilter : (ch.decimator.process A (mix A ch.nco block.samples).1).2 =
    ch.filter A block.samples := rfl
  simp only [convert, hend, hfilter]
  by_cases hempty : ch.filter A block.samples = []
  · rw [if_pos (by simp [hempty])]
    exact ⟨rfl, rfl, rfl, rfl, rfl, .inl ⟨rfl, rfl, .inl hempty⟩⟩
  · rw [if_neg (by simpa using hempty)]
    have hskip := h.skip_lt hempty
    have hfirst := offsetSamples_of_lt (hindex _ hskip.le)
    have hsame : (ch.decimator.process A (mix A ch.nco block.samples).1).1.decimation =
        ch.decimator.decimation :=
      (FirDecimator.process_due A h.due _).2.1.decimation
    simp only [outputClock, hfirst, hsame, hsmall, Option.bind_eq_bind, Option.bind_some]
    by_cases hstride : block.captureClock.sampleStride * ch.decimator.decimation < 2 ^ 32
    · rw [if_pos hstride]
      exact ⟨rfl, rfl, rfl, rfl, rfl, .inr ⟨_, rfl, rfl, rfl, hempty, rfl, hstride⟩⟩
    · rw [if_neg hstride]
      exact ⟨rfl, rfl, rfl, rfl, rfl, .inl ⟨rfl, rfl, .inr (not_lt.1 hstride)⟩⟩

/-- The channel that converts a block: as it is, or restarted after a break. -/
def entered (ch : VirtualChannel α ν) (block : SampleBlock α) (next : ℕ) :
    VirtualChannel α ν × ℕ :=
  if ch.lastInput.map InputEnd.origin = some block.origin then (ch, next)
  else (ch.restart A block next, next + 1)

theorem process_valid (ch : VirtualChannel α ν) {block : SampleBlock α} (h : block.origin.Valid)
    (next : ℕ) :
    ch.process A block next =
      let entered := ch.entered A block next
      ((entered.1.convert A block).1, entered.2, (entered.1.convert A block).2) := by
  have hrates : ¬(block.captureClock.sourceSampleRateHz = 0 ∨
      block.captureClock.sampleStride = 0 ∨ block.sampleRateHz = 0) := by
    obtain ⟨hsource, hstride, hrate⟩ := h
    exact fun hzero => hzero.elim hsource fun hzero => hzero.elim hstride hrate
  have htest : (!block.captureClock.discontinuous && ch.lastInput.any (·.admits block)) = true ↔
      ch.lastInput.map InputEnd.origin = some block.origin := by
    cases ch.lastInput with
    | none => simp
    | some last => simpa using admits_iff last block
  simp only [process, if_neg hrates, htest, entered]

theorem process_invalid (ch : VirtualChannel α ν) {block : SampleBlock α}
    (h : ¬block.origin.Valid) (next : ℕ) :
    ch.process A block next =
      ({ ch with pendingDiscontinuity := true, lastInput := none }, next, none) := by
  have hrates : block.captureClock.sourceSampleRateHz = 0 ∨
      block.captureClock.sampleStride = 0 ∨ block.sampleRateHz = 0 := by
    unfold Origin.Valid at h
    simp only [SampleBlock.origin] at h
    tauto
  simp only [process, if_pos hrates]

/-- What holds of a channel between two blocks. -/
structure Ready (ch : VirtualChannel α ν) (decimation : ℕ) : Prop where
  due   : ch.decimator.Due
  shape : FirDecimator.SameShape (.new A decimation) ch.decimator
  grid  : ∀ last, ch.lastInput = some last → (last.sample + ch.decimator.skip) % decimation = 0

section

variable {A} {ch : VirtualChannel α ν} {decimation : ℕ}

theorem new_ready (id widebandCenterHz widebandRateHz centerFreqHz epoch : ℕ)
    (hpos : 0 < decimation) :
    (new A id widebandCenterHz widebandRateHz centerFreqHz decimation epoch).Ready A
      decimation :=
  ⟨FirDecimator.new_due A hpos, .refl _, fun last hlast => by cases hlast⟩

/-- The first multiple of the step from a position on. -/
theorem next_grid (start step : ℕ) (hpos : 0 < step) :
    (start + (step - start % step) % step) % step = 0 := by
  have hlt := Nat.mod_lt start hpos
  rw [Nat.add_mod_mod]
  have hsum : start + (step - start % step) = step * (start / step + 1) := by
    have hdiv := Nat.div_add_mod start step
    rw [Nat.mul_add, Nat.mul_one]
    omega
  rw [hsum, Nat.mul_mod_right]

/-- However a block arrives, the channel that converts it is aligned to it. -/
theorem Ready.entered (h : ch.Ready A decimation) (block : SampleBlock α) (next : ℕ) :
    (ch.entered A block next).1.Aligned A decimation block.startSample := by
  have hdec : ch.decimator.decimation = decimation :=
    h.shape.decimation.trans (FirDecimator.new_decimation A decimation)
  unfold VirtualChannel.entered
  split
  · next hcont =>
    obtain ⟨last, hlast, horigin⟩ := Option.map_eq_some_iff.1 hcont
    have hstart : last.sample = block.startSample := congrArg Origin.startSample horigin
    exact ⟨h.due, h.shape, hstart ▸ h.grid last hlast⟩
  · have hpos := h.due.pos
    refine ⟨h.due.reset A (Nat.mod_lt _ hpos), h.shape.trans (FirDecimator.reset_shape A _ _), ?_⟩
    show (block.startSample + (ch.decimator.decimation -
      block.startSample % ch.decimator.decimation) % ch.decimator.decimation) % decimation = 0
    rw [hdec] at hpos ⊢
    exact next_grid block.startSample decimation hpos

theorem Converted.ready {block : SampleBlock α} {ch' : VirtualChannel α ν}
    {output : Option (SampleBlock α)} (h : ch.Aligned A decimation block.startSample)
    (hc : Converted A ch block ch' output) : ch'.Ready A decimation := by
  have hfiltered := h.filtered block.samples
  refine ⟨hc.decimator ▸ hfiltered.due, hc.decimator ▸ hfiltered.shape, fun last hlast => ?_⟩
  have horigin := hc.last
  rw [hlast] at horigin
  have hstart : last.sample = block.startSample + block.samples.length :=
    congrArg Origin.startSample (Option.some.inj horigin)
  rw [hstart, hc.decimator]
  exact hfiltered.grid

/-- **Every block leaves the channel ready.** -/
theorem process_ready (h : ch.Ready A decimation) (hdec : decimation < 2 ^ 32)
    {block : SampleBlock α} (hfits : block.origin.Fits block.samples.length) (next : ℕ) :
    (ch.process A block next).1.Ready A decimation := by
  by_cases hvalid : block.origin.Valid
  · rw [process_valid A ch hvalid]
    have haligned := h.entered block next
    exact Converted.ready haligned (convert_spec A haligned hdec hfits)
  · rw [process_invalid A ch hvalid]
    exact ⟨h.due, h.shape, fun last hlast => by cases hlast⟩

end

end VirtualChannel

end Capture
