import EzSdr.Framework.Machine
import EzSdr.Framework.RingBuffer
import EzSdr.Framework.BoundedQueue
import EzSdr.Capture.Block

/-! # The Spectrum Analyzer

    The analyzer writes samples of the capture to a ring, hands windows of the
    ring to a worker thread and measures the selected passband in the spectra
    that come back. A context says what is tuned, a revision counts the resets
    of the stream. A scan boundary is the time from which samples count.

    Only what a measurement depends on is modelled; the display is left out.
    The transform and the comparison of levels are parameters. -/

namespace Observation

open Ingest (CaptureClock)
open Capture (offsetSamples)

/-! ## Section 1: Context, windows and spectra -/

inductive DsbSideband where
  | lower
  | upper
  | both
  deriving DecidableEq

inductive WindowType where
  | hann
  | hamming
  | blackman
  | flatTop
  deriving DecidableEq

@[ext] structure SpectrumContext where
  centerHz    : ℕ
  sampleRate  : ℚ
  vfoHz       : ℕ
  bandwidthHz : ℕ
  mode        : String
  sideband    : DsbSideband

/-- The fields are compared one by one. -/
instance : DecidableEq SpectrumContext := fun c c' =>
  decidable_of_iff (c.centerHz = c'.centerHz ∧ c.sampleRate = c'.sampleRate ∧ c.vfoHz = c'.vfoHz ∧
    c.bandwidthHz = c'.bandwidthHz ∧ c.mode = c'.mode ∧ c.sideband = c'.sideband)
    SpectrumContext.ext_iff.symm

/-- Where a window comes from. Times are in nanoseconds. -/
structure ObservationStamp where
  revision        : ℕ
  context         : SpectrumContext
  windowStartedAt : ℕ
  observedAt      : ℕ
  deriving DecidableEq

structure FftInput (σ : Type) where
  samples : List σ
  stamp   : ObservationStamp
  deriving DecidableEq

structure SpectrumFrame (δ : Type) where
  bins  : List δ
  stamp : ObservationStamp
  deriving DecidableEq

structure SpectrumMeasurement (δ : Type) where
  sequence        : ℕ
  windowStartedAt : ℕ
  observedAt      : ℕ
  peakDb          : δ
  deriving DecidableEq

/-- The arithmetic on samples `σ` and levels `δ`. -/
structure AnalyzerArithmetic (σ δ : Type) where
  /-- What a new ring is filled with. -/
  zero      : σ
  /-- A sample that is not finite becomes zero. -/
  sanitize  : σ → σ
  /-- The worker's window, transform and decibels. -/
  transform : WindowType → List σ → List δ
  finite    : δ → Bool
  max       : δ → δ → δ
  /-- −120 dB. -/
  floor     : δ
  /-- `vfo_band_edges`: the passband relative to the centre. -/
  bandEdges : SpectrumContext → ℚ × ℚ

/-! ## Section 2: The worker -/

/-- The worker with its two channels. Its thread holds at most one window. -/
structure SpectrumWorker (σ δ : Type) where
  fftSize : ℕ
  window  : WindowType
  iq      : BoundedQueue (FftInput σ)
  busy    : Option (FftInput σ)
  spectra : BoundedQueue (SpectrumFrame δ)

/-- What the thread does next. -/
inductive WorkerStep where
  /-- It receives a window, or drops the one it holds for a newer one. -/
  | receive
  /-- It transforms the window and tries to send the spectrum. -/
  | transform
  deriving DecidableEq

theorem channel_pos : 0 < 4 := Nat.succ_pos 3

namespace SpectrumWorker

variable {σ δ : Type} (A : AnalyzerArithmetic σ δ)

def new (fftSize : ℕ) (window : WindowType) : SpectrumWorker σ δ where
  fftSize := fftSize
  window := window
  iq := .empty 4 channel_pos
  busy := none
  spectra := .empty 4 channel_pos

/-- `try_send_iq`: a window that finds the channel full is dropped. -/
def trySendIq (w : SpectrumWorker σ δ) (input : FftInput σ) : SpectrumWorker σ δ :=
  { w with iq := (w.iq.trySend input).getD w.iq }

/-- `try_recv_spectrum`: the newest spectrum, and none is left. -/
def tryRecvSpectrum (w : SpectrumWorker σ δ) : Option (SpectrumFrame δ) × SpectrumWorker σ δ :=
  (w.spectra.items.getLast?, { w with spectra := .empty 4 channel_pos })

def receive (w : SpectrumWorker σ δ) : SpectrumWorker σ δ :=
  match w.iq.tryRecv with
  | some (input, iq) => { w with busy := some input, iq := iq }
  | none => w

def finish (w : SpectrumWorker σ δ) : SpectrumWorker σ δ :=
  match w.busy with
  | none => w
  | some input =>
    if input.samples.length ≠ w.fftSize then { w with busy := none }
    else
      let frame := ⟨A.transform w.window input.samples, input.stamp⟩
      { w with busy := none, spectra := (w.spectra.trySend frame).getD w.spectra }

def step (w : SpectrumWorker σ δ) : WorkerStep → SpectrumWorker σ δ
  | .receive => w.receive
  | .transform => w.finish A

end SpectrumWorker

/-! ## Section 3: The analyzer -/

/-- The FFT size is the size of the ring. -/
structure SpectrumAnalyzer (σ δ : Type) where
  centerFreq           : ℕ
  vfoFreqHz            : Option ℕ
  vfoBwHz              : ℕ
  sampleRate           : ℚ
  demodMode            : String
  dsbSideband          : DsbSideband
  windowType           : WindowType
  worker               : SpectrumWorker σ δ
  /-- Samples with the times they were observed at. -/
  iqRing               : RingBuffer (σ × ℕ)
  inputObservedAt      : ℕ
  streamRevision       : ℕ
  inputContext         : Option SpectrumContext
  nextCapture          : Option CaptureClock
  measurement          : Option (SpectrumContext × SpectrumMeasurement δ)
  measurementSequence  : ℕ
  earliestObservation  : Option ℕ
  expectedDaemonObservation        : Option ℕ
  lastDaemonMeasurementTimestampMs : Option ℕ
  samplesUntilFft      : ℕ
  fftRate              : ℕ

/-- A spectrum that the daemon has computed. -/
structure DaemonFrame (δ : Type) where
  centerHz            : ℕ
  sampleRateHz        : ℕ
  bins                : List δ
  timestampMs         : ℕ
  observationRevision : ℕ
  measurementBins     : Option (List δ)

def minFftSize : ℕ := 256

def maxFftSize : ℕ := 65536

def maxFftsPerPush : ℕ := 4

/-- `valid_fft_size`: a power of two. -/
def validFftSize (size : ℕ) : Bool :=
  minFftSize ≤ size ∧ size ≤ maxFftSize ∧ 2 ^ Nat.log2 size = size

theorem pos_of_validFftSize {size : ℕ} (h : validFftSize size = true) : 0 < size := by
  unfold validFftSize at h
  have hmin : minFftSize ≤ size := (of_decide_eq_true h).1
  exact Nat.lt_of_lt_of_le (Nat.succ_pos 255) hmin

theorem new_size_pos : 0 < 2048 := Nat.succ_pos 2047

namespace SpectrumAnalyzer

variable {σ δ : Type} (A : AnalyzerArithmetic σ δ)

/-- A new analyzer at 100 MHz. -/
def new (now : ℕ) : SpectrumAnalyzer σ δ where
  centerFreq := 100000000
  vfoFreqHz := none
  vfoBwHz := 15000
  sampleRate := 2048000
  demodMode := "NFM"
  dsbSideband := .both
  windowType := .hann
  worker := .new 2048 .hann
  iqRing := .replicate 2048 (A.zero, now) new_size_pos
  inputObservedAt := now
  streamRevision := 0
  inputContext := none
  nextCapture := none
  measurement := none
  measurementSequence := 0
  earliestObservation := none
  expectedDaemonObservation := none
  lastDaemonMeasurementTimestampMs := none
  samplesUntilFft := 2048
  fftRate := 20

variable (s : SpectrumAnalyzer σ δ)

def fftSize : ℕ := s.iqRing.size

/-- Without a selected frequency, the centre of the capture. -/
def vfoFrequencyHz : ℕ := s.vfoFreqHz.getD s.centerFreq

def observationContext : SpectrumContext where
  centerHz := s.centerFreq
  sampleRate := s.sampleRate
  vfoHz := s.vfoFrequencyHz
  bandwidthHz := s.vfoBwHz
  mode := s.demodMode
  sideband := s.dsbSideband

def resetStream : SpectrumAnalyzer σ δ :=
  { s with
    streamRevision := s.streamRevision + 1
    inputContext := some s.observationContext
    measurement := none
    iqRing := s.iqRing.clear
    samplesUntilFft := s.fftSize }

def resetCaptureStream : SpectrumAnalyzer σ δ :=
  { s with nextCapture := none, lastDaemonMeasurementTimestampMs := none }.resetStream

def synchronizeObservationContext : SpectrumAnalyzer σ δ :=
  if s.inputContext = some s.observationContext then s else s.resetStream

def observationRevision : ℕ := s.streamRevision

def beginScanObservation (earliest : ℕ) : SpectrumAnalyzer σ δ :=
  { s.resetStream with earliestObservation := some earliest }

def requireDaemonObservation (revision : Option ℕ) : SpectrumAnalyzer σ δ :=
  { s with expectedDaemonObservation := revision }

/-- 250 ms, or two and a half frames at a slow rate. -/
def measurementMaxAge : ℕ := max 250000000 ((5000000000 + s.fftRate) / (2 * s.fftRate))

def scanMeasurement : Option (SpectrumMeasurement δ) :=
  match s.measurement with
  | some (context, measurement) =>
    if context = s.observationContext then some measurement else none
  | none => none

/-! ### Measurements -/

/-- The strongest bin of the passband. -/
def passbandPeak (bins : List δ) : δ :=
  let (left, right) := A.bandEdges s.observationContext
  let n := bins.length
  if n = 0 ∨ right < left then A.floor
  else
    let binHz := s.sampleRate / n
    let first := min ⌈(n : ℚ) / 2 + left / binHz⌉.toNat n
    let last := min ⌊(n : ℚ) / 2 + right / binHz + 1⌋.toNat n
    if first < last then ((bins.take last).drop first).foldl A.max A.floor else A.floor

/-- The passband is part of the capture. -/
def inCapture : Bool :=
  let (left, right) := A.bandEdges s.observationContext
  decide (-s.sampleRate / 2 ≤ left) && decide (right ≤ s.sampleRate / 2)

def observeFrame (bins : List δ) (stamp : ObservationStamp) : SpectrumAnalyzer σ δ :=
  if stamp.revision ≠ s.streamRevision ∨ stamp.context ≠ s.observationContext ∨
      s.earliestObservation.any (stamp.windowStartedAt < ·) then s
  else if !s.inCapture A then s
  else
    { s with
      measurementSequence := s.measurementSequence + 1
      measurement := some (stamp.context,
        { sequence := s.measurementSequence + 1
          windowStartedAt := stamp.windowStartedAt
          observedAt := stamp.observedAt
          peakDb := s.passbandPeak A bins }) }

/-- What `try_recv_spectrum` does with a frame, display apart. -/
def applyFrame (frame : SpectrumFrame δ) : SpectrumAnalyzer σ δ :=
  if frame.stamp.revision ≠ s.streamRevision ∨ frame.stamp.context ≠ s.observationContext ∨
      frame.bins.length ≠ s.fftSize ∨ frame.bins.any (!A.finite ·) then s
  else s.observeFrame A frame.bins frame.stamp

def tryRecvSpectrum : SpectrumAnalyzer σ δ :=
  let (frame, worker) := s.worker.tryRecvSpectrum
  let s := { s with worker := worker }
  match frame with
  | some frame => s.applyFrame A frame
  | none => s

/-! ### Pushes -/

/-- The stream starts over if the context has changed since the last input. -/
def prepareContext : SpectrumAnalyzer σ δ :=
  if s.inputContext.any (· ≠ s.observationContext) then s.resetStream else s

/-- `prepare_input`: whether the samples may be used, and the new state. -/
def prepareInput (observedAt : ℕ) : Bool × SpectrumAnalyzer σ δ :=
  (s.earliestObservation.all (· ≤ observedAt),
    { s.prepareContext with
      inputContext := some s.observationContext
      inputObservedAt := observedAt })

def fftHop : ℕ := max 1 ⌈s.sampleRate / s.fftRate⌉.toNat

/-- The window that the ring holds, with its stamp. -/
def fftInput : FftInput σ where
  samples := s.iqRing.window.map Prod.fst
  stamp :=
    { revision := s.streamRevision
      context := s.observationContext
      windowStartedAt := s.iqRing.oldest.2
      observedAt := s.inputObservedAt }

def transformIqWindow : SpectrumAnalyzer σ δ :=
  { s with worker := s.worker.trySendIq s.fftInput }

def workerSteps (steps : List WorkerStep) : SpectrumAnalyzer σ δ :=
  { s with worker := steps.foldl (SpectrumWorker.step A) s.worker }

/-- One sample goes to the ring. -/
def writeSample (sample : σ) : SpectrumAnalyzer σ δ :=
  { s with
    iqRing := s.iqRing.push (sample, s.inputObservedAt)
    samplesUntilFft := s.samplesUntilFft - 1 }

end SpectrumAnalyzer

/-- A push under way: the local variables of the loop over its samples, and the
    windows it has submitted. -/
structure Push (σ δ : Type) where
  analyzer    : SpectrumAnalyzer σ δ
  transformed : ℕ
  latestDue   : Bool
  submitted   : List (FftInput σ)

namespace Push

variable {σ δ : Type} (A : AnalyzerArithmetic σ δ)

def submit (p : Push σ δ) : Push σ δ :=
  { p with
    analyzer := p.analyzer.transformIqWindow
    submitted := p.submitted ++ [p.analyzer.fftInput] }

/-- A window is due: the first three are submitted at once. -/
def due (p : Push σ δ) : Push σ δ :=
  if p.transformed < maxFftsPerPush - 1 then { p.submit with transformed := p.transformed + 1 }
  else { p with latestDue := true }

def pushComplexSample (p : Push σ δ) (sample : σ) : Push σ δ :=
  let s := p.analyzer.writeSample sample
  if s.iqRing.filled = s.fftSize ∧ s.samplesUntilFft = 0 then
    { p with analyzer := { s with samplesUntilFft := s.fftHop } }.due
  else { p with analyzer := s }

/-- After the last sample, the newest window if more were due. -/
def finish (p : Push σ δ) : Push σ δ := if p.latestDue then p.submit else p

/-- The worker goes on while samples are pushed. -/
def work (p : Push σ δ) (steps : List WorkerStep) : Push σ δ :=
  { p with analyzer := p.analyzer.workerSteps A steps }

/-- The loop over the samples; `meanwhile i` is what the worker does before sample `i`. -/
def loop (meanwhile : ℕ → List WorkerStep) : ℕ → Push σ δ → List σ → Push σ δ
  | i, p, [] => (p.work A (meanwhile i)).finish
  | i, p, sample :: rest =>
    loop meanwhile (i + 1) ((p.work A (meanwhile i)).pushComplexSample sample) rest

end Push

namespace SpectrumAnalyzer

variable {σ δ : Type} (A : AnalyzerArithmetic σ δ)

/-- `push_complex_samples_at`, with the windows it submits. -/
def pushComplexSamplesAt (s : SpectrumAnalyzer σ δ) (iq : List σ) (observedAt : ℕ)
    (meanwhile : ℕ → List WorkerStep) : SpectrumAnalyzer σ δ × List (FftInput σ) :=
  let (ready, s) := (s.tryRecvSpectrum A).prepareInput observedAt
  if !ready || iq.isEmpty then (s, [])
  else
    let p := Push.loop A meanwhile 0 ⟨s, 0, false, []⟩ (iq.map A.sanitize)
    (p.analyzer, p.submitted)

/-- The clock after a block, if the next one continues it. -/
def continuation (clock : CaptureClock) (inputSamples : ℕ) : Option CaptureClock :=
  (offsetSamples clock inputSamples).map fun next => { next with discontinuous := false }

/-- The block does not continue the one before it: the stream starts over. -/
def breakStream (s : SpectrumAnalyzer σ δ) (clock : CaptureClock) : SpectrumAnalyzer σ δ :=
  if !clock.discontinuous ∧ s.nextCapture = some clock then s else s.resetStream

def pushCaptureSamples (s : SpectrumAnalyzer σ δ) (iq : List σ) (clock : CaptureClock)
    (observedAt inputSamples : ℕ) (meanwhile : ℕ → List WorkerStep) :
    SpectrumAnalyzer σ δ × List (FftInput σ) :=
  { s.breakStream clock with
    nextCapture := continuation clock inputSamples }.pushComplexSamplesAt A iq observedAt meanwhile

/-! ### Settings -/

/-- A valid size that is new starts everything over; an invalid one changes nothing. -/
def setFftSize (s : SpectrumAnalyzer σ δ) (size now : ℕ) : SpectrumAnalyzer σ δ :=
  if h : validFftSize size then
    if size = s.fftSize then s
    else
      { s with
        iqRing := .replicate size (A.zero, now) (pos_of_validFftSize h)
        worker := .new size s.windowType }.resetStream
  else s

def setFftRate (s : SpectrumAnalyzer σ δ) (framesPerSecond : ℕ) : SpectrumAnalyzer σ δ :=
  let rate := max 1 (min framesPerSecond 120)
  if rate = s.fftRate then s
  else
    let s := { s with fftRate := rate }
    { s with samplesUntilFft :=
        if s.iqRing.filled < s.fftSize then s.fftSize - s.iqRing.filled else s.fftHop }

/-- A new window needs a new worker; the samples stay. -/
def setWindow (s : SpectrumAnalyzer σ δ) (window : WindowType) : SpectrumAnalyzer σ δ :=
  if s.windowType = window then s
  else { s with windowType := window, worker := .new s.fftSize window }

def updateParamsExact (s : SpectrumAnalyzer σ δ) (centerFreq : ℕ) (sampleRate : ℚ) :
    SpectrumAnalyzer σ δ :=
  let sampleRate := if 0 < sampleRate then sampleRate else 1
  let s := if centerFreq ≠ s.centerFreq ∨ sampleRate ≠ s.sampleRate then s.resetStream else s
  { s with centerFreq := centerFreq, sampleRate := sampleRate }

/-! ### Frames of the daemon -/

/-- The frame is not the one that is waited for, or it is malformed. -/
def rejects (s : SpectrumAnalyzer σ δ) (frame : DaemonFrame δ) : Bool :=
  s.expectedDaemonObservation.any (frame.observationRevision ≠ ·) ||
  !validFftSize frame.bins.length || frame.sampleRateHz = 0 ||
  frame.bins.any (!A.finite ·) ||
  frame.measurementBins.any (fun bins =>
    bins.length ≠ frame.bins.length || bins.any (!A.finite ·)) ||
  (s.expectedDaemonObservation.isSome && frame.measurementBins.isNone)

/-- A newer frame is measured, an older one retires the measurement. -/
def measureDaemon (s : SpectrumAnalyzer σ δ) (frame : DaemonFrame δ) (observedAt : ℕ) :
    SpectrumAnalyzer σ δ :=
  if s.lastDaemonMeasurementTimestampMs.all (· < frame.timestampMs) then
    let stamp :=
      { revision := s.streamRevision
        context := s.observationContext
        windowStartedAt := observedAt
        observedAt := observedAt }
    { s.observeFrame A (frame.measurementBins.getD frame.bins) stamp with
      lastDaemonMeasurementTimestampMs := some frame.timestampMs }
  else if s.lastDaemonMeasurementTimestampMs.any (frame.timestampMs < ·) then
    { s with measurement := none }
  else s

def pushSpectrumFrameAt (s : SpectrumAnalyzer σ δ) (frame : DaemonFrame δ) (observedAt : ℕ) :
    SpectrumAnalyzer σ δ :=
  if s.rejects A frame then s
  else
    ((s.setFftSize A frame.bins.length observedAt).updateParamsExact frame.centerHz
      frame.sampleRateHz).synchronizeObservationContext.measureDaemon A frame observedAt

end SpectrumAnalyzer

/-! ## Section 4: Runs -/

/-- What happens to an analyzer. -/
inductive Event (σ δ : Type) where
  | pushCapture (iq : List σ) (clock : CaptureClock) (observedAt inputSamples : ℕ)
      (meanwhile : ℕ → List WorkerStep)
  | worker (step : WorkerStep)
  | receive
  | daemonFrame (frame : DaemonFrame δ) (observedAt : ℕ)
  /-- The selected channel, by assignment to the fields. -/
  | select (vfoFreqHz : Option ℕ) (vfoBwHz : ℕ) (demodMode : String) (sideband : DsbSideband)
  | updateParams (centerFreq : ℕ) (sampleRate : ℚ)
  | setFftSize (size now : ℕ)
  | setFftRate (framesPerSecond : ℕ)
  | setWindow (window : WindowType)
  | resetStream
  | resetCaptureStream
  | synchronize
  | beginScan (earliest : ℕ)
  | requireDaemon (revision : Option ℕ)

namespace SpectrumAnalyzer

variable {σ δ : Type} (A : AnalyzerArithmetic σ δ)

/-- One event, with the windows it submits. -/
def apply (s : SpectrumAnalyzer σ δ) : Event σ δ → SpectrumAnalyzer σ δ × List (FftInput σ)
  | .pushCapture iq clock observedAt inputSamples meanwhile =>
      s.pushCaptureSamples A iq clock observedAt inputSamples meanwhile
  | .worker step => (s.workerSteps A [step], [])
  | .receive => (s.tryRecvSpectrum A, [])
  | .daemonFrame frame observedAt => (s.pushSpectrumFrameAt A frame observedAt, [])
  | .select vfoFreqHz vfoBwHz demodMode sideband =>
      ({ s with
          vfoFreqHz := vfoFreqHz
          vfoBwHz := vfoBwHz
          demodMode := demodMode
          dsbSideband := sideband }, [])
  | .updateParams centerFreq sampleRate => (s.updateParamsExact centerFreq sampleRate, [])
  | .setFftSize size now => (s.setFftSize A size now, [])
  | .setFftRate framesPerSecond => (s.setFftRate framesPerSecond, [])
  | .setWindow window => (s.setWindow window, [])
  | .resetStream => (s.resetStream, [])
  | .resetCaptureStream => (s.resetCaptureStream, [])
  | .synchronize => (s.synchronizeObservationContext, [])
  | .beginScan earliest => (s.beginScanObservation earliest, [])
  | .requireDaemon revision => (s.requireDaemonObservation revision, [])

end SpectrumAnalyzer

def analyzerMachine {σ δ : Type} (A : AnalyzerArithmetic σ δ) (now : ℕ) :
    Machine (SpectrumAnalyzer σ δ) (Event σ δ) (List (FftInput σ)) where
  init := .new A now
  step s e := some (s.apply A e)

end Observation
