import EzSdr.Framework.Machine
import EzSdr.Capture.Block

/-! # Spectrum Frames

    The spectrum pipeline collects the samples of its blocks, whatever their
    length, and cuts FFT windows from the front of the backlog. Gaps and
    retunes flush the backlog, a new observation flushes it and waits for the
    tuner to settle, and the backlog is trimmed when nobody listens or too
    much has piled up.

    The window, the transform and the decibels are parameters: this module is
    about which samples reach them.

    **`frames_integral`**: the window behind a frame is a range of samples of
    one unbroken run, with the centre and the rate of the frame. -/

namespace Spectrum

open Capture (SampleBlock SampleContinuity Expected observe checkedAdd_eq_some
  offsetSamples_eq_some)

/-! ## Section 1: The pipeline -/

/-- The arithmetic on samples `α` and decibels `δ`. -/
structure SpectrumArithmetic (α δ : Type*) where
  /-- A sample times `hann_window(n)` at a position. -/
  windowed : ℕ → ℕ → α → α
  /-- The forward transform. -/
  fft      : List α → List α
  /-- The scaled magnitude of a component, in decibels. -/
  decibels : ℕ → α → δ
  /-- −120 dB. -/
  floor    : δ
  /-- `avg_alpha` of the new value, the rest of the old one. -/
  smooth   : δ → δ → δ

/-- A block with the time its read from the source was complete, in nanoseconds. -/
structure ObservedBlock (α : Type*) where
  block      : SampleBlock α
  observedAt : Option ℕ
  deriving DecidableEq

/-- A frame, without its UTC time stamp. -/
structure SpectrumFrame (δ : Type*) where
  channelId           : ℕ
  centerHz            : ℕ
  sampleRateHz        : ℕ
  bins                : List δ
  observationRevision : ℕ
  measurementBins     : Option (List δ)
  deriving DecidableEq

structure SpectrumPipeline (α δ : Type*) where
  channelId           : ℕ
  /-- The blocks in the queue of the handle, oldest first. -/
  input               : List (ObservedBlock α)
  fftSize             : ℕ
  accum               : List α
  smoothedDb          : List δ
  continuity          : SampleContinuity
  observationRevision : ℕ
  observationEarliest : Option ℕ
  /-- `config.fft_size.max(2)`. -/
  fftSize_large       : 2 ≤ fftSize

def maxSpectrumQueueFrames : ℕ := 4

/-- 25 ms, in nanoseconds. -/
def settlingTime : ℕ := 25000000

section

variable {α δ : Type*} (A : SpectrumArithmetic α δ)

namespace SpectrumPipeline

def new (fftSize : ℕ) : SpectrumPipeline α δ where
  channelId := 0
  input := []
  fftSize := max fftSize 2
  accum := []
  smoothedDb := List.replicate (max fftSize 2) A.floor
  continuity := none
  observationRevision := 0
  observationEarliest := none
  fftSize_large := le_max_right _ _

/-- No samples, no average. -/
def flush (p : SpectrumPipeline α δ) : SpectrumPipeline α δ :=
  { p with accum := [], smoothedDb := List.replicate p.fftSize A.floor }

/-- `begin_observation_at`: what is queued at that moment is drained. -/
def beginObservation (p : SpectrumPipeline α δ) (revision now : ℕ) : SpectrumPipeline α δ :=
  { p.flush A with
    observationRevision := revision
    observationEarliest := some (now + settlingTime)
    continuity := none
    input := p.input.drop p.input.length }

/-- The last samples only. -/
def trim (p : SpectrumPipeline α δ) (limit : ℕ) : SpectrumPipeline α δ :=
  { p with accum := p.accum.drop (p.accum.length - limit) }

end SpectrumPipeline

/-- The bins of a window of samples: component `i` of the transform goes to bin
    `(i + n / 2) % n`. -/
def measure (samples : List α) : List δ :=
  let n := samples.length
  ((A.fft (samples.mapIdx (A.windowed n))).map (A.decibels n)).rotate (n - n / 2)

/-- The average after one more measurement. -/
def average (smoothed measured : List δ) : List δ := List.zipWith A.smooth measured smoothed

namespace SpectrumPipeline

/-- One turn of the loop that publishes frames. -/
def emitFrame (p : SpectrumPipeline α δ) (block : SampleBlock α) :
    SpectrumPipeline α δ × SpectrumFrame δ :=
  let measured := measure A (p.accum.take p.fftSize)
  let smoothed := average A p.smoothedDb measured
  ({ p with accum := p.accum.drop p.fftSize, smoothedDb := smoothed },
    { channelId := p.channelId
      centerHz := block.centerFreqHz
      sampleRateHz := block.sampleRateHz
      bins := smoothed
      observationRevision := p.observationRevision
      measurementBins := if p.observationRevision ≠ 0 then some measured else none })

/-- The loop, with the length of the backlog as fuel. -/
def emitFrames (block : SampleBlock α) :
    ℕ → SpectrumPipeline α δ → SpectrumPipeline α δ × List (SpectrumFrame δ)
  | 0, p => (p, [])
  | fuel + 1, p =>
    if p.fftSize ≤ p.accum.length then
      let (p', frame) := p.emitFrame A block
      let (p'', frames) := emitFrames block fuel p'
      (p'', frame :: frames)
    else (p, [])

/-- The block may have been observed before the tuner settled. -/
def unsettled (p : SpectrumPipeline α δ) (b : ObservedBlock α) : Bool :=
  p.observationEarliest.any fun earliest => b.observedAt.all (· < earliest)

/-- Continuity and the new samples. -/
def accept (p : SpectrumPipeline α δ) (block : SampleBlock α) : SpectrumPipeline α δ :=
  let (contiguous, continuity) := observe p.continuity block
  let p := if contiguous then p else p.flush A
  { p with continuity := continuity, accum := p.accum ++ block.samples }

/-- `process_block`, with the count of subscribers it reads. -/
def processBlock (p : SpectrumPipeline α δ) (b : ObservedBlock α) (subscribers : ℕ) :
    SpectrumPipeline α δ × List (SpectrumFrame δ) :=
  if p.unsettled b then (p, [])
  else
    let p := p.accept A b.block
    if subscribers = 0 then (p.trim p.fftSize, [])
    else
      let p := p.trim (maxSpectrumQueueFrames * p.fftSize)
      p.emitFrames A b.block p.accum.length

end SpectrumPipeline

inductive Input (α : Type*) where
  | setChannelId (id : ℕ)
  /-- A block enters the queue of the handle. -/
  | arrive (b : ObservedBlock α)
  /-- The broadcaster evicts the oldest block of a full queue. -/
  | evict
  /-- `tick`, with the count of subscribers at that moment. -/
  | tick (subscribers : ℕ)
  | beginObservation (revision now : ℕ)

/-- One step, with the frames it publishes. -/
def step (p : SpectrumPipeline α δ) :
    Input α → Option (SpectrumPipeline α δ × List (SpectrumFrame δ))
  | .setChannelId id => some ({ p with channelId := id }, [])
  | .arrive b => some ({ p with input := p.input ++ [b] }, [])
  | .evict => some ({ p with input := p.input.drop 1 }, [])
  | .tick subscribers =>
    match p.input with
    | [] => some (p, [])
    | b :: rest => some ({ p with input := rest }.processBlock A b subscribers)
  | .beginObservation revision now => some (p.beginObservation A revision now, [])

/-- A pipeline of an FFT size, fed in any way. -/
def machine (fftSize : ℕ) : Machine (SpectrumPipeline α δ) (Input α) (List (SpectrumFrame δ)) where
  init := SpectrumPipeline.new A fftSize
  step := step A

/-! ## Section 2: What a frame is made of -/

/-- A recorded step of a pipeline. -/
abbrev Ev (α δ : Type*) :=
  Machine.Event (SpectrumPipeline α δ) (Input α) (List (SpectrumFrame δ))

/-- The block starts at the sample, and the instant of the source, at which the other ends. -/
structure Follows (a b : ObservedBlock α) : Prop where
  start  : b.block.startSample = a.block.startSample + a.block.samples.length
  rate   : b.block.sampleRateHz = a.block.sampleRateHz
  center : b.block.centerFreqHz = a.block.centerFreqHz
  clock  : b.block.captureClock = { a.block.captureClock with
    sourceSampleIndex := a.block.captureClock.sourceSampleIndex +
      a.block.samples.length * a.block.captureClock.sampleStride
    discontinuous := false }

/-- The samples of consecutive blocks. -/
def samplesOf (run : List (ObservedBlock α)) : List α := run.flatMap (·.block.samples)

/-- The windows are ranges of `n` samples, in order and apart from each other, that end within
    the given samples. -/
inductive Windows (n : ℕ) : List (List α) → List α → Prop
  | none : Windows n [] []
  | skip {windows : List (List α)} {samples : List α} (dropped : List α) :
      Windows n windows samples → Windows n windows (samples ++ dropped)
  | window {windows : List (List α)} {samples window : List α} :
      Windows n windows samples → window.length = n →
      Windows n (windows ++ [window]) (samples ++ window)

/-- The average of the windows, from the floor. -/
def averages (n : ℕ) (windows : List (List α)) : List δ :=
  windows.foldl (fun smoothed window => average A smoothed (measure A window))
    (List.replicate n A.floor)

/-- Revision and time of the last observation. -/
def barrier (h : List (Ev α δ)) : Option (ℕ × ℕ) :=
  h.foldl (fun last e =>
    match e.input with
    | .beginObservation revision now => some (revision, now)
    | _ => last) none

/-- The blocks taken from the queue since the last observation began, those aside that came
    before the tuner had settled. -/
def heard (h : List (Ev α δ)) : List (ObservedBlock α) :=
  h.foldl (fun blocks e =>
    match e.input with
    | .beginObservation _ _ => []
    | .tick _ => blocks ++ (e.before.input.head?.filter fun b => !e.before.unsettled b).toList
    | _ => blocks) []

/-- What every published frame is made of: windows of one unbroken run of the blocks heard,
    which has the centre and the rate of the frame. The measurement is the last window alone. -/
structure FrameLaw (n : ℕ) (h : List (Ev α δ)) (frame : SpectrumFrame δ) : Prop where
  made : ∃ run earlier window consumed,
    run <:+ heard h ∧ run.IsChain Follows ∧
    (∀ b ∈ run, b.block.centerFreqHz = frame.centerHz ∧
      b.block.sampleRateHz = frame.sampleRateHz) ∧
    consumed <+: samplesOf run ∧ Windows n (earlier ++ [window]) consumed ∧
    frame.bins = averages A n (earlier ++ [window]) ∧
    frame.measurementBins =
      (if frame.observationRevision ≠ 0 then some (measure A window) else none) ∧
    (frame.observationRevision ≠ 0 → ∃ now, barrier h = some (frame.observationRevision, now) ∧
      ∀ b ∈ run, ∃ observed, b.observedAt = some observed ∧ now + settlingTime ≤ observed)

/-! ## Section 3: One block -/

/-- The samples and the average belong to one unbroken run. -/
structure Backlog (run : List (ObservedBlock α)) (windows : List (List α))
    (p : SpectrumPipeline α δ) : Prop where
  chained  : run.IsChain Follows
  covered  : ∃ consumed, samplesOf run = consumed ++ p.accum ∧
    Windows p.fftSize windows consumed
  averaged : p.smoothedDb = averages A p.fftSize windows
  expected : p.continuity = run.getLast?.bind fun b => (observe none b.block).2

variable {A}

/-- Nothing has been heard since the last flush. -/
theorem backlog_flushed {p : SpectrumPipeline α δ} (haccum : p.accum = [])
    (hsmoothed : p.smoothedDb = List.replicate p.fftSize A.floor) (hnone : p.continuity = none) :
    Backlog A [] [] p where
  chained := List.IsChain.nil
  covered := ⟨[], by rw [haccum]; rfl, .none⟩
  averaged := hsmoothed
  expected := hnone

/-- What a block leaves as the expectation of the next one: its own end. -/
theorem expected_of_observe {c : SampleContinuity} {block : SampleBlock α} {e : Expected}
    (h : (observe c block).2 = some e) :
    e = ⟨block.startSample + block.samples.length, { block.captureClock with
      sourceSampleIndex := block.captureClock.sourceSampleIndex +
        block.samples.length * block.captureClock.sampleStride },
      block.sampleRateHz, block.centerFreqHz⟩ := by
  simp only [observe, Option.bind_eq_bind, Option.bind_eq_some_iff, checkedAdd_eq_some,
    offsetSamples_eq_some] at h
  obtain ⟨sample, ⟨-, hsample⟩, clock, ⟨-, hclock⟩, hguard⟩ := h
  split at hguard
  · rw [hsample, hclock] at hguard
    exact (Option.some.inj hguard).symm
  · cases hguard

/-- The continuity test says yes only to the block that follows. -/
theorem follows_of_observe {a b : ObservedBlock α} {c : SampleContinuity}
    (h : (observe (observe c a.block).2 b.block).1 = true) : Follows a b := by
  simp only [observe, Bool.and_eq_true, Bool.not_eq_true', Option.any_eq_true] at h
  obtain ⟨hcontinuous, e, he, hadmits⟩ := h
  obtain rfl := expected_of_observe (c := c) he
  simp only [Expected.admits, Bool.and_eq_true, decide_eq_true_eq] at hadmits
  obtain ⟨⟨⟨⟨⟨⟨⟨hstart, hrate⟩, hcenter⟩, hepoch⟩, hindex⟩, hsource⟩, hstride⟩, horigin⟩ := hadmits
  refine ⟨hstart.symm, hrate.symm, hcenter.symm, ?_⟩
  cases hclock : b.block.captureClock with
  | mk epoch index rate stride origin discontinuous =>
    rw [hclock] at hcontinuous hepoch hindex hsource hstride horigin
    dsimp only at hcontinuous hepoch hindex hsource hstride horigin
    rw [hcontinuous, ← hepoch, ← hindex, ← hsource, ← hstride, ← horigin]

/-- What is expected next does not depend on what was expected before. -/
theorem observe_expected (c c' : SampleContinuity) (block : SampleBlock α) :
    (observe c block).2 = (observe c' block).2 := rfl

/-- An admitted block goes on with the run, or begins a new one. -/
theorem Backlog.accept {run : List (ObservedBlock α)} {windows : List (List α)}
    {p : SpectrumPipeline α δ} (h : Backlog A run windows p) (b : ObservedBlock α) :
    ∃ run' windows', (run' = run ++ [b] ∨ run' = [b]) ∧
      Backlog A run' windows' (p.accept A b.block) := by
  cases hobserve : observe p.continuity b.block with
  | mk contiguous continuity =>
    have hnext : continuity = (observe none b.block).2 := by
      rw [observe_expected none p.continuity, hobserve]
    unfold SpectrumPipeline.accept
    rw [hobserve]
    cases contiguous with
    | false =>
      refine ⟨[b], [], .inr rfl, List.isChain_singleton b, ⟨[], ?_, .none⟩, rfl, hnext⟩
      show samplesOf [b] = [] ++ ([] ++ b.block.samples)
      simp [samplesOf]
    | true =>
      refine ⟨run ++ [b], windows, .inl rfl, ?_, ?_, h.averaged, ?_⟩
      · refine h.chained.append (List.isChain_singleton b) fun a ha b' hb' => ?_
        obtain rfl : b = b' := by simpa using hb'
        refine follows_of_observe (c := none) ?_
        have hexpected := h.expected
        rw [ha, Option.bind_some] at hexpected
        rw [← hexpected, hobserve]
      · obtain ⟨consumed, hsamples, hwindows⟩ := h.covered
        refine ⟨consumed, ?_, hwindows⟩
        show samplesOf (run ++ [b]) = consumed ++ (p.accum ++ b.block.samples)
        rw [← List.append_assoc, ← hsamples]
        simp [samplesOf]
      · rw [List.getLast?_concat]
        exact hnext

/-- What is trimmed away is passed over. -/
theorem Backlog.trim {run : List (ObservedBlock α)} {windows : List (List α)}
    {p : SpectrumPipeline α δ} (h : Backlog A run windows p) (limit : ℕ) :
    Backlog A run windows (p.trim limit) where
  chained := h.chained
  covered := by
    obtain ⟨consumed, hsamples, hwindows⟩ := h.covered
    refine ⟨consumed ++ p.accum.take (p.accum.length - limit), ?_, hwindows.skip _⟩
    show samplesOf run = _ ++ p.accum.drop (p.accum.length - limit)
    rw [List.append_assoc, List.take_append_drop, hsamples]
  averaged := h.averaged
  expected := h.expected

/-- The frames of a loop, each with the windows that had been cut by then. -/
def Made (A : SpectrumArithmetic α δ) (run : List (ObservedBlock α)) (block : SampleBlock α)
    (p : SpectrumPipeline α δ) (frame : SpectrumFrame δ) : Prop :=
  ∃ earlier window consumed, consumed <+: samplesOf run ∧
    Windows p.fftSize (earlier ++ [window]) consumed ∧
    frame = ⟨p.channelId, block.centerFreqHz, block.sampleRateHz,
      averages A p.fftSize (earlier ++ [window]), p.observationRevision,
      if p.observationRevision ≠ 0 then some (measure A window) else none⟩

/-- One window is cut from the front of the backlog. -/
theorem Backlog.emitFrame {run : List (ObservedBlock α)} {windows : List (List α)}
    {p : SpectrumPipeline α δ} (h : Backlog A run windows p) (block : SampleBlock α)
    (hlong : p.fftSize ≤ p.accum.length) :
    Backlog A run (windows ++ [p.accum.take p.fftSize]) (p.emitFrame A block).1 ∧
      Made A run block p (p.emitFrame A block).2 := by
  obtain ⟨consumed, hsamples, hwindows⟩ := h.covered
  have hwindows' := hwindows.window (List.length_take_of_le hlong)
  have haverages : average A p.smoothedDb (measure A (p.accum.take p.fftSize)) =
      averages A p.fftSize (windows ++ [p.accum.take p.fftSize]) := by
    rw [averages, List.foldl_concat, h.averaged, averages]
  refine ⟨⟨h.chained, ⟨_, ?_, hwindows'⟩, haverages, h.expected⟩, ?_⟩
  · show samplesOf run = _ ++ p.accum.drop p.fftSize
    rw [List.append_assoc, List.take_append_drop, hsamples]
  · refine ⟨windows, p.accum.take p.fftSize, _, ?_, hwindows', ?_⟩
    · refine ⟨p.accum.drop p.fftSize, ?_⟩
      rw [List.append_assoc, List.take_append_drop, hsamples]
    · rw [← haverages]
      rfl

/-- What a block leaves as it is. -/
structure SameSettings (p q : SpectrumPipeline α δ) : Prop where
  channelId : q.channelId = p.channelId
  input     : q.input = p.input
  fftSize   : q.fftSize = p.fftSize
  revision  : q.observationRevision = p.observationRevision
  earliest  : q.observationEarliest = p.observationEarliest

theorem Made.congr {run : List (ObservedBlock α)} {block : SampleBlock α}
    {p q : SpectrumPipeline α δ} {frame : SpectrumFrame δ} (hpq : SameSettings p q)
    (h : Made A run block q frame) : Made A run block p frame := by
  unfold Made at h ⊢
  rwa [hpq.channelId, hpq.fftSize, hpq.revision] at h

/-- The loop of the frames. -/
theorem Backlog.emitFrames {run : List (ObservedBlock α)} (block : SampleBlock α) (fuel : ℕ)
    {windows : List (List α)} {p : SpectrumPipeline α δ} (h : Backlog A run windows p) :
    (∃ windows', Backlog A run windows' (p.emitFrames A block fuel).1) ∧
      SameSettings p (p.emitFrames A block fuel).1 ∧
      ∀ frame ∈ (p.emitFrames A block fuel).2, Made A run block p frame := by
  induction fuel generalizing windows p with
  | zero => exact ⟨⟨windows, h⟩, ⟨rfl, rfl, rfl, rfl, rfl⟩, by simp [SpectrumPipeline.emitFrames]⟩
  | succ fuel ih =>
    unfold SpectrumPipeline.emitFrames
    by_cases hlong : p.fftSize ≤ p.accum.length
    · rw [if_pos hlong]
      obtain ⟨hnext, hmade⟩ := h.emitFrame block hlong
      obtain ⟨hbacklog, hsame, hframes⟩ := ih hnext
      have hstep : SameSettings p (p.emitFrame A block).1 := ⟨rfl, rfl, rfl, rfl, rfl⟩
      refine ⟨hbacklog, ⟨hsame.channelId, hsame.input, hsame.fftSize, hsame.revision,
        hsame.earliest⟩, fun frame hframe => ?_⟩
      obtain rfl | hrest := List.mem_cons.1 hframe
      · exact hmade
      · exact (hframes frame hrest).congr hstep
    · rw [if_neg hlong]
      exact ⟨⟨windows, h⟩, ⟨rfl, rfl, rfl, rfl, rfl⟩, by simp⟩

/-- The loop goes on until the backlog is shorter than a window: the fuel is enough. -/
theorem emitFrames_drained (block : SampleBlock α) (fuel : ℕ) {p : SpectrumPipeline α δ}
    (hfuel : p.accum.length ≤ fuel) :
    (p.emitFrames A block fuel).1.accum.length < p.fftSize := by
  induction fuel generalizing p with
  | zero =>
    have := p.fftSize_large
    show p.accum.length < p.fftSize
    omega
  | succ fuel ih =>
    have hlarge := p.fftSize_large
    unfold SpectrumPipeline.emitFrames
    by_cases hlong : p.fftSize ≤ p.accum.length
    · rw [if_pos hlong]
      refine ih (p := (p.emitFrame A block).1) ?_
      show (p.accum.drop p.fftSize).length ≤ fuel
      rw [List.length_drop]
      omega
    · rw [if_neg hlong]
      show p.accum.length < p.fftSize
      omega

theorem accept_settings (p : SpectrumPipeline α δ) (block : SampleBlock α) :
    SameSettings p (p.accept A block) := by
  unfold SpectrumPipeline.accept
  cases observe p.continuity block with
  | mk contiguous continuity => cases contiguous <;> exact ⟨rfl, rfl, rfl, rfl, rfl⟩

/-- A block leaves at most one window in the backlog, whether or not anyone subscribes. -/
theorem length_processBlock {p : SpectrumPipeline α δ} (h : p.accum.length ≤ p.fftSize)
    (b : ObservedBlock α) (subscribers : ℕ) :
    (p.processBlock A b subscribers).1.accum.length ≤ p.fftSize := by
  have hsize := (accept_settings (A := A) p b.block).fftSize
  unfold SpectrumPipeline.processBlock
  by_cases hunsettled : p.unsettled b = true
  · rw [if_pos hunsettled]
    exact h
  · rw [if_neg hunsettled]
    dsimp only
    by_cases hnone : subscribers = 0
    · rw [if_pos hnone]
      simp only [SpectrumPipeline.trim, List.length_drop, hsize]
      omega
    · rw [if_neg hnone]
      exact (emitFrames_drained b.block _ le_rfl).le.trans_eq hsize

/-- A block: it is passed over, or goes into the backlog and every frame is made of the run
    that it ends. -/
theorem Backlog.processBlock {run : List (ObservedBlock α)} {windows : List (List α)}
    {p : SpectrumPipeline α δ} (h : Backlog A run windows p) (b : ObservedBlock α)
    (subscribers : ℕ) :
    SameSettings p (p.processBlock A b subscribers).1 ∧
    ((p.unsettled b = true ∧ p.processBlock A b subscribers = (p, [])) ∨
    (p.unsettled b = false ∧ ∃ run' windows', (run' = run ++ [b] ∨ run' = [b]) ∧
      Backlog A run' windows' (p.processBlock A b subscribers).1 ∧
      ∀ frame ∈ (p.processBlock A b subscribers).2, Made A run' b.block p frame)) := by
  unfold SpectrumPipeline.processBlock
  by_cases hunsettled : p.unsettled b = true
  · rw [if_pos hunsettled]
    exact ⟨⟨rfl, rfl, rfl, rfl, rfl⟩, .inl ⟨hunsettled, rfl⟩⟩
  · rw [if_neg hunsettled]
    obtain ⟨run', windows', hrun, hbacklog⟩ := h.accept b
    have hsame := accept_settings (A := A) p b.block
    by_cases hnone : subscribers = 0
    · dsimp only
      rw [if_pos hnone]
      refine ⟨⟨hsame.channelId, hsame.input, hsame.fftSize, hsame.revision, hsame.earliest⟩,
        .inr ⟨by simpa using hunsettled, run', windows', hrun, hbacklog.trim _, by simp⟩⟩
    · dsimp only
      rw [if_neg hnone]
      have htrimmed := hbacklog.trim (maxSpectrumQueueFrames * (p.accept A b.block).fftSize)
      obtain ⟨⟨windows'', hbacklog'⟩, hsame', hframes⟩ := htrimmed.emitFrames b.block _
      have hall : SameSettings p ((p.accept A b.block).trim
          (maxSpectrumQueueFrames * (p.accept A b.block).fftSize)) :=
        ⟨hsame.channelId, hsame.input, hsame.fftSize, hsame.revision, hsame.earliest⟩
      refine ⟨⟨hsame'.channelId.trans hall.channelId, hsame'.input.trans hall.input,
        hsame'.fftSize.trans hall.fftSize, hsame'.revision.trans hall.revision,
        hsame'.earliest.trans hall.earliest⟩, .inr ⟨by simpa using hunsettled, run', windows'',
        hrun, hbacklog', fun frame hframe => (hframes frame hframe).congr hall⟩⟩

/-! ## Section 4: Runs -/

/-- The backlog is that of a run at the end of what was heard, and whatever was heard after an
    observation began came after the tuner had settled. -/
structure Inv (A : SpectrumArithmetic α δ) (n : ℕ) (h : List (Ev α δ))
    (p : SpectrumPipeline α δ) : Prop where
  size     : p.fftSize = n
  short    : p.accum.length ≤ n
  backlog  : ∃ run windows, run <:+ heard h ∧ Backlog A run windows p
  earliest : p.observationEarliest = (barrier h).map fun last => last.2 + settlingTime
  revision : p.observationRevision = ((barrier h).map fun last => last.1).getD 0
  settled  : ∀ b ∈ heard h, p.unsettled b = false

/-- An unbroken run has one centre and one rate. -/
theorem tuning_of_chain {run : List (ObservedBlock α)} {b : ObservedBlock α}
    (h : (run ++ [b]).IsChain Follows) :
    ∀ a ∈ run ++ [b], a.block.centerFreqHz = b.block.centerFreqHz ∧
      a.block.sampleRateHz = b.block.sampleRateHz := by
  intro a ha
  obtain hold | hlast := List.mem_append.1 ha
  · refine h.backwards_concat_induction (fun a => a.block.centerFreqHz = b.block.centerFreqHz ∧
      a.block.sampleRateHz = b.block.sampleRateHz) run ?_ ⟨rfl, rfl⟩ a hold
    intro x y hfollows hlater
    exact ⟨hfollows.center.symm.trans hlater.1, hfollows.rate.symm.trans hlater.2⟩
  · obtain rfl := List.mem_singleton.1 hlast
    exact ⟨rfl, rfl⟩

theorem barrier_append (h : List (Ev α δ)) (e : Ev α δ) :
    barrier (h ++ [e]) = match e.input with
      | .beginObservation revision now => some (revision, now)
      | _ => barrier h :=
  List.foldl_concat ..

theorem heard_append (h : List (Ev α δ)) (e : Ev α δ) :
    heard (h ++ [e]) = match e.input with
      | .beginObservation _ _ => []
      | .tick _ => heard h ++ (e.before.input.head?.filter fun b => !e.before.unsettled b).toList
      | _ => heard h :=
  List.foldl_concat ..

/-- Only the earliest time decides which blocks are passed over. -/
theorem unsettled_congr {p q : SpectrumPipeline α δ}
    (h : q.observationEarliest = p.observationEarliest) (b : ObservedBlock α) :
    q.unsettled b = p.unsettled b := by
  unfold SpectrumPipeline.unsettled
  rw [h]

/-- A step that neither hears a block nor begins an observation. -/
theorem Inv.idle {n : ℕ} {h : List (Ev α δ)} {p q : SpectrumPipeline α δ} {e : Ev α δ}
    (hinv : Inv A n h p) (hheard : heard (h ++ [e]) = heard h)
    (hbarrier : barrier (h ++ [e]) = barrier h) (hsize : q.fftSize = p.fftSize)
    (haccum : q.accum = p.accum) (hsmoothed : q.smoothedDb = p.smoothedDb)
    (hcontinuity : q.continuity = p.continuity)
    (hrevision : q.observationRevision = p.observationRevision)
    (hearliest : q.observationEarliest = p.observationEarliest) : Inv A n (h ++ [e]) q where
  size := hsize.trans hinv.size
  short := haccum ▸ hinv.short
  backlog := by
    obtain ⟨run, windows, hrun, hbacklog⟩ := hinv.backlog
    refine ⟨run, windows, hheard ▸ hrun, hbacklog.chained, ?_, ?_, ?_⟩
    · rw [haccum, hsize]
      exact hbacklog.covered
    · rw [hsmoothed, hsize]
      exact hbacklog.averaged
    · rw [hcontinuity]
      exact hbacklog.expected
  earliest := by rw [hearliest, hbarrier, hinv.earliest]
  revision := by rw [hrevision, hbarrier, hinv.revision]
  settled := fun b hb => (unsettled_congr hearliest b).trans (hinv.settled b (hheard ▸ hb))

/-- What was heard under an observation was observed after the settling time. -/
theorem Inv.observed {n : ℕ} {h : List (Ev α δ)} {p : SpectrumPipeline α δ}
    (hinv : Inv A n h p) (hrevision : p.observationRevision ≠ 0) :
    ∃ now, barrier h = some (p.observationRevision, now) ∧ ∀ b ∈ heard h,
      ∃ observed, b.observedAt = some observed ∧ now + settlingTime ≤ observed := by
  have hrev := hinv.revision
  cases hbarrier : barrier h with
  | none =>
    rw [hbarrier] at hrev
    exact absurd hrev hrevision
  | some last =>
    obtain ⟨revision, now⟩ := last
    rw [hbarrier] at hrev
    obtain rfl : p.observationRevision = revision := hrev
    refine ⟨now, rfl, fun b hb => ?_⟩
    have hsettled := hinv.settled b hb
    rw [SpectrumPipeline.unsettled, hinv.earliest, hbarrier] at hsettled
    cases hobserved : b.observedAt with
    | none =>
      rw [hobserved] at hsettled
      cases hsettled
    | some observed =>
      refine ⟨observed, rfl, ?_⟩
      rw [hobserved, Option.map_some, Option.any_some, Option.all_some] at hsettled
      exact Nat.le_of_not_lt (of_decide_eq_false hsettled)

/-- A step of the pipeline. -/
theorem Inv.step {n : ℕ} {h : List (Ev α δ)} {p p' : SpectrumPipeline α δ} {i : Input α}
    {frames : List (SpectrumFrame δ)} (hinv : Inv A n h p) (hstep : step A p i = some (p', frames)) :
    Inv A n (h ++ [⟨p, i, frames, p'⟩]) p' ∧
      ∀ frame ∈ frames, FrameLaw A n (h ++ [⟨p, i, frames, p'⟩]) frame := by
  cases i with
  | setChannelId id =>
    cases hstep
    exact ⟨hinv.idle (heard_append ..) (barrier_append ..) rfl rfl rfl rfl rfl rfl, by simp⟩
  | arrive b =>
    cases hstep
    exact ⟨hinv.idle (heard_append ..) (barrier_append ..) rfl rfl rfl rfl rfl rfl, by simp⟩
  | evict =>
    cases hstep
    exact ⟨hinv.idle (heard_append ..) (barrier_append ..) rfl rfl rfl rfl rfl rfl, by simp⟩
  | beginObservation revision now =>
    cases hstep
    refine ⟨⟨hinv.size, Nat.zero_le _, ⟨[], [], List.nil_suffix, backlog_flushed rfl rfl rfl⟩,
      ?_, ?_, ?_⟩, by simp⟩
    · rw [barrier_append]
      rfl
    · rw [barrier_append]
      rfl
    · intro b hb
      rw [heard_append] at hb
      cases hb
  | tick subscribers =>
    cases hinput : p.input with
    | nil =>
      simp only [Spectrum.step, hinput] at hstep
      cases hstep
      have hheard : heard (h ++ [⟨p, .tick subscribers, [], p⟩]) = heard h := by
        rw [heard_append]
        simp [hinput]
      exact ⟨hinv.idle hheard (barrier_append ..) rfl rfl rfl rfl rfl rfl, by simp⟩
    | cons b rest =>
      simp only [Spectrum.step, hinput, Option.some.injEq] at hstep
      obtain ⟨run, windows, hrun, hbacklog⟩ := hinv.backlog
      have hbacklog' : Backlog A run windows { p with input := rest } :=
        ⟨hbacklog.chained, hbacklog.covered, hbacklog.averaged, hbacklog.expected⟩
      obtain ⟨hsame, hcase⟩ := hbacklog'.processBlock b subscribers
      have hsize : ({ p with input := rest } : SpectrumPipeline α δ).fftSize = n := hinv.size
      have hshort := (length_processBlock (A := A) (p := { p with input := rest })
        (hinv.short.trans_eq hsize.symm) b subscribers).trans_eq hsize
      rw [hstep] at hsame hcase hshort
      have hbarrier : barrier (h ++ [⟨p, .tick subscribers, frames, p'⟩]) = barrier h :=
        barrier_append ..
      have hunsettled : p.unsettled b =
          ({ p with input := rest } : SpectrumPipeline α δ).unsettled b := rfl
      obtain ⟨htrue, hnothing⟩ | ⟨hfalse, run', windows', hrun', hafter, hframes⟩ := hcase
      · cases hnothing
        have hheard : heard (h ++ [⟨p, .tick subscribers, [], { p with input := rest }⟩]) =
            heard h := by
          rw [heard_append]
          simp [hinput, hunsettled, htrue]
        exact ⟨hinv.idle hheard hbarrier rfl rfl rfl rfl rfl rfl, by simp⟩
      · -- the block is heard, and the run it ends is at the end of what was heard
        have hheard : heard (h ++ [⟨p, .tick subscribers, frames, p'⟩]) = heard h ++ [b] := by
          rw [heard_append]
          simp [hinput, hunsettled, hfalse]
        have hsuffix : run' <:+ heard h ++ [b] := by
          obtain rfl | rfl := hrun'
          · exact List.suffix_append_inj_of_length_eq rfl |>.2 ⟨hrun, rfl⟩
          · exact List.suffix_append _ _
        have hinv' : Inv A n (h ++ [⟨p, .tick subscribers, frames, p'⟩]) p' := by
          refine ⟨hsame.fftSize.trans hsize, hshort, ⟨run', windows', hheard ▸ hsuffix, hafter⟩,
            ?_, ?_, fun b' hb' => ?_⟩
          · rw [hbarrier, ← hinv.earliest]
            exact hsame.earliest
          · rw [hbarrier, ← hinv.revision]
            exact hsame.revision
          · rw [unsettled_congr (p := p) hsame.earliest]
            rw [hheard] at hb'
            obtain hold | hnew := List.mem_append.1 hb'
            · exact hinv.settled b' hold
            · obtain rfl := List.mem_singleton.1 hnew
              exact hunsettled.trans hfalse
        refine ⟨hinv', fun frame hframe => ?_⟩
        obtain ⟨earlier, window, consumed, hconsumed, hwindows, rfl⟩ := hframes frame hframe
        rw [hsize] at hwindows
        refine ⟨run', earlier, window, consumed, hheard ▸ hsuffix, hafter.chained, ?_, hconsumed,
          hwindows, congrArg (averages A · (earlier ++ [window])) hsize, rfl, fun hrevision => ?_⟩
        · obtain rfl | rfl := hrun'
          · exact tuning_of_chain hafter.chained
          · have hone : ([] ++ [b]).IsChain Follows := hafter.chained
            exact tuning_of_chain hone
        · have hrevision' : p'.observationRevision = p.observationRevision := hsame.revision
          obtain ⟨now, hlast, hobserved⟩ := hinv'.observed (hrevision'.trans_ne hrevision)
          rw [hrevision'] at hlast
          exact ⟨now, hlast, fun b' hb' => hobserved b' (hheard ▸ hsuffix.subset hb')⟩

theorem inv_init (n : ℕ) : Inv A (max n 2) [] (SpectrumPipeline.new A n) where
  size := rfl
  short := Nat.zero_le _
  backlog := ⟨[], [], List.nil_suffix, backlog_flushed rfl rfl rfl⟩
  earliest := rfl
  revision := rfl
  settled := by
    intro b hb
    cases hb

variable (A)

theorem step_total (p : SpectrumPipeline α δ) (i : Input α) :
    ∃ next, Spectrum.step A p i = some next := by
  cases i with
  | tick subscribers =>
    cases hinput : p.input with
    | nil => exact ⟨(p, []), by simp only [Spectrum.step, hinput]⟩
    | cons b rest =>
      exact ⟨({ p with input := rest } : SpectrumPipeline α δ).processBlock A b subscribers,
        by simp only [Spectrum.step, hinput]⟩
  | _ => exact ⟨_, rfl⟩

/-- No step of a pipeline fails, every frame that it publishes is made as the law says, and no more
    than one window stays behind. -/
theorem frames_integral (n : ℕ) (inputs : List (Input α)) :
    ∃ t h, (machine A n).run (machine A n).init inputs = some (t, h) ∧
      t.accum.length ≤ max n 2 ∧
      ∀ past e later, h = past ++ e :: later → ∀ frame ∈ e.output,
        FrameLaw A (max n 2) (past ++ [e]) frame := by
  have hkeeps : ∀ h p i, Inv A (max n 2) h p → True → ∃ p' frames,
      (machine A n).step p i = some (p', frames) ∧ Inv A (max n 2) (h ++ [⟨p, i, frames, p'⟩]) p' ∧
        ∀ frame ∈ frames, FrameLaw A (max n 2) (h ++ [⟨p, i, frames, p'⟩]) frame := by
    intro h p i hinv _
    obtain ⟨⟨p', frames⟩, hstep⟩ := step_total A p i
    obtain ⟨hinv', hframes⟩ := hinv.step hstep
    exact ⟨p', frames, hstep, hinv', hframes⟩
  obtain ⟨t, h, hrun, hinv, hframes⟩ := (machine A n).run_safe_steps
    (Q := fun past e => ∀ frame ∈ e.output, FrameLaw A (max n 2) (past ++ [e]) frame)
    (inv_init n) hkeeps inputs (fun _ _ => trivial)
  exact ⟨t, h, hrun, hinv.short, hframes⟩

end

/-! ## Section 5: What a frame does not say -/

/-- Two points, real samples, and averages of equal parts. Decibels are those of the code for
    magnitudes that are powers of ten. -/
def twoPoint : SpectrumArithmetic ℤ ℚ where
  windowed _ i s := if i = 0 then 0 else s
  fft l := [l.getD 0 0 + l.getD 1 0, l.getD 0 0 - l.getD 1 0]
  decibels n c := if c = 0 then -120 else 20 * Nat.log 10 (c.natAbs / n)
  floor := -120
  smooth db last := (db + last) / 2

/-- A read of two samples at 48 kHz. -/
def pair (start observed : ℕ) : ObservedBlock ℤ where
  block :=
    { productSession := 1
      capture := none
      startSample := start
      sampleRateHz := 48000
      centerFreqHz := 100000000
      samples := [2, 2] }
  observedAt := some observed

/-- Times of acquisition that agree with the block: a sampling period apart, and none after the
    read was complete. -/
def AcquiredAt {α : Type*} (b : ObservedBlock α) (time : ℕ → ℚ) : Prop :=
  (∀ i, time (i + 1) = time i + 1000000000 / b.block.sampleRateHz) ∧
    ∀ observed, b.observedAt = some observed → ∀ i < b.block.samples.length, time i ≤ observed

/-- The bins of a frame are no function of one window: two equal windows in a row give different
    bins, as each is averaged with those before it. And a sample of a frame may have been acquired
    before the tuner settled: the time of its block is that of the end of the read. -/
theorem frame_beyond_window :
    (¬ ∃ F : List ℤ → List ℚ, ∀ inputs t h,
      (machine twoPoint 2).run (machine twoPoint 2).init inputs = some (t, h) →
      ∀ past e later, h = past ++ e :: later → ∀ frame ∈ e.output,
        ∃ window, window <:+: samplesOf (heard (past ++ [e])) ∧ window.length = 2 ∧
          frame.bins = F window) ∧
    ∃ inputs t h past e frame,
      (machine twoPoint 2).run (machine twoPoint 2).init inputs = some (t, h) ∧
      h = past ++ [e] ∧ e.output = [frame] ∧ frame.observationRevision = 7 ∧
      barrier h = some (7, 0) ∧ heard h = [pair 0 25000000] ∧
      ∀ time, AcquiredAt (pair 0 25000000) time → time 0 < (settlingTime : ℚ) := by
  constructor
  · intro h
    obtain ⟨F, hF⟩ := h
    let inputs : List (Input ℤ) :=
      [.arrive (pair 0 0), .tick 1, .arrive (pair 2 0), .tick 1]
    -- the two frames of this run, and the samples heard by then
    obtain ⟨t, e₀, e₁, e₂, e₃, f, f', hrun, hf, hf', hbins, hbins', hheard, hheard'⟩ :
        ∃ t e₀ e₁ e₂ e₃ f f',
          (machine twoPoint 2).run (machine twoPoint 2).init inputs = some (t, [e₀, e₁, e₂, e₃]) ∧
          e₁.output = [f] ∧ e₃.output = [f'] ∧ f.bins = [-60, -60] ∧ f'.bins = [-30, -30] ∧
          heard [e₀, e₁] = [pair 0 0] ∧ heard [e₀, e₁, e₂, e₃] = [pair 0 0, pair 2 0] := by
      refine ⟨_, _, _, _, _, _, _, rfl, rfl, rfl, ?_, ?_, rfl, rfl⟩
      · decide +kernel
      · decide +kernel
    obtain ⟨w, hw, hlength, hFw⟩ := hF inputs t _ hrun [e₀] e₁ [e₂, e₃] rfl f (by simp [hf])
    obtain ⟨w', hw', hlength', hFw'⟩ :=
      hF inputs t _ hrun [e₀, e₁, e₂] e₃ [] rfl f' (by simp [hf'])
    -- every window of either run of samples is the same
    have hall : ∀ k, ∀ v : List ℤ, v <:+: List.replicate k 2 → v.length = 2 → v = [2, 2] := by
      intro k v hv hv2
      rw [List.eq_replicate_of_mem fun x hx => List.eq_of_mem_replicate (hv.subset hx), hv2]
      rfl
    have hsamples : samplesOf (heard ([e₀] ++ [e₁])) = List.replicate 2 2 := by
      rw [show [e₀] ++ [e₁] = [e₀, e₁] from rfl, hheard]
      rfl
    have hsamples' : samplesOf (heard ([e₀, e₁, e₂] ++ [e₃])) = List.replicate 4 2 := by
      rw [show [e₀, e₁, e₂] ++ [e₃] = [e₀, e₁, e₂, e₃] from rfl, hheard']
      rfl
    rw [hall 2 w (hsamples ▸ hw) hlength, hbins] at hFw
    rw [hall 4 w' (hsamples' ▸ hw') hlength', hbins', ← hFw] at hFw'
    simp at hFw'
  · obtain ⟨t, e₀, e₁, e₂, frame, hrun, hframe, hrevision, hbarrier, hheard⟩ :
        ∃ t e₀ e₁ e₂ frame, (machine twoPoint 2).run (machine twoPoint 2).init
            [.beginObservation 7 0, .arrive (pair 0 25000000), .tick 1] = some (t, [e₀, e₁, e₂]) ∧
          e₂.output = [frame] ∧ frame.observationRevision = 7 ∧
          barrier [e₀, e₁, e₂] = some (7, 0) ∧ heard [e₀, e₁, e₂] = [pair 0 25000000] := by
      refine ⟨_, _, _, _, _, rfl, rfl, ?_, rfl, rfl⟩
      decide +kernel
    refine ⟨_, t, [e₀, e₁, e₂], [e₀, e₁], e₂, frame, hrun, rfl, hframe, hrevision, hbarrier,
      hheard, fun time htime => ?_⟩
    obtain ⟨hperiod, hobserved⟩ := htime
    have hlast := hobserved 25000000 rfl 1 (by decide)
    have hnext := hperiod 0
    have hrate : ((pair 0 25000000).block.sampleRateHz : ℚ) = 48000 := by
      show ((48000 : ℕ) : ℚ) = 48000
      norm_num
    rw [zero_add, hrate] at hnext
    rw [show settlingTime = 25000000 from rfl]
    push_cast at hlast ⊢
    linarith

end Spectrum
