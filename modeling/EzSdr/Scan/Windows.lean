import EzSdr.Scan.Analyzer

/-! # Integrity of Measurements

    A spectrum comes back from the worker after any number of resets. Its stamp
    tells whether it still counts. The invariant follows every window from the
    ring through both channels: **`measurement_integrity`** says that what is
    recorded in the end was computed from consecutive samples of one unbroken
    run, taken under the context and the revision of the stamp and after the
    last scan boundary. -/

namespace Observation

open Ingest (CaptureClock)

variable {σ δ : Type}

/-! ## Section 1: What was pushed -/

/-- A push, with the context and the revision it was made under. -/
structure Fed (σ : Type) where
  iq           : List σ
  clock        : CaptureClock
  inputSamples : ℕ
  observedAt   : ℕ
  context      : SpectrumContext
  revision     : ℕ

/-- The samples with the time they were observed at. -/
def Fed.timed (f : Fed σ) : List (σ × ℕ) := f.iq.map fun sample => (sample, f.observedAt)

/-- The second push takes up where the first one ends. -/
def Continues (f g : Fed σ) : Prop :=
  g.clock.discontinuous = false ∧
    SpectrumAnalyzer.continuation f.clock f.inputSamples = some g.clock

/-- Pushes without a gap, all under one context and one revision, and none of
    them before the boundary. -/
structure Run (context : SpectrumContext) (revision : ℕ) (earliest : Option ℕ)
    (run : List (Fed σ)) : Prop where
  chain    : run.IsChain Continues
  labelled : ∀ f ∈ run, f.context = context ∧ f.revision = revision
  settled  : ∀ f ∈ run, ∀ e, earliest = some e → e ≤ f.observedAt

/-- The samples are consecutive ones of a run in `pushes` that has the context and the
    revision of the stamp, and the stamp has the time of the first one. -/
def WindowOf (pushes : List (Fed σ)) (earliest : Option ℕ) (stamp : ObservationStamp)
    (samples : List σ) : Prop :=
  ∃ front run back window, pushes = front ++ run ++ back ∧
    Run stamp.context stamp.revision earliest run ∧ window <:+: run.flatMap Fed.timed ∧
    window.map Prod.fst = samples ∧ (window.head?.map Prod.snd) = some stamp.windowStartedAt

theorem WindowOf.mono {pushes : List (Fed σ)} {earliest : Option ℕ} {stamp : ObservationStamp}
    {samples : List σ} (h : WindowOf pushes earliest stamp samples) (more : List (Fed σ)) :
    WindowOf (pushes ++ more) earliest stamp samples := by
  obtain ⟨front, run, back, window, rfl, hrest⟩ := h
  exact ⟨front, run, back ++ more, window, by simp only [List.append_assoc], hrest⟩

/-! ## Section 2: The worker -/

variable (A : AnalyzerArithmetic σ δ)

/-- All windows on their way satisfy `P`, and the spectra were computed from such windows. -/
structure Holding (P : ObservationStamp → List σ → Prop) (w : SpectrumWorker σ δ) : Prop where
  queued  : ∀ i ∈ w.iq.items, P i.stamp i.samples
  busy    : ∀ i, w.busy = some i → P i.stamp i.samples
  spectra : ∀ f ∈ w.spectra.items, ∃ samples, f.bins = A.transform w.window samples ∧
    samples.length = w.fftSize ∧ P f.stamp samples

variable {A} {P P' : ObservationStamp → List σ → Prop} {w : SpectrumWorker σ δ}

theorem holding_new (fftSize : ℕ) (window : WindowType) :
    Holding A P (.new fftSize window) where
  queued := fun _ hi => absurd hi List.not_mem_nil
  busy := fun _ hi => by cases hi
  spectra := fun _ hf => absurd hf List.not_mem_nil

theorem Holding.mono (h : Holding A P w) (himp : ∀ stamp samples, P stamp samples →
    P' stamp samples) : Holding A P' w where
  queued := fun i hi => himp _ _ (h.queued i hi)
  busy := fun i hi => himp _ _ (h.busy i hi)
  spectra := by
    intro f hf
    obtain ⟨samples, hbins, hlength, hP⟩ := h.spectra f hf
    exact ⟨samples, hbins, hlength, himp _ _ hP⟩

/-- What a queue holds after an attempt to send. -/
theorem mem_trySend {α : Type} {q : BoundedQueue α} {a b : α}
    (h : b ∈ ((q.trySend a).getD q).items) : b ∈ q.items ∨ b = a := by
  cases hsent : q.trySend a with
  | none =>
    rw [hsent] at h
    exact .inl h
  | some q' =>
    rw [hsent, Option.getD_some, (BoundedQueue.trySend_eq_some hsent).1] at h
    simpa using h

theorem Holding.trySendIq (h : Holding A P w) {input : FftInput σ}
    (hinput : P input.stamp input.samples) : Holding A P (w.trySendIq input) where
  queued := by
    intro i hi
    rcases mem_trySend hi with hold | rfl
    · exact h.queued i hold
    · exact hinput
  busy := h.busy
  spectra := h.spectra

theorem Holding.receive (h : Holding A P w) : Holding A P w.receive := by
  unfold SpectrumWorker.receive
  cases hrecv : w.iq.tryRecv with
  | none => exact h
  | some received =>
    have hrecv' : w.iq.tryRecv = some (received.1, received.2) := hrecv
    obtain ⟨hitems, -⟩ := BoundedQueue.tryRecv_eq_some hrecv'
    refine ⟨fun i hi => h.queued i ?_, fun i hi => ?_, h.spectra⟩
    · rw [hitems]
      exact List.mem_cons_of_mem _ hi
    · obtain rfl := Option.some.inj hi
      exact h.queued _ (hitems ▸ List.mem_cons_self)

/-- A spectrum is computed from the window the thread holds. -/
theorem Holding.finish (h : Holding A P w) : Holding A P (w.finish A) := by
  unfold SpectrumWorker.finish
  cases hbusy : w.busy with
  | none => exact h
  | some input =>
    dsimp only
    by_cases hsize : input.samples.length ≠ w.fftSize
    · rw [if_pos hsize]
      exact ⟨h.queued, fun _ hi => (by cases hi), h.spectra⟩
    · rw [if_neg hsize]
      refine ⟨h.queued, fun _ hi => (by cases hi), fun f hf => ?_⟩
      rcases mem_trySend hf with hold | rfl
      · exact h.spectra f hold
      · exact ⟨input.samples, rfl, not_not.1 hsize, h.busy input hbusy⟩

theorem Holding.steps (steps : List WorkerStep) (h : Holding A P w) :
    Holding A P (steps.foldl (SpectrumWorker.step A) w) := by
  induction steps generalizing w with
  | nil => exact h
  | cons step rest ih =>
    cases step with
    | receive => exact ih h.receive
    | transform => exact ih h.finish

/-- The worker computes for the same size and with the same window. -/
theorem steps_same (steps : List WorkerStep) (w : SpectrumWorker σ δ) :
    (steps.foldl (SpectrumWorker.step A) w).fftSize = w.fftSize ∧
    (steps.foldl (SpectrumWorker.step A) w).window = w.window := by
  induction steps generalizing w with
  | nil => exact ⟨rfl, rfl⟩
  | cons step rest ih =>
    have hone : (w.step A step).fftSize = w.fftSize ∧ (w.step A step).window = w.window := by
      cases step with
      | receive =>
        unfold SpectrumWorker.step SpectrumWorker.receive
        cases w.iq.tryRecv <;> exact ⟨rfl, rfl⟩
      | transform =>
        unfold SpectrumWorker.step SpectrumWorker.finish
        cases w.busy with
        | none => exact ⟨rfl, rfl⟩
        | some input =>
          by_cases hsize : input.samples.length ≠ w.fftSize
          · simp only [if_pos hsize, and_self]
          · simp only [if_neg hsize, and_self]
    obtain ⟨hsize, hwindow⟩ := ih (w.step A step)
    exact ⟨hsize.trans hone.1, hwindow.trans hone.2⟩

/-! ## Section 3: The invariant -/

/-- A window on its way. If it is of the current revision, then its boundary and its context
    are the current ones. -/
def Pending (pushes : List (Fed σ)) (s : SpectrumAnalyzer σ δ) (stamp : ObservationStamp)
    (samples : List σ) : Prop :=
  stamp.revision ≤ s.streamRevision ∧ ∃ earliest, WindowOf pushes earliest stamp samples ∧
    (stamp.revision = s.streamRevision →
      earliest = s.earliestObservation ∧ s.inputContext = some stamp.context)

variable (A)

/-- `run` is what was pushed since the last reset, apart from what came before the boundary;
    `front` was pushed earlier. -/
structure Stream (front run : List (Fed σ)) (s : SpectrumAnalyzer σ δ) : Prop where
  unbroken : run = [] ∨ ∃ context, s.inputContext = some context ∧
    Run context s.streamRevision s.earliestObservation run
  ring     : s.iqRing.Holds (run.flatMap Fed.timed)
  holding  : Holding A (Pending (front ++ run) s) s.worker
  size     : s.worker.fftSize = s.fftSize
  window   : s.worker.window = s.windowType

/-- Between two events, the next block is expected where the run ends. -/
def Sound (pushes : List (Fed σ)) (s : SpectrumAnalyzer σ δ) : Prop :=
  ∃ front run, pushes = front ++ run ∧ Stream A front run s ∧
    ∀ f ∈ run.getLast?, s.nextCapture = SpectrumAnalyzer.continuation f.clock f.inputSamples

/-- A block that is about to be pushed continues the run. -/
def Awaiting (pushes : List (Fed σ)) (clock : CaptureClock) (s : SpectrumAnalyzer σ δ) : Prop :=
  ∃ front run, pushes = front ++ run ∧ Stream A front run s ∧
    ∀ f ∈ run.getLast?, clock.discontinuous = false ∧
      SpectrumAnalyzer.continuation f.clock f.inputSamples = some clock

variable {A} {pushes front run : List (Fed σ)} {s s' : SpectrumAnalyzer σ δ} {clock : CaptureClock}

theorem Pending.mono {stamp : ObservationStamp} {samples : List σ}
    (h : Pending pushes s stamp samples) (more : List (Fed σ)) :
    Pending (pushes ++ more) s stamp samples := by
  obtain ⟨hle, earliest, hwindow, hcurrent⟩ := h
  exact ⟨hle, earliest, hwindow.mono more, hcurrent⟩

/-- Two states with the same stream. -/
structure SameStream (s s' : SpectrumAnalyzer σ δ) : Prop where
  revision : s'.streamRevision = s.streamRevision
  context  : s'.inputContext = s.inputContext
  boundary : s'.earliestObservation = s.earliestObservation
  ring     : s'.iqRing = s.iqRing
  window   : s'.windowType = s.windowType

theorem SameStream.pending (h : SameStream s s') {stamp : ObservationStamp} {samples : List σ}
    (hp : Pending pushes s stamp samples) : Pending pushes s' stamp samples := by
  unfold Pending
  rw [h.revision, h.boundary, h.context]
  exact hp

/-- The stream is untouched, and the windows on their way are those of before. -/
theorem Stream.of_same (hs : Stream A front run s) (h : SameStream s s')
    (hworker : Holding A (Pending (front ++ run) s) s'.worker)
    (hsize : s'.worker.fftSize = s.worker.fftSize)
    (hwindow : s'.worker.window = s.worker.window) : Stream A front run s' where
  unbroken := by
    rw [h.context, h.revision, h.boundary]
    exact hs.unbroken
  ring := by
    rw [h.ring]
    exact hs.ring
  holding := hworker.mono fun _ _ => h.pending
  size := (hsize.trans hs.size).trans (congrArg RingBuffer.size h.ring).symm
  window := (hwindow.trans hs.window).trans h.window.symm

theorem Stream.congr (hs : Stream A front run s) (h : SameStream s s')
    (hworker : s'.worker = s.worker) : Stream A front run s' :=
  hs.of_same h (hworker ▸ hs.holding) (congrArg _ hworker) (congrArg _ hworker)

theorem Sound.congr (hs : Sound A pushes s) (h : SameStream s s')
    (hworker : s'.worker = s.worker) (hcapture : s'.nextCapture = s.nextCapture) :
    Sound A pushes s' := by
  obtain ⟨front, run, hpushes, hstream, hlast⟩ := hs
  refine ⟨front, run, hpushes, hstream.congr h hworker, ?_⟩
  rw [hcapture]
  exact hlast

theorem Awaiting.congr (hs : Awaiting A pushes clock s) (h : SameStream s s')
    (hworker : s'.worker = s.worker) : Awaiting A pushes clock s' := by
  obtain ⟨front, run, hpushes, hstream, hlast⟩ := hs
  exact ⟨front, run, hpushes, hstream.congr h hworker, hlast⟩

/-- After a reset, all windows on their way are of older revisions. -/
theorem stream_of_reset (hrevision : s.streamRevision < s'.streamRevision)
    (hring : s'.iqRing.Holds []) (hworker : Holding A (Pending pushes s) s'.worker)
    (hsize : s'.worker.fftSize = s'.fftSize) (hwindow : s'.worker.window = s'.windowType) :
    Stream A pushes [] s' where
  unbroken := .inl rfl
  ring := hring
  holding := by
    refine hworker.mono fun stamp samples hp => ?_
    obtain ⟨hle, earliest, hw, -⟩ := hp
    rw [List.append_nil]
    exact ⟨by omega, earliest, hw, fun hcurrent => absurd hcurrent (by omega)⟩
  size := hsize
  window := hwindow

theorem Stream.sound (hs : Stream A pushes [] s) : Sound A pushes s :=
  ⟨pushes, [], (List.append_nil _).symm, hs, fun f hf => by cases hf⟩

theorem Stream.awaiting (hs : Stream A pushes [] s) : Awaiting A pushes clock s :=
  ⟨pushes, [], (List.append_nil _).symm, hs, fun f hf => by cases hf⟩

theorem Stream.resetStream (hs : Stream A front run s) :
    Stream A (front ++ run) [] s.resetStream :=
  stream_of_reset (Nat.lt_succ_self _) (RingBuffer.holds_clear _) hs.holding hs.size hs.window

theorem Sound.stream_reset (hs : Sound A pushes s) : Stream A pushes [] s.resetStream := by
  obtain ⟨front, run, rfl, hstream, -⟩ := hs
  exact hstream.resetStream

theorem Sound.reset_if (hs : Sound A pushes s) (c : Prop) [Decidable c] :
    Sound A pushes (if c then s.resetStream else s) := by
  split
  · exact hs.stream_reset.sound
  · exact hs

theorem Sound.synchronize (hs : Sound A pushes s) :
    Sound A pushes s.synchronizeObservationContext := by
  unfold SpectrumAnalyzer.synchronizeObservationContext
  split
  · exact hs
  · exact hs.stream_reset.sound

theorem Sound.updateParams (hs : Sound A pushes s) (centerFreq : ℕ) (sampleRate : ℚ) :
    Sound A pushes (s.updateParamsExact centerFreq sampleRate) := by
  have hreset := hs.reset_if (centerFreq ≠ s.centerFreq ∨
    (if 0 < sampleRate then sampleRate else 1) ≠ s.sampleRate)
  exact hreset.congr ⟨rfl, rfl, rfl, rfl, rfl⟩ rfl rfl

theorem Sound.setFftSize (hs : Sound A pushes s) (size now : ℕ) :
    Sound A pushes (s.setFftSize A size now) := by
  unfold SpectrumAnalyzer.setFftSize
  split
  · next hvalid =>
    split
    · exact hs
    · have hnew : Stream A pushes [] (SpectrumAnalyzer.resetStream { s with
          iqRing := .replicate size (A.zero, now) (pos_of_validFftSize hvalid)
          worker := .new size s.windowType }) :=
        stream_of_reset (s := s) (Nat.lt_succ_self _) (RingBuffer.holds_clear _)
          (holding_new _ _)
          (RingBuffer.size_replicate size (A.zero, now) (pos_of_validFftSize hvalid)).symm rfl
      exact hnew.sound
  · exact hs

/-- A new worker has nothing on its way. -/
theorem Sound.setWindow (hs : Sound A pushes s) (window : WindowType) :
    Sound A pushes (s.setWindow window) := by
  unfold SpectrumAnalyzer.setWindow
  split
  · exact hs
  · obtain ⟨front, run, hpushes, hstream, hlast⟩ := hs
    exact ⟨front, run, hpushes, ⟨hstream.unbroken, hstream.ring, holding_new _ _, rfl, rfl⟩, hlast⟩

theorem Stream.work (hs : Stream A front run s) (steps : List WorkerStep) :
    Stream A front run (s.workerSteps A steps) :=
  hs.of_same ⟨rfl, rfl, rfl, rfl, rfl⟩ (hs.holding.steps steps) (steps_same steps s.worker).1
    (steps_same steps s.worker).2

theorem Sound.work (hs : Sound A pushes s) (steps : List WorkerStep) :
    Sound A pushes (s.workerSteps A steps) := by
  obtain ⟨front, run, hpushes, hstream, hlast⟩ := hs
  exact ⟨front, run, hpushes, hstream.work steps, hlast⟩

/-! ## Section 4: Spectra that come back -/

variable (A) in
/-- The spectrum `bins` was recorded with the measurement of `s'`. -/
structure Recorded (s s' : SpectrumAnalyzer σ δ) (bins : List δ) (stamp : ObservationStamp) :
    Prop where
  revision    : stamp.revision = s.streamRevision
  context     : stamp.context = s.observationContext
  measurement : s'.measurement = some (stamp.context,
    { sequence := s.measurementSequence + 1
      windowStartedAt := stamp.windowStartedAt
      observedAt := stamp.observedAt
      peakDb := s.passbandPeak A bins })
  sequence    : s'.measurementSequence = s.measurementSequence + 1

/-- A frame is recorded with its stamp, or nothing happens. -/
theorem observeFrame_cases (s : SpectrumAnalyzer σ δ) (bins : List δ) (stamp : ObservationStamp) :
    s.observeFrame A bins stamp = s ∨ Recorded A s (s.observeFrame A bins stamp) bins stamp := by
  unfold SpectrumAnalyzer.observeFrame
  split
  · exact .inl rfl
  · next hstamp =>
    obtain ⟨hrevision, hcontext, -⟩ := not_or.1 hstamp |>.imp not_not.1 not_or.1
    split
    · exact .inl rfl
    · exact .inr ⟨hrevision, not_not.1 hcontext, rfl, rfl⟩

/-- Only the measurement changes. -/
theorem observeFrame_same (s : SpectrumAnalyzer σ δ) (bins : List δ) (stamp : ObservationStamp) :
    ∃ measurement sequence, s.observeFrame A bins stamp =
      { s with measurement := measurement, measurementSequence := sequence } := by
  unfold SpectrumAnalyzer.observeFrame
  split
  · exact ⟨s.measurement, s.measurementSequence, rfl⟩
  · split
    · exact ⟨s.measurement, s.measurementSequence, rfl⟩
    · exact ⟨_, _, rfl⟩

/-- The worker has fewer spectra, and the newest may have been recorded. -/
theorem tryRecv_same (s : SpectrumAnalyzer σ δ) :
    ∃ measurement sequence, s.tryRecvSpectrum A =
      { s with
        worker := s.worker.tryRecvSpectrum.2
        measurement := measurement
        measurementSequence := sequence } := by
  unfold SpectrumAnalyzer.tryRecvSpectrum
  split
  next frame worker hrecv =>
    rw [hrecv]
    cases frame with
    | none => exact ⟨s.measurement, s.measurementSequence, rfl⟩
    | some frame =>
      dsimp only
      unfold SpectrumAnalyzer.applyFrame
      split
      · exact ⟨s.measurement, s.measurementSequence, rfl⟩
      · exact observeFrame_same _ _ _

theorem tryRecv_cases (s : SpectrumAnalyzer σ δ) :
    ((s.tryRecvSpectrum A).measurement = s.measurement ∧
      (s.tryRecvSpectrum A).measurementSequence = s.measurementSequence) ∨
    ∃ frame ∈ s.worker.spectra.items, frame.bins.length = s.fftSize ∧
      Recorded A s (s.tryRecvSpectrum A) frame.bins frame.stamp := by
  unfold SpectrumAnalyzer.tryRecvSpectrum
  split
  next frame worker hrecv =>
    cases frame with
    | none => exact .inl ⟨rfl, rfl⟩
    | some frame =>
      have hmem : frame ∈ s.worker.spectra.items := by
        unfold SpectrumWorker.tryRecvSpectrum at hrecv
        exact List.mem_of_getLast? (congrArg Prod.fst hrecv)
      dsimp only
      unfold SpectrumAnalyzer.applyFrame
      split
      · exact .inl ⟨rfl, rfl⟩
      · next hframe =>
        rcases observeFrame_cases (A := A) { s with worker := worker } frame.bins frame.stamp
          with hsame | hrec
        · rw [hsame]
          exact .inl ⟨rfl, rfl⟩
        · have hlength : frame.bins.length = s.fftSize :=
            not_not.1 (not_or.1 (not_or.1 (not_or.1 hframe).2).2).1
          exact .inr ⟨frame, hmem, hlength, ⟨hrec.revision, hrec.context, hrec.measurement,
            hrec.sequence⟩⟩

theorem Holding.tryRecv (h : Holding A P w) : Holding A P w.tryRecvSpectrum.2 where
  queued := h.queued
  busy := h.busy
  spectra := fun _ hf => absurd hf List.not_mem_nil

theorem Stream.tryRecv (hs : Stream A front run s) : Stream A front run (s.tryRecvSpectrum A) := by
  obtain ⟨measurement, sequence, heq⟩ := tryRecv_same (A := A) s
  rw [heq]
  exact hs.of_same ⟨rfl, rfl, rfl, rfl, rfl⟩ hs.holding.tryRecv rfl rfl

theorem Awaiting.tryRecv (hs : Awaiting A pushes clock s) :
    Awaiting A pushes clock (s.tryRecvSpectrum A) := by
  obtain ⟨front, run, hpushes, hstream, hlast⟩ := hs
  exact ⟨front, run, hpushes, hstream.tryRecv, hlast⟩

theorem Sound.tryRecv (hs : Sound A pushes s) : Sound A pushes (s.tryRecvSpectrum A) := by
  obtain ⟨front, run, hpushes, hstream, hlast⟩ := hs
  refine ⟨front, run, hpushes, hstream.tryRecv, ?_⟩
  obtain ⟨measurement, sequence, heq⟩ := tryRecv_same (A := A) s
  rw [heq]
  exact hlast

variable (A) in
/-- **The measurement is of its stamp's window**: the spectrum of as many consecutive samples as
    the FFT has, which were taken in the context and the revision of the state. -/
def Measured (pushes : List (Fed σ)) (earliest : Option ℕ) (s : SpectrumAnalyzer σ δ)
    (context : SpectrumContext) (m : SpectrumMeasurement δ) : Prop :=
  ∃ stamp samples, stamp.context = context ∧ stamp.revision = s.streamRevision ∧
    context = s.observationContext ∧ stamp.windowStartedAt = m.windowStartedAt ∧
    stamp.observedAt = m.observedAt ∧ samples.length = s.fftSize ∧
    WindowOf pushes earliest stamp samples ∧
    m.peakDb = s.passbandPeak A (A.transform s.windowType samples)

/-- What is recorded comes from a window on its way, and is of the current stream. -/
theorem Stream.measured (hs : Stream A front run s) {frame : SpectrumFrame δ}
    (hframe : frame ∈ s.worker.spectra.items)
    (hrec : Recorded A s s' frame.bins frame.stamp) :
    s.inputContext = some s.observationContext ∧ ∃ m, s'.measurement = some (s.observationContext, m)
      ∧ Measured A (front ++ run) s.earliestObservation s s.observationContext m := by
  obtain ⟨samples, hbins, hlength, -, earliest, hwindow, hcurrent⟩ := hs.holding.spectra frame hframe
  obtain ⟨rfl, hcontext⟩ := hcurrent hrec.revision
  rw [hrec.context] at hcontext
  refine ⟨hcontext, _, by rw [hrec.measurement, hrec.context], frame.stamp, samples, hrec.context,
    hrec.revision, rfl, rfl, rfl, hlength.trans hs.size, hwindow, ?_⟩
  rw [hbins, hs.window]

/-! ## Section 5: The samples of a push -/

variable (A) in
/-- The samples `done` of the push `f` have been written, after those of `run`. -/
structure Feeding (front run : List (Fed σ)) (f : Fed σ) (done : List σ)
    (s : SpectrumAnalyzer σ δ) : Prop where
  unbroken : Run f.context f.revision s.earliestObservation (run ++ [f])
  revision : f.revision = s.streamRevision
  context  : f.context = s.observationContext
  input    : s.inputContext = some f.context
  observed : s.inputObservedAt = f.observedAt
  written  : done <+: f.iq
  ring     : s.iqRing.Holds (run.flatMap Fed.timed ++ done.map fun sample => (sample, f.observedAt))
  holding  : Holding A (Pending (front ++ run ++ [f]) s) s.worker
  size     : s.worker.fftSize = s.fftSize
  window   : s.worker.window = s.windowType

variable {f : Fed σ} {done : List σ}

/-- A push touches the ring, the worker and the countdown. -/
def Touches (s s' : SpectrumAnalyzer σ δ) : Prop :=
  ∃ ring worker samplesUntil, ring.size = s.fftSize ∧ s' =
    { s with iqRing := ring, worker := worker, samplesUntilFft := samplesUntil }

theorem Touches.refl (s : SpectrumAnalyzer σ δ) : Touches s s :=
  ⟨s.iqRing, s.worker, s.samplesUntilFft, rfl, rfl⟩

theorem Touches.trans {s'' : SpectrumAnalyzer σ δ} (h : Touches s s') (h' : Touches s' s'') :
    Touches s s'' := by
  obtain ⟨ring, worker, samplesUntil, hsize, rfl⟩ := h
  obtain ⟨ring', worker', samplesUntil', hsize', rfl⟩ := h'
  exact ⟨ring', worker', samplesUntil', hsize'.trans hsize, rfl⟩

/-- The countdown does not matter. -/
theorem Feeding.countdown (h : Feeding A front run f done s) (samplesUntil : ℕ) :
    Feeding A front run f done { s with samplesUntilFft := samplesUntil } :=
  ⟨h.unbroken, h.revision, h.context, h.input, h.observed, h.written, h.ring, h.holding, h.size,
    h.window⟩

theorem Feeding.work (h : Feeding A front run f done s) (steps : List WorkerStep) :
    Feeding A front run f done (s.workerSteps A steps) :=
  ⟨h.unbroken, h.revision, h.context, h.input, h.observed, h.written, h.ring, h.holding.steps steps,
    (steps_same steps s.worker).1.trans h.size, (steps_same steps s.worker).2.trans h.window⟩

/-- **A full ring holds a window of the run**, which ends in the push that is under way. -/
theorem Feeding.fftInput (h : Feeding A front run f done s) (hfull : s.iqRing.filled = s.fftSize) :
    Pending (front ++ run ++ [f]) s s.fftInput.stamp s.fftInput.samples := by
  have hsuffix := h.ring.window_suffix hfull
  have hfront : run.flatMap Fed.timed ++ done.map (fun sample => (sample, f.observedAt)) <+:
      (run ++ [f]).flatMap Fed.timed := by
    rw [List.flatMap_append, List.flatMap_singleton]
    obtain ⟨rest, hrest⟩ := h.written
    refine (List.prefix_append_right_inj _).2 ⟨rest.map fun sample => (sample, f.observedAt), ?_⟩
    unfold Fed.timed
    rw [← hrest, List.map_append]
  refine ⟨le_refl _, s.earliestObservation, ⟨front, run ++ [f], [], s.iqRing.window, ?_, ?_,
    hsuffix.isInfix.trans hfront.isInfix, rfl, ?_⟩, fun _ => ⟨rfl, ?_⟩⟩
  · rw [List.append_nil, List.append_assoc]
  · have hrun := h.unbroken
    rw [h.context, h.revision] at hrun
    exact hrun
  · rw [RingBuffer.head_window, Option.map_some]
    rfl
  · rw [h.input, h.context]
    rfl

theorem Feeding.transform (h : Feeding A front run f done s)
    (hfull : s.iqRing.filled = s.fftSize) : Feeding A front run f done s.transformIqWindow :=
  ⟨h.unbroken, h.revision, h.context, h.input, h.observed, h.written, h.ring,
    h.holding.trySendIq (h.fftInput hfull), h.size, h.window⟩

theorem Feeding.write (h : Feeding A front run f done s) {sample : σ}
    (hnext : done ++ [sample] <+: f.iq) :
    Feeding A front run f (done ++ [sample]) (s.writeSample sample) where
  unbroken := h.unbroken
  revision := h.revision
  context := h.context
  input := h.input
  observed := h.observed
  written := hnext
  ring := by
    have hpush := h.ring.push (sample, s.inputObservedAt)
    rw [h.observed, List.append_assoc] at hpush
    rw [List.map_append, List.map_singleton, ← h.observed]
    rw [← h.observed] at hpush
    exact hpush
  holding := h.holding
  size := h.size.trans (RingBuffer.size_push _ _).symm
  window := h.window

variable (A) in
/-- A push under way. A window that is due once more can be cut at the end. -/
structure Underway (front run : List (Fed σ)) (f : Fed σ) (done : List σ) (p : Push σ δ) :
    Prop where
  feeding : Feeding A front run f done p.analyzer
  full    : p.latestDue = true → p.analyzer.iqRing.filled = p.analyzer.fftSize
  counted : p.submitted.length = p.transformed ∧ p.transformed ≤ maxFftsPerPush - 1

variable {p : Push σ δ}

theorem Underway.work (h : Underway A front run f done p) (steps : List WorkerStep) :
    Underway A front run f done (p.work A steps) :=
  ⟨h.feeding.work steps, h.full, h.counted⟩

theorem length_submit (p : Push σ δ) : p.submit.submitted.length = p.submitted.length + 1 :=
  List.length_append

theorem Underway.pushComplexSample (h : Underway A front run f done p) {sample : σ}
    (hnext : done ++ [sample] <+: f.iq) :
    Underway A front run f (done ++ [sample]) (p.pushComplexSample sample) := by
  have hwrite := h.feeding.write hnext
  unfold Push.pushComplexSample
  by_cases hdue : (p.analyzer.writeSample sample).iqRing.filled =
      (p.analyzer.writeSample sample).fftSize ∧ (p.analyzer.writeSample sample).samplesUntilFft = 0
  · have hnow := hwrite.countdown (p.analyzer.writeSample sample).fftHop
    rw [if_pos hdue]
    unfold Push.due
    split
    -- one of the first three windows is submitted at once
    · next hfew =>
      exact ⟨hnow.transform hdue.1, fun _ => hdue.1,
        (length_submit _).trans (congrArg (· + 1) h.counted.1), hfew⟩
    · exact ⟨hnow, fun _ => hdue.1, h.counted⟩
  · rw [if_neg hdue]
    refine ⟨hwrite, fun hlatest => ?_, h.counted⟩
    exact RingBuffer.push_full (h.full hlatest) _

/-- The end of a push: the fourth window at most. -/
theorem Underway.finish (h : Underway A front run f done p) :
    Feeding A front run f done p.finish.analyzer ∧ p.finish.submitted.length ≤ maxFftsPerPush := by
  have hcount : p.submitted.length ≤ maxFftsPerPush - 1 := h.counted.1 ▸ h.counted.2
  unfold Push.finish
  split
  · next hlatest =>
    refine ⟨h.feeding.transform (h.full hlatest), ?_⟩
    rw [length_submit]
    exact Nat.succ_le_succ hcount
  · exact ⟨h.feeding, hcount.trans (Nat.sub_le _ _)⟩

/-- **All samples of a push**, by induction over those that are left. -/
theorem Underway.loop (meanwhile : ℕ → List WorkerStep) (rest : List σ) :
    ∀ (i : ℕ) (p : Push σ δ) (done : List σ), Underway A front run f done p →
      f.iq = done ++ rest →
      Feeding A front run f f.iq (Push.loop A meanwhile i p rest).analyzer ∧
        (Push.loop A meanwhile i p rest).submitted.length ≤ maxFftsPerPush := by
  induction rest with
  | nil =>
    intro i p done h hiq
    rw [List.append_nil] at hiq
    rw [hiq]
    exact (h.work (meanwhile i)).finish
  | cons sample rest ih =>
    intro i p done h hiq
    have hsplit : f.iq = done ++ [sample] ++ rest := by
      rw [hiq, List.append_assoc, List.singleton_append]
    exact ih (i + 1) _ _ ((h.work (meanwhile i)).pushComplexSample ⟨rest, hsplit.symm⟩) hsplit

/-! ## Section 6: One event -/

theorem Sound.breakStream (hs : Sound A pushes s) (clock : CaptureClock) :
    Awaiting A pushes clock (s.breakStream clock) := by
  unfold SpectrumAnalyzer.breakStream
  split
  · next hcontinues =>
    obtain ⟨front, run, hpushes, hstream, hlast⟩ := hs
    refine ⟨front, run, hpushes, hstream, fun f hf => ⟨?_, ?_⟩⟩
    · simpa using hcontinues.1
    · rw [← hlast f hf]
      exact hcontinues.2
  · exact hs.stream_reset.awaiting

theorem Awaiting.prepareContext (hs : Awaiting A pushes clock s) :
    Awaiting A pushes clock s.prepareContext := by
  unfold SpectrumAnalyzer.prepareContext
  split
  · obtain ⟨front, run, rfl, hstream, -⟩ := hs
    exact hstream.resetStream.awaiting
  · exact hs

/-- What `prepare_input` leaves as the input context: that of the state. -/
theorem prepareContext_input (s : SpectrumAnalyzer σ δ) :
    s.prepareContext.inputContext = none ∨
      s.prepareContext.inputContext = some s.observationContext := by
  unfold SpectrumAnalyzer.prepareContext
  split
  · exact .inr rfl
  · next hsame =>
    cases hctx : s.inputContext with
    | none => exact .inl rfl
    | some context =>
      rw [hctx, Option.any_some, decide_eq_true_eq, not_not] at hsame
      exact .inr (congrArg some hsame)

/-- Without an input context nothing was pushed and nothing current is on its way. -/
theorem Stream.setContext (hs : Stream A front run s) {context : SpectrumContext}
    (h : s.inputContext = none ∨ s.inputContext = some context) (observedAt : ℕ) :
    Stream A front run { s with inputContext := some context, inputObservedAt := observedAt } := by
  rcases h with hnone | hsome
  · refine ⟨.inl ?_, hs.ring, hs.holding.mono fun stamp samples hp => ?_, hs.size, hs.window⟩
    · rcases hs.unbroken with hnil | ⟨c, hc, -⟩
      · exact hnil
      · rw [hnone] at hc
        cases hc
    · obtain ⟨hle, earliest, hwindow, hcurrent⟩ := hp
      refine ⟨hle, earliest, hwindow, fun hrevision => ?_⟩
      have hc := (hcurrent hrevision).2
      rw [hnone] at hc
      cases hc
  · exact hs.congr ⟨rfl, hsome.symm, rfl, rfl, rfl⟩ rfl

/-- After `prepare_input`, the block still continues the run. -/
theorem Awaiting.prepareInput (hs : Awaiting A pushes clock s) (observedAt : ℕ) :
    Awaiting A pushes clock (s.prepareInput observedAt).2 := by
  obtain ⟨front, run, hpushes, hstream, hlast⟩ := hs.prepareContext
  exact ⟨front, run, hpushes, hstream.setContext (prepareContext_input s) observedAt, hlast⟩

/-- `prepare_input` leaves the current context as that of the input. -/
theorem prepareInput_input (s : SpectrumAnalyzer σ δ) (observedAt : ℕ) :
    (s.prepareInput observedAt).2.inputContext =
      some (s.prepareInput observedAt).2.observationContext := by
  unfold SpectrumAnalyzer.prepareInput SpectrumAnalyzer.prepareContext
  split <;> rfl

theorem prepareInput_boundary (s : SpectrumAnalyzer σ δ) (observedAt : ℕ) :
    (s.prepareInput observedAt).2.earliestObservation = s.earliestObservation := by
  unfold SpectrumAnalyzer.prepareInput SpectrumAnalyzer.prepareContext
  split <;> rfl

theorem prepareInput_capture (s : SpectrumAnalyzer σ δ) (observedAt : ℕ) :
    (s.prepareInput observedAt).2.nextCapture = s.nextCapture := by
  unfold SpectrumAnalyzer.prepareInput SpectrumAnalyzer.prepareContext
  split <;> rfl

/-- A block that the analyzer is ready for becomes the last one of the run. -/
theorem Awaiting.feed (hs : Awaiting A pushes f.clock s) (hinput : s.inputContext = some f.context)
    (hcontext : f.context = s.observationContext) (hrevision : f.revision = s.streamRevision)
    (hobserved : s.inputObservedAt = f.observedAt)
    (hready : ∀ e, s.earliestObservation = some e → e ≤ f.observedAt) :
    ∃ front run, pushes = front ++ run ∧ Feeding A front run f [] s := by
  obtain ⟨front, run, rfl, hstream, hlast⟩ := hs
  refine ⟨front, run, rfl, ?_, hrevision, hcontext, hinput, hobserved, List.nil_prefix, ?_,
    hstream.holding.mono fun _ _ hp => hp.mono [f], hstream.size, hstream.window⟩
  · rw [hrevision]
    rcases hstream.unbroken with rfl | ⟨context, hc, hrun⟩
    · refine ⟨List.IsChain.singleton f, ?_, ?_⟩
      · intro g hg
        obtain rfl := List.mem_singleton.1 hg
        exact ⟨rfl, hrevision⟩
      · intro g hg e he
        obtain rfl := List.mem_singleton.1 hg
        exact hready e he
    · obtain rfl := Option.some.inj (hinput.symm.trans hc)
      refine ⟨List.isChain_append.2 ⟨hrun.chain, List.IsChain.singleton f, ?_⟩, ?_, ?_⟩
      · intro g hg f' hf'
        obtain rfl := Option.some.inj hf'
        exact hlast g hg
      · intro g hg
        rcases List.mem_append.1 hg with hold | hnew
        · exact hrun.labelled g hold
        · obtain rfl := List.mem_singleton.1 hnew
          exact ⟨rfl, hrevision⟩
      · intro g hg e he
        rcases List.mem_append.1 hg with hold | hnew
        · exact hrun.settled g hold e he
        · obtain rfl := List.mem_singleton.1 hnew
          exact hready e he
  · rw [List.map_nil, List.append_nil]
    exact hstream.ring

/-- All samples are written: the next block is expected where this one ends. -/
theorem Feeding.sound (h : Feeding A front run f f.iq s)
    (hcapture : s.nextCapture = SpectrumAnalyzer.continuation f.clock f.inputSamples) :
    Sound A (front ++ run ++ [f]) s := by
  refine ⟨front, run ++ [f], List.append_assoc _ _ _, ⟨.inr ⟨f.context, h.input, ?_⟩, ?_, ?_,
    h.size, h.window⟩, fun g hg => ?_⟩
  · rw [← h.revision]
    exact h.unbroken
  · rw [List.flatMap_append, List.flatMap_singleton]
    exact h.ring
  · rw [← List.append_assoc]
    exact h.holding
  · rw [List.getLast?_concat] at hg
    obtain rfl := Option.some.inj hg
    exact hcapture

/-- A block before the boundary is dropped. As times do not decrease, nothing has been pushed
    since the boundary was set. -/
theorem Awaiting.drop (hs : Awaiting A pushes f.clock s)
    (htimes : ∀ g ∈ pushes, g.observedAt ≤ f.observedAt) {e : ℕ}
    (hboundary : s.earliestObservation = some e) (hearly : f.observedAt < e) :
    Sound A (pushes ++ [f]) s := by
  obtain ⟨front, run, rfl, hstream, -⟩ := hs
  have hnil : run = [] := by
    rcases hstream.unbroken with hnil | ⟨context, -, hrun⟩
    · exact hnil
    · by_contra hne
      obtain ⟨g, hg⟩ := List.exists_mem_of_ne_nil run hne
      have hsettled := hrun.settled g hg e hboundary
      have hle := htimes g (List.mem_append_right _ hg)
      omega
  subst hnil
  rw [List.append_nil]
  refine Stream.sound ⟨.inl rfl, hstream.ring, hstream.holding.mono fun _ _ hp => ?_, hstream.size,
    hstream.window⟩
  have hmore := hp.mono [f]
  rw [List.append_nil] at hmore ⊢
  exact hmore

/-- The analyzer when the loop over the samples begins. -/
def prepared (A : AnalyzerArithmetic σ δ) (s : SpectrumAnalyzer σ δ) (clock : CaptureClock)
    (observedAt inputSamples : ℕ) : SpectrumAnalyzer σ δ :=
  (({ s.breakStream clock with
    nextCapture := SpectrumAnalyzer.continuation clock inputSamples }.tryRecvSpectrum A).prepareInput
      observedAt).2

theorem pushCaptureSamples_eq (s : SpectrumAnalyzer σ δ) (iq : List σ) (clock : CaptureClock)
    (observedAt inputSamples : ℕ) (meanwhile : ℕ → List WorkerStep) :
    s.pushCaptureSamples A iq clock observedAt inputSamples meanwhile =
      if !(prepared A s clock observedAt inputSamples).earliestObservation.all (· ≤ observedAt) ||
        iq.isEmpty then (prepared A s clock observedAt inputSamples, [])
      else
        let p := Push.loop A meanwhile 0 ⟨prepared A s clock observedAt inputSamples, 0, false, []⟩
          (iq.map A.sanitize)
        (p.analyzer, p.submitted) := by
  unfold SpectrumAnalyzer.pushCaptureSamples SpectrumAnalyzer.pushComplexSamplesAt prepared
  rw [prepareInput_boundary]
  rfl

theorem Sound.prepared (hs : Sound A pushes s) (clock : CaptureClock)
    (observedAt inputSamples : ℕ) :
    Awaiting A pushes clock (prepared A s clock observedAt inputSamples) := by
  have hbreak := hs.breakStream clock
  have hcapture : Awaiting A pushes clock { s.breakStream clock with
      nextCapture := SpectrumAnalyzer.continuation clock inputSamples } :=
    hbreak.congr ⟨rfl, rfl, rfl, rfl, rfl⟩ rfl
  exact hcapture.tryRecv.prepareInput observedAt

theorem prepared_capture (s : SpectrumAnalyzer σ δ) (clock : CaptureClock)
    (observedAt inputSamples : ℕ) :
    (prepared A s clock observedAt inputSamples).nextCapture =
      SpectrumAnalyzer.continuation clock inputSamples := by
  unfold Observation.prepared
  rw [prepareInput_capture]
  obtain ⟨measurement, sequence, heq⟩ := tryRecv_same (A := A) { s.breakStream clock with
    nextCapture := SpectrumAnalyzer.continuation clock inputSamples }
  rw [heq]

theorem Touches.label (h : Touches s s') :
    s'.observationContext = s.observationContext ∧ s'.streamRevision = s.streamRevision ∧
      s'.nextCapture = s.nextCapture := by
  obtain ⟨ring, worker, samplesUntil, -, rfl⟩ := h
  exact ⟨rfl, rfl, rfl⟩

/-- One sample of a push. -/
theorem pushComplexSample_touches (p : Push σ δ) (sample : σ) :
    Touches p.analyzer (p.pushComplexSample sample).analyzer := by
  have hwrite : Touches p.analyzer (p.analyzer.writeSample sample) :=
    ⟨_, _, _, RingBuffer.size_push _ _, rfl⟩
  unfold Push.pushComplexSample
  dsimp only
  split
  · unfold Push.due
    split
    · exact hwrite.trans ⟨_, _, _, rfl, rfl⟩
    · exact hwrite.trans ⟨_, _, _, rfl, rfl⟩
  · exact hwrite

theorem finish_touches (p : Push σ δ) : Touches p.analyzer p.finish.analyzer := by
  unfold Push.finish
  split
  · exact ⟨_, _, _, rfl, rfl⟩
  · exact .refl _

theorem loop_touches (meanwhile : ℕ → List WorkerStep) (rest : List σ) :
    ∀ (i : ℕ) (p : Push σ δ), Touches p.analyzer (Push.loop A meanwhile i p rest).analyzer := by
  induction rest with
  | nil =>
    intro i p
    have hwork : Touches p.analyzer (p.work A (meanwhile i)).analyzer := ⟨_, _, _, rfl, rfl⟩
    exact hwork.trans (finish_touches _)
  | cons sample rest ih =>
    intro i p
    have hwork : Touches p.analyzer (p.work A (meanwhile i)).analyzer := ⟨_, _, _, rfl, rfl⟩
    exact (hwork.trans (pushComplexSample_touches _ sample)).trans (ih (i + 1) _)

theorem push_touches (s : SpectrumAnalyzer σ δ) (iq : List σ) (clock : CaptureClock)
    (observedAt inputSamples : ℕ) (meanwhile : ℕ → List WorkerStep) :
    Touches (prepared A s clock observedAt inputSamples)
      (s.pushCaptureSamples A iq clock observedAt inputSamples meanwhile).1 := by
  rw [pushCaptureSamples_eq]
  split
  · exact .refl _
  · exact loop_touches meanwhile (iq.map A.sanitize) 0 ⟨prepared A s clock observedAt inputSamples,
      0, false, []⟩

/-- A block that the analyzer is ready for is written as a whole. -/
theorem Awaiting.write (hs : Awaiting A pushes f.clock s) (hinput : s.inputContext = some f.context)
    (hcontext : f.context = s.observationContext) (hrevision : f.revision = s.streamRevision)
    (hobserved : s.inputObservedAt = f.observedAt)
    (hcapture : s.nextCapture = SpectrumAnalyzer.continuation f.clock f.inputSamples)
    (hready : ∀ e, s.earliestObservation = some e → e ≤ f.observedAt)
    (meanwhile : ℕ → List WorkerStep) :
    Sound A (pushes ++ [f]) (Push.loop A meanwhile 0 ⟨s, 0, false, []⟩ f.iq).analyzer ∧
    (Push.loop A meanwhile 0 ⟨s, 0, false, []⟩ f.iq).submitted.length ≤ maxFftsPerPush := by
  obtain ⟨front, run, rfl, hfeed⟩ := hs.feed hinput hcontext hrevision hobserved hready
  have hstart : Underway A front run f [] ⟨s, 0, false, []⟩ :=
    ⟨hfeed, fun hlatest => Bool.noConfusion hlatest, rfl, Nat.zero_le _⟩
  obtain ⟨hfed, hcount⟩ := hstart.loop meanwhile f.iq 0 _ [] rfl
  have htouch := loop_touches (A := A) meanwhile f.iq 0 ⟨s, 0, false, []⟩
  exact ⟨hfed.sound (htouch.label.2.2.trans hcapture), hcount⟩

/-- **A push keeps the invariant**, and submits at most four windows. -/
theorem Sound.push (hs : Sound A pushes s) (iq : List σ) (clock : CaptureClock)
    (observedAt inputSamples : ℕ) (meanwhile : ℕ → List WorkerStep)
    (htimes : ∀ g ∈ pushes, g.observedAt ≤ observedAt) :
    let r := s.pushCaptureSamples A iq clock observedAt inputSamples meanwhile
    Sound A (pushes ++ [⟨iq.map A.sanitize, clock, inputSamples, observedAt,
      r.1.observationContext, r.1.streamRevision⟩]) r.1 ∧ r.2.length ≤ maxFftsPerPush := by
  intro r
  have htouch := push_touches (A := A) s iq clock observedAt inputSamples meanwhile
  have hr : r = s.pushCaptureSamples A iq clock observedAt inputSamples meanwhile := rfl
  have hawait := hs.prepared clock observedAt inputSamples
  have hcapture := prepared_capture (A := A) s clock observedAt inputSamples
  have hinput : (Observation.prepared A s clock observedAt inputSamples).inputContext =
    some (Observation.prepared A s clock observedAt inputSamples).observationContext :=
    prepareInput_input _ observedAt
  have hobserved : (Observation.prepared A s clock observedAt inputSamples).inputObservedAt =
    observedAt := rfl
  rw [← hr] at htouch
  rw [pushCaptureSamples_eq] at hr
  generalize Observation.prepared A s clock observedAt inputSamples = s₃
    at hawait hcapture hinput hobserved htouch hr
  let f : Fed σ := ⟨iq.map A.sanitize, clock, inputSamples, observedAt, s₃.observationContext,
    s₃.streamRevision⟩
  -- whatever the analyzer does with the block, it is labelled as before the loop
  obtain ⟨hcontext, hrevision, -⟩ := htouch.label
  rw [hcontext, hrevision]
  suffices h : Sound A (pushes ++ [f]) r.1 ∧ r.2.length ≤ maxFftsPerPush from h
  by_cases hready : s₃.earliestObservation.all (· ≤ observedAt) = true
  · have hsettled : ∀ e, s₃.earliestObservation = some e → e ≤ f.observedAt := by
      intro e he
      rw [he, Option.all_some, decide_eq_true_eq] at hready
      exact hready
    rw [hready, Bool.not_true, Bool.false_or] at hr
    by_cases hempty : iq.isEmpty = true
    -- a block without samples is part of the run all the same
    · obtain ⟨front, run, hpushes, hfeed⟩ := Awaiting.feed (f := f) hawait hinput rfl rfl hobserved
        hsettled
      have hiq : f.iq = [] := List.map_eq_nil_iff.2 (List.isEmpty_iff.1 hempty)
      have hfed : Feeding A front run f f.iq s₃ := by
        rw [hiq]
        exact hfeed
      rw [if_pos hempty] at hr
      rw [hr, hpushes]
      exact ⟨hfed.sound hcapture, Nat.zero_le _⟩
    · rw [if_neg hempty] at hr
      rw [hr]
      exact Awaiting.write (f := f) hawait hinput rfl rfl hobserved hcapture hsettled meanwhile
  · rw [Bool.not_eq_true] at hready
    rw [hready, Bool.not_false, Bool.true_or, if_pos rfl] at hr
    rw [hr]
    refine ⟨?_, Nat.zero_le _⟩
    cases hboundary : s₃.earliestObservation with
    | none =>
      rw [hboundary] at hready
      cases hready
    | some e =>
      rw [hboundary, Option.all_some, decide_eq_false_iff_not, not_le] at hready
      exact Awaiting.drop (f := f) hawait htimes hboundary hready

/-! ## Section 7: What becomes of the measurement -/

/-- The measurement is the one before, or none, or a new one with its own number. -/
inductive Outcome (s s' : SpectrumAnalyzer σ δ) : Prop where
  | kept (measurement : s'.measurement = s.measurement)
      (sequence : s'.measurementSequence = s.measurementSequence)
      (revision : s'.streamRevision = s.streamRevision)
  | cleared (measurement : s'.measurement = none)
      (sequence : s.measurementSequence ≤ s'.measurementSequence)
      (revision : s.streamRevision ≤ s'.streamRevision)
  | recorded (context : SpectrumContext) (m : SpectrumMeasurement δ)
      (measurement : s'.measurement = some (context, m))
      (new : s.measurementSequence < m.sequence) (sequence : m.sequence = s'.measurementSequence)
      (revision : s.streamRevision ≤ s'.streamRevision)

theorem Outcome.refl (s : SpectrumAnalyzer σ δ) : Outcome s s := .kept rfl rfl rfl

theorem Outcome.trans {s'' : SpectrumAnalyzer σ δ} (h : Outcome s s') (h' : Outcome s' s'') :
    Outcome s s'' := by
  cases h' with
  | kept hm' hq' hr' =>
    cases h with
    | kept hm hq hr => exact .kept (hm'.trans hm) (hq'.trans hq) (hr'.trans hr)
    | cleared hm hq hr => exact .cleared (hm'.trans hm) (hq'.symm ▸ hq) (hr'.symm ▸ hr)
    | recorded context m hm hnew hq hr =>
      exact .recorded context m (hm'.trans hm) hnew (hq.trans hq'.symm) (hr'.symm ▸ hr)
  | cleared hm' hq' hr' =>
    cases h with
    | kept hm hq hr => exact .cleared hm' (hq ▸ hq') (hr ▸ hr')
    | cleared hm hq hr => exact .cleared hm' (hq.trans hq') (hr.trans hr')
    | recorded context m hm hnew hq hr => exact .cleared hm' (by omega) (hr.trans hr')
  | recorded context' m' hm' hnew' hq' hr' =>
    cases h with
    | kept hm hq hr => exact .recorded context' m' hm' (hq ▸ hnew') hq' (hr ▸ hr')
    | cleared hm hq hr => exact .recorded context' m' hm' (by omega) hq' (hr.trans hr')
    | recorded context m hm hnew hq hr =>
      exact .recorded context' m' hm' (by omega) hq' (hr.trans hr')

theorem outcome_reset (s : SpectrumAnalyzer σ δ) : Outcome s s.resetStream :=
  .cleared rfl (le_refl _) (Nat.le_succ _)

theorem outcome_reset_if (s : SpectrumAnalyzer σ δ) (c : Prop) [Decidable c] :
    Outcome s (if c then s.resetStream else s) := by
  split
  · exact outcome_reset s
  · exact .refl s

theorem outcome_synchronize (s : SpectrumAnalyzer σ δ) :
    Outcome s s.synchronizeObservationContext := by
  unfold SpectrumAnalyzer.synchronizeObservationContext
  split
  · exact .refl s
  · exact outcome_reset s

theorem outcome_updateParams (s : SpectrumAnalyzer σ δ) (centerFreq : ℕ) (sampleRate : ℚ) :
    Outcome s (s.updateParamsExact centerFreq sampleRate) :=
  (outcome_reset_if s (centerFreq ≠ s.centerFreq ∨
    (if 0 < sampleRate then sampleRate else 1) ≠ s.sampleRate)).trans (.kept rfl rfl rfl)

theorem outcome_setFftSize (s : SpectrumAnalyzer σ δ) (size now : ℕ) :
    Outcome s (s.setFftSize A size now) := by
  unfold SpectrumAnalyzer.setFftSize
  split
  · split
    · exact .refl s
    · exact .cleared rfl (le_refl _) (Nat.le_succ _)
  · exact .refl s

theorem outcome_observe (s : SpectrumAnalyzer σ δ) (bins : List δ) (stamp : ObservationStamp) :
    Outcome s (s.observeFrame A bins stamp) := by
  rcases observeFrame_cases (A := A) s bins stamp with hsame | hrec
  · rw [hsame]
    exact .refl s
  · obtain ⟨measurement, sequence, heq⟩ := observeFrame_same (A := A) s bins stamp
    refine .recorded _ _ hrec.measurement (Nat.lt_succ_self _) hrec.sequence.symm ?_
    rw [heq]

theorem outcome_tryRecv (s : SpectrumAnalyzer σ δ) : Outcome s (s.tryRecvSpectrum A) := by
  obtain ⟨measurement, sequence, heq⟩ := tryRecv_same (A := A) s
  have hrevision : (s.tryRecvSpectrum A).streamRevision = s.streamRevision := by rw [heq]
  rcases tryRecv_cases (A := A) s with ⟨hm, hq⟩ | ⟨frame, -, -, hrec⟩
  · exact .kept hm hq hrevision
  · exact .recorded _ _ hrec.measurement (Nat.lt_succ_self _) hrec.sequence.symm hrevision.ge

theorem Touches.outcome (h : Touches s s') : Outcome s s' := by
  obtain ⟨ring, worker, samplesUntil, -, rfl⟩ := h
  exact .kept rfl rfl rfl

theorem outcome_prepared (s : SpectrumAnalyzer σ δ) (clock : CaptureClock)
    (observedAt inputSamples : ℕ) :
    Outcome s (prepared A s clock observedAt inputSamples) := by
  have hbreak : Outcome s (s.breakStream clock) := by
    unfold SpectrumAnalyzer.breakStream
    split
    · exact .refl s
    · exact outcome_reset s
  have hprepare : ∀ s : SpectrumAnalyzer σ δ, Outcome s (s.prepareInput observedAt).2 := by
    intro s
    have hcontext : Outcome s s.prepareContext := by
      unfold SpectrumAnalyzer.prepareContext
      split
      · exact outcome_reset s
      · exact .refl s
    exact hcontext.trans (.kept rfl rfl rfl)
  have hcapture : Outcome s { s.breakStream clock with
      nextCapture := SpectrumAnalyzer.continuation clock inputSamples } :=
    hbreak.trans (.kept rfl rfl rfl)
  exact (hcapture.trans (outcome_tryRecv _)).trans (hprepare _)

theorem outcome_daemon (s : SpectrumAnalyzer σ δ) (frame : DaemonFrame δ) (observedAt : ℕ) :
    Outcome s (s.pushSpectrumFrameAt A frame observedAt) := by
  have hmeasure : ∀ s : SpectrumAnalyzer σ δ, Outcome s (s.measureDaemon A frame observedAt) := by
    intro s
    unfold SpectrumAnalyzer.measureDaemon
    split
    · exact (outcome_observe (A := A) s _ _).trans (.kept rfl rfl rfl)
    · split
      · exact .cleared rfl (le_refl _) (le_refl _)
      · exact .refl s
  unfold SpectrumAnalyzer.pushSpectrumFrameAt
  split
  · exact .refl s
  · exact (((outcome_setFftSize (A := A) s _ _).trans (outcome_updateParams _ _ _)).trans
      (outcome_synchronize _)).trans (hmeasure _)

/-- **One event**: the measurement is kept, retired or replaced by a new one. -/
theorem outcome_apply (s : SpectrumAnalyzer σ δ) (e : Event σ δ) : Outcome s (s.apply A e).1 := by
  cases e with
  | pushCapture iq clock observedAt inputSamples meanwhile =>
    exact (outcome_prepared (A := A) s clock observedAt inputSamples).trans
      (push_touches s iq clock observedAt inputSamples meanwhile).outcome
  | worker step => exact .kept rfl rfl rfl
  | receive => exact outcome_tryRecv s
  | daemonFrame frame observedAt => exact outcome_daemon s frame observedAt
  | select vfoFreqHz vfoBwHz demodMode sideband => exact .kept rfl rfl rfl
  | updateParams centerFreq sampleRate => exact outcome_updateParams s centerFreq sampleRate
  | setFftSize size now => exact outcome_setFftSize s size now
  | setFftRate framesPerSecond =>
    unfold SpectrumAnalyzer.apply SpectrumAnalyzer.setFftRate
    dsimp only
    split
    · exact .refl s
    · exact .kept rfl rfl rfl
  | setWindow window =>
    unfold SpectrumAnalyzer.apply SpectrumAnalyzer.setWindow
    dsimp only
    split
    · exact .refl s
    · exact .kept rfl rfl rfl
  | resetStream => exact outcome_reset s
  | resetCaptureStream => exact .cleared rfl (le_refl _) (Nat.le_succ _)
  | synchronize => exact outcome_synchronize s
  | beginScan earliest => exact .cleared rfl (le_refl _) (Nat.le_succ _)
  | requireDaemon revision => exact .kept rfl rfl rfl

/-! ## Section 8: Runs -/

/-- A step of a run, with the windows it has submitted. -/
abbrev Step (σ δ : Type) := Machine.Event (SpectrumAnalyzer σ δ) (Event σ δ) (List (FftInput σ))

/-- The push of a step, labelled with the context and the revision it left. -/
def fedBy (A : AnalyzerArithmetic σ δ) (e : Step σ δ) : Option (Fed σ) :=
  match e.input with
  | .pushCapture iq clock observedAt inputSamples _ =>
    some ⟨iq.map A.sanitize, clock, inputSamples, observedAt, e.after.observationContext,
      e.after.streamRevision⟩
  | _ => none

/-- All pushes of a history. -/
def fed (A : AnalyzerArithmetic σ δ) (h : List (Step σ δ)) : List (Fed σ) := h.filterMap (fedBy A)

def pushTime : Event σ δ → Option ℕ
  | .pushCapture _ _ observedAt _ _ => some observedAt
  | _ => none

/-- The times of the pushes. -/
def pushTimes (events : List (Event σ δ)) : List ℕ := events.filterMap pushTime

/-- The scan boundary after an event. -/
def nextBoundary (last : Option ℕ) : Event σ δ → Option ℕ
  | .beginScan earliest => some earliest
  | _ => last

/-- The last scan boundary. -/
def boundary (events : List (Event σ δ)) : Option ℕ := events.foldl nextBoundary none

/-- A worker result is recorded, not a frame of the daemon. -/
def Records (e : Step σ δ) : Prop :=
  e.after.measurementSequence ≠ e.before.measurementSequence ∧
    ∀ frame observedAt, e.input ≠ .daemonFrame frame observedAt

theorem Sound.setFftRate (hs : Sound A pushes s) (framesPerSecond : ℕ) :
    Sound A pushes (s.setFftRate framesPerSecond) := by
  unfold SpectrumAnalyzer.setFftRate
  dsimp only
  split
  · exact hs
  · exact hs.congr ⟨rfl, rfl, rfl, rfl, rfl⟩ rfl rfl

theorem Sound.observe (hs : Sound A pushes s) (bins : List δ) (stamp : ObservationStamp) :
    Sound A pushes (s.observeFrame A bins stamp) := by
  obtain ⟨measurement, sequence, heq⟩ := observeFrame_same (A := A) s bins stamp
  rw [heq]
  exact hs.congr ⟨rfl, rfl, rfl, rfl, rfl⟩ rfl rfl

theorem Sound.daemonFrame (hs : Sound A pushes s) (frame : DaemonFrame δ) (observedAt : ℕ) :
    Sound A pushes (s.pushSpectrumFrameAt A frame observedAt) := by
  have hmeasure : ∀ s : SpectrumAnalyzer σ δ, Sound A pushes s →
      Sound A pushes (s.measureDaemon A frame observedAt) := by
    intro s hs
    unfold SpectrumAnalyzer.measureDaemon
    split
    · exact (hs.observe _ _).congr ⟨rfl, rfl, rfl, rfl, rfl⟩ rfl rfl
    · split
      · exact hs.congr ⟨rfl, rfl, rfl, rfl, rfl⟩ rfl rfl
      · exact hs
  unfold SpectrumAnalyzer.pushSpectrumFrameAt
  split
  · exact hs
  · exact hmeasure _ ((hs.setFftSize _ _).updateParams _ _).synchronize

/-- **One event keeps the invariant**, and submits at most four windows. -/
theorem Sound.apply (hs : Sound A pushes s) (e : Event σ δ)
    (htimes : ∀ g ∈ pushes, ∀ t ∈ pushTimes [e], g.observedAt ≤ t) :
    Sound A (pushes ++ (fedBy A ⟨s, e, (s.apply A e).2, (s.apply A e).1⟩).toList) (s.apply A e).1 ∧
      (s.apply A e).2.length ≤ maxFftsPerPush := by
  have hquiet : ∀ s' : SpectrumAnalyzer σ δ, Sound A pushes s' →
      Sound A (pushes ++ []) s' ∧ ([] : List (FftInput σ)).length ≤ maxFftsPerPush :=
    fun s' hs' => ⟨(List.append_nil pushes).symm ▸ hs', Nat.zero_le _⟩
  cases e with
  | pushCapture iq clock observedAt inputSamples meanwhile =>
    exact hs.push iq clock observedAt inputSamples meanwhile fun g hg =>
      htimes g hg observedAt List.mem_cons_self
  | worker step => exact hquiet _ (hs.work [step])
  | receive => exact hquiet _ hs.tryRecv
  | daemonFrame frame observedAt => exact hquiet _ (hs.daemonFrame frame observedAt)
  | select vfoFreqHz vfoBwHz demodMode sideband =>
    exact hquiet _ (hs.congr ⟨rfl, rfl, rfl, rfl, rfl⟩ rfl rfl)
  | updateParams centerFreq sampleRate => exact hquiet _ (hs.updateParams centerFreq sampleRate)
  | setFftSize size now => exact hquiet _ (hs.setFftSize size now)
  | setFftRate framesPerSecond => exact hquiet _ (hs.setFftRate framesPerSecond)
  | setWindow window => exact hquiet _ (hs.setWindow window)
  | resetStream => exact hquiet _ hs.stream_reset.sound
  | resetCaptureStream =>
    have hreset : Stream A pushes [] s.resetCaptureStream :=
      hs.stream_reset.congr ⟨rfl, rfl, rfl, rfl, rfl⟩ rfl
    exact hquiet _ hreset.sound
  | synchronize => exact hquiet _ hs.synchronize
  | beginScan earliest =>
    refine hquiet _ (Stream.sound (stream_of_reset (s := s) (Nat.lt_succ_self _)
      (RingBuffer.holds_clear _) ?_ ?_ ?_))
    all_goals
      obtain ⟨front, run, rfl, hstream, -⟩ := hs
    · exact hstream.holding
    · exact hstream.size
    · exact hstream.window
  | requireDaemon revision =>
    exact hquiet _ (hs.congr ⟨rfl, rfl, rfl, rfl, rfl⟩ rfl rfl)

/-- The passband is that of the context. -/
theorem passbandPeak_congr (h : s'.observationContext = s.observationContext) (bins : List δ) :
    s'.passbandPeak A bins = s.passbandPeak A bins := by
  have hrate : s'.sampleRate = s.sampleRate := congrArg SpectrumContext.sampleRate h
  unfold SpectrumAnalyzer.passbandPeak
  rw [h, hrate]

theorem Measured.congr {earliest : Option ℕ} {context : SpectrumContext} {m : SpectrumMeasurement δ}
    (h : Measured A pushes earliest s context m) (hrevision : s'.streamRevision = s.streamRevision)
    (hcontext : s'.observationContext = s.observationContext) (hsize : s'.fftSize = s.fftSize)
    (hwindow : s'.windowType = s.windowType) (more : List (Fed σ)) :
    Measured A (pushes ++ more) earliest s' context m := by
  obtain ⟨stamp, samples, h₁, h₂, h₃, h₄, h₅, h₆, h₇, h₈⟩ := h
  refine ⟨stamp, samples, h₁, h₂.trans hrevision.symm, h₃.trans hcontext.symm, h₄, h₅,
    h₆.trans hsize.symm, h₇.mono more, ?_⟩
  rw [h₈, passbandPeak_congr hcontext, hwindow]

/-- The spectrum that is received is recorded in the stream that goes on. -/
theorem Stream.measured_tryRecv (hs : Stream A front run s) :
    (s.tryRecvSpectrum A).measurementSequence = s.measurementSequence ∨
    s.inputContext = some s.observationContext ∧ ∃ m,
      (s.tryRecvSpectrum A).measurement = some (s.observationContext, m) ∧
      Measured A (front ++ run) s.earliestObservation (s.tryRecvSpectrum A) s.observationContext m := by
  rcases tryRecv_cases (A := A) s with ⟨-, hsequence⟩ | ⟨frame, hmem, -, hrec⟩
  · exact .inl hsequence
  · obtain ⟨hinput, m, hm, hmeasured⟩ := hs.measured hmem hrec
    refine .inr ⟨hinput, m, hm, ?_⟩
    obtain ⟨measurement, sequence, heq⟩ := tryRecv_same (A := A) s
    rw [heq, ← List.append_nil (front ++ run)]
    exact hmeasured.congr rfl rfl rfl rfl []

/-- What is recorded while a push is prepared is kept: the context has not changed. -/
theorem Awaiting.measured_prepare (hs : Awaiting A pushes clock s) (observedAt : ℕ) :
    ((s.tryRecvSpectrum A).prepareInput observedAt).2.measurementSequence = s.measurementSequence ∨
    ∃ context m, ((s.tryRecvSpectrum A).prepareInput observedAt).2.measurement = some (context, m) ∧
      Measured A pushes s.earliestObservation ((s.tryRecvSpectrum A).prepareInput observedAt).2
        context m := by
  obtain ⟨front, run, rfl, hstream, -⟩ := hs
  rcases hstream.measured_tryRecv with hsequence | ⟨hinput, m, hm, hmeasured⟩
  · refine .inl (Eq.trans ?_ hsequence)
    unfold SpectrumAnalyzer.prepareInput SpectrumAnalyzer.prepareContext
    split <;> rfl
  · have hkeep : (s.tryRecvSpectrum A).prepareContext = s.tryRecvSpectrum A := by
      obtain ⟨measurement, sequence, heq⟩ := tryRecv_same (A := A) s
      rw [heq]
      refine if_neg ?_
      rw [show SpectrumAnalyzer.inputContext _ = s.inputContext from rfl, hinput, Option.any_some]
      exact Bool.not_eq_true _ ▸ decide_eq_false (not_not.2 rfl)
    have hprepare : ((s.tryRecvSpectrum A).prepareInput observedAt).2 = { s.tryRecvSpectrum A with
        inputContext := some (s.tryRecvSpectrum A).observationContext
        inputObservedAt := observedAt } := by
      unfold SpectrumAnalyzer.prepareInput
      rw [hkeep]
    rw [hprepare]
    refine .inr ⟨s.observationContext, m, hm, ?_⟩
    rw [← List.append_nil (front ++ run)]
    exact hmeasured.congr rfl rfl rfl rfl []

theorem Sound.records_push (hs : Sound A pushes s) (iq : List σ) (clock : CaptureClock)
    (observedAt inputSamples : ℕ) (meanwhile : ℕ → List WorkerStep) (more : List (Fed σ)) :
    let r := s.pushCaptureSamples A iq clock observedAt inputSamples meanwhile
    r.1.measurementSequence = s.measurementSequence ∨
    ∃ context m, r.1.measurement = some (context, m) ∧
      Measured A (pushes ++ more) s.earliestObservation r.1 context m := by
  intro r
  have hbreak : (s.breakStream clock).measurementSequence = s.measurementSequence ∧
      (s.breakStream clock).earliestObservation = s.earliestObservation := by
    unfold SpectrumAnalyzer.breakStream
    split
    · exact ⟨rfl, rfl⟩
    · exact ⟨rfl, rfl⟩
  have hawait : Awaiting A pushes clock { s.breakStream clock with
      nextCapture := SpectrumAnalyzer.continuation clock inputSamples } :=
    (hs.breakStream clock).congr ⟨rfl, rfl, rfl, rfl, rfl⟩ rfl
  obtain ⟨ring, worker, samplesUntil, hsize, heq⟩ :=
    push_touches (A := A) s iq clock observedAt inputSamples meanwhile
  have hr : r.1 = { Observation.prepared A s clock observedAt inputSamples with
    iqRing := ring, worker := worker, samplesUntilFft := samplesUntil } := heq
  rw [hr]
  rcases hawait.measured_prepare observedAt with hsequence | ⟨context, m, hm, hmeasured⟩
  · exact .inl (hsequence.trans hbreak.1)
  · have hprepared : Measured A pushes s.earliestObservation
        (Observation.prepared A s clock observedAt inputSamples) context m := hbreak.2 ▸ hmeasured
    refine .inr ⟨context, m, hm, hprepared.congr ?_ ?_ ?_ ?_ more⟩
    · rfl
    · rfl
    · exact hsize
    · rfl

theorem reset_if_sequence (s : SpectrumAnalyzer σ δ) (c : Prop) [Decidable c] :
    (if c then s.resetStream else s).measurementSequence = s.measurementSequence := by
  split <;> rfl

/-- **What one event records** is a measurement of the stream as it is afterwards. -/
theorem Sound.records (hs : Sound A pushes s) (e : Event σ δ) (more : List (Fed σ))
    (hrecords : Records ⟨s, e, (s.apply A e).2, (s.apply A e).1⟩) :
    ∃ context m, (s.apply A e).1.measurement = some (context, m) ∧
      Measured A (pushes ++ more) s.earliestObservation (s.apply A e).1 context m := by
  obtain ⟨hsequence, hdaemon⟩ := hrecords
  cases e with
  | pushCapture iq clock observedAt inputSamples meanwhile =>
    exact (hs.records_push iq clock observedAt inputSamples meanwhile more).resolve_left hsequence
  | receive =>
    obtain ⟨front, run, rfl, hstream, -⟩ := hs
    obtain ⟨-, m, hm, hmeasured⟩ := hstream.measured_tryRecv.resolve_left hsequence
    exact ⟨_, m, hm, hmeasured.congr rfl rfl rfl rfl more⟩
  | daemonFrame frame observedAt => exact absurd rfl (hdaemon frame observedAt)
  -- no other event touches the number of measurements
  | updateParams centerFreq sampleRate =>
    exact absurd (reset_if_sequence s (centerFreq ≠ s.centerFreq ∨
      (if 0 < sampleRate then sampleRate else 1) ≠ s.sampleRate)) hsequence
  | setFftSize size now =>
    refine absurd ?_ hsequence
    dsimp only [SpectrumAnalyzer.apply, SpectrumAnalyzer.setFftSize]
    split
    · split <;> rfl
    · rfl
  | setFftRate framesPerSecond =>
    refine absurd ?_ hsequence
    dsimp only [SpectrumAnalyzer.apply, SpectrumAnalyzer.setFftRate]
    split <;> rfl
  | setWindow window =>
    refine absurd ?_ hsequence
    dsimp only [SpectrumAnalyzer.apply, SpectrumAnalyzer.setWindow]
    split <;> rfl
  | synchronize =>
    refine absurd ?_ hsequence
    dsimp only [SpectrumAnalyzer.apply, SpectrumAnalyzer.synchronizeObservationContext]
    split <;> rfl
  | worker step => exact absurd rfl hsequence
  | select vfoFreqHz vfoBwHz demodMode sideband => exact absurd rfl hsequence
  | resetStream => exact absurd rfl hsequence
  | resetCaptureStream => exact absurd rfl hsequence
  | beginScan earliest => exact absurd rfl hsequence
  | requireDaemon revision => exact absurd rfl hsequence

theorem reset_if_boundary (s : SpectrumAnalyzer σ δ) (c : Prop) [Decidable c] :
    (if c then s.resetStream else s).earliestObservation = s.earliestObservation := by
  split <;> rfl

theorem setFftSize_boundary (s : SpectrumAnalyzer σ δ) (size now : ℕ) :
    (s.setFftSize A size now).earliestObservation = s.earliestObservation := by
  unfold SpectrumAnalyzer.setFftSize
  split
  · split <;> rfl
  · rfl

theorem updateParams_boundary (s : SpectrumAnalyzer σ δ) (centerFreq : ℕ) (sampleRate : ℚ) :
    (s.updateParamsExact centerFreq sampleRate).earliestObservation = s.earliestObservation :=
  reset_if_boundary s (centerFreq ≠ s.centerFreq ∨
    (if 0 < sampleRate then sampleRate else 1) ≠ s.sampleRate)

theorem synchronize_boundary (s : SpectrumAnalyzer σ δ) :
    s.synchronizeObservationContext.earliestObservation = s.earliestObservation := by
  unfold SpectrumAnalyzer.synchronizeObservationContext
  split <;> rfl

theorem observeFrame_boundary (s : SpectrumAnalyzer σ δ) (bins : List δ)
    (stamp : ObservationStamp) :
    (s.observeFrame A bins stamp).earliestObservation = s.earliestObservation := by
  obtain ⟨measurement, sequence, heq⟩ := observeFrame_same (A := A) s bins stamp
  rw [heq]

theorem tryRecv_boundary (s : SpectrumAnalyzer σ δ) :
    (s.tryRecvSpectrum A).earliestObservation = s.earliestObservation := by
  obtain ⟨measurement, sequence, heq⟩ := tryRecv_same (A := A) s
  rw [heq]

theorem measureDaemon_boundary (s : SpectrumAnalyzer σ δ) (frame : DaemonFrame δ)
    (observedAt : ℕ) :
    (s.measureDaemon A frame observedAt).earliestObservation = s.earliestObservation := by
  unfold SpectrumAnalyzer.measureDaemon
  split
  · exact observeFrame_boundary s _ _
  · split <;> rfl

theorem push_boundary (s : SpectrumAnalyzer σ δ) (iq : List σ) (clock : CaptureClock)
    (observedAt inputSamples : ℕ) (meanwhile : ℕ → List WorkerStep) :
    (s.pushCaptureSamples A iq clock observedAt inputSamples meanwhile).1.earliestObservation =
      s.earliestObservation := by
  obtain ⟨ring, worker, samplesUntil, -, heq⟩ :=
    push_touches (A := A) s iq clock observedAt inputSamples meanwhile
  rw [heq]
  change (prepared A s clock observedAt inputSamples).earliestObservation = _
  unfold prepared
  rw [prepareInput_boundary, tryRecv_boundary]
  change (s.breakStream clock).earliestObservation = _
  unfold SpectrumAnalyzer.breakStream
  split <;> rfl

/-- Only a scan boundary changes the boundary. -/
theorem apply_boundary (s : SpectrumAnalyzer σ δ) (e : Event σ δ) :
    (s.apply A e).1.earliestObservation = nextBoundary s.earliestObservation e := by
  cases e with
  | beginScan earliest => rfl
  | pushCapture iq clock observedAt inputSamples meanwhile =>
    exact push_boundary s iq clock observedAt inputSamples meanwhile
  | receive => exact tryRecv_boundary s
  | daemonFrame frame observedAt =>
    dsimp only [nextBoundary, SpectrumAnalyzer.apply, SpectrumAnalyzer.pushSpectrumFrameAt]
    split
    · rfl
    · rw [measureDaemon_boundary, synchronize_boundary, updateParams_boundary, setFftSize_boundary]
  | updateParams centerFreq sampleRate => exact updateParams_boundary s centerFreq sampleRate
  | setFftSize size now => exact setFftSize_boundary s size now
  | setFftRate framesPerSecond =>
    dsimp only [nextBoundary, SpectrumAnalyzer.apply, SpectrumAnalyzer.setFftRate]
    split <;> rfl
  | setWindow window =>
    dsimp only [nextBoundary, SpectrumAnalyzer.apply, SpectrumAnalyzer.setWindow]
    split <;> rfl
  | synchronize => exact synchronize_boundary s
  | worker step => rfl
  | select vfoFreqHz vfoBwHz demodMode sideband => rfl
  | resetStream => rfl
  | resetCaptureStream => rfl
  | requireDaemon revision => rfl

/-- The pushes of a history have the times of its inputs. -/
theorem fed_times (h : List (Step σ δ)) :
    (fed A h).map Fed.observedAt = pushTimes (h.map Machine.Event.input) := by
  unfold fed pushTimes
  rw [List.map_filterMap, List.filterMap_map]
  refine List.filterMap_congr fun e _ => ?_
  unfold fedBy Function.comp
  cases e.input <;> rfl

/-- The measurement was recorded under the revision that is current. -/
def Current (h : List (Step σ δ)) (s : SpectrumAnalyzer σ δ) : Prop :=
  ∀ context m, s.measurement = some (context, m) → ∃ past e later, h = past ++ e :: later ∧
    e.after.measurement = some (context, m) ∧ e.before.measurementSequence < m.sequence ∧
    e.after.streamRevision = s.streamRevision

theorem Current.step {h : List (Step σ δ)} (hs : Current h s) (e : Step σ δ)
    (hbefore : e.before = s) (houtcome : Outcome e.before e.after) : Current (h ++ [e]) e.after := by
  intro context m hm
  cases houtcome with
  | kept hmeasurement _ hrevision =>
    rw [hmeasurement, hbefore] at hm
    obtain ⟨past, e', later, rfl, hm', hnew, hr⟩ := hs context m hm
    refine ⟨past, e', later ++ [e], by simp, hm', hnew, ?_⟩
    rw [hr, hrevision, hbefore]
  | cleared hnone =>
    rw [hnone] at hm
    cases hm
  | recorded context' m' hm' hnew hsequence hrevision =>
    rw [hm'] at hm
    cases hm
    exact ⟨h, e, [], rfl, hm', hnew, rfl⟩

/-- The history invariant. -/
structure Faithful (A : AnalyzerArithmetic σ δ) (h : List (Step σ δ)) (s : SpectrumAnalyzer σ δ) :
    Prop where
  sound    : (pushTimes (h.map Machine.Event.input)).Pairwise (· ≤ ·) → Sound A (fed A h) s
  boundary : s.earliestObservation = boundary (h.map Machine.Event.input)
  current  : Current h s

/-- What is claimed of a step, given the steps before it. -/
def StepLaw (A : AnalyzerArithmetic σ δ) (past : List (Step σ δ)) (e : Step σ δ) : Prop :=
  (pushTimes ((past ++ [e]).map Machine.Event.input)).Pairwise (· ≤ ·) →
    e.output.length ≤ maxFftsPerPush ∧
    (Records e → ∃ context m, e.after.measurement = some (context, m) ∧
      Measured A (fed A (past ++ [e])) (Observation.boundary (past.map Machine.Event.input)) e.after
        context m)

theorem Faithful.step {h : List (Step σ δ)} (hs : Faithful A h s) (e : Event σ δ) :
    Faithful A (h ++ [⟨s, e, (s.apply A e).2, (s.apply A e).1⟩]) (s.apply A e).1 ∧
      StepLaw A h ⟨s, e, (s.apply A e).2, (s.apply A e).1⟩ := by
  have hinputs : ∀ e' : Step σ δ, (h ++ [e']).map Machine.Event.input =
      h.map Machine.Event.input ++ [e'.input] := by
    intro e'
    rw [List.map_append, List.map_singleton]
  have hfed : ∀ e' : Step σ δ, fed A (h ++ [e']) = fed A h ++ (fedBy A e').toList := by
    intro e'
    unfold fed
    rw [List.filterMap_append, List.filterMap_cons, List.filterMap_nil]
    cases fedBy A e' <;> rfl
  -- in a sorted run, no earlier push is later than this one
  have hsplit : (pushTimes (h.map Machine.Event.input ++ [e])).Pairwise (· ≤ ·) →
      Sound A (fed A h) s ∧ ∀ g ∈ fed A h, ∀ t ∈ pushTimes [e], g.observedAt ≤ t := by
    intro hsorted
    unfold pushTimes at hsorted
    rw [List.filterMap_append, List.pairwise_append] at hsorted
    refine ⟨hs.sound hsorted.1, fun g hg t ht => hsorted.2.2 _ ?_ t ht⟩
    have hmem := List.mem_map_of_mem (f := Fed.observedAt) hg
    rw [fed_times] at hmem
    exact hmem
  refine ⟨⟨fun hsorted => ?_, ?_, ?_⟩, fun hsorted => ?_⟩
  · rw [hinputs] at hsorted
    obtain ⟨hsound, htimes⟩ := hsplit hsorted
    rw [hfed]
    exact (hsound.apply e htimes).1
  · rw [hinputs, apply_boundary, hs.boundary]
    unfold Observation.boundary
    rw [List.foldl_concat]
  · exact hs.current.step _ rfl (outcome_apply s e)
  · rw [hinputs] at hsorted
    obtain ⟨hsound, htimes⟩ := hsplit hsorted
    refine ⟨(hsound.apply e htimes).2, fun hrecords => ?_⟩
    rw [hfed, ← hs.boundary]
    exact hsound.records e _ hrecords

theorem inputs_of_run (A : AnalyzerArithmetic σ δ) (now : ℕ) {events : List (Event σ δ)} :
    ∀ {s t : SpectrumAnalyzer σ δ} {h : List (Step σ δ)},
      (analyzerMachine A now).run s events = some (t, h) → h.map Machine.Event.input = events := by
  induction events with
  | nil =>
    intro s t h hrun
    cases hrun
    rfl
  | cons e events ih =>
    intro s t h hrun
    obtain ⟨s', o, h', -, hrest, rfl⟩ := (Machine.run_cons_eq_some _).1 hrun
    rw [List.map_cons, ih hrest]

/-- **Integrity of measurements.** In every run whose pushes have non-decreasing times, what a
    worker result records is a measurement of consecutive samples of one unbroken run, under the
    context and the revision of the state and after the last scan boundary; the scanner is only
    given a measurement of the current context that was recorded under the current revision;
    and no push submits more than four windows. -/
theorem measurement_integrity (A : AnalyzerArithmetic σ δ) (now : ℕ) {events : List (Event σ δ)}
    (htimes : (pushTimes events).Pairwise (· ≤ ·)) {h : List (Step σ δ)}
    {t : SpectrumAnalyzer σ δ}
    (hrun : (analyzerMachine A now).run (analyzerMachine A now).init events = some (t, h)) :
    (∀ past e later, h = past ++ e :: later → Records e →
      ∃ context m, e.after.measurement = some (context, m) ∧
        Measured A (fed A (past ++ [e])) (boundary (past.map Machine.Event.input)) e.after
          context m) ∧
    (∀ m, t.scanMeasurement = some m → ∃ past e later, h = past ++ e :: later ∧
      e.after.measurement = some (t.observationContext, m) ∧
      e.before.measurementSequence < m.sequence ∧ e.after.streamRevision = t.streamRevision) ∧
    ∀ e ∈ h, e.output.length ≤ maxFftsPerPush := by
  have hinit : Faithful A [] (analyzerMachine A now).init := by
    refine ⟨fun _ => Stream.sound ⟨.inl rfl, ?_, holding_new _ _, ?_, rfl⟩, rfl, fun _ _ hm => ?_⟩
    · exact RingBuffer.holds_replicate 2048 (A.zero, now) new_size_pos
    · exact (RingBuffer.size_replicate 2048 (A.zero, now) new_size_pos).symm
    · cases hm
  obtain ⟨hfaithful, hsteps⟩ := (analyzerMachine A now).run_inv_steps (Q := StepLaw A) hinit
    (fun h s i s' o hs hstep => by
      have heq := Prod.ext_iff.1 (Option.some.inj hstep)
      obtain ⟨rfl, rfl⟩ := heq
      exact hs.step i) hrun
  have hinputs := inputs_of_run A now hrun
  have hfront : ∀ past e later, h = past ++ e :: later →
      (pushTimes ((past ++ [e]).map Machine.Event.input)).Pairwise (· ≤ ·) := by
    intro past e later hsplit
    have hpast : past ++ [e] <+: h := ⟨later, by rw [hsplit, List.append_assoc]; rfl⟩
    refine htimes.sublist ?_
    rw [← hinputs]
    exact ((hpast.map _).filterMap _).sublist
  refine ⟨fun past e later hsplit hrecords => ?_, fun m hm => ?_, fun e he => ?_⟩
  · exact (hsteps past e later hsplit (hfront past e later hsplit)).2 hrecords
  · unfold SpectrumAnalyzer.scanMeasurement at hm
    split at hm
    · next context measurement hmeasurement =>
      split at hm
      · next hcontext =>
        cases hm
        rw [← hcontext]
        exact hfaithful.current context m hmeasurement
      · cases hm
    · cases hm
  · obtain ⟨past, later, hsplit⟩ := List.append_of_mem he
    exact (hsteps past e later hsplit (hfront past e later hsplit)).1

/-- Samples and levels are numbers, and the transform does nothing. -/
def plainArithmetic : AnalyzerArithmetic ℕ ℕ where
  zero := 0
  sanitize := id
  transform := fun _ samples => samples
  finite := fun _ => true
  max := Nat.max
  floor := 0
  bandEdges := fun _ => (0, 0)

/-- A boundary at 10, a block before it and one after it, whose window is transformed. -/
def boundaryFront : List (Event ℕ ℕ) :=
  [.setFftSize 256 0,
   .beginScan 10,
   .pushCapture [1, 2] (.new 0 0 2048000 none) 5 2 fun _ => [],
   .pushCapture (List.replicate 256 3) (.new 0 2 2048000 none) 12 256 fun _ => [],
   .worker .receive,
   .worker .transform]

/-- The spectrum comes back. -/
def boundaryRun : List (Event ℕ ℕ) := boundaryFront ++ [.receive]

/-- The last step records the window of the second block, and the scanner is given it. -/
theorem measurement_integrity_boundaryRun :
    ∃ t past e, (analyzerMachine plainArithmetic 0).run (analyzerMachine plainArithmetic 0).init
        boundaryRun = some (t, past ++ [e]) ∧
      (Records e ∧ ∃ context m, e.after.measurement = some (context, m) ∧
        Measured plainArithmetic (fed plainArithmetic (past ++ [e]))
          (boundary (past.map Machine.Event.input)) e.after context m) ∧
      (∃ m, t.scanMeasurement = some m ∧ m.windowStartedAt = 12 ∧
        ∃ before e' later, past ++ [e] = before ++ e' :: later ∧
          e'.after.measurement = some (t.observationContext, m) ∧
          e'.before.measurementSequence < m.sequence ∧
          e'.after.streamRevision = t.streamRevision) ∧
      ∀ e' ∈ past ++ [e], e'.output.length ≤ maxFftsPerPush := by
  have htimes : (pushTimes boundaryRun).Pairwise (· ≤ ·) := by decide
  -- the front is evaluated, up to what the last step reads of it
  have hvalues : ((analyzerMachine plainArithmetic 0).run (analyzerMachine plainArithmetic 0).init
      boundaryFront).map (fun r => (r.1.measurementSequence,
        (r.1.tryRecvSpectrum plainArithmetic).measurementSequence,
        (r.1.tryRecvSpectrum plainArithmetic).scanMeasurement)) =
      some (0, 1, some ⟨1, 12, 12, 3⟩) := by
    decide +kernel
  obtain ⟨⟨u, past⟩, hfront, hvalue⟩ := Option.map_eq_some_iff.1 hvalues
  obtain ⟨hbefore, hafter, hm⟩ := by simpa only [Prod.mk.injEq] using hvalue
  have hlast : (analyzerMachine plainArithmetic 0).run u [.receive] =
      some (u.tryRecvSpectrum plainArithmetic,
        [⟨u, .receive, [], u.tryRecvSpectrum plainArithmetic⟩]) := rfl
  have hrun := (analyzerMachine plainArithmetic 0).run_append.2
    ⟨u, past, _, hfront, hlast, rfl⟩
  have hlaw := measurement_integrity plainArithmetic 0 htimes hrun
  have hrecords : Records (⟨u, .receive, [], u.tryRecvSpectrum plainArithmetic⟩ : Step ℕ ℕ) := by
    refine ⟨?_, fun _ _ => nofun⟩
    dsimp only
    rw [hbefore, hafter]
    exact Nat.one_ne_zero
  exact ⟨_, past, _, hrun, ⟨hrecords, hlaw.1 past _ [] rfl hrecords⟩,
    ⟨_, hm, rfl, hlaw.2.1 _ hm⟩, hlaw.2.2⟩

end Observation
