import EzSdr.Scan.HitList
import EzSdr.Scan.Windows

/-! # Observations of the Scanner

    A scanner decides on measurements of the spectrum analyzer. When the
    receiver has acknowledged the tuning, the scanner sets a boundary: the
    frequency, the revision of the stream and the time from which samples
    count. Pauses, tunings, gaps and stale input take the boundary away.

    **`observation_discipline`**: in every run, what the scanner decides on was
    measured at its frequency and under the revision of the boundary, after
    settling and dwelling, and no measurement is used twice. -/

namespace Observation

open Scan (FrequencyScanner)

/-! ## Section 1: The scanner with its boundary -/

/-- `SCAN_SETTLE_TIME`: 25 ms, in nanoseconds. -/
def scanSettleTime : ℕ := 25000000

/-- The scanner and the analyzer it reads. -/
structure ScanSession (σ δ : Type) where
  scanner                  : FrequencyScanner δ
  /-- The frequency, the revision and the earliest time of the observation. -/
  observationBoundary      : Option (ℕ × ℕ × ℕ)
  /-- The number of the measurement that was used last. -/
  consumedMeasurement      : Option ℕ
  daemonMode               : Bool
  daemonObservationRequest : Option ℕ
  spectrum                 : SpectrumAnalyzer σ δ

namespace ScanSession

variable {σ δ : Type} (louder : δ → δ → Bool)

/-- Nothing is held any more. -/
def letGo (s : ScanSession σ δ) : ScanSession σ δ :=
  { s with scanner := { s.scanner with holding := false, holdLastActive := none } }

/-- The receiver is not at the selected channel. -/
def awaitReceiver (s : ScanSession σ δ) : ScanSession σ δ :=
  { s with
    observationBoundary := none
    scanner := { s.scanner with lastStepTime := none, holding := false, holdLastActive := none } }

/-- A new boundary. The daemon is asked for a revision of its own. -/
def beginObservation (s : ScanSession σ δ) (now epoch : ℕ) : ScanSession σ δ :=
  let earliest := now + scanSettleTime
  let request := if s.daemonMode then some epoch else none
  let spectrum := (s.spectrum.beginScanObservation earliest).requireDaemonObservation request
  { s with
    spectrum := spectrum
    daemonObservationRequest := request
    observationBoundary := some (s.scanner.currentFreqHz, spectrum.observationRevision, earliest)
    consumedMeasurement := none
    scanner := { s.scanner with
      lastStepTime := some earliest
      holding := false
      holdLastActive := none } }

/-- The measurement began after settling, ended after dwelling and was not used before. -/
def fresh (s : ScanSession σ δ) (earliest : ℕ) (m : SpectrumMeasurement δ) : Bool :=
  earliest ≤ m.windowStartedAt ∧
    earliest + FrequencyScanner.milliseconds s.scanner.dwellMs ≤ m.observedAt ∧
    s.consumedMeasurement ≠ some m.sequence

/-- The scanner decides. A tune request that does not hold needs a new boundary. -/
def useMeasurement (s : ScanSession σ δ) (m : SpectrumMeasurement δ) (now : ℕ) :
    ScanSession σ δ :=
  let scanner := s.scanner.tick louder m.peakDb now
  { s with
    consumedMeasurement := some m.sequence
    scanner := scanner
    observationBoundary :=
      if !scanner.holding && scanner.tuneRequestHz.isSome then none else s.observationBoundary }

/-- The part of a tick after the boundary was found in place. -/
def judge (s : ScanSession σ δ) (earliest now : ℕ) :
    ScanSession σ δ × Option (SpectrumMeasurement δ) :=
  match s.spectrum.scanMeasurement with
  | none => (s.letGo, none)
  | some m =>
    if now < m.observedAt then (s, none)
    else if s.spectrum.measurementMaxAge < now - m.observedAt then
      ({ s.letGo with observationBoundary := none }, none)
    else if s.fresh earliest m then (s.useMeasurement louder m now, some m)
    else (s, none)

/-- `synchronize_observation_context` at the begin of a tick. -/
def synchronize (s : ScanSession σ δ) : ScanSession σ δ :=
  { s with spectrum := s.spectrum.synchronizeObservationContext }

/-- The part of a tick in which the receiver is ready. -/
def observe (s : ScanSession σ δ) (now epoch : ℕ) :
    ScanSession σ δ × Option (SpectrumMeasurement δ) :=
  match s.observationBoundary with
  | some (frequency, revision, earliest) =>
    if frequency = s.scanner.currentFreqHz ∧ revision = s.spectrum.observationRevision then
      s.judge louder earliest now
    else (s.beginObservation now epoch, none)
  | none => (s.beginObservation now epoch, none)

/-- `tick_spectrum_at`, with the measurement that is decided on. -/
def tickSpectrumAt (s : ScanSession σ δ) (receiverReady : Bool) (now epoch : ℕ) :
    ScanSession σ δ × Option (SpectrumMeasurement δ) :=
  if !s.scanner.enabled || s.scanner.paused then (s, none)
  else if !receiverReady || s.spectrum.vfoFrequencyHz ≠ s.scanner.currentFreqHz then
    (s.awaitReceiver, none)
  else s.synchronize.observe louder now epoch

/-! ### The other operations -/

/-- The observation is over. -/
def forget (s : ScanSession σ δ) : ScanSession σ δ :=
  { s with observationBoundary := none, consumedMeasurement := none }

def stop (s : ScanSession σ δ) : ScanSession σ δ :=
  { s.forget with scanner := s.scanner.stop, daemonObservationRequest := none }

def start (s : ScanSession σ δ) (now : ℕ) : ScanSession σ δ :=
  if s.scanner.stepHz = 0 ∨ s.scanner.startHz > s.scanner.stopHz then s.stop
  else { s.forget with scanner := s.scanner.start now }

def startMemoryScan (s : ScanSession σ δ) (freqs : List (ℕ × String)) (now : ℕ) :
    ScanSession σ δ :=
  if freqs.isEmpty then s
  else { s.forget with scanner := s.scanner.startMemoryScan freqs now }

def stopMemoryScan (s : ScanSession σ δ) : ScanSession σ δ :=
  let s := s.stop
  { s with scanner := { s.scanner with memoryScan := false } }

/-- A pause leaves the boundary, `resume` takes it away. -/
def pause (s : ScanSession σ δ) : ScanSession σ δ :=
  { s with scanner := { s.scanner with paused := true } }

def resume (s : ScanSession σ δ) (now : ℕ) : ScanSession σ δ :=
  { s.forget with scanner := { s.scanner with paused := false, lastStepTime := some now } }

end ScanSession

/-- What happens to a scanner and its analyzer, in any order. -/
inductive ScanEvent (σ δ : Type) where
  | tick (receiverReady : Bool) (now epoch : ℕ)
  | spectrum (event : Event σ δ)
  | start (now : ℕ)
  | startMemoryScan (freqs : List (ℕ × String)) (now : ℕ)
  | stop
  | stopMemoryScan
  | pause
  | resume (now : ℕ)
  /-- Ranges, presets, options, exclusions, hits and tune requests, in any way. -/
  | edit (change : FrequencyScanner δ → FrequencyScanner δ)
  | daemon (mode : Bool) (request : Option ℕ)

/-- One event, with the measurement that is decided on. -/
def ScanSession.apply {σ δ : Type} (A : AnalyzerArithmetic σ δ) (louder : δ → δ → Bool)
    (s : ScanSession σ δ) : ScanEvent σ δ → ScanSession σ δ × Option (SpectrumMeasurement δ)
  | .tick receiverReady now epoch => s.tickSpectrumAt louder receiverReady now epoch
  | .spectrum event => ({ s with spectrum := (s.spectrum.apply A event).1 }, none)
  | .start now => (s.start now, none)
  | .startMemoryScan freqs now => (s.startMemoryScan freqs now, none)
  | .stop => (s.stop, none)
  | .stopMemoryScan => (s.stopMemoryScan, none)
  | .pause => (s.pause, none)
  | .resume now => (s.resume now, none)
  | .edit change => ({ s with scanner := change s.scanner }, none)
  | .daemon mode request =>
      ({ s with daemonMode := mode, daemonObservationRequest := request }, none)

/-- A new scanner at a new analyzer. -/
def scanMachine {σ δ : Type} (A : AnalyzerArithmetic σ δ) (louder : δ → δ → Bool)
    (thresholdDb : δ) (now : ℕ) :
    Machine (ScanSession σ δ) (ScanEvent σ δ) (Option (SpectrumMeasurement δ)) where
  init :=
    { scanner := .new thresholdDb
      observationBoundary := none
      consumedMeasurement := none
      daemonMode := false
      daemonObservationRequest := none
      spectrum := .new A now }
  step s e := some (s.apply A louder e)

/-! ## Section 2: What a tick does -/

variable {σ δ : Type} {A : AnalyzerArithmetic σ δ} {louder : δ → δ → Bool}

/-- The decisions are those of before: nothing is logged, tuned or newly held. -/
def Undecided (s s' : FrequencyScanner δ) : Prop :=
  ∃ holding holdLastActive lastStepTime, s' = { s with
      holding := holding, holdLastActive := holdLastActive, lastStepTime := lastStepTime } ∧
    (holding = true → s.holding = true)

theorem Undecided.refl (s : FrequencyScanner δ) : Undecided s s :=
  ⟨s.holding, s.holdLastActive, s.lastStepTime, rfl, id⟩

/-- The boundary is in place: it has the frequency and the revision of the moment. -/
structure InPlace (s : ScanSession σ δ) (earliest : ℕ) : Prop where
  boundary : s.observationBoundary =
    some (s.scanner.currentFreqHz, s.synchronize.spectrum.streamRevision, earliest)
  tuned    : s.spectrum.vfoFrequencyHz = s.scanner.currentFreqHz

/-- A tick that uses a measurement. -/
structure Uses (louder : δ → δ → Bool) (s s' : ScanSession σ δ) (m : SpectrumMeasurement δ)
    (earliest now : ℕ) : Prop where
  inPlace  : InPlace s earliest
  measured : s.synchronize.spectrum.scanMeasurement = some m
  settled  : earliest ≤ m.windowStartedAt
  dwelled  : earliest + FrequencyScanner.milliseconds s.scanner.dwellMs ≤ m.observedAt
  unused   : s.consumedMeasurement ≠ some m.sequence
  after    : s' = s.synchronize.useMeasurement louder m now

/-- Everything a tick can do. -/
inductive TickCases (louder : δ → δ → Bool) (s : ScanSession σ δ) (receiverReady : Bool)
    (now epoch : ℕ) : ScanSession σ δ × Option (SpectrumMeasurement δ) → Prop where
  | idle : TickCases louder s receiverReady now epoch (s, none)
  | await : TickCases louder s receiverReady now epoch (s.awaitReceiver, none)
  | acknowledge (ready : receiverReady = true)
      (tuned : s.spectrum.vfoFrequencyHz = s.scanner.currentFreqHz) :
      TickCases louder s receiverReady now epoch (s.synchronize.beginObservation now epoch, none)
  | wait (s' : ScanSession σ δ) (earliest : ℕ) (inPlace : InPlace s earliest)
      (spectrum : s'.spectrum = s.synchronize.spectrum)
      (boundary : s'.observationBoundary = s.observationBoundary ∨ s'.observationBoundary = none)
      (consumed : s'.consumedMeasurement = s.consumedMeasurement)
      (undecided : Undecided s.scanner s'.scanner) :
      TickCases louder s receiverReady now epoch (s', none)
  | use (s' : ScanSession σ δ) (m : SpectrumMeasurement δ) (earliest : ℕ)
      (uses : Uses louder s s' m earliest now) :
      TickCases louder s receiverReady now epoch (s', some m)

/-- The judgement of a boundary in place: to wait or to use the measurement. -/
theorem judge_cases {s : ScanSession σ δ} {earliest : ℕ} (hplace : InPlace s earliest)
    (receiverReady : Bool) (now epoch : ℕ) :
    TickCases louder s receiverReady now epoch (s.synchronize.judge louder earliest now) := by
  unfold ScanSession.judge
  split
  · exact .wait _ earliest hplace rfl (.inl rfl) rfl ⟨_, _, _, rfl, fun h => Bool.noConfusion h⟩
  · next m hm =>
    split
    · exact .wait _ earliest hplace rfl (.inl rfl) rfl (.refl _)
    · split
      -- stale input takes the boundary away
      · exact .wait _ earliest hplace rfl (.inr rfl) rfl ⟨_, _, _, rfl, fun h => Bool.noConfusion h⟩
      · split
        · next hfresh =>
          unfold ScanSession.fresh at hfresh
          obtain ⟨hsettled, hdwelled, hunused⟩ := of_decide_eq_true hfresh
          exact .use _ m earliest ⟨hplace, hm, hsettled, hdwelled, hunused, rfl⟩
        · exact .wait _ earliest hplace rfl (.inl rfl) rfl (.refl _)

theorem tick_cases (s : ScanSession σ δ) (receiverReady : Bool) (now epoch : ℕ) :
    TickCases louder s receiverReady now epoch
      (s.tickSpectrumAt louder receiverReady now epoch) := by
  unfold ScanSession.tickSpectrumAt
  split
  · exact .idle
  · split
    · exact .await
    · next hready =>
      rw [Bool.or_eq_true, not_or, Bool.not_eq_true', Bool.not_eq_false, decide_eq_true_eq,
        not_not] at hready
      unfold ScanSession.observe
      split
      · next frequency revision earliest hboundary =>
        split
        · next hcurrent =>
          obtain ⟨rfl, rfl⟩ := hcurrent
          exact judge_cases ⟨hboundary, hready.2⟩ receiverReady now epoch
        · exact .acknowledge hready.1 hready.2
      · exact .acknowledge hready.1 hready.2

/-- The analyzer after a tick: synchronized at most, or at the begin of an observation. -/
theorem outcome_tick (s : ScanSession σ δ) (receiverReady : Bool) (now epoch : ℕ) :
    Outcome s.spectrum (s.tickSpectrumAt louder receiverReady now epoch).1.spectrum := by
  have hsync : Outcome s.spectrum s.synchronize.spectrum := outcome_synchronize s.spectrum
  have hcases : TickCases louder s receiverReady now epoch _ := tick_cases s receiverReady now epoch
  generalize s.tickSpectrumAt louder receiverReady now epoch = r at hcases ⊢
  cases hcases with
  | idle => exact .refl _
  | await => exact .refl _
  | acknowledge hready htuned =>
    exact hsync.trans (.cleared rfl (le_refl _) (Nat.le_succ _))
  | wait s' earliest hplace hspectrum => exact hspectrum ▸ hsync
  | use s' m earliest huses => exact huses.after ▸ hsync

/-- **The analyzer after any event**: its measurement is kept, retired or replaced. -/
theorem outcome_session (s : ScanSession σ δ) (e : ScanEvent σ δ) :
    Outcome s.spectrum (s.apply A louder e).1.spectrum := by
  cases e with
  | tick receiverReady now epoch => exact outcome_tick s receiverReady now epoch
  | spectrum event => exact outcome_apply s.spectrum event
  | start now =>
    unfold ScanSession.apply ScanSession.start
    dsimp only
    split
    · exact .refl _
    · exact .refl _
  | startMemoryScan freqs now =>
    unfold ScanSession.apply ScanSession.startMemoryScan
    dsimp only
    split
    · exact .refl _
    · exact .refl _
  | stop => exact .refl _
  | stopMemoryScan => exact .refl _
  | pause => exact .refl _
  | resume now => exact .refl _
  | edit change => exact .refl _
  | daemon mode request => exact .refl _

/-- What an event does to the boundary. -/
inductive Change (louder : δ → δ → Bool) (s : ScanSession σ δ) (e : ScanEvent σ δ)
    (s' : ScanSession σ δ) : Option (SpectrumMeasurement δ) → Prop where
  | lost (boundary : s'.observationBoundary = none) : Change louder s e s' none
  | kept (boundary : s'.observationBoundary = s.observationBoundary)
      (consumed : s'.consumedMeasurement = s.consumedMeasurement) : Change louder s e s' none
  | begun (now epoch : ℕ) (input : e = .tick true now epoch)
      (tuned : s.spectrum.vfoFrequencyHz = s.scanner.currentFreqHz)
      (boundary : s'.observationBoundary = some (s.scanner.currentFreqHz,
        s'.spectrum.streamRevision, now + scanSettleTime))
      (measurement : s'.spectrum.measurement = none) : Change louder s e s' none
  | used (m : SpectrumMeasurement δ) (earliest now : ℕ) (uses : Uses louder s s' m earliest now) :
      Change louder s e s' (some m)

theorem change_tick (s : ScanSession σ δ) (receiverReady : Bool) (now epoch : ℕ) :
    Change louder s (.tick receiverReady now epoch)
      (s.tickSpectrumAt louder receiverReady now epoch).1
      (s.tickSpectrumAt louder receiverReady now epoch).2 := by
  have hcases : TickCases louder s receiverReady now epoch _ := tick_cases s receiverReady now epoch
  generalize s.tickSpectrumAt louder receiverReady now epoch = r at hcases ⊢
  cases hcases with
  | idle => exact .kept rfl rfl
  | await => exact .lost rfl
  | acknowledge hready htuned =>
    rw [hready]
    exact .begun now epoch rfl htuned rfl rfl
  | wait s' earliest hplace hspectrum hboundary hconsumed =>
    rcases hboundary with hsame | hnone
    · exact .kept hsame hconsumed
    · exact .lost hnone
  | use s' m earliest huses => exact .used m earliest now huses

theorem change_session (s : ScanSession σ δ) (e : ScanEvent σ δ) :
    Change louder s e (s.apply A louder e).1 (s.apply A louder e).2 := by
  cases e with
  | tick receiverReady now epoch => exact change_tick s receiverReady now epoch
  | spectrum event => exact .kept rfl rfl
  | start now =>
    unfold ScanSession.apply ScanSession.start
    dsimp only
    split
    · exact .lost rfl
    · exact .lost rfl
  | startMemoryScan freqs now =>
    unfold ScanSession.apply ScanSession.startMemoryScan
    dsimp only
    split
    · exact .kept rfl rfl
    · exact .lost rfl
  | stop => exact .lost rfl
  | stopMemoryScan => exact .lost rfl
  | pause => exact .kept rfl rfl
  | resume now => exact .lost rfl
  | edit change => exact .kept rfl rfl
  | daemon mode request => exact .kept rfl rfl

/-- The measurement that is used is the one the analyzer holds, of the scanner's frequency. -/
theorem Uses.measurement {s s' : ScanSession σ δ} {m : SpectrumMeasurement δ} {earliest now : ℕ}
    (h : Uses louder s s' m earliest now) : ∃ context,
      s.spectrum.measurement = some (context, m) ∧ s'.spectrum.measurement = some (context, m) ∧
      s'.spectrum = s.spectrum ∧ context.vfoHz = s.scanner.currentFreqHz := by
  have hm := h.measured
  have hspectrum : s'.spectrum = s.synchronize.spectrum := h.after ▸ rfl
  unfold SpectrumAnalyzer.scanMeasurement at hm
  split at hm
  · next context measurement hmeasurement =>
    split at hm
    · next hcontext =>
      cases hm
      have hsync : s.synchronize.spectrum = s.spectrum := by
        have hs : s.synchronize.spectrum = s.spectrum.synchronizeObservationContext := rfl
        unfold SpectrumAnalyzer.synchronizeObservationContext at hs
        split at hs
        · exact hs
        -- a reset would have left no measurement
        · rw [hs] at hmeasurement
          cases hmeasurement
      rw [hsync] at hmeasurement hcontext hspectrum
      refine ⟨context, hmeasurement, hspectrum ▸ hmeasurement, hspectrum, ?_⟩
      rw [hcontext]
      exact h.inPlace.tuned
    · cases hm
  · cases hm

theorem Outcome.sequence_le {s s' : SpectrumAnalyzer σ δ} (h : Outcome s s') :
    s.measurementSequence ≤ s'.measurementSequence := by
  cases h with
  | kept _ hsequence _ => exact hsequence.ge
  | cleared _ hsequence _ => exact hsequence
  | recorded context m _ hnew hsequence _ => omega

/-! ## Section 3: The history -/

/-- A step of a run, with the measurement that is decided on. -/
abbrev ScanStep (σ δ : Type) :=
  Machine.Event (ScanSession σ δ) (ScanEvent σ δ) (Option (SpectrumMeasurement δ))

/-- The receiver has acknowledged the scanner's frequency, and an observation begins. -/
def Acknowledges (e : ScanStep σ δ) (frequency revision now : ℕ) : Prop :=
  (∃ epoch, e.input = .tick true now epoch) ∧ e.output = none ∧
    e.before.spectrum.vfoFrequencyHz = frequency ∧ e.before.scanner.currentFreqHz = frequency ∧
    e.after.spectrum.streamRevision = revision

/-- The analyzer records a measurement in this step. -/
def Takes (e : ScanStep σ δ) (context : SpectrumContext) (m : SpectrumMeasurement δ) : Prop :=
  e.after.spectrum.measurement = some (context, m) ∧
    e.before.spectrum.measurementSequence < m.sequence

/-- The history invariant. -/
structure Disciplined (h : List (ScanStep σ δ)) (s : ScanSession σ δ) : Prop where
  acknowledged : ∀ frequency revision earliest,
    s.observationBoundary = some (frequency, revision, earliest) →
    ∃ past ack between now, h = past ++ ack :: between ∧
      Acknowledges ack frequency revision now ∧ earliest = now + scanSettleTime ∧
      (∀ e ∈ between, e.after.observationBoundary = some (frequency, revision, earliest)) ∧
      (s.spectrum.streamRevision = revision → ∀ context m,
        s.spectrum.measurement = some (context, m) →
        ∃ e ∈ between, Takes e context m ∧ e.after.spectrum.streamRevision = revision)
  numbered : ∀ context m, s.spectrum.measurement = some (context, m) →
    m.sequence = s.spectrum.measurementSequence
  used     : ∀ past e later m, h = past ++ e :: later → e.output = some m →
    m.sequence ≤ s.spectrum.measurementSequence ∧
    ∀ context m', s.spectrum.measurement = some (context, m') →
      (m'.sequence = m.sequence →
        s.observationBoundary = none ∨ s.consumedMeasurement = some m.sequence) ∧
      (m.sequence < m'.sequence → ∃ e' ∈ later, Takes e' context m')

variable {h : List (ScanStep σ δ)} {s : ScanSession σ δ} {e : ScanStep σ δ}

theorem numbered_step (hs : Disciplined h s) {s' : ScanSession σ δ}
    (houtcome : Outcome s.spectrum s'.spectrum) {context : SpectrumContext}
    {m : SpectrumMeasurement δ} (hm : s'.spectrum.measurement = some (context, m)) :
    m.sequence = s'.spectrum.measurementSequence := by
  cases houtcome with
  | kept hmeasurement hsequence _ =>
    rw [hmeasurement] at hm
    rw [hs.numbered context m hm, hsequence]
  | cleared hnone =>
    rw [hnone] at hm
    cases hm
  | recorded context' m' hm' hnew hsequence _ =>
    rw [hm'] at hm
    cases hm
    exact hsequence

/-- What was recorded since the boundary stays so, one step later. -/
theorem since_step {between : List (ScanStep σ δ)} {revision : ℕ} (hbefore : e.before = s)
    (houtcome : Outcome s.spectrum e.after.spectrum)
    (hold : s.spectrum.streamRevision = revision → ∀ context m,
      s.spectrum.measurement = some (context, m) →
      ∃ e' ∈ between, Takes e' context m ∧ e'.after.spectrum.streamRevision = revision)
    (hrevision : e.after.spectrum.streamRevision = revision) (context : SpectrumContext)
    (m : SpectrumMeasurement δ) (hm : e.after.spectrum.measurement = some (context, m)) :
    ∃ e' ∈ between ++ [e], Takes e' context m ∧ e'.after.spectrum.streamRevision = revision := by
  cases houtcome with
  | kept hmeasurement _ hsame =>
    rw [hmeasurement] at hm
    obtain ⟨e', he', htakes⟩ := hold (hsame.symm.trans hrevision) context m hm
    exact ⟨e', List.mem_append_left _ he', htakes⟩
  | cleared hnone =>
    rw [hnone] at hm
    cases hm
  | recorded context' m' hm' hnew _ _ =>
    rw [hm'] at hm
    cases hm
    refine ⟨e, List.mem_append_right _ (List.mem_singleton.2 rfl), ⟨hm', ?_⟩, hrevision⟩
    rw [hbefore]
    exact hnew

theorem acknowledged_step (hs : Disciplined h s) (hbefore : e.before = s)
    (houtcome : Outcome s.spectrum e.after.spectrum)
    (hchange : Change louder s e.input e.after e.output) (frequency revision earliest : ℕ)
    (hboundary : e.after.observationBoundary = some (frequency, revision, earliest)) :
    ∃ past ack between now, h ++ [e] = past ++ ack :: between ∧
      Acknowledges ack frequency revision now ∧ earliest = now + scanSettleTime ∧
      (∀ c ∈ between, c.after.observationBoundary = some (frequency, revision, earliest)) ∧
      (e.after.spectrum.streamRevision = revision → ∀ context m,
        e.after.spectrum.measurement = some (context, m) →
        ∃ c ∈ between, Takes c context m ∧ c.after.spectrum.streamRevision = revision) := by
  -- a boundary that was there before is there after the step
  have hkeep : s.observationBoundary = some (frequency, revision, earliest) →
      ∃ past ack between now, h ++ [e] = past ++ ack :: between ∧
        Acknowledges ack frequency revision now ∧ earliest = now + scanSettleTime ∧
        (∀ c ∈ between, c.after.observationBoundary = some (frequency, revision, earliest)) ∧
        (e.after.spectrum.streamRevision = revision → ∀ context m,
          e.after.spectrum.measurement = some (context, m) →
          ∃ c ∈ between, Takes c context m ∧ c.after.spectrum.streamRevision = revision) := by
    intro hold
    obtain ⟨past, ack, between, now, rfl, hack, hearliest, hbetween, hsince⟩ :=
      hs.acknowledged frequency revision earliest hold
    refine ⟨past, ack, between ++ [e], now, by simp, hack, hearliest, ?_, ?_⟩
    · intro c hc
      rcases List.mem_append.1 hc with hold' | hnew
      · exact hbetween c hold'
      · rw [List.mem_singleton.1 hnew]
        exact hboundary
    · exact since_step hbefore houtcome hsince
  generalize houtput : e.output = o at hchange
  cases hchange with
  | lost hnone =>
    rw [hnone] at hboundary
    cases hboundary
  | kept hsame => exact hkeep (hsame ▸ hboundary)
  | begun now epoch hinput htuned hnew hmeasurement =>
    rw [hnew] at hboundary
    cases hboundary
    refine ⟨h, e, [], now, rfl, ⟨⟨epoch, hinput⟩, houtput, ?_, ?_, rfl⟩, rfl, fun c hc => ?_, ?_⟩
    · rw [hbefore]
      exact htuned
    · rw [hbefore]
    · cases hc
    · intro _ context m hm
      rw [hmeasurement] at hm
      cases hm
  | used m earliest' now huses =>
    refine hkeep ?_
    rw [huses.after] at hboundary
    unfold ScanSession.useMeasurement at hboundary
    dsimp only at hboundary
    split at hboundary
    · cases hboundary
    · exact hboundary

/-- What was used is used up, or there is no boundary. -/
theorem used_step (hs : Disciplined h s) (hbefore : e.before = s)
    (houtcome : Outcome s.spectrum e.after.spectrum)
    (hchange : Change louder s e.input e.after e.output) {past later : List (ScanStep σ δ)}
    {e₀ : ScanStep σ δ} {m : SpectrumMeasurement δ} (hsplit : h ++ [e] = past ++ e₀ :: later)
    (hm : e₀.output = some m) :
    m.sequence ≤ e.after.spectrum.measurementSequence ∧
    ∀ context m', e.after.spectrum.measurement = some (context, m') →
      (m'.sequence = m.sequence →
        e.after.observationBoundary = none ∨ e.after.consumedMeasurement = some m.sequence) ∧
      (m.sequence < m'.sequence → ∃ e' ∈ later, Takes e' context m') := by
  rcases Machine.split_concat hsplit with ⟨rfl, rfl⟩ | ⟨later', rfl⟩
  -- the step itself uses the measurement
  · rw [hm] at hchange
    cases hchange with
    | used _ earliest now huses =>
      obtain ⟨context₀, -, hafter, -, -⟩ := huses.measurement
      refine ⟨(numbered_step hs houtcome hafter).le, fun context m' hm' => ?_⟩
      rw [hafter] at hm'
      cases hm'
      refine ⟨fun _ => .inr ?_, fun hlt => absurd hlt (lt_irrefl _)⟩
      rw [huses.after]
      rfl
  · obtain ⟨hle, hold⟩ := hs.used past e₀ later' m rfl hm
    have hlater : later = later' ++ [e] := by
      rw [List.append_assoc, List.cons_append] at hsplit
      exact (List.tail_eq_of_cons_eq (List.append_cancel_left hsplit)).symm
    refine ⟨hle.trans houtcome.sequence_le, fun context m' hm' => ?_⟩
    cases houtcome with
    | cleared hnone =>
      rw [hnone] at hm'
      cases hm'
    | recorded context' m'' hm'' hnew _ _ =>
      rw [hm''] at hm'
      cases hm'
      refine ⟨fun heq => absurd heq (by omega), fun _ => ⟨e, ?_, hm'', hbefore ▸ hnew⟩⟩
      rw [hlater]
      exact List.mem_append_right _ (List.mem_singleton.2 rfl)
    | kept hmeasurement _ _ =>
      rw [hmeasurement] at hm'
      obtain ⟨hused, hnewer⟩ := hold context m' hm'
      refine ⟨fun heq => ?_, fun hlt => ?_⟩
      · generalize e.output = o at hchange
        cases hchange with
        | lost hnone => exact .inl hnone
        | kept hboundary hconsumed =>
          rw [hboundary, hconsumed]
          exact hused heq
        | begun now epoch _ _ _ hnone =>
          rw [hnone] at hmeasurement
          rw [← hmeasurement] at hm'
          cases hm'
        | used m₁ earliest now huses =>
          obtain ⟨context₁, hnow, -, -, -⟩ := huses.measurement
          rw [hnow] at hm'
          cases hm'
          rw [huses.after]
          exact .inr (congrArg some heq)
      · obtain ⟨e', he', htakes⟩ := hnewer hlt
        rw [hlater]
        exact ⟨e', List.mem_append_left _ he', htakes⟩

theorem Disciplined.step (hs : Disciplined h s) (hbefore : e.before = s)
    (houtcome : Outcome s.spectrum e.after.spectrum)
    (hchange : Change louder s e.input e.after e.output) : Disciplined (h ++ [e]) e.after where
  acknowledged := fun frequency revision earliest =>
    acknowledged_step hs hbefore houtcome hchange frequency revision earliest
  numbered := fun _ _ hm => numbered_step hs houtcome hm
  used := fun _ _ _ _ hsplit hm => used_step hs hbefore houtcome hchange hsplit hm

/-! ## Section 4: Decisions -/

/-- The measurement was taken at the scanner's frequency and under its revision, after the
    receiver had acknowledged them, the window began after settling, and it was observed after
    dwelling. -/
def DecidesOn (past : List (ScanStep σ δ)) (e : ScanStep σ δ) (m : SpectrumMeasurement δ) : Prop :=
  ∃ before ack between now, past = before ++ ack :: between ∧
    Acknowledges ack e.before.scanner.currentFreqHz e.before.spectrum.streamRevision now ∧
    (∃ c ∈ between, ∃ context, Takes c context m ∧
      context.vfoHz = e.before.scanner.currentFreqHz ∧
      c.after.spectrum.streamRevision = e.before.spectrum.streamRevision) ∧
    now + scanSettleTime ≤ m.windowStartedAt ∧
    now + scanSettleTime + FrequencyScanner.milliseconds e.before.scanner.dwellMs ≤ m.observedAt

/-- The decision `e'`, after a decision `e` and the steps `mid`, is on a measurement with a later
    number, which was recorded in between. If the first decision was a step, then the tuning
    was acknowledged in between as well. -/
def NewerThan (e : ScanStep σ δ) (mid : List (ScanStep σ δ)) (e' : ScanStep σ δ)
    (m m' : SpectrumMeasurement δ) : Prop :=
  m.sequence < m'.sequence ∧ (∃ c ∈ mid, ∃ context, Takes c context m') ∧
    (e.after.scanner.holding = false → e.after.scanner.tuneRequestHz.isSome = true →
      ∃ ack ∈ mid, ∃ now, Acknowledges ack e'.before.scanner.currentFreqHz
        e'.before.spectrum.streamRevision now ∧ now + scanSettleTime ≤ m'.windowStartedAt)

/-- What holds of a step, given the steps before it. -/
structure DecisionLaw (past : List (ScanStep σ δ)) (e : ScanStep σ δ) : Prop where
  undecided : ∀ receiverReady now epoch, e.input = .tick receiverReady now epoch →
    e.output = none → Undecided e.before.scanner e.after.scanner
  decides   : ∀ m, e.output = some m → DecidesOn past e m
  newer     : ∀ before e₀ mid m m', past = before ++ e₀ :: mid → e₀.output = some m →
    e.output = some m' → NewerThan e₀ mid e m m'

/-- The acknowledgement that a decision rests on, with the history before the decision. -/
theorem Uses.acknowledged (hs : Disciplined h s) {s' : ScanSession σ δ} {m : SpectrumMeasurement δ}
    {earliest now : ℕ} (huses : Uses louder s s' m earliest now) :
    ∃ past ack between now context, h = past ++ ack :: between ∧
      Acknowledges ack s.scanner.currentFreqHz s.spectrum.streamRevision now ∧
      earliest = now + scanSettleTime ∧ context.vfoHz = s.scanner.currentFreqHz ∧
      (∀ c ∈ between, c.after.observationBoundary ≠ none) ∧
      ∃ c ∈ between, Takes c context m ∧
        c.after.spectrum.streamRevision = s.spectrum.streamRevision := by
  obtain ⟨context, hm, -, hspectrum, hvfo⟩ := huses.measurement
  have hsync : s.synchronize.spectrum = s.spectrum := by
    rw [huses.after] at hspectrum
    exact hspectrum
  have hboundary := huses.inPlace.boundary
  rw [hsync] at hboundary
  obtain ⟨past, ack, between, now, hsplit, hack, hearliest, hbetween, hsince⟩ :=
    hs.acknowledged _ _ _ hboundary
  refine ⟨past, ack, between, now, context, hsplit, hack, hearliest, hvfo, fun c hc hnone => ?_,
    hsince rfl context m hm⟩
  rw [hbetween c hc] at hnone
  cases hnone

/-- A step without a boundary afterwards lies before the acknowledgement. -/
theorem acknowledgement_after {past before mid between : List (ScanStep σ δ)}
    {e₀ ack : ScanStep σ δ} {m : SpectrumMeasurement δ}
    (hsplit : before ++ e₀ :: mid = past ++ ack :: between) (hm : e₀.output = some m)
    (hack : ack.output = none) (hlost : e₀.after.observationBoundary = none)
    (hbetween : ∀ c ∈ between, c.after.observationBoundary ≠ none) : ack ∈ mid := by
  have hne : e₀ ≠ ack := by
    rintro rfl
    rw [hack] at hm
    cases hm
  rcases List.append_eq_append_iff.1 hsplit with ⟨front, rfl, hrest⟩ | ⟨front, rfl, hrest⟩
  · cases front with
    | nil => exact absurd (List.head_eq_of_cons_eq hrest) hne
    | cons e₁ front =>
      have hmid : mid = front ++ ack :: between := List.tail_eq_of_cons_eq hrest
      rw [hmid]
      exact List.mem_append_right _ List.mem_cons_self
  · cases front with
    | nil => exact absurd (List.head_eq_of_cons_eq hrest).symm hne
    | cons e₁ front =>
      have hmid : between = front ++ e₀ :: mid := List.tail_eq_of_cons_eq hrest
      refine absurd hlost (hbetween e₀ ?_)
      rw [hmid]
      exact List.mem_append_right _ List.mem_cons_self

/-- After a step of the scanner there is no boundary. -/
theorem Uses.lost {s s' : ScanSession σ δ} {m : SpectrumMeasurement δ} {earliest now : ℕ}
    (huses : Uses louder s s' m earliest now) (hholding : s'.scanner.holding = false)
    (htune : s'.scanner.tuneRequestHz.isSome = true) : s'.observationBoundary = none := by
  obtain rfl := huses.after
  unfold ScanSession.useMeasurement at hholding htune ⊢
  dsimp only at hholding htune ⊢
  rw [hholding, htune]
  exact if_pos rfl

/-- **One step**: the law of decisions follows from the invariant before it. -/
theorem decisionLaw_step (hs : Disciplined h s)
    (hpast : ∀ c ∈ h, Change louder c.before c.input c.after c.output) (hbefore : e.before = s)
    (hundecided : ∀ receiverReady now epoch, e.input = .tick receiverReady now epoch →
      e.output = none → Undecided e.before.scanner e.after.scanner)
    (hchange : Change louder s e.input e.after e.output) : DecisionLaw h e where
  undecided := hundecided
  decides := by
    intro m hm
    rw [hm] at hchange
    cases hchange with
    | used _ earliest now huses =>
      obtain ⟨past, ack, between, now', context, hsplit, hack, rfl, hvfo, -, c, hc, htakes, hr⟩ :=
        huses.acknowledged hs
      subst hbefore
      exact ⟨past, ack, between, now', hsplit, hack, ⟨c, hc, context, htakes, hvfo, hr⟩,
        huses.settled, huses.dwelled⟩
  newer := by
    intro before e₀ mid m m' hsplit hm hm'
    rw [hm'] at hchange
    cases hchange with
    | used _ earliest now huses =>
      obtain ⟨past, ack, between, now', context, hsplit', hack, rfl, -, hbetween, -⟩ :=
        huses.acknowledged hs
      obtain ⟨context', hnow, -⟩ := huses.measurement
      obtain ⟨hle, hold⟩ := hs.used before e₀ mid m hsplit hm
      obtain ⟨hsame, htaken⟩ := hold context' m' hnow
      -- the same number again is used up, and there is a boundary
      have hlt : m.sequence < m'.sequence := by
        refine lt_of_le_of_ne (hs.numbered context' m' hnow ▸ hle) fun heq => ?_
        rcases hsame heq.symm with hnone | hconsumed
        · rw [huses.inPlace.boundary] at hnone
          cases hnone
        · exact huses.unused (hconsumed.trans (congrArg some heq))
      obtain ⟨c, hc, htakes⟩ := htaken hlt
      refine ⟨hlt, ⟨c, hc, context', htakes⟩, fun hholding htune => ?_⟩
      have hmem : e₀ ∈ h := by
        rw [hsplit]
        exact List.mem_append_right _ List.mem_cons_self
      have hfirst := hpast e₀ hmem
      rw [hm] at hfirst
      cases hfirst with
      | used _ earliest₀ now₀ huses₀ =>
        have hlost := huses₀.lost hholding htune
        subst hbefore
        exact ⟨ack, acknowledgement_after (hsplit.symm.trans hsplit') hm hack.2.1 hlost hbetween,
          now', hack, huses.settled⟩

theorem undecided_session (s : ScanSession σ δ) (receiverReady : Bool) (now epoch : ℕ)
    (hnone : (s.tickSpectrumAt louder receiverReady now epoch).2 = none) :
    Undecided s.scanner (s.tickSpectrumAt louder receiverReady now epoch).1.scanner := by
  have hcases : TickCases louder s receiverReady now epoch _ := tick_cases s receiverReady now epoch
  generalize s.tickSpectrumAt louder receiverReady now epoch = r at hcases hnone ⊢
  cases hcases with
  | idle => exact .refl _
  | await => exact ⟨_, _, _, rfl, fun h => Bool.noConfusion h⟩
  | acknowledge => exact ⟨_, _, _, rfl, fun h => Bool.noConfusion h⟩
  | wait s' earliest hplace hspectrum hboundary hconsumed hundecided => exact hundecided
  | use s' m earliest huses => cases hnone

/-- **Observation discipline.** In every run, a tick that uses no measurement logs nothing, tunes
    nothing and holds nothing new; a measurement that is used was taken at the frequency and the
    revision of the scanner, after the receiver had acknowledged them, settled and dwelled; and
    of two decisions the later one is on a newer measurement, recorded after the earlier
    decision and, if that was a step, after a new acknowledgement. -/
theorem observation_discipline (A : AnalyzerArithmetic σ δ) (louder : δ → δ → Bool)
    (thresholdDb : δ) (now : ℕ) {events : List (ScanEvent σ δ)} {h : List (ScanStep σ δ)}
    {t : ScanSession σ δ} (hrun : (scanMachine A louder thresholdDb now).run
      (scanMachine A louder thresholdDb now).init events = some (t, h)) :
    ∀ past e later, h = past ++ e :: later → DecisionLaw past e := by
  refine ((scanMachine A louder thresholdDb now).run_inv_steps
    (P := fun h s => Disciplined h s ∧ ∀ c ∈ h, Change louder c.before c.input c.after c.output)
    (Q := DecisionLaw) ⟨⟨?_, ?_, ?_⟩, ?_⟩ ?_ hrun).2
  · intro frequency revision earliest hboundary
    cases hboundary
  · intro context m hm
    cases hm
  · intro past e later m hnil
    simp at hnil
  · intro c hc
    cases hc
  · intro h s i s' o hs hstep
    obtain ⟨rfl, rfl⟩ := Prod.ext_iff.1 (Option.some.inj hstep)
    obtain ⟨hdisciplined, hpast⟩ := hs
    have hchange : Change louder s i (s.apply A louder i).1 (s.apply A louder i).2 :=
      change_session s i
    refine ⟨⟨hdisciplined.step rfl (outcome_session s i) hchange, fun c hc => ?_⟩,
      decisionLaw_step hdisciplined hpast rfl ?_ hchange⟩
    · rcases List.mem_append.1 hc with hold | hnew
      · exact hpast c hold
      · rw [List.mem_singleton.1 hnew]
        exact hchange
    · rintro receiverReady now' epoch rfl hnone
      exact undecided_session s receiverReady now' epoch hnone

/-- The scan starts, and the receiver acknowledges its first channel. After settling and dwelling
    a window is pushed and transformed, and the scanner decides. Then a scan boundary of another
    user of the analyzer interferes. -/
def interruptedScan : List (ScanEvent ℕ ℕ) :=
  [.start 0,
   .spectrum (.setFftSize 256 0),
   .spectrum (.select (some 88000000) 15000 "NFM" .both),
   .spectrum (.pushCapture [1, 2] (.new 0 0 2048000 none) 5 2 fun _ => []),
   .tick true 10 1,
   .spectrum (.pushCapture (List.replicate 256 3) (.new 0 2 2048000 none) 525000010 256
     fun _ => []),
   .spectrum (.worker .receive),
   .spectrum (.worker .transform),
   .spectrum .receive,
   .tick true 525000020 2,
   .spectrum (.beginScan 525000030),
   .tick true 525000040 3,
   .pause,
   .resume 525000050]

theorem observation_discipline_interruptedScan :
    ∃ t h, (scanMachine plainArithmetic (fun a b => decide (b < a)) 0 0).run
        (scanMachine plainArithmetic (fun a b => decide (b < a)) 0 0).init interruptedScan =
          some (t, h) ∧
      h.filterMap (·.output) = [⟨1, 525000010, 525000010, 3⟩] ∧
      ∀ past e later, h = past ++ e :: later → DecisionLaw past e := by
  have hused : ((scanMachine plainArithmetic (fun a b => decide (b < a)) 0 0).run
      (scanMachine plainArithmetic (fun a b => decide (b < a)) 0 0).init interruptedScan).map
        (fun r => r.2.filterMap (·.output)) = some [⟨1, 525000010, 525000010, 3⟩] := by
    decide +kernel
  obtain ⟨⟨t, h⟩, hrun, hout⟩ := Option.map_eq_some_iff.1 hused
  exact ⟨t, h, hrun, hout,
    observation_discipline plainArithmetic (fun a b => decide (b < a)) 0 0 hrun⟩

end Observation
