import EzSdr.LocalCapture.Stream
import EzSdr.Capture.Block

/-! # The Local Radio Worker

    The worker takes blocks of the local capture from its queue, demodulates
    them and publishes the audio. It keeps account of what it received and of
    what it lost, and publishes both after every turn: recorders of the audio
    end by the one and fail by the other.

    The signal processing is the environment's: it says what audio a block
    gives, and whether a new configuration asks for a reset. -/

namespace LocalCapture.Radio

open Ingest (CaptureClock)
open Capture (offsetSamples)

/-! ## Section 1: The control -/

inductive DemodMode where
  | auto | raw | am | fm | wfm | lsb | usb | dsb | cw
  deriving DecidableEq

inductive SquelchMode where
  | off | power | ctcssMute | ctcssDecode
  deriving DecidableEq

def SquelchMode.usesCtcss : SquelchMode → Bool
  | .ctcssMute => true
  | .ctcssDecode => true
  | _ => false

/-- `DemodConfig`, without what only the signal processing looks at. -/
structure DemodConfig where
  mode      : DemodMode
  audioRate : ℕ
  deriving DecidableEq

/-- I/Q audio has two channels. -/
def DemodConfig.rawIq (c : DemodConfig) : Bool := c.mode = .raw || c.mode = .auto

/-- `RadioConfig`, without what only the signal processing looks at. -/
structure RadioConfig where
  enabled      : Bool
  preview      : Bool
  measurePower : Bool
  centerHz     : ℕ
  generation   : ℕ
  inputRate    : ℕ
  audioRunning : Bool
  squelchMode  : SquelchMode
  rdsEnabled   : Bool
  deriving DecidableEq

structure WorkerControl where
  config  : DemodConfig
  radio   : Option RadioConfig
  version : ℕ
  deriving DecidableEq

/-- Somebody wants what the demodulator makes. -/
def WorkerControl.active (c : WorkerControl) (radio : RadioConfig) (subscribed : Bool) : Bool :=
  radio.audioRunning || subscribed || (radio.rdsEnabled && c.config.mode = .wfm) ||
    (radio.squelchMode.usesCtcss && c.config.mode = .fm)

/-! ## Section 2: The processor -/

/-- `RadioSnapshot`, without what the signal processing measures. -/
structure RadioSnapshot where
  controlVersion        : ℕ
  generation            : ℕ
  epoch                 : Option ℕ
  discontinuityRevision : ℕ
  receivedSamples       : ℕ
  demodulatedSamples    : ℕ
  lostSamples           : ℕ
  skippedSamples        : ℕ
  droppedBlocks         : ℕ
  complete              : Bool
  deriving DecidableEq

def RadioSnapshot.default : RadioSnapshot := ⟨0, 0, none, 0, 0, 0, 0, 0, 0, false⟩

/-- The samples are those a recorder writes. -/
structure RadioAudio where
  samples      : List (BitVec 16)
  channels     : ℕ
  rate         : ℕ
  clock        : CaptureClock
  centerHz     : ℕ
  inputSamples : ℕ
  observedAt   : ℕ
  sequence     : ℕ
  error        : Option String
  deriving DecidableEq

/-- `Processor`, without the signal processing. -/
structure Processor where
  /-- Generation, centre and clock of the block that would continue the last one. -/
  expected    : Option (ℕ × ℕ × CaptureClock)
  session     : Option ℕ
  nextStream  : ℕ
  snapshot    : RadioSnapshot
  sequence    : ℕ
  rfActive    : Bool
  demodActive : Bool

namespace Processor

def new : Processor := ⟨none, none, 0, .default, 0, false, false⟩

def reset (p : Processor) : Processor :=
  { p with
    snapshot := { p.snapshot with discontinuityRevision := p.snapshot.discontinuityRevision + 1 }
    rfActive := false
    demodActive := false }

def configure (p : Processor) (desired : WorkerControl) (changed : Bool) : Processor :=
  let p := if desired.radio.isSome && changed then { p.reset with expected := none } else p
  { p with snapshot := { p.snapshot with controlVersion := desired.version } }

/-- The blocks at the end of a session that has ended, if none of them came. -/
def accountTail (p : Processor) (sessions : ℕ → CaptureProgress) : Processor :=
  match p.session with
  | none => p
  | some session =>
    if (sessions session).live then p
    else
      { p with
        nextStream := (sessions session).samples
        snapshot := { p.snapshot with
          lostSamples := p.snapshot.lostSamples + ((sessions session).samples - p.nextStream) } }

/-- The first block of a generation. -/
def begin (p : Processor) (sessions : ℕ → CaptureProgress) (block : CaptureBlock) : Processor :=
  let p := (p.accountTail sessions).reset
  { p with
    expected := none
    nextStream := 0
    session := some block.session
    snapshot := { p.snapshot with epoch := none, generation := block.sourceGeneration } }

/-- What was lost before a block, and the block itself. -/
def count (p : Processor) (block : CaptureBlock) : Processor × ℕ :=
  let missing := block.streamSampleIndex - p.nextStream
  ({ p with
      nextStream := block.next
      snapshot := { p.snapshot with
        lostSamples := p.snapshot.lostSamples + missing
        receivedSamples := p.snapshot.receivedSamples + block.count
        complete := false } }, missing)

def skip (p : Processor) (block : CaptureBlock) : Processor :=
  { p with
    expected := none
    snapshot := { p.snapshot with skippedSamples := p.snapshot.skippedSamples + block.count } }

def rejectAudio (p : Processor) (block : CaptureBlock) (desired : WorkerControl)
    (subscribed : Bool) : Processor × Option RadioAudio :=
  if subscribed then
    ({ p with sequence := p.sequence + 1 }, some {
      samples := []
      channels := if desired.config.rawIq then 2 else 1
      rate := desired.config.audioRate
      clock := block.clock
      centerHz := block.centerHz
      inputSamples := 0
      observedAt := block.observedAt
      sequence := p.sequence + 1
      error := some "Recording stopped: radio settings no longer match the capture" })
  else (p, none)

/-- The demodulator has made this audio of the block. -/
def demodulate (p : Processor) (block : CaptureBlock) (desired : WorkerControl)
    (subscribed broken : Bool) (audio : List (BitVec 16)) : Processor × Option RadioAudio :=
  let p := { p with
    sequence := p.sequence + 1
    snapshot := { p.snapshot with
      demodulatedSamples := p.snapshot.demodulatedSamples + block.count } }
  (p, if subscribed then some {
      samples := audio
      channels := if desired.config.rawIq then 2 else 1
      rate := desired.config.audioRate
      clock := { block.clock with discontinuous := block.clock.discontinuous || broken }
      centerHz := block.centerHz
      inputSamples := block.count
      observedAt := block.observedAt
      sequence := p.sequence
      error := none }
    else none)

/-- The radio is set to the capture that the block is of. -/
def fits (radio : RadioConfig) (block : CaptureBlock) : Bool :=
  radio.enabled && block.centerHz = radio.centerHz &&
    -- the exact rate of the samples is the quotient
    block.clock.sourceSampleRateHz = radio.inputRate * max block.clock.sampleStride 1

/-- A block of the generation that the radio is set to. -/
def receive (p : Processor) (block : CaptureBlock) (missing : ℕ) (desired : WorkerControl)
    (subscribed : Bool) (audio : List (BitVec 16)) : Processor × Option RadioAudio :=
  let continuous := p.expected = some (block.sourceGeneration, block.centerHz, block.clock)
  let p := if ¬continuous ∨ missing > 0 then p.reset else p
  let p := { p with
    snapshot := { p.snapshot with epoch := some block.clock.epoch }
    expected := (offsetSamples block.clock block.count).map fun (next : CaptureClock) =>
      (block.sourceGeneration, block.centerHz, { next with discontinuous := false }) }
  match desired.radio with
  | none => (p.skip block).rejectAudio block desired subscribed
  | some radio =>
    if fits radio block = false then (p.skip block).rejectAudio block desired subscribed
    else
      let active := desired.active radio subscribed
      if !active && !radio.preview && !radio.measurePower then
        ({ p with rfActive := false, demodActive := false }, none)
      else
        let p := if p.rfActive then p else { p.reset with rfActive := true }
        let resumed := active && !p.demodActive
        let p := { p with demodActive := active }
        if active then
          p.demodulate block desired subscribed (!continuous || missing > 0 || resumed) audio
        else (p, none)

/-- `process`: the audio is published, if there is any. -/
def process (p : Processor) (sessions : ℕ → CaptureProgress) (block : CaptureBlock)
    (desired : WorkerControl) (subscribed : Bool) (audio : List (BitVec 16)) :
    Processor × Option RadioAudio :=
  let p := if p.snapshot.generation ≠ block.sourceGeneration then p.begin sessions block else p
  let (p, missing) := p.count block
  -- a stale tail of the queue must not disturb a recorder of the next session
  if desired.radio.any (block.sourceGeneration ≠ ·.generation) then (p.skip block, none)
  else p.receive block missing desired subscribed audio

/-- The source has ended and all of its blocks were received. -/
def finish (p : Processor) (current : CaptureProgress) (total : ℕ) : Processor :=
  let p := { p with snapshot := { p.snapshot with
    lostSamples := total - p.snapshot.receivedSamples, complete := true } }
  if current.generation ≠ p.snapshot.generation then
    let p := p.reset
    { p with
      session := none
      snapshot := { p.snapshot with generation := current.generation, epoch := none } }
  else p

end Processor

/-! ## Section 3: The worker -/

/-- The next thing the worker does. -/
inductive Phase where
  /-- The worker is not there yet. -/
  | unsubscribed
  | receiving
  | received (block : Option CaptureBlock) (desired : WorkerControl)
  | publishing (audio : RadioAudio)
  | processed
  | progressRead (current : CaptureProgress)
  /-- The source is taken to have ended. -/
  | ended (current : CaptureProgress)
  | tailAccounted (current : CaptureProgress)
  | measured (finished : Bool)
  | handledStored (finished : Bool)

structure State where
  stream    : CaptureStream
  processor : Processor
  phase     : Phase
  /-- `handled_samples` and `lost_samples`, which recorders read. -/
  handled   : ℕ
  lost      : ℕ
  /-- The snapshot that others see. -/
  output    : RadioSnapshot

inductive Input where
  | producer (step : ProducerStep)
  /-- `DemodWorker::new_capture`: a worker of the second receiver begins at any time. -/
  | subscribe
  /-- A block or a time-out, with the control of the moment. -/
  | receive (desired : WorkerControl) (changed : Bool)
  | process (subscribed : Bool) (audio : List (BitVec 16))
  | publish
  | readProgress
  | readQueue
  | accountTail
  | readTotal
  | storeHandled
  /-- 16 ms may have passed since the last snapshot. -/
  | storeLost (due : Bool)

inductive Output where
  | silent
  | produced (o : Produced)
  | processed (block : CaptureBlock)
  | published (audio : RadioAudio)

/-- What is kept of a block while its audio is not published. -/
def Phase.afterProcess (audio : Option RadioAudio) : Phase :=
  match audio with
  | some audio => .publishing audio
  | none => .processed

/-- One step; `none` if it is not the next one of its thread. -/
def step (s : State) : Input → Option (State × Output)
  | .producer p => (s.stream.produce p).map fun r => ({ s with stream := r.1 }, .produced r.2)
  | .subscribe =>
    match s.phase with
    | .unsubscribed =>
      some ({ s with
        stream := { s.stream with input := some ⟨.empty 128 capacity_pos, 0⟩ }
        phase := .receiving }, .silent)
    | _ => none
  | .receive desired changed =>
    match s.phase, s.stream.input with
    | .receiving, some q =>
      let processor := s.processor.configure desired changed
      match q.queue.tryRecv with
      | some (block, queue) =>
        some ({ s with
          stream := { s.stream with input := some { q with queue := queue } }
          processor := processor
          phase := .received (some block) desired }, .silent)
      -- 10 ms have passed without a block
      | none =>
        some ({ s with processor := processor, phase := .received none desired }, .silent)
    | _, _ => none
  | .process subscribed audio =>
    match s.phase with
    | .received (some block) desired =>
      let (processor, audio) :=
        s.processor.process s.stream.sessions block desired subscribed audio
      some ({ s with processor := processor, phase := Phase.afterProcess audio }, .processed block)
    | .received none _ => some ({ s with phase := .processed }, .silent)
    | _ => none
  | .publish =>
    match s.phase with
    | .publishing audio => some ({ s with phase := .processed }, .published audio)
    | _ => none
  | .readProgress =>
    match s.phase with
    | .processed => some ({ s with phase := .progressRead s.stream.progress }, .silent)
    | _ => none
  | .readQueue =>
    match s.phase, s.stream.input with
    | .progressRead current, some q =>
      let finished := current.generation > 0 ∧ current.live = false ∧ q.queue.items = []
      some ({ s with phase := if finished then .ended current else .measured false }, .silent)
    | _, _ => none
  | .accountTail =>
    match s.phase with
    | .ended current =>
      some ({ s with
        processor := s.processor.accountTail s.stream.sessions
        phase := .tailAccounted current }, .silent)
    | _ => none
  | .readTotal =>
    match s.phase with
    | .tailAccounted current =>
      some ({ s with
        processor := s.processor.finish current s.stream.totalSamples
        phase := .measured true }, .silent)
    | _ => none
  | .storeHandled =>
    match s.phase, s.stream.input with
    | .measured finished, some q =>
      let snapshot := { s.processor.snapshot with droppedBlocks := q.dropped }
      some ({ s with
        processor := { s.processor with snapshot := snapshot }
        handled := snapshot.receivedSamples + snapshot.lostSamples
        phase := .handledStored finished }, .silent)
    | _, _ => none
  | .storeLost due =>
    match s.phase with
    | .handledStored finished =>
      let snapshot := s.processor.snapshot
      some ({ s with
        lost := snapshot.lostSamples
        output :=
          if finished || due || snapshot.controlVersion ≠ s.output.controlVersion then snapshot
          else s.output
        phase := .receiving }, .silent)
    | _ => none

def machine : Machine State Input Output where
  init := ⟨.new, .new, .unsubscribed, 0, 0, .default⟩
  step := step

end LocalCapture.Radio
