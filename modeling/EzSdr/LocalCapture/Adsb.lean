import EzSdr.LocalCapture.Stream

/-! # Local ADS-B Ingestion

    The worker takes blocks of the local capture from its queue and keeps
    account of what it received and what it lost. Losses are inferred: from the
    indices of the blocks, from the progress of a session that has ended, and
    from the total of all sessions. Each is read at a moment of its own, and so
    is the length of the queue.

    The decoder itself and what it finds are left out. -/

namespace LocalCapture.Adsb

/-! ## Section 1: The snapshot -/

/-- `LocalAdsbSnapshot`, without what the decoder finds. -/
structure LocalAdsbSnapshot where
  generation            : ℕ
  epoch                 : Option ℕ
  discontinuityRevision : ℕ
  receivedSamples       : ℕ
  lostSamples           : ℕ
  totalReceivedSamples  : ℕ
  totalLostSamples      : ℕ
  sourceSamples         : ℕ
  droppedBlocks         : ℕ
  complete              : Bool
  deriving DecidableEq

def LocalAdsbSnapshot.default : LocalAdsbSnapshot := ⟨0, none, 0, 0, 0, 0, 0, 0, 0, false⟩

/-- `DecoderState`, without the decoder. -/
structure DecoderState where
  snapshot         : LocalAdsbSnapshot
  nextStreamSample : ℕ
  session          : Option ℕ

namespace DecoderState

def new : DecoderState := ⟨.default, 0, none⟩

/-- `configure`, where the configuration asks for a new decoder. -/
def reset (d : DecoderState) : DecoderState :=
  { d with snapshot :=
    { d.snapshot with
      epoch := none, discontinuityRevision := d.snapshot.discontinuityRevision + 1 } }

/-- A session that has ended: what is missing at its end is lost. -/
def complete (d : DecoderState) (samples : ℕ) : DecoderState :=
  let tail := samples - d.nextStreamSample
  { d with
    nextStreamSample := samples
    snapshot := { d.snapshot with
      lostSamples := d.snapshot.lostSamples + tail
      totalLostSamples := d.snapshot.totalLostSamples + tail
      complete := true
      discontinuityRevision :=
        d.snapshot.discontinuityRevision + if tail > 0 then 1 else 0 } }

/-- `account_progress`: the state, and whether the generation is complete now. -/
def accountProgress (d : DecoderState) (progress : CaptureProgress) (queued drops : ℕ) :
    DecoderState × Bool :=
  let d := { d with snapshot := { d.snapshot with droppedBlocks := drops } }
  if progress.generation = 0 ∨ progress.generation ≠ d.snapshot.generation then (d, false)
  else
    let d := { d with snapshot := { d.snapshot with sourceSamples := progress.samples } }
    if progress.live = false ∧ queued = 0 ∧ d.snapshot.complete = false then
      (d.complete progress.samples, true)
    else (d, false)

/-- The first block of a generation. -/
def begin (d : DecoderState) (sessions : ℕ → CaptureProgress) (block : CaptureBlock) :
    DecoderState :=
  -- FIFO order guarantees there are no older accepted blocks behind this one
  let d := match d.session with
    | none => d
    | some session => (d.accountProgress (sessions session) 0 d.snapshot.droppedBlocks).1
  { snapshot := { LocalAdsbSnapshot.default with
      generation := block.sourceGeneration
      totalReceivedSamples := d.snapshot.totalReceivedSamples
      totalLostSamples := d.snapshot.totalLostSamples
      droppedBlocks := d.snapshot.droppedBlocks }
    nextStreamSample := 0
    session := some block.session }

/-- What a block of the current generation adds. -/
def count (d : DecoderState) (block : CaptureBlock) : DecoderState × Bool :=
  let missing := block.streamSampleIndex - d.nextStreamSample
  let boundary := d.snapshot.epoch ≠ some block.clock.epoch || block.clock.discontinuous ||
    missing > 0
  ({ d with
      nextStreamSample := block.next
      snapshot := { d.snapshot with
        lostSamples := d.snapshot.lostSamples + missing
        totalLostSamples := d.snapshot.totalLostSamples + missing
        receivedSamples := d.snapshot.receivedSamples + block.count
        totalReceivedSamples := d.snapshot.totalReceivedSamples + block.count
        complete := false
        epoch := some block.clock.epoch
        discontinuityRevision :=
          d.snapshot.discontinuityRevision + if boundary then 1 else 0 } }, boundary)

/-- `ingest`: the state, and whether the block begins something new. -/
def ingest (d : DecoderState) (sessions : ℕ → CaptureProgress) (block : CaptureBlock) :
    DecoderState × Bool :=
  if d.snapshot.generation ≠ block.sourceGeneration then (d.begin sessions block).count block
  else d.count block

/-- A whole short generation of which no block was received. -/
def lose (d : DecoderState) (current : CaptureProgress) : DecoderState :=
  { d with snapshot := { LocalAdsbSnapshot.default with
      generation := current.generation
      sourceSamples := current.samples
      lostSamples := current.samples
      totalReceivedSamples := d.snapshot.totalReceivedSamples
      totalLostSamples := d.snapshot.totalLostSamples
      droppedBlocks := d.snapshot.droppedBlocks
      complete := true } }

/-- `account_finished_stream`, up to the look at the total: `none` if it returns
    before that, else the state and whether the generation changed. -/
def finishedStream (d : DecoderState) (current : CaptureProgress) (queued : ℕ) :
    Option (DecoderState × Bool) :=
  if current.generation = 0 ∨ current.live = true ∨ queued > 0 then none
  else if current.generation ≠ d.snapshot.generation then some (d.lose current, true)
  else some (d, false)

/-- `account_finished_stream`, from the look at the total on: the state, and
    whether there is a new loss. -/
def accountTotal (d : DecoderState) (total : ℕ) : DecoderState × Bool :=
  let lost := total - d.snapshot.totalReceivedSamples
  let newLoss := lost ≠ d.snapshot.totalLostSamples
  ({ d with snapshot := { d.snapshot with
      totalLostSamples := lost
      discontinuityRevision :=
        d.snapshot.discontinuityRevision + if newLoss then 1 else 0 } }, newLoss)

end DecoderState

/-! ## Section 2: The worker -/

/-- The next thing the worker does. `dirty` tells that the snapshot is to be
    stored at the end of the round. -/
inductive Phase where
  | receiving
  | received (block : Option CaptureBlock) (dirty : Bool)
  | ingested (dirty : Bool)
  | progressRead (progress : CaptureProgress) (dirty : Bool)
  | accounted (dirty : Bool)
  | queueRead (queued : ℕ) (dirty : Bool)
  | streamRead (dirty : Bool)
  | storing (dirty : Bool)

structure State where
  stream  : CaptureStream
  decoder : DecoderState
  phase   : Phase
  /-- The snapshot that others see. -/
  output  : LocalAdsbSnapshot

inductive Input where
  | producer (step : ProducerStep)
  /-- A block or a time-out, with a new configuration perhaps; `true` if it
      asks for a new decoder. -/
  | receive (configured : Option Bool)
  | ingest
  | readProgress
  | accountProgress
  | readQueue
  | readStream
  | readTotal
  /-- 16 ms may have passed since the last store. -/
  | store (due : Bool)

inductive Output where
  | silent
  | produced (o : Produced)
  | ingested (block : CaptureBlock)

/-- The progress of the session that is followed, or else of the current one. -/
def State.progress (s : State) : CaptureProgress :=
  match s.decoder.session with
  | none => s.stream.progress
  | some session => s.stream.sessions session

/-- One step; `none` if it is not the next one of its thread. -/
def step (s : State) : Input → Option (State × Output)
  | .producer p => (s.stream.produce p).map fun r => ({ s with stream := r.1 }, .produced r.2)
  | .receive configured =>
    match s.phase, s.stream.input with
    | .receiving, some q =>
      let decoder := if configured = some true then s.decoder.reset else s.decoder
      match q.queue.tryRecv with
      | some (block, queue) =>
        some ({ s with
          stream := { s.stream with input := some { q with queue := queue } }
          decoder := decoder
          phase := .received (some block) configured.isSome }, .silent)
      | none =>
        some ({ s with decoder := decoder, phase := .received none configured.isSome }, .silent)
    | _, _ => none
  | .ingest =>
    match s.phase with
    | .received (some block) dirty =>
      let (decoder, boundary) := s.decoder.ingest s.stream.sessions block
      some ({ s with decoder := decoder, phase := .ingested (dirty || boundary) },
        .ingested block)
    | .received none dirty => some ({ s with phase := .ingested dirty }, .silent)
    | _ => none
  | .readProgress =>
    match s.phase with
    | .ingested dirty => some ({ s with phase := .progressRead s.progress dirty }, .silent)
    | _ => none
  | .accountProgress =>
    match s.phase, s.stream.input with
    | .progressRead progress dirty, some q =>
      let (decoder, finished) := s.decoder.accountProgress progress q.queue.items.length q.dropped
      some ({ s with decoder := decoder, phase := .accounted (dirty || finished) }, .silent)
    | _, _ => none
  | .readQueue =>
    match s.phase, s.stream.input with
    | .accounted dirty, some q =>
      some ({ s with phase := .queueRead q.queue.items.length dirty }, .silent)
    | _, _ => none
  | .readStream =>
    match s.phase with
    | .queueRead queued dirty =>
      match s.decoder.finishedStream s.stream.progress queued with
      | none => some ({ s with phase := .storing dirty }, .silent)
      | some (decoder, changed) =>
        some ({ s with decoder := decoder, phase := .streamRead (dirty || changed) }, .silent)
    | _ => none
  | .readTotal =>
    match s.phase with
    | .streamRead dirty =>
      let (decoder, newLoss) := s.decoder.accountTotal s.stream.totalSamples
      some ({ s with decoder := decoder, phase := .storing (dirty || newLoss) }, .silent)
    | _ => none
  | .store due =>
    match s.phase with
    | .storing dirty =>
      some ({ s with
        phase := .receiving
        output := if dirty || due then s.decoder.snapshot else s.output }, .silent)
    | _ => none

/-- The worker subscribes before the first session starts. -/
def machine : Machine State Input Output where
  init := ⟨{ CaptureStream.new with input := some ⟨.empty 128 capacity_pos, 0⟩ }, .new, .receiving,
    .default⟩
  step := step

end LocalCapture.Adsb
