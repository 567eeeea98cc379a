import EzSdr.LocalCapture.Stream
import EzSdr.Capture.Recording

/-! # Recording a Local Capture

    `CaptureRecorder` has a thread of its own: it takes blocks from its queue,
    gives them to a writer, and ends when the session it records has ended.
    That is not told by the queue but by a flag of the session.

    The writer is the raw one. What the disk does is the environment's. -/

namespace LocalCapture

open Capture (RecordingCapture saturatingMul)

/-! ## Section 1: The raw writer -/

/-- The side-car, without the fields that no call looks at or changes. -/
structure Metadata where
  frequencyHz               : Option ℕ
  sampleRateHz              : Option ℕ
  captureInputDroppedBlocks : Option ℕ
  captureInputLostSamples   : Option ℕ
  lostSamples               : Option ℕ
  iqBytesTotal              : Option ℕ
  capture                   : Option RecordingCapture
  complete                  : Option Bool
  stopReason                : Option String

/-- The outcome of `try_send` to the disk thread. -/
inductive TrySend where
  | ok
  | full
  | disconnected
  deriving DecidableEq

/-- How the disk thread ended, and after how many bytes if it did not write all. -/
inductive DiskEnd where
  | done
  | failed (error : String) (written : ℕ)
  | panicked (written : ℕ)

/-- What the calls after the loop meet with. -/
structure FinishIo where
  disk    : DiskEnd
  /-- An error of `std::fs::metadata`. -/
  size    : Option String
  /-- An error of the side-car. -/
  sidecar : Option String

structure RawCaptureWriter where
  metadata      : Metadata
  capture       : Option RecordingCapture
  bytesWritten  : ℕ
  error         : Option String
  droppedChunks : ℕ
  audioPending  : Bool
  /-- What was sent to the disk thread. -/
  chunks        : List (List (BitVec 8))

namespace RawCaptureWriter

/-- `RawCaptureWriter::new`, with the header of the file. -/
def new (frequencyHz sampleRateHz : Option ℕ) (audioPending : Bool) : RawCaptureWriter where
  metadata := ⟨frequencyHz, sampleRateHz, none, none, none, none, none, none, none⟩
  capture := none
  bytesWritten := 0
  error := none
  droppedChunks := 0
  audioPending := audioPending
  chunks := []

/-- `write_capture`: the writer, and the error of the call. -/
def writeCapture (w : RawCaptureWriter) (block : CaptureBlock) (sent : TrySend) :
    RawCaptureWriter × Option String :=
  if block.samples = [] then (w, none)
  else
    let rate := block.clock.sourceSampleRateHz / max block.clock.sampleStride 1
    if w.metadata.frequencyHz ≠ some block.centerHz ∨ w.metadata.sampleRateHz ≠ some rate then
      (w, some "Recording stopped: capture tuning or sample rate differs from the file header")
    else if block.samples.length % 2 ≠ 0 then
      (w, some "Recording stopped: incomplete I/Q sample")
    else
      match RecordingCapture.accept w.capture block.clock block.centerHz rate block.count with
      | .error reason => (w, some reason)
      | .ok capture =>
        match sent with
        | .ok =>
          ({ w with bytesWritten := w.bytesWritten + block.samples.length,
                    capture := some capture, chunks := w.chunks ++ [block.samples] }, none)
        | .full =>
          ({ w with droppedChunks := w.droppedChunks + 1,
                    metadata := { w.metadata with lostSamples := some block.count } },
           some "Recording stopped: IQ writer queue overflow")
        | .disconnected => (w, some "IQ writer disconnected")

/-- The error of `progress`. -/
def progressError (w : RawCaptureWriter) (diskFinished : Bool) : Option String :=
  w.error.or (if diskFinished then some "IQ disk writer stopped unexpectedly" else none)

/-- `fail` keeps the first error. -/
def fail (w : RawCaptureWriter) (error : String) : RawCaptureWriter :=
  { w with error := w.error.or (some error) }

def inputOverflow (w : RawCaptureWriter) (blocks samples : ℕ) : RawCaptureWriter :=
  { w with
    metadata := { w.metadata with
      captureInputDroppedBlocks := some blocks, captureInputLostSamples := some samples } }

def sourceEnded (w : RawCaptureWriter) : RawCaptureWriter :=
  { w with metadata := { w.metadata with stopReason := some "capture session ended" } }

/-- What the disk thread left in the file. -/
def file (w : RawCaptureWriter) : DiskEnd → List (BitVec 8)
  | .done => w.chunks.flatten
  | .failed _ written => w.chunks.flatten.take written
  | .panicked written => w.chunks.flatten.take written

/-- The disk thread is joined. -/
def joinDisk (w : RawCaptureWriter) : DiskEnd → RawCaptureWriter
  | .done => w
  | .failed error _ =>
    if w.error = some "IQ disk writer stopped unexpectedly" ∨
        w.error = some "IQ writer disconnected" then
      { w with error := some error }
    else w.fail error
  | .panicked _ => w.fail "IQ disk writer panicked"

/-- The span and the error are brought in line with the file. -/
def measure (w : RawCaptureWriter) (size : ℕ) : RawCaptureWriter :=
  let w := { w with bytesWritten := size }
  let w := match w.capture with
    | none => w
    | some capture =>
      if saturatingMul capture.samples 2 = size then w
      else
        { w with
          metadata := { w.metadata with lostSamples := some (capture.samples - size / 2) }
          error := w.error.or (some "IQ disk writer did not preserve the accepted prefix")
          capture := some (capture.resize (size / 2)) }
  if size % 2 = 0 then w else w.fail "IQ disk writer left an incomplete sample"

/-- The side-car at the end. -/
def writeMetadata (w : RawCaptureWriter) : RawCaptureWriter :=
  { w with
    metadata := { w.metadata with
      iqBytesTotal := some w.bytesWritten
      capture := w.capture
      complete := some (w.error.isNone && !w.audioPending)
      stopReason := w.error.or w.metadata.stopReason } }

/-- `finish`: the writer as its result shows it. -/
def finish (w : RawCaptureWriter) (io : FinishIo) : RawCaptureWriter :=
  let w := w.joinDisk io.disk
  let w := match io.size with
    | none => w.measure (w.file io.disk).length
    | some error => w.fail s!"IQ file metadata failed: {error}"
  let w := w.writeMetadata
  match io.sidecar with
  | none => w
  | some error => w.fail s!"Failed to finalize recording metadata: {error}"

end RawCaptureWriter

/-! ## Section 2: The worker -/

structure Control where
  stopAt   : Option ℕ
  deadline : Option ℕ

/-- `Control::end`. -/
def Control.end? (c : Control) : Option ℕ :=
  match c.stopAt, c.deadline with
  | some stop, some deadline => some (min stop deadline)
  | stop, deadline => stop.or deadline

/-- The next thing the recorder does. -/
inductive Phase where
  /-- Not started. -/
  | unstarted
  /-- Subscribed, the owner is not read yet. -/
  | subscribed
  /-- A block is received, or the wait times out. -/
  | receiving
  /-- The control is read. -/
  | received (block : Option CaptureBlock)
  /-- The block is written, or the loop left. -/
  | controlled (block : Option CaptureBlock) (stop : Option ℕ)
  /-- The drop counter and the writer are looked at. -/
  | checking
  /-- The loop was left. -/
  | closing
  | stopped
  deriving DecidableEq

structure Recorder where
  control : Control
  owner   : Option ℕ
  /-- Session and index of the first block. -/
  first   : Option (ℕ × ℕ)
  writer  : RawCaptureWriter
  phase   : Phase
  /-- The file, once the recording has stopped. -/
  file    : List (BitVec 8)

structure State where
  stream   : CaptureStream
  recorder : Recorder

inductive Input where
  | producer (step : ProducerStep)
  /-- `CaptureRecorder::start` subscribes. -/
  | begin (deadline : Option ℕ)
  /-- It reads the session and its flag. -/
  | readOwner
  | setDeadline (deadline : Option ℕ)
  | requestStop (now : ℕ)
  | receive
  | readControl
  | act (now : ℕ) (sent : TrySend)
  | check (diskFinished : Bool)
  | close (io : FinishIo)

inductive Output where
  | silent
  | produced (o : Produced)
  | wrote (block : CaptureBlock)
  | writeFailed (error : String)

namespace State

variable (s : State)

/-- The owner's session has ended. -/
def ownerEnded : Bool := s.recorder.owner.any fun i => !(s.stream.sessions i).live

/-- `break`, with or without the note that the source has ended. -/
def leave (ended : Bool) : State :=
  { s with recorder :=
    { s.recorder with
      phase := .closing
      writer := if ended then s.recorder.writer.sourceEnded else s.recorder.writer } }

/-- The block belongs to another session or generation than the owner's. -/
def foreign (owner : ℕ) (block : CaptureBlock) : Bool :=
  block.session ≠ owner || block.sourceGeneration ≠ (s.stream.sessions owner).generation

/-- The turn of the loop that has a block. -/
def record (block : CaptureBlock) (sent : TrySend) : State × Output :=
  let owner := s.recorder.owner.getD block.session
  let s := { s with recorder := { s.recorder with owner := some owner } }
  if s.foreign owner block then (s.leave true, .silent)
  else
    let (writer, error) := s.recorder.writer.writeCapture block sent
    let first := s.recorder.first.or (some (block.session, block.streamSampleIndex))
    match error with
    | none =>
      ({ s with recorder := { s.recorder with writer, first, phase := .checking } },
       .wrote block)
    | some error =>
      ({ s with recorder :=
        { s.recorder with writer := writer.fail error, first, phase := .closing } },
       .writeFailed error)

/-- The turn of the loop, after the control was read. -/
def act (block : Option CaptureBlock) (stop : Option ℕ) (now : ℕ) (sent : TrySend) :
    State × Output :=
  match block with
  | some block =>
    if stop.any (block.observedAt > ·) then (s.leave s.ownerEnded, .silent)
    else s.record block sent
  | none =>
    if stop.any (now ≥ ·) then (s.leave s.ownerEnded, .silent)
    else if s.ownerEnded then (s.leave true, .silent)
    else ({ s with recorder := { s.recorder with phase := .checking } }, .silent)

/-- The end of a turn. -/
def check (dropped : ℕ) (diskFinished : Bool) : State :=
  if dropped > 0 then s.leave false
  else match s.recorder.writer.progressError diskFinished with
    | some error =>
      { s with recorder :=
        { s.recorder with writer := s.recorder.writer.fail error, phase := .closing } }
    | none => { s with recorder := { s.recorder with phase := .receiving } }

/-- Samples of the first block's session that were not accepted. -/
def missing : ℕ :=
  s.recorder.first.elim 0 fun (session, start) =>
    (s.stream.sessions session).samples - start - s.recorder.writer.capture.elim 0 (·.samples)

/-- The end of the thread: the handle is dropped and the file finished. -/
def close (dropped : ℕ) (io : FinishIo) : State :=
  let writer := s.recorder.writer
  let writer :=
    if dropped > 0 then
      (writer.inputOverflow dropped s.missing).fail
        "Recording stopped: capture input queue overflow"
    else writer
  { stream := { s.stream with input := none }
    recorder := { s.recorder with
      writer := writer.finish io, file := writer.file io.disk, phase := .stopped } }

/-- The other threads set deadlines and ask for a stop. -/
def setControl (control : Control) : State :=
  { s with recorder := { s.recorder with control := control } }

end State

/-- One step; `none` if it is not the next one of its thread. Sessions and
    recorders are started by the same thread, so no session is started between
    the subscription and the look at the session. -/
def step (s : State) : Input → Option (State × Output)
  | .producer p =>
    match s.recorder.phase, p with
    | .subscribed, .start _ => none
    | _, _ => (s.stream.produce p).map fun r => ({ s with stream := r.1 }, .produced r.2)
  | .begin deadline =>
    if s.recorder.phase = .unstarted then
      some (⟨{ s.stream with input := some ⟨.empty 128 capacity_pos, 0⟩ },
        { s.recorder with control := ⟨none, deadline⟩, phase := .subscribed }⟩, .silent)
    else none
  | .readOwner =>
    if s.recorder.phase = .subscribed then
      let owner := if s.stream.progress.live then some s.stream.session else none
      some ({ s with recorder := { s.recorder with owner := owner, phase := .receiving } }, .silent)
    else none
  | .setDeadline deadline =>
    some (s.setControl { s.recorder.control with deadline := deadline }, .silent)
  | .requestStop now =>
    let control := s.recorder.control
    some (s.setControl { control with stopAt := control.stopAt.or (some now) }, .silent)
  | .receive =>
    match s.recorder.phase, s.stream.input with
    | .receiving, some q =>
      match q.queue.tryRecv with
      | some (block, queue) =>
        some (⟨{ s.stream with input := some { q with queue := queue } },
          { s.recorder with phase := .received (some block) }⟩, .silent)
      -- 20 ms have passed without a block
      | none => some ({ s with recorder := { s.recorder with phase := .received none } }, .silent)
    | _, _ => none
  | .readControl =>
    match s.recorder.phase with
    | .received block =>
      let phase := .controlled block s.recorder.control.end?
      some ({ s with recorder := { s.recorder with phase := phase } }, .silent)
    | _ => none
  | .act now sent =>
    match s.recorder.phase with
    | .controlled block stop => some (s.act block stop now sent)
    | _ => none
  | .check diskFinished =>
    match s.recorder.phase, s.stream.input with
    | .checking, some q => some (s.check q.dropped diskFinished, .silent)
    | _, _ => none
  | .close io =>
    match s.recorder.phase, s.stream.input with
    | .closing, some q => some (s.close q.dropped io, .silent)
    | _, _ => none

/-- A capture stream and a recorder of it. -/
def machine (writer : RawCaptureWriter) : Machine State Input Output where
  init := ⟨.new, ⟨⟨none, none⟩, none, none, writer, .unstarted, []⟩⟩
  step := step

end LocalCapture
