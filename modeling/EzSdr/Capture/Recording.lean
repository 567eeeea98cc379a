import EzSdr.Capture.Block

/-! # Recording a Channel

    The recorder thread of a virtual channel: which blocks reach the file,
    what the file then holds and what its side-car says about it.

    The write buffer and the disk are the environment's. A call takes all of
    its bytes or fails after some of them; in both cases it may move any part
    of what it was given, and of what earlier calls left in the buffer, to the
    file. The conversion of a component to eight bits is a parameter. -/

namespace Capture

open Ingest (CaptureClock)

/-! ## Section 1: The span of a recording -/

/-- The immutable clock contract of one file. -/
structure RecordingCapture where
  firstClock            : CaptureClock
  centerFrequencyHz     : ℕ
  sampleRateHz          : ℕ
  samples               : ℕ
  nextSourceSampleIndex : ℕ
  deriving DecidableEq

namespace RecordingCapture

/-- What a running recording has against a block with these coordinates. -/
def objection (previous : RecordingCapture) (clock : CaptureClock)
    (centerFrequencyHz sampleRateHz : ℕ) : Option String :=
  if previous.firstClock.epoch ≠ clock.epoch then
    some (s!"Recording stopped: capture epoch changed from {previous.firstClock.epoch} " ++
      s!"to {clock.epoch}")
  else if previous.centerFrequencyHz ≠ centerFrequencyHz ∨
      previous.sampleRateHz ≠ sampleRateHz ∨
      previous.firstClock.sourceSampleRateHz ≠ clock.sourceSampleRateHz ∨
      previous.firstClock.sampleStride ≠ clock.sampleStride ∨
      previous.firstClock.originUnixNs ≠ clock.originUnixNs then
    some "Recording stopped: capture tuning or sample clock changed"
  else if clock.discontinuous = true ∨
      previous.nextSourceSampleIndex ≠ clock.sourceSampleIndex then
    some ("Recording stopped: samples lost or rewound (expected source sample " ++
      s!"{previous.nextSourceSampleIndex}, received {clock.sourceSampleIndex})")
  else none

/-- `RecordingCapture::accept`. -/
def accept (previous : Option RecordingCapture) (clock : CaptureClock)
    (centerFrequencyHz sampleRateHz samples : ℕ) : Except String RecordingCapture :=
  if clock.sampleStride = 0 ∨ sampleRateHz = 0 ∨
      clock.sourceSampleRateHz / clock.sampleStride ≠ sampleRateHz then
    .error "Recording stopped: invalid acquisition sample clock"
  else match offsetSamples clock samples with
    | none => .error "Recording stopped: acquisition sample index overflow"
    | some next =>
      match previous.bind (·.objection clock centerFrequencyHz sampleRateHz) with
      | some reason => .error reason
      | none =>
        match checkedAdd (previous.elim 0 (·.samples)) samples with
        | none => .error "Recording stopped: recorded sample count overflow"
        | some total =>
          .ok { firstClock := previous.elim clock (·.firstClock)
                centerFrequencyHz := centerFrequencyHz
                sampleRateHz := sampleRateHz
                samples := total
                nextSourceSampleIndex := next.sourceSampleIndex }

end RecordingCapture

/-! ## Section 2: Samples as bytes -/

/-- A complex sample, by the bit patterns of its two components. -/
structure Complex32 where
  re : BitVec 32
  im : BitVec 32
  deriving DecidableEq

inductive RecordingFormat where
  | cf32
  | rawU8
  deriving DecidableEq

/-- Bytes of one sample. -/
def RecordingFormat.sampleBytes : RecordingFormat → ℕ
  | .cf32 => 8
  | .rawU8 => 2

/-- `f32::to_le_bytes`. -/
def toLeBytes (x : BitVec 32) : List (BitVec 8) :=
  [x.extractLsb' 0 8, x.extractLsb' 8 8, x.extractLsb' 16 8, x.extractLsb' 24 8]

def complexToCf32LeBytes (samples : List Complex32) : List (BitVec 8) :=
  samples.flatMap fun s => toLeBytes s.re ++ toLeBytes s.im

def complexToUc8Bytes (componentToUc8 : BitVec 32 → BitVec 8) (samples : List Complex32) :
    List (BitVec 8) :=
  samples.flatMap fun s => [componentToUc8 s.re, componentToUc8 s.im]

/-- The bytes of a block in a file of the given format. -/
def RecordingFormat.bytes (format : RecordingFormat) (componentToUc8 : BitVec 32 → BitVec 8)
    (block : SampleBlock Complex32) : List (BitVec 8) :=
  match format with
  | .cf32 => complexToCf32LeBytes block.samples
  | .rawU8 => complexToUc8Bytes componentToUc8 block.samples

/-! ## Section 3: The buffered writer -/

/-- `BufWriter<File>`: what has reached the file and what waits in the buffer. -/
structure Writer where
  file     : List (BitVec 8)
  buffered : List (BitVec 8)

/-- A call into the writer moves `drained` bytes to the file, and may fail. -/
structure WriteOutcome where
  drained : ℕ
  error   : Option String

/-- Move bytes from the buffer to the file. -/
def Writer.drain (w : Writer) (count : ℕ) : Writer where
  file := w.file ++ w.buffered.take count
  buffered := w.buffered.drop count

/-- `write_all`. A call that fails keeps none of its own bytes in the buffer:
    what it did not bring to the file is lost. -/
def Writer.writeAll (w : Writer) (bytes : List (BitVec 8)) (io : WriteOutcome) : Writer :=
  match io.error with
  | none => { w with buffered := w.buffered ++ bytes }.drain io.drained
  | some _ =>
    { file := w.file ++ (w.buffered ++ bytes).take io.drained
      buffered := w.buffered.drop io.drained }

/-- `flush` empties the buffer, unless it fails on the way. -/
def Writer.flush (w : Writer) (io : WriteOutcome) : Writer :=
  match io.error with
  | none => w.drain w.buffered.length
  | some _ => w.drain io.drained

/-! ## Section 4: The recorder thread -/

/-- What the thread finds at one turn of its loop: nothing for a while, or a
    block, with what the writer will do if it is given the block. -/
inductive Offer where
  | idle
  | block (block : SampleBlock Complex32) (io : WriteOutcome)

/-- The local variables of `record_thread` and the cells it shares. -/
structure Recorder where
  capture      : Option RecordingCapture
  writer       : Writer
  bytesWritten : ℕ
  error        : Option String
  stopReason   : Option String

/-- A recorder on a file that was just created. -/
def Recorder.new : Recorder where
  capture := none
  writer := ⟨[], []⟩
  bytesWritten := 0
  error := none
  stopReason := none

section Thread

variable (format : RecordingFormat) (componentToUc8 : BitVec 32 → BitVec 8) (metadata : Bool)

/-- The block as the recorder accepts it: its own coordinates only. -/
def RecordingCapture.acceptBlock (previous : Option RecordingCapture)
    (block : SampleBlock Complex32) : Except String RecordingCapture :=
  RecordingCapture.accept previous block.captureClock block.centerFreqHz block.sampleRateHz
    block.samples.length

/-- The reason of a refusal goes to the side-car, where there is one. -/
def Recorder.refuse (r : Recorder) (reason : String) : Recorder :=
  if metadata then { r with stopReason := some reason } else { r with error := some reason }

/-- The loop of `record_thread`, up to its `break` or to the stop flag, which
    is seen set after the last of the given offers. -/
def recordLoop (r : Recorder) : List Offer → Recorder
  | [] => r
  | .idle :: offers => recordLoop r offers
  | .block block io :: offers =>
    if block.samples = [] then recordLoop r offers
    else match RecordingCapture.acceptBlock r.capture block with
      | .error reason => r.refuse metadata reason
      | .ok next =>
        let bytes := format.bytes componentToUc8 block
        let r := { r with writer := r.writer.writeAll bytes io }
        match io.error with
        | some message => { r with error := some message }
        | none =>
          recordLoop { r with bytesWritten := (r.bytesWritten + bytes.length) % 2 ^ 64,
                              capture := some next } offers

/-! ## Section 5: The side-car -/

/-- The side-car as the thread rewrites it at its end, without the fields that
    `start_recording` fixed and the duration in seconds. -/
structure Sidecar where
  frequencyHz  : Option ℕ
  sampleRateHz : Option ℕ
  capture      : Option RecordingCapture
  bytesTotal   : ℕ
  complete     : Bool
  stopReason   : Option String
  deriving DecidableEq

/-- The calls after the loop: the flush, the length of the file, the side-car
    and the last attempt of the dropped writer to empty its buffer. -/
structure FinishIo where
  flush   : WriteOutcome
  size    : Option String
  sidecar : Option String
  dropped : ℕ

/-- Keep the first error. -/
def Recorder.orError (r : Recorder) (message : String) : Recorder :=
  { r with error := r.error.or (some message) }

/-- The flush, with its error. -/
def Recorder.flush (r : Recorder) (io : WriteOutcome) : Recorder :=
  let r := { r with writer := r.writer.flush io }
  match io.error with
  | none => r
  | some failure => r.orError s!"flush failed: {failure}"

/-- The length of the file replaces the count of bytes, where it can be had. -/
def Recorder.measure (r : Recorder) (size : Option String) : Recorder :=
  match size with
  | none => { r with bytesWritten := r.writer.file.length }
  | some failure => r.orError s!"file metadata failed: {failure}"

/-- `saturating_mul`. -/
def saturatingMul (a b : ℕ) : ℕ := min (a * b) (2 ^ 64 - 1)

/-- The span of the bytes that are really in the file. -/
def RecordingCapture.resize (capture : RecordingCapture) (samples : ℕ) : RecordingCapture :=
  { capture with
    samples := samples
    nextSourceSampleIndex :=
      (offsetSamples capture.firstClock samples).elim capture.firstClock.sourceSampleIndex
        (·.sourceSampleIndex) }

/-- The side-car of a recorder that has flushed and measured its file. -/
def Recorder.sidecar (r : Recorder) : Sidecar :=
  let sampleBytes := format.sampleBytes
  let bytes := r.bytesWritten
  let intact := r.capture.any fun c => saturatingMul c.samples sampleBytes = bytes
  let capture := r.capture.map (·.resize (bytes / sampleBytes))
  let reason := r.stopReason.or r.error
  { frequencyHz := capture.map (·.centerFrequencyHz)
    sampleRateHz := capture.map (·.sampleRateHz)
    capture := capture
    bytesTotal := bytes
    complete := reason.isNone && intact && bytes % sampleBytes = 0
    stopReason := reason }

/-- The end of `record_thread`: the recorder it leaves and the side-car on disk,
    if it could be written. -/
def Recorder.finish (r : Recorder) (io : FinishIo) : Recorder × Option Sidecar :=
  let r := r.flush io.flush
  if metadata then
    let r := r.measure io.size
    let sidecar := r.sidecar format
    let dropped := { r with writer := r.writer.drain io.dropped }
    match io.sidecar with
    | none => (dropped, some sidecar)
    | some failure =>
      ({ dropped with error := some s!"recording metadata failed: {failure}" }, none)
  else ({ r with writer := r.writer.drain io.dropped }, none)

end Thread

end Capture
