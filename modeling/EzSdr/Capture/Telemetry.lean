import EzSdr.Capture.Block
import EzSdr.Framework.Machine

/-! # The Telemetry Pipeline

    The pipeline that feeds the blocks of a virtual channel to the LRPT decoder
    and publishes previews, final images and product boundaries.

    The decoder itself is a parameter, `LrptDecoder`: its demodulator works on
    floating-point numbers. What it sends over its progress channel while it is
    fed is kept in the pipeline state, as the receiving end is. Identifiers of
    products come from the process-wide counter of capture epochs, from which
    other threads take values as well; it is taken not to wrap. -/

namespace Capture

/-! ## Section 1: Profiles and the decoder -/

inductive MeteorProfile where
  | oqpsk72
  | oqpsk80Interleaved
  deriving DecidableEq

def MeteorProfile.symbolRateHz : MeteorProfile → ℕ
  | .oqpsk72 => 72000
  | .oqpsk80Interleaved => 80000

def MeteorProfile.label : MeteorProfile → String
  | .oqpsk72 => "OQPSK 72k · NRZ-M"
  | .oqpsk80Interleaved => "OQPSK 80k · interleaved NRZ-M"

/-- `validate_mission_sampling`: the error, if there is one. -/
def validateMissionSampling (sampleRate : ℕ) (profile : MeteorProfile) : Option String :=
  let minimum := profile.symbolRateHz * 4
  if sampleRate < minimum then
    some (s!"{profile.label} requires at least {minimum} samples/s " ++
      s!"(four samples per symbol); got {sampleRate}")
  else none

structure GrayImage where
  width  : ℕ
  height : ℕ
  pixels : List UInt8
  deriving DecidableEq

/-- The fields of `DecodeProgress` that the pipeline reads. -/
structure DecodeProgress where
  rsOk         : ℕ
  rsFailed     : ℕ
  costasLocked : Bool
  frameLocked  : Bool
  preview      : List (ℕ × GrayImage)

/-- `DecodeResult`, for a type `τ` of line times. -/
structure DecodeResult (τ : Type*) where
  images               : List (ℕ × GrayImage)
  lineTimesUnixSeconds : ℕ → Option (List (Option τ))
  rsOk                 : ℕ
  rsFailed             : ℕ

/-- The decoder: states `δ`, samples `α`, line times `τ`. -/
structure LrptDecoder (δ α τ : Type*) where
  /-- A decoder for a mission whose sampling is valid. -/
  mission          : ℕ → MeteorProfile → δ
  /-- `reset_stream` at another sample rate. -/
  resetStream      : δ → ℕ → δ
  /-- `push_complex`, with what goes over the progress channel. -/
  pushComplex      : δ → List α → δ × List DecodeProgress
  resultSnapshot   : δ → Option (DecodeResult τ)
  progressSnapshot : δ → DecodeProgress

section Pipeline

variable {δ α τ : Type*}

/-- `LrptDecoder::for_mission`. -/
def LrptDecoder.forMission (D : LrptDecoder δ α τ) (sampleRate : ℕ) (profile : MeteorProfile) :
    Except String δ :=
  match validateMissionSampling sampleRate profile with
  | some error => .error error
  | none => .ok (D.mission sampleRate profile)

/-- `LrptDecoder::reset_mission_stream`. Every decoder here has a profile. -/
def LrptDecoder.resetMissionStream (D : LrptDecoder δ α τ) (decoder : δ) (sampleRate : ℕ)
    (profile : MeteorProfile) : Except String δ :=
  match validateMissionSampling sampleRate profile with
  | some error => .error error
  | none => .ok (D.resetStream decoder sampleRate)

/-! ## Section 2: Frames and state -/

structure TelemetryFrame (τ : Type*) where
  productId            : ℕ
  channelId            : ℕ
  apid                 : ℕ
  width                : ℕ
  height               : ℕ
  pixels               : List UInt8
  lineTimesUnixSeconds : List (Option τ)
  finalProduct         : Bool
  productComplete      : Bool
  rsOk                 : ℕ
  rsFailed             : ℕ
  costasLocked         : Bool
  frameLocked          : Bool
  deriving DecidableEq

/-- `TelemetryPipeline`, with the queue of its input and the epoch counter. -/
structure Telemetry (δ α : Type*) where
  input            : List (SampleBlock α)
  channelId        : ℕ
  decoder          : δ
  profile          : MeteorProfile
  sampleRateHz     : ℕ
  centerFreqHz     : ℕ
  sourceProduct    : Option ℕ
  productId        : ℕ
  productFinalized : Bool
  continuity       : SampleContinuity
  progress         : List DecodeProgress
  nextEpoch        : ℕ

/-- What a call does to the outside, in order: a frame goes to the subscribers,
    or a block goes to the decoder while a product is current. -/
inductive TelemetryAction (α τ : Type*) where
  | publish (frame : TelemetryFrame τ)
  | feed (productId : ℕ) (block : SampleBlock α)

/-- The answer of a call: the pipeline it leaves, what it did, and its error. -/
structure TelemetryCall (δ α τ : Type*) where
  pipeline : Telemetry δ α
  actions  : List (TelemetryAction α τ)
  error    : Option String

variable (D : LrptDecoder δ α τ)

namespace Telemetry

/-- `TelemetryPipeline::new`. -/
def new (channelId sampleRateHz : ℕ) (profile : MeteorProfile) (centerFreqHz nextEpoch : ℕ) :
    Except String (Telemetry δ α) :=
  match D.forMission sampleRateHz profile with
  | .error error => .error error
  | .ok decoder =>
    .ok { input := []
          channelId := channelId
          decoder := decoder
          profile := profile
          sampleRateHz := sampleRateHz
          centerFreqHz := centerFreqHz
          sourceProduct := none
          productId := nextEpoch
          productFinalized := false
          continuity := none
          progress := []
          nextEpoch := nextEpoch + 1 }

/-! ## Section 3: Product boundaries -/

/-- The frame that announces a product before any of its images. -/
def resetFrame (p : Telemetry δ α) : TelemetryFrame τ where
  productId := p.productId
  channelId := p.channelId
  apid := 0
  width := 0
  height := 0
  pixels := []
  lineTimesUnixSeconds := []
  finalProduct := false
  productComplete := false
  rsOk := 0
  rsFailed := 0
  costasLocked := false
  frameLocked := false

/-- A full-resolution image of the product. -/
def finalFrame (p : Telemetry δ α) (result : DecodeResult τ) (apid : ℕ) (image : GrayImage) :
    TelemetryFrame τ where
  productId := p.productId
  channelId := p.channelId
  apid := apid
  width := image.width
  height := image.height
  pixels := image.pixels
  lineTimesUnixSeconds := (result.lineTimesUnixSeconds apid).getD []
  finalProduct := true
  productComplete := false
  rsOk := result.rsOk
  rsFailed := result.rsFailed
  costasLocked := true
  frameLocked := true

/-- The marker after the last image of the product. -/
def completionFrame (p : Telemetry δ α) : TelemetryFrame τ where
  productId := p.productId
  channelId := p.channelId
  apid := 0
  width := 0
  height := 0
  pixels := []
  lineTimesUnixSeconds := []
  finalProduct := false
  productComplete := true
  rsOk := (D.progressSnapshot p.decoder).rsOk
  rsFailed := (D.progressSnapshot p.decoder).rsFailed
  costasLocked := true
  frameLocked := true

/-- The images of a product that is finalised now. -/
def finalFrames (p : Telemetry δ α) : List (TelemetryFrame τ) :=
  match D.resultSnapshot p.decoder with
  | none => []
  | some result => result.images.map fun (apid, image) => p.finalFrame result apid image

/-- `finalize_product`. -/
def finalizeProduct (p : Telemetry δ α) : Telemetry δ α × List (TelemetryAction α τ) :=
  if p.productFinalized then (p, [])
  else ({ p with productFinalized := true },
    (p.finalFrames D ++ [p.completionFrame D]).map .publish)

/-- `retire_product`. -/
def retireProduct (p : Telemetry δ α) : TelemetryCall δ α τ :=
  let (p, finals) := p.finalizeProduct D
  match D.forMission p.sampleRateHz p.profile with
  | .error error => ⟨p, finals, some error⟩
  | .ok decoder =>
    let p := { p with decoder := decoder, continuity := none, progress := [],
                      productId := p.nextEpoch, nextEpoch := p.nextEpoch + 1,
                      productFinalized := false }
    ⟨p, finals ++ [.publish p.resetFrame], none⟩

/-- `start_new_product`. -/
def startNewProduct (p : Telemetry δ α) : TelemetryCall δ α τ :=
  retireProduct D { p with input := [] }

/-- `retune`. -/
def retune (p : Telemetry δ α) (sampleRateHz centerFreqHz : ℕ) : TelemetryCall δ α τ :=
  match validateMissionSampling sampleRateHz p.profile with
  | some error => ⟨p, [], some error⟩
  | none =>
    let p := { p with sampleRateHz := sampleRateHz }
    if p.centerFreqHz ≠ centerFreqHz then
      startNewProduct D { p with centerFreqHz := centerFreqHz, sourceProduct := none }
    else match D.resetMissionStream p.decoder sampleRateHz p.profile with
      | .error error => ⟨p, [], some error⟩
      | .ok decoder => ⟨{ p with decoder := decoder, continuity := none, progress := [] }, [], none⟩

/-! ## Section 4: Blocks -/

/-- One preview image. -/
def previewFrame (p : Telemetry δ α) (progress : DecodeProgress) (apid : ℕ)
    (image : GrayImage) : TelemetryFrame τ where
  productId := p.productId
  channelId := p.channelId
  apid := apid
  width := image.width
  height := image.height
  pixels := image.pixels
  lineTimesUnixSeconds := []
  finalProduct := false
  productComplete := false
  rsOk := progress.rsOk
  rsFailed := progress.rsFailed
  costasLocked := progress.costasLocked
  frameLocked := progress.frameLocked

/-- `publish_progress`, for everything that waits in the progress channel. -/
def previewFrames (p : Telemetry δ α) : List (TelemetryFrame τ) :=
  p.progress.flatMap fun progress =>
    progress.preview.map fun (apid, image) => p.previewFrame progress apid image

/-- The end of `process_block`: the block is fed to the current product. A block
    that does not continue the last one finds the transport state reset. -/
def feed (p : Telemetry δ α) (block : SampleBlock α) :
    Option (Telemetry δ α × List (TelemetryAction α τ)) :=
  let (contiguous, continuity) := observe p.continuity block
  let p := { p with sourceProduct := some block.productSession, continuity := continuity }
  let stream : Option (Telemetry δ α) :=
    if contiguous then some p
    else match D.resetMissionStream p.decoder block.sampleRateHz p.profile with
      | .error _ => none
      | .ok decoder => some { p with decoder := decoder, progress := [] }
  stream.map fun p =>
    let (decoder, progress) := D.pushComplex p.decoder block.samples
    let p := { p with decoder := decoder, progress := p.progress ++ progress }
    ({ p with progress := [] },
      .feed p.productId block :: p.previewFrames.map .publish)

/-- `process_block`; `none` is a failed `expect`. -/
def processBlock (p : Telemetry δ α) (block : SampleBlock α) :
    Option (Telemetry δ α × List (TelemetryAction α τ)) :=
  if p.productFinalized then some (p, [])
  else if block.centerFreqHz ≠ p.centerFreqHz then some (p, [])
  else if (validateMissionSampling block.sampleRateHz p.profile).isSome then
    match D.resetMissionStream p.decoder p.sampleRateHz p.profile with
    | .error _ => none
    | .ok decoder => some ({ p with decoder := decoder, continuity := none, progress := [] }, [])
  else
    let p := { p with sampleRateHz := block.sampleRateHz }
    if p.sourceProduct.any (· ≠ block.productSession) then
      let retired := p.retireProduct D
      match retired.error with
      | some _ => none
      | none => (retired.pipeline.feed D block).map fun (p, fed) => (p, retired.actions ++ fed)
    else p.feed D block

/-- `tick`: one queued block, if there is one. -/
def tick (p : Telemetry δ α) : Option (Telemetry δ α × List (TelemetryAction α τ)) :=
  match p.input with
  | [] => some (p, [])
  | block :: input => processBlock D { p with input := input } block

end Telemetry

/-! ## Section 5: The machine -/

inductive TelemetryInput (α : Type*) where
  /-- The channel publishes a block. -/
  | arrive (block : SampleBlock α)
  /-- The full queue loses its oldest block. -/
  | evict
  /-- The thread of the pipeline runs once. -/
  | tick
  | retune (sampleRateHz centerFreqHz : ℕ)
  | startNewProduct
  | finalizeProduct
  /-- Another thread takes a capture epoch. -/
  | epochTaken
  /-- The running flag is cleared: the thread ends and emits nothing. -/
  | shutdown

/-- The actions of a call and its error. -/
abbrev TelemetryOutput (α τ : Type*) := List (TelemetryAction α τ) × Option String

/-- One call, or one event around the pipeline. -/
def Telemetry.step (p : Telemetry δ α) (input : TelemetryInput α) :
    Option (Telemetry δ α × TelemetryOutput α τ) :=
  match input with
  | .arrive block => some ({ p with input := p.input ++ [block] }, [], none)
  | .evict => some ({ p with input := p.input.tail }, [], none)
  | .tick => (p.tick D).map fun (p, actions) => (p, actions, none)
  | .retune rate center =>
    let call := p.retune D rate center
    some (call.pipeline, call.actions, call.error)
  | .startNewProduct =>
    let call := p.startNewProduct D
    some (call.pipeline, call.actions, call.error)
  | .finalizeProduct =>
    let (p, actions) := p.finalizeProduct D
    some (p, actions, none)
  | .epochTaken => some ({ p with nextEpoch := p.nextEpoch + 1 }, [], none)
  | .shutdown => some (p, [], none)

/-- A pipeline that `new` returned, over any sequence of inputs. A failed
    `expect` is a crash. -/
def Telemetry.machine (p : Telemetry δ α) :
    Machine (Telemetry δ α) (TelemetryInput α) (TelemetryOutput α τ) where
  init := p
  step := Telemetry.step D

end Pipeline

end Capture
