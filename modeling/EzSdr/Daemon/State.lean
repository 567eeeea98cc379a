import EzSdr.Framework.BTreeMap
import EzSdr.Daemon.Spec
import EzSdr.Ingest.Loop

/-! # Daemon State

    The channel table, the channelizer and the recordings of the daemon, and
    the operations of `DaemonState` that read or change the geometry. Each
    operation is one step; what it reads from the ingestion thread while it
    runs (acknowledgements, receipts, status snapshots) is chosen by the
    environment. -/

namespace Daemon

open Ingest (HardwareStatus)

/-! ## Section 1: State -/

inductive PendingGeometryChange where
  | frequency
  | sampleRate
  deriving DecidableEq

/-- A pipeline, with the configuration it was last given. -/
inductive ActivePipeline where
  | spectrum
  | audio (mode : DemodMode) (parameters : AudioParameters)
  | adsbPackets
  | lrptTelemetry (profile : MeteorProfile) (sampleRateHz centerFreqHz : ℕ)
  deriving DecidableEq

structure ActiveChannel where
  spec              : ChannelSpec
  internalChannelId : Option ℕ
  pipeline          : ActivePipeline
  deriving DecidableEq

inductive RecordingFormat where
  | cf32
  | rawU8
  deriving DecidableEq

/-- A recording: its file, its format, the frequency in its metadata, and
    whether its writer still runs. -/
structure Recording where
  path                 : String
  format               : RecordingFormat
  requestedFrequencyHz : ℕ
  alive                : Bool
  deriving DecidableEq

structure State where
  channelizer : Channelizer
  pending     : Option PendingGeometryChange
  channels    : BTreeMap ChannelId ActiveChannel
  recordings  : BTreeMap ChannelId Recording

/-- `DaemonState::new`. -/
def State.new (widebandCenterHz widebandRateHz : ℕ) : State where
  channelizer := Channelizer.new widebandCenterHz widebandRateHz
  pending := none
  channels := BTreeMap.empty
  recordings := BTreeMap.empty

/-- Some channel of the table has a virtual tap. -/
def State.anyVirtual (s : State) : Bool :=
  s.channels.entries.any fun entry => entry.2.internalChannelId.isSome

/-- Maximum number of concurrent channels. -/
def maxChannels : ℕ := 32

/-- What an operation reads from the ingestion thread before it begins: the
    outcome of the pending command, if it has one by now, the status read by
    the reconciliation, and the status read after it. -/
structure Readings where
  receipt    : Option (Except String Unit)
  reconciled : HardwareStatus
  status     : HardwareStatus

/-- The answer to a hardware command: it may outlive the deadline of its reply. -/
inductive CommandResult where
  | accepted
  | pending
  | rejected (error : String)

/-- What a geometry command reads: the readings of every operation, the answer
    of the hardware and the status after it. -/
structure CommandReadings where
  readings : Readings
  result   : CommandResult
  after    : HardwareStatus

/-! ## Section 2: Reconciliation -/

/-- Run an operation of the channelizer on the one of the state. -/
def onChannelizer {α : Type} (x : Fails Channelizer α) : Fails State α := fun s =>
  match x s.channelizer with
  | (r, c) => (r, { s with channelizer := c })

def receiverError (status : HardwareStatus) : String :=
  status.error.getD "no receiver error details"

def retuneWideband (hz : ℕ) : Fails State Unit :=
  Fallible.modify fun s => { s with channelizer := s.channelizer.retune hz }

/-- The settled change is published to the channelizer. -/
def publishChange (change : PendingGeometryChange) (status : HardwareStatus) : Fails State Unit :=
  match change with
  | .frequency => retuneWideband status.frequencyHz
  | .sampleRate => onChannelizer (Channelizer.setWidebandRateHz status.sampleRateHz)

/-- `reconcile_pending_geometry_change`. -/
def reconcilePendingGeometryChange (r : Readings) : Fails State Unit := do
  let s ← Fallible.get
  match s.pending with
  | none => pure ()
  | some change =>
    let outcome ← Fallible.orFail r.receipt
      "a hardware geometry change is still applying; channel creation and retuning are paused until its outcome is known"
    Fallible.ensure (¬ (change = .sampleRate ∧ s.anyVirtual = true))
      "cannot reconcile the hardware sample rate while virtual channels are active"
    Fallible.ensure (r.reconciled.sampleRateHz ≠ 0)
      "cannot reconcile the hardware geometry change: receiver reports a zero sample rate"
    Fallible.modify fun s => { s with pending := none }
    publishChange change r.reconciled
    match outcome with
    | .ok () => pure ()
    | .error e =>
      Fallible.ensure (r.reconciled.connected = true)
        ("hardware geometry change failed and the receiver is disconnected; verified hardware settings are " ++
          toString r.reconciled.frequencyHz ++ " Hz at " ++ toString r.reconciled.sampleRateHz ++
          " Hz: " ++ e)

/-- `prepare_geometry_operation`. -/
def prepareGeometryOperation (r : Readings) : Fails State Unit := do
  reconcilePendingGeometryChange r
  Fallible.ensure (r.status.connected = true)
    ("receiver is disconnected; channel geometry is unavailable: " ++ receiverError r.status)
  Fallible.ensure (r.status.sampleRateHz ≠ 0)
    "receiver reports a zero sample rate; channel geometry is unavailable"

/-! ## Section 3: Wideband geometry -/

/-- What `set_frequency` does with the answer of the hardware. -/
def finishSetFrequency (hz : ℕ) (result : CommandResult) (after : HardwareStatus) :
    Fails State Unit :=
  match result with
  | .accepted => do
    retuneWideband after.frequencyHz
    Fallible.ensure (after.connected = true)
      ("frequency change was acknowledged, but the receiver disconnected: " ++
        receiverError after)
  | .pending => do
    Fallible.modify fun s => { s with pending := some .frequency }
    Fallible.fail ("frequency change to " ++ toString hz ++
      " Hz is still applying; later geometry changes are paused until receiver status resolves it")
  | .rejected e => do
    retuneWideband after.frequencyHz
    Fallible.ensure (after.connected = true)
      ("frequency change failed and the receiver disconnected; hardware reports " ++
        toString after.frequencyHz ++ " Hz: " ++ e)
    Fallible.fail e

/-- `set_frequency`. -/
def setFrequency (hz : ℕ) (c : CommandReadings) : Fails State Unit := do
  prepareGeometryOperation c.readings
  finishSetFrequency hz c.result c.after

/-- A rate the hardware reports after it rejected another one. -/
def adoptRate (hz previousRate : ℕ) : Fails State Unit :=
  if hz ≠ 0 ∧ hz ≠ previousRate then onChannelizer (Channelizer.setWidebandRateHz hz)
  else pure ()

/-- What `set_sample_rate` does with the answer of the hardware. -/
def finishSetSampleRate (hz previousRate : ℕ) (result : CommandResult) (after : HardwareStatus) :
    Fails State Unit :=
  match result with
  | .accepted => do
    Fallible.ensure (after.sampleRateHz ≠ 0)
      "sample-rate change was acknowledged, but the receiver reports a zero rate"
    onChannelizer (Channelizer.setWidebandRateHz after.sampleRateHz)
    Fallible.ensure (after.connected = true)
      ("sample-rate change was acknowledged, but the receiver disconnected: " ++
        receiverError after)
  | .pending => do
    Fallible.modify fun s => { s with pending := some .sampleRate }
    Fallible.fail ("sample-rate change to " ++ toString hz ++
      " Hz is still applying; the channelizer remains at " ++ toString previousRate ++
      " Hz and later geometry changes are paused until receiver status resolves it")
  | .rejected e => do
    adoptRate after.sampleRateHz previousRate
    let s ← Fallible.get
    Fallible.ensure (after.connected = true)
      ("sample-rate change failed and the receiver disconnected; channelizer remains at " ++
        toString s.channelizer.widebandRateHz ++ " Hz while hardware reports " ++
        toString after.sampleRateHz ++ " Hz: " ++ e)
    Fallible.fail e

/-- `set_sample_rate`. -/
def setSampleRate (hz : ℕ) (c : CommandReadings) : Fails State Unit := do
  prepareGeometryOperation c.readings
  Fallible.ensure (hz ≠ 0) "sample rate must be non-zero"
  let s ← Fallible.get
  Fallible.ensure (s.anyVirtual = false)
    "cannot change sample rate while audio or decoder channels are active; remove them first"
  finishSetSampleRate hz s.channelizer.widebandRateHz c.result c.after

/-! ## Section 4: Creating channels -/

/-- `n as i64`. -/
def asI64 (n : ℕ) : ℤ := if n < 2 ^ 63 then n else n - 2 ^ 64

/-- `i64::saturating_add`. -/
def saturatingAddI64 (a b : ℤ) : ℤ := max (-2 ^ 63) (min (2 ^ 63 - 1) (a + b))

/-- The absolute frequency of a channel, as the code computes it. -/
def virtualCenter (widebandCenterHz : ℕ) (centerOffsetHz : ℤ) : ℕ :=
  (max (saturatingAddI64 (asI64 widebandCenterHz) centerOffsetHz) 0).toNat

/-- `add_virtual_channel`: the id of the new tap. -/
def addVirtualChannel (spec : ChannelSpec) : Fails State ℕ := do
  let s ← Fallible.get
  onChannelizer (Channelizer.addChannel
    (virtualCenter s.channelizer.widebandCenterHz spec.centerOffsetHz) spec.channelSampleRateHz)

def removeTap (id : ℕ) : Fails State Unit :=
  Fallible.modify fun s => { s with channelizer := s.channelizer.removeChannel id }

/-- `create_channel`. The last two failures stand for `expect`s that a validated
    specification does not reach. -/
def createChannel (spec : ChannelSpec) : Fails State ActiveChannel :=
  match spec.kind with
  | .spectrum => pure ⟨spec, none, .spectrum⟩
  | .audio => do
    let id ← addVirtualChannel spec
    pure ⟨spec, some id, .audio spec.mode spec.resolvedAudio⟩
  | .adsbPackets => do
    let id ← addVirtualChannel spec
    if spec.channelSampleRateHz ≠ 2400000 then
      removeTap id
      Fallible.fail ("ADS-B packet decoder requires a configured 2.4 MHz sample rate, got " ++
        toString spec.channelSampleRateHz ++ " Hz")
    else pure ⟨spec, some id, .adsbPackets⟩
  | .lrptTelemetry => do
    let id ← addVirtualChannel spec
    let s ← Fallible.get
    let rate := (s.channelizer.channelOutputRateHz id).getD spec.channelSampleRateHz
    let profile ← Fallible.orFail spec.meteorProfile "validated LRPT profile"
    let center ← Fallible.orFail (s.channelizer.channelCenterHz id) "new channel"
    match profile.validateMissionSampling rate with
    | .error e =>
      removeTap id
      Fallible.fail e
    | .ok () => pure ⟨spec, some id, .lrptTelemetry profile rate center⟩

def differentKind (id : ChannelId) : String :=
  "channel " ++ toString id ++ " already exists with a different kind or Meteor profile; " ++
    "cannot resubscribe with these settings. Remove it or use another channel ID"

def channelLimit : String :=
  "channel limit (" ++ toString maxChannels ++ ") reached; remove a channel first"

/-- Whether the channel exists already; if not, there must be room for it. -/
def findExisting (spec : ChannelSpec) : Fails State Bool := do
  let s ← Fallible.get
  match s.channels.get? spec.id with
  | some existing =>
    Fallible.ensure (existing.spec.kind = spec.kind ∧
      existing.spec.meteorProfile = spec.meteorProfile) (differentKind spec.id)
    pure true
  | none =>
    Fallible.ensure (s.channels.size < maxChannels) channelLimit
    pure false

/-- Remove the tap of a channel that is not kept. -/
def discard (active : ActiveChannel) : Fails State Unit :=
  match active.internalChannelId with
  | some id => removeTap id
  | none => pure ()

/-- The last part of `subscribe`: put the new channel into the table, unless
    another one got there first or the table is full. -/
def installChannel (active : ActiveChannel) : Fails State Bool := do
  let s ← Fallible.get
  match s.channels.get? active.spec.id with
  | some existing =>
    discard active
    Fallible.ensure (existing.spec.kind = active.spec.kind ∧
      existing.spec.meteorProfile = active.spec.meteorProfile)
      ("channel " ++ toString active.spec.id ++
        " already exists with a different kind or Meteor profile")
    pure false
  | none =>
    if (s.channels.insert active.spec.id active).size > maxChannels then
      discard active
      Fallible.fail channelLimit
    else
      Fallible.modify fun s => { s with channels := s.channels.insert active.spec.id active }
      pure true

/-- Audio channels are created with their resolved parameters. -/
def ChannelSpec.resolved (spec : ChannelSpec) : ChannelSpec :=
  if spec.kind = .audio then { spec with audio := some spec.resolvedAudio } else spec

/-- The part of `subscribe` that creates a channel. -/
def createAndInstall (spec : ChannelSpec) : Fails State Bool := do
  let s ← Fallible.get
  Fallible.lift (spec.validate s.channelizer.widebandRateHz)
  let active ← createChannel spec.resolved
  installChannel active

/-- `subscribe`: whether the channel was created. The table is searched before
    and after the geometry gate. -/
def subscribe (spec : ChannelSpec) (r : Readings) : Fails State Bool := do
  let found ← findExisting spec
  if found then pure false
  else do
    prepareGeometryOperation r
    let found ← findExisting spec
    if found then pure false else createAndInstall spec

/-! ## Section 5: Changing and removing channels -/

def unknownChannel (id : ChannelId) : String := "unknown channel " ++ toString id

def setChannel (id : ChannelId) (active : ActiveChannel) : Fails State Unit :=
  Fallible.modify fun s => { s with channels := s.channels.insert id active }

/-- `configure_audio` once the geometry is settled. -/
def applyAudio (id : ChannelId) (mode : DemodMode) (parameters : Option AudioParameters) :
    Fails State Unit := do
  let s ← Fallible.get
  let active ← Fallible.orFail (s.channels.get? id) (unknownChannel id)
  match active.pipeline with
  | .audio _ _ =>
    let previous := active.spec.resolvedAudio
    let proposed := { active.spec with demodMode := some mode, audio := parameters }
    let applied :=
      if parameters.isNone then
        { proposed.resolvedAudio with outputSampleRateHz := previous.outputSampleRateHz }
      else proposed.resolvedAudio
    let proposed := { proposed with audio := some applied }
    Fallible.lift (proposed.validate s.channelizer.widebandRateHz)
    setChannel id { active with spec := proposed, pipeline := .audio mode applied }
  | _ => Fallible.fail ("channel " ++ toString id ++ " is not audio")

/-- `configure_audio`. -/
def configureAudio (id : ChannelId) (mode : DemodMode) (parameters : Option AudioParameters)
    (r : Readings) : Fails State Unit := do
  prepareGeometryOperation r
  applyAudio id mode parameters

/-- A new mode with its parameters, as part of a retune. -/
structure AudioConfiguration where
  mode       : DemodMode
  parameters : AudioParameters
  deriving DecidableEq

/-- The specification a retune asks for. -/
def ChannelSpec.retuned (spec : ChannelSpec) (centerOffsetHz : ℤ) (channelSampleRateHz : ℕ)
    (audio : Option AudioConfiguration) : ChannelSpec :=
  let spec := { spec with centerOffsetHz := centerOffsetHz,
                          channelSampleRateHz := channelSampleRateHz }
  match audio with
  | none => spec
  | some c => { spec with demodMode := some c.mode, audio := some c.parameters }

/-- `TelemetryPipeline::retune` checks the sampling before it changes anything. -/
def retuneTelemetry (pipeline : ActivePipeline) (sampleRateHz centerFreqHz : ℕ) :
    Except String ActivePipeline :=
  match pipeline with
  | .lrptTelemetry profile _ _ =>
    match profile.validateMissionSampling sampleRateHz with
    | .error e => .error e
    | .ok () => .ok (.lrptTelemetry profile sampleRateHz centerFreqHz)
  | pipeline => .ok pipeline

/-- The tap of a channel moves to its new place, and its telemetry follows. -/
def retuneTap (id : ℕ) (proposed : ChannelSpec) (pipeline : ActivePipeline) :
    Fails State ActivePipeline := do
  let s ← Fallible.get
  let centerFreqHz := virtualCenter s.channelizer.widebandCenterHz proposed.centerOffsetHz
  onChannelizer (Channelizer.retuneChannel id centerFreqHz proposed.channelSampleRateHz)
  let s ← Fallible.get
  let rate ← Fallible.orFail (s.channelizer.channelOutputRateHz id) "retuned channel"
  Fallible.lift (retuneTelemetry pipeline rate centerFreqHz)

/-- The pipeline of a channel whose tap, if it has one, has moved. -/
def retunePipeline (active : ActiveChannel) (proposed : ChannelSpec) :
    Fails State ActivePipeline :=
  match active.internalChannelId with
  | some internalId => retuneTap internalId proposed active.pipeline
  | none => pure active.pipeline

/-- An audio pipeline takes the mode and the parameters of the specification. -/
def ActivePipeline.reconfigured (pipeline : ActivePipeline) (proposed : ChannelSpec) :
    ActivePipeline :=
  match pipeline with
  | .audio _ _ => .audio proposed.mode proposed.resolvedAudio
  | pipeline => pipeline

def ActivePipeline.isAudio : ActivePipeline → Bool
  | .audio _ _ => true
  | _ => false

/-- `retune_configured` once the geometry is settled. -/
def applyRetune (id : ChannelId) (centerOffsetHz : ℤ) (channelSampleRateHz : ℕ)
    (audio : Option AudioConfiguration) : Fails State Unit := do
  let s ← Fallible.get
  let active ← Fallible.orFail (s.channels.get? id) (unknownChannel id)
  Fallible.ensure (audio.isSome = true → active.pipeline.isAudio = true)
    "audio configuration is only supported on audio channels"
  let proposed := active.spec.retuned centerOffsetHz channelSampleRateHz audio
  Fallible.lift (proposed.validate s.channelizer.widebandRateHz)
  let pipeline ← retunePipeline active proposed
  setChannel id { active with spec := proposed, pipeline := pipeline.reconfigured proposed }

/-- `retune_configured`. -/
def retuneConfigured (id : ChannelId) (centerOffsetHz : ℤ) (channelSampleRateHz : ℕ)
    (audio : Option AudioConfiguration) (r : Readings) : Fails State Unit := do
  prepareGeometryOperation r
  applyRetune id centerOffsetHz channelSampleRateHz audio

def State.recordingActive (s : State) (id : ChannelId) : Bool :=
  (s.recordings.get? id).elim false Recording.alive

/-- `remove_channel`. -/
def removeChannel (id : ChannelId) : Fails State Unit := do
  let s ← Fallible.get
  Fallible.ensure (s.recordingActive id = false)
    ("channel " ++ toString id ++ " is recording; stop recording before removal")
  let active ← Fallible.orFail (s.channels.get? id) (unknownChannel id)
  Fallible.modify fun s =>
    { s with channels := s.channels.erase id, recordings := s.recordings.erase id }
  discard active

/-! ## Section 6: Recordings -/

/-- The frequency a recording of the channel is named after. -/
def recordingCenter (s : State) (id : ChannelId) (active : ActiveChannel) : Except String ℕ :=
  match active.internalChannelId with
  | some internalId =>
    if (s.channelizer.find internalId).isSome then
      .ok (virtualCenter s.channelizer.widebandCenterHz active.spec.centerOffsetHz)
    else .error ("channel " ++ toString id ++ " is no longer live")
  | none => .ok s.channelizer.widebandCenterHz

/-- `start_recording`: the frequency in the metadata. `io` is the outcome of
    creating the files, with the path of the recording. -/
def startRecording (id : ChannelId) (format : RecordingFormat) (io : Except String String) :
    Fails State ℕ := do
  let s ← Fallible.get
  let active ← Fallible.orFail (s.channels.get? id) (unknownChannel id)
  let centerFreqHz ← Fallible.lift (recordingCenter s id active)
  Fallible.ensure (s.recordingActive id = false)
    ("channel " ++ toString id ++ " is already recording")
  Fallible.modify fun s => { s with recordings := s.recordings.erase id }
  let path ← Fallible.lift io
  Fallible.modify fun s =>
    { s with recordings := s.recordings.insert id ⟨path, format, centerFreqHz, true⟩ }
  pure centerFreqHz

/-- `stop_recording`; `error` is what the writer ended with. -/
def stopRecording (id : ChannelId) (error : Option String) : Fails State Unit := do
  let s ← Fallible.get
  let recording ← Fallible.orFail (s.recordings.get? id)
    ("channel " ++ toString id ++ " is not recording")
  match error with
  | none => Fallible.modify fun s => { s with recordings := s.recordings.erase id }
  | some e =>
    Fallible.modify fun s =>
      { s with recordings := s.recordings.insert id { recording with alive := false } }
    Fallible.fail ("recording " ++ recording.path ++ " failed: " ++ e)

/-- The writer of a recording ends by itself. -/
def recordingEnds (id : ChannelId) : Fails State Unit :=
  Fallible.modify fun s =>
    { s with recordings := s.recordings.alter id fun r =>
        r.map fun recording => { recording with alive := false } }

/-! ## Section 7: The machine -/

inductive Input where
  | subscribe (spec : ChannelSpec) (r : Readings)
  /-- A connection detaches its forwarder; the channel stays. -/
  | unsubscribe (id : ChannelId)
  | removeChannel (id : ChannelId)
  | retune (id : ChannelId) (centerOffsetHz : ℤ) (channelSampleRateHz : ℕ)
      (audio : Option AudioConfiguration) (r : Readings)
  | configureAudio (id : ChannelId) (mode : DemodMode) (parameters : Option AudioParameters)
      (r : Readings)
  | setFrequency (hz : ℕ) (c : CommandReadings)
  | setSampleRate (hz : ℕ) (c : CommandReadings)
  | reconcile (r : Readings)
  | startRecording (id : ChannelId) (format : RecordingFormat) (io : Except String String)
  | stopRecording (id : ChannelId) (error : Option String)
  | recordingEnds (id : ChannelId)

inductive Reply where
  | done
  | subscribed (created : Bool)
  | recording (requestedFrequencyHz : ℕ)
  deriving DecidableEq

/-- The operation an input stands for. -/
def Input.operation : Input → Fails State Reply
  | .subscribe spec r => do return .subscribed (← Daemon.subscribe spec r)
  | .unsubscribe _ => pure .done
  | .removeChannel id => do Daemon.removeChannel id; return .done
  | .retune id offset rate audio r => do retuneConfigured id offset rate audio r; return .done
  | .configureAudio id mode parameters r => do
    Daemon.configureAudio id mode parameters r; return .done
  | .setFrequency hz c => do Daemon.setFrequency hz c; return .done
  | .setSampleRate hz c => do Daemon.setSampleRate hz c; return .done
  | .reconcile r => do prepareGeometryOperation r; return .done
  | .startRecording id format io => do return .recording (← Daemon.startRecording id format io)
  | .stopRecording id error => do Daemon.stopRecording id error; return .done
  | .recordingEnds id => do Daemon.recordingEnds id; return .done

/-- The daemon as a machine. -/
def machine (widebandCenterHz widebandRateHz : ℕ) : Machine State Input (Except String Reply) where
  init := State.new widebandCenterHz widebandRateHz
  step := fun s input => let (reply, s') := input.operation s; some (s', reply)

end Daemon
