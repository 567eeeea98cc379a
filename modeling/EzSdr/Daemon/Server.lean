import EzSdr.Daemon.Pipelines

/-! # Connections and Their Channels

    Every connection is given four channel ids of its own when it attaches,
    and drives the daemon with commands. Low ids are shared by all. A command
    that controls a channel is refused when the channel is high and not the
    connection's; a subscribe to such a channel can only listen to one that
    exists. For every channel a connection listens to it has a forwarder, which
    reads the pipeline that had the channel when it was subscribed.

    Commands of different connections interleave with each other, with the web
    interface, with the second part of an interrupted subscribe, and with the
    release of the channels of closed connections.

    * **`channels_isolated`**: whatever a connection does, the channels of the
      other live connections stay as they are, and all blocks of ids are
      disjoint.
    * **`forwarders_follow`**: as long as no id is made again while a forwarder
      of its old pipeline is listed, every forwarder reads the registered
      pipeline, or its channel is gone and the next tick reports it. -/

namespace Daemon

open Fallible

/-! ## Section 1: Commands -/

/-- First id that is not shared. -/
def clientChannelStart : ChannelId := 0x80000000

/-- The ids of one connection. -/
structure ClientChannels where
  spectrum : ChannelId
  audio    : ChannelId
  adsb     : ChannelId
  lrpt     : ChannelId
  deriving DecidableEq

namespace ClientChannels

def ids (c : ClientChannels) : List ChannelId := [c.spectrum, c.audio, c.adsb, c.lrpt]

def contains (c : ClientChannels) (id : ChannelId) : Bool := c.ids.contains id

/-- Four ids in a row. -/
def block (base : ChannelId) : ClientChannels := ⟨base, base + 1, base + 2, base + 3⟩

end ClientChannels

/-- `ClientCommand`. -/
inductive Command where
  | authenticate
  | hello
  | setFrequency (hz : ℕ)
  | setSampleRate (hz : ℕ)
  | setGain (db : ExactFloat)
  | subscribe (channel : ChannelSpec)
  | unsubscribe (id : ChannelId)
  | setDemodMode (id : ChannelId) (mode : DemodMode) (audio : Option AudioParameters)
  | setVolume (id : ChannelId) (level : ExactFloat)
  | setSquelch (id : ChannelId) (db : ExactFloat) (requestId : ℕ)
  | retune (id : ChannelId) (centerOffsetHz : ℤ) (channelSampleRateHz : ℕ)
      (audio : Option AudioConfiguration)
  | removeChannel (id : ChannelId)
  | startRecording (id : ChannelId) (format : RecordingFormat)
  | stopRecording (id : ChannelId)
  | startTelemetryProduct (id : ChannelId)
  | finalizeTelemetryProduct (id : ChannelId)
  | beginSpectrumObservation (id : ChannelId) (revision : ℕ)
  | ping (nonce : ℕ)
  | detach

/-- The threshold of an audio pipeline, and how often it has changed. -/
structure SquelchState where
  db       : ExactFloat
  revision : ℕ
  deriving DecidableEq

/-- The events that answer commands. -/
inductive ServerEvent where
  | error (message : String)
  | squelch (id : ChannelId) (requestId : ℕ) (result : Except String SquelchState)
  | channelRemoved (id : ChannelId)
  | recording (id : ChannelId)
  | pong (nonce : ℕ)

/-- What the daemon learns from outside while it runs a command. -/
structure Answers where
  readings       : Readings
  command        : CommandReadings
  gain           : Except String Unit
  io             : Except String String
  recordingError : Option String
  product        : Except String Unit

def ActivePipeline.isTelemetry : ActivePipeline → Bool
  | .lrptTelemetry _ _ _ => true
  | _ => false

def ActivePipeline.isSpectrum : ActivePipeline → Bool
  | .spectrum => true
  | _ => false

def PipelineKind.debug : PipelineKind → String
  | .spectrum => "Spectrum"
  | .audio => "Audio"
  | .adsbPackets => "AdsbPackets"
  | .lrptTelemetry => "LrptTelemetry"

/-- The value of a number that is not finite, as it is printed. -/
def displayNonFinite : ExactFloat → String
  | .infinity => "inf"
  | .negInfinity => "-inf"
  | _ => "NaN"

/-- `AudioPipeline::set_squelch`: equal thresholds are one revision. -/
def SquelchState.set (s : SquelchState) (db : ExactFloat) : SquelchState :=
  ⟨db, if s.db.eq db then s.revision else (s.revision + 1) % 2 ^ 64⟩

/-- The pipeline has taken one more call. -/
def Pipeline.called (pipeline : Pipeline) (call : PipelineCall) : Pipeline :=
  { pipeline with calls := pipeline.calls ++ [call] }

/-- `squelch_state`, from the calls since the pipeline was made. -/
def Pipeline.squelchState (pipeline : Pipeline) : SquelchState :=
  pipeline.calls.foldl (fun s call => match call with
    | .setSquelch db => s.set db
    | _ => s) ⟨.num (-120), 0⟩

namespace Pool

/-! ## Section 2: Calls of a pipeline -/

/-- The pipeline of the channel is found under the table's lock, and called without it. -/
def callPipeline (id : ChannelId) (wanted : ActivePipeline → Bool) (wrong : String)
    (call : PipelineCall) : Fails Pool Unit := do
  let p ← Fallible.get
  let active ← Fallible.orFail (p.state.channels.get? id) (unknownChannel id)
  Fallible.ensure (wanted active.pipeline = true) wrong
  Fallible.modify fun p => { p with
    pipelines := (p.held.get? id).elim p.pipelines fun n =>
      p.pipelines.modify n fun pipeline => pipeline.called call }

/-- `with_audio_pipeline`. -/
def callAudio (id : ChannelId) (call : PipelineCall) : Fails Pool Unit :=
  callPipeline id ActivePipeline.isAudio ("channel " ++ toString id ++ " is not an audio channel")
    call

/-- `set_volume`. -/
def setVolume (id : ChannelId) (level : ExactFloat) : Fails Pool Unit :=
  callAudio id (.setVolume level)

/-- The threshold the pipeline of a channel has now. -/
def squelchState (p : Pool) (id : ChannelId) : SquelchState :=
  (((p.held.get? id).bind fun n => p.pipelines[n]?).map Pipeline.squelchState).getD ⟨.num (-120), 0⟩

/-- `set_squelch`. -/
def setSquelch (id : ChannelId) (db : ExactFloat) : Fails Pool SquelchState := do
  Fallible.ensure (db.isFinite = true ∧ (ExactFloat.num (-240)).le db = true ∧
    db.le (.num 60) = true) "squelch must be finite and between -240 and 60 dBFS"
  callAudio id (.setSquelch db)
  let p ← Fallible.get
  return p.squelchState id

/-- `start_telemetry_product` and `finalize_telemetry_product`. -/
def callTelemetry (id : ChannelId) (call : PipelineCall) : Fails Pool Unit :=
  callPipeline id ActivePipeline.isTelemetry
    ("channel " ++ toString id ++ " is not an LRPT channel") call

/-- `begin_spectrum_observation`. -/
def beginSpectrumObservation (id : ChannelId) (revision : ℕ) : Fails Pool Unit :=
  callPipeline id ActivePipeline.isSpectrum
    ("channel " ++ toString id ++ " is not a spectrum channel") (.beginObservation revision)

/-- `subscribe_existing`. -/
def subscribeExisting (id : ChannelId) (kind : PipelineKind) : Fails Pool Unit := do
  let p ← Fallible.get
  let active ← Fallible.orFail (p.state.channels.get? id) (unknownChannel id)
  Fallible.ensure (active.spec.kind = kind) ("channel " ++ toString id ++ " is " ++
    active.spec.kind.debug ++ ", not " ++ kind.debug)

/-- `set_gain`; `gain` is the answer of the receiver. -/
def setGain (db : ExactFloat) (gain : Except String Unit) : Fails Pool Unit := do
  Fallible.ensure (db.isFinite = true) ("gain must be finite, got " ++ displayNonFinite db)
  Fallible.lift gain

end Pool

/-! ## Section 3: Running a command -/

/-- The forwarders of a connection: for each channel the pipeline its forwarder reads. -/
abbrev Forwarders : Type := BTreeMap ChannelId ℕ

/-- The channel whose control a command needs. -/
def Command.controlledChannel : Command → Option ChannelId
  | .setDemodMode id _ _ => some id
  | .setVolume id _ => some id
  | .setSquelch id _ _ => some id
  | .retune id _ _ _ => some id
  | .removeChannel id => some id
  | .finalizeTelemetryProduct id => some id
  | .startRecording id _ => some id
  | .stopRecording id => some id
  | .startTelemetryProduct id => some id
  | .beginSpectrumObservation id _ => some id
  | _ => none

/-- A high channel of another connection. -/
def ClientChannels.foreign (c : ClientChannels) (id : ChannelId) : Bool :=
  decide (clientChannelStart ≤ id) && !c.contains id

/-- What a command leaves: the daemon, the forwarders of its connection and the events sent. -/
structure Effect where
  pool       : Pool
  forwarders : Forwarders
  events     : List ServerEvent

/-- An operation of which only a failure is reported. -/
def Effect.of {α : Type} (forwarders : Forwarders) (result : Except String α × Pool) : Effect :=
  match result with
  | (.ok _, p) => ⟨p, forwarders, []⟩
  | (.error e, p) => ⟨p, forwarders, [.error e]⟩

/-- `spawn_forwarder`: the old forwarder of the channel is replaced. -/
def spawnForwarder (forwarders : Forwarders) (id : ChannelId) (p : Pool) : Forwarders :=
  (p.held.get? id).elim forwarders fun n => forwarders.insert id n

/-- The end of a subscribe. -/
def Effect.subscribed {α : Type} (forwarders : Forwarders) (id : ChannelId)
    (result : Except String α × Pool) : Effect :=
  match result with
  | (.ok _, p) => ⟨p, spawnForwarder forwarders id p, []⟩
  | (.error e, p) => ⟨p, forwarders, [.error e]⟩

/-- The refusal of a command on a channel of another connection. -/
def refusal : Command → ServerEvent
  | .setSquelch id _ requestId =>
    .squelch id requestId (.error "channel is owned by another connection")
  | _ => .error "channel is owned by another connection"

/-- The commands behind the ownership check. -/
def Command.run (cmd : Command) (channels : ClientChannels) (forwarders : Forwarders) (p : Pool)
    (a : Answers) : Effect :=
  match cmd with
  | .authenticate => ⟨p, forwarders, [.error "Authenticate is only valid before Hello"]⟩
  | .hello => ⟨p, forwarders, [.error "unexpected Hello after handshake"]⟩
  | .setFrequency hz => .of forwarders (Pool.onState (Daemon.setFrequency hz a.command) p)
  | .setSampleRate hz => .of forwarders (Pool.onState (Daemon.setSampleRate hz a.command) p)
  | .setGain db => .of forwarders (Pool.setGain db a.gain p)
  | .subscribe channel =>
    if channels.foreign channel.id = true then
      .subscribed forwarders channel.id (Pool.subscribeExisting channel.id channel.kind p)
    else .subscribed forwarders channel.id (Pool.subscribe channel a.readings p)
  | .unsubscribe id => ⟨p, forwarders.erase id, []⟩
  | .setDemodMode id mode audio =>
    .of forwarders (Pool.onState (configureAudio id mode audio a.readings) p)
  | .setVolume id level => .of forwarders (Pool.setVolume id level p)
  | .setSquelch id db requestId =>
    match Pool.setSquelch id db p with
    | (result, p') => ⟨p', forwarders, [.squelch id requestId result]⟩
  | .retune id offset rate audio =>
    .of forwarders (Pool.onState (retuneConfigured id offset rate audio a.readings) p)
  | .removeChannel id =>
    match Pool.removeChannel id p with
    | (.ok (), p') => ⟨p', forwarders.erase id, [.channelRemoved id]⟩
    | (.error e, p') => ⟨p', forwarders, [.error e]⟩
  | .startRecording id format =>
    match Pool.onState (Daemon.startRecording id format a.io) p with
    | (.ok _, p') => ⟨p', forwarders, [.recording id]⟩
    | (.error e, p') => ⟨p', forwarders, [.error e]⟩
  | .stopRecording id =>
    match Pool.onState (Daemon.stopRecording id a.recordingError) p with
    | (.ok _, p') => ⟨p', forwarders, [.recording id]⟩
    | (.error e, p') => ⟨p', forwarders, [.error e]⟩
  | .startTelemetryProduct id =>
    .of forwarders ((do Pool.callTelemetry id .startNewProduct; Fallible.lift a.product) p)
  | .finalizeTelemetryProduct id => .of forwarders (Pool.callTelemetry id .finalizeProduct p)
  | .beginSpectrumObservation id revision =>
    .of forwarders (Pool.beginSpectrumObservation id revision p)
  | .ping nonce => ⟨p, forwarders, [.pong nonce]⟩
  | .detach => ⟨p, forwarders, []⟩

/-- `apply_command`. -/
def applyCommand (cmd : Command) (channels : ClientChannels) (forwarders : Forwarders) (p : Pool)
    (a : Answers) : Effect :=
  if (cmd.controlledChannel.map channels.foreign).getD false = true then
    ⟨p, forwarders, [refusal cmd]⟩
  else cmd.run channels forwarders p a

/-- `report_removed_channels`. -/
def reportRemovedChannels (p : Pool) (forwarders : Forwarders) : Forwarders × List ServerEvent :=
  (forwarders.filter fun id _ => (p.state.channels.get? id).isSome,
    (forwarders.keys.filter fun id => (p.state.channels.get? id).isNone).map .channelRemoved)

/-! ## Section 4: The machine -/

abbrev ConnectionId : Type := ℕ

structure Connection where
  channels   : ClientChannels
  forwarders : Forwarders

structure Server where
  pool              : Pool
  nextClientChannel : ChannelId
  connections       : BTreeMap ConnectionId Connection
  /-- The channels of closed connections that have yet to be released. -/
  closing           : List ChannelId

namespace Server

def new (widebandCenterHz widebandRateHz : ℕ) : Server where
  pool := Pool.new widebandCenterHz widebandRateHz
  nextClientChannel := clientChannelStart
  connections := BTreeMap.empty
  closing := []

/-- One round of `allocate_client_channels`. A block of which some channel exists is skipped,
    and the loop takes another round. -/
def allocate (s : Server) (k : ConnectionId) : Server × List ServerEvent :=
  let base := s.nextClientChannel
  if 2 ^ 32 ≤ base + 4 then (s, [.error "client channel namespace exhausted"])
  else
    let s := { s with nextClientChannel := base + 4 }
    if (ClientChannels.block base).ids.all fun id => (s.pool.state.channels.get? id).isNone then
      ({ s with connections := s.connections.insert k ⟨.block base, BTreeMap.empty⟩ }, [])
    else (s, [])

/-- What a command of the connection has left becomes the state of the server. -/
def store (s : Server) (k : ConnectionId) (c : Connection) (e : Effect) : Server :=
  { s with
    pool := e.pool
    connections := s.connections.insert k { c with forwarders := e.forwarders } }

/-- The connection is gone; its channels wait for their release. -/
def close (s : Server) (k : ConnectionId) (c : Connection) : Server :=
  { s with connections := s.connections.erase k, closing := s.closing ++ c.channels.ids }

inductive Input where
  | connect (k : ConnectionId)
  | command (k : ConnectionId) (cmd : Command) (a : Answers)
  /-- The second part of a subscribe, under the geometry lock. -/
  | resume (k : ConnectionId) (channel : ChannelSpec) (a : Answers)
  | tick (k : ConnectionId)
  | disconnect (k : ConnectionId)
  /-- The next channel of a closed connection. -/
  | release
  /-- The web interface and whatever else uses the daemon. -/
  | other (input : Pool.Input)

/-- One step; a step of a connection that is not attached does not happen. -/
def step (s : Server) : Input → Option (Server × List ServerEvent)
  | .connect k => if (s.connections.get? k).isSome then none else some (s.allocate k)
  | .command k cmd a =>
    (s.connections.get? k).map fun c =>
      let e := applyCommand cmd c.channels c.forwarders s.pool a
      if cmd matches .detach then (s.close k c, e.events) else (s.store k c e, e.events)
  | .resume k channel a =>
    (s.connections.get? k).bind fun c =>
      if c.channels.foreign channel.id = true then none
      else
        let e := Effect.subscribed c.forwarders channel.id
          (Pool.subscribeLocked channel a.readings s.pool)
        some (s.store k c e, e.events)
  | .tick k =>
    (s.connections.get? k).map fun c =>
      let (forwarders, events) := reportRemovedChannels s.pool c.forwarders
      (s.store k c ⟨s.pool, forwarders, events⟩, events)
  | .disconnect k => (s.connections.get? k).map fun c => (s.close k c, [])
  | .release =>
    match s.closing with
    | [] => none
    | id :: rest =>
      some ({ s with pool := (Pool.releaseChannel id s.pool).2, closing := rest }, [])
  | .other input => some ({ s with pool := (input.run s.pool).2 }, [])

/-- The daemon with its connections as a machine. -/
def machine (widebandCenterHz widebandRateHz : ℕ) : Machine Server Input (List ServerEvent) where
  init := Server.new widebandCenterHz widebandRateHz
  step := Server.step

end Server

/-! ## Section 5: What an operation touches -/

/-- The entry, the recording and the tap of a channel are as they were. -/
structure SameState (id : ChannelId) (s s' : State) : Prop where
  channel   : s'.channels.get? id = s.channels.get? id
  recording : s'.recordings.get? id = s.recordings.get? id
  tap       : ∀ k, s.tapOf id = some k → s'.channelizer.find k = s.channelizer.find k

/-- The channel is as it was: its specification, its tap, its recording and its pipeline. -/
structure SameChannel (id : ChannelId) (p p' : Pool) : Prop where
  state    : SameState id p.state p'.state
  held     : p'.held.get? id = p.held.get? id
  pipeline : ∀ n, p.held.get? id = some n → p'.pipelines[n]? = p.pipelines[n]?

theorem SameState.refl (id : ChannelId) (s : State) : SameState id s s :=
  ⟨rfl, rfl, fun _ _ => rfl⟩

theorem SameChannel.refl (id : ChannelId) (p : Pool) : SameChannel id p p :=
  ⟨.refl id p.state, rfl, fun _ _ => rfl⟩

theorem find_congr {c c' : Channelizer} (h : c'.channels = c.channels) (k : ℕ) :
    c'.find k = c.find k := by
  unfold Channelizer.find
  rw [h]

theorem Restored.same {s s' : State} (h : Restored s s') (id : ChannelId) : SameState id s s' := by
  refine ⟨?_, ?_, fun k _ => find_congr h.taps k⟩
  · rw [h.channels]
  · rw [h.recordings]

/-- No two channels have one tap, so a channel does not notice that another one's has moved. -/
theorem Reworked.same {p : Pool} (hinv : p.Inv) {s' : State} {id j : ChannelId}
    (h : Reworked id p.state s') (hj : j ≠ id) : SameState j p.state s' := by
  refine ⟨h.elsewhere j hj, by rw [h.recordings], ?_⟩
  intro k hk
  exact h.taps k fun hid => hj (hinv.taps.unique j id k hk hid)

/-- The recording of one channel may have changed. -/
structure Rerecorded (id : ChannelId) (s s' : State) : Prop where
  channels    : s'.channels = s.channels
  channelizer : s'.channelizer = s.channelizer
  recordings  : ∀ j, j ≠ id → s'.recordings.get? j = s.recordings.get? j

instance (id : ChannelId) : IsPreorder State (Rerecorded id) where
  refl := fun _ => ⟨rfl, rfl, fun _ _ => rfl⟩
  trans := fun _ _ _ h h' => ⟨h'.channels.trans h.channels, h'.channelizer.trans h.channelizer,
    fun j hj => (h'.recordings j hj).trans (h.recordings j hj)⟩

theorem Rerecorded.kept {id : ChannelId} {s s' : State} (h : Rerecorded id s s') : Kept s s' := by
  refine ⟨?_, ?_, by rw [h.channelizer], ?_, by rw [h.channels]⟩
  · unfold State.tapOf
    rw [h.channels]
  · unfold State.tapIds
    rw [h.channelizer]
  · intro j
    rw [h.channels]

theorem Rerecorded.same {id j : ChannelId} {s s' : State} (h : Rerecorded id s s') (hj : j ≠ id) :
    SameState j s s' :=
  ⟨by rw [h.channels], h.recordings j hj, fun k _ => by rw [h.channelizer]⟩

namespace Pool

/-- The id is not made: it has the same pipeline and exists as before, or it is gone. -/
def Stays (p p' : Pool) (id : ChannelId) : Prop :=
  (p'.held.get? id = p.held.get? id ∧
    (p'.state.channels.get? id).isSome = (p.state.channels.get? id).isSome) ∨
  p'.state.channels.get? id = none

/-- The id is made, with a pipeline that is new. -/
def Makes (p p' : Pool) (id : ChannelId) : Prop :=
  p.state.channels.get? id = none ∧ (p'.state.channels.get? id).isSome = true ∧
    p'.held.get? id = some p.pipelines.length

/-- No pipeline leaves its place or goes to another channel. -/
def Lasts (p p' : Pool) : Prop :=
  ∀ (n : ℕ) (pipeline : Pipeline), p.pipelines[n]? = some pipeline →
    ∃ pipeline', p'.pipelines[n]? = some pipeline' ∧ pipeline'.channelId = pipeline.channelId

/-- The invariant is kept, only the channels of `touched` may have changed, and unless the
    operation `makes` channels none is new. -/
structure Confined (touched : ChannelId → Prop) (makes : Bool) (p p' : Pool) : Prop where
  inv   : p'.Inv
  same  : ∀ j, ¬ touched j → SameChannel j p p'
  fate  : ∀ j, Stays p p' j ∨ (makes = true ∧ Makes p p' j)
  lasts : Lasts p p'

variable {touched : ChannelId → Prop} {makes : Bool} {p p' : Pool}

theorem Lasts.of_eq (h : p'.pipelines = p.pipelines) : Lasts p p' :=
  fun _ pipeline hget => ⟨pipeline, h ▸ hget, rfl⟩

/-- Pipelines are changed in their places, and their channels are not. -/
theorem Lasts.of_map {f : ℕ → Pipeline → Pipeline}
    (hget : ∀ n : ℕ, p'.pipelines[n]? = (p.pipelines[n]?).map (f n))
    (hf : ∀ n pipeline, (f n pipeline).channelId = pipeline.channelId) : Lasts p p' := by
  intro n pipeline hplace
  refine ⟨f n pipeline, ?_, hf n pipeline⟩
  rw [hget, hplace]
  rfl

theorem Confined.mono {touched' : ChannelId → Prop} (h : Confined touched makes p p')
    (himp : ∀ j, touched j → touched' j) : Confined touched' makes p p' :=
  ⟨h.inv, fun j hj => h.same j fun hold => hj (himp j hold), h.fate, h.lasts⟩

theorem confined_refl (hinv : p.Inv) : Confined touched makes p p :=
  ⟨hinv, fun j _ => .refl j p, fun _ => .inl (.inl ⟨rfl, rfl⟩), .of_eq rfl⟩

/-- An operation that concerns no pipeline thread. -/
theorem confined_onState {α : Type} {R : State → State → Prop} {x : Fails State α}
    (hinv : p.Inv) (hx : Moves R x) (hkept : ∀ s', R p.state s' → Kept p.state s')
    (hsame : ∀ s' j, R p.state s' → ¬ touched j → SameState j p.state s') :
    Confined touched makes p (onState x p).2 := by
  have hmoved := hx.result p.state
  refine ⟨hinv.kept (hkept _ hmoved) rfl rfl, ?_, ?_, .of_eq rfl⟩
  · intro j hj
    exact ⟨hsame _ j hmoved hj, rfl, fun _ _ => rfl⟩
  · exact fun j => .inl (.inl ⟨rfl, (hkept _ hmoved).keys j⟩)

theorem confined_restored {α : Type} {x : Fails State α} (hinv : p.Inv) (hx : Moves Restored x) :
    Confined touched makes p (onState x p).2 :=
  confined_onState hinv hx (fun _ h => h.kept) fun _ j h _ => h.same j

theorem confined_reworked {α : Type} {x : Fails State α} {id : ChannelId} (hinv : p.Inv)
    (hx : Moves (Reworked id) x) : Confined (· = id) makes p (onState x p).2 :=
  confined_onState hinv hx (fun _ h => h.kept) fun _ _ h hj => h.same hinv hj

theorem confined_rerecorded {α : Type} {x : Fails State α} {id : ChannelId} (hinv : p.Inv)
    (hx : Moves (Rerecorded id) x) : Confined (· = id) makes p (onState x p).2 :=
  confined_onState hinv hx (fun _ h => h.kept) fun _ _ h hj => h.same hj

theorem Unchanged.confined (h : Unchanged p p') (hinv : p.Inv) : Confined touched makes p p' := by
  refine ⟨hinv.step h.stepped, ?_, ?_, .of_eq h.pipelines⟩
  · intro j _
    exact ⟨h.state.same j, by rw [h.held], fun n _ => by rw [h.pipelines]⟩
  · intro j
    exact .inl (.inl ⟨by rw [h.held], by rw [h.state.channels]⟩)

theorem Inv.tap_mem (hinv : p.Inv) {id : ChannelId} {k : ℕ} (h : p.state.tapOf id = some k) :
    k ∈ p.state.tapIds :=
  (hinv.taps.mem_iff k).2 ⟨id, h⟩

theorem Created.confined {spec : ChannelSpec} {active : ActiveChannel}
    (h : Created p p' spec active) (hinv : p.Inv) : Confined (· = spec.id) true p p' := by
  have hold : ∀ (n : ℕ), n < p.pipelines.length → p'.pipelines[n]? = p.pipelines[n]? := by
    intro n hn
    rw [h.pipelines, List.getElem?_append_left hn]
  have hlasts : Lasts p p' := by
    intro n pipeline hget
    exact ⟨pipeline, (hold n (List.getElem?_eq_some_iff.1 hget).1).trans hget, rfl⟩
  refine ⟨hinv.created h, ?_, ?_, hlasts⟩
  case refine_2 =>
    intro j
    by_cases hj : j = spec.id
    · refine .inr ⟨rfl, ?_, ?_, ?_⟩
      · rw [hj, h.absent]
      · rw [hj, h.channels, BTreeMap.get?_insert_self]
        rfl
      · rw [hj, h.held, BTreeMap.get?_insert_self]
    · refine .inl (.inl ⟨?_, ?_⟩)
      · rw [h.held, BTreeMap.get?_insert_ne _ hj]
      · rw [h.channels, BTreeMap.get?_insert_ne _ hj]
  intro j hj
  constructor
  case state =>
    refine ⟨?_, by rw [h.recordings], ?_⟩
    · rw [h.channels, BTreeMap.get?_insert_ne _ hj]
    · intro k hk
      rcases h.tapped with ⟨-, htaps, -⟩ | ⟨tap, -, -, htaps, -⟩
      · exact find_congr htaps k
      · -- the tap of the other channel is in the registry already
        obtain ⟨old, hold, hid⟩ := List.mem_map.1 (hinv.tap_mem hk)
        have hsome : (p.state.channelizer.find k).isSome = true := by
          unfold Channelizer.find
          rw [List.find?_isSome]
          exact ⟨old, hold, by simp [hid]⟩
        obtain ⟨found, hfound⟩ := Option.isSome_iff_exists.1 hsome
        unfold Channelizer.find at hfound ⊢
        rw [htaps, List.find?_append, hfound]
        rfl
  case held => rw [h.held, BTreeMap.get?_insert_ne _ hj]
  case pipeline => exact fun n hn => hold n (hinv.pipelines.owner_lt hn)

theorem Removed.confined {id : ChannelId} {active : ActiveChannel} (h : Removed p p' id active)
    (hinv : p.Inv) : Confined (· = id) makes p p' := by
  have hlasts : Lasts p p' := by
    apply Lasts.of_map h.getElem?
    intro n pipeline
    split
    · rfl
    · rfl
  refine ⟨hinv.removed h, ?_, ?_, hlasts⟩
  case refine_2 =>
    intro j
    by_cases hj : j = id
    · refine .inl (.inr ?_)
      rw [hj, h.channels, BTreeMap.get?_erase_self]
    · refine .inl (.inl ⟨?_, ?_⟩)
      · rw [h.held, Function.update_of_ne hj]
      · rw [h.channels, BTreeMap.get?_erase_ne _ hj]
  intro j hj
  constructor
  case state =>
    refine ⟨?_, ?_, ?_⟩
    · rw [h.channels, BTreeMap.get?_erase_ne _ hj]
    · rw [h.recordings, BTreeMap.get?_erase_ne _ hj]
    · intro k hk
      have htap : p.state.tapOf id = active.internalChannelId := by
        unfold State.tapOf
        rw [h.found]
        rfl
      -- a tap belongs to one channel only
      have hother : active.internalChannelId ≠ some k := by
        rw [← htap]
        exact fun hid => hj (hinv.taps.unique j id k hk hid)
      unfold Channelizer.find
      rw [h.taps, List.find?_filter]
      congr 1
      funext tap
      by_cases htapk : tap.id = k
      · simp [htapk, hother]
      · simp [htapk]
  case held => rw [h.held, Function.update_of_ne hj]
  case pipeline =>
    intro n hn
    have hother : p.held.get? id ≠ some n := fun hid => hj (hinv.pipelines.unique j id n hn hid)
    rw [h.getElem?]
    simp [hother]

theorem Subscribed.confined {spec : ChannelSpec} {created : Bool}
    (h : Subscribed spec p created p') (hinv : p.Inv) : Confined (· = spec.id) true p p' := by
  rcases h with ⟨-, hsame⟩ | ⟨-, active, hcreated⟩
  · exact hsame.confined hinv
  · exact hcreated.confined hinv

theorem subscribeLocked_confined (hinv : p.Inv) (spec : ChannelSpec) (r : Readings) :
    Confined (· = spec.id) true p (subscribeLocked spec r p).2 :=
  ((subscribeLocked_spec spec r hinv.fresh).strengthen (fun _ _ h => h.confined hinv)
    (fun _ h => h.confined hinv)).state rfl

theorem subscribe_confined (hinv : p.Inv) (spec : ChannelSpec) (r : Readings) :
    Confined (· = spec.id) true p (subscribe spec r p).2 :=
  ((subscribe_spec spec r hinv.fresh).strengthen (fun _ _ h => h.confined hinv)
    (fun _ h => h.confined hinv)).state rfl

theorem removeChannel_confined (hinv : p.Inv) (id : ChannelId) :
    Confined (· = id) makes p (removeChannel id p).2 := by
  have hconfined : Triple (fun q => q = p) (removeChannel id) (fun _ => Confined (· = id) makes p)
      (Confined (· = id) makes p) := by
    apply (removeChannel_spec id p).strengthen
    · rintro _ p' ⟨active, hremoved⟩
      exact hremoved.confined hinv
    · rintro p' rfl
      exact confined_refl hinv
  exact hconfined.state rfl

/-- Calls do not change whose a pipeline is, nor whether it runs. -/
theorem Inv.called {f : ℕ → Pipeline → Pipeline} (hinv : p.Inv) (hstate : p'.state = p.state)
    (hheld : p'.held = p.held) (hget : ∀ n : ℕ, p'.pipelines[n]? = (p.pipelines[n]?).map (f n))
    (hf : ∀ n pipeline, (f n pipeline).channelId = pipeline.channelId ∧
      (f n pipeline).running = pipeline.running) : p'.Inv := by
  have hlength : p'.pipelines.length = p.pipelines.length := by
    apply le_antisymm
    · rw [← List.getElem?_eq_none_iff, hget, List.getElem?_eq_none le_rfl]
      rfl
    · rw [← List.getElem?_eq_none_iff]
      have hnone := hget p'.pipelines.length
      rw [List.getElem?_eq_none le_rfl] at hnone
      exact Option.map_eq_none_iff.1 hnone.symm
  have hrunning : p'.running = p.running := by
    ext n
    constructor
    · rintro ⟨pipeline, hplace, hrun⟩
      rw [hget, Option.map_eq_some_iff] at hplace
      obtain ⟨old, hold, rfl⟩ := hplace
      exact ⟨old, hold, (hf n old).2 ▸ hrun⟩
    · rintro ⟨pipeline, hplace, hrun⟩
      exact ⟨f n pipeline, by rw [hget, hplace]; rfl, by rw [(hf n pipeline).2, hrun]⟩
  constructor
  case nodup => rw [hstate]; exact hinv.nodup
  case taps => rw [hstate]; exact hinv.taps
  case pipelines => rw [hheld, hrunning, hlength]; exact hinv.pipelines
  case placed =>
    intro id n hid
    rw [hheld] at hid
    obtain ⟨pipeline, hplace, hchannel⟩ := hinv.placed id n hid
    exact ⟨f n pipeline, by rw [hget, hplace]; rfl, by rw [(hf n pipeline).1, hchannel]⟩
  case keys => rw [hheld, hstate]; exact hinv.keys
  case size => rw [hstate]; exact hinv.size

/-- A call writes the pipeline of its channel, which no other channel has. -/
theorem callPipeline_confined (hinv : p.Inv) (id : ChannelId) (wanted : ActivePipeline → Bool)
    (wrong : String) (call : PipelineCall) :
    Triple (fun q => q = p) (callPipeline id wanted wrong call)
      (fun _ => Confined (· = id) makes p) (Confined (· = id) makes p) := by
  have hsame : ∀ q, q = p → Confined (· = id) makes p q := by
    rintro q rfl
    exact confined_refl hinv
  unfold callPipeline
  apply Triple.bind (Q := fun _ q => q = p)
  · exact Triple.get fun q hq => hq
  intro q
  apply Triple.bind (Q := fun _ q => q = p)
  · exact Triple.orFail (fun _ _ _ hq => hq) hsame
  intro active
  apply Triple.bind (Q := fun _ q => q = p)
  · exact Triple.ensure (fun _ _ hq => hq) hsame
  intro _
  apply Triple.modify
  rintro q rfl
  -- at most the one pipeline that the channel holds is called
  have hget : ∀ n : ℕ, ((q.held.get? id).elim q.pipelines fun n =>
      q.pipelines.modify n fun pipeline => pipeline.called call)[n]? =
      (q.pipelines[n]?).map fun pipeline =>
        if q.held.get? id = some n then pipeline.called call else pipeline := by
    intro n
    cases hheld : q.held.get? id with
    | none => simp
    | some k =>
      show (q.pipelines.modify k _)[n]? = _
      rw [List.getElem?_modify]
      by_cases hk : k = n
      · simp [hk]
      · simp [hk]
  have hcall : ∀ (n : ℕ) (pipeline : Pipeline),
      (if q.held.get? id = some n then pipeline.called call else pipeline).channelId =
        pipeline.channelId ∧
      (if q.held.get? id = some n then pipeline.called call else pipeline).running =
        pipeline.running := by
    intro n pipeline
    split
    · exact ⟨rfl, rfl⟩
    · exact ⟨rfl, rfl⟩
  constructor
  case inv => exact hinv.called rfl rfl hget hcall
  case fate => exact fun _ => .inl (.inl ⟨rfl, rfl⟩)
  case lasts => exact .of_map hget fun n pipeline => (hcall n pipeline).1
  case same =>
    intro j hj
    refine ⟨.refl j _, rfl, ?_⟩
    intro n hn
    have hother : q.held.get? id ≠ some n := fun hid => hj (hinv.pipelines.unique j id n hn hid)
    show _ = q.pipelines[n]?
    rw [hget]
    simp [hother]

/-- `callPipeline_confined` for a call that is followed by an answer. -/
theorem callThen_confined {α : Type} (hinv : p.Inv) (id : ChannelId)
    (wanted : ActivePipeline → Bool) (wrong : String) (call : PipelineCall)
    {f : Unit → Fails Pool α} (hf : ∀ a q, (f a q).2 = q) :
    Confined (· = id) makes p ((callPipeline id wanted wrong call >>= f) p).2 := by
  have hthen : Triple (fun q => q = p) (callPipeline id wanted wrong call >>= f)
      (fun _ => Confined (· = id) makes p) (Confined (· = id) makes p) := by
    apply Triple.bind (callPipeline_confined hinv id wanted wrong call)
    intro a q hq
    have hsame := hf a q
    split
    · next b r heq =>
      rw [heq] at hsame
      obtain rfl : r = q := hsame
      exact hq
    · next e r heq =>
      rw [heq] at hsame
      obtain rfl : r = q := hsame
      exact hq
  exact hthen.state rfl

theorem setSquelch_confined (hinv : p.Inv) (id : ChannelId) (db : ExactFloat) :
    Confined (· = id) makes p (setSquelch id db p).2 := by
  unfold setSquelch
  rw [bind_apply]
  unfold Fallible.ensure
  split_ifs
  · exact callThen_confined hinv id _ _ _ fun _ _ => rfl
  · exact confined_refl hinv

theorem subscribeExisting_same (id : ChannelId) (kind : PipelineKind) (p : Pool) :
    (subscribeExisting id kind p).2 = p := by
  have hsame : Triple (fun q => q = p) (subscribeExisting id kind) (fun _ q => q = p)
      (fun q => q = p) := by
    unfold subscribeExisting
    apply Triple.bind (Q := fun _ q => q = p)
    · exact Triple.get fun q hq => hq
    intro q
    apply Triple.bind (Q := fun _ q => q = p)
    · exact Triple.orFail (fun _ _ _ hq => hq) fun _ hq => hq
    intro active
    exact Triple.ensure (fun _ _ hq => hq) fun _ hq => hq
  exact hsame.state rfl

theorem setGain_same (db : ExactFloat) (gain : Except String Unit) (p : Pool) :
    (setGain db gain p).2 = p := by
  unfold setGain
  rw [bind_apply]
  unfold Fallible.ensure
  split_ifs
  · rfl
  · rfl

end Pool

theorem Effect.of_pool {α : Type} (forwarders : Forwarders) (result : Except String α × Pool) :
    (Effect.of forwarders result).pool = result.2 := by
  unfold Effect.of
  rcases result with ⟨e | a, p⟩
  · rfl
  · rfl

theorem Effect.subscribed_pool {α : Type} (forwarders : Forwarders) (id : ChannelId)
    (result : Except String α × Pool) :
    (Effect.subscribed forwarders id result).pool = result.2 := by
  unfold Effect.subscribed
  rcases result with ⟨e | a, p⟩
  · rfl
  · rfl

/-- The channel a command names, if there is one. -/
def Command.named : Command → Option ChannelId
  | .subscribe channel => some channel.id
  | .unsubscribe id => some id
  | cmd => cmd.controlledChannel

/-- Only a subscribe makes channels. -/
def Command.makes : Command → Bool
  | .subscribe _ => true
  | _ => false

/-- A command that has passed the ownership check touches the channel it names, and a subscribe
    only one that is not foreign. -/
theorem run_confined {p : Pool} (hinv : p.Inv) (cmd : Command) (channels : ClientChannels)
    (forwarders : Forwarders) (a : Answers) :
    Pool.Confined (fun j => cmd.named = some j ∧ (cmd.controlledChannel = none →
      channels.foreign j = false)) cmd.makes p (cmd.run channels forwarders p a).pool := by
  -- a controlled command has its channel checked before it runs
  have hcontrol : ∀ {id : ChannelId} {q : Pool}, cmd.named = some id →
      cmd.controlledChannel = some id → Pool.Confined (· = id) cmd.makes p q →
      Pool.Confined (fun j => cmd.named = some j ∧ (cmd.controlledChannel = none →
        channels.foreign j = false)) cmd.makes p q := by
    intro id q hnamed hcontrolled hq
    apply hq.mono
    rintro j rfl
    refine ⟨hnamed, fun hnone => ?_⟩
    rw [hcontrolled] at hnone
    cases hnone
  cases cmd with
  -- commands without a channel of their own
  | authenticate => exact Pool.confined_refl hinv
  | hello => exact Pool.confined_refl hinv
  | ping nonce => exact Pool.confined_refl hinv
  | detach => exact Pool.confined_refl hinv
  | unsubscribe id => exact Pool.confined_refl hinv
  | setFrequency hz =>
    show Pool.Confined _ _ p (Effect.of _ _).pool
    rw [Effect.of_pool]
    exact Pool.confined_restored hinv (restored_framed.setFrequency hz a.command)
  | setSampleRate hz =>
    show Pool.Confined _ _ p (Effect.of _ _).pool
    rw [Effect.of_pool]
    exact Pool.confined_restored hinv (restored_framed.setSampleRate hz a.command)
  | setGain db =>
    show Pool.Confined _ _ p (Effect.of _ _).pool
    rw [Effect.of_pool, Pool.setGain_same]
    exact Pool.confined_refl hinv
  | subscribe channel =>
    unfold Command.run
    dsimp only
    split
    -- a foreign channel is subscribed to as it is, any other is made or joined
    · rw [Effect.subscribed_pool, Pool.subscribeExisting_same]
      exact Pool.confined_refl hinv
    · next hforeign =>
      rw [Effect.subscribed_pool]
      apply (Pool.subscribe_confined hinv channel a.readings).mono
      rintro j rfl
      exact ⟨rfl, fun _ => Bool.not_eq_true _ ▸ hforeign⟩
  | setDemodMode id mode audio =>
    show Pool.Confined _ _ p (Effect.of _ _).pool
    rw [Effect.of_pool]
    exact hcontrol rfl rfl
      (Pool.confined_reworked hinv (configureAudio_reworks id mode audio a.readings))
  | setVolume id level =>
    show Pool.Confined _ _ p (Effect.of _ _).pool
    rw [Effect.of_pool]
    exact hcontrol rfl rfl ((Pool.callPipeline_confined hinv id _ _ _).state rfl)
  | setSquelch id db requestId => exact hcontrol rfl rfl (Pool.setSquelch_confined hinv id db)
  | retune id offset rate audio =>
    show Pool.Confined _ _ p (Effect.of _ _).pool
    rw [Effect.of_pool]
    exact hcontrol rfl rfl
      (Pool.confined_reworked hinv (retuneConfigured_reworks id offset rate audio a.readings))
  | removeChannel id =>
    have hremove : Pool.Confined (· = id) (Command.removeChannel id).makes p
        (Pool.removeChannel id p).2 := Pool.removeChannel_confined hinv id
    unfold Command.run
    dsimp only
    rcases hresult : Pool.removeChannel id p with ⟨e | u, q⟩
    · rw [hresult] at hremove
      exact hcontrol rfl rfl hremove
    · rw [hresult] at hremove
      exact hcontrol rfl rfl hremove
  | startRecording id format =>
    have hstart : Moves (Rerecorded id) (startRecording id format a.io) :=
      startRecording_moves (fun _ _ h => ⟨rfl, rfl, h⟩) format a.io
    have hconfined : Pool.Confined (· = id) (Command.startRecording id format).makes p
        (Pool.onState (startRecording id format a.io) p).2 :=
      Pool.confined_rerecorded hinv hstart
    unfold Command.run
    dsimp only
    rcases hresult : Pool.onState (startRecording id format a.io) p with ⟨e | u, q⟩
    · rw [hresult] at hconfined
      exact hcontrol rfl rfl hconfined
    · rw [hresult] at hconfined
      exact hcontrol rfl rfl hconfined
  | stopRecording id =>
    have hstop : Moves (Rerecorded id) (stopRecording id a.recordingError) :=
      stopRecording_moves (fun _ _ h => ⟨rfl, rfl, h⟩) a.recordingError
    have hconfined : Pool.Confined (· = id) (Command.stopRecording id).makes p
        (Pool.onState (stopRecording id a.recordingError) p).2 :=
      Pool.confined_rerecorded hinv hstop
    unfold Command.run
    dsimp only
    rcases hresult : Pool.onState (stopRecording id a.recordingError) p with ⟨e | u, q⟩
    · rw [hresult] at hconfined
      exact hcontrol rfl rfl hconfined
    · rw [hresult] at hconfined
      exact hcontrol rfl rfl hconfined
  | startTelemetryProduct id =>
    show Pool.Confined _ _ p (Effect.of _ _).pool
    rw [Effect.of_pool]
    exact hcontrol rfl rfl (Pool.callThen_confined hinv id _ _ _ fun _ _ => rfl)
  | finalizeTelemetryProduct id =>
    show Pool.Confined _ _ p (Effect.of _ _).pool
    rw [Effect.of_pool]
    exact hcontrol rfl rfl ((Pool.callPipeline_confined hinv id _ _ _).state rfl)
  | beginSpectrumObservation id revision =>
    show Pool.Confined _ _ p (Effect.of _ _).pool
    rw [Effect.of_pool]
    exact hcontrol rfl rfl ((Pool.callPipeline_confined hinv id _ _ _).state rfl)

/-- No command touches a foreign channel. -/
theorem applyCommand_confined {p : Pool} (hinv : p.Inv) (cmd : Command) (channels : ClientChannels)
    (forwarders : Forwarders) (a : Answers) :
    Pool.Confined (fun j => channels.foreign j = false) cmd.makes p
      (applyCommand cmd channels forwarders p a).pool := by
  unfold applyCommand
  split
  · exact Pool.confined_refl hinv
  · next hpassed =>
    apply (run_confined hinv cmd channels forwarders a).mono
    rintro j ⟨hnamed, hsubscribed⟩
    cases hcontrolled : cmd.controlledChannel with
    | none => exact hsubscribed hcontrolled
    | some id =>
      -- the check was made for the channel that is named
      have hid : id = j := by
        cases cmd <;> simp_all [Command.named, Command.controlledChannel]
      rw [hcontrolled] at hpassed
      rw [← hid]
      simpa using hpassed

namespace Server

/-! ## Section 6: The blocks of ids -/

/-- What every step of the server keeps. -/
structure Inv (s : Server) : Prop where
  pool   : s.pool.Inv
  start  : clientChannelStart ≤ s.nextClientChannel
  bound  : s.nextClientChannel < 2 ^ 32
  /-- Every connection has a block of four ids below the next one. -/
  blocks : ∀ k c, s.connections.get? k = some c → ∃ base, c.channels = .block base ∧
    clientChannelStart ≤ base ∧ base + 4 ≤ s.nextClientChannel
  /-- The blocks of two connections are disjoint. -/
  apart  : ∀ i j a b, s.connections.get? i = some a → s.connections.get? j = some b → i ≠ j →
    a.channels.ids.Disjoint b.channels.ids

theorem mem_block {base id : ℕ} :
    id ∈ (ClientChannels.block base).ids ↔ base ≤ id ∧ id < base + 4 := by
  unfold ClientChannels.block ClientChannels.ids
  simp only [List.mem_cons, List.not_mem_nil, or_false]
  omega

theorem Inv.foreign {s : Server} (h : s.Inv) {i j : ConnectionId} {a b : Connection}
    (ha : s.connections.get? i = some a) (hb : s.connections.get? j = some b) (hij : i ≠ j)
    {id : ChannelId} (hid : id ∈ b.channels.ids) : a.channels.foreign id = true := by
  obtain ⟨base, hblock, hstart, -⟩ := h.blocks j b hb
  have hlow : clientChannelStart ≤ id := by
    rw [hblock, mem_block] at hid
    exact hstart.trans hid.1
  have hother : id ∉ a.channels.ids := fun hmem => h.apart i j a b ha hb hij hmem hid
  unfold ClientChannels.foreign ClientChannels.contains
  simp [hlow, hother]

/-- A step that changes neither the ids handed out nor the channels of a connection. -/
theorem Inv.of_connections {s s' : Server} (h : s.Inv) (hpool : s'.pool.Inv)
    (hnext : s'.nextClientChannel = s.nextClientChannel)
    (hconnections : ∀ k c', s'.connections.get? k = some c' →
      ∃ c, s.connections.get? k = some c ∧ c'.channels = c.channels) : s'.Inv where
  pool := hpool
  start := hnext ▸ h.start
  bound := hnext ▸ h.bound
  blocks := by
    intro k c' hc'
    obtain ⟨c, hc, hsame⟩ := hconnections k c' hc'
    rw [hsame, hnext]
    exact h.blocks k c hc
  apart := by
    intro i j a' b' ha' hb' hij
    obtain ⟨a, ha, hasame⟩ := hconnections i a' ha'
    obtain ⟨b, hb, hbsame⟩ := hconnections j b' hb'
    rw [hasame, hbsame]
    exact h.apart i j a b ha hb hij

theorem Inv.store {s : Server} (h : s.Inv) {k : ConnectionId} {c : Connection}
    (hc : s.connections.get? k = some c) {e : Effect} (he : e.pool.Inv) : (s.store k c e).Inv := by
  refine h.of_connections he rfl ?_
  intro j c' hc'
  by_cases hj : j = k
  · rw [hj] at hc' ⊢
    rw [show (s.store k c e).connections = s.connections.insert k _ from rfl,
      BTreeMap.get?_insert_self, Option.some.injEq] at hc'
    exact ⟨c, hc, by rw [← hc']⟩
  · rw [show (s.store k c e).connections = s.connections.insert k _ from rfl,
      BTreeMap.get?_insert_ne _ hj] at hc'
    exact ⟨c', hc', rfl⟩

theorem Inv.close {s : Server} (h : s.Inv) (k : ConnectionId) (c : Connection) :
    (s.close k c).Inv := by
  refine h.of_connections h.pool rfl ?_
  intro j c' hc'
  by_cases hj : j = k
  · rw [hj, show (s.close k c).connections = s.connections.erase k from rfl,
      BTreeMap.get?_erase_self] at hc'
    cases hc'
  · rw [show (s.close k c).connections = s.connections.erase k from rfl,
      BTreeMap.get?_erase_ne _ hj] at hc'
    exact ⟨c', hc', rfl⟩

/-- A new block begins where the last one ended. -/
theorem Inv.allocate {s : Server} (h : s.Inv) (k : ConnectionId) : (s.allocate k).1.Inv := by
  have hblocks : ∀ j c, s.connections.get? j = some c → ∃ base, c.channels = .block base ∧
      clientChannelStart ≤ base ∧ base + 4 ≤ s.nextClientChannel + 4 := by
    intro j c hc
    obtain ⟨base, hblock, hstart, hle⟩ := h.blocks j c hc
    exact ⟨base, hblock, hstart, hle.trans (Nat.le_add_right _ _)⟩
  unfold Server.allocate
  dsimp only
  split
  · exact h
  · next hroom =>
    split
    · constructor
      case pool => exact h.pool
      case start => exact h.start.trans (Nat.le_add_right _ _)
      case bound => exact not_le.1 hroom
      case blocks =>
        intro j c hc
        by_cases hj : j = k
        · rw [hj] at hc
          simp only [BTreeMap.get?_insert_self, Option.some.injEq] at hc
          rw [← hc]
          exact ⟨s.nextClientChannel, rfl, h.start, le_rfl⟩
        · simp only [BTreeMap.get?_insert_ne _ hj] at hc
          exact hblocks j c hc
      case apart =>
        -- the ids of an old connection are below those of the new one
        have hbelow : ∀ j c, s.connections.get? j = some c → ∀ id ∈ c.channels.ids,
            id ∉ (ClientChannels.block s.nextClientChannel).ids := by
          intro j c hc id hid hnew
          obtain ⟨base, hblock, -, hle⟩ := h.blocks j c hc
          rw [hblock, mem_block] at hid
          rw [mem_block] at hnew
          exact lt_irrefl _ (hid.2.trans_le (hle.trans hnew.1))
        intro i j a b ha hb hij
        by_cases hi : i = k
        · have hj : j ≠ k := fun hj => hij (hi.trans hj.symm)
          rw [hi] at ha
          simp only [BTreeMap.get?_insert_self, Option.some.injEq] at ha
          simp only [BTreeMap.get?_insert_ne _ hj] at hb
          rw [← ha]
          exact fun id hnew hold => hbelow j b hb id hold hnew
        · simp only [BTreeMap.get?_insert_ne _ hi] at ha
          by_cases hj : j = k
          · rw [hj] at hb
            simp only [BTreeMap.get?_insert_self, Option.some.injEq] at hb
            rw [← hb]
            exact fun id hold hnew => hbelow i a ha id hold hnew
          · simp only [BTreeMap.get?_insert_ne _ hj] at hb
            exact h.apart i j a b ha hb hij
    · exact ⟨h.pool, h.start.trans (Nat.le_add_right _ _), not_le.1 hroom, hblocks, h.apart⟩

theorem inv_new (center rate : ℕ) : (Server.new center rate).Inv where
  pool := Pool.inv_new center rate
  start := le_rfl
  bound := by
    show clientChannelStart < 2 ^ 32
    decide
  blocks := fun k c hc => by cases hc
  apart := fun i j a b ha => by cases ha

/-- One step, and what it does to the daemon. -/
theorem Inv.step {s s' : Server} {input : Input} {events : List ServerEvent} (h : s.Inv)
    (hstep : s.step input = some (s', events)) : s'.Inv := by
  cases input with
  | connect k =>
    simp only [Server.step] at hstep
    split at hstep
    · cases hstep
    · have hresult : s.allocate k = (s', events) := Option.some.inj hstep
      have hinv := h.allocate k
      rw [hresult] at hinv
      exact hinv
  | command k cmd a =>
    simp only [Server.step, Option.map_eq_some_iff] at hstep
    obtain ⟨c, hc, hresult⟩ := hstep
    have hcommand := (applyCommand_confined h.pool cmd c.channels c.forwarders a).inv
    split at hresult
    · cases hresult
      exact h.close k c
    · cases hresult
      exact h.store hc hcommand
  | resume k channel a =>
    simp only [Server.step, Option.bind_eq_some_iff] at hstep
    obtain ⟨c, hc, hresult⟩ := hstep
    split_ifs at hresult
    cases hresult
    refine h.store hc ?_
    rw [Effect.subscribed_pool]
    exact (Pool.subscribeLocked_confined h.pool channel a.readings).inv
  | tick k =>
    simp only [Server.step, Option.map_eq_some_iff] at hstep
    obtain ⟨c, hc, hresult⟩ := hstep
    cases hresult
    exact h.store hc h.pool
  | disconnect k =>
    simp only [Server.step, Option.map_eq_some_iff] at hstep
    obtain ⟨c, hc, hresult⟩ := hstep
    cases hresult
    exact h.close k c
  | release =>
    simp only [Server.step] at hstep
    split at hstep
    · cases hstep
    · next id rest hclosing =>
      cases hstep
      refine h.of_connections ?_ rfl fun k c hc => ⟨c, hc, rfl⟩
      exact h.pool.step (Pool.releaseChannel_stepped id s.pool)
  | other input =>
    simp only [Server.step, Option.some.injEq] at hstep
    cases hstep
    refine h.of_connections ?_ rfl fun k c hc => ⟨c, hc, rfl⟩
    exact h.pool.step (Pool.run_stepped h.pool.fresh input)

/-! ## Section 7: Isolation -/

variable {center rate : ℕ} {inputs : List Input} {s : Server}
  {h : List (Machine.Event Server Input (List ServerEvent))}

/-- A connection runs a command, or the second part of a subscribe. -/
def Input.actor : Input → Option ConnectionId
  | .command k _ _ => some k
  | .resume k _ _ => some k
  | _ => none

/-- A step of one connection leaves the connection and the channels of every other as they
    were. -/
def Isolated (e : Machine.Event Server Input (List ServerEvent)) : Prop :=
  ∀ k j b, e.input.actor = some k → j ≠ k → e.before.connections.get? j = some b →
    e.after.connections.get? j = some b ∧
      ∀ id ∈ b.channels.ids, SameChannel id e.before.pool e.after.pool

theorem Inv.isolated {s s' : Server} {input : Input} {events : List ServerEvent} (h : s.Inv)
    (hstep : s.step input = some (s', events)) : Isolated ⟨s, input, events, s'⟩ := by
  intro k j b hactor hjk hb
  cases input with
  | command i cmd a =>
    obtain rfl : i = k := Option.some.inj hactor
    simp only [Server.step, Option.map_eq_some_iff] at hstep
    obtain ⟨c, hc, hresult⟩ := hstep
    have hsame := (applyCommand_confined h.pool cmd c.channels c.forwarders a).same
    have hforeign : ∀ id ∈ b.channels.ids, ¬ c.channels.foreign id = false := by
      intro id hid
      rw [h.foreign hc hb hjk.symm hid]
      simp
    split at hresult
    · cases hresult
      exact ⟨(BTreeMap.get?_erase_ne _ hjk).trans hb, fun id _ => .refl id s.pool⟩
    · cases hresult
      exact ⟨(BTreeMap.get?_insert_ne _ hjk _).trans hb, fun id hid => hsame id (hforeign id hid)⟩
  | resume i channel a =>
    obtain rfl : i = k := Option.some.inj hactor
    simp only [Server.step, Option.bind_eq_some_iff] at hstep
    obtain ⟨c, hc, hresult⟩ := hstep
    split at hresult
    · cases hresult
    · next hown =>
      have hsame := (Pool.subscribeLocked_confined h.pool channel a.readings).same
      cases hresult
      refine ⟨(BTreeMap.get?_insert_ne _ hjk _).trans hb, ?_⟩
      intro id hid
      have hother : id ≠ channel.id := by
        rintro rfl
        exact hown (h.foreign hc hb hjk.symm hid)
      show SameChannel id s.pool (Effect.subscribed _ _ _).pool
      rw [Effect.subscribed_pool]
      exact hsame id hother
  | connect i => cases hactor
  | tick i => cases hactor
  | disconnect i => cases hactor
  | release => cases hactor
  | other input => cases hactor

theorem run_inv (hrun : (machine center rate).run (Server.new center rate) inputs = some (s, h)) :
    s.Inv ∧ ∀ past e later, h = past ++ e :: later →
      e.before.Inv ∧ e.before.step e.input = some (e.after, e.output) := by
  refine (machine center rate).run_inv_steps (P := fun _ s => s.Inv)
    (Q := fun _ e => e.before.Inv ∧ e.before.step e.input = some (e.after, e.output)) ?_ ?_ hrun
  · exact inv_new center rate
  · intro h s input s' events hinv hstep
    exact ⟨hinv.step hstep, hinv, hstep⟩

/-- **Channels are isolated.** In every run of any number of connections, the ids of two live
    connections are disjoint, and each has four ids in a row between `0x8000_0000` and `2 ^ 32`;
    and no command of a connection, nor the second part of a subscribe of it, changes another
    connection, or the specification, the tap, the pipeline, the recording or the existence of a
    channel of another connection. -/
theorem channels_isolated
    (hrun : (machine center rate).run (Server.new center rate) inputs = some (s, h)) :
    (∀ k c, s.connections.get? k = some c → ∃ base, c.channels = .block base ∧
      clientChannelStart ≤ base ∧ base + 4 < 2 ^ 32) ∧
    (∀ i j a b, s.connections.get? i = some a → s.connections.get? j = some b → i ≠ j →
      a.channels.ids.Disjoint b.channels.ids) ∧
    ∀ e ∈ h, Isolated e := by
  obtain ⟨hinv, hsteps⟩ := run_inv hrun
  refine ⟨?_, hinv.apart, ?_⟩
  · intro k c hc
    obtain ⟨base, hblock, hstart, hle⟩ := hinv.blocks k c hc
    exact ⟨base, hblock, hstart, hle.trans_lt hinv.bound⟩
  · intro e hmem
    obtain ⟨past, later, hsplit⟩ := List.append_of_mem hmem
    obtain ⟨hbefore, hstep⟩ := hsteps past e later hsplit
    exact hbefore.isolated hstep

/-- Answers of a receiver that is tuned and connected. -/
def answersAt (hz : ℕ) : Answers :=
  ⟨readingsAt hz, ⟨readingsAt hz, .accepted, receiverAt hz⟩, .ok (), .error "", none, .ok ()⟩

/-- The same specification for another id. -/
def adsbSpecFor (id : ChannelId) : ChannelSpec := { adsbSpec with id := id }

/-- Two connections; the second makes its channel, and the first tries to remove it. -/
theorem channels_isolated_refused :
    ∃ s h, (machine 100000000 4800000).run (Server.new 100000000 4800000)
      [.connect 0, .connect 1,
        .command 1 (.subscribe (adsbSpecFor 0x80000006)) (answersAt 100000000),
        .command 0 (.removeChannel 0x80000006) (answersAt 100000000)] = some (s, h) ∧
      (s.pool.state.channels.get? 0x80000006).isSome = true ∧ ∀ e ∈ h, Isolated e := by
  have hisolated := @channels_isolated 100000000 4800000
    [.connect 0, .connect 1,
      .command 1 (.subscribe (adsbSpecFor 0x80000006)) (answersAt 100000000),
      .command 0 (.removeChannel 0x80000006) (answersAt 100000000)] _ _ rfl
  exact ⟨_, _, rfl, rfl, hisolated.2.2⟩

/-! ## Section 8: Forwarders -/

/-- The connection has a forwarder for the channel, which reads the pipeline. -/
def Lists (s : Server) (k : ConnectionId) (id : ChannelId) (n : ℕ) : Prop :=
  ∃ c, s.connections.get? k = some c ∧ c.forwarders.get? id = some n

/-- Every forwarder reads the pipeline of its channel, or the channel is gone. -/
def Follows (s : Server) : Prop :=
  ∀ k id n, s.Lists k id n →
    s.pool.held.get? id = some n ∨ s.pool.state.channels.get? id = none

/-- A channel is made that was absent, while a connection other than the one that asks for it
    has a forwarder for its id. -/
def Reuses (e : Machine.Event Server Input (List ServerEvent)) : Prop :=
  ∃ k id n, e.before.Lists k id n ∧ e.before.pool.state.channels.get? id = none ∧
    (e.after.pool.state.channels.get? id).isSome = true ∧ e.input.actor ≠ some k

end Server

namespace Pool

variable {p p' : Pool}

theorem Unchanged.not_makes (h : Unchanged p p') (j : ChannelId) : ¬ Makes p p' j := by
  rintro ⟨habsent, hpresent, -⟩
  rw [h.state.channels, habsent] at hpresent
  cases hpresent

theorem Subscribed.makes_only {spec : ChannelSpec} {created : Bool} {j : ChannelId}
    (h : Subscribed spec p created p') (hmakes : Makes p p' j) : j = spec.id := by
  rcases h with ⟨-, hsame⟩ | ⟨-, active, hcreated⟩
  · exact absurd hmakes (hsame.not_makes j)
  · obtain ⟨habsent, hpresent, -⟩ := hmakes
    by_contra hj
    rw [hcreated.channels, BTreeMap.get?_insert_ne _ hj, habsent] at hpresent
    cases hpresent

/-- Whatever is made by a subscribe has its id, and the subscribe succeeds. -/
theorem subscribing_makes {x : Fails Pool Bool} {spec : ChannelSpec}
    (hx : Triple (fun q => q = p) x (fun created q => Subscribed spec p created q) (Unchanged p))
    {j : ChannelId} (hmakes : Makes p (x p).2 j) :
    j = spec.id ∧ ∃ created, (x p).1 = .ok created := by
  have hresult := hx p rfl
  rcases hxp : x p with ⟨e | created, q⟩
  · rw [hxp] at hresult hmakes
    exact absurd hmakes (Unchanged.not_makes hresult j)
  · rw [hxp] at hresult hmakes
    exact ⟨Subscribed.makes_only hresult hmakes, created, rfl⟩

/-- An id that is absent and then present has been made. -/
theorem makes_of_fate {makes : Bool} {j : ChannelId}
    (h : Stays p p' j ∨ (makes = true ∧ Makes p p' j)) (habsent : p.state.channels.get? j = none)
    (hpresent : (p'.state.channels.get? j).isSome = true) : Makes p p' j := by
  rcases h with (⟨-, hsame⟩ | hgone) | ⟨-, hmakes⟩
  · rw [habsent, hpresent] at hsame
    cases hsame
  · rw [hgone] at hpresent
    cases hpresent
  · exact hmakes

theorem Stepped.confined (h : Stepped p p') (hinv : p.Inv) :
    Confined (fun _ => True) true p p' := by
  cases h with
  | kept state pipelines held =>
    constructor
    case inv => exact hinv.kept state pipelines held
    case same => exact fun j hj => absurd trivial hj
    case fate => exact fun j => .inl (.inl ⟨by rw [held], state.keys j⟩)
    case lasts => exact .of_eq pipelines
  | created spec active h => exact (h.confined hinv).mono fun _ _ => trivial
  | removed id active h => exact (h.confined hinv).mono fun _ _ => trivial

end Pool

/-- Every forwarder after the command reads the pipeline of its channel, or it was there before
    and its id was not made meanwhile. -/
def Relists (forwarders : Forwarders) (p : Pool) (e : Effect) : Prop :=
  ∀ id n, e.forwarders.get? id = some n → e.pool.held.get? id = some n ∨
    (forwarders.get? id = some n ∧ Pool.Stays p e.pool id)

theorem Relists.of_stays {forwarders : Forwarders} {p : Pool} {e : Effect}
    (hforwarders : ∀ id n, e.forwarders.get? id = some n → forwarders.get? id = some n)
    (hstays : ∀ id, Pool.Stays p e.pool id) : Relists forwarders p e :=
  fun id n hlisted => .inr ⟨hforwarders id n hlisted, hstays id⟩

/-- A subscribe that makes its channel replaces the forwarder. -/
theorem relists_subscribed {α : Type} {forwarders : Forwarders} {p : Pool} {id : ChannelId}
    {result : Except String α × Pool}
    (hfate : ∀ j, Pool.Stays p result.2 j ∨ (true = true ∧ Pool.Makes p result.2 j))
    (hmakes : ∀ j, Pool.Makes p result.2 j → j = id ∧ ∃ a, result.1 = .ok a) :
    Relists forwarders p (Effect.subscribed forwarders id result) := by
  intro j n hlisted
  rw [Effect.subscribed_pool]
  obtain ⟨answer, p'⟩ := result
  cases answer with
  | error e =>
    rcases hfate j with hstays | ⟨-, hmade⟩
    · exact .inr ⟨hlisted, hstays⟩
    · obtain ⟨-, a, ha⟩ := hmakes j hmade
      cases ha
  | ok a =>
    have hlisted : (spawnForwarder forwarders id p').get? j = some n := hlisted
    unfold spawnForwarder at hlisted
    rcases hheld : p'.held.get? id with - | m
    · -- no forwarder was spawned, so nothing was made
      rw [hheld] at hlisted
      rcases hfate j with hstays | ⟨-, hmade⟩
      · exact .inr ⟨hlisted, hstays⟩
      · obtain ⟨rfl, -⟩ := hmakes j hmade
        rw [show p'.held.get? j = _ from hmade.2.2] at hheld
        cases hheld
    · rw [hheld] at hlisted
      have hlisted : (forwarders.insert id m).get? j = some n := hlisted
      by_cases hj : j = id
      · rw [hj, BTreeMap.get?_insert_self] at hlisted
        rw [hj]
        exact .inl (hheld.trans hlisted)
      · rw [BTreeMap.get?_insert_ne _ hj] at hlisted
        rcases hfate j with hstays | ⟨-, hmade⟩
        · exact .inr ⟨hlisted, hstays⟩
        · exact absurd (hmakes j hmade).1 hj

theorem Effect.of_forwarders {α : Type} (forwarders : Forwarders)
    (result : Except String α × Pool) : (Effect.of forwarders result).forwarders = forwarders := by
  unfold Effect.of
  rcases result with ⟨e | a, p⟩
  · rfl
  · rfl

theorem get?_of_erase {forwarders : Forwarders} {id j : ChannelId} {n : ℕ}
    (h : (forwarders.erase id).get? j = some n) : forwarders.get? j = some n := by
  by_cases hj : j = id
  · rw [hj, BTreeMap.get?_erase_self] at h
    cases h
  · rwa [BTreeMap.get?_erase_ne _ hj] at h

/-- Only a subscribe spawns forwarders. -/
theorem run_forwarders {p : Pool} {cmd : Command} {channels : ClientChannels}
    {forwarders : Forwarders} {a : Answers} (hmakes : cmd.makes = false) {j : ChannelId} {n : ℕ}
    (h : (cmd.run channels forwarders p a).forwarders.get? j = some n) :
    forwarders.get? j = some n := by
  cases cmd with
  | subscribe channel => cases hmakes
  | unsubscribe id => exact get?_of_erase h
  | removeChannel id =>
    unfold Command.run at h
    dsimp only at h
    split at h
    · exact get?_of_erase h
    · exact h
  | startRecording id format =>
    unfold Command.run at h
    dsimp only at h
    split at h
    · exact h
    · exact h
  | stopRecording id =>
    unfold Command.run at h
    dsimp only at h
    split at h
    · exact h
    · exact h
  | authenticate => exact h
  | hello => exact h
  | ping nonce => exact h
  | detach => exact h
  | setSquelch id db requestId => exact h
  | _ =>
    have hsame := h
    unfold Command.run at hsame
    dsimp only at hsame
    rwa [Effect.of_forwarders] at hsame

theorem run_relists {p : Pool} (hinv : p.Inv) (cmd : Command) (channels : ClientChannels)
    (forwarders : Forwarders) (a : Answers) :
    Relists forwarders p (cmd.run channels forwarders p a) := by
  have hfate := (run_confined hinv cmd channels forwarders a).fate
  cases hmakes : cmd.makes with
  | false =>
    apply Relists.of_stays (fun id n => run_forwarders hmakes)
    intro id
    rcases hfate id with hstays | ⟨hmade, -⟩
    · exact hstays
    · rw [hmakes] at hmade
      cases hmade
  | true =>
    cases cmd with
    | subscribe channel =>
      unfold Command.run
      dsimp only
      split
      · apply relists_subscribed
        · intro j
          rw [Pool.subscribeExisting_same]
          exact .inl (.inl ⟨rfl, rfl⟩)
        · rintro j ⟨habsent, hpresent, -⟩
          rw [Pool.subscribeExisting_same, habsent] at hpresent
          cases hpresent
      · apply relists_subscribed
        · exact (Pool.subscribe_confined hinv channel a.readings).fate
        · exact fun j => Pool.subscribing_makes (Pool.subscribe_spec channel a.readings hinv.fresh)
    | _ => cases hmakes

theorem applyCommand_relists {p : Pool} (hinv : p.Inv) (cmd : Command) (channels : ClientChannels)
    (forwarders : Forwarders) (a : Answers) :
    Relists forwarders p (applyCommand cmd channels forwarders p a) := by
  unfold applyCommand
  split
  · exact .of_stays (fun _ _ h => h) fun _ => .inl ⟨rfl, rfl⟩
  · exact run_relists hinv cmd channels forwarders a

namespace Server

/-- What a step does to the pipelines and the forwarders. -/
structure Moved (s s' : Server) (actor : Option ConnectionId) : Prop where
  lasts : Pool.Lasts s.pool s'.pool
  fate  : ∀ id, Pool.Stays s.pool s'.pool id ∨ (true = true ∧ Pool.Makes s.pool s'.pool id)
  /-- A forwarder is up to date, or an old one; the one who acts has no old one for an id that
      is made. -/
  lists : ∀ k id n, s'.Lists k id n → s'.pool.held.get? id = some n ∨
    (s.Lists k id n ∧ (actor = some k → Pool.Stays s.pool s'.pool id))
  /-- Where a channel is made, the others keep their forwarders. -/
  keeps : ∀ k id n j, s.Lists k id n → Pool.Makes s.pool s'.pool j → actor ≠ some k →
    s'.Lists k id n

/-- A step that leaves the daemon as it is and spawns no forwarder. -/
theorem moved_same {s s' : Server} {actor : Option ConnectionId} (hpool : s'.pool = s.pool)
    (hlists : ∀ k id n, s'.Lists k id n → s.Lists k id n) : Moved s s' actor := by
  have hstays : ∀ id, Pool.Stays s.pool s'.pool id := fun id => .inl ⟨by rw [hpool], by rw [hpool]⟩
  constructor
  case lasts => exact .of_eq (by rw [hpool])
  case fate => exact fun id => .inl (hstays id)
  case lists => exact fun k id n hlisted => .inr ⟨hlists k id n hlisted, fun _ => hstays id⟩
  case keeps =>
    rintro k id n j - ⟨habsent, hpresent, -⟩
    rw [hpool, habsent] at hpresent
    cases hpresent

/-- A step of the daemon alone. -/
theorem moved_pool {s s' : Server} (hinv : s.Inv) (hstepped : Pool.Stepped s.pool s'.pool)
    (hconnections : s'.connections = s.connections) : Moved s s' none := by
  have hconfined := hstepped.confined hinv.pool
  have hlists : ∀ k id n, s'.Lists k id n ↔ s.Lists k id n := by
    intro k id n
    unfold Lists
    rw [hconnections]
  constructor
  case lasts => exact hconfined.lasts
  case fate => exact hconfined.fate
  case lists =>
    intro k id n hlisted
    exact .inr ⟨(hlists k id n).1 hlisted, fun hnone => by cases hnone⟩
  case keeps => exact fun k id n j hlisted _ _ => (hlists k id n).2 hlisted

/-- A step of one connection. -/
theorem moved_store {s : Server} {k : ConnectionId} {c : Connection} {e : Effect}
    {touched : ChannelId → Prop} (hc : s.connections.get? k = some c)
    (hconfined : Pool.Confined touched true s.pool e.pool)
    (hrelists : Relists c.forwarders s.pool e) : Moved s (s.store k c e) (some k) := by
  have helsewhere : ∀ j, j ≠ k → (s.store k c e).connections.get? j = s.connections.get? j :=
    fun j hj => BTreeMap.get?_insert_ne _ hj _
  have hhere : (s.store k c e).connections.get? k = some { c with forwarders := e.forwarders } :=
    BTreeMap.get?_insert_self _ _ _
  constructor
  case lasts => exact hconfined.lasts
  case fate => exact hconfined.fate
  case lists =>
    rintro j id n ⟨d, hd, hlisted⟩
    by_cases hj : j = k
    · rw [hj, hhere, Option.some.injEq] at hd
      rw [← hd] at hlisted
      rcases hrelists id n hlisted with hheld | ⟨hold, hstays⟩
      · exact .inl hheld
      · exact .inr ⟨⟨c, hj ▸ hc, hold⟩, fun _ => hstays⟩
    · rw [helsewhere j hj] at hd
      exact .inr ⟨⟨d, hd, hlisted⟩, fun hactor => absurd (Option.some.inj hactor).symm hj⟩
  case keeps =>
    rintro j id n - ⟨d, hd, hlisted⟩ - hactor
    have hj : j ≠ k := fun hjk => hactor (hjk ▸ rfl)
    exact ⟨d, (helsewhere j hj).trans hd, hlisted⟩

theorem moved_close {s : Server} (k : ConnectionId) (c : Connection)
    (actor : Option ConnectionId) : Moved s (s.close k c) actor := by
  refine moved_same ?_ ?_
  · rfl
  rintro j id n ⟨d, hd, hlisted⟩
  by_cases hj : j = k
  · rw [hj, show (s.close k c).connections = s.connections.erase k from rfl,
      BTreeMap.get?_erase_self] at hd
    cases hd
  · rw [show (s.close k c).connections = s.connections.erase k from rfl,
      BTreeMap.get?_erase_ne _ hj] at hd
    exact ⟨d, hd, hlisted⟩

theorem moved_allocate (s : Server) (k : ConnectionId) : Moved s (s.allocate k).1 none := by
  unfold Server.allocate
  dsimp only
  split
  · exact moved_same rfl fun _ _ _ h => h
  split
  · refine moved_same ?_ ?_
    · rfl
    rintro j id n ⟨d, hd, hlisted⟩
    by_cases hj : j = k
    · -- a new connection has no forwarders
      rw [hj] at hd
      simp only [BTreeMap.get?_insert_self, Option.some.injEq] at hd
      rw [← hd] at hlisted
      cases hlisted
    · simp only [BTreeMap.get?_insert_ne _ hj] at hd
      exact ⟨d, hd, hlisted⟩
  · exact moved_same rfl fun _ _ _ h => h

/-- The tick only takes forwarders away. -/
theorem moved_tick {s : Server} {k : ConnectionId} {c : Connection} {events : List ServerEvent}
    (hc : s.connections.get? k = some c) :
    Moved s (s.store k c ⟨s.pool, (reportRemovedChannels s.pool c.forwarders).1, events⟩) none := by
  refine moved_same ?_ ?_
  · rfl
  rintro j id n ⟨d, hd, hlisted⟩
  by_cases hj : j = k
  · rw [hj, show (s.store k c _).connections = s.connections.insert k _ from rfl,
      BTreeMap.get?_insert_self, Option.some.injEq] at hd
    rw [← hd] at hlisted
    exact ⟨c, hj ▸ hc, ((BTreeMap.get?_filter_eq_some _).1 hlisted).1⟩
  · rw [show (s.store k c _).connections = s.connections.insert k _ from rfl,
      BTreeMap.get?_insert_ne _ hj] at hd
    exact ⟨d, hd, hlisted⟩

theorem Inv.moved {s s' : Server} {input : Input} {events : List ServerEvent} (h : s.Inv)
    (hstep : s.step input = some (s', events)) : Moved s s' input.actor := by
  cases input with
  | connect k =>
    simp only [Server.step] at hstep
    split at hstep
    · cases hstep
    · have hresult : s.allocate k = (s', events) := Option.some.inj hstep
      have hmoved := moved_allocate s k
      rw [hresult] at hmoved
      exact hmoved
  | command k cmd a =>
    simp only [Server.step, Option.map_eq_some_iff] at hstep
    obtain ⟨c, hc, hresult⟩ := hstep
    split at hresult
    · cases hresult
      exact moved_close k c _
    · cases hresult
      have hconfined := applyCommand_confined h.pool cmd c.channels c.forwarders a
      -- the guard says for a command what a connection may touch at all
      have hany : Pool.Confined (fun j => c.channels.foreign j = false) true s.pool
          (applyCommand cmd c.channels c.forwarders s.pool a).pool :=
        ⟨hconfined.inv, hconfined.same,
          fun j => (hconfined.fate j).imp_right fun hmade => ⟨rfl, hmade.2⟩, hconfined.lasts⟩
      exact moved_store hc hany (applyCommand_relists h.pool cmd c.channels c.forwarders a)
  | resume k channel a =>
    simp only [Server.step, Option.bind_eq_some_iff] at hstep
    obtain ⟨c, hc, hresult⟩ := hstep
    split_ifs at hresult
    cases hresult
    have hconfined := Pool.subscribeLocked_confined h.pool channel a.readings
    have hpool : Pool.Confined (· = channel.id) true s.pool
        (Effect.subscribed c.forwarders channel.id
          (Pool.subscribeLocked channel a.readings s.pool)).pool := by
      rw [Effect.subscribed_pool]
      exact hconfined
    refine moved_store hc hpool (relists_subscribed hconfined.fate ?_)
    exact fun j => Pool.subscribing_makes
      (Pool.subscribeLocked_spec channel a.readings h.pool.fresh)
  | tick k =>
    simp only [Server.step, Option.map_eq_some_iff] at hstep
    obtain ⟨c, hc, hresult⟩ := hstep
    cases hresult
    exact moved_tick hc
  | disconnect k =>
    simp only [Server.step, Option.map_eq_some_iff] at hstep
    obtain ⟨c, hc, hresult⟩ := hstep
    cases hresult
    exact moved_close k c _
  | release =>
    simp only [Server.step] at hstep
    split at hstep
    · cases hstep
    · cases hstep
      exact moved_pool h (Pool.releaseChannel_stepped _ s.pool) rfl
  | other input =>
    simp only [Server.step, Option.some.injEq] at hstep
    cases hstep
    exact moved_pool h (Pool.run_stepped h.pool.fresh input) rfl

/-- Every forwarder reads a pipeline that was made for its channel. -/
def Placed (s : Server) : Prop :=
  ∀ k id n, s.Lists k id n →
    ∃ pipeline, s.pool.pipelines[n]? = some pipeline ∧ pipeline.channelId = id

theorem Moved.placed {s s' : Server} {actor : Option ConnectionId} (h : Moved s s' actor)
    (hinv : s'.Inv) (hplaced : s.Placed) : s'.Placed := by
  intro k id n hlisted
  rcases h.lists k id n hlisted with hheld | ⟨hold, -⟩
  · exact hinv.pool.placed id n hheld
  · obtain ⟨pipeline, hget, hid⟩ := hplaced k id n hold
    obtain ⟨pipeline', hget', hsame⟩ := h.lasts n pipeline hget
    exact ⟨pipeline', hget', hsame.trans hid⟩

theorem Moved.follows {s s' : Server} {input : Input} {events : List ServerEvent}
    (h : Moved s s' input.actor) (hfollows : s.Follows)
    (hreuses : ¬ Reuses ⟨s, input, events, s'⟩) : s'.Follows := by
  intro k id n hlisted
  rcases h.lists k id n hlisted with hheld | ⟨hold, hactor⟩
  · exact .inl hheld
  have hstays : Pool.Stays s.pool s'.pool id := by
    rcases h.fate id with hstays | ⟨-, habsent, hpresent, -⟩
    · exact hstays
    · by_contra hmade
      exact hreuses ⟨k, id, n, hold, habsent, hpresent, fun hk => hmade (hactor hk)⟩
  rcases hstays with ⟨hheld, hkey⟩ | hgone
  · rcases hfollows k id n hold with hreads | habsent
    · exact .inl (hheld.trans hreads)
    · right
      rw [habsent] at hkey
      exact Option.isNone_iff_eq_none.1 (by simpa using hkey)
  · exact .inr hgone

/-- The old forwarder of an id that is made again reads the old pipeline. -/
theorem Moved.not_follows {s s' : Server} {input : Input} {events : List ServerEvent}
    (h : Moved s s' input.actor) (hplaced : s.Placed)
    (hreuses : Reuses ⟨s, input, events, s'⟩) : ¬ s'.Follows := by
  obtain ⟨k, id, n, hlisted, habsent, hpresent, hactor⟩ := hreuses
  have hmakes : Pool.Makes s.pool s'.pool id := Pool.makes_of_fate (h.fate id) habsent hpresent
  intro hfollows
  rcases hfollows k id n (h.keeps k id n id hlisted hmakes hactor) with hheld | hgone
  · obtain ⟨pipeline, hget, -⟩ := hplaced k id n hlisted
    have hlt : n < s.pool.pipelines.length := (List.getElem?_eq_some_iff.1 hget).1
    rw [hmakes.2.2, Option.some.injEq] at hheld
    exact hlt.ne' hheld
  · rw [show s'.pool.state.channels.get? id = none from hgone] at hpresent
    cases hpresent

/-- After the tick the forwarders of the connection read registered pipelines, and the removals
    of the others have been sent. -/
def Ticked (e : Machine.Event Server Input (List ServerEvent)) : Prop :=
  ∀ k, e.input = .tick k →
    (∀ id n, e.after.Lists k id n → e.after.pool.held.get? id = some n) ∧
    ∀ id n, e.before.Lists k id n → e.after.Lists k id n ∨ .channelRemoved id ∈ e.output

theorem Follows.ticked {s s' : Server} {input : Input} {events : List ServerEvent}
    (hfollows : s.Follows) (hstep : s.step input = some (s', events)) :
    Ticked ⟨s, input, events, s'⟩ := by
  rintro k rfl
  simp only [Server.step, Option.map_eq_some_iff] at hstep
  obtain ⟨c, hc, hresult⟩ := hstep
  cases hresult
  constructor
  · rintro id n ⟨d, hd, hlisted⟩
    rw [show (s.store k c _).connections = s.connections.insert k _ from rfl,
      BTreeMap.get?_insert_self, Option.some.injEq] at hd
    rw [← hd] at hlisted
    obtain ⟨hold, hpresent⟩ := (BTreeMap.get?_filter_eq_some _).1 hlisted
    rcases hfollows k id n ⟨c, hc, hold⟩ with hheld | hgone
    · exact hheld
    · rw [hgone] at hpresent
      cases hpresent
  · rintro id n ⟨d, hd, hlisted⟩
    obtain rfl : d = c := Option.some.inj (hd.symm.trans hc)
    cases hpresent : s.pool.state.channels.get? id with
    | some active =>
      left
      refine ⟨_, BTreeMap.get?_insert_self _ _ _, ?_⟩
      exact (BTreeMap.get?_filter_eq_some _).2 ⟨hlisted, by rw [hpresent]; rfl⟩
    | none =>
      right
      apply List.mem_map_of_mem
      rw [List.mem_filter]
      exact ⟨(BTreeMap.mem_keys _).2 ⟨n, hlisted⟩, by rw [hpresent]; rfl⟩

/-- **Forwarders follow their channels.** In every run every forwarder reads a pipeline that was
    made for its channel. Forwarders read registered pipelines, unless their channel is gone, in
    all states of a run exactly if no channel is made again while another connection still has
    a forwarder for its id. In such a run each tick of a connection leaves it with forwarders of
    registered pipelines only, and has sent the removal of every channel it drops. -/
theorem forwarders_follow
    (hrun : (machine center rate).run (Server.new center rate) inputs = some (s, h)) :
    s.Placed ∧ ((∀ e ∈ h, Follows e.after) ↔ ∀ e ∈ h, ¬ Reuses e) ∧
      ((∀ e ∈ h, ¬ Reuses e) → ∀ e ∈ h, Ticked e) := by
  have hall := (machine center rate).run_inv_steps
    (P := fun h s => s.Inv ∧ s.Placed ∧ ((∀ e ∈ h, ¬ Reuses e) → s.Follows))
    (Q := fun past e => (Reuses e → ¬ Follows e.after) ∧
      ((∀ e' ∈ past ++ [e], ¬ Reuses e') → Follows e.after ∧ Ticked e)) ?_ ?_ hrun
  · obtain ⟨⟨-, hplaced, -⟩, hsteps⟩ := hall
    refine ⟨hplaced, ⟨?_, ?_⟩, ?_⟩
    · intro hfollows e hmem hreuses
      obtain ⟨past, later, hsplit⟩ := List.append_of_mem hmem
      exact (hsteps past e later hsplit).1 hreuses (hfollows e hmem)
    · intro hnone e hmem
      obtain ⟨past, later, rfl⟩ := List.append_of_mem hmem
      refine ((hsteps past e later rfl).2 ?_).1
      exact fun e' he' => hnone e' (by simp only [List.mem_append, List.mem_cons] at he' ⊢; tauto)
    · intro hnone e hmem
      obtain ⟨past, later, rfl⟩ := List.append_of_mem hmem
      refine ((hsteps past e later rfl).2 ?_).2
      exact fun e' he' => hnone e' (by simp only [List.mem_append, List.mem_cons] at he' ⊢; tauto)
  · refine ⟨inv_new center rate, ?_, fun _ => ?_⟩
    · rintro k id n ⟨c, hc, -⟩
      cases hc
    · rintro k id n ⟨c, hc, -⟩
      cases hc
  · rintro h s input s' events ⟨hinv, hplaced, hfollows⟩ hstep
    have hmoved := hinv.moved hstep
    have hnext : (∀ e ∈ h ++ [(⟨s, input, events, s'⟩ : Machine.Event _ _ _)], ¬ Reuses e) →
        s'.Follows ∧ s.Follows := by
      intro hnone
      have hbefore : s.Follows := hfollows fun e he => hnone e (List.mem_append_left _ he)
      exact ⟨hmoved.follows hbefore (hnone _ (List.mem_append_right _ (List.mem_singleton_self _))),
        hbefore⟩
    have hafter := hinv.step hstep
    refine ⟨⟨hafter, hmoved.placed hafter hplaced, fun hnone => (hnext hnone).1⟩,
      hmoved.not_follows hplaced, ?_⟩
    exact fun hnone => ⟨(hnext hnone).1, (hnext hnone).2.ticked hstep⟩

/-- Two connections listen to one shared channel. The second one removes and makes it again before
    the first has noticed, whose forwarder then reads a pipeline that has ended. -/
theorem forwarders_follow_reused :
    ∃ s h, (machine 100000000 4800000).run (Server.new 100000000 4800000)
      [.connect 0, .connect 1, .command 0 (.subscribe adsbSpec) (answersAt 100000000),
        .command 1 (.removeChannel 1) (answersAt 100000000),
        .command 1 (.subscribe adsbSpec) (answersAt 100000000)] = some (s, h) ∧
      s.Placed ∧ ∃ e ∈ h, ¬ Follows e.after := by
  have hfollow := @forwarders_follow 100000000 4800000
    [.connect 0, .connect 1, .command 0 (.subscribe adsbSpec) (answersAt 100000000),
      .command 1 (.removeChannel 1) (answersAt 100000000),
      .command 1 (.subscribe adsbSpec) (answersAt 100000000)] _ _ rfl
  refine ⟨_, _, rfl, hfollow.1, ?_⟩
  by_contra hall
  have hnone := hfollow.2.1.1 (by simpa using hall)
  exact hnone _ (List.mem_of_getElem? (i := 4) rfl)
    ⟨0, 1, 0, ⟨_, rfl, rfl⟩, rfl, rfl, fun hactor => by cases hactor⟩

end Server

end Daemon
