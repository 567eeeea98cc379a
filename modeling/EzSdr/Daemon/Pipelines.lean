import EzSdr.Daemon.Geometry
import EzSdr.Framework.ExactFloat
import EzSdr.Framework.Registry

/-! # The Pipelines of the Daemon

    A channel is three things in three places: an entry of the channel table,
    a tap of the channelizer and a pipeline with a thread of its own. `State`
    has the first two. A `Pool` adds every pipeline that was ever started, with
    the flag that keeps its thread running, and which of them each channel has.

    Creation fills the places one after another, with ways out in between. All
    operations that write them hold the geometry lock; only the first look of a
    subscribe at the table, and the parts of a release, come without it.

    **`pipelines_match`**: in every reachable state the taps and the virtual
    channels correspond one to one, there are at most 32 channels, exactly the
    pipelines of the table run, and no subscribe that failed has left anything. -/

namespace Daemon

open Fallible

/-! ## Section 1: State -/

/-- What a command asks of a running pipeline. -/
inductive PipelineCall where
  | setVolume (level : ExactFloat)
  | setSquelch (db : ExactFloat)
  | startNewProduct
  | finalizeProduct
  | beginObservation (revision : ℕ)
  deriving DecidableEq

/-- A started pipeline: the flag its thread polls, and what was asked of it. -/
structure Pipeline where
  channelId : ChannelId
  running   : Bool
  calls     : List PipelineCall
  deriving DecidableEq

def Pipeline.stop (pipeline : Pipeline) : Pipeline := { pipeline with running := false }

structure Pool where
  state     : State
  /-- All pipelines ever started; a pipeline is known by its place. -/
  pipelines : List Pipeline
  /-- The pipeline of each channel of the table. -/
  held      : BTreeMap ChannelId ℕ

namespace Pool

/-- `DaemonState::new`. -/
def new (widebandCenterHz widebandRateHz : ℕ) : Pool where
  state := State.new widebandCenterHz widebandRateHz
  pipelines := []
  held := BTreeMap.empty

/-! ## Section 2: Operations -/

/-- Run an operation that concerns no pipeline thread. -/
def onState {α : Type} (x : Fails State α) : Fails Pool α := fun p =>
  match x p.state with
  | (r, s) => (r, { p with state := s })

/-- `spawn_locked_tick_thread`. -/
def spawnTickThread (id : ChannelId) : Fails Pool ℕ := do
  let p ← Fallible.get
  Fallible.modify fun p => { p with pipelines := p.pipelines ++ [⟨id, true, []⟩] }
  return p.pipelines.length

/-- `running.store(false)`: the thread ends with its current tick. -/
def stopThread (n : ℕ) : Fails Pool Unit :=
  Fallible.modify fun p => { p with pipelines := p.pipelines.modify n Pipeline.stop }

/-- The channel and its pipeline are put into the table. -/
def register (active : ActiveChannel) (n : ℕ) : Fails Pool Unit :=
  Fallible.modify fun p => { p with
    state := { p.state with channels := p.state.channels.insert active.spec.id active },
    held := p.held.insert active.spec.id n }

/-- The last part of `subscribe`. -/
def installChannel (active : ActiveChannel) (n : ℕ) : Fails Pool Bool := do
  let p ← Fallible.get
  match p.state.channels.get? active.spec.id with
  | some existing =>
    stopThread n
    onState (discard active)
    Fallible.ensure (existing.spec.kind = active.spec.kind ∧
      existing.spec.meteorProfile = active.spec.meteorProfile)
      ("channel " ++ toString active.spec.id ++
        " already exists with a different kind or Meteor profile")
    pure false
  | none =>
    if (p.state.channels.insert active.spec.id active).size > maxChannels then
      stopThread n
      onState (discard active)
      Fallible.fail channelLimit
    else
      register active n
      pure true

/-- The part of `subscribe` that creates a channel. The thread is the last
    thing `create_channel` makes. -/
def createAndInstall (spec : ChannelSpec) : Fails Pool Bool := do
  let p ← Fallible.get
  Fallible.lift (spec.validate p.state.channelizer.widebandRateHz)
  let active ← onState (createChannel spec.resolved)
  let n ← spawnTickThread spec.id
  installChannel active n

/-- What `subscribe` does under the geometry lock. -/
def subscribeLocked (spec : ChannelSpec) (r : Readings) : Fails Pool Bool := do
  onState (prepareGeometryOperation r)
  let found ← onState (findExisting spec)
  if found then pure false else createAndInstall spec

/-- `subscribe`. -/
def subscribe (spec : ChannelSpec) (r : Readings) : Fails Pool Bool := do
  let found ← onState (findExisting spec)
  if found then pure false else subscribeLocked spec r

/-- The pipeline of a channel that is no longer in the table is told to stop. -/
def releasePipeline (id : ChannelId) : Fails Pool Unit := do
  let p ← Fallible.get
  match p.held.get? id with
  | none => pure ()
  | some n =>
    stopThread n
    Fallible.modify fun p => { p with held := p.held.erase id }

/-- `remove_channel`. -/
def removeChannel (id : ChannelId) : Fails Pool Unit := do
  onState (Daemon.removeChannel id)
  releasePipeline id

/-- One channel of `release_client_channels`; a refusal is ignored. -/
def releaseChannel (id : ChannelId) : Fails Pool Unit := fun p =>
  if (p.state.channels.get? id).isSome then (.ok (), (removeChannel id p).2) else (.ok (), p)

/-! ## Section 3: The machine -/

inductive Input where
  /-- The first look of a subscribe at the table. -/
  | findExisting (spec : ChannelSpec)
  /-- The rest of it, after any number of other steps. -/
  | subscribeLocked (spec : ChannelSpec) (r : Readings)
  | releaseChannel (id : ChannelId)
  /-- An operation that is not interrupted. -/
  | operation (input : Daemon.Input)

/-- The operations of the daemon, with the pipelines they start and stop. -/
def operation : Daemon.Input → Fails Pool Reply
  | .subscribe spec r => do return .subscribed (← subscribe spec r)
  | .removeChannel id => do removeChannel id; return .done
  | input => onState input.operation

def Input.run : Input → Fails Pool Reply
  | .findExisting spec => do return .subscribed (← onState (Daemon.findExisting spec))
  | .subscribeLocked spec r => do return .subscribed (← Pool.subscribeLocked spec r)
  | .releaseChannel id => do Pool.releaseChannel id; return .done
  | .operation input => Pool.operation input

/-- The daemon with its pipelines as a machine. -/
def machine (widebandCenterHz widebandRateHz : ℕ) : Machine Pool Input (Except String Reply) where
  init := Pool.new widebandCenterHz widebandRateHz
  step := fun p input => let (reply, p') := input.run p; some (p', reply)

end Pool

/-! ## Section 4: What an operation does to the table and the taps -/

/-- The tap of each virtual channel of the table. -/
def State.tapOf (s : State) (id : ChannelId) : Option ℕ :=
  (s.channels.get? id).bind ActiveChannel.internalChannelId

def State.tapIds (s : State) : List ℕ := s.channelizer.channels.map VirtualChannel.id

/-- Ids of taps are handed out in order. -/
def State.Fresh (s : State) : Prop := ∀ tap ∈ s.channelizer.channels, tap.id < s.channelizer.nextId

/-- The channels, their taps and the recordings are as they were. -/
structure Restored (s s' : State) : Prop where
  channels   : s'.channels = s.channels
  taps       : s'.channelizer.channels = s.channelizer.channels
  recordings : s'.recordings = s.recordings
  next       : s.channelizer.nextId ≤ s'.channelizer.nextId

instance : IsPreorder State Restored where
  refl := fun _ => ⟨rfl, rfl, rfl, le_rfl⟩
  trans := fun _ _ _ h h' => ⟨h'.channels.trans h.channels, h'.taps.trans h.taps,
    h'.recordings.trans h.recordings, h.next.trans h'.next⟩

theorem restored_framed : Framed Restored where
  preorder := inferInstance
  pending := fun _ _ => ⟨rfl, rfl, rfl, le_rfl⟩
  center := fun _ _ => ⟨rfl, rfl, rfl, le_rfl⟩
  rate := fun _ _ _ => ⟨rfl, rfl, rfl, le_rfl⟩

theorem Restored.fresh {s s' : State} (h : Restored s s') (hfresh : s.Fresh) : s'.Fresh := by
  intro tap htap
  rw [h.taps] at htap
  exact (hfresh tap htap).trans_le h.next

/-- The registry has gained the tap of a virtual channel, and nothing for another. -/
def Tapped (s s' : State) (active : ActiveChannel) : Prop :=
  (active.internalChannelId = none ∧ s'.channelizer.channels = s.channelizer.channels ∧
    s.channelizer.nextId ≤ s'.channelizer.nextId) ∨
  ∃ tap, active.internalChannelId = some tap.id ∧ s.channelizer.nextId ≤ tap.id ∧
    s'.channelizer.channels = s.channelizer.channels ++ [tap] ∧
    s'.channelizer.nextId = tap.id + 1

theorem Restored.tapped {s t u : State} {active : ActiveChannel} (h : Restored s t)
    (htapped : Tapped t u active) : Tapped s u active := by
  rcases htapped with ⟨hnone, htaps, hnext⟩ | ⟨tap, hsome, hle, htaps, hnext⟩
  · exact .inl ⟨hnone, htaps.trans h.taps, h.next.trans hnext⟩
  · exact .inr ⟨tap, hsome, h.next.trans hle, htaps.trans (by rw [h.taps]), hnext⟩

/-- A channel that is made but not yet in the table. -/
structure Made (s s' : State) (spec : ChannelSpec) (active : ActiveChannel) : Prop where
  spec       : active.spec = spec
  channels   : s'.channels = s.channels
  recordings : s'.recordings = s.recordings
  tapped     : Tapped s s' active

/-- The state with one more tap. -/
def State.withTap (s : State) (tap : VirtualChannel) : State :=
  { s with channelizer := { s.channelizer with
    channels := s.channelizer.channels ++ [tap], nextId := s.channelizer.nextId + 1 } }

theorem addVirtualChannel_spec (spec : ChannelSpec) (s₀ : State) :
    Triple (fun s => s = s₀) (addVirtualChannel spec)
      (fun id s => ∃ tap : VirtualChannel, tap.id = id ∧ id = s₀.channelizer.nextId ∧
        s = s₀.withTap tap)
      (fun s => s = s₀) := by
  unfold addVirtualChannel
  apply Triple.bind (Q := fun s₁ s => s₁ = s₀ ∧ s = s₀)
  · exact Triple.get fun s hs => ⟨hs, hs⟩
  intro s₁
  apply Triple.of_eq
  rintro s ⟨rfl, rfl⟩
  apply (onChannelizer_spec (Channelizer.addChannel_spec _ _ _)).strengthen
  · rintro id s ⟨c, ⟨rfl, rfl⟩, rfl⟩
    exact ⟨_, rfl, rfl, rfl⟩
  · exact fun s hs => hs

/-- A new tap that is removed leaves nothing but its number. -/
theorem restored_removeTap {s : State} {tap : VirtualChannel} (hfresh : s.Fresh)
    (htap : tap.id = s.channelizer.nextId) :
    Restored s { s.withTap tap with
      channelizer := (s.withTap tap).channelizer.removeChannel tap.id } := by
  refine ⟨rfl, ?_, rfl, Nat.le_succ _⟩
  show (s.channelizer.channels ++ [tap]).filter (fun channel => channel.id ≠ tap.id) =
    s.channelizer.channels
  rw [List.filter_append]
  have hold : s.channelizer.channels.filter (fun channel => channel.id ≠ tap.id) =
      s.channelizer.channels := by
    rw [List.filter_eq_self]
    intro channel hchannel
    have := hfresh channel hchannel
    simp only [decide_eq_true_eq]
    omega
  rw [hold]
  simp

theorem find_withTap {s : State} {tap : VirtualChannel} (hfresh : s.Fresh)
    (htap : tap.id = s.channelizer.nextId) :
    (s.withTap tap).channelizer.find tap.id = some tap := by
  have hnone : s.channelizer.find tap.id = none := by
    cases h : s.channelizer.find tap.id with
    | none => rfl
    | some t =>
      have := find_lt hfresh h
      omega
  show Channelizer.find
    { s.channelizer with channels := s.channelizer.channels ++ [tap], nextId := _ }
    tap.id = some tap
  rw [Channelizer.find_append, hnone]
  simp

theorem createChannel_spec {s₀ : State} {spec : ChannelSpec} (hfresh : s₀.Fresh)
    (hprofile : spec.kind = .lrptTelemetry → spec.meteorProfile.isSome = true) :
    Triple (fun s => s = s₀) (createChannel spec) (fun active s => Made s₀ s spec active)
      (Restored s₀) := by
  have hadd : Triple (fun s => s = s₀) (addVirtualChannel spec)
      (fun id s => ∃ tap : VirtualChannel, tap.id = id ∧ id = s₀.channelizer.nextId ∧
        s = s₀.withTap tap)
      (Restored s₀) := by
    apply (addVirtualChannel_spec spec s₀).strengthen (fun _ _ h => h)
    intro s hs
    rw [hs]
    exact refl_of Restored s₀
  have hmade : ∀ (tap : VirtualChannel) pipeline, tap.id = s₀.channelizer.nextId →
      Made s₀ (s₀.withTap tap) spec ⟨spec, some tap.id, pipeline⟩ := by
    intro tap pipeline htap
    exact ⟨rfl, rfl, rfl, .inr ⟨tap, rfl, htap.ge, rfl, congrArg (· + 1) htap.symm⟩⟩
  unfold createChannel
  cases hkind : spec.kind with
  | spectrum =>
    apply Triple.ret
    intro s hs
    rw [hs]
    exact ⟨rfl, rfl, rfl, .inl ⟨rfl, rfl, le_rfl⟩⟩
  | audio =>
    apply Triple.bind hadd
    intro id
    apply Triple.ret
    rintro s ⟨tap, rfl, htap, rfl⟩
    exact hmade tap _ htap
  | adsbPackets =>
    apply Triple.bind hadd
    intro id
    split
    · -- the decoder refuses the rate, and the tap is given back
      apply Triple.bind (Q := fun _ => Restored s₀)
      · apply Triple.modify
        rintro s ⟨tap, rfl, htap, rfl⟩
        exact restored_removeTap hfresh htap
      intro _
      exact Triple.fail fun s hs => hs
    · apply Triple.ret
      rintro s ⟨tap, rfl, htap, rfl⟩
      exact hmade tap _ htap
  | lrptTelemetry =>
    obtain ⟨profile, hsome⟩ := Option.isSome_iff_exists.1 (hprofile hkind)
    apply Triple.bind hadd
    intro id
    apply Triple.of_eq
    rintro s ⟨tap, rfl, htap, rfl⟩
    have hcenter : (s₀.withTap tap).channelizer.channelCenterHz tap.id = some tap.centerFreqHz := by
      unfold Channelizer.channelCenterHz
      rw [find_withTap hfresh htap]
      rfl
    apply Triple.bind (Q := fun s₁ s => s₁ = s₀.withTap tap ∧ s = s₀.withTap tap)
    · exact Triple.get fun s hs => ⟨hs, hs⟩
    intro s₁
    apply Triple.of_eq
    rintro s ⟨rfl, rfl⟩
    rw [hsome, hcenter]
    apply Triple.bind (Q := fun _ s => s = s₀.withTap tap)
    · exact Triple.ret fun s hs => hs
    intro profile
    apply Triple.bind (Q := fun _ s => s = s₀.withTap tap)
    · exact Triple.ret fun s hs => hs
    intro center
    split
    · apply Triple.bind (Q := fun _ => Restored s₀)
      · apply Triple.modify
        rintro s rfl
        exact restored_removeTap hfresh htap
      intro _
      exact Triple.fail fun s hs => hs
    · apply Triple.ret
      rintro s rfl
      exact hmade tap _ htap

theorem findExisting_restores (spec : ChannelSpec) (s₀ : State) :
    Triple (fun s => s = s₀) (findExisting spec)
      (fun found s => s = s₀ ∧ (found = false → s₀.channels.get? spec.id = none ∧
        s₀.channels.size < maxChannels))
      (fun s => s = s₀) := by
  unfold findExisting
  apply Triple.bind (Q := fun s₁ s => s₁ = s₀ ∧ s = s₀)
  · exact Triple.get fun s hs => ⟨hs, hs⟩
  intro s₁
  apply Triple.of_eq
  rintro s ⟨rfl, rfl⟩
  cases hget : s.channels.get? spec.id with
  | some existing =>
    apply Triple.bind (Q := fun _ t => t = s)
    · exact Triple.ensure (fun _ _ ht => ht) (fun _ ht => ht)
    intro _
    exact Triple.ret fun t ht => ⟨ht, fun h => absurd h (by simp)⟩
  | none =>
    apply Triple.bind (Q := fun _ t => t = s ∧ s.channels.size < maxChannels)
    · exact Triple.ensure (fun hroom _ ht => ⟨ht, hroom⟩) (fun _ ht => ht)
    intro _
    exact Triple.ret fun t ht => ⟨ht.1, fun _ => ⟨rfl, ht.2⟩⟩

/-! ## Section 5: Changing a channel -/

/-- One channel may have been changed in place: it keeps its tap, and everything that is not
    its own is as it was. -/
structure Reworked (id : ChannelId) (s s' : State) : Prop where
  elsewhere  : ∀ j, j ≠ id → s'.channels.get? j = s.channels.get? j
  internal   : (s'.channels.get? id).map ActiveChannel.internalChannelId =
    (s.channels.get? id).map ActiveChannel.internalChannelId
  size       : s'.channels.size = s.channels.size
  recordings : s'.recordings = s.recordings
  ids        : s'.tapIds = s.tapIds
  next       : s'.channelizer.nextId = s.channelizer.nextId
  taps       : ∀ k, s.tapOf id ≠ some k → s'.channelizer.find k = s.channelizer.find k

theorem Reworked.refl (id : ChannelId) (s : State) : Reworked id s s :=
  ⟨fun _ _ => rfl, rfl, rfl, rfl, rfl, rfl, fun _ _ => rfl⟩

theorem tapOf_eq_join (s : State) (id : ChannelId) :
    s.tapOf id = ((s.channels.get? id).map ActiveChannel.internalChannelId).join := by
  unfold State.tapOf
  cases s.channels.get? id with
  | none => rfl
  | some active => rfl

theorem Reworked.tapOf {id : ChannelId} {s s' : State} (h : Reworked id s s') :
    s'.tapOf = s.tapOf := by
  funext j
  by_cases hj : j = id
  · rw [hj, tapOf_eq_join, tapOf_eq_join, h.internal]
  · unfold State.tapOf
    rw [h.elsewhere j hj]

theorem Reworked.keys {id : ChannelId} {s s' : State} (h : Reworked id s s') (j : ChannelId) :
    (s'.channels.get? j).isSome = (s.channels.get? j).isSome := by
  by_cases hj : j = id
  · have hinternal := congrArg Option.isSome h.internal
    rw [Option.isSome_map, Option.isSome_map] at hinternal
    rw [hj, hinternal]
  · rw [h.elsewhere j hj]

instance (id : ChannelId) : IsPreorder State (Reworked id) where
  refl := Reworked.refl id
  trans := by
    intro s t u h h'
    refine ⟨?_, h'.internal.trans h.internal, h'.size.trans h.size,
      h'.recordings.trans h.recordings, h'.ids.trans h.ids, h'.next.trans h.next, ?_⟩
    · exact fun j hj => (h'.elsewhere j hj).trans (h.elsewhere j hj)
    · intro k hk
      rw [h'.taps k (by rwa [h.tapOf]), h.taps k hk]

theorem reworked_framed (id : ChannelId) : Framed (Reworked id) where
  preorder := inferInstance
  pending := fun _ _ => ⟨fun _ _ => rfl, rfl, rfl, rfl, rfl, rfl, fun _ _ => rfl⟩
  center := fun _ _ => ⟨fun _ _ => rfl, rfl, rfl, rfl, rfl, rfl, fun _ _ => rfl⟩
  rate := fun _ _ _ => ⟨fun _ _ => rfl, rfl, rfl, rfl, rfl, rfl, fun _ _ => rfl⟩

/-- A channel that keeps its tap gets another entry. -/
theorem reworked_insert {s : State} {id : ChannelId} {active after : ActiveChannel}
    (hget : s.channels.get? id = some active)
    (hinternal : after.internalChannelId = active.internalChannelId) :
    Reworked id s { s with channels := s.channels.insert id after } := by
  constructor
  case elsewhere => exact fun j hj => BTreeMap.get?_insert_ne _ hj _
  case internal =>
    rw [BTreeMap.get?_insert_self, hget]
    exact congrArg some hinternal
  case size => exact BTreeMap.size_insert_of_mem _ hget _
  case recordings => rfl
  case ids => rfl
  case next => rfl
  case taps => exact fun _ _ => rfl

theorem applyAudio_reworks (id : ChannelId) (mode : DemodMode)
    (parameters : Option AudioParameters) :
    Moves (Reworked id) (applyAudio id mode parameters) := by
  intro s₀
  have hsame : ∀ s, s = s₀ → Reworked id s₀ s := by
    rintro s rfl
    exact Reworked.refl id s
  unfold applyAudio
  apply Triple.bind (Q := fun s₁ s => s₁ = s₀ ∧ s = s₀)
  · exact Triple.get fun s hs => ⟨hs, hs⟩
  intro s₁
  apply Triple.of_eq
  rintro s ⟨rfl, rfl⟩
  apply Triple.bind (Q := fun active t => t = s ∧ s.channels.get? id = some active)
  · exact Triple.orFail (fun active hget _ ht => ⟨ht, hget⟩) hsame
  intro active
  apply Triple.of_eq
  rintro t ⟨rfl, hget⟩
  cases active.pipeline with
  | audio oldMode oldParameters =>
    apply Triple.bind (Q := fun _ u => u = t)
    · exact Triple.lift (fun _ _ _ hu => hu) hsame
    intro _
    apply Triple.modify
    rintro u rfl
    exact reworked_insert hget rfl
  | spectrum => exact Triple.fail hsame
  | adsbPackets => exact Triple.fail hsame
  | lrptTelemetry profile rate center => exact Triple.fail hsame

theorem configureAudio_reworks (id : ChannelId) (mode : DemodMode)
    (parameters : Option AudioParameters) (r : Readings) :
    Moves (Reworked id) (configureAudio id mode parameters r) := by
  unfold configureAudio
  apply ((reworked_framed id).prepare r).bind
  intro _
  exact applyAudio_reworks id mode parameters

theorem map_id_replaceTap {k : ℕ} {tap : VirtualChannel} (htap : tap.id = k)
    (taps : List VirtualChannel) :
    (Channelizer.replaceTap k tap taps).map VirtualChannel.id = taps.map VirtualChannel.id := by
  induction taps with
  | nil => rfl
  | cons t rest ih =>
    by_cases hid : t.id = k
    · simp [Channelizer.replaceTap, hid, htap]
    · simp [Channelizer.replaceTap, hid, ih]

/-- The tap of a channel moves, and no other. -/
theorem retunePipeline_reworks {s₀ : State} {id : ChannelId} {active : ActiveChannel}
    (hget : s₀.channels.get? id = some active) (proposed : ChannelSpec) :
    Triple (fun s => s = s₀) (retunePipeline active proposed)
      (fun _ s => Reworked id s₀ s ∧ s.channels = s₀.channels) (Reworked id s₀) := by
  have hsame : ∀ s, s = s₀ → Reworked id s₀ s ∧ s.channels = s₀.channels := by
    rintro s rfl
    exact ⟨Reworked.refl id s, rfl⟩
  unfold retunePipeline
  cases hinternal : active.internalChannelId with
  | none => exact Triple.ret hsame
  | some k =>
    have htap : s₀.tapOf id = some k := by
      unfold State.tapOf
      rw [hget]
      exact hinternal
    unfold retuneTap
    apply Triple.bind (Q := fun s₁ s => s₁ = s₀ ∧ s = s₀)
    · exact Triple.get fun s hs => ⟨hs, hs⟩
    intro s₁
    apply Triple.of_eq
    rintro s ⟨rfl, rfl⟩
    apply Triple.bind (Q := fun _ t => Reworked id s t ∧ t.channels = s.channels)
    · apply (onChannelizer_spec (Channelizer.retuneChannel_spec _ _ _ _)).strengthen
      · rintro _ t ⟨c, ⟨-, rfl⟩, rfl⟩
        have hid : (tapFor s.channelizer k proposed).id = k := rfl
        refine ⟨⟨fun _ _ => rfl, rfl, rfl, rfl, map_id_replaceTap hid _, rfl, ?_⟩, rfl⟩
        intro j hj
        have hne : j ≠ k := by
          rintro rfl
          exact hj htap
        exact Channelizer.find_replaceTap_ne hid hne _
      · exact fun t ht => (hsame t ht).1
    intro _
    apply Triple.bind (Q := fun _ t => Reworked id s t ∧ t.channels = s.channels)
    · exact Triple.get fun t ht => ht
    intro t
    apply Triple.bind (Q := fun _ t => Reworked id s t ∧ t.channels = s.channels)
    · exact Triple.orFail (fun _ _ _ ht => ht) (fun _ ht => ht.1)
    intro rate
    exact Triple.lift (fun _ _ _ ht => ht) (fun _ ht => ht.1)

theorem retuneConfigured_reworks (id : ChannelId) (offset : ℤ) (rate : ℕ)
    (audio : Option AudioConfiguration) (r : Readings) :
    Moves (Reworked id) (retuneConfigured id offset rate audio r) := by
  unfold retuneConfigured
  apply ((reworked_framed id).prepare r).bind
  intro _ s₀
  have hsame : ∀ s, s = s₀ → Reworked id s₀ s := by
    rintro s rfl
    exact Reworked.refl id s
  unfold applyRetune
  apply Triple.bind (Q := fun s₁ s => s₁ = s₀ ∧ s = s₀)
  · exact Triple.get fun s hs => ⟨hs, hs⟩
  intro s₁
  apply Triple.of_eq
  rintro s ⟨rfl, rfl⟩
  apply Triple.bind (Q := fun active t => t = s ∧ s.channels.get? id = some active)
  · exact Triple.orFail (fun active hget _ ht => ⟨ht, hget⟩) hsame
  intro active
  apply Triple.of_eq
  rintro t ⟨rfl, hget⟩
  apply Triple.bind (Q := fun _ u => u = t)
  · exact Triple.ensure (fun _ _ hu => hu) hsame
  intro _
  apply Triple.bind (Q := fun _ u => u = t)
  · exact Triple.lift (fun _ _ _ hu => hu) hsame
  intro _
  apply Triple.bind (retunePipeline_reworks hget _)
  intro pipeline
  apply Triple.modify
  rintro u ⟨hreworked, hchannels⟩
  have hget' : u.channels.get? id = some active := by rw [hchannels, hget]
  apply trans_of (Reworked id) hreworked
  exact reworked_insert hget' rfl

namespace Pool

/-! ## Section 6: Creating and removing a channel -/

/-- The channels, the taps, the recordings and the pipelines are as they were. -/
structure Unchanged (p p' : Pool) : Prop where
  state     : Restored p.state p'.state
  pipelines : p'.pipelines = p.pipelines
  held      : p'.held = p.held

/-- The channel is new, with its tap and a pipeline that runs. -/
structure Created (p p' : Pool) (spec : ChannelSpec) (active : ActiveChannel) : Prop where
  absent     : p.state.channels.get? spec.id = none
  room       : p.state.channels.size < maxChannels
  made       : active.spec = spec.resolved
  channels   : p'.state.channels = p.state.channels.insert spec.id active
  recordings : p'.state.recordings = p.state.recordings
  tapped     : Tapped p.state p'.state active
  pipelines  : p'.pipelines = p.pipelines ++ [⟨spec.id, true, []⟩]
  held       : p'.held = p.held.insert spec.id p.pipelines.length

/-- The channel is gone, and so are its tap and its recording; its pipeline has been told to
    stop. -/
structure Removed (p p' : Pool) (id : ChannelId) (active : ActiveChannel) : Prop where
  found      : p.state.channels.get? id = some active
  channels   : p'.state.channels = p.state.channels.erase id
  recordings : p'.state.recordings = p.state.recordings.erase id
  taps       : p'.state.channelizer.channels = p.state.channelizer.channels.filter
    fun tap => active.internalChannelId ≠ some tap.id
  next       : p'.state.channelizer.nextId = p.state.channelizer.nextId
  pipelines  : p'.pipelines = (p.held.get? id).elim p.pipelines
    fun n => p.pipelines.modify n Pipeline.stop
  held       : p'.held.get? = Function.update p.held.get? id none

theorem onState_spec {α : Type} {x : Fails State α} {p₀ : Pool} {Q : α → State → Prop}
    {E : State → Prop} (h : Triple (fun s => s = p₀.state) x Q E) :
    Triple (fun p => p = p₀) (onState x) (fun a p => ∃ s, Q a s ∧ p = { p₀ with state := s })
      (fun p => ∃ s, E s ∧ p = { p₀ with state := s }) := by
  rintro p rfl
  have hx := h p.state rfl
  unfold onState
  rcases hxs : x p.state with ⟨e | a, s⟩
  · rw [hxs] at hx
    exact ⟨s, hx, rfl⟩
  · rw [hxs] at hx
    exact ⟨s, hx, rfl⟩

/-- What a subscribe under the lock does. -/
def Subscribed (spec : ChannelSpec) (p : Pool) (created : Bool) (p' : Pool) : Prop :=
  (created = false ∧ Unchanged p p') ∨ (created = true ∧ ∃ active, Created p p' spec active)

theorem resolved_id (spec : ChannelSpec) : spec.resolved.id = spec.id := by
  unfold ChannelSpec.resolved
  split
  · rfl
  · rfl

theorem resolved_profile {spec : ChannelSpec} {rate : ℕ} (hvalid : spec.validate rate = .ok ())
    (hkind : spec.resolved.kind = .lrptTelemetry) : spec.resolved.meteorProfile.isSome = true := by
  rw [resolved_kind] at hkind
  obtain ⟨profile, hprofile, -⟩ := ChannelSpec.validate_sampling hkind hvalid
  have hsame : spec.resolved.meteorProfile = spec.meteorProfile := by
    unfold ChannelSpec.resolved
    split
    · rfl
    · rfl
  rw [hsame, hprofile]
  rfl

/-- Nothing comes between the check of the table and the new entry, so neither the second look
    at the table nor the limit is in the way. -/
theorem installChannel_spec {p₀ p₁ : Pool} {spec : ChannelSpec} {active : ActiveChannel}
    (habsent : p₀.state.channels.get? spec.id = none)
    (hroom : p₀.state.channels.size < maxChannels)
    (hmade : Made p₀.state p₁.state spec.resolved active)
    (hpipelines : p₁.pipelines = p₀.pipelines ++ [⟨spec.id, true, []⟩])
    (hheld : p₁.held = p₀.held) (E : Pool → Prop) :
    Triple (fun p => p = p₁) (installChannel active p₀.pipelines.length)
      (fun created p => Subscribed spec p₀ created p) E := by
  have hid : active.spec.id = spec.id := by
    rw [hmade.spec, resolved_id]
  have hnone : p₁.state.channels.get? active.spec.id = none := by
    rw [hmade.channels, hid, habsent]
  have hsize : ¬ (p₁.state.channels.insert active.spec.id active).size > maxChannels := by
    rw [BTreeMap.size_insert_of_not_mem _ hnone, hmade.channels]
    omega
  unfold installChannel
  apply Triple.bind (Q := fun p₂ p => p₂ = p₁ ∧ p = p₁)
  · exact Triple.get fun p hp => ⟨hp, hp⟩
  intro p₂
  apply Triple.of_eq
  rintro p ⟨rfl, rfl⟩
  rw [hnone]
  dsimp only
  rw [if_neg hsize]
  apply Triple.bind (Q := fun _ p => ∃ active, Created p₀ p spec active)
  · apply Triple.modify
    rintro p rfl
    refine ⟨active, habsent, hroom, hmade.spec, ?_, hmade.recordings, hmade.tapped, hpipelines, ?_⟩
    · show p.state.channels.insert active.spec.id active = _
      rw [hmade.channels, hid]
    · show p.held.insert active.spec.id _ = _
      rw [hheld, hid]
  intro _
  exact Triple.ret fun p hp => .inr ⟨rfl, hp⟩

theorem createAndInstall_spec {p₀ : Pool} {spec : ChannelSpec} (hfresh : p₀.state.Fresh)
    (habsent : p₀.state.channels.get? spec.id = none)
    (hroom : p₀.state.channels.size < maxChannels) :
    Triple (fun p => p = p₀) (createAndInstall spec)
      (fun created p => Subscribed spec p₀ created p) (Unchanged p₀) := by
  have hsame : Unchanged p₀ p₀ := ⟨refl_of Restored _, rfl, rfl⟩
  unfold createAndInstall
  apply Triple.bind (Q := fun p₁ p => p₁ = p₀ ∧ p = p₀)
  · exact Triple.get fun p hp => ⟨hp, hp⟩
  intro p₁
  apply Triple.of_eq
  rintro p ⟨rfl, rfl⟩
  apply Triple.bind (Q := fun _ q => q = p ∧
    spec.validate p.state.channelizer.widebandRateHz = .ok ())
  · apply Triple.lift
    · exact fun _ hvalid q hq => ⟨hq, hvalid⟩
    · intro q hq
      rw [hq]
      exact hsame
  intro _
  apply Triple.of_eq
  rintro q ⟨rfl, hvalid⟩
  apply Triple.bind (Q := fun active p => ∃ s, Made q.state s spec.resolved active ∧
    p = { q with state := s })
  · apply (onState_spec (createChannel_spec hfresh (resolved_profile hvalid))).strengthen
    · exact fun _ _ h => h
    · rintro p ⟨s, hs, rfl⟩
      exact ⟨hs, rfl, rfl⟩
  intro active
  apply Triple.of_eq
  rintro p ⟨s, hmade, rfl⟩
  apply Triple.bind (Q := fun n p => n = q.pipelines.length ∧
    p = { state := s, pipelines := q.pipelines ++ [⟨spec.id, true, []⟩], held := q.held })
  · rintro p rfl
    exact ⟨rfl, rfl⟩
  intro n
  apply Triple.of_eq
  rintro p ⟨rfl, rfl⟩
  exact @installChannel_spec q ⟨s, q.pipelines ++ [⟨spec.id, true, []⟩], q.held⟩ spec active
    habsent hroom hmade rfl rfl _

theorem subscribeLocked_spec {p₀ : Pool} (spec : ChannelSpec) (r : Readings)
    (hfresh : p₀.state.Fresh) :
    Triple (fun p => p = p₀) (subscribeLocked spec r)
      (fun created p => Subscribed spec p₀ created p) (Unchanged p₀) := by
  unfold subscribeLocked
  apply Triple.bind (Q := fun _ p => ∃ s, Restored p₀.state s ∧ p = { p₀ with state := s })
  · apply (onState_spec (restored_framed.prepare r p₀.state)).strengthen
    · exact fun _ _ h => h
    · rintro p ⟨s, hs, rfl⟩
      exact ⟨hs, rfl, rfl⟩
  intro _
  apply Triple.of_eq
  rintro p ⟨s, hprepared, rfl⟩
  apply Triple.bind (Q := fun found p => p = { p₀ with state := s } ∧ (found = false →
    s.channels.get? spec.id = none ∧ s.channels.size < maxChannels))
  · apply (onState_spec (findExisting_restores spec s)).strengthen
    · rintro found p ⟨t, ⟨rfl, hnew⟩, rfl⟩
      exact ⟨rfl, hnew⟩
    · rintro p ⟨t, rfl, rfl⟩
      exact ⟨hprepared, rfl, rfl⟩
  intro found
  apply Triple.of_eq
  rintro p ⟨rfl, hnew⟩
  cases found with
  | true =>
    apply Triple.ret
    rintro p rfl
    exact .inl ⟨rfl, hprepared, rfl, rfl⟩
  | false =>
    obtain ⟨habsent, hroom⟩ := hnew rfl
    apply (createAndInstall_spec (hprepared.fresh hfresh) habsent hroom).strengthen
    · rintro created p (⟨rfl, h⟩ | ⟨rfl, active, h⟩)
      · exact .inl ⟨rfl, trans_of Restored hprepared h.state, h.pipelines, h.held⟩
      · -- what the reconciliation wrote is not in the table or the registry of taps
        refine .inr ⟨rfl, active, ?_, ?_, h.made, ?_, ?_, ?_, h.pipelines, h.held⟩
        · rw [← hprepared.channels]
          exact h.absent
        · rw [← hprepared.channels]
          exact h.room
        · rw [← hprepared.channels]
          exact h.channels
        · rw [← hprepared.recordings]
          exact h.recordings
        · exact hprepared.tapped h.tapped
    · intro p h
      exact ⟨trans_of Restored hprepared h.state, h.pipelines, h.held⟩

/-- The tap of a channel that is not kept goes, and nothing else. -/
theorem discard_spec (active : ActiveChannel) (s₀ : State) (E : State → Prop) :
    Triple (fun s => s = s₀) (discard active)
      (fun _ s => s = { s₀ with channelizer := { s₀.channelizer with
        channels := s₀.channelizer.channels.filter
          fun tap => active.internalChannelId ≠ some tap.id } }) E := by
  unfold discard
  cases hinternal : active.internalChannelId with
  | none =>
    apply Triple.ret
    rintro s rfl
    have hall : s.channelizer.channels.filter (fun tap => (none : Option ℕ) ≠ some tap.id) =
        s.channelizer.channels := by
      rw [List.filter_eq_self]
      intro tap _
      simp
    rw [hall]
  | some k =>
    apply Triple.modify
    rintro s rfl
    have hsame : s.channelizer.channels.filter (fun tap => tap.id ≠ k) =
        s.channelizer.channels.filter (fun tap => some k ≠ some tap.id) := by
      apply List.filter_congr
      intro tap _
      simp [eq_comm]
    unfold Channelizer.removeChannel
    rw [hsame]

theorem removeChannel_state (id : ChannelId) (s₀ : State) :
    Triple (fun s => s = s₀) (Daemon.removeChannel id)
      (fun _ s => ∃ active, s₀.channels.get? id = some active ∧
        s = { s₀ with
          channels := s₀.channels.erase id, recordings := s₀.recordings.erase id,
          channelizer := { s₀.channelizer with
            channels := s₀.channelizer.channels.filter
              fun tap => active.internalChannelId ≠ some tap.id } })
      (fun s => s = s₀) := by
  unfold Daemon.removeChannel
  apply Triple.bind (Q := fun s₁ s => s₁ = s₀ ∧ s = s₀)
  · exact Triple.get fun s hs => ⟨hs, hs⟩
  intro s₁
  apply Triple.of_eq
  rintro s ⟨rfl, rfl⟩
  apply Triple.bind (Q := fun _ t => t = s)
  · exact Triple.ensure (fun _ _ ht => ht) (fun _ ht => ht)
  intro _
  apply Triple.bind (Q := fun active t => t = s ∧ s.channels.get? id = some active)
  · exact Triple.orFail (fun active hget _ ht => ⟨ht, hget⟩) (fun _ ht => ht)
  intro active
  apply Triple.of_eq
  rintro t ⟨rfl, hget⟩
  apply Triple.bind (Q := fun _ u => u =
    { t with channels := t.channels.erase id, recordings := t.recordings.erase id })
  · apply Triple.modify
    rintro u rfl
    rfl
  intro _
  apply Triple.of_eq
  rintro u rfl
  apply (discard_spec active _ _).strengthen
  · rintro _ u rfl
    exact ⟨active, hget, rfl⟩
  · exact fun _ h => h

theorem removeChannel_spec (id : ChannelId) (p₀ : Pool) :
    Triple (fun p => p = p₀) (removeChannel id) (fun _ p => ∃ active, Removed p₀ p id active)
      (fun p => p = p₀) := by
  unfold removeChannel
  apply Triple.bind (Q := fun _ p => ∃ s active, p₀.state.channels.get? id = some active ∧
    s = { p₀.state with
      channels := p₀.state.channels.erase id, recordings := p₀.state.recordings.erase id,
      channelizer := { p₀.state.channelizer with
        channels := p₀.state.channelizer.channels.filter
          fun tap => active.internalChannelId ≠ some tap.id } } ∧
    p = { p₀ with state := s })
  · apply (onState_spec (removeChannel_state id p₀.state)).strengthen
    · rintro _ p ⟨s, ⟨active, hget, hs⟩, rfl⟩
      exact ⟨s, active, hget, hs, rfl⟩
    · rintro p ⟨s, rfl, rfl⟩
      rfl
  intro _
  apply Triple.of_eq
  rintro p ⟨s, active, hget, rfl, rfl⟩
  -- the state is done; the pipeline that the channel held is stopped
  unfold releasePipeline
  apply Triple.bind (Q := fun p₁ p => p₁ = p ∧ p = _)
  · exact Triple.get fun p hp => ⟨rfl, hp⟩
  intro p₁
  apply Triple.of_eq
  rintro p ⟨rfl, rfl⟩
  dsimp only
  cases hheld : p₀.held.get? id with
  | none =>
    apply Triple.ret
    rintro p rfl
    refine ⟨active, hget, rfl, rfl, rfl, rfl, ?_, ?_⟩
    · rw [hheld]
      rfl
    · show p₀.held.get? = _
      rw [← hheld, Function.update_eq_self]
  | some n =>
    apply Triple.bind (Q := fun _ p => p = _)
    · exact Triple.modify fun p hp => by rw [hp]
    intro _
    apply Triple.modify
    rintro p rfl
    refine ⟨active, hget, rfl, rfl, rfl, rfl, ?_, BTreeMap.get?_erase _ _⟩
    rw [hheld]
    rfl

end Pool

/-! ## Section 7: The other operations -/

/-- The same channels have the same taps. -/
structure Kept (s s' : State) : Prop where
  tapOf : s'.tapOf = s.tapOf
  ids   : s'.tapIds = s.tapIds
  next  : s.channelizer.nextId ≤ s'.channelizer.nextId
  keys  : ∀ id, (s'.channels.get? id).isSome = (s.channels.get? id).isSome
  size  : s'.channels.size = s.channels.size

instance : IsPreorder State Kept where
  refl := fun _ => ⟨rfl, rfl, le_rfl, fun _ => rfl, rfl⟩
  trans := fun _ _ _ h h' => ⟨h'.tapOf.trans h.tapOf, h'.ids.trans h.ids, h.next.trans h'.next,
    fun id => (h'.keys id).trans (h.keys id), h'.size.trans h.size⟩

theorem kept_framed : Framed Kept where
  preorder := inferInstance
  pending := fun _ _ => ⟨rfl, rfl, le_rfl, fun _ => rfl, rfl⟩
  center := fun _ _ => ⟨rfl, rfl, le_rfl, fun _ => rfl, rfl⟩
  rate := fun _ _ _ => ⟨rfl, rfl, le_rfl, fun _ => rfl, rfl⟩

theorem Reworked.kept {id : ChannelId} {s s' : State} (h : Reworked id s s') : Kept s s' :=
  ⟨h.tapOf, h.ids, h.next.ge, h.keys, h.size⟩

theorem Restored.kept {s s' : State} (h : Restored s s') : Kept s s' := by
  refine ⟨?_, ?_, h.next, ?_, ?_⟩
  · unfold State.tapOf
    rw [h.channels]
  · unfold State.tapIds
    rw [h.taps]
  · intro id
    rw [h.channels]
  · rw [h.channels]

/-- Only subscribing and removing change which channels there are. -/
theorem operation_kept (input : Input) (hsubscribe : ∀ spec r, input ≠ .subscribe spec r)
    (hremove : ∀ id, input ≠ .removeChannel id) : Moves Kept input.operation := by
  have hrecordings : ∀ (s : State) recordings, Kept s { s with recordings := recordings } :=
    fun _ _ => ⟨rfl, rfl, le_rfl, fun _ => rfl, rfl⟩
  have hthen : ∀ {x : Fails State Unit}, Moves Kept x → Moves Kept (do x; return Reply.done) :=
    fun hx => hx.bind fun _ => moves_pure _
  cases input with
  | subscribe spec r => exact absurd rfl (hsubscribe spec r)
  | removeChannel id => exact absurd rfl (hremove id)
  | unsubscribe id => exact moves_pure _
  | retune id offset rate audio r =>
    exact hthen ((retuneConfigured_reworks id offset rate audio r).imp fun _ _ h => h.kept)
  | configureAudio id mode parameters r =>
    exact hthen ((configureAudio_reworks id mode parameters r).imp fun _ _ h => h.kept)
  | setFrequency hz c => exact hthen (kept_framed.setFrequency hz c)
  | setSampleRate hz c => exact hthen (kept_framed.setSampleRate hz c)
  | reconcile r => exact hthen (kept_framed.prepare r)
  | startRecording id format io =>
    have hstart : Moves Kept (startRecording id format io) :=
      startRecording_moves (fun s recordings _ => hrecordings s recordings) format io
    exact hstart.bind fun _ => moves_pure _
  | stopRecording id error =>
    exact hthen (stopRecording_moves (fun s recordings _ => hrecordings s recordings) error)
  | recordingEnds id => exact hthen (moves_modify fun s => hrecordings s _)

namespace Pool

/-! ## Section 8: The invariant -/

/-- What one step can do to the channels, their taps and their pipelines. -/
inductive Stepped (p p' : Pool) : Prop where
  | kept (state : Kept p.state p'.state) (pipelines : p'.pipelines = p.pipelines)
      (held : p'.held = p.held)
  | created (spec : ChannelSpec) (active : ActiveChannel) (h : Created p p' spec active)
  | removed (id : ChannelId) (active : ActiveChannel) (h : Removed p p' id active)

theorem Stepped.refl (p : Pool) : Stepped p p := .kept (refl_of Kept _) rfl rfl

theorem Unchanged.stepped {p p' : Pool} (h : Unchanged p p') : Stepped p p' :=
  .kept h.state.kept h.pipelines h.held

theorem Subscribed.stepped {spec : ChannelSpec} {p p' : Pool} {created : Bool}
    (h : Subscribed spec p created p') : Stepped p p' := by
  rcases h with ⟨-, hsame⟩ | ⟨-, active, hcreated⟩
  · exact hsame.stepped
  · exact .created spec active hcreated

theorem onState_kept {α : Type} {x : Fails State α} (h : Moves Kept x) (p : Pool) :
    Stepped p (onState x p).2 := by
  have hx := h.result p.state
  unfold onState
  exact .kept hx rfl rfl

/-- Reporting a reply moves no state. -/
theorem map_snd {α β : Type} (x : Fails Pool α) (f : α → β) (p : Pool) :
    ((do return f (← x) : Fails Pool β) p).2 = (x p).2 := by
  rw [bind_apply]
  rcases x p with ⟨e | a, p'⟩
  · rfl
  · rfl

theorem findExisting_stepped (spec : ChannelSpec) (p : Pool) :
    Stepped p (onState (Daemon.findExisting spec) p).2 := by
  have hfind : Moves Kept (Daemon.findExisting spec) := by
    intro s₀
    have hsame : ∀ s, s = s₀ → Kept s₀ s := by
      rintro s rfl
      exact refl_of Kept s
    exact (findExisting_restores spec s₀).strengthen (fun _ s hs => hsame s hs.1) hsame
  exact onState_kept hfind p

theorem subscribeLocked_stepped {p : Pool} (hfresh : p.state.Fresh) (spec : ChannelSpec)
    (r : Readings) : Stepped p (subscribeLocked spec r p).2 :=
  ((subscribeLocked_spec spec r hfresh).strengthen (fun _ _ h => h.stepped)
    (fun _ h => h.stepped)).state rfl

theorem subscribe_spec {p₀ : Pool} (spec : ChannelSpec) (r : Readings) (hfresh : p₀.state.Fresh) :
    Triple (fun p => p = p₀) (subscribe spec r)
      (fun created p => Subscribed spec p₀ created p) (Unchanged p₀) := by
  have hsame : Unchanged p₀ p₀ := ⟨refl_of Restored _, rfl, rfl⟩
  unfold subscribe
  apply Triple.bind (Q := fun _ p => p = p₀)
  · apply (onState_spec (findExisting_restores spec p₀.state)).strengthen
    · rintro found p ⟨s, ⟨rfl, -⟩, rfl⟩
      rfl
    · rintro p ⟨s, rfl, rfl⟩
      exact hsame
  intro found
  cases found with
  | true =>
    apply Triple.ret
    rintro p rfl
    exact .inl ⟨rfl, hsame⟩
  | false => exact subscribeLocked_spec spec r hfresh

theorem removeChannel_stepped (id : ChannelId) (p : Pool) : Stepped p (removeChannel id p).2 := by
  have hstepped : Triple (fun q => q = p) (removeChannel id) (fun _ => Stepped p) (Stepped p) := by
    apply (removeChannel_spec id p).strengthen
    · rintro _ p' ⟨active, hremoved⟩
      exact .removed id active hremoved
    · rintro p' rfl
      exact Stepped.refl p'
  exact hstepped.state rfl

theorem releaseChannel_stepped (id : ChannelId) (p : Pool) :
    Stepped p (releaseChannel id p).2 := by
  unfold releaseChannel
  split
  · exact removeChannel_stepped id p
  · exact Stepped.refl p

theorem run_stepped {p : Pool} (hfresh : p.state.Fresh) (input : Input) :
    Stepped p (input.run p).2 := by
  have hother : ∀ input : Daemon.Input, (∀ spec r, input ≠ .subscribe spec r) →
      (∀ id, input ≠ .removeChannel id) → Stepped p (onState input.operation p).2 :=
    fun input hsubscribe hremove => onState_kept (operation_kept input hsubscribe hremove) p
  cases input with
  | findExisting spec =>
    show Stepped p
      ((do return .subscribed (← onState (Daemon.findExisting spec)) : Fails Pool Reply) p).2
    rw [map_snd]
    exact findExisting_stepped spec p
  | subscribeLocked spec r =>
    show Stepped p ((do return .subscribed (← subscribeLocked spec r) : Fails Pool Reply) p).2
    rw [map_snd]
    exact subscribeLocked_stepped hfresh spec r
  | releaseChannel id =>
    show Stepped p ((do releaseChannel id; return .done : Fails Pool Reply) p).2
    rw [map_snd (releaseChannel id) fun _ => Reply.done]
    exact releaseChannel_stepped id p
  | operation input =>
    cases input with
    | subscribe spec r =>
      show Stepped p ((do return .subscribed (← subscribe spec r) : Fails Pool Reply) p).2
      rw [map_snd]
      exact ((subscribe_spec spec r hfresh).strengthen (fun _ _ h => h.stepped)
        (fun _ h => h.stepped)).state rfl
    | removeChannel id =>
      show Stepped p ((do removeChannel id; return .done : Fails Pool Reply) p).2
      rw [map_snd (removeChannel id) fun _ => Reply.done]
      exact removeChannel_stepped id p
    | unsubscribe id => exact hother (.unsubscribe id) (by simp) (by simp)
    | retune id offset rate audio r =>
      exact hother (.retune id offset rate audio r) (by simp) (by simp)
    | configureAudio id mode parameters r =>
      exact hother (.configureAudio id mode parameters r) (by simp) (by simp)
    | setFrequency hz c => exact hother (.setFrequency hz c) (by simp) (by simp)
    | setSampleRate hz c => exact hother (.setSampleRate hz c) (by simp) (by simp)
    | reconcile r => exact hother (.reconcile r) (by simp) (by simp)
    | startRecording id format io => exact hother (.startRecording id format io) (by simp) (by simp)
    | stopRecording id error => exact hother (.stopRecording id error) (by simp) (by simp)
    | recordingEnds id => exact hother (.recordingEnds id) (by simp) (by simp)

/-- The pipelines whose flag is set. -/
def running (p : Pool) : Set ℕ :=
  {n | ∃ pipeline, p.pipelines[n]? = some pipeline ∧ pipeline.running = true}

/-- Taps and pipelines each belong to exactly one channel of the table. -/
structure Inv (p : Pool) : Prop where
  nodup     : p.state.tapIds.Nodup
  taps      : Owned p.state.tapOf {k | k ∈ p.state.tapIds} p.state.channelizer.nextId
  pipelines : Owned p.held.get? p.running p.pipelines.length
  placed    : ∀ id n, p.held.get? id = some n →
    ∃ pipeline, p.pipelines[n]? = some pipeline ∧ pipeline.channelId = id
  keys      : ∀ id, (p.held.get? id).isSome = (p.state.channels.get? id).isSome
  size      : p.state.channels.size ≤ maxChannels

theorem Inv.fresh {p : Pool} (h : p.Inv) : p.state.Fresh := by
  intro tap htap
  exact h.taps.lt_next tap.id (List.mem_map_of_mem htap)

theorem inv_new (center rate : ℕ) : (Pool.new center rate).Inv where
  nodup := List.nodup_nil
  taps := by
    have hempty : {k | k ∈ (Pool.new center rate).state.tapIds} = (∅ : Set ℕ) := by
      ext k
      simp [Pool.new, State.new, State.tapIds, Channelizer.new]
    rw [hempty]
    exact Owned.empty
  pipelines := by
    have hempty : (Pool.new center rate).running = ∅ := by
      ext n
      simp [running, Pool.new]
    rw [hempty]
    exact Owned.empty
  placed := fun id n h => by cases h
  keys := fun _ => rfl
  size := Nat.zero_le _

theorem Inv.kept {p p' : Pool} (h : p.Inv) (hstate : Kept p.state p'.state)
    (hpipelines : p'.pipelines = p.pipelines) (hheld : p'.held = p.held) : p'.Inv where
  nodup := hstate.ids ▸ h.nodup
  taps := by
    rw [hstate.tapOf, hstate.ids]
    exact h.taps.mono hstate.next
  pipelines := by
    unfold running
    rw [hpipelines, hheld]
    exact h.pipelines
  placed := by
    rw [hpipelines, hheld]
    exact h.placed
  keys := by
    intro id
    rw [hheld, hstate.keys]
    exact h.keys id
  size := hstate.size ▸ h.size

theorem tapOf_insert {s s' : State} {id : ChannelId} {active : ActiveChannel}
    (h : s'.channels = s.channels.insert id active) :
    s'.tapOf = Function.update s.tapOf id active.internalChannelId := by
  funext j
  unfold State.tapOf
  rw [h, BTreeMap.get?_insert]
  by_cases hj : j = id
  · rw [hj, Function.update_self, Function.update_self]
    rfl
  · rw [Function.update_of_ne hj, Function.update_of_ne hj]

theorem tapOf_erase {s s' : State} {id : ChannelId} (h : s'.channels = s.channels.erase id) :
    s'.tapOf = Function.update s.tapOf id none := by
  funext j
  unfold State.tapOf
  rw [h, BTreeMap.get?_erase]
  by_cases hj : j = id
  · rw [hj, Function.update_self, Function.update_self]
    rfl
  · rw [Function.update_of_ne hj, Function.update_of_ne hj]

/-- The taps after a channel has been created. -/
theorem Inv.taps_created {p p' : Pool} {spec : ChannelSpec} {active : ActiveChannel} (h : p.Inv)
    (hcreated : Created p p' spec active) : p'.state.tapIds.Nodup ∧
    Owned p'.state.tapOf {k | k ∈ p'.state.tapIds} p'.state.channelizer.nextId := by
  have howner := tapOf_insert hcreated.channels
  have habsent : p.state.tapOf spec.id = none := by
    unfold State.tapOf
    rw [hcreated.absent]
    rfl
  rcases hcreated.tapped with ⟨hnone, htaps, hnext⟩ | ⟨tap, hsome, hle, htaps, hnext⟩
  · have hids : p'.state.tapIds = p.state.tapIds := by
      unfold State.tapIds
      rw [htaps]
    have hsame : p'.state.tapOf = p.state.tapOf := by
      rw [howner, hnone, ← habsent, Function.update_eq_self]
    rw [hids, hsame]
    exact ⟨h.nodup, h.taps.mono hnext⟩
  · have hids : p'.state.tapIds = p.state.tapIds ++ [tap.id] := by
      unfold State.tapIds
      rw [htaps, List.map_append]
      rfl
    have hnew : tap.id ∉ p.state.tapIds := fun hmem =>
      absurd (h.taps.lt_next tap.id hmem) (not_lt.2 hle)
    have hlive : {k | k ∈ p'.state.tapIds} = insert tap.id {k | k ∈ p.state.tapIds} := by
      ext k
      simp [hids, or_comm]
    constructor
    · rw [hids]
      exact List.nodup_append.2 ⟨h.nodup, List.nodup_singleton _, by
        intro a ha b hb
        rw [List.mem_singleton.1 hb]
        rintro rfl
        exact hnew ha⟩
    · rw [howner, hsome, hlive, hnext]
      exact (h.taps.mono hle).give habsent

/-- The taps after a channel has been removed. -/
theorem Inv.taps_removed {p p' : Pool} {id : ChannelId} {active : ActiveChannel} (h : p.Inv)
    (hremoved : Removed p p' id active) : p'.state.tapIds.Nodup ∧
    Owned p'.state.tapOf {k | k ∈ p'.state.tapIds} p'.state.channelizer.nextId := by
  have htap : p.state.tapOf id = active.internalChannelId := by
    unfold State.tapOf
    rw [hremoved.found]
    rfl
  have hids : p'.state.tapIds = p.state.tapIds.filter fun k => p.state.tapOf id ≠ some k := by
    unfold State.tapIds
    rw [hremoved.taps, htap, List.filter_map]
    rfl
  have hlive : {k | k ∈ p'.state.tapIds} =
      {k | k ∈ {k | k ∈ p.state.tapIds} ∧ p.state.tapOf id ≠ some k} := by
    ext k
    simp [hids]
  rw [hlive, tapOf_erase hremoved.channels, hremoved.next, hids]
  exact ⟨h.nodup.filter _, h.taps.take id⟩

theorem Inv.created {p p' : Pool} {spec : ChannelSpec} {active : ActiveChannel} (h : p.Inv)
    (hcreated : Created p p' spec active) : p'.Inv := by
  obtain ⟨hnodup, htaps⟩ := h.taps_created hcreated
  have hheld : p'.held.get? = Function.update p.held.get? spec.id (some p.pipelines.length) := by
    rw [hcreated.held, BTreeMap.get?_insert]
  -- the channel is new, and its pipeline is the last of the list
  have habsent : p.held.get? spec.id = none := by
    have hkey := h.keys spec.id
    rw [hcreated.absent] at hkey
    exact Option.not_isSome_iff_eq_none.1 (by simp [hkey])
  have hold : ∀ (n : ℕ) (pipeline : Pipeline), p.pipelines[n]? = some pipeline →
      p'.pipelines[n]? = some pipeline := by
    intro n pipeline hget
    rw [hcreated.pipelines, List.getElem?_append_left (List.getElem?_eq_some_iff.1 hget).1, hget]
  have hnew : p'.pipelines[p.pipelines.length]? = some ⟨spec.id, true, []⟩ := by
    rw [hcreated.pipelines, List.getElem?_concat_length]
  constructor
  case nodup => exact hnodup
  case taps => exact htaps
  case pipelines =>
    have hrunning : p'.running = insert p.pipelines.length p.running := by
      ext n
      constructor
      · rintro ⟨pipeline, hget, hrun⟩
        rw [hcreated.pipelines] at hget
        rcases lt_trichotomy n p.pipelines.length with hlt | rfl | hgt
        · rw [List.getElem?_append_left hlt] at hget
          exact .inr ⟨pipeline, hget, hrun⟩
        · exact .inl rfl
        · rw [List.getElem?_eq_none (by simp; omega)] at hget
          cases hget
      · rintro (rfl | ⟨pipeline, hget, hrun⟩)
        · exact ⟨_, hnew, rfl⟩
        · exact ⟨pipeline, hold n pipeline hget, hrun⟩
    have hlength : p'.pipelines.length = p.pipelines.length + 1 := by
      rw [hcreated.pipelines, List.length_append]
      rfl
    rw [hheld, hrunning, hlength]
    exact h.pipelines.give habsent
  case placed =>
    intro id n hget
    rw [hheld] at hget
    by_cases hid : id = spec.id
    · rw [hid, Function.update_self, Option.some.injEq] at hget
      rw [← hget, hid]
      exact ⟨_, hnew, rfl⟩
    · rw [Function.update_of_ne hid] at hget
      obtain ⟨pipeline, hplace, hchannel⟩ := h.placed id n hget
      exact ⟨pipeline, hold n pipeline hplace, hchannel⟩
  case keys =>
    intro id
    rw [hheld, hcreated.channels, BTreeMap.get?_insert]
    by_cases hid : id = spec.id
    · rw [hid, Function.update_self, Function.update_self]
      rfl
    · rw [Function.update_of_ne hid, Function.update_of_ne hid]
      exact h.keys id
  case size =>
    have hroom := hcreated.room
    rw [hcreated.channels, BTreeMap.size_insert_of_not_mem _ hcreated.absent]
    omega

/-- The pipeline of a removed channel is the only one that stops. -/
theorem Removed.getElem? {p p' : Pool} {id : ChannelId} {active : ActiveChannel}
    (hremoved : Removed p p' id active) (n : ℕ) :
    p'.pipelines[n]? = (p.pipelines[n]?).map fun pipeline =>
      if p.held.get? id = some n then pipeline.stop else pipeline := by
  rw [hremoved.pipelines]
  cases hheld : p.held.get? id with
  | none =>
    show p.pipelines[n]? = _
    simp
  | some k =>
    show (p.pipelines.modify k Pipeline.stop)[n]? = _
    rw [List.getElem?_modify]
    by_cases hk : k = n
    · simp [hk]
    · simp [hk]

theorem Inv.removed {p p' : Pool} {id : ChannelId} {active : ActiveChannel} (h : p.Inv)
    (hremoved : Removed p p' id active) : p'.Inv := by
  obtain ⟨hnodup, htaps⟩ := h.taps_removed hremoved
  constructor
  case nodup => exact hnodup
  case taps => exact htaps
  case pipelines =>
    -- the pipeline that the channel held is the one that stops
    have hrunning : p'.running = {n | n ∈ p.running ∧ p.held.get? id ≠ some n} := by
      ext n
      constructor
      · rintro ⟨pipeline, hget, hrun⟩
        rw [hremoved.getElem?, Option.map_eq_some_iff] at hget
        obtain ⟨old, hold, rfl⟩ := hget
        by_cases hn : p.held.get? id = some n
        · rw [if_pos hn] at hrun
          cases hrun
        · rw [if_neg hn] at hrun
          exact ⟨⟨old, hold, hrun⟩, hn⟩
      · rintro ⟨⟨pipeline, hget, hrun⟩, hn⟩
        refine ⟨pipeline, ?_, hrun⟩
        rw [hremoved.getElem?, hget, Option.map_some, if_neg hn]
    have hlength : p'.pipelines.length = p.pipelines.length := by
      rw [hremoved.pipelines]
      cases p.held.get? id with
      | none => rfl
      | some n => exact List.length_modify _ _ _
    rw [hremoved.held, hrunning, hlength]
    exact h.pipelines.take id
  case placed =>
    intro j n hget
    rw [hremoved.held] at hget
    by_cases hj : j = id
    · rw [hj, Function.update_self] at hget
      cases hget
    · rw [Function.update_of_ne hj] at hget
      obtain ⟨pipeline, hplace, hchannel⟩ := h.placed j n hget
      have hn : p.held.get? id ≠ some n := fun hid => hj (h.pipelines.unique j id n hget hid)
      exact ⟨pipeline, by rw [hremoved.getElem?, hplace, Option.map_some, if_neg hn], hchannel⟩
  case keys =>
    intro j
    rw [hremoved.held, hremoved.channels, BTreeMap.get?_erase]
    by_cases hj : j = id
    · rw [hj, Function.update_self, Function.update_self]
      rfl
    · rw [Function.update_of_ne hj, Function.update_of_ne hj]
      exact h.keys j
  case size =>
    rw [hremoved.channels]
    exact (BTreeMap.size_erase_le _ id).trans h.size

theorem Inv.step {p p' : Pool} (h : p.Inv) (hstepped : Stepped p p') : p'.Inv := by
  cases hstepped with
  | kept state pipelines held => exact h.kept state pipelines held
  | created spec active hcreated => exact h.created hcreated
  | removed id active hremoved => exact h.removed hremoved

/-! ## Section 9: Every run -/

variable {center rate : ℕ} {inputs : List Input} {p : Pool}
  {h : List (Machine.Event Pool Input (Except String Reply))}

theorem machine_step {p p' : Pool} {input : Input} {reply : Except String Reply}
    (hstep : (machine center rate).step p input = some (p', reply)) :
    input.run p = (reply, p') := by
  simpa [machine, Prod.ext_iff, and_comm] using hstep

/-- An attempt to subscribe, or the second part of one. -/
def Input.subscribes : Input → Bool
  | .findExisting _ => true
  | .subscribeLocked _ _ => true
  | .operation (.subscribe _ _) => true
  | _ => false

/-- Nothing is left of a subscribe that failed. -/
theorem failed_unchanged {p p' : Pool} (hinv : p.Inv) {input : Input} {error : String}
    (hsubscribes : input.subscribes = true) (hrun : input.run p = (.error error, p')) :
    Unchanged p p' := by
  have hreply : ∀ (x : Fails Pool Bool), Triple (fun q => q = p) x (fun _ _ => True) (Unchanged p) →
      (do return Reply.subscribed (← x) : Fails Pool Reply) p = (.error error, p') →
        Unchanged p p' := by
    intro x hx heq
    have hxp := hx p rfl
    rw [bind_apply] at heq
    rcases hresult : x p with ⟨e | a, q⟩
    · rw [hresult] at heq hxp
      obtain ⟨-, rfl⟩ := Prod.mk.inj heq
      exact hxp
    · rw [hresult] at heq
      cases (Prod.mk.inj heq).1
  cases input with
  | findExisting spec =>
    refine hreply _ ?_ hrun
    apply (onState_spec (findExisting_restores spec p.state)).strengthen (fun _ _ _ => trivial)
    rintro q ⟨s, rfl, rfl⟩
    exact ⟨refl_of Restored _, rfl, rfl⟩
  | subscribeLocked spec r =>
    exact hreply _ ((subscribeLocked_spec spec r hinv.fresh).strengthen (fun _ _ _ => trivial)
      fun _ hq => hq) hrun
  | releaseChannel id => cases hsubscribes
  | operation input =>
    cases input with
    | subscribe spec r =>
      exact hreply _ ((subscribe_spec spec r hinv.fresh).strengthen (fun _ _ _ => trivial)
        fun _ hq => hq) hrun
    | _ => cases hsubscribes

/-- The taps, the virtual channels and the running pipelines match. -/
structure Matches (p : Pool) : Prop where
  /-- No two taps have one id. -/
  nodup     : p.state.tapIds.Nodup
  /-- A virtual channel and its tap determine one another. -/
  taps      : Set.BijOn p.state.tapOf {id | (p.state.tapOf id).isSome = true}
    (some '' {k | k ∈ p.state.tapIds})
  size      : p.state.channels.size ≤ maxChannels
  /-- Exactly the pipelines of the table run, each for its own channel. -/
  pipelines : ∀ (n : ℕ) (pipeline : Pipeline), p.pipelines[n]? = some pipeline →
    (pipeline.running = true ↔ p.held.get? pipeline.channelId = some n)
  keys      : ∀ id, (p.held.get? id).isSome = (p.state.channels.get? id).isSome

theorem Inv.matches {p : Pool} (h : p.Inv) : p.Matches where
  nodup := h.nodup
  taps := h.taps.bijOn
  size := h.size
  pipelines := by
    intro n pipeline hget
    constructor
    · intro hrun
      have hlive : n ∈ p.running := ⟨pipeline, hget, hrun⟩
      obtain ⟨id, hid⟩ := (h.pipelines.mem_iff n).1 hlive
      obtain ⟨same, hsame, hchannel⟩ := h.placed id n hid
      rw [hget, Option.some.injEq] at hsame
      rw [hsame, hchannel, hid]
    · intro hheld
      obtain ⟨same, hsame, hrun⟩ := (h.pipelines.mem_iff n).2 ⟨_, hheld⟩
      rw [hget, Option.some.injEq] at hsame
      rw [hsame, hrun]
  keys := h.keys

theorem run_inv (hrun : (machine center rate).run (Pool.new center rate) inputs = some (p, h)) :
    p.Inv ∧ ∀ past e later, h = past ++ e :: later → e.before.Inv ∧
      e.input.run e.before = (e.output, e.after) := by
  refine (machine center rate).run_inv_steps (P := fun _ p => p.Inv)
    (Q := fun _ e => e.before.Inv ∧ e.input.run e.before = (e.output, e.after)) ?_ ?_ hrun
  · exact inv_new center rate
  · intro h p input p' reply hinv hstep
    have hresult := machine_step hstep
    refine ⟨?_, hinv, hresult⟩
    have hstepped := run_stepped hinv.fresh input
    rw [hresult] at hstepped
    exact hinv.step hstepped

/-- **Taps, channels and pipelines match.** After every run, with subscribes that are
    interrupted between their two looks at the table and releases that are interrupted between
    their channels, the taps correspond one to one to the virtual channels, there are at most 32
    channels, and a pipeline runs exactly when it is the one of its channel. A subscribe that
    failed has left the channels, the taps, the recordings and the pipelines as they were. -/
theorem pipelines_match
    (hrun : (machine center rate).run (Pool.new center rate) inputs = some (p, h)) :
    p.Matches ∧ ∀ e ∈ h, e.input.subscribes = true → (∃ error, e.output = .error error) →
      Unchanged e.before e.after := by
  obtain ⟨hinv, hsteps⟩ := run_inv hrun
  refine ⟨hinv.matches, ?_⟩
  rintro e hmem hsubscribes ⟨error, herror⟩
  obtain ⟨past, later, hsplit⟩ := List.append_of_mem hmem
  obtain ⟨hbefore, hresult⟩ := hsteps past e later hsplit
  rw [herror] at hresult
  exact failed_unchanged hbefore hsubscribes hresult

/-- A channel is subscribed twice, removed and made again: the second pipeline runs. -/
theorem pipelines_match_again :
    ∃ p h, (machine 100000000 4800000).run (Pool.new 100000000 4800000)
      [.operation (.subscribe adsbSpec (readingsAt 100000000)),
        .subscribeLocked adsbSpec (readingsAt 100000000), .releaseChannel 1,
        .subscribeLocked adsbSpec (readingsAt 100000000)] = some (p, h) ∧
      p.pipelines.map Pipeline.running = [false, true] ∧ p.Matches := by
  have hmatch := @pipelines_match 100000000 4800000
    [.operation (.subscribe adsbSpec (readingsAt 100000000)),
      .subscribeLocked adsbSpec (readingsAt 100000000), .releaseChannel 1,
      .subscribeLocked adsbSpec (readingsAt 100000000)] _ _ rfl
  exact ⟨_, _, rfl, rfl, hmatch.1⟩

end Pool

end Daemon
