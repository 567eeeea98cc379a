import EzSdr.Framework.Machine
import EzSdr.Framework.BTreeMap

/-! # Stream Queue

    Bounded live stream buffering shared by network writers and GUI
    receivers. Every channel has a slot of queued frames; snapshots replace
    older snapshots, audio keeps a short tail, critical telemetry is never
    evicted, and every frame the queue drops is counted in the slot's
    `skipped` number until a gap notice reports it.

    A step returns `none` where the code would crash: a failed unwrap, a
    byte counter below zero, or an eviction loop that does not end. -/

namespace StreamQueue

/-! ## Section 1: Events -/

/-- Channel ids are 32-bit. -/
abbrev ChannelId : Type := Fin 4294967296

/-- Monotonic clock readings. -/
abbrev Instant : Type := ℕ

structure SpectrumFrame where
  channelId       : ChannelId
  centerHz        : ℕ
  sampleRateHz    : ℕ
  /-- Magnitudes, as 32-bit float patterns. -/
  bins            : List UInt32
  timestampMs     : ℕ
  measurementBins : Option (List UInt32)

structure AudioFrame where
  sequence     : ℕ
  channelId    : ChannelId
  sampleRateHz : ℕ
  /-- Number of interleaved PCM channels. -/
  channels     : UInt8
  /-- PCM samples, as 32-bit float patterns. -/
  samples      : List UInt32

structure AircraftTelemetry where
  icao           : ℕ
  addressType    : String
  source         : String
  callsign       : Option String
  positionSource : Option String

structure AircraftSnapshot where
  channelId : ChannelId
  aircraft  : List AircraftTelemetry

structure TelemetryFrame where
  productId            : ℕ
  channelId            : ChannelId
  apid                 : ℕ
  width                : ℕ
  height               : ℕ
  pixels               : List UInt8
  /-- Per-scanline times, as 64-bit float patterns. -/
  lineTimesUnixSeconds : List (Option UInt64)
  finalProduct         : Bool
  productComplete      : Bool

/-- Server events. The queue refuses every control variant alike, so they
    are one constructor here. -/
inductive ServerEvent where
  | spectrum  (frame : SpectrumFrame)
  | audio     (frame : AudioFrame)
  | aircraft  (frame : AircraftSnapshot)
  | telemetry (frame : TelemetryFrame)
  | streamGap (channelId : ChannelId) (droppedFrames : ℕ)
  | control

def STREAM_AUDIO_CAPACITY : ℕ := 8
def STREAM_CHANNEL_CAPACITY : ℕ := 32
def STREAM_BYTE_CAPACITY : ℕ := 160 * 1024 * 1024
def TELEMETRY_FINAL_CAPACITY : ℕ := 8

/-- Final products, completion markers and reset frames. -/
def isCriticalTelemetry : ServerEvent → Bool
  | .telemetry frame =>
      frame.finalProduct || frame.productComplete ||
        (frame.width == 0 && frame.height == 0 && frame.pixels.isEmpty)
  | _ => false

/-- A preview that a newer preview of the same channel replaces. -/
def isPreview : ServerEvent → Bool
  | .telemetry queued =>
      !queued.finalProduct && !queued.productComplete &&
        (queued.width != 0 || queued.height != 0 || !queued.pixels.isEmpty)
  | _ => false

/-- Channel and frame capacity of a stream frame; `none` for gap notices and
    control events. -/
def target : ServerEvent → Option (ChannelId × ℕ)
  | .spectrum frame  => some (frame.channelId, 1)
  | .audio frame     => some (frame.channelId, STREAM_AUDIO_CAPACITY)
  | .aircraft frame  => some (frame.channelId, 1)
  | .telemetry frame => some (frame.channelId, TELEMETRY_FINAL_CAPACITY)
  | .streamGap _ _   => none
  | .control         => none

/-- In-memory sizes of the records the byte budget charges for; they depend
    on the compiler. -/
structure Layout where
  serverEvent       : ℕ
  aircraftTelemetry : ℕ

/-- Bytes a queued event is charged with. -/
def weight (L : Layout) (event : ServerEvent) : ℕ :=
  L.serverEvent +
    match event with
    | .audio frame => frame.samples.length * 4
    | .spectrum frame =>
        (frame.bins.length + (frame.measurementBins.map List.length).getD 0) * 4
    | .telemetry frame => frame.pixels.length + frame.lineTimesUnixSeconds.length * 8
    | .aircraft frame =>
        (frame.aircraft.map fun aircraft =>
          L.aircraftTelemetry + aircraft.addressType.utf8ByteSize +
            aircraft.source.utf8ByteSize +
            (aircraft.callsign.map String.utf8ByteSize).getD 0 +
            (aircraft.positionSource.map String.utf8ByteSize).getD 0).sum
    | _ => 0

/-! ## Section 2: State -/

/-- A queued event with its observation time and charged bytes. -/
structure Queued where
  event      : ServerEvent
  observedAt : Instant
  weight     : ℕ

/-- What is pending on one channel. -/
structure Slot where
  frames       : List Queued
  /-- Dropped frames no gap notice has reported yet. -/
  skipped      : ℕ
  observedAt   : Option Instant
  /-- The front frame has been announced by a gap and must not be evicted. -/
  protectFront : Bool

instance : Inhabited Slot := ⟨⟨[], 0, none, false⟩⟩

structure State where
  channels    : BTreeMap ChannelId Slot
  lastChannel : Option ChannelId
  /-- Sum of the weights of all queued frames. -/
  bytes       : ℕ
  /-- All frames skipped since the queue was made. -/
  skipped     : ℕ

def initialState : State := ⟨BTreeMap.empty, none, 0, 0⟩

/-- `u64::saturating_add`. -/
def saturatingAdd (a b : ℕ) : ℕ := min (a + b) (2 ^ 64 - 1)

/-- Subtraction that crashes below zero. -/
def checkedSub (a b : ℕ) : Option ℕ := if b ≤ a then some (a - b) else none

/-- Store `slot` as the slot of `id`. -/
def State.setSlot (q : State) (id : ChannelId) (slot : Slot) : State :=
  { q with channels := q.channels.insert id slot }

/-- Number of leading frames eviction must leave alone. -/
def Slot.protectedCount (slot : Slot) : ℕ := if slot.protectFront then 1 else 0

/-- The slot with one more dropped frame to report. -/
def Slot.skip (slot : Slot) : Slot := { slot with skipped := saturatingAdd slot.skipped 1 }

/-- Is there neither a frame nor a gap to deliver? -/
def Slot.isIdle (slot : Slot) : Bool := slot.frames.isEmpty && slot.skipped == 0

/-- Sum of the charged bytes of a slot. -/
def Slot.bytes (slot : Slot) : ℕ := (slot.frames.map Queued.weight).sum

/-! ## Section 3: Eviction -/

/-- First frame behind the protected front that is not critical. -/
def Slot.evictionVictim (slot : Slot) : Option (Queued × ℕ) :=
  (slot.frames.zipIdx.drop slot.protectedCount).find?
    (fun entry => !isCriticalTelemetry entry.1.event)

/-- Last preview behind the protected front. -/
def Slot.previewVictim (slot : Slot) : Option (Queued × ℕ) :=
  ((slot.frames.zipIdx.drop slot.protectedCount).filter
    (fun entry => isPreview entry.1.event)).getLast?

/-- Drop the frame at `index` of channel `id` and count it as skipped. -/
def State.evict (q : State) (id : ChannelId) (index : ℕ) : Option State := do
  let slot ← q.channels.get? id
  let old ← slot.frames[index]?
  let bytes ← checkedSub q.bytes old.weight
  some { q.setSlot id { slot.skip with frames := slot.frames.eraseIdx index } with
    bytes   := bytes
    skipped := saturatingAdd q.skipped 1 }

/-- A preview replaces the last unprotected preview of its channel. -/
def State.coalescePreview (q : State) (id : ChannelId) (event : ServerEvent) : Option State :=
  match event with
  | .telemetry frame =>
    if !frame.finalProduct && !frame.productComplete then do
      let slot ← q.channels.get? id
      match slot.previewVictim with
      | none => some q
      | some (_, index) => q.evict id index
    else some q
  | _ => some q

/-- Outcome of making room in a slot: either there is room, or `push` ends
    here with the given answer. -/
inductive Room where
  | ready   (q : State)
  | settled (accepted : Bool) (q : State)

/-- Evict from channel `id` until it holds fewer than `capacity` frames.
    Every turn removes one frame, so `fuel` above their number is enough. -/
def State.makeRoom (id : ChannelId) (capacity : ℕ) (finalTelemetry : Bool) :
    ℕ → State → Option Room
  | 0, _ => none
  | fuel + 1, q => do
    let slot ← q.channels.get? id
    if slot.frames.length < capacity then some (.ready q)
    else
      match slot.evictionVictim with
      | none =>
        if !finalTelemetry then
          some (.settled true
            { q.setSlot id slot.skip with skipped := saturatingAdd q.skipped 1 })
        else some (.settled false q)
      | some (_, index) => do
        let q' ← q.evict id index
        makeRoom id capacity finalTelemetry fuel q'

/-- Channel whose eviction victim was observed first. -/
def State.oldestVictim (q : State) : Option ChannelId :=
  ((q.channels.entries.filterMap fun entry =>
      entry.2.evictionVictim.map fun victim => (entry.1, victim.1.observedAt)).minOn?
    Prod.snd).map Prod.fst

/-- Number of frames queued on all channels. -/
def State.queuedFrames (q : State) : ℕ :=
  q.channels.total (fun _ slot => slot.frames.length)

/-- Evict the oldest victims of all channels until the byte budget is met.
    Answers `false` when nothing is left to evict. -/
def State.shrinkToBudget : ℕ → State → Option (Bool × State)
  | 0, _ => none
  | fuel + 1, q =>
    if q.bytes ≤ STREAM_BYTE_CAPACITY then some (true, q)
    else
      match q.oldestVictim with
      | none => some (false, q)
      | some id => do
        let slot ← q.channels.get? id
        let (_, index) ← slot.evictionVictim
        let q' ← q.evict id index
        shrinkToBudget fuel q'

/-! ## Section 4: Operations -/

/-- Count `frames` as lost on channel `id`. -/
def State.noteGap (q : State) (id : ChannelId) (frames : ℕ) (observedAt : Instant) :
    Bool × State :=
  if frames = 0 then (true, q)
  else if !q.channels.contains id && q.channels.size ≥ STREAM_CHANNEL_CAPACITY then (false, q)
  else
    let slot := (q.channels.get? id).getD default
    (true, { q.setSlot id { slot with
        skipped := saturatingAdd slot.skipped frames, observedAt := some observedAt } with
      skipped := saturatingAdd q.skipped frames })

/-- Append a frame to channel `id` and charge its weight. -/
def State.append (q : State) (id : ChannelId) (entry : Queued) : Option State := do
  let slot ← q.channels.get? id
  some { q.setSlot id { slot with frames := slot.frames ++ [entry] } with
    bytes := q.bytes + entry.weight }

/-- The part of `push` after the slot has been opened. -/
def State.enqueue (L : Layout) (q : State) (id : ChannelId) (capacity : ℕ)
    (event : ServerEvent) (observedAt : Instant) : Option (Bool × State) := do
  let slot ← q.channels.get? id
  let finalTelemetry := isCriticalTelemetry event
  if finalTelemetry && slot.frames.length ≥ capacity then some (false, q)
  else
    let q₁ ← q.coalescePreview id event
    -- A snapshot promised after a gap survives until the next pop, while one
    -- tail keeps the freshest update.
    let capacity' := capacity + (if capacity == 1 && slot.protectFront then 1 else 0)
    match ← State.makeRoom id capacity' finalTelemetry (slot.frames.length + 1) q₁ with
    | .settled accepted q₂ => some (accepted, q₂)
    | .ready q₂ =>
      let q₃ ← q₂.append id ⟨event, observedAt, weight L event⟩
      q₃.shrinkToBudget (q₃.queuedFrames + 1)

/-- Queue one event; `false` asks the caller to fail the transport. -/
def State.push (L : Layout) (q : State) (event : ServerEvent) (observedAt : Instant) :
    Option (Bool × State) :=
  match event with
  | .streamGap id dropped => some (q.noteGap id dropped observedAt)
  | _ =>
    match target event with
    | none => some (false, q)
    | some (id, capacity) =>
      if !q.channels.contains id && q.channels.size ≥ STREAM_CHANNEL_CAPACITY then
        some (false, { q with skipped := saturatingAdd q.skipped 1 })
      else
        let slot := { (q.channels.get? id).getD default with observedAt := some observedAt }
        (q.setSlot id slot).enqueue L id capacity event observedAt

/-- The channel served next: the first id above the last one served, or the
    first of all. -/
def State.nextChannel (q : State) : Option ChannelId :=
  (q.channels.keys.find? fun id => q.lastChannel.all (· < id)).or q.channels.keys.head?

/-- Store the slot a pop leaves behind, or remove it when it is idle. -/
def State.settle (q : State) (id : ChannelId) (slot : Slot) : State :=
  if slot.isIdle then { q with channels := q.channels.erase id } else q.setSlot id slot

/-- Take the next gap notice or frame. -/
def State.pop (q : State) : Option (Option (ServerEvent × Instant) × State) :=
  match q.nextChannel with
  | none => some (none, q)
  | some id => do
    let q' := { q with lastChannel := some id }
    let slot ← q'.channels.get? id
    if slot.skipped > 0 && !slot.protectFront then
      let at' ← slot.observedAt
      some (some (.streamGap id slot.skipped, at'),
        q'.settle id { slot with skipped := 0, protectFront := !slot.frames.isEmpty })
    else
      match slot.frames with
      | [] => some (none, q'.settle id slot)
      | next :: rest => do
        let bytes ← checkedSub q'.bytes next.weight
        some (some (next.event, next.observedAt),
          { q' with bytes := bytes }.settle id
            { slot with frames := rest, protectFront := false })

/-- Forget a channel. -/
def State.clear (q : State) (id : ChannelId) : Option State :=
  match q.channels.get? id with
  | none => some q
  | some slot => do
    let bytes ← checkedSub q.bytes slot.bytes
    some { q with channels := q.channels.erase id, bytes := bytes }

/-! ## Section 5: The queue as a machine -/

inductive Op where
  | push    (event : ServerEvent) (observedAt : Instant)
  | noteGap (id : ChannelId) (frames : ℕ) (observedAt : Instant)
  | pop
  | clear   (id : ChannelId)

inductive Reply where
  | accepted (ok : Bool)
  | popped   (item : Option (ServerEvent × Instant))
  | cleared

/-- One call on the queue. -/
def step (L : Layout) (q : State) : Op → Option (State × Reply)
  | .push event observedAt =>
    (q.push L event observedAt).map fun r => (r.2, .accepted r.1)
  | .noteGap id frames observedAt =>
    let r := q.noteGap id frames observedAt
    some (r.2, .accepted r.1)
  | .pop => q.pop.map fun r => (r.2, .popped r.1)
  | .clear id => (q.clear id).map fun q' => (q', .cleared)

/-- The queue, starting empty. -/
def machine (L : Layout) : Machine State Op Reply := ⟨initialState, step L⟩

/-- Executed calls, with the states around them. -/
abbrev Call : Type := Machine.Event State Op Reply

end StreamQueue
