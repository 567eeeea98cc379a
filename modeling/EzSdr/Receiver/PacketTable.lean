import EzSdr.Capture.Clock
import EzSdr.ModeS.Cpr

/-! # The Aircraft of the Packet Pipeline

    The pipeline keeps a tracker of addresses, the published fields of each
    aircraft, and the capture times of its last message and its last position.
    Aircraft come with messages, leave when the tracker is full or when they are
    stale, and all go with a new capture epoch.

    **`table_bounds`**: the tracker never holds more than 4096 aircraft, and no
    other map knows an aircraft that the tracker does not know. -/

namespace Packet

open Capture (CaptureTimestamp SampleBlock SampleContinuity observe offsetSamples checkedAdd
  messageTimestamp2400)
open Ingest (CaptureClock)
open ModeS (Address CprTimestamp checkedSub)

/-! ## Section 1: Messages and aircraft -/

def ADSB_SAMPLE_RATE_HZ : ℕ := 2400000

def PUBLISH_EVERY_N_BLOCKS : ℕ := 25

def STALE_AIRCRAFT_MS : ℕ := 60000

def MAX_TRACKED : ℕ := 4096

/-- A message of the demodulator; `body` is what the decoders read. -/
structure ModesMessage (μ : Type*) where
  addr            : Address
  timestampMsg    : ℤ
  sysTimestampMsg : ℕ
  body            : μ

/-- What the tracker counts. -/
structure AircraftState where
  addr       : Address
  msgCount   : ℕ
  lastSeenMs : ℕ

/-- What is published of an aircraft; `fields` are those no decision depends on. -/
structure AircraftTelemetry (κ φ : Type*) where
  icao            : Address
  lat             : Option κ
  lon             : Option κ
  positionSeenMs  : Option ℕ
  /-- Source and quality of the position. -/
  positionOrigin  : Option φ
  msgCount        : ℕ
  lastSeenMs      : ℕ
  fields          : φ

/-- The message decoders: coordinates `κ`, published fields `φ`, CPR decoder `γ`. -/
structure Decoders (μ κ φ γ : Type*) where
  /-- `decode_mode_s_message`: the address, and how the fields of the aircraft change. -/
  decode         : μ → Option (Address × (φ → φ))
  /-- Fields of a new aircraft. -/
  fields         : φ
  /-- `CprDecoder::new`. -/
  cpr            : γ
  /-- A position message, with the prior position and that of the receiver. -/
  submit         : γ → Address → μ → Option (κ × κ) → Option (κ × κ) → CprTimestamp →
    γ × Option (κ × κ)
  positionOrigin : μ → φ

/-- `Instant::now` and the wall clock, in nanoseconds and in milliseconds. -/
structure Now where
  instant : ℕ
  ms      : ℕ

/-- `capture_cpr_time`. -/
def captureCprTime (capture : CaptureTimestamp) : Option CprTimestamp :=
  capture.relativeTimeNs.map fun ns => .capture (UInt64.ofNat capture.epoch) ns

abbrev Tracker : Type := BTreeMap Address AircraftState

/-- `Tracker::update_from_message`. -/
def updateFromMessage (tracker : Tracker) (addr : Address) (sysTimestampMsg : ℕ) : Tracker :=
  let entry := (tracker.get? addr).getD ⟨addr, 0, 0⟩
  tracker.insert addr { entry with msgCount := entry.msgCount + 1, lastSeenMs := sysTimestampMsg }

/-- The order in which the tracker's hash map is walked: any order of its entries. -/
structure Walk where
  order    : Tracker → List (Address × AircraftState)
  complete : ∀ tracker e, e ∈ order tracker ↔ e ∈ tracker.entries

/-- The order of the addresses is one of them. -/
instance : Inhabited Walk := ⟨⟨BTreeMap.entries, fun _ _ => Iff.rfl⟩⟩

section

variable {μ κ φ γ α : Type*}

/-- The pipeline without its demodulator. -/
structure PacketPipeline (κ φ γ : Type*) where
  tracker             : Tracker
  cpr                 : γ
  continuity          : SampleContinuity
  aircraft            : BTreeMap Address (AircraftTelemetry κ φ)
  captureSeen         : BTreeMap Address CaptureTimestamp
  capturePositionSeen : BTreeMap Address CaptureTimestamp
  captureNow          : Option CprTimestamp
  captureObservedAt   : Option ℕ
  lastCaptureClock    : Option CaptureClock
  /-- Next sample, its clock and the centre frequency. -/
  nextCapture         : Option (ℕ × CaptureClock × ℕ)
  blocksSincePublish  : ℕ
  lastPublish         : ℕ
  receiverPosition    : Option (κ × κ)

namespace PacketPipeline

variable (D : Decoders μ κ φ γ) (walk : Walk)

def new (now : ℕ) : PacketPipeline κ φ γ where
  tracker := BTreeMap.empty
  cpr := D.cpr
  continuity := none
  aircraft := BTreeMap.empty
  captureSeen := BTreeMap.empty
  capturePositionSeen := BTreeMap.empty
  captureNow := none
  captureObservedAt := none
  lastCaptureClock := none
  nextCapture := none
  blocksSincePublish := 0
  lastPublish := now
  receiverPosition := none

/-- The filter for coordinates in range is the caller's. -/
def setReceiverPosition (p : PacketPipeline κ φ γ) (position : Option (κ × κ)) :
    PacketPipeline κ φ γ :=
  { p with receiverPosition := position, cpr := D.cpr }

/-! ## Section 2: One message -/

/-- How long ago an aircraft was seen: by capture time, or else by the wall clock. -/
def age (p : PacketPipeline κ φ γ) (cprTime : CprTimestamp) (nowMs : ℕ)
    (e : Address × AircraftState) : ℕ :=
  (((p.captureSeen.get? e.1).bind captureCprTime).bind cprTime.checkedDurationSince).getD
    ((nowMs - e.2.lastSeenMs) * 1000000)

/-- The aircraft seen longest ago; of several the one walked last. -/
def oldest (p : PacketPipeline κ φ γ) (cprTime : CprTimestamp) (nowMs : ℕ) : Option Address :=
  ((walk.order p.tracker).reverse.maxOn? (p.age cprTime nowMs)).map Prod.fst

def forget (p : PacketPipeline κ φ γ) (icao : Address) : PacketPipeline κ φ γ :=
  { p with
    tracker := p.tracker.erase icao
    aircraft := p.aircraft.erase icao
    captureSeen := p.captureSeen.erase icao
    capturePositionSeen := p.capturePositionSeen.erase icao }

/-- Make room for a new address. -/
def makeRoom (p : PacketPipeline κ φ γ) (addr : Address) (cprTime : CprTimestamp) (nowMs : ℕ) :
    PacketPipeline κ φ γ :=
  if p.tracker.contains addr = false ∧ MAX_TRACKED ≤ p.tracker.size then
    match p.oldest walk cprTime nowMs with
    | some icao => p.forget icao
    | none => p
  else p

/-- Count the message, and keep its capture time. -/
def track (p : PacketPipeline κ φ γ) (addr : Address) (nowMs : ℕ)
    (capture : Option CaptureTimestamp) : PacketPipeline κ φ γ :=
  { p with
    tracker := updateFromMessage p.tracker addr nowMs
    captureSeen := match capture with
      | some capture => p.captureSeen.insert addr capture
      | none => p.captureSeen.erase addr }

/-- The position the aircraft had, unless it is stale. -/
def priorPosition (p : PacketPipeline κ φ γ) (icao : Address) (cprTime : CprTimestamp)
    (nowMs : ℕ) : Option (κ × κ) :=
  let age := ((p.capturePositionSeen.get? icao).bind captureCprTime).bind
    cprTime.checkedDurationSince
  let recent (seen : ℕ) : Bool := match age with
    | some age => decide (age ≤ STALE_AIRCRAFT_MS * 1000000)
    | none => decide (nowMs - seen ≤ STALE_AIRCRAFT_MS)
  ((p.aircraft.get? icao).filter fun entry => entry.positionSeenMs.any recent).bind fun entry =>
    entry.lat.bind fun lat => entry.lon.map fun lon => (lat, lon)

/-- The entry of an aircraft, made if there is none. -/
def entryOf (p : PacketPipeline κ φ γ) (icao : Address) : AircraftTelemetry κ φ :=
  (p.aircraft.get? icao).getD ⟨icao, none, none, none, none, 0, 0, D.fields⟩

/-- Store a decoded position with its capture time. -/
def locate (p : PacketPipeline κ φ γ) (icao : Address) (mm : ModesMessage μ)
    (capture : Option CaptureTimestamp) (entry : AircraftTelemetry κ φ) :
    Option (κ × κ) → PacketPipeline κ φ γ
  | none => { p with aircraft := p.aircraft.insert icao entry }
  | some (lat, lon) =>
    { p with
      aircraft := p.aircraft.insert icao { entry with
        lat := some lat
        lon := some lon
        positionSeenMs := some mm.sysTimestampMsg
        positionOrigin := some (D.positionOrigin mm.body) }
      capturePositionSeen := match capture with
        | some capture => p.capturePositionSeen.insert icao capture
        | none => p.capturePositionSeen.erase icao }

/-- The published fields and the position of a message that was decoded. -/
def mergeDecoded (p : PacketPipeline κ φ γ) (icao : Address) (change : φ → φ)
    (mm : ModesMessage μ) (capture : Option CaptureTimestamp) (cprTime : CprTimestamp) :
    PacketPipeline κ φ γ :=
  let prior := p.priorPosition icao cprTime mm.sysTimestampMsg
  let (cpr, position) := D.submit p.cpr icao mm.body prior p.receiverPosition cprTime
  let entry := p.entryOf D icao
  { p with cpr := cpr }.locate D icao mm capture { entry with fields := change entry.fields }
    position

/-- `merge_message_at`; `now` is the processing instant. -/
def mergeMessageAt (p : PacketPipeline κ φ γ) (mm : ModesMessage μ)
    (capture : Option CaptureTimestamp) (now : ℕ) : PacketPipeline κ φ γ :=
  let cprTime := (capture.bind captureCprTime).getD (.processing now)
  let decoded := D.decode mm.body
  -- the tracker is keyed by the address that was decoded
  let addr := (decoded.map Prod.fst).getD mm.addr
  let p := p.makeRoom walk addr cprTime mm.sysTimestampMsg
  let p := p.track addr mm.sysTimestampMsg capture
  match decoded with
  | none => p
  | some (icao, change) => p.mergeDecoded D icao change mm capture cprTime

/-! ## Section 3: Expiry -/

/-- Age by capture time. -/
def captureAge (p : PacketPipeline κ φ γ) (capture : Option CaptureTimestamp) : Option ℕ := do
  let seen ← capture.bind captureCprTime
  let current ← p.captureNow
  current.checkedDurationSince seen

/-- The aircraft is still to be tracked. -/
def fresh (p : PacketPipeline κ φ γ) (cutoffMs : ℕ) (icao : Address) (state : AircraftState) :
    Bool :=
  match p.captureAge (p.captureSeen.get? icao) with
  | some age => decide (age ≤ STALE_AIRCRAFT_MS * 1000000)
  | none => decide (cutoffMs ≤ state.lastSeenMs)

/-- Counts from the tracker, and no stale position. -/
def refresh (p : PacketPipeline κ φ γ) (tracker : Tracker) (cutoffMs : ℕ) (icao : Address)
    (entry : AircraftTelemetry κ φ) : AircraftTelemetry κ φ :=
  match tracker.get? icao with
  | none => entry
  | some state =>
    let entry := { entry with msgCount := state.msgCount, lastSeenMs := state.lastSeenMs }
    let stale := match p.captureAge (p.capturePositionSeen.get? icao) with
      | some age => decide (STALE_AIRCRAFT_MS * 1000000 < age)
      | none => entry.positionSeenMs.all fun seen => decide (seen < cutoffMs)
    if stale then { entry with lat := none, lon := none } else entry

/-- What is published of one aircraft, if it is not idle for too long. -/
def published (p : PacketPipeline κ φ γ) (now : Now) (icao : Address)
    (entry : AircraftTelemetry κ φ) : Option (AircraftTelemetry κ φ) :=
  let idle := (p.captureObservedAt.map (now.instant - ·)).getD 0
  let seen := (p.captureAge (p.captureSeen.get? icao)).map (· + idle)
  let positionSeen := (p.captureAge (p.capturePositionSeen.get? icao)).map (· + idle)
  if seen.any fun age => decide (STALE_AIRCRAFT_MS * 1000000 < age) then none
  else
    let entry := match seen with
      | some age => { entry with lastSeenMs := now.ms - age / 1000000 }
      | none => entry
    some (match positionSeen with
      | some age =>
        let entry := { entry with positionSeenMs := some (now.ms - age / 1000000) }
        if STALE_AIRCRAFT_MS * 1000000 < age then { entry with lat := none, lon := none }
        else entry
      | none => entry)

/-- `prune_and_publish_at`, and the snapshot. -/
def pruneAndPublish (p : PacketPipeline κ φ γ) (now : Now) :
    PacketPipeline κ φ γ × List (AircraftTelemetry κ φ) :=
  let cutoffMs := now.ms - STALE_AIRCRAFT_MS
  let tracker := p.tracker.filter (p.fresh cutoffMs)
  let aircraft := (p.aircraft.filter fun icao _ => tracker.contains icao).mapValues
    (p.refresh tracker cutoffMs)
  let p := { p with
    lastPublish := now.instant
    blocksSincePublish := 0
    tracker := tracker
    aircraft := aircraft
    captureSeen := p.captureSeen.filter fun icao _ => tracker.contains icao
    capturePositionSeen := p.capturePositionSeen.filter fun icao _ => tracker.contains icao }
  (p, aircraft.entries.filterMap fun e => p.published now e.1 e.2)

/-! ## Section 4: Blocks -/

/-- No position is known any more. -/
def clearPosition (_icao : Address) (entry : AircraftTelemetry κ φ) : AircraftTelemetry κ φ :=
  { entry with lat := none, lon := none, positionSeenMs := none, positionOrigin := none }

def resetAfterIncompatibleClock (p : PacketPipeline κ φ γ) : PacketPipeline κ φ γ :=
  { p with
    continuity := none
    cpr := D.cpr
    lastCaptureClock := none
    nextCapture := none
    captureNow := none
    captureObservedAt := none
    capturePositionSeen := BTreeMap.empty
    aircraft := p.aircraft.mapValues clearPosition }

/-- The two clocks count the samples of one acquisition. -/
def sameAcquisition (clock clock' : CaptureClock) : Bool :=
  clock.epoch = clock'.epoch && clock.sourceSampleRateHz = clock'.sourceSampleRateHz &&
    clock.sampleStride = clock'.sampleStride && clock.originUnixNs = clock'.originUnixNs

/-- The block lies ahead in the acquisition that the last one belonged to. -/
def forwardAcquisition (p : PacketPipeline κ φ γ) (block : SampleBlock α) : Bool :=
  let clock := block.captureClock
  decide (clock.epoch ≠ 0) && p.nextCapture.any fun next =>
    (checkedSub block.startSample next.1).any fun gap =>
      (offsetSamples next.2.1 gap).any fun expected =>
        next.2.2 = block.centerFreqHz && sameAcquisition expected clock &&
          expected.sourceSampleIndex = clock.sourceSampleIndex

/-- After a break of the stream: a new epoch forgets everything, a gap that is not a known
    loss of samples forgets the positions. -/
def breakStream (p : PacketPipeline κ φ γ) (block : SampleBlock α) : PacketPipeline κ φ γ :=
  if p.lastCaptureClock.any fun previous => !sameAcquisition previous block.captureClock then
    { p with
      cpr := D.cpr
      tracker := BTreeMap.empty
      aircraft := BTreeMap.empty
      captureSeen := BTreeMap.empty
      capturePositionSeen := BTreeMap.empty }
  else if p.forwardAcquisition block then p
  else { p with
    cpr := D.cpr
    aircraft := p.aircraft.mapValues clearPosition
    capturePositionSeen := BTreeMap.empty }

/-- Continuity, clocks and times of a block. -/
def enterBlock (p : PacketPipeline κ φ γ) (block : SampleBlock α) (now : ℕ) :
    PacketPipeline κ φ γ :=
  let clock := block.captureClock
  let observed := observe p.continuity block
  { if observed.1 then p else p.breakStream D block with
    continuity := observed.2
    lastCaptureClock := some clock
    nextCapture := do
      let sample ← checkedAdd block.startSample block.samples.length
      let clock ← offsetSamples clock block.samples.length
      return (sample, clock, block.centerFreqHz)
    captureObservedAt := some now
    captureNow := (messageTimestamp2400 clock (block.samples.length * 5)).bind captureCprTime }

/-- Every so many blocks a snapshot is published. -/
def countBlock (p : PacketPipeline κ φ γ) (now : Now) :
    PacketPipeline κ φ γ × List (AircraftTelemetry κ φ) :=
  let p := { p with blocksSincePublish := p.blocksSincePublish + 1 }
  if PUBLISH_EVERY_N_BLOCKS ≤ p.blocksSincePublish then p.pruneAndPublish now
  else (p, [])

/-- The capture time of a message, from its place in the block. -/
def messageCapture (block : SampleBlock α) (mm : ModesMessage μ) : Option CaptureTimestamp :=
  -- `saturating_mul`
  let start : ℕ := min (block.startSample * 5) (2 ^ 64 - 1)
  (messageTimestamp2400 block.captureClock (mm.timestampMsg - start)).filter
    fun capture => capture.relativeTimeNs.isSome

/-- The messages of a block; those without a capture time are left out. -/
def mergeMessages (p : PacketPipeline κ φ γ) (block : SampleBlock α) (now : ℕ)
    (messages : List (ModesMessage μ)) : PacketPipeline κ φ γ :=
  messages.foldl (fun p mm =>
    match messageCapture block mm with
    | some capture => p.mergeMessageAt D walk mm (some capture) now
    | none => p) p

/-- `process_block`, with the messages that the demodulator finds, and what is published. -/
def processBlock (p : PacketPipeline κ φ γ) (block : SampleBlock α)
    (messages : List (ModesMessage μ)) (now : Now) :
    PacketPipeline κ φ γ × List (AircraftTelemetry κ φ) :=
  let clock := block.captureClock
  if clock.sampleStride = 0 ∨
      clock.sourceSampleRateHz ≠ ADSB_SAMPLE_RATE_HZ * clock.sampleStride ∨
      block.sampleRateHz ≠ ADSB_SAMPLE_RATE_HZ then
    (p.resetAfterIncompatibleClock D, [])
  else
    let p := (p.enterBlock D block now.instant).mergeMessages D walk block now.instant messages
    p.countBlock now

end PacketPipeline

/-! ## Section 5: The bounds -/

/-- At most 4096 aircraft, and no map knows more of them than the tracker. -/
structure Tracked (p : PacketPipeline κ φ γ) : Prop where
  bounded             : p.tracker.size ≤ MAX_TRACKED
  aircraft            : BTreeMap.KeysIn p.aircraft p.tracker
  captureSeen         : BTreeMap.KeysIn p.captureSeen p.tracker
  capturePositionSeen : BTreeMap.KeysIn p.capturePositionSeen p.tracker

variable (D : Decoders μ κ φ γ) (walk : Walk) {p : PacketPipeline κ φ γ}

theorem new_tracked (now : ℕ) : Tracked (PacketPipeline.new D now) where
  bounded := Nat.zero_le _
  aircraft := BTreeMap.keysIn_empty
  captureSeen := BTreeMap.keysIn_empty
  capturePositionSeen := BTreeMap.keysIn_empty

theorem Tracked.forget (h : Tracked p) (icao : Address) : Tracked (p.forget icao) where
  bounded := (p.tracker.size_erase_le icao).trans h.bounded
  aircraft := h.aircraft.erase_both icao
  captureSeen := h.captureSeen.erase_both icao
  capturePositionSeen := h.capturePositionSeen.erase_both icao

/-- A tracker that is not empty has an oldest aircraft, and it is one of its own. -/
theorem exists_oldest (hne : 0 < p.tracker.size) (cprTime : CprTimestamp) (nowMs : ℕ) :
    ∃ icao state, p.oldest walk cprTime nowMs = some icao ∧
      p.tracker.get? icao = some state := by
  obtain ⟨e, he⟩ := List.exists_mem_of_length_pos hne
  have hwalk : (walk.order p.tracker).reverse ≠ [] :=
    List.ne_nil_of_mem (List.mem_reverse.2 ((walk.complete _ e).2 he))
  obtain ⟨⟨icao, state⟩, hmax⟩ := Option.isSome_iff_exists.1
    ((List.isSome_maxOn?_iff (f := p.age cprTime nowMs)).2 hwalk)
  have hmem := (walk.complete _ _).1 (List.mem_reverse.1 (List.maxOn?_mem hmax))
  exact ⟨icao, state, by rw [PacketPipeline.oldest, hmax]; rfl, p.tracker.mem_entries.1 hmem⟩

/-- **Room is made** before an address is added. -/
theorem makeRoom_tracked (h : Tracked p) (addr : Address) (cprTime : CprTimestamp)
    (nowMs : ℕ) :
    Tracked (p.makeRoom walk addr cprTime nowMs) ∧
      ((p.makeRoom walk addr cprTime nowMs).tracker.contains addr = true ∨
        (p.makeRoom walk addr cprTime nowMs).tracker.size < MAX_TRACKED) := by
  unfold PacketPipeline.makeRoom
  split
  next hfull =>
    have hpos : 0 < p.tracker.size := lt_of_lt_of_le (by decide) hfull.2
    obtain ⟨icao, state, holdest, hstate⟩ := exists_oldest walk hpos cprTime nowMs
    have hsize := p.tracker.size_erase_of_mem hstate
    have hbounded := h.bounded
    rw [holdest]
    refine ⟨h.forget icao, .inr ?_⟩
    show (p.tracker.erase icao).size < MAX_TRACKED
    omega
  next hroom =>
    refine ⟨h, ?_⟩
    by_cases hknown : p.tracker.contains addr = true
    · exact .inl hknown
    · rw [Bool.not_eq_true] at hknown
      exact .inr (Nat.lt_of_not_le fun hle => hroom ⟨hknown, hle⟩)

theorem contains_updateFromMessage (tracker : Tracker) (addr : Address) (sysTimestampMsg : ℕ) :
    (updateFromMessage tracker addr sysTimestampMsg).contains addr = true :=
  BTreeMap.contains_insert.2 (.inl rfl)

theorem track_tracked (h : Tracked p) {addr : Address}
    (hroom : p.tracker.contains addr = true ∨ p.tracker.size < MAX_TRACKED) (nowMs : ℕ)
    (capture : Option CaptureTimestamp) :
    Tracked (p.track addr nowMs capture) ∧
      (p.track addr nowMs capture).tracker.contains addr = true := by
  have hknown := contains_updateFromMessage p.tracker addr nowMs
  refine ⟨⟨?_, h.aircraft.insert_right addr _, ?_, h.capturePositionSeen.insert_right addr _⟩,
    hknown⟩
  · show (updateFromMessage p.tracker addr nowMs).size ≤ MAX_TRACKED
    unfold updateFromMessage
    cases hstate : p.tracker.get? addr with
    | some state =>
      rw [p.tracker.size_insert_of_mem hstate]
      exact h.bounded
    | none =>
      rw [p.tracker.size_insert_of_not_mem hstate]
      rcases hroom with hin | hlt
      · rw [BTreeMap.contains, hstate] at hin
        exact absurd hin Bool.false_ne_true
      · exact hlt
  · cases capture with
    | some capture => exact (h.captureSeen.insert_right addr _).insert hknown capture
    | none => exact (h.captureSeen.insert_right addr _).erase addr

theorem Tracked.withCpr (h : Tracked p) (cpr : γ) : Tracked { p with cpr := cpr } :=
  ⟨h.bounded, h.aircraft, h.captureSeen, h.capturePositionSeen⟩

theorem locate_tracked (h : Tracked p) {icao : Address}
    (hknown : p.tracker.contains icao = true) (mm : ModesMessage μ)
    (capture : Option CaptureTimestamp) (entry : AircraftTelemetry κ φ)
    (position : Option (κ × κ)) : Tracked (p.locate D icao mm capture entry position) := by
  cases position with
  | none =>
    exact ⟨h.bounded, h.aircraft.insert hknown entry, h.captureSeen, h.capturePositionSeen⟩
  | some position =>
    refine ⟨h.bounded, h.aircraft.insert hknown _, h.captureSeen, ?_⟩
    cases capture with
    | some capture => exact h.capturePositionSeen.insert hknown capture
    | none => exact h.capturePositionSeen.erase icao

theorem mergeDecoded_tracked (h : Tracked p) {icao : Address}
    (hknown : p.tracker.contains icao = true) (change : φ → φ) (mm : ModesMessage μ)
    (capture : Option CaptureTimestamp) (cprTime : CprTimestamp) :
    Tracked (p.mergeDecoded D icao change mm capture cprTime) := by
  unfold PacketPipeline.mergeDecoded
  dsimp only
  refine locate_tracked D ?_ ?_ mm capture _ _
  · exact h.withCpr _
  · exact hknown

/-- **One message** touches the maps at its own address only, which the tracker knows by then. -/
theorem mergeMessageAt_tracked (h : Tracked p) (mm : ModesMessage μ)
    (capture : Option CaptureTimestamp) (now : ℕ) :
    Tracked (p.mergeMessageAt D walk mm capture now) := by
  unfold PacketPipeline.mergeMessageAt
  dsimp only
  obtain ⟨hmade, hroom⟩ := makeRoom_tracked walk h
    ((D.decode mm.body).map Prod.fst |>.getD mm.addr)
    ((capture.bind captureCprTime).getD (.processing now)) mm.sysTimestampMsg
  obtain ⟨htracked, hknown⟩ := track_tracked hmade hroom mm.sysTimestampMsg capture
  split
  next => exact htracked
  next icao change hdecoded =>
    rw [hdecoded] at htracked hknown ⊢
    exact mergeDecoded_tracked D htracked hknown change mm capture _

theorem mergeMessages_tracked (block : SampleBlock α) (now : ℕ)
    (messages : List (ModesMessage μ)) :
    ∀ {p : PacketPipeline κ φ γ}, Tracked p →
      Tracked (p.mergeMessages D walk block now messages) := by
  induction messages with
  | nil =>
    intro p h
    exact h
  | cons mm messages ih =>
    intro p h
    refine ih ?_
    dsimp only
    split
    · exact mergeMessageAt_tracked D walk h mm _ now
    · exact h

/-- **Expiry** is decided by the tracker, and the other maps follow. -/
theorem pruneAndPublish_tracked (h : Tracked p) (now : Now) :
    Tracked (p.pruneAndPublish now).1 where
  bounded := (p.tracker.size_filter_le _).trans h.bounded
  aircraft := (BTreeMap.keysIn_filter _ _).mapValues _
  captureSeen := BTreeMap.keysIn_filter _ _
  capturePositionSeen := BTreeMap.keysIn_filter _ _

theorem resetAfterIncompatibleClock_tracked (h : Tracked p) :
    Tracked (p.resetAfterIncompatibleClock D) where
  bounded := h.bounded
  aircraft := h.aircraft.mapValues _
  captureSeen := h.captureSeen
  capturePositionSeen := BTreeMap.keysIn_empty

theorem breakStream_tracked (h : Tracked p) (block : SampleBlock α) :
    Tracked (p.breakStream D block) := by
  unfold PacketPipeline.breakStream
  split
  · exact ⟨Nat.zero_le _, BTreeMap.keysIn_empty, BTreeMap.keysIn_empty, BTreeMap.keysIn_empty⟩
  · split
    · exact h
    · exact ⟨h.bounded, h.aircraft.mapValues _, h.captureSeen, BTreeMap.keysIn_empty⟩

theorem enterBlock_tracked (h : Tracked p) (block : SampleBlock α) (now : ℕ) :
    Tracked (p.enterBlock D block now) := by
  have hbroken : Tracked (if (observe p.continuity block).1 then p else
      p.breakStream D block) := by
    split
    · exact h
    · exact breakStream_tracked D h block
  exact ⟨hbroken.bounded, hbroken.aircraft, hbroken.captureSeen, hbroken.capturePositionSeen⟩

theorem countBlock_tracked (h : Tracked p) (now : Now) : Tracked (p.countBlock now).1 := by
  have hcounted : Tracked { p with blocksSincePublish := p.blocksSincePublish + 1 } :=
    ⟨h.bounded, h.aircraft, h.captureSeen, h.capturePositionSeen⟩
  unfold PacketPipeline.countBlock
  dsimp only
  split
  · exact pruneAndPublish_tracked hcounted now
  · exact hcounted

/-- A block, whatever messages are found in it. -/
theorem processBlock_tracked (h : Tracked p) (block : SampleBlock α)
    (messages : List (ModesMessage μ)) (now : Now) :
    Tracked (p.processBlock D walk block messages now).1 := by
  unfold PacketPipeline.processBlock
  dsimp only
  split
  · exact resetAfterIncompatibleClock_tracked D h
  · have hentered := enterBlock_tracked D h block now.instant
    exact countBlock_tracked (mergeMessages_tracked D walk block now.instant messages hentered) now

/-! ## Section 6: Runs -/

inductive Input (α μ κ : Type*) where
  /-- A block, with the messages found in it. -/
  | block (block : SampleBlock α) (messages : List (ModesMessage μ)) (now : Now)
  /-- A message that comes without a block, of no capture time. -/
  | message (mm : ModesMessage μ) (now : Now)
  /-- A second has gone by. -/
  | publish (now : Now)
  | receiverPosition (position : Option (κ × κ))

/-- The pipeline and its clock; the output is what is published. -/
def machine (start : ℕ) :
    Machine (PacketPipeline κ φ γ) (Input α μ κ) (List (AircraftTelemetry κ φ)) where
  init := PacketPipeline.new D start
  step p
    | .block block messages now => some (p.processBlock D walk block messages now)
    | .message mm now =>
      some ({ p with captureNow := none, captureObservedAt := none }.mergeMessageAt D walk mm none
        now.instant, [])
    | .publish now => some (p.pruneAndPublish now)
    | .receiverPosition position => some (p.setReceiverPosition D position, [])

/-- **The table stays bounded.** In every run the tracker has at most 4096 aircraft, and the
    keys of every other map are keys of the tracker. -/
theorem table_bounds (start : ℕ) (is : List (Input α μ κ)) :
    ∃ t h, (machine D walk start).run (PacketPipeline.new D start) is = some (t, h) ∧
      Tracked t ∧ ∀ e ∈ h, Tracked e.after := by
  obtain ⟨t, h, hrun, htracked, hsteps⟩ := (machine (α := α) D walk start).run_safe_steps
    (P := fun _ p => Tracked p) (Q := fun _ e => Tracked e.after) (I := fun _ => True)
    (new_tracked D start)
    (by
      intro h p i hp _
      cases i with
      | block block messages now =>
        have hnext := processBlock_tracked D walk hp block messages now
        exact ⟨_, _, rfl, hnext, hnext⟩
      | message mm now =>
        have hidle : Tracked { p with captureNow := none, captureObservedAt := none } :=
          ⟨hp.bounded, hp.aircraft, hp.captureSeen, hp.capturePositionSeen⟩
        have hnext := mergeMessageAt_tracked D walk hidle mm none now.instant
        exact ⟨_, _, rfl, hnext, hnext⟩
      | publish now =>
        have hnext := pruneAndPublish_tracked hp now
        exact ⟨_, _, rfl, hnext, hnext⟩
      | receiverPosition position =>
        have hnext : Tracked (p.setReceiverPosition D position) :=
          ⟨hp.bounded, hp.aircraft, hp.captureSeen, hp.capturePositionSeen⟩
        exact ⟨_, _, rfl, hnext, hnext⟩)
    is (fun _ _ => trivial)
  refine ⟨t, h, hrun, htracked, fun e he => ?_⟩
  obtain ⟨past, later, heq⟩ := List.append_of_mem he
  exact hsteps past e later heq

end

end Packet
