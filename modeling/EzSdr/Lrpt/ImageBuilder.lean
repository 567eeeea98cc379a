import EzSdr.Framework.BTreeMap

/-! # Assembling the LRPT Channel Images

    The instrument sends fourteen segments for each of three channels and a
    telemetry packet in a shared cycle of 43 packets. `ImageBuilder` unwraps
    the 14-bit packet counter of every segment around the packets it has seen,
    and from the unwrapped counter derives the scan group and the column that
    the segment belongs to.

    The code works on floating-point numbers in three places: the JPEG
    decoder, and the length of a cycle and its quotients where packets carry
    the time. `Numerics` stands for these.
-/

namespace Lrpt

/-! ## Model -/

def IMAGE_APIDS : List Nat := [64, 65, 66, 67, 68, 69]
def IMAGE_WIDTH : Nat := 1568
def SEGMENTS_PER_LINE : Nat := 14
def BLOCKS_PER_SEGMENT : Nat := 14
def SEGMENT_WIDTH : Nat := 112
def SEGMENT_HEIGHT : Nat := 8
def MAX_CHANNEL_HEIGHT : Nat := 16384
def MAX_CHANNEL_PIXELS : Nat := IMAGE_WIDTH * MAX_CHANNEL_HEIGHT
def PACKETS_PER_GROUP : Int := 43
def SEQUENCE_MODULUS : Int := 16384
def DAY_US : Int := 86400000000

structure DecodedSegment where
  mcuNumber : Nat
  pixels : List UInt8

/-- The floating-point parts of the code, for a type `π` of group periods. -/
structure Numerics (π : Type) where
  decodeSegment : List UInt8 → Option DecodedSegment
  /-- The nominal group period. -/
  groupPeriod : π
  /-- Groups elapsed in a time, rounded. -/
  elapsedGroups : π → Int → Int
  /-- The period seen in a time of several cycles, if it is plausible. -/
  observedPeriod : Int → Int → Option π

structure ScanGroup where
  segments : Fin 14 → Option (List UInt8)

def ScanGroup.default : ScanGroup := ⟨fun _ => none⟩

structure ChannelImage where
  groups : BTreeMap Int ScanGroup
  phase : Int
  latestTimedBase : Option (Int × Int)

structure SequenceClock (π : Type) where
  highest : Option Int
  latestTime : Option Int
  timedAnchors : BTreeMap Int Int
  groupPeriod : π

/-- The number nearest to a reference that a 14-bit counter can stand for. -/
def nearestSequence (sequence : Nat) (reference : Int) : Int :=
  reference + (sequence - reference + SEQUENCE_MODULUS / 2) % SEQUENCE_MODULUS
    - SEQUENCE_MODULUS / 2

/-- A big-endian number. -/
def fromBytes (bytes : List UInt8) : Nat :=
  bytes.foldl (fun n b => n * 256 + b.toNat) 0

namespace SequenceClock

variable {π : Type}

def timestamp (clock : SequenceClock π) (payload : List UInt8) : Option Int :=
  let days := fromBytes (payload.take 2)
  let millis := fromBytes ((payload.drop 2).take 4)
  let micros := fromBytes ((payload.drop 6).take 2)
  if millis ≥ 86400000 ∨ micros ≥ 1000 ∨ (days = 0 ∧ millis = 0 ∧ micros = 0) then none
  else
    let raw := days * DAY_US + millis * 1000 + micros
    match clock.latestTime with
    | some latest =>
      -- a time of day is taken on the day nearest to the latest time
      if days = 0 then some (latest + (raw - latest + DAY_US / 2) % DAY_US - DAY_US / 2)
      else some raw
    | none => some raw

def locate (n : Numerics π) (clock : SequenceClock π) (sequence : Nat) (timestamp : Option Int) :
    Int :=
  let anchor := timestamp.bind fun time =>
    (clock.timedAnchors.lastUpTo? time <|> clock.timedAnchors.firstFrom? time).map fun (t, s) =>
      nearestSequence sequence
        (s + n.elapsedGroups clock.groupPeriod (time - t) * PACKETS_PER_GROUP)
  anchor.getD (nearestSequence sequence (clock.highest.getD sequence))

def accept (clock : SequenceClock π) (absolute : Int) (time : Option Int) : SequenceClock π :=
  let clock := { clock with
    highest := some (match clock.highest with | none => absolute | some old => max old absolute) }
  match time with
  | none => clock
  | some time => { clock with
      latestTime := some (match clock.latestTime with | none => time | some old => max old time)
      timedAnchors := clock.timedAnchors.alter time fun old => some (old.getD absolute) }

end SequenceClock

structure ImageBuilder (π : Type) where
  channels : BTreeMap Nat ChannelImage
  clock : SequenceClock π
  droppedSegments : Nat

/-- An image as rows of pixels. -/
structure GrayImage where
  width : Nat
  height : Nat
  rows : List (List UInt8)
deriving DecidableEq, Repr

def GrayImage.getPixel (image : GrayImage) (x y : Nat) : Option UInt8 :=
  image.rows[y]?.bind (·[x]?)

def GrayImage.fromFn (width height : Nat) (f : Nat → Nat → UInt8) : GrayImage :=
  ⟨width, height, (List.range height).map fun y => (List.range width).map fun x => f x y⟩

namespace ChannelImage

/-- Channels whose phase wraps before the first channel's belong to the
    preceding numerical group. -/
def shift (channel : ChannelImage) (firstPhase : Int) : Int :=
  if channel.phase < firstPhase then 1 else 0

/-- Update the cycle estimate and the latest timed packet of a channel. -/
def observe {π : Type} (n : Numerics π) (channel : ChannelImage) (clock : SequenceClock π)
    (base : Int) : Option Int → ChannelImage × SequenceClock π
  | none => (channel, clock)
  | some time =>
    match channel.latestTimedBase with
    | none => ({ channel with latestTimedBase := some (time, base) }, clock)
    | some (oldTime, oldBase) =>
      let cycles := Int.tdiv (base - oldBase) PACKETS_PER_GROUP
      let period := if cycles > 0 ∧ time > oldTime then
          (n.observedPeriod (time - oldTime) cycles).getD clock.groupPeriod
        else clock.groupPeriod
      (if time > oldTime then { channel with latestTimedBase := some (time, base) } else channel,
        { clock with groupPeriod := period })

/-- The column of segments that a column of pixels lies in. -/
def columnOf (x : Nat) : Fin 14 := ⟨x / SEGMENT_WIDTH % 14, Nat.mod_lt _ (by decide)⟩

def pixel (channel : ChannelImage) (group : Int) (x row : Nat) : UInt8 :=
  match (channel.groups.get? group).bind fun g => g.segments (columnOf x) with
  | none => 0
  | some segment => segment.getD (row * SEGMENT_WIDTH + x % SEGMENT_WIDTH) 0

end ChannelImage

namespace ImageBuilder

variable {π : Type}

def new (n : Numerics π) : ImageBuilder π :=
  ⟨BTreeMap.empty, ⟨none, none, BTreeMap.empty, n.groupPeriod⟩, 0⟩

def drop (b : ImageBuilder π) : ImageBuilder π :=
  { b with droppedSegments := b.droppedSegments + 1 }

/-- The channels in the order of their APIDs. -/
def values (b : ImageBuilder π) : List ChannelImage :=
  b.channels.entries.map Prod.snd

/-- The phase of the channel that begins the cycle when `apid` is present. -/
def firstPhaseWith (b : ImageBuilder π) (apid : Nat) (phase : Int) : Int :=
  match b.channels.first? with
  | some (firstApid, channel) => if firstApid < apid then channel.phase else phase
  | none => phase

/-- The range of groups of the builder with one more candidate. -/
def spanWith (b : ImageBuilder π) (firstPhase candidate : Int) : Int × Int :=
  b.values.foldl (fun (first, last) channel =>
    ((match channel.groups.first? with
      | some (group, _) => min first (group - channel.shift firstPhase)
      | none => first),
     (match channel.groups.last? with
      | some (group, _) => max last (group - channel.shift firstPhase)
      | none => last))) (candidate, candidate)

/-- The part of `push_packet` that places a decoded segment. -/
def place (n : Numerics π) (b : ImageBuilder π) (apid sequence : Nat) (time : Option Int)
    (column : Fin 14) (pixels : List UInt8) : ImageBuilder π :=
  let absolute := b.clock.locate n sequence time
  let base := absolute - (column : Nat)
  let phase := base % PACKETS_PER_GROUP
  if (b.channels.get? apid).any fun channel => channel.phase != phase then b.drop
  else
    let rawGroup := base / PACKETS_PER_GROUP
    let firstPhase := b.firstPhaseWith apid phase
    let candidateGroup := rawGroup - if phase < firstPhase then 1 else 0
    let span := b.spanWith firstPhase candidateGroup
    let spanHeight := (span.2 - span.1 + 1).toNat * SEGMENT_HEIGHT
    if spanHeight > MAX_CHANNEL_HEIGHT ∨ spanHeight * IMAGE_WIDTH > MAX_CHANNEL_PIXELS then b.drop
    else
      let channel := (b.channels.get? apid).getD ⟨BTreeMap.empty, phase, none⟩
      let group := (channel.groups.get? rawGroup).getD .default
      if (group.segments column).isSome then
        -- a duplicate leaves the entries it has looked up
        let channel := { channel with groups := channel.groups.insert rawGroup group }
        { b with channels := b.channels.insert apid channel }
      else
        let group : ScanGroup := ⟨Function.update group.segments column (some pixels)⟩
        let channel := { channel with groups := channel.groups.insert rawGroup group }
        let observed := channel.observe n b.clock base time
        { b with
          channels := b.channels.insert apid observed.1
          clock := observed.2.accept absolute time }

def pushPacket (n : Numerics π) (b : ImageBuilder π) (apid sequence : Nat) (payload : List UInt8) :
    ImageBuilder π :=
  if apid ∉ IMAGE_APIDS then b
  else
    match n.decodeSegment payload with
    | none => b.drop
    | some segment =>
      let column := segment.mcuNumber / BLOCKS_PER_SEGMENT
      if hcolumn : column < SEGMENTS_PER_LINE then
        if (sequence : Int) ≥ SEQUENCE_MODULUS ∨ segment.mcuNumber % BLOCKS_PER_SEGMENT ≠ 0 then
          b.drop
        else b.place n apid sequence (b.clock.timestamp payload) ⟨column, hcolumn⟩ segment.pixels
      else b.drop

/-- The first and the last group of the image and the first channel's phase. -/
def bounds (b : ImageBuilder π) : Option (Int × Int × Int) :=
  match b.channels.first? with
  | none => none
  | some (_, channel) =>
    let firstPhase := channel.phase
    match b.values.mapM fun c => c.groups.first?.map fun e => e.1 - c.shift firstPhase,
      b.values.mapM fun c => c.groups.last?.map fun e => e.1 - c.shift firstPhase with
    | some firsts, some lasts =>
      match firsts.min?, lasts.max? with
      | some first, some last => some (first, last, firstPhase)
      | _, _ => none
    | _, _ => none

def render (b : ImageBuilder π) (apid : Nat) : Option GrayImage :=
  match b.channels.get? apid, b.bounds with
  | some channel, some (first, last, firstPhase) =>
    let height := (last - first + 1).toNat * SEGMENT_HEIGHT
    some (GrayImage.fromFn IMAGE_WIDTH height fun x y =>
      channel.pixel (first + (y / SEGMENT_HEIGHT : Nat) + channel.shift firstPhase) x
        (y % SEGMENT_HEIGHT))
  | _, _ => none

def renderAll (b : ImageBuilder π) : List (Nat × GrayImage) :=
  b.channels.keys.filterMap fun apid => (b.render apid).map (apid, ·)

/-- The factor that shrinks an image of this height to `maxSide` pixels. -/
def previewStep (fullHeight maxSide : Nat) : Nat :=
  max IMAGE_WIDTH fullHeight ⌈/⌉ max maxSide 1

def renderPreviews (b : ImageBuilder π) (maxSide : Nat) : List (Nat × GrayImage) :=
  match b.bounds with
  | none => []
  | some (first, last, firstPhase) =>
    let fullHeight := (last - first + 1).toNat * SEGMENT_HEIGHT
    let step := previewStep fullHeight maxSide
    let width := IMAGE_WIDTH ⌈/⌉ step
    let height := fullHeight ⌈/⌉ step
    b.channels.entries.map fun (apid, channel) =>
      (apid, GrayImage.fromFn width height fun x y =>
        let sourceY := y * step
        channel.pixel (first + (sourceY / SEGMENT_HEIGHT : Nat) + channel.shift firstPhase)
          (x * step) (sourceY % SEGMENT_HEIGHT))

def totalSegmentCount (b : ImageBuilder π) : Nat :=
  (b.values.map fun channel => (channel.groups.entries.map fun (_, group) =>
    (List.finRange 14).countP fun column => (group.segments column).isSome).sum).sum

end ImageBuilder

end Lrpt
