import EzSdr.Uat.Fec
import EzSdr.Framework.Scanner

/-! # UAT Receiver

    Looks for sync words in a stream of baseband samples, chooses the frame
    length, demodulates and corrects the frame, and goes on behind it. The
    samples still needed wait in a buffer between calls.

    The floating-point arithmetic and the interpretation of a payload are
    parameters (`Numerics`); every decision about samples is the code's.
-/

namespace Uat

/-! ## Model -/

structure Numerics where
  Sample     : Type
  Float      : Type
  Report     : Type
  /-- The phase step between two samples that are not too weak. -/
  phaseDelta : Sample → Sample → Option Float
  zero       : Float
  add        : Float → Float → Float
  divNat     : Float → Nat → Float
  half       : Float → Float
  minusOne   : Float → Float
  lt         : Float → Float → Bool
  /-- Mean power of the samples of a frame in dBFS. -/
  rssiDbfs   : List Sample → Float
  decodeAdsb : List UInt8 → Option Report

def SYNC_BITS : Nat := 36
def DOWNLINK_SYNC : Nat := 0xEACDDA4E2
def UPLINK_SYNC : Nat := 0x153225B1D

def saturatingAdd (a b : Nat) : Nat := min (a + b) (2 ^ 64 - 1)

inductive MessageKind where
  | downlinkShort | downlinkLong | uplink
deriving DecidableEq, Repr

structure UatMessage (N : Numerics) where
  kind             : MessageKind
  payload          : List UInt8
  correctedSymbols : Nat
  firstSample      : Nat
  rssiDbfs         : N.Float
  adsb             : Option N.Report

structure SampleGap where
  expectedSample : Nat
  observedSample : Nat
deriving DecidableEq, Repr

structure UatDecoder (N : Numerics) where
  samples    : List N.Sample
  baseSample : Nat
  nextSample : Nat

section Demodulation

variable {N : Numerics}

def bitDelta (samples : List N.Sample) (start bit : Nat) : Option N.Float :=
  samples[start + bit * 2]?.bind fun a =>
    samples[start + bit * 2 + 1]?.bind fun b => N.phaseDelta a b

def wordBit (word index : Nat) : Bool := word &&& (1 <<< (SYNC_BITS - index - 1)) ≠ 0

/-- The sum and the number of the deltas at which the word has the bit `b`. -/
def sumWhere (word : Nat) (b : Bool) (deltas : List N.Float) : N.Float × Nat :=
  (deltas.zipIdx.filter fun d => wordBit word d.2 == b).foldl
    (fun acc d => (N.add acc.1 d.1, acc.2 + 1)) (N.zero, 0)

def matchSync (samples : List N.Sample) (start word : Nat) : Option (Nat × N.Float) :=
  ((List.range SYNC_BITS).mapM (bitDelta samples start)).bind fun deltas =>
    let (ones, nones) := sumWhere word true deltas
    let (zeros, nzeros) := sumWhere word false deltas
    if nzeros = 0 ∨ nones = 0 then none
    else
      let threshold := N.half (N.add (N.divNat zeros nzeros) (N.divNat ones nones))
      let errors := (deltas.zipIdx.filter fun d =>
        if wordBit word d.2 then N.lt d.1 threshold else N.lt threshold d.1).length
      if errors ≤ 4 then some (errors, threshold) else none

/-- A sync word at `start`, the downlink one first. A downlink frame counts as
    short until its header is read. -/
def syncAt (samples : List N.Sample) (start : Nat) : Option (MessageKind × N.Float) :=
  [(DOWNLINK_SYNC, MessageKind.downlinkLong), (UPLINK_SYNC, MessageKind.uplink)].findSome?
    fun word => (matchSync samples start word.1).map fun found =>
      if word.2 = .uplink then (word.2, found.2) else (.downlinkShort, found.2)

def findSync (samples : List N.Sample) : Option (Nat × MessageKind × N.Float) :=
  (List.range (samples.length - SYNC_BITS * 2 + 1)).findSome? fun start =>
    (syncAt samples start).map fun found => (start, found)

def demodBytes (samples : List N.Sample) (start count : Nat) (threshold : N.Float) : List UInt8 :=
  (List.range count).map fun byteIndex =>
    (List.range 8).foldl (fun byte bitIndex =>
      let delta := (bitDelta samples start (byteIndex * 8 + bitIndex)).getD (N.minusOne threshold)
      (byte <<< 1) ||| (N.lt threshold delta).toUInt8) 0

/-- The kind of the frame at the front; `none` when its header is not there yet. -/
def frameKind (samples : List N.Sample) (kind : MessageKind) (threshold : N.Float) :
    Option MessageKind :=
  if kind = .downlinkShort then
    if samples.length < SYNC_BITS * 2 + 16 then none
    else
      let header := (demodBytes samples (SYNC_BITS * 2) 1 threshold).headD 0
      some (if header >>> 3 = 0 then .downlinkShort else .downlinkLong)
  else some kind

def payloadBytes : MessageKind → Nat
  | .downlinkShort => 30
  | .downlinkLong => 48
  | .uplink => 552

def frameBits : MessageKind → Nat
  | .downlinkShort => 240
  | .downlinkLong => 384
  | .uplink => 4416

/-- The samples of a frame with its sync word. -/
def required (kind : MessageKind) : Nat := (SYNC_BITS + frameBits kind) * 2

def correct (kind : MessageKind) (raw : List UInt8) : Option (List UInt8 × Nat) :=
  match kind with
  | .downlinkShort | .downlinkLong => correctDownlink raw
  | .uplink => correctUplink raw

def actualKind (kind : MessageKind) (payload : List UInt8) : MessageKind :=
  if kind = .downlinkLong ∧ payload.length = 18 then .downlinkShort else kind

/-- The message of a complete frame at the front of the samples. -/
def readFrame (samples : List N.Sample) (kind : MessageKind) (threshold : N.Float)
    (frameStart : Nat) : Option (UatMessage N) :=
  let raw := demodBytes samples (SYNC_BITS * 2) (payloadBytes kind) threshold
  (correct kind raw).map fun corrected =>
    { kind := actualKind kind corrected.1
      payload := corrected.1
      correctedSymbols := corrected.2
      firstSample := frameStart
      rssiDbfs := N.rssiDbfs (samples.take (required kind))
      adsb := if actualKind kind corrected.1 = .uplink then none else N.decodeAdsb corrected.1 }

end Demodulation

namespace UatDecoder

variable {N : Numerics}

def new : UatDecoder N := ⟨[], 0, 0⟩

def discardFront (decoder : UatDecoder N) (count : Nat) : UatDecoder N :=
  { decoder with
    samples := decoder.samples.drop count
    baseSample := saturatingAdd decoder.baseSample (min count decoder.samples.length) }

/-- One pass of the decoding loop: stop for lack of samples, or go on with
    what is left and perhaps a message. -/
inductive Pass (N : Numerics) where
  | stop (decoder : UatDecoder N)
  | go (decoder : UatDecoder N) (message : Option (UatMessage N))

def pass (decoder : UatDecoder N) : Pass N :=
  if decoder.samples.length < SYNC_BITS * 2 then .stop decoder
  else
    match findSync decoder.samples with
    | none =>
      -- enough for a sync word that straddles calls
      .stop (decoder.discardFront (decoder.samples.length - (SYNC_BITS * 2 - 1)))
    | some (start, kind, threshold) =>
      let decoder := if start > 0 then decoder.discardFront start else decoder
      match frameKind decoder.samples kind threshold with
      | none => .stop decoder
      | some kind =>
        if decoder.samples.length < required kind then .stop decoder
        else
          match readFrame decoder.samples kind threshold decoder.baseSample with
          | none => .go (decoder.discardFront 1) none
          | some message => .go (decoder.discardFront (required kind)) (some message)

theorem required_pos (kind : MessageKind) : 72 < required kind := by
  cases kind <;> decide

theorem discardFront_length (decoder : UatDecoder N) (count : Nat) :
    (decoder.discardFront count).samples.length = decoder.samples.length - count :=
  List.length_drop

/-- Every pass that goes on has used a sample. -/
theorem pass_go {decoder later : UatDecoder N} {message : Option (UatMessage N)}
    (h : decoder.pass = .go later message) : later.samples.length < decoder.samples.length := by
  unfold pass at h
  split at h
  · exact absurd h nofun
  next hlong =>
  have hSYNC : SYNC_BITS = 36 := rfl
  split at h
  · exact absurd h nofun
  next start kind threshold hfound =>
  dsimp only at h
  have hskip : (if start > 0 then decoder.discardFront start else decoder).samples.length ≤
      decoder.samples.length := by
    split
    · rw [discardFront_length]
      omega
    · exact Nat.le_refl _
  generalize (if start > 0 then decoder.discardFront start else decoder) = front at h hskip
  split at h
  · exact absurd h nofun
  next kind' hkind =>
  split at h
  · exact absurd h nofun
  next henough =>
  have hpos := required_pos kind'
  split at h <;> rw [Pass.go.injEq] at h <;> rw [← h.1, discardFront_length] <;> omega

/-- The loop of `decodeReady`. -/
def decodeReady (decoder : UatDecoder N) : UatDecoder N × List (UatMessage N) :=
  match _h : decoder.pass with
  | .stop rest => (rest, [])
  | .go rest message =>
    let (last, messages) := decodeReady rest
    (last, message.toList ++ messages)
termination_by decoder.samples.length
decreasing_by exact pass_go ‹_›

def pushAt (decoder : UatDecoder N) (firstSample : Nat) (input : List N.Sample) :
    UatDecoder N × List (UatMessage N) × Option SampleGap :=
  let gap := if firstSample ≠ decoder.nextSample then
    some ⟨decoder.nextSample, firstSample⟩ else none
  let decoder := if gap.isSome then ⟨[], firstSample, firstSample⟩ else decoder
  if input.isEmpty then (decoder, [], gap)
  else
    let (last, messages) := decodeReady
      { decoder with
        samples := decoder.samples ++ input
        nextSample := saturatingAdd decoder.nextSample input.length }
    (last, messages, gap)

def push (decoder : UatDecoder N) (input : List N.Sample) :
    UatDecoder N × List (UatMessage N) :=
  let (last, messages, _) := decoder.pushAt decoder.nextSample input
  (last, messages)

/-- A stream handed over in chunks. -/
def pushAll (decoder : UatDecoder N) : List (List N.Sample) → UatDecoder N × List (UatMessage N)
  | [] => (decoder, [])
  | chunk :: chunks =>
    let (next, messages) := decoder.push chunk
    let (last, later) := pushAll next chunks
    (last, messages ++ later)

end UatDecoder

end Uat
