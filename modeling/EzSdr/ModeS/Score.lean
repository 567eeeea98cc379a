import EzSdr.ModeS.Correct
import EzSdr.ModeS.IcaoFilter

/-! # Scoring and Decoding Mode S Messages

    A message candidate is corrected, ranked by how plausible it looks, and
    decoded when its rank reaches the acceptance threshold. -/

namespace ModeS

/-! ## Section 1: Ranks -/

/-- Possible scores for a Mode S message, ordered from worst to best. -/
inductive ScoreRank where
  | notSet
  | allZeros
  | unknownDf
  | uncorrectable
  /-- Cutoff for messages that might be valid, but match no known aircraft. -/
  | unknownThreshold
  | unreliableUnknown
  | df11Iid1ErrorUnknown
  | df11Acq1ErrorUnknown
  | df11IidUnknown
  | df18_2ErrorUnknown
  | df17_2ErrorUnknown
  /-- Cutoff for accepting messages. -/
  | acceptThreshold
  | unreliableKnown
  | df18_2ErrorKnown
  | df17_2ErrorKnown
  | df18_1ErrorUnknown
  | df17_1ErrorUnknown
  | df11AcqUnknown
  | df11Iid1ErrorKnown
  | df11Acq1ErrorKnown
  | df11IidKnown
  | df18_1ErrorKnown
  | df17_1ErrorKnown
  | df11AcqKnown
  | df18Unknown
  | df17Unknown
  | df18Known
  | df17Known
  deriving DecidableEq

instance : LT ScoreRank := ⟨fun a b => a.ctorIdx < b.ctorIdx⟩

instance (a b : ScoreRank) : Decidable (a < b) := inferInstanceAs (Decidable (a.ctorIdx < b.ctorIdx))

/-! ## Section 2: Identities -/

/-- The address field of a message. -/
def addressOf (msg : Message) : Word :=
  (msg 1).setWidth 32 <<< 16 ||| (msg 2).setWidth 32 <<< 8 ||| (msg 3).setWidth 32

structure ExtendedIdentity where
  key         : Word
  addressType : String
  source      : String

/-- Decode CF and the type-specific IMF of an extended squitter. -/
def df18Identity (msg : Message) : Option ExtendedIdentity :=
  if dfOf msg ≠ 18#8 then none
  else
    let address := addressOf msg
    let cf := (msg 0 &&& 7#8).toNat
    let tc := (msg 4 >>> 3).toNat
    let imf :=
      if 5 ≤ tc ∧ tc ≤ 8 then msg 6 &&& 0x08#8 ≠ 0#8
      else if tc = 0 ∨ (9 ≤ tc ∧ tc ≤ 18) ∨ (20 ≤ tc ∧ tc ≤ 22) then msg 4 &&& 1#8 ≠ 0#8
      else if tc = 19 then msg 5 &&& 0x80#8 ≠ 0#8
      else if tc = 28 ∨ tc = 31 then msg 10 &&& 1#8 ≠ 0#8
      else if tc = 29 then msg 10 &&& 0x20#8 ≠ 0#8
      else False
    let identity (nameSpace : Word) (addressType source : String) : Option ExtendedIdentity :=
      some ⟨address ||| nameSpace <<< 24, addressType, source⟩
    match cf with
    | 0 => identity 0#32 "icao_non_transponder" "adsb"
    | 1 => identity 0x10#32 "adsb_other" "adsb"
    | 2 => if imf then identity 0x11#32 "tisb_trackfile" "tisb" else identity 0#32 "icao" "tisb"
    | 5 => identity 0x12#32 "tisb_other" "tisb"
    | 6 => if imf then identity 0x13#32 "adsr_other" "adsr" else identity 0#32 "icao" "adsr"
    | _ => none

/-! ## Section 3: Scoring -/

/-- Rank of an address/parity message, whose syndrome is the address. -/
def scoreAddressParity (icaoFilter : IcaoFilter) (now : Instant) (syndrome : Word) : ScoreRank :=
  if icaoFilter.contains (syndrome &&& 0xFFFFFF#32).toFin now then .unreliableKnown
  else .unreliableUnknown

/-- Rank of an all-call reply, by interrogator identifier and corrections. -/
def scoreDf11 (icaoFilter : IcaoFilter) (now : Instant) (corrections : ℤ) (msg : Message) :
    ScoreRank :=
  let syndrome := crc24Parity (shortBytes msg)
  if syndrome &&& 0xFFFF80#32 ≠ 0#32 then .uncorrectable
  else
    let iid := syndrome &&& 0x7F#32
    let recent := icaoFilter.contains (addressOf msg &&& 0xFFFFFF#32).toFin now
    match corrections with
    | 0 =>
      if iid = 0#32 then if recent then .df11AcqKnown else .df11AcqUnknown
      else if recent then .df11IidKnown else .df11IidUnknown
    | 1 =>
      if iid = 0#32 then if recent then .df11Acq1ErrorKnown else .df11Acq1ErrorUnknown
      else if recent then .df11Iid1ErrorKnown else .df11Iid1ErrorUnknown
    | _ => .uncorrectable

/-- Rank of an extended squitter. -/
def scoreDf17 (icaoFilter : IcaoFilter) (now : Instant) (corrections : ℤ) (msg : Message) :
    ScoreRank :=
  let recent := icaoFilter.contains (addressOf msg &&& 0xFFFFFF#32).toFin now
  match corrections with
  | 0 => if recent then .df17Known else .df17Unknown
  | 1 => if recent then .df17_1ErrorKnown else .df17_1ErrorUnknown
  | 2 => if recent then .df17_2ErrorKnown else .df17_2ErrorUnknown
  | _ => .uncorrectable

/-- Rank of a non-transponder extended squitter, by its own address namespace. -/
def scoreDf18 (icaoFilter : IcaoFilter) (now : Instant) (corrections : ℤ) (msg : Message) :
    ScoreRank :=
  if (df18Identity msg).isNone then .uncorrectable
  else
    let recent := icaoFilter.contains (addressOf msg ||| 0x01000000#32).toFin now
    match corrections with
    | 0 => if recent then .df18Known else .df18Unknown
    | 1 => if recent then .df18_1ErrorKnown else .df18_1ErrorUnknown
    | 2 => if recent then .df18_2ErrorKnown else .df18_2ErrorUnknown
    | _ => .uncorrectable

/-- Rank of a corrected message by its downlink format. -/
def scoreCorrected (icaoFilter : IcaoFilter) (now : Instant) (enableDf24 : Bool)
    (corrected : ℤ × Message) : ScoreRank :=
  let (corrections, msg) := corrected
  let df := (dfOf msg).toNat
  if df = 0 ∨ df = 4 ∨ df = 5 then
    scoreAddressParity icaoFilter now (crc24Parity (shortBytes msg))
  else if df = 16 ∨ df = 20 ∨ df = 21 then
    scoreAddressParity icaoFilter now (crc24Parity msg)
  else if 24 ≤ df ∧ df ≤ 31 then
    if !enableDf24 then .uncorrectable
    else scoreAddressParity icaoFilter now (crc24Parity msg)
  else if df = 11 then scoreDf11 icaoFilter now corrections msg
  else if df = 17 then scoreDf17 icaoFilter now corrections msg
  else if df = 18 then scoreDf18 icaoFilter now corrections msg
  else .unknownDf

/-- Score how plausible a raw Mode S message looks. -/
def scoreModeSMessage (uncorrected : Message) (icaoFilter : IcaoFilter) (now : Instant)
    (enableDf24 : Bool) (maxErrors : ℕ) : ScoreRank :=
  if shortBytes uncorrected = fun _ => 0#8 then .allZeros
  else scoreCorrected icaoFilter now enableDf24 (correctMessage uncorrected maxErrors)

/-! ## Section 4: Decoding -/

/-- A decoded Mode S message; times and signal levels are filled in by the
    demodulator. -/
structure ModesMessage where
  /-- Binary message after any corrections. -/
  msg           : Message
  /-- Message as originally demodulated. -/
  verbatim      : Message
  /-- Number of bits in the message. -/
  msgbits       : ℕ
  /-- Downlink format. -/
  msgtype       : Byte
  crc           : Word
  correctedbits : ℕ
  /-- Aircraft address. -/
  addr          : Word
  /-- Timestamp of the message in 12 MHz ticks. -/
  timestampMsg  : ℕ
  score         : ScoreRank
  reliable      : Bool

instance : Inhabited ModesMessage :=
  ⟨⟨fun _ => 0#8, fun _ => 0#8, 0, 0#8, 0#32, 0, 0#32, 0, .notSet, false⟩⟩

/-- Address, checksum and filter after the fields of `msg` are decoded. -/
def decodeFields (msg : Message) (correctedbits : ℕ) (icaoFilter : IcaoFilter) (now : Instant) :
    Except ℤ (Word × Word × IcaoFilter) :=
  let df := (dfOf msg).toNat
  if df = 11 then
    let addr := addressOf msg
    let crc := crc24Parity (shortBytes msg)
    .ok (addr, crc,
      if correctedbits = 0 ∧ crc = 0#32 then icaoFilter.add addr.toFin now else icaoFilter)
  else if df = 17 then
    let addr := addressOf msg
    .ok (addr, crc24Parity msg,
      if correctedbits = 0 then icaoFilter.add addr.toFin now else icaoFilter)
  else if df = 18 then
    match df18Identity msg with
    | none => .error (-1)
    | some identity =>
      -- DF18 history authorizes only subsequent DF18 scoring.
      .ok (identity.key, crc24Parity msg,
        if correctedbits = 0 then icaoFilter.add (addressOf msg ||| 0x01000000#32).toFin now
        else icaoFilter)
  else
    let crc :=
      if modeSMessageLenByType (dfOf msg) = MODES_LONG_MSG_BITS then crc24Parity msg
      else crc24Parity (shortBytes msg)
    .ok (crc &&& 0xFFFFFF#32, crc, icaoFilter)

/-- Decode a raw Mode S message. The filter is maintained in any case. -/
def decodeModeSMessage (mm : ModesMessage) (input : Message) (icaoFilter : IcaoFilter)
    (now : Instant) (enableDf24 : Bool) (maxErrors : ℕ) : Except ℤ ModesMessage × IcaoFilter :=
  let maintained := icaoFilter.maintain now
  let score :=
    if mm.score = .notSet then scoreModeSMessage input maintained now enableDf24 maxErrors
    else mm.score
  if score < .unknownThreshold then (.error (-1), maintained)
  else if score < .acceptThreshold then (.error (-2), maintained)
  else
    let corrected := correctMessage input maxErrors
    let msg := corrected.2
    let correctedbits := min corrected.1.toNat 2
    let df := dfOf msg
    match decodeFields msg correctedbits maintained now with
    | .error e => (.error e, maintained)
    | .ok (addr, crc, icaoFilter') =>
      let reliable :=
        if df = 11#8 then
          decide (crc24Parity (shortBytes msg) &&& 0x7F#32 = 0#32 ∧ correctedbits = 0)
        else if df = 17#8 ∨ df = 18#8 then decide (correctedbits = 0)
        else false
      (.ok { mm with
        msg, verbatim := input, msgbits := modeSMessageLenByType df, msgtype := df, crc,
        correctedbits, addr, score, reliable }, icaoFilter')

/-- What the demodulator does with a message candidate: it scores the candidate
    and decodes it under that score a little later. -/
def acceptCandidate (input : Message) (icaoFilter : IcaoFilter) (scoredAt decodedAt : Instant)
    (enableDf24 : Bool) (maxErrors : ℕ) : Except ℤ ModesMessage × IcaoFilter :=
  let score := scoreModeSMessage input icaoFilter scoredAt enableDf24 maxErrors
  decodeModeSMessage { (default : ModesMessage) with score } input icaoFilter decodedAt
    enableDf24 maxErrors

end ModeS
