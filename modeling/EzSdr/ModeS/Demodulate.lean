import EzSdr.Framework.Checked
import EzSdr.ModeS.Score

/-! # The Demodulator

    Mode S messages are looked for at every sample of a magnitude buffer. A
    preamble is followed by up to 112 bits of 12/5 samples each, which are
    sliced under five possible phases; the best candidate is decoded.

    **`demodulate_safe`**: no access leaves the buffer, whatever it holds and
    wherever the scan begins, and each iteration moves on. -/

namespace ModeS

open Checked

/-! ## Section 1: Slicing -/

def MODES_LONG_MSG_BYTES : ℕ := 14
def MODES_SHORT_MSG_BYTES : ℕ := 7
def MODES_MAX_BITERRORS : ℕ := 2

/-- A correlator: the sum of the first samples of `m` under the weights. -/
def correlate (weights : List ℤ) (m : List ℕ) : Checked ℤ :=
  (List.range weights.length).foldlM (fun sum k => do
    let weight ← index weights k
    let sample ← index m k
    return sum + weight * sample) 0

/-! Weights of a 1-0 pair of symbols at a phase of 0 to 4 fifths of a sample. -/

def slicePhase0 : List ℤ := [5, -3, -2]
def slicePhase1 : List ℤ := [4, -1, -3]
def slicePhase2 : List ℤ := [3, 1, -4]
def slicePhase3 : List ℤ := [2, 3, -5]
def slicePhase4 : List ℤ := [1, 5, -5, -1]

/-- How the eight bits of a byte are read that starts at some phase. -/
structure ByteSlices where
  /-- Where each bit starts, and its correlator. -/
  bits    : List (ℕ × List ℤ)
  /-- Phase of the next byte, and the whole samples up to there. -/
  next    : ℕ
  advance : ℕ

def byteSlices : ℕ → Option ByteSlices
  | 0 => some {
      bits := [(0, slicePhase0), (2, slicePhase2), (4, slicePhase4), (7, slicePhase1),
        (9, slicePhase3), (12, slicePhase0), (14, slicePhase2), (16, slicePhase4)]
      next := 1
      advance := 19 }
  | 1 => some {
      bits := [(0, slicePhase1), (2, slicePhase3), (5, slicePhase0), (7, slicePhase2),
        (9, slicePhase4), (12, slicePhase1), (14, slicePhase3), (17, slicePhase0)]
      next := 2
      advance := 19 }
  | 2 => some {
      bits := [(0, slicePhase2), (2, slicePhase4), (5, slicePhase1), (7, slicePhase3),
        (10, slicePhase0), (12, slicePhase2), (14, slicePhase4), (17, slicePhase1)]
      next := 3
      advance := 19 }
  | 3 => some {
      bits := [(0, slicePhase3), (3, slicePhase0), (5, slicePhase2), (7, slicePhase4),
        (10, slicePhase1), (12, slicePhase3), (15, slicePhase0), (17, slicePhase2)]
      next := 4
      advance := 19 }
  | 4 => some {
      bits := [(0, slicePhase4), (3, slicePhase1), (5, slicePhase3), (8, slicePhase0),
        (10, slicePhase2), (12, slicePhase4), (15, slicePhase1), (17, slicePhase3)]
      next := 0
      advance := 20 }
  | _ => none

def sliceByte (pPtr : List ℕ) (bits : List (ℕ × List ℤ)) : Checked Byte :=
  bits.foldlM (fun byte bit => do
    let p ← sliceFrom pPtr bit.1
    let value ← correlate bit.2 p
    return byte <<< 1 ||| if 0 < value then 1#8 else 0#8) 0#8

/-- `msg[i] = the_byte`. -/
def setByte (msg : Message) (i : ℕ) (theByte : Byte) : Checked Message :=
  if h : i < MODES_LONG_MSG_BYTES then .ok (Function.update msg ⟨i, h⟩ theByte) else panicked

structure Slicing where
  /-- The samples not sliced yet. -/
  pPtr  : List ℕ
  phase : ℕ
  msg   : Message

/-- One iteration of the byte loop; a phase above 4 would leave it. -/
def sliceStep (s : Slicing) (i : ℕ) : Checked Slicing :=
  match byteSlices s.phase with
  | none => return s
  | some slices => do
    let theByte ← sliceByte s.pPtr slices.bits
    let pPtr ← sliceFrom s.pPtr slices.advance
    let msg ← setByte s.msg i theByte
    return { pPtr, phase := slices.next, msg }

/-! ## Section 2: Preambles -/

/-- `true` if the first sample of each pair exceeds the second. -/
def exceeds (preamble : List ℕ) : List (ℕ × ℕ) → Checked Bool
  | [] => return true
  | (high, low) :: rest => do
    if (← index preamble low) < (← index preamble high) then exceeds preamble rest
    else return false

/-- `true` if one of the samples reaches the level. -/
def anyReaches (preamble : List ℕ) (level : ℕ) : List ℕ → Checked Bool
  | [] => return false
  | i :: rest => do
    if level ≤ (← index preamble i) then return true else anyReaches preamble level rest

def sumAt (preamble : List ℕ) (is : List ℕ) : Checked ℕ :=
  is.foldlM (fun sum i => do
    let sample ← index preamble i
    return sum + sample) 0

/-- Peaks of a preamble, and the samples that its level, its signal and its
    noise are taken from. -/
structure PreambleShape where
  peaks  : List (ℕ × ℕ)
  high   : List ℕ
  signal : List ℕ
  noise  : List ℕ

/-- Rising edge 0->1 and falling edge 12->13. -/
def EDGES : List (ℕ × ℕ) := [(1, 0), (12, 13)]

/-- Peaks at 1,3,9,11-12. -/
def PHASE_3 : PreambleShape where
  peaks  := [(1, 2), (3, 2), (3, 4), (9, 8), (9, 10), (11, 10)]
  high   := [1, 3, 9, 11, 12]
  signal := [1, 3, 9]
  noise  := [5, 6, 7]

/-- Peaks at 1,3,9,12. -/
def PHASE_4 : PreambleShape where
  peaks  := [(1, 2), (3, 2), (3, 4), (9, 8), (9, 10), (12, 11)]
  high   := [1, 3, 9, 12]
  signal := [1, 3, 9, 12]
  noise  := [5, 6, 7, 8]

/-- Peaks at 1,3-4,9-10,12. -/
def PHASE_5 : PreambleShape where
  peaks  := [(1, 2), (3, 2), (4, 5), (9, 8), (10, 11), (12, 11)]
  high   := [1, 3, 4, 9, 10, 12]
  signal := [1, 12]
  noise  := [6, 7]

/-- Peaks at 1,4,10,12. -/
def PHASE_6 : PreambleShape where
  peaks  := [(1, 2), (4, 3), (4, 5), (10, 9), (10, 11), (12, 11)]
  high   := [1, 4, 10, 12]
  signal := [1, 4, 10, 12]
  noise  := [5, 6, 7, 8]

/-- Peaks at 1-2,4,10,12. -/
def PHASE_7 : PreambleShape where
  peaks  := [(2, 3), (4, 3), (4, 5), (10, 9), (10, 11), (12, 11)]
  high   := [1, 2, 4, 10, 12]
  signal := [4, 10, 12]
  noise  := [6, 7, 8]

def SHAPES : List PreambleShape := [PHASE_3, PHASE_4, PHASE_5, PHASE_6, PHASE_7]

/-- Quiet bits. -/
def QUIET : List ℕ := [5, 6, 7, 8, 14, 15, 16, 17, 18]

/-- The first shape whose peaks are there. -/
def matchShape (preamble : List ℕ) : List PreambleShape → Checked (Option PreambleShape)
  | [] => return none
  | shape :: rest => do
    if ← exceeds preamble shape.peaks then return some shape else matchShape preamble rest

/-- Peaks, a signal about 3.5 dB above the noise, and quiet bits that are quiet. -/
def isPreamble (preamble : List ℕ) : Checked Bool := do
  if ← exceeds preamble EDGES then
    match ← matchShape preamble SHAPES with
    | none => return false
    | some shape => do
      let high ← sumAt preamble shape.high
      let baseSignal ← sumAt preamble shape.signal
      let baseNoise ← sumAt preamble shape.noise
      if baseSignal * 2 < 3 * baseNoise then return false
      else return !(← anyReaches preamble (high / 4) QUIET)
  else return false

/-! ## Section 3: The demodulator -/

def MAGBUF_DISCONTINUOUS : Word := 1#32

/-- A buffer of magnitude samples. -/
structure MagBuf where
  data            : List ℕ
  /-- Number of valid samples in `data`, including overlap. -/
  validLength     : ℕ
  valid           : validLength ≤ data.length
  overlap         : ℕ
  /-- Timestamp of the first sample, in 12 MHz ticks. -/
  sampleTimestamp : ℕ
  sysTimestamp    : ℕ
  flags           : Word
  meanPower       : ℚ

def MagBuf.samples (mag : MagBuf) : List ℕ := mag.data.take mag.validLength

/-- Where the scan ends. -/
def MagBuf.mlen (mag : MagBuf) : ℕ := mag.validLength - mag.overlap

structure DemodStats where
  demodPreambles           : ℕ
  demodRejectedBad         : ℕ
  demodRejectedUnknownIcao : ℕ
  demodAccepted            : Fin (MODES_MAX_BITERRORS + 1) → ℕ
  noisePowerSum            : ℚ
  noisePowerCount          : ℕ
  signalPowerSum           : ℚ
  signalPowerCount         : ℕ
  peakSignalPower          : ℚ
  strongSignalCount        : ℕ

/-- State of the demodulator between buffers. -/
structure Demod2400 where
  /-- End of the last decoded message in absolute 12 MHz sample-clock ticks. -/
  lastMessageEnd : ℕ
  /-- Formats of short and of long messages, one bit each. -/
  validDfShort   : Word
  validDfLong    : Word
  msg1           : Message
  msg2           : Message
  icaoFilter     : IcaoFilter
  enableDf24     : Bool
  nfixCrc        : ℕ

/-- What the clock reads: when the filter is maintained, when a candidate at a
    sample and phase is scored, and when a message at a sample is decoded. -/
structure Readings where
  started : Instant
  scored  : ℕ → ℕ → Instant
  decoded : ℕ → Instant

/-- A message as it is handed on. -/
structure Received where
  mm              : ModesMessage
  sysTimestampMsg : ℕ
  signalLevel     : ℚ

/-- Bytes of a message by the format in its first byte; 1 for no format. -/
def Demod2400.byteLen (d : Demod2400) (df : Byte) : ℕ :=
  if d.validDfLong &&& (1#32 <<< df.toNat) ≠ 0#32 then MODES_LONG_MSG_BYTES
  else if d.validDfShort &&& (1#32 <<< df.toNat) ≠ 0#32 then MODES_SHORT_MSG_BYTES
  else 1

/-- The byte loop. Bytes that are not reached keep what `msg` held. -/
def Demod2400.sliceMessage (d : Demod2400) (m : List ℕ) (j tryPhase : ℕ) (msg : Message) :
    Checked (ℕ × Message) := do
  let pPtr ← sliceFrom m (j + 19 + tryPhase / 5)
  let first ← sliceStep { pPtr, phase := tryPhase % 5, msg } 0
  let byteLen := d.byteLen (dfOf first.msg)
  let last ← (List.range (byteLen - 1)).foldlM (fun s i => sliceStep s (i + 1)) first
  return (byteLen, last.msg)

/-- The variables of the loop over the phases. -/
structure Candidate where
  msg       : Message
  bestMsg   : Message
  bestScore : ScoreRank
  bestPhase : ℤ
  stats     : DemodStats

/-- Slice and score one phase. The two buffers that a better score swaps are
    equal at that point. -/
def Demod2400.tryPhase (d : Demod2400) (m : List ℕ) (icaoFilter : IcaoFilter)
    (clock : Readings) (j : ℕ) (c : Candidate) (tryPhase : ℕ) : Checked Candidate := do
  let (byteLen, msg) ← d.sliceMessage m j tryPhase c.msg
  if byteLen = 1 then
    return { c with
      msg
      stats := { c.stats with demodRejectedBad := c.stats.demodRejectedBad + 1 } }
  else
    let score := scoreModeSMessage msg icaoFilter (clock.scored j tryPhase) d.enableDf24 d.nfixCrc
    if c.bestScore < score then
      return { c with msg, bestMsg := msg, bestScore := score, bestPhase := tryPhase }
    else return { c with msg }

/-- The variables of the scan. -/
structure Scan where
  j                    : ℕ
  msg                  : Message
  bestMsg              : Message
  icaoFilter           : IcaoFilter
  lastMessageEnd       : ℕ
  stats                : DemodStats
  sumScaledSignalPower : ℕ
  /-- Messages passed upward. -/
  messages             : List Received

def receiveclockMsElapsed (t1 t2 : ℕ) : ℕ := (t2 - t1) / 12000

/-- Sum of the squares of `n` samples from sample `i` on. -/
def signalPower (m : List ℕ) (i n : ℕ) : Checked ℕ :=
  (List.range n).foldlM (fun sum k => do
    let magv ← index m (i + k)
    return sum + magv * magv) 0

/-- Count a message of `msglen` bits at sample `s.j`, go to 8 bits before its
    end and hand it on. -/
def receive (mag : MagBuf) (s : Scan) (mm : ModesMessage) (msglen : ℕ) : Checked Scan := do
  let signalLen := msglen * 12 / 5
  let scaledSignalPower ← signalPower mag.samples (s.j + 19) signalLen
  let power : ℚ := scaledSignalPower / 65535 / 65535
  let signalLevel := power / signalLen
  let msgEnd := s.j + (msglen + 8) * 12 / 5
  return { s with
    j := msgEnd - 8 * 12 / 5 + 1
    lastMessageEnd := min (mag.sampleTimestamp + msgEnd * 5) (2 ^ 64 - 1)
    sumScaledSignalPower := s.sumScaledSignalPower + scaledSignalPower
    stats := { s.stats with
      demodAccepted :=
        if h : mm.correctedbits < MODES_MAX_BITERRORS + 1 then
          Function.update s.stats.demodAccepted ⟨mm.correctedbits, h⟩
            (s.stats.demodAccepted ⟨mm.correctedbits, h⟩ + 1)
        else s.stats.demodAccepted
      signalPowerSum := s.stats.signalPowerSum + power
      signalPowerCount := s.stats.signalPowerCount + signalLen
      peakSignalPower := max s.stats.peakSignalPower signalLevel
      strongSignalCount := s.stats.strongSignalCount + if 0.50119 < signalLevel then 1 else 0 }
    messages := s.messages ++ [{
      mm
      sysTimestampMsg :=
        mag.sysTimestamp + receiveclockMsElapsed mag.sampleTimestamp mm.timestampMsg
      signalLevel }] }

/-- Decode the best candidate at sample `s.j`. -/
def Demod2400.decode (d : Demod2400) (mag : MagBuf) (clock : Readings) (s : Scan)
    (bestScore : ScoreRank) (bestPhase : ℤ) : Checked Scan :=
  if bestScore < .acceptThreshold then
    return { s with
      j := s.j + 1
      stats :=
        if bestScore < .unknownThreshold then
          { s.stats with demodRejectedBad := s.stats.demodRejectedBad + 1 }
        else
          { s.stats with demodRejectedUnknownIcao := s.stats.demodRejectedUnknownIcao + 1 } }
  else
    -- the timestamp at the end of bit 56, adjusted for phase
    let timestamp : ℤ := mag.sampleTimestamp + s.j * 5 + (8 + 56) * 12 + bestPhase
    let decoded := decodeModeSMessage
      { (default : ModesMessage) with
        timestampMsg := (timestamp % 2 ^ 64).toNat
        score := bestScore }
      s.bestMsg s.icaoFilter (clock.decoded s.j) d.enableDf24 d.nfixCrc
    let s := { s with icaoFilter := decoded.2 }
    match decoded.1 with
    | .error _ =>
      return { s with
        j := s.j + 1
        stats := { s.stats with demodRejectedBad := s.stats.demodRejectedBad + 1 } }
    | .ok mm => receive mag s mm (modeSMessageLenByType (dfOf s.bestMsg))

/-- One iteration of the scan; `none` ends it. -/
def Demod2400.scanStep (d : Demod2400) (mag : MagBuf) (clock : Readings) (s : Scan) :
    Checked (Option Scan) :=
  if s.j < mag.mlen then do
    let preamble ← sliceFrom mag.samples s.j
    -- not enough samples left for a full long message
    if preamble.length < 290 then return none
    else if ← isPreamble preamble then
      let c ← [4, 5, 6, 7, 8].foldlM (d.tryPhase mag.samples s.icaoFilter clock s.j) {
        msg := s.msg
        bestMsg := s.bestMsg
        bestScore := .notSet
        bestPhase := -1
        stats := { s.stats with demodPreambles := s.stats.demodPreambles + 1 } }
      let s ← d.decode mag clock { s with msg := c.msg, bestMsg := c.bestMsg, stats := c.stats }
        c.bestScore c.bestPhase
      return some s
    else return some { s with j := s.j + 1 }
  else return none

/-- At most `n` iterations; `none` if the scan goes on after them. -/
def Demod2400.scan (d : Demod2400) (mag : MagBuf) (clock : Readings) :
    ℕ → Scan → Checked (Option Scan)
  | 0, _ => return none
  | n + 1, s => do
    match ← d.scanStep mag clock s with
    | none => return some s
    | some s' => d.scan mag clock n s'

/-- Where and with what the scan of a buffer begins. -/
def Demod2400.start (d : Demod2400) (mag : MagBuf) (clock : Readings) (stats : DemodStats) : Scan :=
  let lastMessageEnd :=
    if mag.flags &&& MAGBUF_DISCONTINUOUS ≠ 0#32 then 0 else d.lastMessageEnd
  { j := min ((lastMessageEnd - mag.sampleTimestamp + 4) / 5) mag.validLength
    msg := d.msg1
    bestMsg := d.msg2
    icaoFilter := d.icaoFilter.maintain clock.started
    lastMessageEnd
    stats
    sumScaledSignalPower := 0
    messages := [] }

/-- Update noise power. -/
def Demod2400.finish (d : Demod2400) (mag : MagBuf) (s : Scan) :
    Demod2400 × DemodStats × List Received :=
  let sumSignalPower : ℚ := s.sumScaledSignalPower / 65535 / 65535
  let rawNoise := mag.meanPower * mag.mlen - sumSignalPower
  ({ d with lastMessageEnd := s.lastMessageEnd, icaoFilter := s.icaoFilter },
    { s.stats with
      noisePowerSum := s.stats.noisePowerSum + max rawNoise 0
      noisePowerCount := s.stats.noisePowerCount + mag.mlen },
    s.messages)

/-- Demodulate a buffer, unless the scan takes more than `n` iterations. -/
def Demod2400.demodulate (d : Demod2400) (mag : MagBuf) (clock : Readings) (stats : DemodStats)
    (n : ℕ) : Checked (Option (Demod2400 × DemodStats × List Received)) := do
  match ← d.scan mag clock n (d.start mag clock stats) with
  | none => return none
  | some s => return some (d.finish mag s)

/-! ## Section 4: The bytes of a message -/

theorem correlate_returns {weights : List ℤ} {m : List ℕ} (h : weights.length ≤ m.length) :
    Returns (correlate weights m) fun _ => True := by
  unfold correlate
  refine returns_foldlM_range (I := fun _ _ => True) _ trivial ?_
  intro k hk sum _
  refine (returns_index hk).bind fun weight _ => ?_
  refine (returns_index (by omega)).bind fun sample _ => ?_
  exact returns_pure trivial

/-- The bits of a byte lie within 20 samples, and a byte is 96 fifths of a sample. -/
theorem byteSlices_fits {phase : ℕ} (h : phase < 5) :
    ∃ slices, byteSlices phase = some slices ∧
      (∀ bit ∈ slices.bits, bit.1 + bit.2.length ≤ 20) ∧ slices.next < 5 ∧
      slices.advance ≤ 20 ∧ 5 * slices.advance + slices.next = phase + 96 := by
  interval_cases phase
  all_goals exact ⟨_, rfl, by decide, by decide, by decide, by decide⟩

theorem sliceByte_returns {pPtr : List ℕ} {bits : List (ℕ × List ℤ)}
    (hbits : ∀ bit ∈ bits, bit.1 + bit.2.length ≤ 20) (hroom : 20 ≤ pPtr.length) :
    Returns (sliceByte pPtr bits) fun _ => True := by
  unfold sliceByte
  refine returns_foldlM (I := fun _ => True) trivial ?_
  intro bit hbit byte _
  have hfits := hbits bit hbit
  refine (returns_sliceFrom (by omega)).bind fun p hp => ?_
  refine (correlate_returns (by omega)).bind fun value _ => ?_
  exact returns_pure trivial

/-- `s` is at byte `i` of a message that is sliced at `tryPhase`, in a window
    that begins with the preamble. The position counts in fifths of a sample. -/
structure Aligned (window tryPhase i : ℕ) (s : Slicing) : Prop where
  phase    : s.phase < 5
  position : ∃ passed, passed + s.pPtr.length = window ∧
    5 * passed + s.phase = 95 + tryPhase + 96 * i

theorem sliceStep_returns {window tryPhase i : ℕ} {s : Slicing} (hs : Aligned window tryPhase i s)
    (hwindow : 290 ≤ window) (htry : tryPhase ≤ 8) (hi : i < 14) :
    Returns (sliceStep s i) (Aligned window tryPhase (i + 1)) := by
  obtain ⟨slices, hslices, hbits, hnext, hadvance, hfifths⟩ := byteSlices_fits hs.phase
  obtain ⟨passed, hwhole, hposition⟩ := hs.position
  -- byte 13 at phase 8 begins after 270 samples and needs the 20 that are left
  have hroom : 20 ≤ s.pPtr.length := by omega
  unfold sliceStep
  rw [hslices]
  refine (sliceByte_returns hbits hroom).bind fun theByte _ => ?_
  refine (returns_sliceFrom (hadvance.trans hroom)).bind fun pPtr hp => ?_
  have hset : setByte s.msg i theByte = .ok (Function.update s.msg ⟨i, hi⟩ theByte) := dif_pos hi
  rw [hset]
  refine returns_pure ⟨hnext, passed + slices.advance, ?_, ?_⟩
  · show passed + slices.advance + pPtr.length = window
    omega
  · show 5 * (passed + slices.advance) + slices.next = 95 + tryPhase + 96 * (i + 1)
    omega

theorem byteLen_le (d : Demod2400) (df : Byte) : d.byteLen df ≤ 14 := by
  unfold Demod2400.byteLen MODES_LONG_MSG_BYTES MODES_SHORT_MSG_BYTES
  split_ifs <;> omega

theorem sliceMessage_returns (d : Demod2400) {m : List ℕ} {j tryPhase : ℕ}
    (hguard : j + 290 ≤ m.length) (htry : tryPhase ≤ 8) (msg : Message) :
    Returns (d.sliceMessage m j tryPhase msg) fun _ => True := by
  have hwindow : 290 ≤ m.length - j := by omega
  unfold Demod2400.sliceMessage
  refine (returns_sliceFrom (by omega)).bind fun pPtr hp => ?_
  have hstart : Aligned (m.length - j) tryPhase 0 { pPtr, phase := tryPhase % 5, msg } := by
    refine ⟨Nat.mod_lt _ (by omega), 19 + tryPhase / 5, ?_, ?_⟩
    · show 19 + tryPhase / 5 + pPtr.length = m.length - j
      omega
    · show 5 * (19 + tryPhase / 5) + tryPhase % 5 = 95 + tryPhase + 96 * 0
      omega
  refine (sliceStep_returns hstart hwindow htry (by omega)).bind fun first hfirst => ?_
  have hlen := byteLen_le d (dfOf first.msg)
  refine (returns_foldlM_range (I := fun i => Aligned (m.length - j) tryPhase (i + 1)) _ hfirst
    ?_).bind fun last _ => returns_pure trivial
  intro i hi s hs
  exact sliceStep_returns hs hwindow htry (by omega)

theorem tryPhase_returns (d : Demod2400) {m : List ℕ} {j tryPhase : ℕ}
    (hguard : j + 290 ≤ m.length) (htry : tryPhase ≤ 8) (icaoFilter : IcaoFilter)
    (clock : Readings) (c : Candidate) :
    Returns (d.tryPhase m icaoFilter clock j c tryPhase) fun _ => True := by
  unfold Demod2400.tryPhase
  refine (sliceMessage_returns d hguard htry c.msg).bind fun sliced _ => ?_
  dsimp only
  split_ifs
  all_goals exact returns_pure trivial

/-! ## Section 5: Preambles and power -/

theorem exceeds_returns {preamble : List ℕ} {pairs : List (ℕ × ℕ)}
    (h : ∀ pair ∈ pairs, pair.1 < preamble.length ∧ pair.2 < preamble.length) :
    Returns (exceeds preamble pairs) fun _ => True := by
  induction pairs with
  | nil => exact returns_pure trivial
  | cons pair rest ih =>
    obtain ⟨high, low⟩ := pair
    have hpair := h (high, low) List.mem_cons_self
    unfold exceeds
    refine (returns_index hpair.2).bind fun below _ => ?_
    refine (returns_index hpair.1).bind fun above _ => ?_
    refine returns_ite (fun _ => ?_) (fun _ => returns_pure trivial)
    exact ih fun p hp => h p (List.mem_cons_of_mem _ hp)

theorem anyReaches_returns {preamble : List ℕ} {level : ℕ} {is : List ℕ}
    (h : ∀ i ∈ is, i < preamble.length) :
    Returns (anyReaches preamble level is) fun _ => True := by
  induction is with
  | nil => exact returns_pure trivial
  | cons i rest ih =>
    unfold anyReaches
    refine (returns_index (h i List.mem_cons_self)).bind fun sample _ => ?_
    refine returns_ite (fun _ => returns_pure trivial) (fun _ => ?_)
    exact ih fun k hk => h k (List.mem_cons_of_mem _ hk)

theorem sumAt_returns {preamble : List ℕ} {is : List ℕ} (h : ∀ i ∈ is, i < preamble.length) :
    Returns (sumAt preamble is) fun _ => True := by
  unfold sumAt
  refine returns_foldlM (I := fun _ => True) trivial ?_
  intro i hi sum _
  refine (returns_index (h i hi)).bind fun sample _ => ?_
  exact returns_pure trivial

/-- All indices of a shape are below `n`. -/
def PreambleShape.Below (n : ℕ) (shape : PreambleShape) : Prop :=
  (∀ pair ∈ shape.peaks, pair.1 < n ∧ pair.2 < n) ∧ (∀ i ∈ shape.high, i < n) ∧
    (∀ i ∈ shape.signal, i < n) ∧ ∀ i ∈ shape.noise, i < n

theorem matchShape_returns {preamble : List ℕ} {shapes : List PreambleShape}
    (h : ∀ shape ∈ shapes, shape.Below preamble.length) :
    Returns (matchShape preamble shapes) fun found =>
      ∀ shape, found = some shape → shape.Below preamble.length := by
  induction shapes with
  | nil => exact returns_pure fun shape hshape => by cases hshape
  | cons shape rest ih =>
    have hshape := h shape List.mem_cons_self
    unfold matchShape
    refine (exceeds_returns hshape.1).bind fun found _ => ?_
    refine returns_ite (fun _ => ?_) (fun _ => ?_)
    · refine returns_pure fun shape' heq => ?_
      cases heq
      exact hshape
    · exact ih fun s hs => h s (List.mem_cons_of_mem _ hs)

theorem shapes_below : ∀ shape ∈ SHAPES, shape.Below 19 := by
  unfold PreambleShape.Below
  decide

theorem PreambleShape.Below.mono {n k : ℕ} {shape : PreambleShape} (h : shape.Below n)
    (hk : n ≤ k) : shape.Below k := by
  obtain ⟨hpeaks, hhigh, hsignal, hnoise⟩ := h
  refine ⟨fun pair hp => ?_, fun i hi => ?_, fun i hi => ?_, fun i hi => ?_⟩
  · have := hpeaks pair hp
    omega
  · exact (hhigh i hi).trans_le hk
  · exact (hsignal i hi).trans_le hk
  · exact (hnoise i hi).trans_le hk

theorem isPreamble_returns {preamble : List ℕ} (h : 19 ≤ preamble.length) :
    Returns (isPreamble preamble) fun _ => True := by
  have hedges : ∀ pair ∈ EDGES, pair.1 < preamble.length ∧ pair.2 < preamble.length := by
    intro pair hp
    have hbelow : ∀ pair ∈ EDGES, pair.1 < 19 ∧ pair.2 < 19 := by decide
    have := hbelow pair hp
    omega
  have hquiet : ∀ i ∈ QUIET, i < preamble.length := by
    intro i hi
    have hbelow : ∀ i ∈ QUIET, i < 19 := by decide
    exact (hbelow i hi).trans_le h
  unfold isPreamble
  refine (exceeds_returns hedges).bind fun edges _ => ?_
  refine returns_ite (fun _ => ?_) (fun _ => returns_pure trivial)
  refine (matchShape_returns fun s hs => (shapes_below s hs).mono h).bind fun found hfound => ?_
  cases found with
  | none => exact returns_pure trivial
  | some shape =>
    obtain ⟨-, hhigh, hsignal, hnoise⟩ := hfound shape rfl
    refine (sumAt_returns hhigh).bind fun high _ => ?_
    refine (sumAt_returns hsignal).bind fun baseSignal _ => ?_
    refine (sumAt_returns hnoise).bind fun baseNoise _ => ?_
    refine returns_ite (fun _ => returns_pure trivial) (fun _ => ?_)
    refine (anyReaches_returns hquiet).bind fun loud _ => ?_
    exact returns_pure trivial

theorem signalPower_returns {m : List ℕ} {i n : ℕ} (h : i + n ≤ m.length) :
    Returns (signalPower m i n) fun _ => True := by
  unfold signalPower
  refine returns_foldlM_range (I := fun _ _ => True) _ trivial ?_
  intro k hk sum _
  refine (returns_index (by omega)).bind fun magv _ => ?_
  exact returns_pure trivial

/-! ## Section 6: The scan -/

theorem samples_length (mag : MagBuf) : mag.samples.length = mag.validLength := by
  unfold MagBuf.samples
  rw [List.length_take, min_eq_left mag.valid]

/-- A long message ends 287 samples after its preamble begins. -/
theorem receive_returns {mag : MagBuf} {s : Scan} {j : ℕ} (hj : s.j = j)
    (hguard : j + 290 ≤ mag.samples.length) (mm : ModesMessage) (df : Byte) :
    Returns (receive mag s mm (modeSMessageLenByType df)) fun s' => j < s'.j := by
  have hlen : modeSMessageLenByType df = 112 ∨ modeSMessageLenByType df = 56 := by
    unfold modeSMessageLenByType MODES_LONG_MSG_BITS MODES_SHORT_MSG_BITS
    split_ifs
    · exact Or.inl rfl
    · exact Or.inr rfl
  unfold receive
  refine (signalPower_returns (by omega)).bind fun power _ => ?_
  refine returns_pure ?_
  show j < s.j + (modeSMessageLenByType df + 8) * 12 / 5 - 8 * 12 / 5 + 1
  omega

theorem decode_returns (d : Demod2400) {mag : MagBuf} {s : Scan}
    (hguard : s.j + 290 ≤ mag.samples.length) (clock : Readings) (bestScore : ScoreRank)
    (bestPhase : ℤ) :
    Returns (d.decode mag clock s bestScore bestPhase) fun s' => s.j < s'.j := by
  unfold Demod2400.decode
  refine returns_ite (fun _ => returns_pure (Nat.lt_succ_self s.j)) (fun _ => ?_)
  dsimp only
  split
  · exact returns_pure (Nat.lt_succ_self s.j)
  · next mm _ =>
    refine receive_returns ?_ hguard mm _
    rfl

/-- From any position the iteration comes to its end, and further on. -/
theorem scanStep_returns (d : Demod2400) (mag : MagBuf) (clock : Readings) (s : Scan) :
    Returns (d.scanStep mag clock s) fun next =>
      ∀ s', next = some s' → s.j < mag.mlen ∧ s.j < s'.j := by
  have hlength := samples_length mag
  unfold Demod2400.scanStep
  refine returns_ite (fun hmore => ?_) (fun _ => ?_)
  · have hle : mag.mlen ≤ mag.validLength := Nat.sub_le _ _
    refine (returns_sliceFrom (by omega)).bind fun preamble hpreamble => ?_
    refine returns_ite (fun _ => ?_) (fun henough => ?_)
    · exact returns_pure fun s' heq => by cases heq
    · have hguard : s.j + 290 ≤ mag.samples.length := by omega
      refine (isPreamble_returns (by omega)).bind fun found _ => ?_
      refine returns_ite (fun _ => ?_) (fun _ => ?_)
      · refine (returns_foldlM (I := fun _ => True) trivial ?_).bind fun c _ => ?_
        · intro tryPhase htry c _
          have hphases : ∀ p ∈ [4, 5, 6, 7, 8], p ≤ 8 := by decide
          exact tryPhase_returns d hguard (hphases tryPhase htry) _ clock c
        · have hdecode := decode_returns
            (s := { s with msg := c.msg, bestMsg := c.bestMsg, stats := c.stats }) d hguard clock
            c.bestScore c.bestPhase
          refine hdecode.bind fun next hnext => ?_
          refine returns_pure fun s' heq => ?_
          cases heq
          exact ⟨hmore, hnext⟩
      · refine returns_pure fun s' heq => ?_
        cases heq
        exact ⟨hmore, Nat.lt_succ_self s.j⟩
  · exact returns_pure fun s' heq => by cases heq

/-- The scan ends, at the latest with the sample before `mlen`. -/
theorem scan_returns (d : Demod2400) (mag : MagBuf) (clock : Readings) (s : Scan) :
    ∃ last, ∀ n, mag.mlen - s.j < n → d.scan mag clock n s = .ok (some last) := by
  induction hleft : mag.mlen - s.j using Nat.strong_induction_on generalizing s with
  | _ left ih =>
    obtain ⟨next, hstep, hnext⟩ := scanStep_returns d mag clock s
    cases next with
    | none =>
      refine ⟨s, fun n hn => ?_⟩
      obtain ⟨k, rfl⟩ := Nat.exists_eq_add_of_lt hn
      unfold Demod2400.scan
      rw [hstep]
      rfl
    | some s' =>
      obtain ⟨hmore, hlater⟩ := hnext s' rfl
      obtain ⟨last, hlast⟩ := ih (mag.mlen - s'.j) (by omega) s' rfl
      refine ⟨last, fun n hn => ?_⟩
      obtain ⟨k, rfl⟩ := Nat.exists_eq_add_of_lt hn
      unfold Demod2400.scan
      rw [hstep]
      exact hlast _ (by omega)

/-- **No panic and no endless loop.** Whatever is in the buffer and wherever the scan stands, each
    step finds all samples it reads and ends the scan or moves it forward; so a demodulation of
    any buffer has a result, and more steps than samples do not change it. -/
theorem demodulate_safe (d : Demod2400) (mag : MagBuf) (clock : Readings) (stats : DemodStats) :
    (∀ s, ∃ next, d.scanStep mag clock s = .ok next ∧ ∀ s', next = some s' → s.j < s'.j) ∧
      ∃ result, ∀ n, mag.validLength < n → d.demodulate mag clock stats n = .ok (some result) := by
  constructor
  · intro s
    obtain ⟨next, hstep, hnext⟩ := scanStep_returns d mag clock s
    exact ⟨next, hstep, fun s' heq => (hnext s' heq).2⟩
  · obtain ⟨last, hlast⟩ := scan_returns d mag clock (d.start mag clock stats)
    refine ⟨d.finish mag last, fun n hn => ?_⟩
    have hle : mag.mlen ≤ mag.validLength := Nat.sub_le _ _
    unfold Demod2400.demodulate
    rw [hlast n (by omega)]
    rfl

end ModeS
