import EzSdr.Framework.MergeTree

/-! # Statistics of the Receiver

    `Stats::add` merges the statistics of two intervals: counters are summed,
    and what cannot be summed is taken from the interval that ended last.

    The end of the merged interval is stored before the adaptive data are
    chosen, so an interval that ended later but did not start later loses
    them. **`order_independent_iff`**: merging in any order and grouping gives
    the same result exactly when the adaptive data of every interval but the
    earliest are those of the one that ended last. -/

namespace ReceiverStats

/-! ## Section 1: Statistics of an interval -/

def MAX_BITERRORS : ℕ := 2

def DF_COUNT : ℕ := 32

def RANGE_BUCKET_COUNT : ℕ := 76

def GAIN_COUNT : ℕ := 64

def SIGNAL_HISTOGRAM_BINS : ℕ := 32

def RATE_HISTORY_SECONDS : ℕ := 60

structure Stats where
  startMs                   : ℕ
  endMs                     : ℕ
  demodPreambles            : ℕ
  demodRejectedBad          : ℕ
  demodRejectedUnknownIcao  : ℕ
  demodAccepted             : Fin (MAX_BITERRORS + 1) → ℕ
  demodModeac               : ℕ
  samplesProcessed          : ℕ
  samplesDropped            : ℕ
  sdrGain                   : ℤ
  /-- CPU times, in nanoseconds. -/
  demodCpu                  : ℕ
  readerCpu                 : ℕ
  backgroundCpu             : ℕ
  noisePowerSum             : ℚ
  noisePowerCount           : ℕ
  signalPowerSum            : ℚ
  signalPowerCount          : ℕ
  peakSignalPower           : ℚ
  strongSignalCount         : ℕ
  remoteReceivedModeac      : ℕ
  remoteReceivedModes       : ℕ
  remoteRejectedBad         : ℕ
  remoteRejectedUnknownIcao : ℕ
  remoteAccepted            : Fin (MAX_BITERRORS + 1) → ℕ
  messagesTotal             : ℕ
  messagesByDf              : Fin DF_COUNT → ℕ
  cprSurface                : ℕ
  cprAirborne               : ℕ
  cprGlobalOk               : ℕ
  cprGlobalBad              : ℕ
  cprGlobalSkipped          : ℕ
  cprGlobalRangeChecks      : ℕ
  cprGlobalSpeedChecks      : ℕ
  cprLocalOk                : ℕ
  cprLocalSkipped           : ℕ
  cprLocalRangeChecks       : ℕ
  cprLocalSpeedChecks       : ℕ
  cprLocalAircraftRelative  : ℕ
  cprLocalReceiverRelative  : ℕ
  cprFiltered               : ℕ
  suppressedAltitudeMessages : ℕ
  uniqueAircraft            : ℕ
  singleMessageAircraft     : ℕ
  unreliableAircraft        : ℕ
  rangeHistogram            : Fin RANGE_BUCKET_COUNT → ℕ
  signalHistogram           : Fin SIGNAL_HISTOGRAM_BINS → ℕ
  rateHistory               : Fin RATE_HISTORY_SECONDS → ℕ
  rateCursor                : ℕ
  currentSecondStart        : ℕ
  currentSecondMessages     : ℕ
  adaptiveValid             : Bool
  adaptiveGainSeconds       : Fin GAIN_COUNT → ℕ
  adaptiveLoudUndecoded     : ℕ
  adaptiveLoudDecoded       : ℕ
  adaptiveGainChanges       : ℕ
  adaptiveNoiseDbfs         : ℚ
  adaptiveRangeGainLimit    : ℤ

def Stats.default : Stats where
  startMs := 0
  endMs := 0
  demodPreambles := 0
  demodRejectedBad := 0
  demodRejectedUnknownIcao := 0
  demodAccepted _ := 0
  demodModeac := 0
  samplesProcessed := 0
  samplesDropped := 0
  sdrGain := -1
  demodCpu := 0
  readerCpu := 0
  backgroundCpu := 0
  noisePowerSum := 0
  noisePowerCount := 0
  signalPowerSum := 0
  signalPowerCount := 0
  peakSignalPower := 0
  strongSignalCount := 0
  remoteReceivedModeac := 0
  remoteReceivedModes := 0
  remoteRejectedBad := 0
  remoteRejectedUnknownIcao := 0
  remoteAccepted _ := 0
  messagesTotal := 0
  messagesByDf _ := 0
  cprSurface := 0
  cprAirborne := 0
  cprGlobalOk := 0
  cprGlobalBad := 0
  cprGlobalSkipped := 0
  cprGlobalRangeChecks := 0
  cprGlobalSpeedChecks := 0
  cprLocalOk := 0
  cprLocalSkipped := 0
  cprLocalRangeChecks := 0
  cprLocalSpeedChecks := 0
  cprLocalAircraftRelative := 0
  cprLocalReceiverRelative := 0
  cprFiltered := 0
  suppressedAltitudeMessages := 0
  uniqueAircraft := 0
  singleMessageAircraft := 0
  unreliableAircraft := 0
  rangeHistogram _ := 0
  signalHistogram _ := 0
  rateHistory _ := 0
  rateCursor := 0
  currentSecondStart := 0
  currentSecondMessages := 0
  adaptiveValid := false
  adaptiveGainSeconds _ := 0
  adaptiveLoudUndecoded := 0
  adaptiveLoudDecoded := 0
  adaptiveGainChanges := 0
  adaptiveNoiseDbfs := 0
  adaptiveRangeGainLimit := -1

/-- The start of the merged interval; zero means that nothing was recorded. -/
def mergeStart (a b : ℕ) : ℕ :=
  if a = 0 then b else if b = 0 then a else min a b

/-- `other` is newer: it ended later, or it ended at the same time and started later. -/
def isNewer (endMs startMs otherEnd otherStart : ℕ) : Prop :=
  endMs < otherEnd ∨ (otherEnd = endMs ∧ startMs < otherStart)

instance (endMs startMs otherEnd otherStart : ℕ) :
    Decidable (isNewer endMs startMs otherEnd otherStart) :=
  inferInstanceAs (Decidable (_ ∨ _))

/-- Merge `other` into `self`. -/
def Stats.add (self other : Stats) : Stats :=
  let startMs := mergeStart self.startMs other.startMs
  -- the start is merged already, the end is not
  let newer := if isNewer self.endMs startMs other.endMs other.startMs then other else self
  let endMs := newer.endMs
  -- now the end is merged too, and compared with again
  let adaptive :=
    if self.adaptiveValid = true ∧ other.adaptiveValid = true then
      if isNewer endMs startMs other.endMs other.startMs then other else self
    else if self.adaptiveValid then self
    else other
  { startMs := startMs
    endMs := endMs
    demodPreambles := self.demodPreambles + other.demodPreambles
    demodRejectedBad := self.demodRejectedBad + other.demodRejectedBad
    demodRejectedUnknownIcao := self.demodRejectedUnknownIcao + other.demodRejectedUnknownIcao
    demodAccepted i := self.demodAccepted i + other.demodAccepted i
    demodModeac := self.demodModeac + other.demodModeac
    samplesProcessed := self.samplesProcessed + other.samplesProcessed
    samplesDropped := self.samplesDropped + other.samplesDropped
    sdrGain := newer.sdrGain
    demodCpu := self.demodCpu + other.demodCpu
    readerCpu := self.readerCpu + other.readerCpu
    backgroundCpu := self.backgroundCpu + other.backgroundCpu
    noisePowerSum := self.noisePowerSum + other.noisePowerSum
    noisePowerCount := self.noisePowerCount + other.noisePowerCount
    signalPowerSum := self.signalPowerSum + other.signalPowerSum
    signalPowerCount := self.signalPowerCount + other.signalPowerCount
    peakSignalPower := max self.peakSignalPower other.peakSignalPower
    strongSignalCount := self.strongSignalCount + other.strongSignalCount
    remoteReceivedModeac := self.remoteReceivedModeac + other.remoteReceivedModeac
    remoteReceivedModes := self.remoteReceivedModes + other.remoteReceivedModes
    remoteRejectedBad := self.remoteRejectedBad + other.remoteRejectedBad
    remoteRejectedUnknownIcao := self.remoteRejectedUnknownIcao + other.remoteRejectedUnknownIcao
    remoteAccepted i := self.remoteAccepted i + other.remoteAccepted i
    messagesTotal := self.messagesTotal + other.messagesTotal
    messagesByDf i := self.messagesByDf i + other.messagesByDf i
    cprSurface := self.cprSurface + other.cprSurface
    cprAirborne := self.cprAirborne + other.cprAirborne
    cprGlobalOk := self.cprGlobalOk + other.cprGlobalOk
    cprGlobalBad := self.cprGlobalBad + other.cprGlobalBad
    cprGlobalSkipped := self.cprGlobalSkipped + other.cprGlobalSkipped
    cprGlobalRangeChecks := self.cprGlobalRangeChecks + other.cprGlobalRangeChecks
    cprGlobalSpeedChecks := self.cprGlobalSpeedChecks + other.cprGlobalSpeedChecks
    cprLocalOk := self.cprLocalOk + other.cprLocalOk
    cprLocalSkipped := self.cprLocalSkipped + other.cprLocalSkipped
    cprLocalRangeChecks := self.cprLocalRangeChecks + other.cprLocalRangeChecks
    cprLocalSpeedChecks := self.cprLocalSpeedChecks + other.cprLocalSpeedChecks
    cprLocalAircraftRelative := self.cprLocalAircraftRelative + other.cprLocalAircraftRelative
    cprLocalReceiverRelative := self.cprLocalReceiverRelative + other.cprLocalReceiverRelative
    cprFiltered := self.cprFiltered + other.cprFiltered
    suppressedAltitudeMessages :=
      self.suppressedAltitudeMessages + other.suppressedAltitudeMessages
    uniqueAircraft := self.uniqueAircraft + other.uniqueAircraft
    singleMessageAircraft := self.singleMessageAircraft + other.singleMessageAircraft
    unreliableAircraft := self.unreliableAircraft + other.unreliableAircraft
    rangeHistogram i := self.rangeHistogram i + other.rangeHistogram i
    signalHistogram i := self.signalHistogram i + other.signalHistogram i
    rateHistory := newer.rateHistory
    rateCursor := newer.rateCursor
    currentSecondStart := newer.currentSecondStart
    currentSecondMessages := newer.currentSecondMessages
    adaptiveValid := adaptive.adaptiveValid
    adaptiveGainSeconds i := self.adaptiveGainSeconds i + other.adaptiveGainSeconds i
    adaptiveLoudUndecoded := self.adaptiveLoudUndecoded + other.adaptiveLoudUndecoded
    adaptiveLoudDecoded := self.adaptiveLoudDecoded + other.adaptiveLoudDecoded
    adaptiveGainChanges := self.adaptiveGainChanges + other.adaptiveGainChanges
    adaptiveNoiseDbfs := adaptive.adaptiveNoiseDbfs
    adaptiveRangeGainLimit := adaptive.adaptiveRangeGainLimit }

/-! ## Section 2: What is summed -/

/-- Counters and histogram bins. -/
inductive Counter where
  | demodPreambles
  | demodRejectedBad
  | demodRejectedUnknownIcao
  | demodAccepted (i : Fin (MAX_BITERRORS + 1))
  | demodModeac
  | samplesProcessed
  | samplesDropped
  | demodCpu
  | readerCpu
  | backgroundCpu
  | noisePowerCount
  | signalPowerCount
  | strongSignalCount
  | remoteReceivedModeac
  | remoteReceivedModes
  | remoteRejectedBad
  | remoteRejectedUnknownIcao
  | remoteAccepted (i : Fin (MAX_BITERRORS + 1))
  | messagesTotal
  | messagesByDf (i : Fin DF_COUNT)
  | cprSurface
  | cprAirborne
  | cprGlobalOk
  | cprGlobalBad
  | cprGlobalSkipped
  | cprGlobalRangeChecks
  | cprGlobalSpeedChecks
  | cprLocalOk
  | cprLocalSkipped
  | cprLocalRangeChecks
  | cprLocalSpeedChecks
  | cprLocalAircraftRelative
  | cprLocalReceiverRelative
  | cprFiltered
  | suppressedAltitudeMessages
  | uniqueAircraft
  | singleMessageAircraft
  | unreliableAircraft
  | rangeHistogram (i : Fin RANGE_BUCKET_COUNT)
  | signalHistogram (i : Fin SIGNAL_HISTOGRAM_BINS)
  | adaptiveGainSeconds (i : Fin GAIN_COUNT)
  | adaptiveLoudUndecoded
  | adaptiveLoudDecoded
  | adaptiveGainChanges

/-- The value of a counter. -/
def Counter.of (s : Stats) : Counter → ℕ
  | demodPreambles => s.demodPreambles
  | demodRejectedBad => s.demodRejectedBad
  | demodRejectedUnknownIcao => s.demodRejectedUnknownIcao
  | demodAccepted i => s.demodAccepted i
  | demodModeac => s.demodModeac
  | samplesProcessed => s.samplesProcessed
  | samplesDropped => s.samplesDropped
  | demodCpu => s.demodCpu
  | readerCpu => s.readerCpu
  | backgroundCpu => s.backgroundCpu
  | noisePowerCount => s.noisePowerCount
  | signalPowerCount => s.signalPowerCount
  | strongSignalCount => s.strongSignalCount
  | remoteReceivedModeac => s.remoteReceivedModeac
  | remoteReceivedModes => s.remoteReceivedModes
  | remoteRejectedBad => s.remoteRejectedBad
  | remoteRejectedUnknownIcao => s.remoteRejectedUnknownIcao
  | remoteAccepted i => s.remoteAccepted i
  | messagesTotal => s.messagesTotal
  | messagesByDf i => s.messagesByDf i
  | cprSurface => s.cprSurface
  | cprAirborne => s.cprAirborne
  | cprGlobalOk => s.cprGlobalOk
  | cprGlobalBad => s.cprGlobalBad
  | cprGlobalSkipped => s.cprGlobalSkipped
  | cprGlobalRangeChecks => s.cprGlobalRangeChecks
  | cprGlobalSpeedChecks => s.cprGlobalSpeedChecks
  | cprLocalOk => s.cprLocalOk
  | cprLocalSkipped => s.cprLocalSkipped
  | cprLocalRangeChecks => s.cprLocalRangeChecks
  | cprLocalSpeedChecks => s.cprLocalSpeedChecks
  | cprLocalAircraftRelative => s.cprLocalAircraftRelative
  | cprLocalReceiverRelative => s.cprLocalReceiverRelative
  | cprFiltered => s.cprFiltered
  | suppressedAltitudeMessages => s.suppressedAltitudeMessages
  | uniqueAircraft => s.uniqueAircraft
  | singleMessageAircraft => s.singleMessageAircraft
  | unreliableAircraft => s.unreliableAircraft
  | rangeHistogram i => s.rangeHistogram i
  | signalHistogram i => s.signalHistogram i
  | adaptiveGainSeconds i => s.adaptiveGainSeconds i
  | adaptiveLoudUndecoded => s.adaptiveLoudUndecoded
  | adaptiveLoudDecoded => s.adaptiveLoudDecoded
  | adaptiveGainChanges => s.adaptiveGainChanges

theorem Counter.of_add (a b : Stats) (c : Counter) : c.of (a.add b) = c.of a + c.of b := by
  cases c <;> rfl

/-- What is taken from one of the two intervals, the adaptive data left out. -/
structure Volatile where
  sdrGain               : ℤ
  rateHistory           : Fin RATE_HISTORY_SECONDS → ℕ
  rateCursor            : ℕ
  currentSecondStart    : ℕ
  currentSecondMessages : ℕ

def Stats.volatile (s : Stats) : Volatile :=
  ⟨s.sdrGain, s.rateHistory, s.rateCursor, s.currentSecondStart, s.currentSecondMessages⟩

/-- The adaptive noise level and range limit. -/
def Stats.adaptive (s : Stats) : ℚ × ℤ := (s.adaptiveNoiseDbfs, s.adaptiveRangeGainLimit)

/-- **Nothing else is in the statistics.** -/
theorem Stats.ext_views {a b : Stats} (hcounters : ∀ c : Counter, c.of a = c.of b)
    (hstart : a.startMs = b.startMs) (hend : a.endMs = b.endMs)
    (hnoise : a.noisePowerSum = b.noisePowerSum) (hsignal : a.signalPowerSum = b.signalPowerSum)
    (hpeak : a.peakSignalPower = b.peakSignalPower) (hvolatile : a.volatile = b.volatile)
    (hvalid : a.adaptiveValid = b.adaptiveValid) (hadaptive : a.adaptive = b.adaptive) :
    a = b := by
  obtain ⟨hlevel, hlimit⟩ := Prod.mk.inj hadaptive
  cases a
  cases b
  obtain ⟨hgain, hhistory, hcursor, hsecond, hmessages⟩ := Volatile.mk.inj hvolatile
  simp only [Stats.mk.injEq]
  exact ⟨hstart, hend, hcounters .demodPreambles, hcounters .demodRejectedBad,
    hcounters .demodRejectedUnknownIcao, funext fun i => hcounters (.demodAccepted i),
    hcounters .demodModeac, hcounters .samplesProcessed, hcounters .samplesDropped, hgain,
    hcounters .demodCpu, hcounters .readerCpu, hcounters .backgroundCpu, hnoise,
    hcounters .noisePowerCount, hsignal, hcounters .signalPowerCount, hpeak,
    hcounters .strongSignalCount, hcounters .remoteReceivedModeac, hcounters .remoteReceivedModes,
    hcounters .remoteRejectedBad, hcounters .remoteRejectedUnknownIcao,
    funext fun i => hcounters (.remoteAccepted i), hcounters .messagesTotal,
    funext fun i => hcounters (.messagesByDf i), hcounters .cprSurface, hcounters .cprAirborne,
    hcounters .cprGlobalOk, hcounters .cprGlobalBad, hcounters .cprGlobalSkipped,
    hcounters .cprGlobalRangeChecks, hcounters .cprGlobalSpeedChecks, hcounters .cprLocalOk,
    hcounters .cprLocalSkipped, hcounters .cprLocalRangeChecks, hcounters .cprLocalSpeedChecks,
    hcounters .cprLocalAircraftRelative, hcounters .cprLocalReceiverRelative,
    hcounters .cprFiltered, hcounters .suppressedAltitudeMessages, hcounters .uniqueAircraft,
    hcounters .singleMessageAircraft, hcounters .unreliableAircraft,
    funext fun i => hcounters (.rangeHistogram i), funext fun i => hcounters (.signalHistogram i),
    hhistory, hcursor, hsecond, hmessages, hvalid,
    funext fun i => hcounters (.adaptiveGainSeconds i), hcounters .adaptiveLoudUndecoded,
    hcounters .adaptiveLoudDecoded, hcounters .adaptiveGainChanges, hlevel, hlimit⟩

/-! ## Section 3: One merge -/

section Add

variable {a b : Stats}

theorem add_start (ha : a.startMs ≠ 0) (hb : b.startMs ≠ 0) :
    (a.add b).startMs = min a.startMs b.startMs := by
  show mergeStart a.startMs b.startMs = _
  rw [mergeStart, if_neg ha, if_neg hb]

/-- The end and the volatile data are those of the interval that ended later. -/
theorem add_newer (h : a.endMs < b.endMs) :
    (a.add b).endMs = b.endMs ∧ (a.add b).volatile = b.volatile := by
  have hnewer : isNewer a.endMs (mergeStart a.startMs b.startMs) b.endMs b.startMs := .inl h
  simp only [Stats.add, Stats.volatile, if_pos hnewer, and_self]

theorem not_isNewer {endMs startMs otherEnd otherStart : ℕ} (h : otherEnd < endMs) :
    ¬ isNewer endMs startMs otherEnd otherStart := by
  unfold isNewer
  omega

theorem add_older (h : b.endMs < a.endMs) :
    (a.add b).endMs = a.endMs ∧ (a.add b).volatile = a.volatile := by
  have hnewer : ¬ isNewer a.endMs (mergeStart a.startMs b.startMs) b.endMs b.startMs :=
    not_isNewer h
  simp only [Stats.add, Stats.volatile, if_neg hnewer, and_self]

variable (ha : a.adaptiveValid = true) (hb : b.adaptiveValid = true)

include ha hb in
theorem add_adaptive_older (h : b.endMs < a.endMs) :
    (a.add b).adaptiveValid = true ∧ (a.add b).adaptive = a.adaptive := by
  have hnewer : ¬ isNewer a.endMs (mergeStart a.startMs b.startMs) b.endMs b.startMs :=
    not_isNewer h
  simp only [Stats.add, Stats.adaptive, if_neg hnewer, ha, hb, and_self, if_true]

include ha hb in
/-- **The slip.** An interval that ended later keeps its adaptive data only if it started
    later as well: its end has become the end that it is compared with. -/
theorem add_adaptive_newer (hstart : a.startMs ≠ 0) (hstart' : b.startMs ≠ 0)
    (h : a.endMs < b.endMs) :
    (a.add b).adaptiveValid = true ∧
      (a.add b).adaptive = if a.startMs < b.startMs then b.adaptive else a.adaptive := by
  have hnewer : isNewer a.endMs (mergeStart a.startMs b.startMs) b.endMs b.startMs := .inl h
  have hagain : isNewer b.endMs (mergeStart a.startMs b.startMs) b.endMs b.startMs ↔
      a.startMs < b.startMs := by
    rw [mergeStart, if_neg hstart, if_neg hstart', isNewer]
    omega
  simp only [Stats.add, Stats.adaptive, if_pos hnewer, ha, hb, and_self, if_true, hagain]
  split
  · exact ⟨hb, rfl⟩
  · exact ⟨ha, rfl⟩

end Add

/-! ## Section 4: All merges -/

/-- Intervals as they come: started, ended at different times, with valid adaptive data. -/
structure Mergeable (intervals : List Stats) : Prop where
  started : ∀ s ∈ intervals, s.startMs ≠ 0
  valid   : ∀ s ∈ intervals, s.adaptiveValid = true
  ends    : intervals.Pairwise fun s s' => s.endMs ≠ s'.endMs

/-- The interval that ended last. -/
def IsLast (intervals : List Stats) (z : Stats) : Prop :=
  z ∈ intervals ∧ ∀ s ∈ intervals, s.endMs ≤ z.endMs

/-- The result of merging, the adaptive data left out. -/
structure Summed (intervals : List Stats) (r : Stats) : Prop where
  counters    : ∀ c : Counter, c.of r = (intervals.map c.of).sum
  noisePower  : r.noisePowerSum = (intervals.map (·.noisePowerSum)).sum
  signalPower : r.signalPowerSum = (intervals.map (·.signalPowerSum)).sum
  start       : IsLeast {n | ∃ s ∈ intervals, s.startMs = n} r.startMs
  ends        : IsGreatest {n | ∃ s ∈ intervals, s.endMs = n} r.endMs
  peak        : IsGreatest {q | ∃ s ∈ intervals, s.peakSignalPower = q} r.peakSignalPower
  volatile    : ∀ z, IsLast intervals z → r.volatile = z.volatile
  valid       : r.adaptiveValid = true

/-- The result of merging. -/
structure Merged (intervals : List Stats) (r : Stats) : Prop extends Summed intervals r where
  adaptive : ∀ z, IsLast intervals z → r.adaptive = z.adaptive

theorem Mergeable.of_append {xs ys : List Stats} (h : Mergeable (xs ++ ys)) :
    Mergeable xs ∧ Mergeable ys ∧ ∀ x ∈ xs, ∀ y ∈ ys, x.endMs ≠ y.endMs := by
  obtain ⟨hstarted, hvalid, hends⟩ := h
  obtain ⟨hxs, hys, hcross⟩ := List.pairwise_append.1 hends
  refine ⟨⟨?_, ?_, hxs⟩, ⟨?_, ?_, hys⟩, hcross⟩
  · intro s hs
    exact hstarted s (List.mem_append_left _ hs)
  · intro s hs
    exact hvalid s (List.mem_append_left _ hs)
  · intro s hs
    exact hstarted s (List.mem_append_right _ hs)
  · intro s hs
    exact hvalid s (List.mem_append_right _ hs)

theorem Mergeable.perm {xs ys : List Stats} (h : Mergeable xs) (hperm : xs.Perm ys) :
    Mergeable ys where
  started s hs := h.started s (hperm.mem_iff.2 hs)
  valid s hs := h.valid s (hperm.mem_iff.2 hs)
  ends := (hperm.pairwise_iff fun hne => hne.symm).1 h.ends

/-- Bounds of two lists together. -/
theorem isLeast_append {xs ys : List Stats} {f : Stats → ℕ} {m n : ℕ}
    (hx : IsLeast {k | ∃ s ∈ xs, f s = k} m) (hy : IsLeast {k | ∃ s ∈ ys, f s = k} n) :
    IsLeast {k | ∃ s ∈ xs ++ ys, f s = k} (min m n) := by
  have hunion : {k | ∃ s ∈ xs ++ ys, f s = k} =
      {k | ∃ s ∈ xs, f s = k} ∪ {k | ∃ s ∈ ys, f s = k} := by
    ext k
    simp [or_and_right, exists_or]
  rw [hunion]
  exact hx.union hy

theorem isGreatest_append {α : Type*} [LinearOrder α] {xs ys : List Stats} {f : Stats → α}
    {m n : α} (hx : IsGreatest {k | ∃ s ∈ xs, f s = k} m)
    (hy : IsGreatest {k | ∃ s ∈ ys, f s = k} n) :
    IsGreatest {k | ∃ s ∈ xs ++ ys, f s = k} (max m n) := by
  have hunion : {k | ∃ s ∈ xs ++ ys, f s = k} =
      {k | ∃ s ∈ xs, f s = k} ∪ {k | ∃ s ∈ ys, f s = k} := by
    ext k
    simp [or_and_right, exists_or]
  rw [hunion]
  exact hx.union hy

/-- The later one of two ends decides. -/
theorem add_ends (a b : Stats) (h : a.endMs ≠ b.endMs) :
    (a.add b).endMs = max a.endMs b.endMs := by
  rcases Nat.lt_or_gt_of_ne h with hlt | hlt
  · rw [(add_newer hlt).1, max_eq_right hlt.le]
  · rw [(add_older hlt).1, max_eq_left hlt.le]

theorem Summed.single {s : Stats} (h : s.adaptiveValid = true) : Summed [s] s where
  counters c := by simp
  noisePower := by simp
  signalPower := by simp
  start := by simp [IsLeast, lowerBounds]
  ends := by simp [IsGreatest, upperBounds]
  peak := by simp [IsGreatest, upperBounds]
  volatile z hz := by rw [List.mem_singleton.1 hz.1]
  valid := h

/-- Two results have different ends. -/
theorem Summed.ends_ne {xs ys : List Stats} {a b : Stats} (h : Mergeable (xs ++ ys))
    (ha : Summed xs a) (hb : Summed ys b) : a.endMs ≠ b.endMs := by
  obtain ⟨x, hx, hxa⟩ := ha.ends.1
  obtain ⟨y, hy, hyb⟩ := hb.ends.1
  rw [← hxa, ← hyb]
  exact h.of_append.2.2 x hx y hy

theorem Summed.start_ne {xs : List Stats} {a : Stats} (h : Mergeable xs) (ha : Summed xs a) :
    a.startMs ≠ 0 := by
  obtain ⟨x, hx, hxa⟩ := ha.start.1
  rw [← hxa]
  exact h.started x hx

theorem Summed.end_last {xs : List Stats} {a z : Stats} (ha : Summed xs a) (hz : IsLast xs z) :
    a.endMs = z.endMs := by
  obtain ⟨x, hx, hxa⟩ := ha.ends.1
  exact le_antisymm (hxa ▸ hz.2 x hx) (ha.ends.2 ⟨z, hz.1, rfl⟩)

theorem IsLast.left {xs ys : List Stats} {z : Stats} (h : IsLast (xs ++ ys) z) (hz : z ∈ xs) :
    IsLast xs z := ⟨hz, fun s hs => h.2 s (List.mem_append_left _ hs)⟩

theorem IsLast.right {xs ys : List Stats} {z : Stats} (h : IsLast (xs ++ ys) z) (hz : z ∈ ys) :
    IsLast ys z := ⟨hz, fun s hs => h.2 s (List.mem_append_right _ hs)⟩

/-- The result with the last interval ended later than the other. -/
theorem IsLast.cases {xs ys : List Stats} {a b z : Stats} (h : Mergeable (xs ++ ys))
    (ha : Summed xs a) (hb : Summed ys b) (hz : IsLast (xs ++ ys) z) :
    (IsLast xs z ∧ b.endMs < a.endMs) ∨ (IsLast ys z ∧ a.endMs < b.endMs) := by
  have hne := Summed.ends_ne h ha hb
  obtain ⟨x, hx, hxa⟩ := ha.ends.1
  obtain ⟨y, hy, hyb⟩ := hb.ends.1
  have hxz := hz.2 x (List.mem_append_left _ hx)
  have hyz := hz.2 y (List.mem_append_right _ hy)
  rcases List.mem_append.1 hz.1 with hmem | hmem
  · have hend := ha.end_last (hz.left hmem)
    exact .inl ⟨hz.left hmem, by omega⟩
  · have hend := hb.end_last (hz.right hmem)
    exact .inr ⟨hz.right hmem, by omega⟩

/-- **One merge** sums up what both operands have summed up. -/
theorem Summed.add {xs ys : List Stats} {a b : Stats} (h : Mergeable (xs ++ ys))
    (ha : Summed xs a) (hb : Summed ys b) : Summed (xs ++ ys) (a.add b) := by
  have hne := Summed.ends_ne h ha hb
  have hstart := Summed.start_ne h.of_append.1 ha
  have hstart' := Summed.start_ne h.of_append.2.1 hb
  constructor
  case counters =>
    intro c
    rw [Counter.of_add, ha.counters, hb.counters, List.map_append, List.sum_append]
  case noisePower =>
    rw [List.map_append, List.sum_append, ← ha.noisePower, ← hb.noisePower]
    rfl
  case signalPower =>
    rw [List.map_append, List.sum_append, ← ha.signalPower, ← hb.signalPower]
    rfl
  case start =>
    rw [add_start hstart hstart']
    exact isLeast_append ha.start hb.start
  case ends =>
    rw [add_ends a b hne]
    exact isGreatest_append ha.ends hb.ends
  case peak => exact isGreatest_append ha.peak hb.peak
  case volatile =>
    intro z hz
    rcases hz.cases h ha hb with ⟨hlast, hlt⟩ | ⟨hlast, hlt⟩
    · rw [(add_older hlt).2, ha.volatile z hlast]
    · rw [(add_newer hlt).2, hb.volatile z hlast]
  case valid =>
    rcases Nat.lt_or_gt_of_ne hne with hlt | hlt
    · exact (add_adaptive_newer ha.valid hb.valid hstart hstart' hlt).1
    · exact (add_adaptive_older ha.valid hb.valid hlt).1

/-- **Every order and grouping** gives the same sums, bounds and volatile data. -/
theorem summed_eval (t : MergeTree Stats) (h : Mergeable t.leaves) :
    Summed t.leaves (t.eval Stats.add) :=
  MergeTree.eval_rule (fun hQ => ⟨hQ.of_append.1, hQ.of_append.2.1⟩)
    (fun s hs => Summed.single (hs.valid s List.mem_cons_self)) Summed.add t h

/-! ## Section 5: Order and grouping -/

/-- The adaptive data are those of the interval that ended last, except perhaps for one
    interval that started before all others. -/
def Harmless (intervals : List Stats) : Prop :=
  ∀ z, IsLast intervals z → ∀ e ∈ intervals, e.adaptive = z.adaptive ∨
    ∀ x ∈ intervals, x ≠ e → e.startMs < x.startMs

/-- All ways of merging give one result, the merged statistics. -/
structure OrderIndependent (intervals : List Stats) : Prop where
  same   : ∀ t t' : MergeTree Stats, t.leaves.Perm intervals → t'.leaves.Perm intervals →
    t.eval Stats.add = t'.eval Stats.add
  merged : ∀ t : MergeTree Stats, t.leaves.Perm intervals →
    Merged intervals (t.eval Stats.add)

theorem IsLast.perm {xs ys : List Stats} {z : Stats} (h : IsLast xs z) (hperm : xs.Perm ys) :
    IsLast ys z := ⟨hperm.mem_iff.1 h.1, fun s hs => h.2 s (hperm.mem_iff.2 hs)⟩

theorem Summed.perm {xs ys : List Stats} {r : Stats} (h : Summed xs r) (hperm : xs.Perm ys) :
    Summed ys r where
  counters c := by rw [h.counters, (hperm.map _).sum_eq]
  noisePower := by rw [h.noisePower, (hperm.map _).sum_eq]
  signalPower := by rw [h.signalPower, (hperm.map _).sum_eq]
  start := by simpa only [hperm.mem_iff] using h.start
  ends := by simpa only [hperm.mem_iff] using h.ends
  peak := by simpa only [hperm.mem_iff] using h.peak
  volatile z hz := h.volatile z (hz.perm hperm.symm)
  valid := h.valid

theorem Summed.exists_last {xs : List Stats} {r : Stats} (h : Summed xs r) :
    ∃ z, IsLast xs z := by
  obtain ⟨z, hz, hend⟩ := h.ends.1
  refine ⟨z, hz, fun s hs => ?_⟩
  rw [hend]
  exact h.ends.2 ⟨s, hs, rfl⟩

/-- The merged statistics are determined by the intervals. -/
theorem Merged.unique {xs : List Stats} {r r' : Stats} (h : Merged xs r) (h' : Merged xs r') :
    r = r' := by
  obtain ⟨z, hz⟩ := h.exists_last
  apply Stats.ext_views
  · intro c
    rw [h.counters, h'.counters]
  · exact h.start.unique h'.start
  · exact h.ends.unique h'.ends
  · rw [h.noisePower, h'.noisePower]
  · rw [h.signalPower, h'.signalPower]
  · exact h.peak.unique h'.peak
  · rw [h.volatile z hz, h'.volatile z hz]
  · rw [h.valid, h'.valid]
  · rw [h.adaptive z hz, h'.adaptive z hz]

/-- What a partial merge of `intervals` has kept of the adaptive data. -/
structure Kept (z : Stats) (part : List Stats) (r : Stats) : Prop where
  summed : Summed part r
  origin : ∃ e ∈ part, r.adaptive = e.adaptive
  last   : z ∈ part → r.adaptive = z.adaptive

theorem Kept.single {z s : Stats} (h : s.adaptiveValid = true) : Kept z [s] s where
  summed := .single h
  origin := ⟨s, List.mem_cons_self, rfl⟩
  last hz := by rw [List.mem_singleton.1 hz]

/-- The adaptive data of one merge are those of one of its operands. -/
theorem add_adaptive {xs ys : List Stats} {a b : Stats} (h : Mergeable (xs ++ ys))
    (ha : Summed xs a) (hb : Summed ys b) :
    (a.add b).adaptive = if a.endMs < b.endMs ∧ a.startMs < b.startMs then b.adaptive
      else a.adaptive := by
  have hstart := Summed.start_ne h.of_append.1 ha
  have hstart' := Summed.start_ne h.of_append.2.1 hb
  rcases Nat.lt_or_gt_of_ne (Summed.ends_ne h ha hb) with hlt | hlt
  · rw [(add_adaptive_newer ha.valid hb.valid hstart hstart' hlt).2]
    simp only [hlt, true_and]
  · rw [(add_adaptive_older ha.valid hb.valid hlt).2, if_neg]
    omega

theorem Kept.add {intervals xs ys : List Stats} {z a b : Stats} (hlast : IsLast intervals z)
    (hharmless : Harmless intervals) (h : Mergeable (xs ++ ys))
    (hsub : ∀ s ∈ xs ++ ys, s ∈ intervals) (ha : Kept z xs a) (hb : Kept z ys b) :
    Kept z (xs ++ ys) (a.add b) := by
  have hadaptive := add_adaptive h ha.summed hb.summed
  obtain ⟨e, he, hae⟩ := ha.origin
  constructor
  case summed => exact ha.summed.add h hb.summed
  case origin =>
    obtain ⟨e', he', hbe'⟩ := hb.origin
    rw [hadaptive]
    split
    · exact ⟨e', List.mem_append_right _ he', hbe'⟩
    · exact ⟨e, List.mem_append_left _ he, hae⟩
  case last =>
    intro hz
    have hpart : IsLast (xs ++ ys) z := ⟨hz, fun s hs => hlast.2 s (hsub s hs)⟩
    rw [hadaptive]
    rcases hpart.cases h ha.summed hb.summed with ⟨hleft, hlt⟩ | ⟨hright, hlt⟩
    · rw [if_neg (by omega), ha.last hleft.1]
    · split
      · rw [hb.last hright.1]
      next hnot =>
        -- `other` did not start later, so no interval of `self` is the earliest
        rw [hae]
        rcases hharmless z hlast e (hsub e (List.mem_append_left _ he)) with hsame | hearly
        · exact hsame
        · obtain ⟨x, hx, hxb⟩ := hb.summed.start.1
          have hne : x ≠ e := by
            intro heq
            exact h.of_append.2.2 e he x hx (by rw [heq])
          have hstart := hearly x (hsub x (List.mem_append_right _ hx)) hne
          have hle := ha.summed.start.2 ⟨e, he, rfl⟩
          omega

theorem merged_of_harmless {intervals : List Stats} (h : Mergeable intervals)
    (hharmless : Harmless intervals) (t : MergeTree Stats) (ht : t.leaves.Perm intervals) :
    Merged intervals (t.eval Stats.add) := by
  have hsummed := (summed_eval t (h.perm ht.symm)).perm ht
  refine ⟨hsummed, fun z hz => ?_⟩
  have hkept := @MergeTree.eval_rule _ Stats.add (Kept z)
    (fun part => Mergeable part ∧ ∀ s ∈ part, s ∈ intervals)
    (fun hpart => ⟨⟨hpart.1.of_append.1, fun s hs =>
        hpart.2 s (List.mem_append_left _ hs)⟩,
      ⟨hpart.1.of_append.2.1, fun s hs => hpart.2 s (List.mem_append_right _ hs)⟩⟩)
    (fun s hs => Kept.single (hs.1.valid s List.mem_cons_self))
    (fun hQ ha hb => ha.add hz hharmless hQ.1 hQ.2 hb)
    t ⟨h.perm ht.symm, fun s hs => ht.mem_iff.1 hs⟩
  exact hkept.last (ht.mem_iff.2 hz.1)

/-- Any other list of intervals has a merge that loses the adaptive data: one interval in
    front, all others merged before. -/
theorem exists_lost {intervals : List Stats} (h : Mergeable intervals) {z e x : Stats}
    (hz : IsLast intervals z) (he : e ∈ intervals) (hne : e.adaptive ≠ z.adaptive)
    (hx : x ∈ intervals) (hxe : x ≠ e) (hstart : x.startMs ≤ e.startMs) :
    ∃ t : MergeTree Stats, t.leaves.Perm intervals ∧
      (t.eval Stats.add).adaptive ≠ z.adaptive := by
  obtain ⟨front, back, rfl⟩ := List.append_of_mem he
  have hperm : (e :: (front ++ back)).Perm (front ++ e :: back) := List.perm_middle.symm
  have hx' : x ∈ front ++ back :=
    (List.mem_cons.1 (hperm.mem_iff.2 hx)).resolve_left hxe
  have hze : z ≠ e := fun heq => hne (by rw [heq])
  have hz' : z ∈ front ++ back :=
    (List.mem_cons.1 (hperm.mem_iff.2 hz.1)).resolve_left hze
  obtain ⟨first, rest, hrest⟩ := List.exists_cons_of_ne_nil (List.ne_nil_of_mem hz')
  have hmergeable : Mergeable ([e] ++ (front ++ back)) := h.perm hperm.symm
  have hothers := summed_eval (MergeTree.comb first rest)
    (by rw [MergeTree.leaves_comb, ← hrest]; exact hmergeable.of_append.2.1)
  rw [MergeTree.leaves_comb, ← hrest] at hothers
  refine ⟨.node (.leaf e) (MergeTree.comb first rest), ?_, ?_⟩
  · show ([e] ++ (MergeTree.comb first rest).leaves).Perm _
    rw [MergeTree.leaves_comb, ← hrest]
    exact hperm
  · have hsingle : Summed [e] e := .single (h.valid e he)
    have hle := hothers.start.2 ⟨x, hx', rfl⟩
    show (e.add _).adaptive ≠ _
    rw [add_adaptive hmergeable hsingle hothers, if_neg (by omega)]
    exact hne

/-- **When merging is order independent**: exactly when the adaptive data are harmless. -/
theorem order_independent_iff {intervals : List Stats} (h : Mergeable intervals) :
    OrderIndependent intervals ↔ Harmless intervals := by
  constructor
  · intro hindependent z hz e he
    by_contra hnot
    push Not at hnot
    obtain ⟨hne, x, hx, hxe, hstart⟩ := hnot
    obtain ⟨t, ht, hlost⟩ := exists_lost h hz he hne hx hxe hstart
    exact hlost ((hindependent.merged t ht).adaptive z hz)
  · intro hharmless
    have hmerged := merged_of_harmless h hharmless
    exact ⟨fun t t' ht ht' => (hmerged t ht).unique (hmerged t' ht'), hmerged⟩

/-- Three intervals, one after the other, each with its own noise level. -/
def first : Stats :=
  { Stats.default with startMs := 1, endMs := 10, adaptiveValid := true, adaptiveNoiseDbfs := -30 }

def second : Stats :=
  { Stats.default with startMs := 20, endMs := 30, adaptiveValid := true, adaptiveNoiseDbfs := -31 }

def third : Stats :=
  { Stats.default with startMs := 40, endMs := 50, adaptiveValid := true, adaptiveNoiseDbfs := -32 }

theorem mergeable_three : Mergeable [first, second, third] := by
  constructor <;> simp [first, second, third]

theorem order_independent_iff_two :
    OrderIndependent [first, second] ↔ Harmless [first, second] :=
  order_independent_iff (by constructor <;> simp [first, second])

/-- The second interval, with the other two merged into it, keeps its own noise level. -/
theorem second_wins :
    Mergeable [first, second, third] ∧ ¬ OrderIndependent [first, second, third] := by
  refine ⟨mergeable_three, fun hindependent => ?_⟩
  have hlast : IsLast [first, second, third] third := by
    constructor <;> simp [first, second, third]
  have hmerged := hindependent.merged (.node (.leaf second) (.node (.leaf first) (.leaf third)))
    (List.Perm.swap first second [third])
  have hnoise : (-31 : ℚ) = -32 := congrArg Prod.fst (hmerged.adaptive third hlast)
  norm_num at hnoise

end ReceiverStats
