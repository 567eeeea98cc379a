import EzSdr.Framework.Checked

/-! # Adaptive Gain Control

    The controller watches the magnitudes of received samples and suggests
    steps of a gain table. Samples are counted in windows, windows fill
    subblocks, and subblocks fill blocks. A duty cycle leaves out some of the
    subblocks. A burst is a run of windows with many loud samples; the dynamic
    range comes from a histogram of all samples. Both controllers decide at the
    end of every block.

    The floating-point operations are an `Arithmetic`, which says nothing of
    the values they give. -/

namespace Gain

/-! ## Section 1: Operations on floating-point numbers -/

/-- The operations the controller uses, on gains and settings `F`, powers `P`
    and statistics `D`. -/
structure Arithmetic (F P D : Type) where
  ofRat        : ℚ → F
  atLeast      : F → F → Bool
  atMost       : F → F → Bool
  sub          : F → F → F
  /-- `duty_d * duty`, the duty clamped, rounded. -/
  dutySteps    : F → ℕ
  zeroPower    : P
  /-- The power of a loud burst for this gain of the next step. -/
  loudPower    : F → P
  reachesPower : P → P → Bool
  zero         : D
  /-- A smoothed count, for a duty cycle of `n` subblocks in `d`. -/
  smooth       : (alpha : F) → (d n : ℕ) → D → ℕ → D
  /-- The rank of a percentile among this many samples. -/
  rank         : (percentile count : ℕ) → ℕ
  smoothLevel  : (alpha : F) → D → ℕ → D
  noiseFloor   : D → D
  dynamicRange : D → D
  exceeds      : D → F → Bool
  below        : D → F → Bool
  reaches      : D → F → Bool
  /-- The range is below the target even with half of this gain added. -/
  belowAfter   : D → F → F → Bool

/-! ## Section 2: The controller's state -/

def GAIN_COUNT : ℕ := 64

def LOUD_SAMPLE_THRESHOLD : ℕ := 46395

def WINDOWS_PER_SUBBLOCK : ℕ := 1250

def SUBBLOCKS_PER_BLOCK : ℕ := 20

def DUTY_D : ℕ := SUBBLOCKS_PER_BLOCK

inductive RangeScanState where
  | idle
  | scanDown
  | rescanUp
  | rescanDown
  deriving DecidableEq

/-- What the owner of a controller sets. -/
structure Settings (F : Type) where
  minGainDb         : F
  maxGainDb         : F
  burstEnabled      : Bool
  burstAlpha        : F
  burstChangeDelay  : ℕ
  burstLoudRate     : F
  burstLoudRunlength : ℕ
  burstQuietRate    : F
  burstQuietRunlength : ℕ
  rangeEnabled      : Bool
  rangeAlpha        : F
  rangePercentile   : ℕ
  rangeTargetDb     : F
  rangeChangeDelay  : ℕ
  rangeRescanDelay  : ℕ

/-- Samples in a window, and active subblocks among `DUTY_D`. -/
structure Timing where
  samplesPerWindow : ℕ
  dutyN            : ℕ
  window_pos       : 0 < samplesPerWindow
  duty_pos         : 0 < dutyN
  duty_le          : dutyN ≤ DUTY_D

def Timing.samplesPerSubblock (t : Timing) : ℕ := t.samplesPerWindow * WINDOWS_PER_SUBBLOCK

structure Burst (P D : Type) where
  windowRemaining       : ℕ
  windowCounter         : ℕ
  runlength             : ℕ
  blockLoudUndecoded    : ℕ
  blockLoudDecoded      : ℕ
  loudUndecodedSmoothed : D
  loudDecodedSmoothed   : D
  changeTimer           : ℕ
  loudThreshold         : P
  loudBlocks            : ℕ
  quietBlocks           : ℕ

structure Range (D : Type) where
  /-- How often each sample value has come. -/
  radix        : ℕ → ℕ
  radixCounter : ℕ
  smoothed     : D
  state        : RangeScanState
  changeTimer  : ℕ
  rescanTimer  : ℕ
  gainLimit    : ℤ

/-- The gain table with the range of steps in use, and the current step. -/
structure Steps (F : Type) where
  table   : List F
  min     : ℤ
  max     : ℤ
  upDb    : F
  downDb  : F
  current : ℤ

structure AdaptiveGain (F P D : Type) where
  settings                 : Settings F
  timing                   : Timing
  subblocksRemaining       : ℕ
  subblockSamplesRemaining : ℕ
  dutyCounter              : ℕ
  subblockActive           : Bool
  burst                    : Burst P D
  range                    : Range D
  gain                     : Steps F
  suggestedGainStep        : Option ℤ
  noiseFloorDbfs           : D
  dynamicRangeDb           : D
  loudUndecoded            : ℕ
  loudDecoded              : ℕ
  gainChanges              : ℕ
  /-- Blocks spent at each step. -/
  gainSeconds              : ℕ → ℕ

variable {F P D : Type} (A : Arithmetic F P D)

def Settings.default : Settings F where
  minGainDb := A.ofRat 0
  maxGainDb := A.ofRat 100
  burstEnabled := false
  burstAlpha := A.ofRat (1 / 10)
  burstChangeDelay := 0
  burstLoudRate := A.ofRat 5
  burstLoudRunlength := 3
  burstQuietRate := A.ofRat 1
  burstQuietRunlength := 3
  rangeEnabled := false
  rangeAlpha := A.ofRat (1 / 10)
  rangePercentile := 10
  rangeTargetDb := A.ofRat 50
  rangeChangeDelay := 0
  rangeRescanDelay := 300

theorem dutyD_pos : 0 < DUTY_D := Nat.succ_pos _

/-- Windows of 40 µs, all subblocks active. -/
def Timing.new (sampleRate : ℕ) : Timing :=
  ⟨max (sampleRate / 25000) 1, DUTY_D, Nat.lt_of_lt_of_le Nat.one_pos (Nat.le_max_right _ _),
    dutyD_pos, le_rfl⟩

def AdaptiveGain.new (sampleRate : ℕ) : AdaptiveGain F P D where
  settings := Settings.default A
  timing := Timing.new sampleRate
  subblocksRemaining := SUBBLOCKS_PER_BLOCK
  subblockSamplesRemaining := (Timing.new sampleRate).samplesPerSubblock
  dutyCounter := 0
  subblockActive := false
  burst :=
    { windowRemaining := (Timing.new sampleRate).samplesPerWindow
      windowCounter := 0
      runlength := 0
      blockLoudUndecoded := 0
      blockLoudDecoded := 0
      loudUndecodedSmoothed := A.zero
      loudDecodedSmoothed := A.zero
      changeTimer := 0
      loudThreshold := A.zeroPower
      loudBlocks := 0
      quietBlocks := 0 }
  range :=
    { radix := fun _ => 0
      radixCounter := 0
      smoothed := A.zero
      state := .rescanUp
      changeTimer := 0
      rescanTimer := 0
      gainLimit := 0 }
  gain := ⟨[], 0, 0, A.ofRat 0, A.ofRat 0, 0⟩
  suggestedGainStep := none
  noiseFloorDbfs := A.zero
  dynamicRangeDb := A.zero
  loudUndecoded := 0
  loudDecoded := 0
  gainChanges := 0
  gainSeconds := fun _ => 0

/-! ## Section 3: Gain steps -/

/-- `as i32` of a length, and the wrap of an `i32` addition. -/
def asI32 (n : ℤ) : ℤ := n.bmod 4294967296

def clamp (step lo hi : ℤ) : ℤ := max lo (min step hi)

/-- `table.get(step as usize)`; a negative step is beyond every table. -/
def gainAt (table : List F) (step : ℤ) : Option F :=
  if 0 ≤ step then table[step.toNat]? else none

/-- The gains to the next step and from the step before, and the power of a loud
    burst, at a step of a table. -/
def derived (table : List F) (step : ℤ) : Option (F × F × P) :=
  match gainAt table step with
  | none => none
  | some currentDb =>
    let upDb := (gainAt table (asI32 (step + 1))).getD currentDb
    let downDb := (gainAt table (step - 1)).getD currentDb
    let up := A.sub upDb currentDb
    some (up, A.sub currentDb downDb, A.loudPower up)

/-- The last step of a table. -/
def maxStep (table : List F) : ℤ := asI32 (table.length - 1 : ℕ)

/-- The least step with a gain of at least `lo`, or `top`. -/
def leastStep (table : List F) (lo : F) (top : ℕ) : ℕ :=
  ((List.range (top + 1)).find? fun step =>
    table[step]?.any fun gain => A.atLeast gain lo).getD top

/-- The largest step from `first` on with a gain of at most `hi`, or `first`. -/
def largestStep (table : List F) (hi : F) (first top : ℕ) : ℕ :=
  ((List.range' first (top + 1 - first)).reverse.find? fun step =>
    table[step]?.any fun gain => A.atMost gain hi).getD first

/-- The steps in use. The first access is out of bounds if the table is empty or
    `maxStep` is negative. -/
def gainLimits (table : List F) (lo hi : F) : Checked (ℤ × ℤ) :=
  if table = [] ∨ maxStep table < 0 then Checked.panicked
  else
    let top := (maxStep table).toNat
    let first := leastStep A table lo top
    .ok (first, largestStep A table hi first top)

namespace AdaptiveGain

def recomputeGainLimits (s : AdaptiveGain F P D) : Checked (AdaptiveGain F P D) := do
  let (lo, hi) ← gainLimits A s.gain.table s.settings.minGainDb s.settings.maxGainDb
  .ok { s with gain := { s.gain with min := lo, max := hi } }

/-- What goes with a new step. -/
def gainChanged (s : AdaptiveGain F P D) : Checked (AdaptiveGain F P D) :=
  if maxStep s.gain.table < 0 then Checked.panicked
  else
    let step := clamp s.gain.current 0 (maxStep s.gain.table)
    match derived A s.gain.table step with
    | none => Checked.panicked
    | some (upDb, downDb, loudThreshold) =>
      .ok { s with
        gain := { s.gain with current := step, upDb := upDb, downDb := downDb }
        range := { s.range with changeTimer := s.settings.rangeChangeDelay }
        burst := { s.burst with
          loudThreshold := loudThreshold
          changeTimer := s.settings.burstChangeDelay
          loudBlocks := 0
          quietBlocks := 0 } }

/-- A step within the limits; nothing is done if it is the current one. -/
def setGain (s : AdaptiveGain F P D) (step : ℤ) : Checked (AdaptiveGain F P D) :=
  let step := clamp step s.gain.min s.gain.max
  if s.gain.current = step then .ok s
  else do
    let s ← gainChanged A { s with gain := { s.gain with current := step } }
    .ok { s with gainChanges := s.gainChanges + 1 }

def configureGain (s : AdaptiveGain F P D) (table : List F) (currentStep : ℤ) :
    Checked (AdaptiveGain F P D) := do
  let s ← recomputeGainLimits A { s with gain := { s.gain with table := table } }
  let s ← setGain A s currentStep
  .ok { s with range := { s.range with gainLimit := s.gain.current } }

end AdaptiveGain

theorem dutyN_pos (n : ℕ) : 0 < min (max n 1) DUTY_D :=
  Nat.lt_min.mpr ⟨Nat.lt_of_lt_of_le Nat.one_pos (Nat.le_max_right _ _), dutyD_pos⟩

def AdaptiveGain.setDutyCycle (s : AdaptiveGain F P D) (duty : F) : AdaptiveGain F P D :=
  let dutyN := min (max (A.dutySteps duty) 1) DUTY_D
  { s with timing :=
      ⟨s.timing.samplesPerWindow, dutyN, s.timing.window_pos, dutyN_pos _, Nat.min_le_right _ _⟩ }

/-! ## Section 4: Bursts -/

def countLoudSamples (buf : List UInt16) : ℕ :=
  buf.countP fun sample => LOUD_SAMPLE_THRESHOLD < sample.toNat

namespace Burst

variable (samplesPerWindow : ℕ)

/-- A loud window makes the run longer; any other one ends it. Only runs of two to
    five windows are bursts. -/
def endOfWindow (b : Burst P D) (counter : ℕ) : Burst P D :=
  if samplesPerWindow / 4 < counter then { b with runlength := b.runlength + 1 }
  else
    { b with
      blockLoudUndecoded :=
        if 2 ≤ b.runlength ∧ b.runlength ≤ 5 then b.blockLoudUndecoded + 1
        else b.blockLoudUndecoded
      runlength := 0 }

/-- Whole windows of the buffer, one after another. -/
def scanWindows : ℕ → Burst P D → List UInt16 → Burst P D
  | 0, b, _ => b
  | windows + 1, b, buf =>
    scanWindows windows
      (b.endOfWindow samplesPerWindow (countLoudSamples (buf.take samplesPerWindow)))
      (buf.drop samplesPerWindow)

/-- Samples of a decoded message count as quiet. -/
def skip (b : Burst P D) (length : ℕ) : Checked (Burst P D) :=
  if length < b.windowRemaining then
    .ok { b with windowRemaining := b.windowRemaining - length }
  else do
    let length ← Checked.sub length b.windowRemaining
    let b := b.endOfWindow samplesPerWindow b.windowCounter
    let windows := length / samplesPerWindow
    let b := (fun b : Burst P D => b.endOfWindow samplesPerWindow 0)^[windows] b
    let length ← Checked.sub length (windows * samplesPerWindow)
    let remaining ← Checked.sub samplesPerWindow length
    .ok { b with windowCounter := 0, windowRemaining := remaining }

/-- The whole windows of a buffer and the open one after them; `length` is the length of
    the buffer. -/
def startWindows (b : Burst P D) (buf : List UInt16) (length : ℕ) : Checked (Burst P D) := do
  let windows := length / samplesPerWindow
  let samples := windows * samplesPerWindow
  let b := scanWindows samplesPerWindow windows b (buf.take samples)
  let length ← Checked.sub length samples
  let remaining ← Checked.sub samplesPerWindow length
  .ok { b with windowCounter := countLoudSamples (buf.drop samples), windowRemaining := remaining }

def update (b : Burst P D) (buf : List UInt16) : Checked (Burst P D) :=
  let length := buf.length
  if length < b.windowRemaining then
    .ok { b with
      windowCounter := b.windowCounter + countLoudSamples buf
      windowRemaining := b.windowRemaining - length }
  else do
    let n := b.windowRemaining
    let b := b.endOfWindow samplesPerWindow (b.windowCounter + countLoudSamples (buf.take n))
    let length ← Checked.sub length n
    b.startWindows samplesPerWindow (buf.drop n) length

end Burst

/-! ## Section 5: The noise floor -/

/-- Every sample counts in the histogram. -/
def Range.update (r : Range D) (buf : List UInt16) : Range D :=
  { r with
    radixCounter := r.radixCounter + buf.length
    radix := buf.foldl (fun radix sample =>
      Function.update radix sample.toNat (radix sample.toNat + 1)) r.radix }

/-- The first value with more than `countN` samples up to it, counted from one. -/
def percentileLoop (radix : ℕ → ℕ) (countN : ℕ) : (left i n : ℕ) → ℕ
  | 0, i, _ => i
  | left + 1, i, n =>
    if n ≤ countN then percentileLoop radix countN left (i + 1) (n + radix i) else i

namespace AdaptiveGain

/-! ## Section 6: The end of a block -/

def rangeEndOfBlock (s : AdaptiveGain F P D) : AdaptiveGain F P D :=
  if s.settings.rangeEnabled then
    let countN := A.rank s.settings.rangePercentile s.range.radixCounter
    let level := percentileLoop s.range.radix countN 65536 0 0 - 1
    let smoothed := A.smoothLevel s.settings.rangeAlpha s.range.smoothed level
    { s with
      range := { s.range with smoothed := smoothed, radix := fun _ => 0, radixCounter := 0 }
      noiseFloorDbfs := A.noiseFloor smoothed
      dynamicRangeDb := A.dynamicRange smoothed }
  else s

def burstEndOfBlock (s : AdaptiveGain F P D) : AdaptiveGain F P D :=
  if s.settings.burstEnabled then
    let smooth := A.smooth s.settings.burstAlpha DUTY_D s.timing.dutyN
    { s with
      loudUndecoded := s.loudUndecoded + s.burst.blockLoudUndecoded
      loudDecoded := s.loudDecoded + s.burst.blockLoudDecoded
      burst := { s.burst with
        loudUndecodedSmoothed := smooth s.burst.loudUndecodedSmoothed s.burst.blockLoudUndecoded
        blockLoudUndecoded := 0
        loudDecodedSmoothed := smooth s.burst.loudDecodedSmoothed s.burst.blockLoudDecoded
        blockLoudDecoded := 0 } }
  else s

/-- What the controllers ask for. -/
structure Wishes where
  up    : Bool
  down  : Bool
  notUp : Bool

def tickTimers (s : AdaptiveGain F P D) : AdaptiveGain F P D :=
  { s with
    burst := { s.burst with changeTimer := s.burst.changeTimer - 1 }
    range := { s.range with
      changeTimer := s.range.changeTimer - 1
      rescanTimer := s.range.rescanTimer - 1 } }

/-- The loud blocks and the quiet blocks in a row. -/
def countBlocks (s : AdaptiveGain F P D) : ℕ × ℕ :=
  if A.exceeds s.burst.loudUndecodedSmoothed s.settings.burstLoudRate then
    (s.burst.loudBlocks + 1, 0)
  else if A.below s.burst.loudDecodedSmoothed s.settings.burstQuietRate then
    (0, s.burst.quietBlocks + 1)
  else (0, 0)

/-- A scan downwards is over. -/
def endScan (r : Range D) : Range D :=
  if r.state = .scanDown ∨ r.state = .rescanDown then { r with state := .idle, rescanTimer := 0 }
  else r

/-- Bursts that are too loud ask for less gain, long quiet for more. -/
def burstControl (s : AdaptiveGain F P D) : AdaptiveGain F P D × Wishes :=
  if s.settings.burstEnabled ∧ s.burst.changeTimer = 0 then
    let (loudBlocks, quietBlocks) := countBlocks A s
    let s := { s with burst := { s.burst with loudBlocks := loudBlocks, quietBlocks := quietBlocks } }
    if s.settings.burstLoudRunlength ≤ loudBlocks then
      ({ s with range := endScan s.range }, ⟨false, true, true⟩)
    else if quietBlocks < s.settings.burstQuietRunlength then (s, ⟨false, false, true⟩)
    else (s, ⟨decide (s.gain.current < s.range.gainLimit), false, false⟩)
  else (s, ⟨false, false, false⟩)

/-- The limit goes below the current step. -/
def lowerLimit (r : Range D) (current : ℤ) : Range D :=
  if current ≤ r.gainLimit then { r with gainLimit := current - 1 } else r

/-- The scan for the largest step with enough dynamic range. -/
def scanRange (s : AdaptiveGain F P D) (r : Range D) (w : Wishes) : Range D × Wishes :=
  let target := s.settings.rangeTargetDb
  let available := s.dynamicRangeDb
  let current := s.gain.current
  match r.state with
  | .rescanUp =>
    if A.below available target then
      (lowerLimit { r with state := .rescanDown } current, ⟨w.up, true, true⟩)
    else if s.gain.max ≤ current then
      ({ r with state := .idle, rescanTimer := s.settings.rangeRescanDelay }, w)
    else if w.notUp then (r, w)
    else (r, { w with up := true })
  | .scanDown | .rescanDown =>
    if A.reaches available target then
      ({ r with state := .idle, rescanTimer := s.settings.rangeRescanDelay }, w)
    else if current ≤ s.gain.min then
      ({ lowerLimit r current with
        state := .idle, rescanTimer := s.settings.rangeRescanDelay }, w)
    else (lowerLimit r current, ⟨w.up, true, true⟩)
  | .idle =>
    if A.belowAfter available s.gain.downDb target ∧ s.gain.min < current then
      ({ lowerLimit r current with state := .scanDown }, ⟨w.up, true, true⟩)
    else if r.rescanTimer = 0 ∧ w.notUp = false then
      if A.reaches available target ∧ current < s.gain.max then
        ({ r with state := .rescanUp }, { w with up := true })
      else ({ r with rescanTimer := s.settings.rangeRescanDelay }, w)
    else (r, w)

/-- Enough dynamic range here: the limit is no lower. -/
def raiseLimit (s : AdaptiveGain F P D) : Range D :=
  if A.reaches s.dynamicRangeDb s.settings.rangeTargetDb ∧ s.range.gainLimit < s.gain.current then
    { s.range with gainLimit := s.gain.current }
  else s.range

def rangeControl (s : AdaptiveGain F P D) (w : Wishes) : AdaptiveGain F P D × Wishes :=
  if s.settings.rangeEnabled ∧ s.range.changeTimer = 0 then
    let (r, w) := scanRange A s (raiseLimit A s) w
    ({ s with range := r }, w)
  else (s, w)

/-- Both controllers, before the gain changes. -/
def control (s : AdaptiveGain F P D) : AdaptiveGain F P D × Wishes :=
  let (s, w) := burstControl A (tickTimers s)
  rangeControl A s w

def controlUpdate (s : AdaptiveGain F P D) : Checked (AdaptiveGain F P D) := do
  let (s, w) := control A s
  if w.down then
    let s ← setGain A s (s.gain.current - 1)
    .ok { s with suggestedGainStep := some s.gain.current }
  else if w.up && !w.notUp then
    let s ← setGain A s (s.gain.current + 1)
    .ok { s with suggestedGainStep := some s.gain.current }
  else .ok s

/-- The measurements of a block that is over. -/
def measured (s : AdaptiveGain F P D) : AdaptiveGain F P D :=
  burstEndOfBlock A (rangeEndOfBlock A s)

def endOfBlock (s : AdaptiveGain F P D) : Checked (AdaptiveGain F P D) := do
  let s ← controlUpdate A (measured A s)
  let index := (clamp s.gain.current 0 (GAIN_COUNT - 1)).toNat
  .ok { s with gainSeconds := Function.update s.gainSeconds index (s.gainSeconds index + 1) }

/-! ## Section 7: Samples -/

/-- `decoded` is the signal level of the message in the buffer, if there is one. -/
def updateSubblock (s : AdaptiveGain F P D) (buf : List UInt16) (decoded : Option P) :
    Checked (AdaptiveGain F P D) :=
  match decoded with
  | some level => do
    let burst :=
      if A.reachesPower level s.burst.loudThreshold then
        { s.burst with blockLoudDecoded := s.burst.blockLoudDecoded + 1 }
      else s.burst
    let burst ←
      if s.settings.burstEnabled then burst.skip s.timing.samplesPerWindow buf.length
      else .ok burst
    .ok { s with burst := burst }
  | none => do
    let burst ←
      if s.settings.burstEnabled then s.burst.update s.timing.samplesPerWindow buf
      else .ok s.burst
    let range := if s.settings.rangeEnabled then s.range.update buf else s.range
    .ok { s with burst := burst, range := range }

/-- The duty cycle leaves out the samples of some subblocks. -/
def activeSubblock (s : AdaptiveGain F P D) (buf : List UInt16) (decoded : Option P) :
    Checked (AdaptiveGain F P D) :=
  if s.subblockActive then updateSubblock A s buf decoded else .ok s

/-- The end of a block: the states around it, and the step it has suggested. -/
structure Decision (F P D : Type) where
  before    : AdaptiveGain F P D
  suggested : Option ℤ
  after     : AdaptiveGain F P D

/-- A subblock is over, and a block with the last of its subblocks. -/
def roll (s : AdaptiveGain F P D) :
    Checked (AdaptiveGain F P D × List (Decision F P D)) := do
  let s := { s with subblockSamplesRemaining := s.timing.samplesPerSubblock }
  let duty := s.dutyCounter + s.timing.dutyN
  let s :=
    if DUTY_D ≤ duty then { s with dutyCounter := duty - DUTY_D, subblockActive := true }
    else
      { s with
        dutyCounter := duty
        subblockActive := false
        burst := s.burst.endOfWindow s.timing.samplesPerWindow 0 }
  let subblocks ← Checked.sub s.subblocksRemaining 1
  if subblocks = 0 then
    let s := { s with subblocksRemaining := SUBBLOCKS_PER_BLOCK }
    let ended ← endOfBlock A s
    let after := { ended with suggestedGainStep := none }
    .ok (after, [⟨s, ended.suggestedGainStep, after⟩])
  else .ok ({ s with subblocksRemaining := subblocks }, [])

/-- The loop of `update`, with the decisions of the blocks it ends. -/
def feed (decoded : Option P) : ℕ → AdaptiveGain F P D → List UInt16 →
    Checked (AdaptiveGain F P D × List (Decision F P D))
  | 0, _, _ => Checked.panicked
  | fuel + 1, s, buf =>
    if s.subblockSamplesRemaining ≤ buf.length then do
      let n := s.subblockSamplesRemaining
      let s ← activeSubblock A s (buf.take n) decoded
      let (s, decisions) ← roll A s
      let (s, later) ← feed decoded fuel s (buf.drop n)
      .ok (s, decisions ++ later)
    else if buf = [] then .ok (s, [])
    else do
      let s ← activeSubblock A s buf decoded
      let remaining ← Checked.sub s.subblockSamplesRemaining buf.length
      .ok ({ s with subblockSamplesRemaining := remaining }, [])

/-- The last step that was suggested. -/
def lastSuggestion (decisions : List (Decision F P D)) : Option ℤ :=
  (decisions.filterMap Decision.suggested).getLast?

/-- Feed samples; a buffer of `n` samples ends at most `n + 1` subblocks. -/
def update (s : AdaptiveGain F P D) (buf : List UInt16) (decoded : Option P) :
    Checked (AdaptiveGain F P D × List (Decision F P D)) :=
  if s.settings.burstEnabled || s.settings.rangeEnabled then
    feed A decoded (buf.length + 2) s buf
  else .ok (s, [])

end AdaptiveGain

end Gain
