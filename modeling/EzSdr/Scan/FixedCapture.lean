import EzSdr.Framework.BinaryFloat
import EzSdr.Framework.Checked
import EzSdr.Framework.GridSamples
import EzSdr.Scan.HitList

/-! # Scans within a Fixed Capture

    A replayed file has one centre and one rate, so a scan of it is refused
    unless all its channels fit. `validateFixedCapture` looks at a few
    frequencies only; **`validate_exact`** says that they stand for all.

    The floating-point numbers are exact rationals here, rounded to the 53 or
    24 bits of the code's types where the code rounds. -/

namespace Scan

/-! ## Section 1: Modes and their channels -/

inductive DemodMode where
  | auto | raw | am | fm | wfm | lsb | usb | dsb | cw
  deriving DecidableEq

namespace DemodMode

def fromLabel : String → Option DemodMode
  | "AUTO" => some auto
  | "RAW" => some raw
  | "AM" => some am
  | "FM" => some fm
  | "NFM" => some fm
  | "WFM" => some wfm
  | "LSB" => some lsb
  | "USB" => some usb
  | "DSB" => some dsb
  | "CW" => some cw
  | _ => none

def label : DemodMode → String
  | auto => "AUTO"
  | raw => "RAW"
  | am => "AM"
  | fm => "FM"
  | wfm => "WFM"
  | lsb => "LSB"
  | usb => "USB"
  | dsb => "DSB"
  | cw => "CW"

def defaultRfBandwidthHz : DemodMode → ℚ
  | auto | fm => 12500
  | wfm => 150000
  | am => 10000
  | dsb => 4600
  | lsb | usb => 2800
  | cw => 200
  | raw => 48000

/-- Exclusive upper edges, with the modes below them. -/
def autoModeBands : List (ℕ × DemodMode) :=
  [(1710000, am), (10000000, lsb), (30000000, usb), (87500000, am), (108000000, wfm),
    (137000000, am)]

def forFrequency (freqHz : ℕ) : DemodMode :=
  (autoModeBands.findSome? fun (upper, mode) => if freqHz < upper then some mode else none).getD fm

def resolve (mode : DemodMode) (freqHz : ℕ) : DemodMode :=
  match mode with
  | auto => forFrequency freqHz
  | other => other

end DemodMode

inductive DsbSideband where
  | lower | upper | both
  deriving DecidableEq

inductive SourceMode where
  | simulated | hardware | replay | daemon
  deriving DecidableEq

/-- The part of the shared state that decides where channels fit. A width is
    `none` unless it is a finite number. -/
structure SharedState where
  sourceMode        : SourceMode
  sampleRateHz      : ℕ
  centerFrequencyHz : Option ℕ
  frequencyHz       : ℕ
  adsbRunning       : Bool
  demodMode         : DemodMode
  lastSessionDemod  : String
  radioBandwidthHz  : Option ℚ
  radioProfiles     : List (String × Option ℚ)
  rfDecim           : ℕ
  dsbSideband       : DsbSideband

/-- A number rounded to a precision, on either side of zero. -/
def rounded (p : ℕ) (q : ℚ) : ℚ :=
  if q = 0 then 0 else if q < 0 then -BinaryFloat.round p (-q) else BinaryFloat.round p q

def f64 : ℚ → ℚ := rounded 53
def f32 : ℚ → ℚ := rounded 24

def MAX_FREQUENCY : ℕ := 999999999999

namespace SharedState

def captureCenterFrequencyHz (state : SharedState) : ℕ :=
  state.centerFrequencyHz.getD state.frequencyHz

/-- The rate and the decimation of `radio_iq_config`, normalized. -/
def radioIqConfig (state : SharedState) : ℕ × ℕ :=
  let localRadio := state.sourceMode ≠ .daemon ∧ state.adsbRunning = false
  let inputRate := max state.sampleRateHz 1
  let decimation := if localRadio then state.rfDecim else 1
  let requested := min (min (max decimation 1) 1024) inputRate
  (inputRate, 2 ^ Nat.log2 requested)

def effectiveRadioRate (state : SharedState) : ℚ :=
  f64 (state.radioIqConfig.1 / state.radioIqConfig.2)

def channelBandwidthBoundsFor (state : SharedState) (mode : DemodMode) : ℚ × ℚ :=
  let bounds : ℚ × ℚ := match mode with
    | .fm | .auto => (1000, 50000)
    | .wfm => (50000, 250000)
    | .am => (1000, 15000)
    | .dsb => (1000, 12000)
    | .usb | .lsb => (500, 12000)
    | .cw => (50, 500)
    | .raw => (1, f32 state.effectiveRadioRate)
  let usable := f32 (f32 state.effectiveRadioRate *
    if state.radioIqConfig.2 > 1 then f32 (4 / 5) else f32 (19 / 20))
  let top := max (min bounds.2 usable) 1
  (min bounds.1 top, top)

def channelBandwidthFor (state : SharedState) (mode : DemodMode) (configured : Option ℚ) : ℚ :=
  if mode = .raw then f32 state.effectiveRadioRate
  else
    let width := (configured.filter fun width => decide (width > 0)).getD mode.defaultRfBandwidthHz
    let bounds := state.channelBandwidthBoundsFor mode
    -- `clamp`
    if width < bounds.1 then bounds.1 else if width > bounds.2 then bounds.2 else width

/-- `RfPassband::for_mode`: the passband relative to the VFO. -/
def passband (mode : DemodMode) (width : ℚ) (sideband : DsbSideband) : ℚ × ℚ :=
  let mode : DemodMode := match mode, sideband with
    | .dsb, .upper => .usb
    | .dsb, .lower => .lsb
    | _, _ => mode
  let width := if width > 0 then width else mode.defaultRfBandwidthHz
  match mode with
  | .usb => (0, width)
  | .lsb => (-width, 0)
  | _ => (-width / 2, width / 2)

/-- The VFO positions at which the passband lies within the capture. -/
def captureVfoBounds (state : SharedState) (mode : DemodMode) (width : ℚ) : Option (ℕ × ℕ) :=
  let center := f64 state.captureCenterFrequencyHz
  let halfSpan := f64 (state.effectiveRadioRate *
    if state.radioIqConfig.2 > 1 then f64 (2 / 5) else f64 (19 / 40))
  let band := passband mode width state.dsbSideband
  let remoteHalfWidth : ℚ := min state.sampleRateHz 200000 / 2
  let band := if state.sourceMode = .daemon then
      (min band.1 (-remoteHalfWidth), max band.2 remoteHalfWidth)
    else band
  let low := max ⌈f64 (f64 (center - halfSpan) - band.1)⌉ 0
  let high := min ⌊f64 (f64 (center + halfSpan) - band.2)⌋ MAX_FREQUENCY
  if low ≤ high ∧ high ≥ 0 then some (low.toNat, high.toNat) else none

/-- The width that `scan_channel_bounds` takes for a mode. -/
def configuredWidth (state : SharedState) (requestedMode : Option DemodMode) : Option ℚ :=
  let selected := requestedMode.getD state.demodMode
  if requestedMode = none ∨ selected.label = state.lastSessionDemod then state.radioBandwidthHz
  else (state.radioProfiles.lookup selected.label).getD (some 0)

def scanChannelBounds (state : SharedState) (frequency : ℕ) (requestedMode : Option DemodMode) :
    Option (ℕ × ℕ) :=
  let mode := (requestedMode.getD state.demodMode).resolve frequency
  state.captureVfoBounds mode
    (state.channelBandwidthFor mode (state.configuredWidth requestedMode))

end SharedState

/-- A narrow channel in 200 kHz around 100 MHz. -/
example : SharedState.captureVfoBounds ⟨.replay, 200000, some 100000000, 100000000, false, .fm, "",
    none, [], 1, .both⟩ .fm 12500 = some (99911250, 100088750) := by
  decide +kernel

/-! ## Section 2: The validation -/

/-- A sum and a product of 64 bits. -/
def add64 (a b : ℕ) : Checked ℕ := if a + b < 2 ^ 64 then .ok (a + b) else Checked.panicked
def mul64 (a b : ℕ) : Checked ℕ := if a * b < 2 ^ 64 then .ok (a * b) else Checked.panicked

namespace FrequencyScanner

variable {δ : Type}

/-- A frequency lies within the bounds of its channel. -/
def fits (state : SharedState) (frequency : ℕ) (mode : Option DemodMode) : Bool :=
  (state.scanChannelBounds frequency mode).any fun (low, high) =>
    decide (low ≤ frequency) && decide (frequency ≤ high)

/-- The channels are looked at one by one; the first that does not fit stops
    the scan. -/
def checkChannels (s : FrequencyScanner δ) (state : SharedState)
    (channels : List (ℕ × Option DemodMode)) : FrequencyScanner δ × Bool :=
  if channels.all fun (frequency, mode) => fits state frequency mode then (s, true)
  else (s.stop, false)

/-- `start + (n - start) / step * step`, in arithmetic of 64 bits. -/
def floorTo (s : FrequencyScanner δ) (n : ℕ) : Checked ℕ := do
  let span ← Checked.sub n s.startHz
  let whole ← mul64 (span / s.stepHz) s.stepHz
  add64 s.startHz whole

def edgeChannels (s : FrequencyScanner δ) (last : ℕ) : List (ℕ × DemodMode) → Checked (List ℕ)
  | [] => .ok []
  | (edge, _) :: bands =>
    if edge > s.startHz ∧ edge ≤ last then do
      let before ← s.floorTo (← Checked.sub edge 1)
      let after := before + s.stepHz
      let rest ← s.edgeChannels last bands
      return before :: (if after < 2 ^ 64 ∧ after ≤ last then [after] else []) ++ rest
    else s.edgeChannels last bands

/-- Next to edges the bounds change in the automatic mode only. -/
def modeChannels (s : FrequencyScanner δ) (mode : DemodMode) (last : ℕ) : Checked (List ℕ) :=
  if mode = .auto then s.edgeChannels last DemodMode.autoModeBands else .ok []

def validateFixedCapture (s : FrequencyScanner δ) (state : SharedState) :
    Checked (FrequencyScanner δ × Bool) :=
  if !s.enabled || state.sourceMode ≠ .replay then .ok (s, true)
  else if s.memoryScan then
    .ok (s.checkChannels state
      (s.memoryFreqs.map fun (frequency, label) => (frequency, DemodMode.fromLabel label)))
  else if s.stepHz = 0 ∨ s.startHz > s.stopHz then .ok (s.stop, false)
  else do
    let last ← s.floorTo s.stopHz
    let edges ← s.modeChannels state.demodMode last
    return s.checkChannels state
      (([s.startHz, last, s.currentFreqHz] ++ edges).map fun frequency => (frequency, none))

/-! ## Section 3: The samples stand for the grid -/

theorem add64_of_lt {a b : ℕ} (h : a + b < 2 ^ 64) : add64 a b = .ok (a + b) := if_pos h

theorem mul64_of_lt {a b : ℕ} (h : a * b < 2 ^ 64) : mul64 a b = .ok (a * b) := if_pos h

theorem sub_of_le {a b : ℕ} (h : b ≤ a) : Checked.sub a b = .ok (a - b) := if_pos h

/-- No step of it overflows. -/
theorem floorTo_eq (s : FrequencyScanner δ) {n : ℕ} (hstart : s.startHz ≤ n) (hn : n < 2 ^ 64) :
    s.floorTo n = .ok (s.startHz + (n - s.startHz) / s.stepHz * s.stepHz) := by
  have hfloor := Nat.div_mul_le_self (n - s.startHz) s.stepHz
  unfold floorTo
  rw [sub_of_le hstart]
  show (mul64 _ _ >>= _) = _
  rw [mul64_of_lt (by omega)]
  exact add64_of_lt (by omega)

theorem edgeChannels_eq (s : FrequencyScanner δ) (hstop : s.stopHz < 2 ^ 64)
    (hordered : s.startHz ≤ s.stopHz) (bands : List (ℕ × DemodMode)) :
    s.edgeChannels (GridSamples.last s.startHz s.stepHz s.stopHz) bands =
      .ok ((bands.map Prod.fst).flatMap
        (GridSamples.around s.startHz s.stepHz s.stopHz)) := by
  have hlast : GridSamples.last s.startHz s.stepHz s.stopHz ≤ s.stopHz :=
    (GridSamples.last_onGrid s.stepHz hordered).1
  induction bands with
  | nil => rfl
  | cons band bands ih =>
    obtain ⟨edge, mode⟩ := band
    rw [List.map_cons, List.flatMap_cons]
    unfold edgeChannels GridSamples.around
    by_cases hbetween : edge > s.startHz ∧ edge ≤ GridSamples.last s.startHz s.stepHz s.stopHz
    · have hbefore : s.floorTo (edge - 1) =
          .ok (GridSamples.before s.startHz s.stepHz edge) :=
        s.floorTo_eq (by omega) (by omega)
      -- the next point has 64 bits if it is within the grid
      have hafter : (GridSamples.before s.startHz s.stepHz edge + s.stepHz < 2 ^ 64 ∧
          GridSamples.before s.startHz s.stepHz edge + s.stepHz ≤
            GridSamples.last s.startHz s.stepHz s.stopHz) ↔
          GridSamples.before s.startHz s.stepHz edge + s.stepHz ≤
            GridSamples.last s.startHz s.stepHz s.stopHz := by
        refine and_iff_right_of_imp fun hfits => ?_
        omega
      rw [if_pos hbetween, if_pos hbetween, ih, sub_of_le (by omega)]
      show (s.floorTo (edge - 1) >>= _) = _
      rw [hbefore]
      show Except.ok _ = _
      simp only [hafter]
      rfl
    · rw [if_neg hbetween, if_neg hbetween, ih]
      rfl

/-- Between edges the mode does not change. -/
theorem resolve_sameSide (mode : DemodMode) {f g : ℕ}
    (h : GridSamples.SameSide (DemodMode.autoModeBands.map Prod.fst) f g) :
    mode.resolve f = mode.resolve g := by
  have hbands : ∀ bands : List (ℕ × DemodMode),
      GridSamples.SameSide (bands.map Prod.fst) f g →
      (bands.findSome? fun (upper, mode) => if f < upper then some mode else none) =
        bands.findSome? fun (upper, mode) => if g < upper then some mode else none := by
    intro bands
    induction bands with
    | nil => exact fun _ => rfl
    | cons band bands ih =>
      intro hside
      obtain ⟨upper, mode⟩ := band
      have hupper : f < upper ↔ g < upper := by
        rw [← not_le, ← not_le, hside upper List.mem_cons_self]
      rw [List.findSome?_cons, List.findSome?_cons,
        ih fun e he => hside e (List.mem_cons_of_mem _ he)]
      simp only [hupper]
  cases mode with
  | auto =>
    show DemodMode.forFrequency f = DemodMode.forFrequency g
    unfold DemodMode.forFrequency
    rw [hbands _ h]
  | _ => rfl

/-- The edges at which the bounds of the selected mode can change. -/
def modeEdges (mode : DemodMode) : List ℕ :=
  if mode = .auto then DemodMode.autoModeBands.map Prod.fst else []

theorem scanChannelBounds_sameSide (state : SharedState) {f g : ℕ}
    (h : GridSamples.SameSide (modeEdges state.demodMode) f g) :
    state.scanChannelBounds f none = state.scanChannelBounds g none := by
  have hmode : state.demodMode.resolve f = state.demodMode.resolve g := by
    by_cases hauto : state.demodMode = .auto
    · unfold modeEdges at h
      rw [if_pos hauto] at h
      exact resolve_sameSide _ h
    · cases hconcrete : state.demodMode with
      | auto => exact absurd hconcrete hauto
      | _ => rfl
  unfold SharedState.scanChannelBounds
  dsimp only [Option.getD_none]
  rw [hmode]

theorem fits_iff {state : SharedState} {f : ℕ} {mode : Option DemodMode} :
    fits state f mode = true ↔
      ∃ low high, state.scanChannelBounds f mode = some (low, high) ∧ low ≤ f ∧ f ≤ high := by
  unfold fits
  rw [Option.any_eq_true_iff_get]
  cases state.scanChannelBounds f mode with
  | none => simp
  | some bounds => simp [Prod.ext_iff]

/-- Between edges the channels that fit are an interval. -/
theorem fits_between (state : SharedState) {l f r : ℕ} (hlf : l ≤ f) (hfr : f ≤ r)
    (hleft : GridSamples.SameSide (modeEdges state.demodMode) l f)
    (hright : GridSamples.SameSide (modeEdges state.demodMode) f r)
    (hl : fits state l none = true) (hr : fits state r none = true) :
    fits state f none = true := by
  obtain ⟨low, high, hbounds, hlow, -⟩ := fits_iff.1 hl
  obtain ⟨low', high', hbounds', -, hhigh⟩ := fits_iff.1 hr
  rw [scanChannelBounds_sameSide state hleft] at hbounds
  rw [← scanChannelBounds_sameSide state hright, hbounds] at hbounds'
  cases hbounds'
  exact fits_iff.2 ⟨low, high, hbounds, hlow.trans hlf, hfr.trans hhigh⟩

/-- **The validation is exact.** A range scan of a replayed file is accepted
    just if every frequency of its grid, and the current one, lies within the
    VFO bounds of the mode it resolves to. It never stops with an overflow, and
    a scan that is refused is stopped. -/
theorem validate_exact (s : FrequencyScanner δ) (state : SharedState) (henabled : s.enabled = true)
    (hreplay : state.sourceMode = .replay) (hrange : s.memoryScan = false) (hstep : 0 < s.stepHz)
    (hordered : s.startHz ≤ s.stopHz) (hstop : s.stopHz < 2 ^ 64) :
    ∃ s' accepted, s.validateFixedCapture state = .ok (s', accepted) ∧
      (accepted = true ↔
        (∀ k, s.startHz + k * s.stepHz ≤ s.stopHz → ∃ low high,
          state.scanChannelBounds (s.startHz + k * s.stepHz) none = some (low, high) ∧
          low ≤ s.startHz + k * s.stepHz ∧ s.startHz + k * s.stepHz ≤ high) ∧
        ∃ low high, state.scanChannelBounds s.currentFreqHz none = some (low, high) ∧
          low ≤ s.currentFreqHz ∧ s.currentFreqHz ≤ high) ∧
      s' = if accepted then s else s.stop := by
  have hedges : s.modeChannels state.demodMode (GridSamples.last s.startHz s.stepHz s.stopHz) =
      .ok ((modeEdges state.demodMode).flatMap
        (GridSamples.around s.startHz s.stepHz s.stopHz)) := by
    unfold modeChannels modeEdges
    split
    · exact s.edgeChannels_eq hstop hordered _
    · rfl
  have hvalidate : s.validateFixedCapture state = .ok (s.checkChannels state
      (([s.startHz, GridSamples.last s.startHz s.stepHz s.stopHz, s.currentFreqHz] ++
        (modeEdges state.demodMode).flatMap
          (GridSamples.around s.startHz s.stepHz s.stopHz)).map fun f => (f, none))) := by
    unfold validateFixedCapture
    rw [henabled, hreplay, hrange, if_neg (by decide), if_neg Bool.false_ne_true,
      if_neg (by omega), s.floorTo_eq hordered hstop]
    show (s.modeChannels state.demodMode (GridSamples.last s.startHz s.stepHz s.stopHz) >>= _) = _
    rw [hedges]
    rfl
  -- the channels that are looked at are the samples, and the current one
  have hchannels : ((([s.startHz, GridSamples.last s.startHz s.stepHz s.stopHz, s.currentFreqHz] ++
      (modeEdges state.demodMode).flatMap (GridSamples.around s.startHz s.stepHz s.stopHz)).map
        fun f => (f, (none : Option DemodMode))).all fun (f, mode) => fits state f mode) = true ↔
      (∀ f ∈ GridSamples.samples s.startHz s.stepHz s.stopHz (modeEdges state.demodMode),
        fits state f none = true) ∧ fits state s.currentFreqHz none = true := by
    unfold GridSamples.samples
    simp only [List.cons_append, List.nil_append, List.map_cons, List.all_cons, Bool.and_eq_true,
      List.forall_mem_cons, List.all_map, List.all_eq_true, Function.comp_apply]
    tauto
  rw [hvalidate]
  unfold checkChannels
  split
  · next hall =>
    obtain ⟨hgrid, hcurrent⟩ := hchannels.1 hall
    refine ⟨s, true, rfl, iff_of_true rfl ⟨?_, fits_iff.1 hcurrent⟩, rfl⟩
    intro k hk
    exact fits_iff.1 ((GridSamples.forall_samples_iff hstep hordered
      (fun l f r => fits_between state)).1 hgrid _ ⟨hk, k, rfl⟩)
  · next hsome =>
    refine ⟨s.stop, false, rfl, iff_of_false Bool.false_ne_true fun hcovered => ?_, rfl⟩
    refine hsome (hchannels.2 ⟨?_, fits_iff.2 hcovered.2⟩)
    refine (GridSamples.forall_samples_iff hstep hordered (fun l f r => fits_between state)).2 ?_
    intro f hf
    obtain ⟨hstop', k, rfl⟩ := hf
    exact fits_iff.2 (hcovered.1 k hstop')

/-- An automatic scan over the edge at 87.5 MHz. Its ends fit, but the first broadcast channel
    lies too close to the end of the capture. -/
theorem validate_exact_edge :
    let s : FrequencyScanner ℤ := { new (-60) with
      enabled := true, startHz := 87470000, stopHz := 87760000, stepHz := 20000,
      currentFreqHz := 87470000 }
    let state : SharedState := ⟨.replay, 400000, some 87650000, 87650000, false, .auto, "", none,
      [], 1, .both⟩
    (∃ s' accepted, s.validateFixedCapture state = .ok (s', accepted) ∧ accepted = false ∧
      (accepted = true ↔
        (∀ k, s.startHz + k * s.stepHz ≤ s.stopHz → ∃ low high,
          state.scanChannelBounds (s.startHz + k * s.stepHz) none = some (low, high) ∧
          low ≤ s.startHz + k * s.stepHz ∧ s.startHz + k * s.stepHz ≤ high) ∧
        ∃ low high, state.scanChannelBounds s.currentFreqHz none = some (low, high) ∧
          low ≤ s.currentFreqHz ∧ s.currentFreqHz ≤ high) ∧
      s' = if accepted then s else s.stop) ∧
    [87470000, 87510000, 87750000].map (fun f => fits state f none) = [true, false, true] := by
  intro s state
  refine ⟨?_, by decide +kernel⟩
  obtain ⟨s', accepted, hok, hexact, hstop⟩ :=
    validate_exact s state rfl rfl rfl (by decide) (by decide) (by decide)
  have hrefused : (s.validateFixedCapture state).toOption.map Prod.snd = some false := by
    decide +kernel
  rw [hok] at hrefused
  exact ⟨s', accepted, hok, Option.some.inj hrefused, hexact, hstop⟩

end FrequencyScanner

end Scan
