import EzSdr.Framework.ExactFloat
import EzSdr.Scan.Analyzer

/-! # Settings from Older Files

    Settings are read from a file and normalised before the display and the
    receiver see them: duplicate fields of older files are migrated, values are
    brought into their ranges, and the duplicates are written back.

    **`normalize_correct_iff`**: everything ends in its range and a second pass
    changes nothing, except where an upper limit that is not finite falls back
    to a default below the lower limit that was kept. -/

namespace Settings

open ExactFloat
open Observation (validFftSize)

/-! ## Section 1: The settings and their defaults -/

inductive WindowType where
  | hann
  | hamming
  | blackman
  | flatTop

def WindowType.name : WindowType → String
  | .hann => "Hann"
  | .hamming => "Hamming"
  | .blackman => "Blackman"
  | .flatTop => "FlatTop"

def windowFromStr (s : String) : WindowType :=
  if s = "Hamming" then .hamming
  else if s = "Blackman" then .blackman
  else if s = "FlatTop" then .flatTop
  else .hann

inductive ColorMap where
  | classic
  | viridis
  | plasma
  | magma
  | grayscale
  | hot
  | inferno
  | turbo

def ColorMap.name : ColorMap → String
  | .classic => "Classic"
  | .viridis => "Viridis"
  | .plasma => "Plasma"
  | .magma => "Magma"
  | .grayscale => "Grayscale"
  | .hot => "Hot"
  | .inferno => "Inferno"
  | .turbo => "Turbo"

def colorFromStr (s : String) : ColorMap :=
  if s = "Viridis" then .viridis
  else if s = "Plasma" then .plasma
  else if s = "Magma" then .magma
  else if s = "Inferno" then .inferno
  else if s = "Turbo" then .turbo
  else if s = "Grayscale" then .grayscale
  else if s = "Hot" then .hot
  else .classic

/-- The display settings among the advanced ones. -/
@[ext]
structure AdvancedConfig where
  fftSize          : ℕ
  fftRate          : ℕ
  window           : String
  wfSpeed          : ℕ
  wfDepth          : ℕ
  snrSmoothingSecs : ExactFloat
  peakHoldTime     : ExactFloat
  avgAlpha         : ExactFloat
  persistence      : ExactFloat
  /-- Older name of `peakHoldTime`. -/
  fftHold          : ExactFloat
  /-- Older form of `avgAlpha`, which it adds up to one with. -/
  smoothingSpeed   : ExactFloat
  dbMin            : ExactFloat
  dbMax            : ExactFloat
  deriving DecidableEq

@[ext]
structure AppConfig where
  fontScale         : ExactFloat
  defaultSampleRate : ℕ
  defaultGain       : ExactFloat
  lastSessionGainDb : ExactFloat
  observerLat       : ExactFloat
  observerLon       : ExactFloat
  ppmCorrection     : ℤ
  /-- Older names of `dbMin` and `dbMax`. -/
  spectrumMinDb     : ExactFloat
  spectrumMaxDb     : ExactFloat
  wfMinDb           : ExactFloat
  wfMaxDb           : ExactFloat
  colorMap          : String
  advanced          : AdvancedConfig
  deriving DecidableEq

def AdvancedConfig.default : AdvancedConfig where
  fftSize          := 2048
  fftRate          := 20
  window           := "Hann"
  wfSpeed          := 2
  wfDepth          := 256
  snrSmoothingSecs := num 0.5
  peakHoldTime     := num 1
  avgAlpha         := num 0.3
  persistence      := num 0
  fftHold          := num 0.5
  smoothingSpeed   := num 0.3
  dbMin            := num (-120)
  dbMax            := num 0

def AppConfig.default : AppConfig where
  fontScale         := num 1
  defaultSampleRate := 2048000
  defaultGain       := num 40
  lastSessionGainDb := num (-1)
  observerLat       := num 51.5
  observerLon       := num (-0.1)
  ppmCorrection     := 0
  spectrumMinDb     := num (-120)
  spectrumMaxDb     := num 0
  wfMinDb           := num (-120)
  wfMaxDb           := num (-20)
  colorMap          := "Classic"
  advanced          := .default

/-! ## Section 2: Normalisation

    It fails where a `clamp` of the source would. -/

namespace AppConfig

/-- The scale to clamp. -/
def scale (c : AppConfig) : ExactFloat :=
  if !c.fontScale.isFinite || c.fontScale.le (num 0) then AppConfig.default.fontScale
  else c.fontScale

-- the position falls back as a whole
def latitude (c : AppConfig) : ExactFloat :=
  if !c.observerLat.isFinite || !c.observerLon.isFinite then AppConfig.default.observerLat
  else c.observerLat

def longitude (c : AppConfig) : ExactFloat :=
  if !c.observerLat.isFinite || !c.observerLon.isFinite then AppConfig.default.observerLon
  else c.observerLon

/-- The receiver's part of `normalize`. -/
def normalizeReceiver (c : AppConfig) : Option AppConfig := do
  let d := AppConfig.default
  let fontScale ← c.scale.clamp (num 0.5) (num 3)
  let defaultGain ←
    (if c.defaultGain.isFinite then c.defaultGain else d.defaultGain).clamp (num 0) (num 49.6)
  let observerLat ← c.latitude.clamp (num (-90)) (num 90)
  let observerLon ← c.longitude.clamp (num (-180)) (num 180)
  return { c with
    fontScale := fontScale
    defaultSampleRate := if c.defaultSampleRate = 0 then d.defaultSampleRate else c.defaultSampleRate
    defaultGain := defaultGain
    lastSessionGainDb := if c.lastSessionGainDb.isFinite then c.lastSessionGainDb else num (-1)
    observerLat := observerLat
    observerLon := observerLon
    ppmCorrection := min (max c.ppmCorrection (-100)) 100 }

/-- An advanced value other than its default counts; otherwise the older name does. -/
def migrateAliases (c : AppConfig) : AppConfig :=
  let a := c.advanced
  let d := AdvancedConfig.default
  let older :=
    a.dbMin.eq d.dbMin && a.dbMax.eq d.dbMax &&
      !(c.spectrumMinDb.eq AppConfig.default.spectrumMinDb &&
        c.spectrumMaxDb.eq AppConfig.default.spectrumMaxDb)
  { c with
    advanced := { a with
      dbMin := if older then c.spectrumMinDb else a.dbMin
      dbMax := if older then c.spectrumMaxDb else a.dbMax
      peakHoldTime :=
        if a.peakHoldTime.eq d.peakHoldTime && !a.fftHold.eq d.fftHold then a.fftHold
        else a.peakHoldTime
      avgAlpha :=
        if a.avgAlpha.eq d.avgAlpha && !a.smoothingSpeed.eq d.smoothingSpeed then
          (num 1).sub a.smoothingSpeed
        else a.avgAlpha } }

/-- The fallback is not brought into the range. -/
def finite (value fallback lo hi : ExactFloat) : Option ExactFloat :=
  if value.isFinite then value.clamp lo hi else some fallback

/-- The display's part of `normalize`. -/
def normalizeDisplay (c : AppConfig) : Option AppConfig := do
  let a := c.advanced
  let d := AdvancedConfig.default
  let snrSmoothingSecs ← finite a.snrSmoothingSecs d.snrSmoothingSecs (num 0.01) (num 10)
  let peakHoldTime ← finite a.peakHoldTime d.peakHoldTime (num 0) (num 60)
  let avgAlpha ← finite a.avgAlpha d.avgAlpha (num 0) (num 1)
  let persistence ← finite a.persistence d.persistence (num 0) (num 0.98)
  let dbMin ← finite a.dbMin d.dbMin (num (-240)) (num 10)
  let dbMax ← finite a.dbMax d.dbMax (dbMin.add (num 10)) (num 60)
  let wfMinDb ← finite c.wfMinDb AppConfig.default.wfMinDb (num (-240)) (num 10)
  let wfMaxDb ← finite c.wfMaxDb AppConfig.default.wfMaxDb (wfMinDb.add (num 1)) (num 60)
  return { c with
    spectrumMinDb := dbMin
    spectrumMaxDb := dbMax
    wfMinDb := wfMinDb
    wfMaxDb := wfMaxDb
    colorMap := (colorFromStr c.colorMap).name
    advanced := {
      fftSize := if validFftSize a.fftSize then a.fftSize else d.fftSize
      fftRate := min (max a.fftRate 1) 120
      window := (windowFromStr a.window).name
      wfSpeed := max a.wfSpeed 1
      wfDepth := min (max a.wfDepth 32) 4096
      snrSmoothingSecs := snrSmoothingSecs
      peakHoldTime := peakHoldTime
      avgAlpha := avgAlpha
      persistence := persistence
      fftHold := peakHoldTime
      smoothingSpeed := (num 1).sub avgAlpha
      dbMin := dbMin
      dbMax := dbMax } }

def normalize (c : AppConfig) : Option AppConfig := do
  let c ← c.normalizeReceiver
  c.migrateAliases.normalizeDisplay

/-! ## Section 3: The outcome of a pass

    No clamp fails, since every lower bound is below its upper bound. -/

theorem finite_eq {lo hi : ℚ} (h : lo ≤ hi) (x : ExactFloat) (fallback : ℚ) :
    finite x (num fallback) (num lo) (num hi) = some (num (settled x fallback lo hi)) := by
  unfold finite
  by_cases hx : x.isFinite = true
  · obtain ⟨q, rfl⟩ := exists_num_of_isFinite hx
    rw [if_pos hx, clamp_num h, settled_num]
  · rw [if_neg hx, settled_of_not_isFinite (Bool.not_eq_true _ ▸ hx)]

/-- A fallback in the range may be taken before the clamp. -/
theorem clamp_ite_eq {fallback lo hi : ℚ} (hlo : lo ≤ fallback) (hhi : fallback ≤ hi)
    (x : ExactFloat) :
    (if x.isFinite then x else num fallback).clamp (num lo) (num hi) =
      some (num (settled x fallback lo hi)) := by
  by_cases hx : x.isFinite = true
  · obtain ⟨q, rfl⟩ := exists_num_of_isFinite hx
    rw [if_pos hx, clamp_num (hlo.trans hhi), settled_num]
  · rw [if_neg hx, clamp_num (hlo.trans hhi), clip_of_mem hlo hhi,
      settled_of_not_isFinite (Bool.not_eq_true _ ▸ hx)]

theorem scale_isFinite (c : AppConfig) : c.scale.isFinite = true := by
  unfold scale
  split
  · rfl
  · next h =>
    by_contra hinf
    exact h (by simp [hinf])

theorem latitude_isFinite (c : AppConfig) : c.latitude.isFinite = true := by
  unfold latitude
  split
  · rfl
  · next h =>
    by_contra hinf
    exact h (by simp [hinf])

theorem longitude_isFinite (c : AppConfig) : c.longitude.isFinite = true := by
  unfold longitude
  split
  · rfl
  · next h =>
    by_contra hinf
    exact h (by simp [hinf])

/-- The receiver's fields after a pass. -/
def receiverNormalized (c : AppConfig) : AppConfig :=
  { c with
    fontScale := num (settled c.scale 1 0.5 3)
    defaultSampleRate := if c.defaultSampleRate = 0 then 2048000 else c.defaultSampleRate
    defaultGain := num (settled c.defaultGain 40 0 49.6)
    lastSessionGainDb := if c.lastSessionGainDb.isFinite then c.lastSessionGainDb else num (-1)
    observerLat := num (settled c.latitude 51.5 (-90) 90)
    observerLon := num (settled c.longitude (-0.1) (-180) 180)
    ppmCorrection := min (max c.ppmCorrection (-100)) 100 }

theorem clamp_finite {x : ExactFloat} (hx : x.isFinite = true) {lo hi : ℚ} (h : lo ≤ hi)
    (fallback : ℚ) :
    x.clamp (num lo) (num hi) = some (num (settled x fallback lo hi)) := by
  obtain ⟨q, rfl⟩ := exists_num_of_isFinite hx
  rw [clamp_num h, settled_num]

theorem normalizeReceiver_eq (c : AppConfig) :
    c.normalizeReceiver = some c.receiverNormalized := by
  have hscale := clamp_finite c.scale_isFinite (by norm_num : (0.5 : ℚ) ≤ 3) 1
  have hgain := clamp_ite_eq (by norm_num : (0 : ℚ) ≤ 40) (by norm_num : (40 : ℚ) ≤ 49.6)
    c.defaultGain
  have hlat := clamp_finite c.latitude_isFinite (by norm_num : (-90 : ℚ) ≤ 90) 51.5
  have hlon := clamp_finite c.longitude_isFinite (by norm_num : (-180 : ℚ) ≤ 180) (-0.1)
  unfold normalizeReceiver
  dsimp only [AppConfig.default]
  rw [hscale, hgain, hlat, hlon]
  rfl

/-! ### The display -/

/-- The limits that count: the older ones where the others are the defaults. -/
def authoritativeRange (c : AppConfig) : ExactFloat × ExactFloat :=
  if c.advanced.dbMin = num (-120) ∧ c.advanced.dbMax = num 0 then
    (c.spectrumMinDb, c.spectrumMaxDb)
  else (c.advanced.dbMin, c.advanced.dbMax)

def authoritativeHold (c : AppConfig) : ExactFloat :=
  if c.advanced.peakHoldTime = num 1 ∧ c.advanced.fftHold ≠ num 0.5 then c.advanced.fftHold
  else c.advanced.peakHoldTime

def authoritativeAlpha (c : AppConfig) : ExactFloat :=
  if c.advanced.avgAlpha = num 0.3 ∧ c.advanced.smoothingSpeed ≠ num 0.3 then
    (num 1).sub c.advanced.smoothingSpeed
  else c.advanced.avgAlpha

/-- The lower and the upper limit of a range after a pass. -/
def limits (lo hi : ExactFloat) (loDefault hiDefault gap : ℚ) : ℚ × ℚ :=
  (settled lo loDefault (-240) 10,
    settled hi hiDefault (settled lo loDefault (-240) 10 + gap) 60)

def dbLimits (c : AppConfig) : ℚ × ℚ :=
  limits c.authoritativeRange.1 c.authoritativeRange.2 (-120) 0 10

def wfLimits (c : AppConfig) : ℚ × ℚ :=
  limits c.wfMinDb c.wfMaxDb (-120) (-20) 1

/-- The display's fields after a pass. -/
def displayNormalized (c : AppConfig) : AppConfig :=
  let hold := settled c.authoritativeHold 1 0 60
  let alpha := settled c.authoritativeAlpha 0.3 0 1
  { c with
    spectrumMinDb := num c.dbLimits.1
    spectrumMaxDb := num c.dbLimits.2
    wfMinDb := num c.wfLimits.1
    wfMaxDb := num c.wfLimits.2
    colorMap := (colorFromStr c.colorMap).name
    advanced := {
      fftSize := if validFftSize c.advanced.fftSize then c.advanced.fftSize else 2048
      fftRate := min (max c.advanced.fftRate 1) 120
      window := (windowFromStr c.advanced.window).name
      wfSpeed := max c.advanced.wfSpeed 1
      wfDepth := min (max c.advanced.wfDepth 32) 4096
      snrSmoothingSecs := num (settled c.advanced.snrSmoothingSecs 0.5 0.01 10)
      peakHoldTime := num hold
      avgAlpha := num alpha
      persistence := num (settled c.advanced.persistence 0 0 0.98)
      fftHold := num hold
      smoothingSpeed := num (1 - alpha)
      dbMin := num c.dbLimits.1
      dbMax := num c.dbLimits.2 } }

theorem migrateAliases_range (c : AppConfig) :
    (c.migrateAliases.advanced.dbMin, c.migrateAliases.advanced.dbMax) = c.authoritativeRange := by
  unfold migrateAliases authoritativeRange
  dsimp only [AdvancedConfig.default, AppConfig.default]
  simp only [Bool.and_eq_true, Bool.not_eq_true', Bool.and_eq_false_iff, eq_num_iff, eq_num_false_iff]
  by_cases hlimits : c.advanced.dbMin = num (-120) ∧ c.advanced.dbMax = num 0
  · by_cases holder : c.spectrumMinDb = num (-120) ∧ c.spectrumMaxDb = num 0
    · -- all four are the defaults
      simp [hlimits, holder]
    · have hdiffer : ¬c.spectrumMinDb = num (-120) ∨ ¬c.spectrumMaxDb = num 0 :=
        not_and_or.1 holder
      rw [if_pos ⟨hlimits, hdiffer⟩, if_pos ⟨hlimits, hdiffer⟩, if_pos hlimits]
  · rw [if_neg (fun h => hlimits h.1), if_neg (fun h => hlimits h.1), if_neg hlimits]

theorem migrateAliases_hold (c : AppConfig) :
    c.migrateAliases.advanced.peakHoldTime = c.authoritativeHold := by
  unfold migrateAliases authoritativeHold
  dsimp only [AdvancedConfig.default]
  simp only [Bool.and_eq_true, Bool.not_eq_true', eq_num_iff, eq_num_false_iff, ne_eq]

theorem migrateAliases_alpha (c : AppConfig) :
    c.migrateAliases.advanced.avgAlpha = c.authoritativeAlpha := by
  unfold migrateAliases authoritativeAlpha
  dsimp only [AdvancedConfig.default]
  simp only [Bool.and_eq_true, Bool.not_eq_true', eq_num_iff, eq_num_false_iff, ne_eq]

theorem normalizeDisplay_migrateAliases (c : AppConfig) :
    c.migrateAliases.normalizeDisplay = some c.displayNormalized := by
  have hrange := c.migrateAliases_range
  have hlo : c.migrateAliases.advanced.dbMin = c.authoritativeRange.1 := congrArg Prod.fst hrange
  have hhi : c.migrateAliases.advanced.dbMax = c.authoritativeRange.2 := congrArg Prod.snd hrange
  have hmin := (settled_mem (by norm_num : (-240 : ℚ) ≤ -120) (by norm_num : (-120 : ℚ) ≤ 10)
    c.authoritativeRange.1).2
  have hwf := (settled_mem (by norm_num : (-240 : ℚ) ≤ -120) (by norm_num : (-120 : ℚ) ≤ 10)
    c.migrateAliases.wfMinDb).2
  unfold normalizeDisplay
  dsimp only [AdvancedConfig.default, AppConfig.default]
  rw [c.migrateAliases_hold, c.migrateAliases_alpha, hlo, hhi]
  rw [finite_eq (by norm_num), finite_eq (by norm_num), finite_eq (by norm_num),
    finite_eq (by norm_num), finite_eq (by norm_num)]
  simp only [Option.bind_eq_bind, Option.bind_some, add_num, sub_num]
  rw [finite_eq (by linarith), Option.bind_some, finite_eq (by norm_num), Option.bind_some, add_num,
    finite_eq (by linarith)]
  rfl

/-- The settings after a pass. -/
def normalized (c : AppConfig) : AppConfig := c.receiverNormalized.displayNormalized

theorem normalize_eq (c : AppConfig) : c.normalize = some c.normalized := by
  unfold normalize
  rw [c.normalizeReceiver_eq]
  exact c.receiverNormalized.normalizeDisplay_migrateAliases

/-! ## Section 4: Limits that depend on each other -/

/-- Both limits in the range of the display, at least `gap` apart. -/
def Joined (lo hi : ExactFloat) (gap : ℚ) : Prop :=
  ∃ p q, lo = num p ∧ hi = num q ∧ -240 ≤ p ∧ p ≤ 10 ∧ p + gap ≤ q ∧ q ≤ 60

/-- Either the upper limit is known, or the lower one leaves room for its default. -/
def Room (lo hi : ExactFloat) (b : ℚ) : Prop :=
  hi.isFinite = true ∨ lo.isFinite = false ∨ lo.le (num b) = true

theorem joined_num {p q gap : ℚ} :
    Joined (num p) (num q) gap ↔ -240 ≤ p ∧ p ≤ 10 ∧ p + gap ≤ q ∧ q ≤ 60 := by
  constructor
  · rintro ⟨p', q', hp, hq, h⟩
    cases hp
    cases hq
    exact h
  · intro h
    exact ⟨p, q, rfl, rfl, h⟩

/-- The lower limit is at most `b` exactly when it was, or was not finite. -/
theorem settled_le_iff {fallback b : ℚ} (hfallback : fallback ≤ b) (hlow : -240 ≤ b) (hb : b < 10)
    (lo : ExactFloat) :
    settled lo fallback (-240) 10 ≤ b ↔ lo.isFinite = false ∨ lo.le (num b) = true := by
  by_cases hlo : lo.isFinite = true
  · obtain ⟨q, rfl⟩ := exists_num_of_isFinite hlo
    rw [settled_num, clip_le_iff hlow hb, le_num, decide_eq_true_iff]
    simp
  · have hinf : lo.isFinite = false := Bool.not_eq_true _ ▸ hlo
    rw [settled_of_not_isFinite hinf]
    simp [hinf, hfallback]

theorem limits_joined_iff {loDefault hiDefault gap : ℚ} (hlow : -240 ≤ loDefault)
    (hhigh : loDefault ≤ hiDefault - gap) (hroom : hiDefault - gap < 10) (hmax : hiDefault ≤ 60)
    (hgap : gap ≤ 50) (lo hi : ExactFloat) :
    Joined (num (limits lo hi loDefault hiDefault gap).1)
        (num (limits lo hi loDefault hiDefault gap).2) gap ↔
      Room lo hi (hiDefault - gap) := by
  have hmem := settled_mem hlow (by linarith : loDefault ≤ 10) lo
  have hle := settled_le_iff hhigh (by linarith) hroom lo
  unfold limits Room
  rw [joined_num, ← hle]
  by_cases hhi : hi.isFinite = true
  · obtain ⟨q, rfl⟩ := exists_num_of_isFinite hhi
    have hclip := le_clip (by linarith [hmem.2] : settled lo loDefault (-240) 10 + gap ≤ 60) (q := q)
    constructor
    · intro _
      exact Or.inl rfl
    · intro _
      exact ⟨hmem.1, hmem.2, hclip, clip_le _ _ _⟩
  · -- the default is taken as it is
    have hinf : hi.isFinite = false := Bool.not_eq_true _ ▸ hhi
    dsimp only
    rw [settled_of_not_isFinite hinf]
    constructor
    · rintro ⟨-, -, hjoin, -⟩
      exact Or.inr (by linarith)
    · rintro (h | h)
      · exact absurd h hhi
      · exact ⟨hmem.1, hmem.2, by linarith, hmax⟩

/-- A lower limit in its range is kept; so is an upper limit above it. -/
theorem limits_kept {lo hi : ExactFloat} {loDefault hiDefault gap : ℚ} :
    (Between lo (-240) 10 → num (limits lo hi loDefault hiDefault gap).1 = lo) ∧
      (Between hi ((limits lo hi loDefault hiDefault gap).1 + gap) 60 →
        num (limits lo hi loDefault hiDefault gap).2 = hi) := by
  constructor
  · intro h
    exact h.settled_eq loDefault
  · intro h
    exact h.settled_eq hiDefault

/-- Limits in their joint range are kept. -/
theorem Joined.limits_eq {lo hi : ExactFloat} {gap : ℚ} (h : Joined lo hi gap)
    (loDefault hiDefault : ℚ) :
    num (limits lo hi loDefault hiDefault gap).1 = lo ∧
      num (limits lo hi loDefault hiDefault gap).2 = hi := by
  obtain ⟨p, q, rfl, rfl, hlow, hten, hjoin, hmax⟩ := h
  unfold limits
  rw [settled_num, settled_num, clip_of_mem hlow hten, clip_of_mem hjoin hmax]
  exact ⟨rfl, rfl⟩

/-! ## Section 5: Ranges, aliases and what is kept -/

/-- What deserialisation yields: an over-large number is refused in a field of 64 bits. -/
structure Deserialised (c : AppConfig) : Prop where
  fontScale         : c.fontScale.isFinite = true
  defaultGain       : c.defaultGain.isFinite = true
  lastSessionGainDb : c.lastSessionGainDb.isFinite = true
  observerLat       : c.observerLat.isFinite = true
  observerLon       : c.observerLon.isFinite = true

structure InRange (c : AppConfig) : Prop where
  fontScale         : Between c.fontScale 0.5 3
  defaultSampleRate : 0 < c.defaultSampleRate
  defaultGain       : Between c.defaultGain 0 49.6
  lastSessionGainDb : c.lastSessionGainDb.isFinite = true
  observerLat       : Between c.observerLat (-90) 90
  observerLon       : Between c.observerLon (-180) 180
  ppmCorrection     : -100 ≤ c.ppmCorrection ∧ c.ppmCorrection ≤ 100
  fftSize           : validFftSize c.advanced.fftSize = true
  fftRate           : 1 ≤ c.advanced.fftRate ∧ c.advanced.fftRate ≤ 120
  wfDepth           : 32 ≤ c.advanced.wfDepth ∧ c.advanced.wfDepth ≤ 4096
  wfSpeed           : 1 ≤ c.advanced.wfSpeed
  window            : ∃ w : WindowType, c.advanced.window = w.name
  colorMap          : ∃ m : ColorMap, c.colorMap = m.name
  snrSmoothingSecs  : Between c.advanced.snrSmoothingSecs 0.01 10
  peakHoldTime      : Between c.advanced.peakHoldTime 0 60
  avgAlpha          : Between c.advanced.avgAlpha 0 1
  persistence       : Between c.advanced.persistence 0 0.98
  db                : Joined c.advanced.dbMin c.advanced.dbMax 10
  wf                : Joined c.wfMinDb c.wfMaxDb 1

structure Aliased (c : AppConfig) : Prop where
  spectrumMinDb  : c.spectrumMinDb = c.advanced.dbMin
  spectrumMaxDb  : c.spectrumMaxDb = c.advanced.dbMax
  fftHold        : c.advanced.fftHold = c.advanced.peakHoldTime
  smoothingSpeed : c.advanced.smoothingSpeed = (num 1).sub c.advanced.avgAlpha

/-- `c'` has each value of `c` that counts and is in its range. -/
structure Keeps (c c' : AppConfig) : Prop where
  fontScale         : Between c.fontScale 0.5 3 → c'.fontScale = c.fontScale
  defaultSampleRate : 0 < c.defaultSampleRate → c'.defaultSampleRate = c.defaultSampleRate
  defaultGain       : Between c.defaultGain 0 49.6 → c'.defaultGain = c.defaultGain
  lastSessionGainDb : c'.lastSessionGainDb = c.lastSessionGainDb
  observerLat       : Between c.observerLat (-90) 90 → c'.observerLat = c.observerLat
  observerLon       : Between c.observerLon (-180) 180 → c'.observerLon = c.observerLon
  ppmCorrection     : -100 ≤ c.ppmCorrection ∧ c.ppmCorrection ≤ 100 →
    c'.ppmCorrection = c.ppmCorrection
  fftSize           : validFftSize c.advanced.fftSize = true →
    c'.advanced.fftSize = c.advanced.fftSize
  fftRate           : 1 ≤ c.advanced.fftRate ∧ c.advanced.fftRate ≤ 120 →
    c'.advanced.fftRate = c.advanced.fftRate
  wfDepth           : 32 ≤ c.advanced.wfDepth ∧ c.advanced.wfDepth ≤ 4096 →
    c'.advanced.wfDepth = c.advanced.wfDepth
  wfSpeed           : 1 ≤ c.advanced.wfSpeed → c'.advanced.wfSpeed = c.advanced.wfSpeed
  window            : (∃ w : WindowType, c.advanced.window = w.name) →
    c'.advanced.window = c.advanced.window
  colorMap          : (∃ m : ColorMap, c.colorMap = m.name) → c'.colorMap = c.colorMap
  snrSmoothingSecs  : Between c.advanced.snrSmoothingSecs 0.01 10 →
    c'.advanced.snrSmoothingSecs = c.advanced.snrSmoothingSecs
  peakHoldTime      : Between c.authoritativeHold 0 60 →
    c'.advanced.peakHoldTime = c.authoritativeHold
  avgAlpha          : Between c.authoritativeAlpha 0 1 →
    c'.advanced.avgAlpha = c.authoritativeAlpha
  persistence       : Between c.advanced.persistence 0 0.98 →
    c'.advanced.persistence = c.advanced.persistence
  dbMin             : Between c.authoritativeRange.1 (-240) 10 →
    c'.advanced.dbMin = c.authoritativeRange.1
  dbMax             : ∀ p, c'.advanced.dbMin = num p →
    Between c.authoritativeRange.2 (p + 10) 60 → c'.advanced.dbMax = c.authoritativeRange.2
  wfMinDb           : Between c.wfMinDb (-240) 10 → c'.wfMinDb = c.wfMinDb
  wfMaxDb           : ∀ p, c'.wfMinDb = num p →
    Between c.wfMaxDb (p + 1) 60 → c'.wfMaxDb = c.wfMaxDb

theorem windowFromStr_name (w : WindowType) : windowFromStr w.name = w := by
  cases w <;> rfl

theorem colorFromStr_name (m : ColorMap) : colorFromStr m.name = m := by
  cases m <;> rfl

theorem normalized_aliased (c : AppConfig) : c.normalized.Aliased where
  spectrumMinDb  := rfl
  spectrumMaxDb  := rfl
  fftHold        := rfl
  smoothingSpeed := (sub_num 1 _).symm

theorem scale_mem {c : AppConfig} (h : Between c.fontScale 0.5 3) : c.scale = c.fontScale := by
  obtain ⟨q, hq, hlo, -⟩ := h
  have hpos : ¬q ≤ 0 := by linarith
  unfold scale
  rw [hq, isFinite_num, le_num, decide_eq_false hpos]
  rfl

theorem position_known {c : AppConfig} (hlat : c.observerLat.isFinite = true)
    (hlon : c.observerLon.isFinite = true) :
    c.latitude = c.observerLat ∧ c.longitude = c.observerLon := by
  unfold latitude longitude
  rw [hlat, hlon]
  exact ⟨rfl, rfl⟩

theorem normalized_keeps {c : AppConfig} (h : c.Deserialised) : c.Keeps c.normalized where
  fontScale hmem := by
    show num (settled c.scale 1 0.5 3) = _
    rw [scale_mem hmem]
    exact hmem.settled_eq 1
  defaultSampleRate hpos := if_neg hpos.ne'
  defaultGain hmem := hmem.settled_eq 40
  lastSessionGainDb := if_pos h.lastSessionGainDb
  observerLat hmem := by
    show num (settled c.latitude 51.5 (-90) 90) = _
    rw [(position_known h.observerLat h.observerLon).1]
    exact hmem.settled_eq 51.5
  observerLon hmem := by
    show num (settled c.longitude (-0.1) (-180) 180) = _
    rw [(position_known h.observerLat h.observerLon).2]
    exact hmem.settled_eq (-0.1)
  ppmCorrection hmem := by
    show min (max c.ppmCorrection (-100)) 100 = _
    omega
  fftSize hvalid := if_pos hvalid
  fftRate hmem := by
    show min (max c.advanced.fftRate 1) 120 = _
    omega
  wfDepth hmem := by
    show min (max c.advanced.wfDepth 32) 4096 = _
    omega
  wfSpeed hmem := max_eq_left hmem
  window hname := by
    obtain ⟨w, hw⟩ := hname
    show (windowFromStr c.advanced.window).name = _
    rw [hw, windowFromStr_name]
  colorMap hname := by
    obtain ⟨m, hm⟩ := hname
    show (colorFromStr c.colorMap).name = _
    rw [hm, colorFromStr_name]
  snrSmoothingSecs hmem := hmem.settled_eq 0.5
  peakHoldTime hmem := hmem.settled_eq 1
  avgAlpha hmem := hmem.settled_eq 0.3
  persistence hmem := hmem.settled_eq 0
  dbMin := limits_kept.1
  dbMax p hp hmem := by
    cases hp
    exact limits_kept.2 hmem
  wfMinDb := limits_kept.1
  wfMaxDb p hp hmem := by
    cases hp
    exact limits_kept.2 hmem

/-- Both upper limits are known or fall back above the lower ones. -/
structure RoomForDefaults (c : AppConfig) : Prop where
  db : Room c.authoritativeRange.1 c.authoritativeRange.2 (-10)
  wf : Room c.wfMinDb c.wfMaxDb (-21)

theorem normalized_db_iff (c : AppConfig) :
    Joined c.normalized.advanced.dbMin c.normalized.advanced.dbMax 10 ↔
      Room c.authoritativeRange.1 c.authoritativeRange.2 (-10) := by
  have hiff := limits_joined_iff (by norm_num : (-240 : ℚ) ≤ -120)
    (by norm_num : (-120 : ℚ) ≤ 0 - 10) (by norm_num) (by norm_num) (by norm_num)
    c.authoritativeRange.1 c.authoritativeRange.2
  rw [(by norm_num : (0 : ℚ) - 10 = -10)] at hiff
  exact hiff

theorem normalized_wf_iff (c : AppConfig) :
    Joined c.normalized.wfMinDb c.normalized.wfMaxDb 1 ↔ Room c.wfMinDb c.wfMaxDb (-21) := by
  have hiff := limits_joined_iff (by norm_num : (-240 : ℚ) ≤ -120)
    (by norm_num : (-120 : ℚ) ≤ -20 - 1) (by norm_num) (by norm_num) (by norm_num)
    c.wfMinDb c.wfMaxDb
  rw [(by norm_num : (-20 : ℚ) - 1 = -21)] at hiff
  exact hiff

theorem normalized_inRange {c : AppConfig} (h : c.RoomForDefaults) : c.normalized.InRange where
  fontScale := between_settled (by norm_num) (by norm_num) c.scale
  defaultSampleRate := by
    show 0 < if c.defaultSampleRate = 0 then 2048000 else c.defaultSampleRate
    split <;> omega
  defaultGain := between_settled (by norm_num) (by norm_num) c.defaultGain
  lastSessionGainDb := by
    show (if c.lastSessionGainDb.isFinite then c.lastSessionGainDb else num (-1)).isFinite = true
    split
    · next hfinite => exact hfinite
    · rfl
  observerLat := between_settled (by norm_num) (by norm_num) c.latitude
  observerLon := between_settled (by norm_num) (by norm_num) c.longitude
  ppmCorrection := by
    show -100 ≤ min (max c.ppmCorrection (-100)) 100 ∧ min (max c.ppmCorrection (-100)) 100 ≤ 100
    omega
  fftSize := by
    show validFftSize (if validFftSize c.advanced.fftSize then c.advanced.fftSize else 2048) = true
    split
    · next hvalid => exact hvalid
    · rfl
  fftRate := by
    show 1 ≤ min (max c.advanced.fftRate 1) 120 ∧ min (max c.advanced.fftRate 1) 120 ≤ 120
    omega
  wfDepth := by
    show 32 ≤ min (max c.advanced.wfDepth 32) 4096 ∧ min (max c.advanced.wfDepth 32) 4096 ≤ 4096
    omega
  wfSpeed := le_max_right _ _
  window := ⟨_, rfl⟩
  colorMap := ⟨_, rfl⟩
  snrSmoothingSecs := between_settled (by norm_num) (by norm_num) c.advanced.snrSmoothingSecs
  peakHoldTime := between_settled (by norm_num) (by norm_num) c.authoritativeHold
  avgAlpha := between_settled (by norm_num) (by norm_num) c.authoritativeAlpha
  persistence := between_settled (by norm_num) (by norm_num) c.advanced.persistence
  db := c.normalized_db_iff.2 h.db
  wf := c.normalized_wf_iff.2 h.wf

/-! ### A second pass -/

theorem Aliased.authoritativeRange_eq {c : AppConfig} (h : c.Aliased) :
    c.authoritativeRange = (c.advanced.dbMin, c.advanced.dbMax) := by
  unfold authoritativeRange
  rw [h.spectrumMinDb, h.spectrumMaxDb, ite_self]

theorem Aliased.authoritativeHold_eq {c : AppConfig} (h : c.Aliased) :
    c.authoritativeHold = c.advanced.peakHoldTime := by
  unfold authoritativeHold
  rw [h.fftHold, ite_self]

/-- `1 - (1 - α)` is `α` again. -/
theorem Aliased.authoritativeAlpha_eq {c : AppConfig} (h : c.Aliased)
    (hα : c.advanced.avgAlpha.isFinite = true) :
    c.authoritativeAlpha = c.advanced.avgAlpha := by
  obtain ⟨α, hα⟩ := exists_num_of_isFinite hα
  have hback : (num 1).sub c.advanced.smoothingSpeed = c.advanced.avgAlpha := by
    rw [h.smoothingSpeed, hα, sub_num, sub_num, sub_sub_cancel]
  unfold authoritativeAlpha
  rw [hback, ite_self]

theorem InRange.receiverNormalized_eq {c : AppConfig} (h : c.InRange) :
    c.receiverNormalized = c := by
  have hknown := position_known h.observerLat.isFinite h.observerLon.isFinite
  have hppm : min (max c.ppmCorrection (-100)) 100 = c.ppmCorrection := by
    have := h.ppmCorrection
    omega
  unfold receiverNormalized
  rw [scale_mem h.fontScale, hknown.1, hknown.2, h.fontScale.settled_eq, h.defaultGain.settled_eq,
    h.observerLat.settled_eq, h.observerLon.settled_eq, if_neg h.defaultSampleRate.ne',
    if_pos h.lastSessionGainDb, hppm]

theorem InRange.displayNormalized_eq {c : AppConfig} (h : c.InRange) (ha : c.Aliased) :
    c.displayNormalized = c := by
  -- the aliased fields agree, so it does not matter which of two is taken as authoritative
  have hdb : num c.dbLimits.1 = c.advanced.dbMin ∧ num c.dbLimits.2 = c.advanced.dbMax := by
    unfold dbLimits
    rw [ha.authoritativeRange_eq]
    exact h.db.limits_eq (-120) 0
  have hwf := h.wf.limits_eq (-120) (-20)
  have hhold : num (settled c.authoritativeHold 1 0 60) = c.advanced.peakHoldTime := by
    rw [ha.authoritativeHold_eq]
    exact h.peakHoldTime.settled_eq 1
  have halpha : num (settled c.authoritativeAlpha 0.3 0 1) = c.advanced.avgAlpha := by
    rw [ha.authoritativeAlpha_eq h.avgAlpha.isFinite]
    exact h.avgAlpha.settled_eq 0.3
  obtain ⟨w, hw⟩ := h.window
  obtain ⟨m, hm⟩ := h.colorMap
  have hadvanced : c.displayNormalized.advanced = c.advanced := by
    apply AdvancedConfig.ext
    case fftSize => exact if_pos h.fftSize
    case fftRate =>
      show min (max c.advanced.fftRate 1) 120 = _
      have := h.fftRate
      omega
    case window =>
      show (windowFromStr c.advanced.window).name = _
      rw [hw, windowFromStr_name]
    case wfSpeed => exact max_eq_left h.wfSpeed
    case wfDepth =>
      show min (max c.advanced.wfDepth 32) 4096 = _
      have := h.wfDepth
      omega
    case snrSmoothingSecs => exact h.snrSmoothingSecs.settled_eq 0.5
    case peakHoldTime => exact hhold
    case avgAlpha => exact halpha
    case persistence => exact h.persistence.settled_eq 0
    case fftHold => exact hhold.trans ha.fftHold.symm
    case smoothingSpeed =>
      show num (1 - settled c.authoritativeAlpha 0.3 0 1) = _
      rw [ha.smoothingSpeed, ← halpha, sub_num]
    case dbMin => exact hdb.1
    case dbMax => exact hdb.2
  have hcolor : (colorFromStr c.colorMap).name = c.colorMap := by
    rw [hm, colorFromStr_name]
  exact AppConfig.ext rfl rfl rfl rfl rfl rfl rfl (hdb.1.trans ha.spectrumMinDb.symm)
    (hdb.2.trans ha.spectrumMaxDb.symm) hwf.1 hwf.2 hcolor hadvanced

/-- Settings in their ranges with equal aliases are left as they are. -/
theorem normalize_of_inRange {c : AppConfig} (h : c.InRange) (ha : c.Aliased) :
    c.normalize = some c := by
  rw [normalize_eq]
  unfold normalized
  rw [h.receiverNormalized_eq, h.displayNormalized_eq ha]

/-! ## Section 6: When a pass does what it is for -/

theorem normalize_correct_iff (c : AppConfig) (h : c.Deserialised) :
    (∃ c', c.normalize = some c' ∧ c'.InRange ∧ c'.Aliased ∧ c.Keeps c' ∧
        c'.normalize = some c') ↔
      c.RoomForDefaults := by
  constructor
  · rintro ⟨c', hpass, hrange, -⟩
    rw [normalize_eq, Option.some_inj] at hpass
    subst hpass
    exact ⟨c.normalized_db_iff.1 hrange.db, c.normalized_wf_iff.1 hrange.wf⟩
  · intro hroom
    have hrange := normalized_inRange hroom
    have haliased := c.normalized_aliased
    exact ⟨c.normalized, c.normalize_eq, hrange, haliased, normalized_keeps h,
      normalize_of_inRange hrange haliased⟩

/-- The waterfall's upper limit is too large for its field. -/
def loud : AppConfig :=
  let d := AppConfig.default
  { d with wfMinDb := num (-30), wfMaxDb := infinity }

theorem normalize_correct_iff_loud :
    ∃ c', loud.normalize = some c' ∧ c'.InRange ∧ c'.Aliased ∧ loud.Keeps c' ∧
      c'.normalize = some c' :=
  (normalize_correct_iff loud ⟨rfl, rfl, rfl, rfl, rfl⟩).2 {
    db := by
      have hlimits : loud.authoritativeRange = (num (-120), num 0) := if_pos ⟨rfl, rfl⟩
      rw [hlimits]
      exact Or.inl rfl
    wf := by
      have hle : (num (-30)).le (num (-21)) = true := by
        rw [le_num, decide_eq_true_iff]
        norm_num
      exact Or.inr (Or.inr hle) }

/-- The lower limit is stored; the upper one is too large for its field. -/
def overlarge : AppConfig :=
  let d := AppConfig.default
  { d with advanced := { d.advanced with dbMin := num 5, dbMax := infinity } }

/-- A lower limit of 5 dB is kept below an upper limit that falls back to 0 dB. -/
theorem normalize_inverts_limits :
    overlarge.Deserialised ∧
      ¬∃ c', overlarge.normalize = some c' ∧ c'.InRange ∧ c'.Aliased ∧ overlarge.Keeps c' ∧
        c'.normalize = some c' := by
  constructor
  · exact ⟨rfl, rfl, rfl, rfl, rfl⟩
  · rintro ⟨c', hpass, hrange, -⟩
    rw [normalize_eq, Option.some_inj] at hpass
    subst hpass
    have hlimits : overlarge.authoritativeRange = (num 5, infinity) := by
      unfold authoritativeRange
      rw [if_neg (fun h => by cases h.2)]
      rfl
    have hroom := overlarge.normalized_db_iff.1 hrange.db
    rw [hlimits] at hroom
    -- the upper limit is unknown, and 5 dB is above -10 dB
    rcases hroom with h | h | h
    · cases h
    · cases h
    · have hle : (5 : ℚ) ≤ -10 := by simpa using h
      norm_num at hle

end AppConfig

end Settings
