import EzSdr.Gain.Adaptive

/-! # What a Buffer Does to the Controller

    The invariants of the controller and one lemma for every part of `update`:

    1. Steps of the gain table stay within the limits (`Ordered`)
    2. The controllers leave samples and gain alone
    3. A decision, with what its suggestion says
    4. Remainders stay in their range (`Well`), so no subtraction underflows

    Everything that comes after a buffer is in `feed_spec`. -/

namespace Gain

variable {F P D : Type} (A : Arithmetic F P D)

/-! ## Section 1: Steps of the table -/

theorem asI32_le {n : ℤ} (h : 0 ≤ n) : asI32 n ≤ n := by
  unfold asI32 Int.bmod
  dsimp only
  split <;> omega

theorem maxStep_lt {table : List F} (h : table ≠ []) : maxStep table < table.length := by
  have hpos := List.length_pos_iff.mpr h
  have hle := asI32_le (n := (table.length - 1 : ℕ)) (Int.natCast_nonneg _)
  unfold maxStep
  omega

theorem maxStep_nil : maxStep ([] : List F) = 0 := by
  simp [maxStep, asI32]

theorem clamp_of_mem {step lo hi : ℤ} (hlo : lo ≤ step) (hhi : step ≤ hi) :
    clamp step lo hi = step := by
  unfold clamp
  rw [min_eq_left hhi, max_eq_right hlo]

theorem clamp_mem {lo hi : ℤ} (step : ℤ) (h : lo ≤ hi) :
    lo ≤ clamp step lo hi ∧ clamp step lo hi ≤ hi :=
  ⟨le_max_left _ _, max_le h (min_le_right _ _)⟩

theorem derived_of_lt {table : List F} {step : ℤ} (hpos : 0 ≤ step) (hlt : step < table.length) :
    ∃ up down power, derived A table step = some (up, down, power) := by
  obtain ⟨gain, hgain⟩ : ∃ gain, table[step.toNat]? = some gain :=
    ⟨_, List.getElem?_eq_getElem (by omega)⟩
  have hat : gainAt table step = some gain := by
    unfold gainAt
    rw [if_pos hpos, hgain]
  unfold derived
  rw [hat]
  exact ⟨_, _, _, rfl⟩

namespace AdaptiveGain

/-- The current step and the limit of the scan are within the limits of the table. -/
structure Ordered (s : AdaptiveGain F P D) : Prop where
  nonneg : 0 ≤ s.gain.min
  low    : s.gain.min ≤ s.gain.current
  high   : s.gain.current ≤ s.gain.max
  limit  : s.range.gainLimit ≤ s.gain.max
  inside : s.gain.max ≤ maxStep s.gain.table

/-- The values the burst controller works with are those of the current step. -/
def Derived (s : AdaptiveGain F P D) : Prop :=
  derived A s.gain.table s.gain.current = some (s.gain.upDb, s.gain.downDb, s.burst.loudThreshold)

/-- The same settings, and samples counted the same way. -/
structure SameSampling (s s' : AdaptiveGain F P D) : Prop where
  settings  : s'.settings = s.settings
  timing    : s'.timing = s.timing
  subblocks : s'.subblocksRemaining = s.subblocksRemaining
  samples   : s'.subblockSamplesRemaining = s.subblockSamplesRemaining
  window    : s'.burst.windowRemaining = s.burst.windowRemaining

/-- The same table with the same limits. -/
structure SameTable (s s' : AdaptiveGain F P D) : Prop where
  table : s'.gain.table = s.gain.table
  min   : s'.gain.min = s.gain.min
  max   : s'.gain.max = s.gain.max

variable {A} {s s' s'' : AdaptiveGain F P D}

theorem SameSampling.rfl : SameSampling s s := ⟨by rfl, by rfl, by rfl, by rfl, by rfl⟩

theorem SameSampling.trans (h : SameSampling s s') (h' : SameSampling s' s'') :
    SameSampling s s'' :=
  ⟨h'.settings.trans h.settings, h'.timing.trans h.timing, h'.subblocks.trans h.subblocks,
    h'.samples.trans h.samples, h'.window.trans h.window⟩

theorem SameTable.rfl : SameTable s s := ⟨by rfl, by rfl, by rfl⟩

theorem SameTable.trans (h : SameTable s s') (h' : SameTable s' s'') : SameTable s s'' :=
  ⟨h'.table.trans h.table, h'.min.trans h.min, h'.max.trans h.max⟩

/-- A new step within the table brings the values of that step with it. -/
theorem gainChanged_spec (hpos : 0 ≤ s.gain.current) (hlast : s.gain.current ≤ maxStep s.gain.table)
    (htable : s.gain.table ≠ []) :
    ∃ s', gainChanged A s = .ok s' ∧ s'.gain.current = s.gain.current ∧ s'.Derived A ∧
      SameSampling s s' ∧ SameTable s s' ∧ s'.range.gainLimit = s.range.gainLimit ∧
      s'.suggestedGainStep = s.suggestedGainStep := by
  have hstep : clamp s.gain.current 0 (maxStep s.gain.table) = s.gain.current :=
    clamp_of_mem hpos hlast
  obtain ⟨up, down, power, hderived⟩ :=
    derived_of_lt A hpos (hlast.trans_lt (maxStep_lt htable))
  have hdef : gainChanged A s = .ok { s with
      gain := { s.gain with upDb := up, downDb := down }
      range := { s.range with changeTimer := s.settings.rangeChangeDelay }
      burst := { s.burst with
        loudThreshold := power
        changeTimer := s.settings.burstChangeDelay
        loudBlocks := 0
        quietBlocks := 0 } } := by
    have hlen : ¬maxStep s.gain.table < 0 := by omega
    simp only [gainChanged, if_neg hlen, hstep, hderived]
  exact ⟨_, hdef, by rfl, hderived, ⟨by rfl, by rfl, by rfl, by rfl, by rfl⟩,
    ⟨by rfl, by rfl, by rfl⟩, by rfl, by rfl⟩

/-- The step is clamped to the limits. If that leaves the current one, nothing is done. -/
theorem setGain_of_limits (step : ℤ) (hnonneg : 0 ≤ s.gain.min) (hle : s.gain.min ≤ s.gain.max)
    (hinside : s.gain.max ≤ maxStep s.gain.table)
    (htable : s.gain.current ≠ clamp step s.gain.min s.gain.max → s.gain.table ≠ []) :
    ∃ s', setGain A s step = .ok s' ∧
      s'.gain.current = clamp step s.gain.min s.gain.max ∧
      (s'.gain.current = s.gain.current → s' = s) ∧
      (s'.gain.current ≠ s.gain.current → s'.Derived A) ∧
      SameSampling s s' ∧ SameTable s s' ∧ s'.range.gainLimit = s.range.gainLimit ∧
      s'.suggestedGainStep = s.suggestedGainStep := by
  have hmem := clamp_mem step hle
  unfold setGain
  by_cases heq : s.gain.current = clamp step s.gain.min s.gain.max
  · dsimp only
    rw [if_pos heq]
    exact ⟨s, by rfl, heq, fun _ => by rfl, fun hne => absurd (by rfl) hne,
      SameSampling.rfl, SameTable.rfl, by rfl, by rfl⟩
  · dsimp only
    rw [if_neg heq]
    obtain ⟨s', hs', hcurrent, hderived, hsampling, htab, hlimit, hsug⟩ :=
      gainChanged_spec (A := A)
        (s := { s with gain := { s.gain with current := clamp step s.gain.min s.gain.max } })
        (hnonneg.trans hmem.1) (hmem.2.trans hinside) (htable heq)
    rw [hs']
    have hnew : s'.gain.current = clamp step s.gain.min s.gain.max := hcurrent
    exact ⟨_, rfl, hnew, fun hsame => absurd (hsame.symm.trans hnew) heq, fun _ => hderived,
      ⟨hsampling.settings, hsampling.timing, hsampling.subblocks, hsampling.samples,
        hsampling.window⟩, ⟨htab.table, htab.min, htab.max⟩, hlimit, hsug⟩

/-- Two steps within the limits: the table is not empty. -/
theorem Ordered.table_ne_nil (hs : s.Ordered) {step : ℤ}
    (hne : s.gain.current ≠ clamp step s.gain.min s.gain.max) : s.gain.table ≠ [] := by
  intro hnil
  have hzero : maxStep s.gain.table = 0 := by rw [hnil, maxStep_nil]
  have hmem := clamp_mem step (hs.low.trans hs.high)
  have hinside := hs.inside
  have hnonneg := hs.nonneg
  have hlow := hs.low
  have hhigh := hs.high
  omega

theorem Ordered.of_step (hs : s.Ordered) (htable : SameTable s s')
    (hlimit : s'.range.gainLimit ≤ s.gain.max) (hlow : s.gain.min ≤ s'.gain.current)
    (hhigh : s'.gain.current ≤ s.gain.max) : s'.Ordered := by
  refine ⟨?_, ?_, ?_, ?_, ?_⟩
  · rw [htable.min]
    exact hs.nonneg
  · rw [htable.min]
    exact hlow
  · rw [htable.max]
    exact hhigh
  · rw [htable.max]
    exact hlimit
  · rw [htable.max, htable.table]
    exact hs.inside

/-- The gain steps are all that counts. -/
theorem Ordered.of_gain (hs : s.Ordered) (hgain : s'.gain = s.gain)
    (hlimit : s'.range.gainLimit = s.range.gainLimit) : s'.Ordered := by
  refine hs.of_step ⟨by rw [hgain], by rw [hgain], by rw [hgain]⟩ ?_ ?_ ?_
  · rw [hlimit]
    exact hs.limit
  · rw [hgain]
    exact hs.low
  · rw [hgain]
    exact hs.high

/-! ## Section 2: The controllers -/

/-- Nothing but measurements, timers and the state of the scan has changed. -/
structure SameGain (s s' : AdaptiveGain F P D) : Prop where
  sampling  : SameSampling s s'
  gain      : s'.gain = s.gain
  threshold : s'.burst.loudThreshold = s.burst.loudThreshold
  suggested : s'.suggestedGainStep = s.suggestedGainStep

theorem SameGain.trans (h : SameGain s s') (h' : SameGain s' s'') : SameGain s s'' :=
  ⟨h.sampling.trans h'.sampling, h'.gain.trans h.gain, h'.threshold.trans h.threshold,
    h'.suggested.trans h.suggested⟩

theorem SameGain.table (h : SameGain s s') : SameTable s s' :=
  ⟨by rw [h.gain], by rw [h.gain], by rw [h.gain]⟩

theorem SameGain.derived (h : SameGain s s') (hs : s.Derived A) : s'.Derived A := by
  unfold Derived
  rw [h.gain, h.threshold]
  exact hs

theorem SameGain.ordered (h : SameGain s s') (hs : s.Ordered)
    (hlimit : s'.range.gainLimit ≤ s.gain.max) : s'.Ordered := by
  refine hs.of_step h.table hlimit ?_ ?_
  · rw [h.gain]
    exact hs.low
  · rw [h.gain]
    exact hs.high

theorem SameGain.rfl : SameGain s s := ⟨SameSampling.rfl, by rfl, by rfl, by rfl⟩

/-- `control` and the measurements change these fields only. -/
theorem sameGain_of {burst : Burst P D} {range : Range D} {floor dynamic : D} {und dec : ℕ}
    (hwindow : burst.windowRemaining = s.burst.windowRemaining)
    (hthreshold : burst.loudThreshold = s.burst.loudThreshold) :
    SameGain s { s with
      burst := burst
      range := range
      noiseFloorDbfs := floor
      dynamicRangeDb := dynamic
      loudUndecoded := und
      loudDecoded := dec } :=
  ⟨⟨by rfl, by rfl, by rfl, by rfl, hwindow⟩, by rfl, hthreshold, by rfl⟩

variable (A s)

theorem rangeEndOfBlock_same :
    SameGain s (rangeEndOfBlock A s) ∧
      (rangeEndOfBlock A s).range.gainLimit = s.range.gainLimit := by
  unfold rangeEndOfBlock
  split
  · exact ⟨sameGain_of (by rfl) (by rfl), by rfl⟩
  · exact ⟨SameGain.rfl, by rfl⟩

theorem burstEndOfBlock_same :
    SameGain s (burstEndOfBlock A s) ∧
      (burstEndOfBlock A s).range.gainLimit = s.range.gainLimit := by
  unfold burstEndOfBlock
  split
  · exact ⟨sameGain_of (by rfl) (by rfl), by rfl⟩
  · exact ⟨SameGain.rfl, by rfl⟩

theorem measured_same :
    SameGain s (measured A s) ∧ (measured A s).range.gainLimit = s.range.gainLimit := by
  have hrange := rangeEndOfBlock_same A s
  have hburst := burstEndOfBlock_same A (rangeEndOfBlock A s)
  exact ⟨hrange.1.trans hburst.1, hburst.2.trans hrange.2⟩

theorem endScan_limit (r : Range D) : (endScan r).gainLimit = r.gainLimit := by
  unfold endScan
  split <;> rfl

/-- The burst controller asks for more gain below the limit of the scan only. -/
theorem burstControl_same :
    SameGain s (burstControl A s).1 ∧
      (burstControl A s).1.range.gainLimit = s.range.gainLimit ∧
      ((burstControl A s).2.up = true → s.gain.current < s.range.gainLimit) := by
  unfold burstControl
  split
  · dsimp only
    split
    · exact ⟨sameGain_of (by rfl) (by rfl), endScan_limit _, fun h => absurd h Bool.false_ne_true⟩
    · split
      · exact ⟨sameGain_of (by rfl) (by rfl), by rfl, fun h => absurd h Bool.false_ne_true⟩
      · exact ⟨sameGain_of (by rfl) (by rfl), by rfl, fun h => of_decide_eq_true h⟩
  · exact ⟨SameGain.rfl, by rfl, fun h => absurd h Bool.false_ne_true⟩

variable {s}

theorem lowerLimit_le {r : Range D} {current last : ℤ} (h : r.gainLimit ≤ last) :
    (lowerLimit r current).gainLimit ≤ last := by
  unfold lowerLimit
  split
  · next hle =>
    show current - 1 ≤ last
    omega
  · exact h

/-- The scan keeps the limit within the table and asks for more gain below its end only. -/
theorem scanRange_spec {r : Range D} {w : Wishes} (hr : r.gainLimit ≤ s.gain.max)
    (hw : w.up = true → s.gain.current < s.gain.max) :
    (scanRange A s r w).1.gainLimit ≤ s.gain.max ∧
      ((scanRange A s r w).2.up = true → s.gain.current < s.gain.max) := by
  have hlower : (lowerLimit r s.gain.current).gainLimit ≤ s.gain.max := lowerLimit_le hr
  cases hstate : r.state with
  | rescanUp =>
    simp only [scanRange, hstate]
    split
    · exact ⟨lowerLimit_le hr, hw⟩
    · split
      · exact ⟨hr, hw⟩
      · split
        · exact ⟨hr, hw⟩
        · next hmax _ => exact ⟨hr, fun _ => lt_of_not_ge hmax⟩
  | scanDown | rescanDown =>
    simp only [scanRange, hstate]
    split
    · exact ⟨hr, hw⟩
    · split
      · exact ⟨hlower, hw⟩
      · exact ⟨hlower, hw⟩
  | idle =>
    simp only [scanRange, hstate]
    split
    · exact ⟨hlower, hw⟩
    · split
      · split
        · next hroom => exact ⟨hr, fun _ => hroom.2⟩
        · exact ⟨hr, hw⟩
      · exact ⟨hr, hw⟩

theorem rangeControl_spec {w : Wishes} (hs : s.Ordered)
    (hw : w.up = true → s.gain.current < s.gain.max) :
    SameGain s (rangeControl A s w).1 ∧ (rangeControl A s w).1.range.gainLimit ≤ s.gain.max ∧
      ((rangeControl A s w).2.up = true → s.gain.current < s.gain.max) := by
  unfold rangeControl
  split
  · have hlimit : (raiseLimit A s).gainLimit ≤ s.gain.max := by
      unfold raiseLimit
      split
      · exact hs.high
      · exact hs.limit
    obtain ⟨hscan, hup⟩ := scanRange_spec A hlimit hw
    exact ⟨sameGain_of (by rfl) (by rfl), hscan, hup⟩
  · exact ⟨SameGain.rfl, hs.limit, hw⟩

/-- Both controllers leave the gain as it is, keep the limit of the scan within the table
    and ask for more gain below its end only. -/
theorem control_spec (hs : s.Ordered) :
    SameGain s (control A s).1 ∧ (control A s).1.Ordered ∧
      ((control A s).2.up = true → s.gain.current < s.gain.max) := by
  have htick : SameGain s (tickTimers s) := sameGain_of (by rfl) (by rfl)
  obtain ⟨hburst, hlimit, hup⟩ := burstControl_same A (tickTimers s)
  have hsame := htick.trans hburst
  have hlimit' : (burstControl A (tickTimers s)).1.range.gainLimit ≤ s.gain.max := by
    rw [hlimit]
    exact hs.limit
  have hs' := hsame.ordered hs hlimit'
  obtain ⟨hrange, hle, hup'⟩ := rangeControl_spec A (w := (burstControl A (tickTimers s)).2) hs'
    fun h => by
      rw [hsame.gain]
      exact (hup h).trans_le hs.limit
  rw [hsame.gain] at hle hup'
  have hall := hsame.trans hrange
  exact ⟨hall, hall.ordered hs hle, hup'⟩

/-! ## Section 3: A decision -/

/-- What holds after the end of a block that began in `s`. -/
structure Decided (s s' : AdaptiveGain F P D) (lower : Prop) : Prop where
  ordered  : s'.Ordered
  sampling : SameSampling s s'
  table    : SameTable s s'
  derived  : s.Derived A → s'.Derived A
  /-- The suggested step is the new current step. -/
  step     : ∀ step, s'.suggestedGainStep = some step → step = s'.gain.current
  /-- It is the old one too just where less gain is asked for at the lowest step. -/
  idle     : (∃ step, s'.suggestedGainStep = some step ∧ s'.gain.current = s.gain.current) ↔
    lower ∧ s.gain.current = s.gain.min

theorem suggest_spec (hs : s.Ordered) (step : ℤ) :
    ∃ s', (do
        let s ← setGain A s step
        .ok { s with suggestedGainStep := some s.gain.current }) = Except.ok s' ∧
      s'.Ordered ∧ SameSampling s s' ∧ SameTable s s' ∧ (s.Derived A → s'.Derived A) ∧
      s'.suggestedGainStep = some s'.gain.current ∧
      s'.gain.current = clamp step s.gain.min s.gain.max := by
  obtain ⟨s', hset, hcurrent, hsame, hnew, hsampling, htable, hlimit, -⟩ :=
    setGain_of_limits (A := A) step hs.nonneg (hs.low.trans hs.high) hs.inside hs.table_ne_nil
  have hmem := clamp_mem step (hs.low.trans hs.high)
  have hordered : s'.Ordered := by
    refine hs.of_step htable ?_ ?_ ?_
    · rw [hlimit]
      exact hs.limit
    · rw [hcurrent]
      exact hmem.1
    · rw [hcurrent]
      exact hmem.2
  have hderived : s.Derived A → s'.Derived A := by
    intro hold
    by_cases heq : s'.gain.current = s.gain.current
    · rw [hsame heq]
      exact hold
    · exact hnew heq
  rw [hset]
  exact ⟨_, rfl, ⟨hordered.nonneg, hordered.low, hordered.high, hordered.limit, hordered.inside⟩,
    ⟨hsampling.settings, hsampling.timing, hsampling.subblocks, hsampling.samples,
      hsampling.window⟩, ⟨htable.table, htable.min, htable.max⟩, hderived, rfl, hcurrent⟩

theorem controlUpdate_spec (hs : s.Ordered) (hsug : s.suggestedGainStep = none) :
    ∃ s', controlUpdate A s = .ok s' ∧ Decided A s s' ((control A s).2.down = true) := by
  obtain ⟨hsame, hordered, hup⟩ := control_spec A hs
  have hlow := hs.low
  have hhigh := hs.high
  unfold controlUpdate
  dsimp only
  by_cases hdown : (control A s).2.down = true
  · rw [if_pos hdown]
    obtain ⟨s', hs', ho, hsampling, htable, hderived, hsug', hcurrent⟩ :=
      suggest_spec A hordered ((control A s).1.gain.current - 1)
    rw [hsame.gain] at hcurrent
    refine ⟨s', hs', ho, hsame.sampling.trans hsampling, hsame.table.trans htable,
      fun h => hderived (hsame.derived h), fun step h => ?_, ?_⟩
    · rw [hsug'] at h
      exact (Option.some.inj h).symm
    · -- one step less stays within the limits unless the step is the lowest
      have hclamp : clamp (s.gain.current - 1) s.gain.min s.gain.max = s.gain.current ↔
          s.gain.current = s.gain.min := by
        unfold clamp
        omega
      constructor
      · rintro ⟨-, -, heq⟩
        exact ⟨hdown, hclamp.mp (hcurrent.symm.trans heq)⟩
      · rintro ⟨-, heq⟩
        exact ⟨_, hsug', hcurrent.trans (hclamp.mpr heq)⟩
  · rw [if_neg hdown]
    by_cases hmore : ((control A s).2.up && !(control A s).2.notUp) = true
    · rw [if_pos hmore]
      obtain ⟨s', hs', ho, hsampling, htable, hderived, hsug', hcurrent⟩ :=
        suggest_spec A hordered ((control A s).1.gain.current + 1)
      rw [hsame.gain] at hcurrent
      refine ⟨s', hs', ho, hsame.sampling.trans hsampling, hsame.table.trans htable,
        fun h => hderived (hsame.derived h), fun step h => ?_, ?_⟩
      · rw [hsug'] at h
        exact (Option.some.inj h).symm
      · have hroom := hup (Bool.and_eq_true_iff.mp hmore).1
        constructor
        · rintro ⟨-, -, heq⟩
          have hclamp : clamp (s.gain.current + 1) s.gain.min s.gain.max = s.gain.current :=
            hcurrent.symm.trans heq
          unfold clamp at hclamp
          omega
        · rintro ⟨hd, -⟩
          exact absurd hd hdown
    · rw [if_neg hmore]
      have hnone : (control A s).1.suggestedGainStep = none := hsame.suggested.trans hsug
      refine ⟨_, rfl, hordered, hsame.sampling, hsame.table, hsame.derived, fun step h => ?_, ?_⟩
      · rw [hnone] at h
        cases h
      · constructor
        · rintro ⟨step, h, -⟩
          rw [hnone] at h
          cases h
        · rintro ⟨hd, -⟩
          exact absurd hd hdown

/-- The controllers ask for less gain at the end of this block. -/
def AsksLower (s : AdaptiveGain F P D) : Prop := (control A (measured A s)).2.down = true

theorem endOfBlock_spec (hs : s.Ordered) (hsug : s.suggestedGainStep = none) :
    ∃ s', endOfBlock A s = .ok s' ∧ Decided A s s' (AsksLower A s) := by
  obtain ⟨hsame, hlimit⟩ := measured_same A s
  have hordered : (measured A s).Ordered := hsame.ordered hs (by
    rw [hlimit]
    exact hs.limit)
  obtain ⟨s', hs', hd⟩ := controlUpdate_spec A hordered (hsame.suggested.trans hsug)
  have hgain : (measured A s).gain = s.gain := hsame.gain
  have hsampling := hsame.sampling.trans hd.sampling
  have htable := hsame.table.trans hd.table
  have hidle := hd.idle
  rw [hgain] at hidle
  unfold endOfBlock
  rw [hs']
  exact ⟨_, rfl, hd.ordered.of_gain rfl rfl, ⟨hsampling.settings, hsampling.timing,
    hsampling.subblocks, hsampling.samples, hsampling.window⟩,
    ⟨htable.table, htable.min, htable.max⟩,
    fun h => hd.derived (hsame.derived h), hd.step, hidle⟩

end AdaptiveGain

/-! ## Section 4: Windows, sample by sample -/

namespace Burst

variable (samplesPerWindow : ℕ)

/-- The samples of the open window: how many are missing, how many were loud. -/
def withWindow (b : Burst P D) (counter remaining : ℕ) : Burst P D :=
  { b with windowCounter := counter, windowRemaining := remaining }

/-- One sample; the last one of a window ends it. -/
def tick (b : Burst P D) (sample : UInt16) : Burst P D :=
  if b.windowRemaining = 1 then
    (b.endOfWindow samplesPerWindow (b.windowCounter + countLoudSamples [sample])).withWindow
      0 samplesPerWindow
  else
    b.withWindow (b.windowCounter + countLoudSamples [sample]) (b.windowRemaining - 1)

/-- A window is open, with no more samples missing than a window has. -/
def Open (b : Burst P D) : Prop :=
  0 < b.windowRemaining ∧ b.windowRemaining ≤ samplesPerWindow

variable {samplesPerWindow} {b : Burst P D}

theorem endOfWindow_withWindow (b : Burst P D) (counter remaining k : ℕ) :
    (b.withWindow counter remaining).endOfWindow samplesPerWindow k =
      (b.endOfWindow samplesPerWindow k).withWindow counter remaining := by
  unfold endOfWindow withWindow
  split <;> rfl

@[simp] theorem endOfWindow_windowRemaining (b : Burst P D) (k : ℕ) :
    (b.endOfWindow samplesPerWindow k).windowRemaining = b.windowRemaining := by
  unfold endOfWindow
  split <;> rfl

@[simp] theorem endOfWindow_loudThreshold (b : Burst P D) (k : ℕ) :
    (b.endOfWindow samplesPerWindow k).loudThreshold = b.loudThreshold := by
  unfold endOfWindow
  split <;> rfl

theorem countLoudSamples_cons (sample : UInt16) (buf : List UInt16) :
    countLoudSamples (sample :: buf) = countLoudSamples [sample] + countLoudSamples buf := by
  unfold countLoudSamples
  rw [List.countP_cons, List.countP_cons]
  simp [Nat.add_comm]

/-- Samples that leave the window open. -/
theorem foldl_tick_of_lt {buf : List UInt16} (h : buf.length < b.windowRemaining) :
    buf.foldl (tick samplesPerWindow) b =
      b.withWindow (b.windowCounter + countLoudSamples buf) (b.windowRemaining - buf.length) := by
  induction buf generalizing b with
  | nil => rfl
  | cons sample buf ih =>
    have hlen : buf.length + 1 < b.windowRemaining := h
    have htick : b.tick samplesPerWindow sample =
        b.withWindow (b.windowCounter + countLoudSamples [sample]) (b.windowRemaining - 1) := by
      unfold tick
      rw [if_neg (by omega)]
    rw [List.foldl_cons, htick, ih (show buf.length < b.windowRemaining - 1 by omega),
      countLoudSamples_cons sample buf, List.length_cons]
    unfold withWindow
    dsimp only
    rw [Nat.add_assoc, Nat.sub_sub, Nat.add_comm 1 buf.length]

/-- Samples that fill the window. -/
theorem foldl_tick_of_eq {buf : List UInt16} (hpos : 0 < b.windowRemaining)
    (h : buf.length = b.windowRemaining) :
    buf.foldl (tick samplesPerWindow) b =
      (b.endOfWindow samplesPerWindow (b.windowCounter + countLoudSamples buf)).withWindow
        0 samplesPerWindow := by
  obtain ⟨front, last, rfl⟩ := (List.eq_nil_or_concat' buf).resolve_left (by
    rintro rfl
    exact absurd h (by simp; omega))
  rw [List.length_append, List.length_singleton] at h
  have hcount : countLoudSamples (front ++ [last]) =
      countLoudSamples front + countLoudSamples [last] := List.countP_append
  rw [List.foldl_append, foldl_tick_of_lt (show front.length < b.windowRemaining by omega),
    hcount, List.foldl_cons, List.foldl_nil]
  -- the last sample finds a window with one sample missing
  have hone : (b.withWindow (b.windowCounter + countLoudSamples front)
      (b.windowRemaining - front.length)).windowRemaining = 1 := by
    show b.windowRemaining - front.length = 1
    omega
  unfold tick
  rw [if_pos hone, endOfWindow_withWindow, ← Nat.add_assoc]
  rfl

/-- Samples of whole windows, from the start of one. -/
theorem foldl_tick_windows (hpos : 0 < samplesPerWindow) (windows : ℕ) {buf : List UInt16}
    (hlen : buf.length = windows * samplesPerWindow) (b : Burst P D) :
    buf.foldl (tick samplesPerWindow) (b.withWindow 0 samplesPerWindow) =
      (scanWindows samplesPerWindow windows b buf).withWindow 0 samplesPerWindow := by
  induction windows generalizing b buf with
  | zero =>
    rw [List.length_eq_zero_iff.mp (hlen.trans (Nat.zero_mul _))]
    rfl
  | succ windows ih =>
    rw [Nat.succ_mul] at hlen
    have hfirst : (buf.take samplesPerWindow).length = samplesPerWindow := by
      rw [List.length_take]
      omega
    have hrest : (buf.drop samplesPerWindow).length = windows * samplesPerWindow := by
      rw [List.length_drop]
      omega
    have hwindow : (buf.take samplesPerWindow).foldl (tick samplesPerWindow)
        (b.withWindow 0 samplesPerWindow) = _ := foldl_tick_of_eq hpos hfirst
    rw [endOfWindow_withWindow] at hwindow
    rw [← List.take_append_drop samplesPerWindow buf, List.foldl_append, hwindow,
      List.take_append_drop]
    unfold scanWindows
    have hzero : (b.withWindow 0 samplesPerWindow).windowCounter = 0 := rfl
    rw [hzero, Nat.zero_add]
    exact ih hrest (b.endOfWindow samplesPerWindow (countLoudSamples (buf.take samplesPerWindow)))

theorem startWindows_eq_foldl (hpos : 0 < samplesPerWindow) (b : Burst P D) (buf : List UInt16) :
    b.startWindows samplesPerWindow buf buf.length =
      .ok (buf.foldl (tick samplesPerWindow) (b.withWindow 0 samplesPerWindow)) := by
  have hwhole : buf.length / samplesPerWindow * samplesPerWindow ≤ buf.length :=
    Nat.div_mul_le_self _ _
  have htake : (buf.take (buf.length / samplesPerWindow * samplesPerWindow)).length =
      buf.length / samplesPerWindow * samplesPerWindow := by
    rw [List.length_take]
    omega
  have htail : buf.length - buf.length / samplesPerWindow * samplesPerWindow <
      samplesPerWindow := by
    have := Nat.lt_div_mul_add hpos (a := buf.length)
    omega
  have hdrop : (buf.drop (buf.length / samplesPerWindow * samplesPerWindow)).length =
      buf.length - buf.length / samplesPerWindow * samplesPerWindow := List.length_drop
  -- the whole windows first, then the samples of the open one
  have hfold : buf.foldl (tick samplesPerWindow) (b.withWindow 0 samplesPerWindow) =
      (scanWindows samplesPerWindow (buf.length / samplesPerWindow) b
        (buf.take (buf.length / samplesPerWindow * samplesPerWindow))).withWindow
          (0 + countLoudSamples (buf.drop (buf.length / samplesPerWindow * samplesPerWindow)))
          (samplesPerWindow -
            (buf.drop (buf.length / samplesPerWindow * samplesPerWindow)).length) := by
    conv_lhs => rw [← List.take_append_drop
      (buf.length / samplesPerWindow * samplesPerWindow) buf]
    rw [List.foldl_append, foldl_tick_windows hpos _ htake,
      foldl_tick_of_lt (b := withWindow _ 0 samplesPerWindow) (hdrop.trans_lt htail)]
    rfl
  rw [hfold, hdrop, Nat.zero_add]
  unfold startWindows
  simp only [Checked.sub_of_le hwhole, Checked.sub_of_le htail.le, bind, Except.bind]
  rfl

/-- **Buffers are read sample by sample**: the head, the whole windows and the tail of a
    buffer are its samples one after another, and no subtraction underflows. -/
theorem update_eq_foldl (hopen : b.Open samplesPerWindow) (buf : List UInt16) :
    b.update samplesPerWindow buf = .ok (buf.foldl (tick samplesPerWindow) b) := by
  unfold update
  by_cases hlt : buf.length < b.windowRemaining
  · rw [if_pos hlt, foldl_tick_of_lt hlt]
    rfl
  · rw [if_neg hlt]
    have hn : b.windowRemaining ≤ buf.length := not_lt.mp hlt
    have hhead : (buf.take b.windowRemaining).length = b.windowRemaining := by
      rw [List.length_take]
      omega
    have hsplit : buf.foldl (tick samplesPerWindow) b =
        (buf.drop b.windowRemaining).foldl (tick samplesPerWindow)
          ((b.endOfWindow samplesPerWindow
            (b.windowCounter + countLoudSamples (buf.take b.windowRemaining))).withWindow
              0 samplesPerWindow) := by
      rw [← foldl_tick_of_eq hopen.1 hhead, ← List.foldl_append, List.take_append_drop]
    rw [hsplit, ← startWindows_eq_foldl (hopen.1.trans_le hopen.2), List.length_drop]
    simp only [Checked.sub_of_le hn]
    rfl

theorem tick_open (hopen : b.Open samplesPerWindow) (sample : UInt16) :
    (b.tick samplesPerWindow sample).Open samplesPerWindow ∧
      (b.tick samplesPerWindow sample).loudThreshold = b.loudThreshold := by
  obtain ⟨hpos, hle⟩ := hopen
  unfold tick
  split
  · exact ⟨⟨hpos.trans_le hle, le_rfl⟩, endOfWindow_loudThreshold b _⟩
  · next hne =>
    refine ⟨?_, rfl⟩
    show 0 < b.windowRemaining - 1 ∧ b.windowRemaining - 1 ≤ samplesPerWindow
    omega

theorem foldl_tick_open (hopen : b.Open samplesPerWindow) (buf : List UInt16) :
    (buf.foldl (tick samplesPerWindow) b).Open samplesPerWindow ∧
      (buf.foldl (tick samplesPerWindow) b).loudThreshold = b.loudThreshold := by
  induction buf generalizing b with
  | nil => exact ⟨hopen, rfl⟩
  | cons sample buf ih =>
    obtain ⟨hopen', hthreshold⟩ := tick_open hopen sample
    obtain ⟨hfinal, hsame⟩ := ih hopen'
    exact ⟨hfinal, hsame.trans hthreshold⟩

theorem iterate_endOfWindow_loudThreshold (n : ℕ) (b : Burst P D) :
    ((fun b : Burst P D => b.endOfWindow samplesPerWindow 0)^[n] b).loudThreshold =
      b.loudThreshold := by
  induction n generalizing b with
  | zero => rfl
  | succ n ih =>
    rw [Function.iterate_succ_apply, ih, endOfWindow_loudThreshold]

/-- No subtraction underflows for a decoded message either. -/
theorem skip_spec (hopen : b.Open samplesPerWindow) (length : ℕ) :
    ∃ b', b.skip samplesPerWindow length = .ok b' ∧ b'.Open samplesPerWindow ∧
      b'.loudThreshold = b.loudThreshold := by
  obtain ⟨hpos, hle⟩ := hopen
  have hspw : 0 < samplesPerWindow := hpos.trans_le hle
  unfold skip
  by_cases hlt : length < b.windowRemaining
  · rw [if_pos hlt]
    refine ⟨_, rfl, ?_, rfl⟩
    show 0 < b.windowRemaining - length ∧ b.windowRemaining - length ≤ samplesPerWindow
    omega
  · rw [if_neg hlt]
    have hn : b.windowRemaining ≤ length := not_lt.mp hlt
    simp only [Checked.sub_of_le hn, bind, Except.bind]
    generalize length - b.windowRemaining = rest
    have hwhole : rest / samplesPerWindow * samplesPerWindow ≤ rest := Nat.div_mul_le_self _ _
    have htail := Nat.lt_div_mul_add hspw (a := rest)
    simp only [Checked.sub_of_le hwhole]
    have hlast : rest - rest / samplesPerWindow * samplesPerWindow ≤ samplesPerWindow := by omega
    simp only [Checked.sub_of_le hlast]
    refine ⟨_, rfl, ?_, ?_⟩
    · constructor
      · show 0 < samplesPerWindow - (rest - rest / samplesPerWindow * samplesPerWindow)
        omega
      · exact Nat.sub_le _ _
    · exact (iterate_endOfWindow_loudThreshold _ _).trans (endOfWindow_loudThreshold b _)

end Burst

namespace AdaptiveGain

/-! ## Section 5: A buffer -/

/-- The invariant of the controller between any two steps of `update`. -/
structure Well (s : AdaptiveGain F P D) : Prop where
  ordered       : s.Ordered
  samples_pos   : 0 < s.subblockSamplesRemaining
  samples_le    : s.subblockSamplesRemaining ≤ s.timing.samplesPerSubblock
  subblocks_pos : 0 < s.subblocksRemaining
  subblocks_le  : s.subblocksRemaining ≤ SUBBLOCKS_PER_BLOCK
  window        : s.burst.Open s.timing.samplesPerWindow
  /-- Suggestions are passed on at once. -/
  suggested     : s.suggestedGainStep = none

variable {A} {s s' s'' : AdaptiveGain F P D}

/-- What the samples of a subblock change: counts only. -/
structure Counted (s s' : AdaptiveGain F P D) : Prop where
  same  : s' = { s with burst := s'.burst, range := s'.range }
  window : s'.burst.Open s.timing.samplesPerWindow
  threshold : s'.burst.loudThreshold = s.burst.loudThreshold
  limit : s'.range.gainLimit = s.range.gainLimit

theorem updateSubblock_spec (hs : s.burst.Open s.timing.samplesPerWindow) (buf : List UInt16)
    (decoded : Option P) :
    ∃ s', updateSubblock A s buf decoded = .ok s' ∧ Counted s s' := by
  unfold updateSubblock
  cases decoded with
  | none =>
    by_cases hburst : s.settings.burstEnabled = true
    · obtain ⟨hopen, hthreshold⟩ := Burst.foldl_tick_open hs buf
      simp only [hburst, if_pos, Burst.update_eq_foldl hs]
      refine ⟨_, rfl, by rfl, hopen, hthreshold, ?_⟩
      dsimp only
      split <;> rfl
    · simp only [hburst]
      refine ⟨_, rfl, by rfl, hs, by rfl, ?_⟩
      dsimp only
      split <;> rfl
  | some level =>
    dsimp only
    have hloud : ∀ burst : Burst P D,
        burst = (if A.reachesPower level s.burst.loudThreshold then
          { s.burst with blockLoudDecoded := s.burst.blockLoudDecoded + 1 } else s.burst) →
        burst.Open s.timing.samplesPerWindow ∧ burst.loudThreshold = s.burst.loudThreshold := by
      rintro burst rfl
      split
      · exact ⟨hs, rfl⟩
      · exact ⟨hs, rfl⟩
    obtain ⟨hopen, hthreshold⟩ := hloud _ rfl
    generalize (if A.reachesPower level s.burst.loudThreshold then
      { s.burst with blockLoudDecoded := s.burst.blockLoudDecoded + 1 } else s.burst) = burst
      at hopen hthreshold
    by_cases hburst : s.settings.burstEnabled = true
    · obtain ⟨b', hskip, hopen', hthreshold'⟩ := Burst.skip_spec hopen buf.length
      simp only [hburst, if_pos, hskip]
      exact ⟨_, rfl, by rfl, hopen', hthreshold'.trans hthreshold, by rfl⟩
    · simp only [hburst]
      exact ⟨_, rfl, by rfl, hopen, hthreshold, by rfl⟩

theorem Counted.rfl (hs : s.burst.Open s.timing.samplesPerWindow) : Counted s s :=
  ⟨by rfl, hs, by rfl, by rfl⟩

theorem Counted.gain (h : Counted s s') : s'.gain = s.gain := by rw [h.same]

theorem Counted.derived (h : Counted s s') (hs : s.Derived A) : s'.Derived A := by
  unfold Derived
  rw [h.gain, h.threshold]
  exact hs

theorem Counted.table (h : Counted s s') : SameTable s s' :=
  ⟨by rw [h.gain], by rw [h.gain], by rw [h.gain]⟩

theorem Counted.well (h : Counted s s') (hs : s.Well) : s'.Well := by
  have hordered : s'.Ordered := by
    refine hs.ordered.of_step h.table ?_ ?_ ?_
    · rw [h.limit]
      exact hs.ordered.limit
    · rw [h.gain]
      exact hs.ordered.low
    · rw [h.gain]
      exact hs.ordered.high
  have hwindow := h.window
  refine ⟨hordered, ?_, ?_, ?_, ?_, ?_, ?_⟩ <;> rw [h.same]
  · exact hs.samples_pos
  · exact hs.samples_le
  · exact hs.subblocks_pos
  · exact hs.subblocks_le
  · exact hwindow
  · exact hs.suggested

/-- What a decision that is made after `s` says. -/
structure Decision.Sound (A : Arithmetic F P D) (s : AdaptiveGain F P D) (d : Decision F P D) :
    Prop where
  before : SameTable s d.before ∧ d.before.Ordered
  after  : SameTable s d.after ∧ d.after.Ordered
  step   : ∀ step, d.suggested = some step → step = d.after.gain.current
  /-- A step is suggested that was the current one before just where the controllers ask for
      less gain at the lowest step. -/
  idle   : (∃ step, d.suggested = some step ∧ d.after.gain.current = d.before.gain.current) ↔
    AsksLower A d.before ∧ d.before.gain.current = d.before.gain.min

/-- What holds after a buffer, or a part of one. -/
structure Fed (A : Arithmetic F P D) (s s' : AdaptiveGain F P D)
    (decisions : List (Decision F P D)) : Prop where
  well      : s'.Well
  settings  : s'.settings = s.settings
  timing    : s'.timing = s.timing
  table     : SameTable s s'
  derived   : s.Derived A → s'.Derived A
  decisions : ∀ d ∈ decisions, d.Sound A s

theorem Decision.Sound.of_same {d : Decision F P D} (h : SameTable s s') (hd : d.Sound A s') :
    d.Sound A s :=
  ⟨⟨h.trans hd.before.1, hd.before.2⟩, ⟨h.trans hd.after.1, hd.after.2⟩, hd.step, hd.idle⟩

theorem Fed.trans {ds ds' : List (Decision F P D)} (h : Fed A s s' ds) (h' : Fed A s' s'' ds') :
    Fed A s s'' (ds ++ ds') := by
  refine ⟨h'.well, h'.settings.trans h.settings, h'.timing.trans h.timing,
    h.table.trans h'.table, fun hd => h'.derived (h.derived hd), fun d hd => ?_⟩
  rcases List.mem_append.mp hd with hd | hd
  · exact h.decisions d hd
  · exact (h'.decisions d hd).of_same h.table

theorem Counted.fed (h : Counted s s') (hs : s.Well) : Fed A s s' [] := by
  refine ⟨h.well hs, ?_, ?_, h.table, h.derived, fun d hd => absurd hd List.not_mem_nil⟩
  · rw [h.same]
  · rw [h.same]

theorem subblock_pos (t : Timing) : 0 < t.samplesPerSubblock :=
  Nat.mul_pos t.window_pos (Nat.succ_pos _)

/-- The duty cycle, and the window that ends with an active subblock. -/
def rollDuty (s : AdaptiveGain F P D) : AdaptiveGain F P D :=
  let s := { s with subblockSamplesRemaining := s.timing.samplesPerSubblock }
  let duty := s.dutyCounter + s.timing.dutyN
  if DUTY_D ≤ duty then { s with dutyCounter := duty - DUTY_D, subblockActive := true }
  else
    { s with
      dutyCounter := duty
      subblockActive := false
      burst := s.burst.endOfWindow s.timing.samplesPerWindow 0 }

theorem rollDuty_fed (hs : s.Well) :
    Fed A s (rollDuty s) [] ∧
      (rollDuty s).subblockSamplesRemaining = s.timing.samplesPerSubblock := by
  have hpos := subblock_pos s.timing
  unfold rollDuty
  dsimp only
  split
  · refine ⟨⟨⟨?_, hpos, le_rfl, hs.subblocks_pos, hs.subblocks_le, hs.window, hs.suggested⟩,
      by rfl, by rfl, ⟨by rfl, by rfl, by rfl⟩, id, fun d hd => absurd hd List.not_mem_nil⟩, by rfl⟩
    exact hs.ordered.of_gain rfl rfl
  · refine ⟨⟨⟨?_, hpos, le_rfl, hs.subblocks_pos, hs.subblocks_le, ?_, hs.suggested⟩,
      by rfl, by rfl, ⟨by rfl, by rfl, by rfl⟩, fun h => ?_,
      fun d hd => absurd hd List.not_mem_nil⟩, by rfl⟩
    · exact hs.ordered.of_gain rfl rfl
    · unfold Burst.Open
      rw [Burst.endOfWindow_windowRemaining]
      exact hs.window
    · unfold Derived
      rw [Burst.endOfWindow_loudThreshold]
      exact h

theorem roll_eq (s : AdaptiveGain F P D) : roll A s = (do
    let s := rollDuty s
    let subblocks ← Checked.sub s.subblocksRemaining 1
    if subblocks = 0 then
      let s := { s with subblocksRemaining := SUBBLOCKS_PER_BLOCK }
      let ended ← endOfBlock A s
      let after := { ended with suggestedGainStep := none }
      .ok (after, [⟨s, ended.suggestedGainStep, after⟩])
    else .ok ({ s with subblocksRemaining := subblocks }, [])) := rfl

/-- The end of a subblock. -/
theorem roll_spec (hs : s.Well) :
    ∃ s' ds, roll A s = .ok (s', ds) ∧ Fed A s s' ds ∧
      s'.subblockSamplesRemaining = s.timing.samplesPerSubblock := by
  obtain ⟨hduty, hfull⟩ := rollDuty_fed (A := A) hs
  rw [roll_eq]
  generalize rollDuty s = t at hduty hfull
  have ht := hduty.well
  have hpos : 1 ≤ t.subblocksRemaining := ht.subblocks_pos
  have hle := ht.subblocks_le
  dsimp only
  rw [Checked.sub_of_le hpos]
  by_cases hzero : t.subblocksRemaining - 1 = 0
  · -- a block is over: one decision
    simp only [bind, Except.bind, if_pos hzero]
    obtain ⟨s', hend, hd⟩ := endOfBlock_spec A
      (s := { t with subblocksRemaining := SUBBLOCKS_PER_BLOCK })
      (ht.ordered.of_gain rfl rfl) ht.suggested
    rw [hend]
    have hbefore : SameTable t { t with subblocksRemaining := SUBBLOCKS_PER_BLOCK } :=
      ⟨by rfl, by rfl, by rfl⟩
    have hordered : ({ s' with suggestedGainStep := none } : AdaptiveGain F P D).Ordered :=
      hd.ordered.of_gain rfl rfl
    have hafter : SameTable t { s' with suggestedGainStep := none } :=
      ⟨hd.table.table, hd.table.min, hd.table.max⟩
    have htiming : s'.timing = t.timing := hd.sampling.timing
    have hsamples : s'.subblockSamplesRemaining = t.subblockSamplesRemaining :=
      hd.sampling.samples
    have hsubblocks : s'.subblocksRemaining = SUBBLOCKS_PER_BLOCK := hd.sampling.subblocks
    have hwindow : s'.burst.windowRemaining = t.burst.windowRemaining := hd.sampling.window
    have hwell : ({ s' with suggestedGainStep := none } : AdaptiveGain F P D).Well := by
      refine ⟨hordered, ?_, ?_, ?_, ?_, ?_, rfl⟩
      · exact hsamples.symm ▸ ht.samples_pos
      · show s'.subblockSamplesRemaining ≤ s'.timing.samplesPerSubblock
        rw [hsamples, htiming]
        exact ht.samples_le
      · show 0 < s'.subblocksRemaining
        rw [hsubblocks]
        exact dutyD_pos
      · exact hsubblocks.le
      · show s'.burst.Open s'.timing.samplesPerWindow
        unfold Burst.Open
        rw [hwindow, htiming]
        exact ht.window
    refine ⟨_, _, rfl, hduty.trans ⟨hwell, hd.sampling.settings, htiming, hafter,
      hd.derived, fun d hmem => ?_⟩, hsamples.trans hfull⟩
    rw [List.mem_singleton.mp hmem]
    exact ⟨⟨hbefore, ht.ordered.nonneg, ht.ordered.low, ht.ordered.high, ht.ordered.limit,
      ht.ordered.inside⟩, ⟨hafter, hordered⟩, hd.step, hd.idle⟩
  · simp only [bind, Except.bind, if_neg hzero]
    refine ⟨_, _, rfl, hduty.trans ⟨⟨?_, ht.samples_pos, ht.samples_le,
      Nat.pos_of_ne_zero hzero, (Nat.sub_le _ _).trans hle, ht.window, ht.suggested⟩,
      rfl, rfl, ⟨rfl, rfl, rfl⟩, id, fun d hd => absurd hd List.not_mem_nil⟩, hfull⟩
    exact ht.ordered.of_gain rfl rfl

/-- The samples of an active subblock are counted, those of any other are not. -/
theorem activeSubblock_spec (hs : s.Well) (buf : List UInt16) (decoded : Option P) :
    ∃ s', activeSubblock A s buf decoded = .ok s' ∧ Counted s s' := by
  unfold activeSubblock
  split
  · exact updateSubblock_spec hs.window buf decoded
  · exact ⟨s, rfl, Counted.rfl hs.window⟩

/-- **A buffer**: with as much fuel as it has samples, `feed` ends without a panic. -/
theorem feed_spec (decoded : Option P) {fuel : ℕ} {buf : List UInt16} (hs : s.Well)
    (hfuel : buf.length < fuel) :
    ∃ s' ds, feed A decoded fuel s buf = .ok (s', ds) ∧ Fed A s s' ds := by
  induction fuel generalizing s buf with
  | zero => exact absurd hfuel (Nat.not_lt_zero _)
  | succ fuel ih =>
    unfold feed
    by_cases hfull : s.subblockSamplesRemaining ≤ buf.length
    · -- a subblock is completed, and at least one sample is used up
      rw [if_pos hfull]
      obtain ⟨s₁, hupdate, hcounted⟩ :=
        activeSubblock_spec (A := A) hs (buf.take s.subblockSamplesRemaining) decoded
      obtain ⟨s₂, ds, hroll, hfed, -⟩ := roll_spec (A := A) (hcounted.well hs)
      have hless : (buf.drop s.subblockSamplesRemaining).length < fuel := by
        have := hs.samples_pos
        rw [List.length_drop]
        omega
      obtain ⟨s₃, later, hrest, hlater⟩ := ih hfed.well hless
      dsimp only
      simp only [hupdate, hroll, hrest, bind, Except.bind]
      exact ⟨_, _, rfl, ((hcounted.fed hs).trans hfed).trans hlater⟩
    · rw [if_neg hfull]
      by_cases hnil : buf = []
      · rw [if_pos hnil]
        exact ⟨_, _, rfl, (Counted.rfl hs.window).fed hs⟩
      · rw [if_neg hnil]
        obtain ⟨s', hupdate, hcounted⟩ := activeSubblock_spec (A := A) hs buf decoded
        have hfed := hcounted.fed (A := A) hs
        have hsamples : s'.subblockSamplesRemaining = s.subblockSamplesRemaining := by
          rw [hcounted.same]
        have hle : buf.length ≤ s'.subblockSamplesRemaining := by omega
        simp only [hupdate, Checked.sub_of_le hle, bind, Except.bind]
        have hs' := hfed.well
        have hmax := hs'.samples_le
        refine ⟨_, _, rfl, ⟨⟨?_, ?_, ?_, hs'.subblocks_pos, hs'.subblocks_le, hs'.window,
          hs'.suggested⟩, hfed.settings, hfed.timing, ⟨hfed.table.table, hfed.table.min,
          hfed.table.max⟩, hfed.derived, hfed.decisions⟩⟩
        · exact ⟨hs'.ordered.nonneg, hs'.ordered.low, hs'.ordered.high, hs'.ordered.limit,
            hs'.ordered.inside⟩
        · show 0 < s'.subblockSamplesRemaining - buf.length
          omega
        · exact (Nat.sub_le _ _).trans hmax

theorem update_spec (hs : s.Well) (buf : List UInt16) (decoded : Option P) :
    ∃ s' ds, update A s buf decoded = .ok (s', ds) ∧ Fed A s s' ds := by
  unfold update
  split
  · exact feed_spec decoded hs (by omega)
  · exact ⟨_, _, rfl, (Counted.rfl hs.window).fed hs⟩

end AdaptiveGain
end Gain
