import EzSdr.Gain.Coherence

/-! # How Samples Are Cut into Buffers

    Windows, subblocks and blocks are counted down by whole buffers, with a
    head, a middle and a tail. The same counts are those of a machine that
    reads one sample at a time.

    **`partition_spec`**: after any calls, samples without decoded messages
    leave the same controller and the same last suggestion, however they are
    cut into buffers, and no subtraction underflows for any buffer. -/

namespace Gain.AdaptiveGain

variable {F P D : Type} {A : Arithmetic F P D} {s : AdaptiveGain F P D}

/-! ## Section 1: Counted samples -/

/-- The counts after these samples. -/
def counted (s : AdaptiveGain F P D) (buf : List UInt16) : AdaptiveGain F P D :=
  if s.subblockActive then
    { s with
      burst := if s.settings.burstEnabled then
          buf.foldl (Burst.tick s.timing.samplesPerWindow) s.burst
        else s.burst
      range := if s.settings.rangeEnabled then s.range.update buf else s.range }
  else s

theorem activeSubblock_eq (hs : s.burst.Open s.timing.samplesPerWindow) (buf : List UInt16) :
    activeSubblock A s buf none = .ok (s.counted buf) := by
  unfold activeSubblock counted updateSubblock
  by_cases hactive : s.subblockActive = true
  · by_cases hburst : s.settings.burstEnabled = true
    · simp only [hactive, hburst, if_pos, Burst.update_eq_foldl hs]
      rfl
    · simp only [hactive, hburst]
      rfl
  · simp only [hactive]
    rfl

@[simp] theorem counted_nil (s : AdaptiveGain F P D) : s.counted [] = s := by
  unfold counted Range.update
  split
  · split <;> split <;> rfl
  · rfl

theorem counted_inactive (h : s.subblockActive = false) (buf : List UInt16) :
    s.counted buf = s := by
  unfold counted
  rw [h]
  rfl

theorem range_update_append (r : Range D) (buf buf' : List UInt16) :
    r.update (buf ++ buf') = (r.update buf).update buf' := by
  unfold Range.update
  simp only [List.length_append, List.foldl_append, Nat.add_assoc]

theorem counted_append (s : AdaptiveGain F P D) (buf buf' : List UInt16) :
    s.counted (buf ++ buf') = (s.counted buf).counted buf' := by
  cases hactive : s.subblockActive with
  | false =>
    rw [counted_inactive hactive, counted_inactive hactive, counted_inactive hactive]
  | true =>
    unfold counted
    simp only [hactive, if_pos, List.foldl_append, range_update_append]
    by_cases hburst : s.settings.burstEnabled = true <;>
      by_cases hrange : s.settings.rangeEnabled = true <;> simp only [hburst, hrange, if_pos] <;> rfl

theorem counted_spec (hs : s.Well) (buf : List UInt16) : Counted s (s.counted buf) := by
  obtain ⟨hopen, hthreshold⟩ := Burst.foldl_tick_open hs.window buf
  cases hactive : s.subblockActive with
  | false =>
    rw [counted_inactive hactive]
    exact Counted.rfl hs.window
  | true =>
    unfold counted
    rw [if_pos hactive]
    refine ⟨by rfl, ?_, ?_, ?_⟩
    · dsimp only
      split
      · exact hopen
      · exact hs.window
    · dsimp only
      split
      · exact hthreshold
      · rfl
    · dsimp only
      split <;> rfl

/-! ## Section 2: Sample by sample -/

variable (A)

/-- One sample; the last one of a subblock ends it. -/
def tick (s : AdaptiveGain F P D) (sample : UInt16) :
    Checked (AdaptiveGain F P D × List (Decision F P D)) := do
  let s ← activeSubblock A s [sample] none
  if s.subblockSamplesRemaining = 1 then roll A s
  else .ok ({ s with subblockSamplesRemaining := s.subblockSamplesRemaining - 1 }, [])

def ticks : AdaptiveGain F P D → List UInt16 →
    Checked (AdaptiveGain F P D × List (Decision F P D))
  | s, [] => .ok (s, [])
  | s, sample :: samples => do
    let (s, ds) ← tick A s sample
    let (s, later) ← ticks s samples
    .ok (s, ds ++ later)

variable {A}

/-- The state in which a subblock ends is that of its last sample, less the count. -/
theorem roll_samples (s : AdaptiveGain F P D) (n : ℕ) :
    roll A { s with subblockSamplesRemaining := n } = roll A s := rfl

theorem tick_of_lt (hs : s.Well) (sample : UInt16) (h : 1 < s.subblockSamplesRemaining) :
    tick A s sample = .ok ({ s.counted [sample] with
      subblockSamplesRemaining := s.subblockSamplesRemaining - 1 }, []) := by
  have hsame : (s.counted [sample]).subblockSamplesRemaining = s.subblockSamplesRemaining := by
    rw [(counted_spec hs [sample]).same]
  unfold tick
  rw [activeSubblock_eq hs.window]
  simp only [bind, Except.bind]
  rw [if_neg (by omega), hsame]

theorem tick_of_eq (hs : s.Well) (sample : UInt16) (h : s.subblockSamplesRemaining = 1) :
    tick A s sample = roll A (s.counted [sample]) := by
  have hsame : (s.counted [sample]).subblockSamplesRemaining = s.subblockSamplesRemaining := by
    rw [(counted_spec hs [sample]).same]
  unfold tick
  rw [activeSubblock_eq hs.window]
  simp only [bind, Except.bind]
  rw [if_pos (by omega)]

/-- A sample that leaves the subblock unfinished. -/
theorem well_after_lt (hs : s.Well) (sample : UInt16) (h : 1 < s.subblockSamplesRemaining) :
    ({ s.counted [sample] with subblockSamplesRemaining := s.subblockSamplesRemaining - 1 } :
      AdaptiveGain F P D).Well := by
  have hcounted := counted_spec hs [sample]
  have hwell := hcounted.well hs
  have hle := hs.samples_le
  have htiming : (s.counted [sample]).timing = s.timing := by rw [hcounted.same]
  refine ⟨hwell.ordered.of_gain rfl rfl, ?_, ?_, hwell.subblocks_pos, hwell.subblocks_le,
    hwell.window, hwell.suggested⟩
  · show 0 < s.subblockSamplesRemaining - 1
    omega
  · show s.subblockSamplesRemaining - 1 ≤ (s.counted [sample]).timing.samplesPerSubblock
    rw [htiming]
    omega

/-- The count of missing samples and the counts of the samples do not meet. -/
theorem counted_samples (s : AdaptiveGain F P D) (n : ℕ) (buf : List UInt16) :
    ({ s with subblockSamplesRemaining := n } : AdaptiveGain F P D).counted buf =
      { s.counted buf with subblockSamplesRemaining := n } := by
  unfold counted
  dsimp only
  split <;> rfl

/-- Samples that leave the subblock unfinished. -/
theorem ticks_of_lt {buf : List UInt16} (hs : s.Well)
    (h : buf.length < s.subblockSamplesRemaining) :
    ticks A s buf = .ok ({ s.counted buf with
      subblockSamplesRemaining := s.subblockSamplesRemaining - buf.length }, []) := by
  induction buf generalizing s with
  | nil =>
    rw [counted_nil]
    rfl
  | cons sample buf ih =>
    have hlen : buf.length + 1 < s.subblockSamplesRemaining := h
    have hrest := ih (well_after_lt hs sample (by omega))
      (show buf.length < s.subblockSamplesRemaining - 1 by omega)
    unfold ticks
    rw [tick_of_lt hs sample (by omega)]
    simp only [bind, Except.bind, hrest, List.nil_append]
    rw [counted_samples, ← counted_append, List.singleton_append, List.length_cons, Nat.sub_sub,
      Nat.add_comm 1]

theorem ticks_append (buf buf' : List UInt16) (s : AdaptiveGain F P D) :
    ticks A s (buf ++ buf') = (do
      let (s, ds) ← ticks A s buf
      let (s, later) ← ticks A s buf'
      .ok (s, ds ++ later)) := by
  induction buf generalizing s with
  | nil =>
    cases h : ticks A s buf' with
    | error stop => simp only [ticks, bind, Except.bind, List.nil_append, h]
    | ok r => simp only [ticks, bind, Except.bind, List.nil_append, h]
  | cons sample buf ih =>
    simp only [List.cons_append, ticks, bind, Except.bind]
    cases tick A s sample with
    | error stop => rfl
    | ok r =>
      dsimp only
      rw [ih]
      cases h : ticks A r.1 buf with
      | error stop => rfl
      | ok r' =>
        simp only [bind, Except.bind]
        cases ticks A r'.1 buf' with
        | error stop => rfl
        | ok r'' => simp only [List.append_assoc]

/-- Samples that end the subblock. -/
theorem ticks_of_eq {buf : List UInt16} (hs : s.Well)
    (h : buf.length = s.subblockSamplesRemaining) :
    ticks A s buf = roll A (s.counted buf) := by
  have hpos := hs.samples_pos
  obtain ⟨front, last, rfl⟩ := (List.eq_nil_or_concat' buf).resolve_left (by
    rintro rfl
    exact absurd h (by simp; omega))
  rw [List.length_append, List.length_singleton] at h
  have hfront : front.length < s.subblockSamplesRemaining := by omega
  have hcounted := counted_spec hs front
  have hwell := hcounted.well hs
  have htiming : (s.counted front).timing = s.timing := by rw [hcounted.same]
  -- before its last sample the subblock misses one
  have hone : s.subblockSamplesRemaining - front.length = 1 := by omega
  have hwell' : ({ s.counted front with subblockSamplesRemaining := 1 } :
      AdaptiveGain F P D).Well :=
    ⟨hwell.ordered.of_gain rfl rfl, Nat.one_pos, subblock_pos _, hwell.subblocks_pos,
      hwell.subblocks_le, hwell.window, hwell.suggested⟩
  rw [ticks_append, ticks_of_lt hs hfront, hone]
  simp only [bind, Except.bind, ticks]
  rw [tick_of_eq hwell' last rfl, counted_samples, roll_samples, ← counted_append]
  cases roll A (s.counted (front ++ [last])) with
  | error stop => rfl
  | ok r => simp only [List.append_nil, List.nil_append]

/-! ## Section 3: Buffers -/

/-- The loop of `update` reads its samples one after another. -/
theorem feed_eq_ticks {fuel : ℕ} {buf : List UInt16} (hs : s.Well) (hfuel : buf.length < fuel) :
    feed A none fuel s buf = ticks A s buf := by
  induction fuel generalizing s buf with
  | zero => exact absurd hfuel (Nat.not_lt_zero _)
  | succ fuel ih =>
    unfold feed
    by_cases hfull : s.subblockSamplesRemaining ≤ buf.length
    · have htake : (buf.take s.subblockSamplesRemaining).length = s.subblockSamplesRemaining := by
        rw [List.length_take]
        omega
      have hless : (buf.drop s.subblockSamplesRemaining).length < fuel := by
        have := hs.samples_pos
        rw [List.length_drop]
        omega
      have hwell := (counted_spec hs (buf.take s.subblockSamplesRemaining)).well hs
      obtain ⟨s', ds, hroll, hfed, -⟩ := roll_spec (A := A) hwell
      rw [if_pos hfull]
      conv_rhs => rw [← List.take_append_drop s.subblockSamplesRemaining buf, ticks_append,
        ticks_of_eq hs htake, hroll]
      dsimp only
      simp only [activeSubblock_eq hs.window, hroll, bind, Except.bind, ih hfed.well hless]
    · have hlt : buf.length < s.subblockSamplesRemaining := not_le.mp hfull
      rw [if_neg hfull, ticks_of_lt hs hlt]
      by_cases hnil : buf = []
      · rw [if_pos hnil, hnil, counted_nil]
        rfl
      · have hsame : (s.counted buf).subblockSamplesRemaining = s.subblockSamplesRemaining := by
          rw [(counted_spec hs buf).same]
        rw [if_neg hnil]
        simp only [activeSubblock_eq hs.window, bind, Except.bind, hsame, Checked.sub_of_le hlt.le]

variable (A) in
/-- Buffers without decoded messages, with the last step that a call has returned. -/
def updates : AdaptiveGain F P D → Option ℤ → List (List UInt16) →
    Checked (AdaptiveGain F P D × Option ℤ)
  | s, last, [] => .ok (s, last)
  | s, last, buf :: parts => do
    let (s, ds) ← update A s buf none
    updates s ((lastSuggestion ds).or last) parts

theorem lastSuggestion_append (ds ds' : List (Decision F P D)) :
    lastSuggestion (ds ++ ds') = (lastSuggestion ds').or (lastSuggestion ds) := by
  unfold lastSuggestion
  rw [List.filterMap_append, List.getLast?_append]

/-- Only the samples count, not the buffers. -/
theorem updates_eq_ticks (parts : List (List UInt16)) (last : Option ℤ) (hs : s.Well)
    (henabled : (s.settings.burstEnabled || s.settings.rangeEnabled) = true) :
    ∃ s' ds, ticks A s parts.flatten = .ok (s', ds) ∧
      updates A s last parts = .ok (s', (lastSuggestion ds).or last) := by
  induction parts generalizing s last with
  | nil => exact ⟨s, [], rfl, rfl⟩
  | cons buf parts ih =>
    obtain ⟨t, ds, hupdate, hfed⟩ := update_spec (A := A) hs buf none
    have htick : ticks A s buf = .ok (t, ds) := by
      rw [← hupdate, ← feed_eq_ticks hs (show buf.length < buf.length + 2 by omega)]
      unfold update
      rw [if_pos henabled]
    obtain ⟨s', ds', hrest, hupdates⟩ := ih ((lastSuggestion ds).or last) hfed.well
      (by rw [hfed.settings]; exact henabled)
    refine ⟨s', ds ++ ds', ?_, ?_⟩
    · rw [List.flatten_cons, ticks_append, htick]
      simp only [bind, Except.bind, hrest]
    · unfold updates
      simp only [hupdate, bind, Except.bind, hupdates]
      rw [lastSuggestion_append, Option.or_assoc]

/-- While both controllers are off, nothing changes. -/
theorem updates_disabled {parts : List (List UInt16)} {last : Option ℤ}
    (hdisabled : (s.settings.burstEnabled || s.settings.rangeEnabled) ≠ true) :
    updates A s last parts = .ok (s, last) := by
  induction parts with
  | nil => rfl
  | cons buf parts ih =>
    have hupdate : update A s buf none = .ok (s, []) := by
      unfold update
      rw [if_neg hdisabled]
    unfold updates
    simp only [hupdate, bind, Except.bind]
    exact ih

variable (A) in
theorem run_well {sampleRate : ℕ} {inputs : List (Input F P)} {history : List (Event F P D)}
    (hrun : (machine A sampleRate).run (machine A sampleRate).init inputs = some (s, history)) :
    s.Well :=
  (machine A sampleRate).run_inv (P := fun _ s => s.Well) (I := fun _ => True)
    (new_well sampleRate)
    (fun _ _ _ _ _ hwell _ hstep => (answered A hwell (toOption_eq_some hstep)).well)
    (fun _ _ => trivial) hrun

variable (A) in
/-- **Partitions**: after any calls, the same samples leave the same controller and the same
    last suggestion, however they are cut, and every buffer is read to its end. -/
theorem partition_spec {sampleRate : ℕ} {inputs : List (Input F P)}
    {history : List (Event F P D)}
    (hrun : (machine A sampleRate).run (machine A sampleRate).init inputs = some (s, history)) :
    (∀ parts parts' : List (List UInt16), parts.flatten = parts'.flatten →
      ∃ s' last, updates A s none parts = .ok (s', last) ∧
        updates A s none parts' = .ok (s', last)) ∧
    ∀ buf decoded, ∃ s' ds, update A s buf decoded = .ok (s', ds) := by
  have hs := run_well A hrun
  refine ⟨fun parts parts' hsame => ?_, fun buf decoded => ?_⟩
  · by_cases henabled : (s.settings.burstEnabled || s.settings.rangeEnabled) = true
    · obtain ⟨s', ds, hticks, hupdates⟩ :=
        updates_eq_ticks (A := A) parts none hs henabled
      obtain ⟨s'', ds', hticks', hupdates'⟩ :=
        updates_eq_ticks (A := A) parts' none hs henabled
      rw [hsame, hticks'] at hticks
      obtain ⟨rfl, rfl⟩ := Prod.mk.inj (Except.ok.inj hticks)
      exact ⟨_, _, hupdates, hupdates'⟩
    · exact ⟨s, none, updates_disabled henabled, updates_disabled henabled⟩
  · obtain ⟨s', ds, hupdate, -⟩ := update_spec (A := A) hs buf decoded
    exact ⟨s', ds, hupdate⟩

/-- A loud block at once, and cut inside a burst: the same step is suggested. -/
theorem partition_spec_loud : ∃ s s',
    updates decibels s none [loudBlock] = .ok (s', some 0) ∧
      updates decibels s none [loudBlock.take 700, [], loudBlock.drop 700] = .ok (s', some 0) ∧
      s'.subblocksRemaining = SUBBLOCKS_PER_BLOCK := by
  have hvalues : ((machine decibels 25000).run (machine decibels 25000).init loudFront).bind
      (fun r => (updates decibels r.1 none [loudBlock]).toOption.map
        fun u => (u.1.subblocksRemaining, u.2)) = some (20, some 0) := by
    decide +kernel
  obtain ⟨⟨s, history⟩, hrun, hupdates⟩ := Option.bind_eq_some_iff.mp hvalues
  obtain ⟨⟨s', last⟩, hone, hvalue⟩ := Option.map_eq_some_iff.mp hupdates
  obtain ⟨hremaining, rfl⟩ := Prod.mk.inj hvalue
  have hcut : [loudBlock].flatten = [loudBlock.take 700, [], loudBlock.drop 700].flatten := by
    rw [List.flatten_singleton, List.flatten_cons, List.flatten_cons, List.flatten_singleton,
      List.nil_append, List.take_append_drop]
  obtain ⟨s'', last', hone', hcut'⟩ := (partition_spec decibels hrun).1 _ _ hcut
  rw [toOption_eq_some hone] at hone'
  obtain ⟨rfl, rfl⟩ := Prod.mk.inj (Except.ok.inj hone')
  exact ⟨s, s', toOption_eq_some hone, hcut', hremaining⟩

end Gain.AdaptiveGain
