import EzSdr.Framework.Machine
import EzSdr.Gain.Blocks

/-! # Coherence of Gain Steps

    A controller is a machine over settings, gain tables and buffers. Its
    steps always stay within the limits of the table. The values the burst
    controller works with are those of the current step, and a suggestion is a
    change, under one condition on every input (`Meets`):

    * a new table moves the current step, or has the same values there;
    * no block ends in which less gain is asked for at the lowest step.

    **`coherence_spec`**: that condition is exact. -/

namespace Gain

variable {F P D : Type} (A : Arithmetic F P D)

/-! ## Section 1: The controller as a machine -/

inductive Input (F P : Type) where
  | settings (settings : Settings F)
  | dutyCycle (duty : F)
  | configureGain (table : List F) (currentStep : ℤ)
  | update (buf : List UInt16) (decoded : Option P)

def AdaptiveGain.step (s : AdaptiveGain F P D) :
    Input F P → Checked (AdaptiveGain F P D × List (AdaptiveGain.Decision F P D))
  | .settings settings => .ok ({ s with settings := settings }, [])
  | .dutyCycle duty => .ok (s.setDutyCycle A duty, [])
  | .configureGain table currentStep => do
    let s ← s.configureGain A table currentStep
    .ok (s, [])
  | .update buf decoded => s.update A buf decoded

/-- A controller for this sample rate; a panic ends the run. -/
def machine (sampleRate : ℕ) :
    Machine (AdaptiveGain F P D) (Input F P) (List (AdaptiveGain.Decision F P D)) where
  init := AdaptiveGain.new A sampleRate
  step s input := (s.step A input).toOption

/-- One call of a run. -/
abbrev Event (F P D : Type) : Type :=
  Machine.Event (AdaptiveGain F P D) (Input F P) (List (AdaptiveGain.Decision F P D))

/-! ## Section 2: A new table -/

theorem leastStep_le (table : List F) (lo : F) (top : ℕ) : leastStep A table lo top ≤ top := by
  unfold leastStep
  cases hfind : List.find? (fun step => Option.any (fun gain => A.atLeast gain lo) table[step]?)
      (List.range (top + 1)) with
  | none => exact le_rfl
  | some step => exact Nat.le_of_lt_succ (List.mem_range.mp (List.mem_of_find?_eq_some hfind))

theorem largestStep_mem (table : List F) (hi : F) {first top : ℕ} (h : first ≤ top) :
    first ≤ largestStep A table hi first top ∧ largestStep A table hi first top ≤ top := by
  unfold largestStep
  cases hfind : List.find? (fun step => Option.any (fun gain => A.atMost gain hi) table[step]?)
      (List.range' first (top + 1 - first)).reverse with
  | none => exact ⟨le_rfl, h⟩
  | some step =>
    have hmem := List.mem_reverse.mp (List.mem_of_find?_eq_some hfind)
    rw [List.mem_range'_1] at hmem
    show first ≤ step ∧ step ≤ top
    omega

theorem gainLimits_spec {table : List F} {lo hi : F} {first last : ℤ}
    (h : gainLimits A table lo hi = .ok (first, last)) :
    table ≠ [] ∧ 0 ≤ first ∧ first ≤ last ∧ last ≤ maxStep table := by
  by_cases hbad : table = [] ∨ maxStep table < 0
  · simp only [gainLimits, if_pos hbad] at h
    cases h
  · simp only [gainLimits, if_neg hbad] at h
    rw [not_or, not_lt] at hbad
    have htop := Int.toNat_of_nonneg hbad.2
    have hle := leastStep_le A table lo (maxStep table).toNat
    have hmem := largestStep_mem A table hi hle
    obtain ⟨rfl, rfl⟩ := Prod.mk.inj (Except.ok.inj h)
    exact ⟨hbad.1, Int.natCast_nonneg _, by omega, by omega⟩

namespace AdaptiveGain

variable {A} {s s' : AdaptiveGain F P D}

/-- The values that go with a step are in force after this table is configured: it moves
    the current step, or it has the values there that are in force already. -/
def Refreshes (A : Arithmetic F P D) (s : AdaptiveGain F P D) (table : List F) (step : ℤ) : Prop :=
  ∀ lo hi, gainLimits A table s.settings.minGainDb s.settings.maxGainDb = .ok (lo, hi) →
    clamp step lo hi ≠ s.gain.current ∨
      derived A table s.gain.current = some (s.gain.upDb, s.gain.downDb, s.burst.loudThreshold)

theorem configureGain_spec {table : List F} {step : ℤ} (hs : s.Well)
    (h : s.configureGain A table step = .ok s') :
    s'.Well ∧ s'.gain.table = table ∧ table ≠ [] ∧ (s'.Derived A ↔ s.Refreshes A table step) := by
  unfold configureGain recomputeGainLimits at h
  -- the limits of the table
  cases hlimits : gainLimits A table s.settings.minGainDb s.settings.maxGainDb with
  | error stop =>
    simp only [hlimits, bind, Except.bind] at h
    cases h
  | ok limits =>
    obtain ⟨lo, hi⟩ := limits
    obtain ⟨hne, hnonneg, hle, hinside⟩ := gainLimits_spec A hlimits
    obtain ⟨t, hset, hcurrent, hsame, hnew, hsampling, htable, -, hsug⟩ :=
      setGain_of_limits (A := A) (s := { s with gain := { s.gain with
        table := table, min := lo, max := hi } }) step hnonneg hle hinside fun _ => hne
    simp only [hlimits, hset, bind, Except.bind] at h
    obtain rfl := Except.ok.inj h
    have hmem := clamp_mem step hle
    have hmin : t.gain.min = lo := htable.min
    have hmax : t.gain.max = hi := htable.max
    have htab : t.gain.table = table := htable.table
    have hcur : t.gain.current = clamp step lo hi := hcurrent
    have hwell : ({ t with range := { t.range with gainLimit := t.gain.current } } :
        AdaptiveGain F P D).Well := by
      have htiming : t.timing = s.timing := hsampling.timing
      have hsamples : t.subblockSamplesRemaining = s.subblockSamplesRemaining := hsampling.samples
      have hsubblocks : t.subblocksRemaining = s.subblocksRemaining := hsampling.subblocks
      have hwindow : t.burst.windowRemaining = s.burst.windowRemaining := hsampling.window
      refine ⟨⟨?_, ?_, ?_, ?_, ?_⟩, ?_, ?_, ?_, ?_, ?_, hsug.trans hs.suggested⟩
      · exact hnonneg.trans_eq hmin.symm
      · rw [hmin, hcur]
        exact hmem.1
      · rw [hmax, hcur]
        exact hmem.2
      · show t.gain.current ≤ t.gain.max
        rw [hmax, hcur]
        exact hmem.2
      · rw [hmax, htab]
        exact hinside
      · rw [hsamples]
        exact hs.samples_pos
      · rw [hsamples, htiming]
        exact hs.samples_le
      · rw [hsubblocks]
        exact hs.subblocks_pos
      · rw [hsubblocks]
        exact hs.subblocks_le
      · unfold Burst.Open
        rw [hwindow, htiming]
        exact hs.window
    refine ⟨hwell, htab, hne, ?_⟩
    constructor
    · -- the step has not moved: what is in force is what was
      intro hderived lo' hi' hlimits'
      obtain ⟨rfl, rfl⟩ := Prod.mk.inj (Except.ok.inj (hlimits.symm.trans hlimits'))
      by_cases heq : clamp step lo hi = s.gain.current
      · have hold := hsame (hcur.trans heq)
        have hd : derived A t.gain.table t.gain.current =
            some (t.gain.upDb, t.gain.downDb, t.burst.loudThreshold) := hderived
        rw [hold] at hd
        exact .inr hd
      · exact .inl heq
    · intro hrefresh
      rcases hrefresh lo hi hlimits with hmove | hvalues
      · exact hnew fun heq => hmove (hcur.symm.trans heq)
      · by_cases heq : t.gain.current = s.gain.current
        · have hold := hsame heq
          show derived A t.gain.table t.gain.current =
            some (t.gain.upDb, t.gain.downDb, t.burst.loudThreshold)
          rw [hold]
          exact hvalues
        · exact hnew heq

theorem new_well (sampleRate : ℕ) : (AdaptiveGain.new A sampleRate).Well := by
  have hlast : (0 : ℤ) ≤ maxStep ([] : List F) := maxStep_nil.ge
  exact ⟨⟨le_rfl, le_rfl, le_rfl, le_rfl, hlast⟩, subblock_pos _, le_rfl, dutyD_pos, le_rfl,
    ⟨(Timing.new sampleRate).window_pos, le_rfl⟩, rfl⟩

end AdaptiveGain

/-! ## Section 3: Runs -/

open AdaptiveGain in
/-- The condition on a call. -/
def Meets (e : Event F P D) : Prop :=
  match e.input with
  | .configureGain table step => e.before.Refreshes A table step
  | .update _ _ => ∀ d ∈ e.output,
      ¬(AsksLower A d.before ∧ d.before.gain.current = d.before.gain.min)
  | _ => True

/-- What is asked of a controller after a call. -/
structure Coherent (e : Event F P D) : Prop where
  limits  : e.after.gain.min ≤ e.after.gain.current ∧ e.after.gain.current ≤ e.after.gain.max
  inside  : e.after.gain.table ≠ [] →
    0 ≤ e.after.gain.current ∧ e.after.gain.current < e.after.gain.table.length
  /-- The values of the burst controller are those of the current step. -/
  derived : e.after.gain.table ≠ [] → e.after.Derived A
  /-- The suggestion that is returned is one of those made. -/
  returned : ∀ step, AdaptiveGain.lastSuggestion e.output = some step →
    ∃ d ∈ e.output, d.suggested = some step
  /-- A suggested step is within the limits, and it is a new step. -/
  changed : ∀ d ∈ e.output, ∀ step, d.suggested = some step →
    e.after.gain.min ≤ step ∧ step ≤ e.after.gain.max ∧
      d.after.gain.current = step ∧ d.before.gain.current ≠ step

theorem lastSuggestion_mem {ds : List (AdaptiveGain.Decision F P D)} {step : ℤ}
    (h : AdaptiveGain.lastSuggestion ds = some step) : ∃ d ∈ ds, d.suggested = some step :=
  List.mem_filterMap.mp (List.mem_of_getLast? h)

/-- What a call does to a controller that is `Well`, whatever the call. -/
structure Answered (e : Event F P D) : Prop where
  well      : e.after.Well
  decisions : ∀ d ∈ e.output, d.Sound A e.after
  derived   : Meets A e → (e.before.gain.table ≠ [] → e.before.Derived A) →
    e.after.gain.table ≠ [] → e.after.Derived A
  refreshed : (e.after.gain.table ≠ [] → e.after.Derived A) → ∀ table step,
    e.input = .configureGain table step → e.before.Refreshes A table step

theorem answered {s s' : AdaptiveGain F P D} {input : Input F P}
    {output : List (AdaptiveGain.Decision F P D)} (hs : s.Well)
    (h : s.step A input = .ok (s', output)) : Answered A ⟨s, input, output, s'⟩ := by
  cases input with
  | settings settings =>
    obtain ⟨rfl, rfl⟩ := Prod.mk.inj (Except.ok.inj h)
    exact ⟨⟨hs.ordered.of_gain rfl rfl, hs.samples_pos, hs.samples_le, hs.subblocks_pos,
      hs.subblocks_le, hs.window, hs.suggested⟩, fun d hd => absurd hd List.not_mem_nil,
      fun _ hderived hne => hderived hne, fun _ table step hinput => by cases hinput⟩
  | dutyCycle duty =>
    obtain ⟨rfl, rfl⟩ := Prod.mk.inj (Except.ok.inj h)
    exact ⟨⟨hs.ordered.of_gain rfl rfl, hs.samples_pos, hs.samples_le, hs.subblocks_pos,
      hs.subblocks_le, hs.window, hs.suggested⟩, fun d hd => absurd hd List.not_mem_nil,
      fun _ hderived hne => hderived hne, fun _ table step hinput => by cases hinput⟩
  | configureGain table step =>
    replace h : (do
        let s ← s.configureGain A table step
        Except.ok (s, [])) = Except.ok (s', output) := h
    cases hconf : s.configureGain A table step with
    | error stop =>
      rw [hconf] at h
      cases h
    | ok t =>
      rw [hconf] at h
      obtain ⟨rfl, rfl⟩ := Prod.mk.inj (Except.ok.inj h)
      obtain ⟨hwell, htable, hne, hiff⟩ := AdaptiveGain.configureGain_spec hs hconf
      refine ⟨hwell, fun d hd => absurd hd List.not_mem_nil, fun hmeets _ _ => hiff.mpr hmeets,
        fun hderived table' step' hinput => ?_⟩
      obtain ⟨rfl, rfl⟩ := Input.configureGain.inj hinput
      exact hiff.mp (hderived (htable.symm ▸ hne))
  | update buf decoded =>
    obtain ⟨t, ds, hupdate, hfed⟩ := AdaptiveGain.update_spec (A := A) hs buf decoded
    obtain ⟨rfl, rfl⟩ := Prod.mk.inj (Except.ok.inj (hupdate.symm.trans h))
    have hback : AdaptiveGain.SameTable t s :=
      ⟨hfed.table.table.symm, hfed.table.min.symm, hfed.table.max.symm⟩
    refine ⟨hfed.well, fun d hd => (hfed.decisions d hd).of_same hback,
      fun _ hderived hne => hfed.derived (hderived ?_), fun _ table step hinput => by cases hinput⟩
    exact fun hnil => hne (hfed.table.table.trans hnil)

/-- A call that meets the condition leaves a coherent controller. -/
theorem coherent_of_meets {e : Event F P D} (h : Answered A e) (hmeets : Meets A e)
    (hinput : ∀ d ∈ e.output, ∃ buf decoded, e.input = .update buf decoded)
    (hbefore : e.before.gain.table ≠ [] → e.before.Derived A) : Coherent A e := by
  have hordered := h.well.ordered
  refine ⟨⟨hordered.low, hordered.high⟩, fun hne => ?_, h.derived hmeets hbefore,
    fun step => lastSuggestion_mem, fun d hd step hstep => ?_⟩
  · have hlast := maxStep_lt hne
    have hlow := hordered.nonneg.trans hordered.low
    have hhigh := hordered.high.trans hordered.inside
    exact ⟨hlow, hhigh.trans_lt hlast⟩
  · have hsound := h.decisions d hd
    obtain ⟨htable, hafter⟩ := hsound.after
    obtain rfl := hsound.step step hstep
    refine ⟨?_, ?_, rfl, fun heq => ?_⟩
    · rw [← htable.min]
      exact hafter.low
    · rw [← htable.max]
      exact hafter.high
    · -- it was the current step before: less gain was asked for at the lowest step
      have hidle := hsound.idle.mp ⟨_, hstep, heq.symm⟩
      obtain ⟨buf, decoded, hupdate⟩ := hinput d hd
      unfold Meets at hmeets
      rw [hupdate] at hmeets
      exact hmeets d hd hidle

/-- A call that leaves a coherent controller has met the condition. -/
theorem meets_of_coherent {e : Event F P D} (h : Answered A e) (hcoherent : Coherent A e) :
    Meets A e := by
  unfold Meets
  split
  · next table step hinput => exact h.refreshed hcoherent.derived table step hinput
  · intro d hd hlower
    obtain ⟨step, hstep, heq⟩ := (h.decisions d hd).idle.mpr hlower
    have hchanged := hcoherent.changed d hd step hstep
    exact hchanged.2.2.2 (heq.symm.trans hchanged.2.2.1)
  · trivial

/-- Only a buffer ends blocks. -/
theorem step_output {s s' : AdaptiveGain F P D} {input : Input F P}
    {output : List (AdaptiveGain.Decision F P D)} (h : s.step A input = .ok (s', output)) :
    ∀ d ∈ output, ∃ buf decoded, input = .update buf decoded := by
  intro d hd
  cases input with
  | settings settings =>
    obtain ⟨-, rfl⟩ := Prod.mk.inj (Except.ok.inj h)
    cases hd
  | dutyCycle duty =>
    obtain ⟨-, rfl⟩ := Prod.mk.inj (Except.ok.inj h)
    cases hd
  | configureGain table step =>
    replace h : (do
        let s ← s.configureGain A table step
        Except.ok (s, [])) = Except.ok (s', output) := h
    cases hconf : s.configureGain A table step with
    | error stop =>
      rw [hconf] at h
      cases h
    | ok t =>
      rw [hconf] at h
      obtain ⟨-, rfl⟩ := Prod.mk.inj (Except.ok.inj h)
      cases hd
  | update buf decoded => exact ⟨buf, decoded, rfl⟩

theorem toOption_eq_some {α : Type} {x : Checked α} {a : α} (h : x.toOption = some a) :
    x = .ok a := by
  cases x with
  | error stop => cases h
  | ok b => exact congrArg Except.ok (Option.some.inj h)

/-- **Coherence**: in any run, all calls meet the condition if and only if every call leaves
    a coherent controller. -/
theorem coherence_spec {sampleRate : ℕ} {inputs : List (Input F P)} {s : AdaptiveGain F P D}
    {history : List (Event F P D)}
    (hrun : (machine A sampleRate).run (machine A sampleRate).init inputs = some (s, history)) :
    (∀ e ∈ history, Meets A e) ↔ ∀ e ∈ history, Coherent A e := by
  obtain ⟨-, hsteps⟩ := (machine A sampleRate).run_inv_steps
    (P := fun past s => s.Well ∧
      ((∀ e ∈ past, Meets A e) → s.gain.table ≠ [] → s.Derived A))
    (Q := fun past e => Answered A e ∧
      ((∀ e ∈ past, Meets A e) → Meets A e → Coherent A e))
    ⟨AdaptiveGain.new_well sampleRate, fun _ hne => absurd rfl hne⟩
    (fun past s input s' output ⟨hwell, hderived⟩ hstep => by
      have hok := toOption_eq_some hstep
      have hanswered := answered A hwell hok
      refine ⟨⟨hanswered.well, fun hmeets => ?_⟩, hanswered, fun hpast hmeets => ?_⟩
      · -- the condition has held in every call, the new one included
        have hpast : ∀ e ∈ past, Meets A e := fun e he =>
          hmeets e (List.mem_append_left _ he)
        exact hanswered.derived (hmeets _ (by simp)) (hderived hpast)
      · exact coherent_of_meets A hanswered hmeets (step_output A hok) (hderived hpast)) hrun
  constructor
  · intro hmeets e he
    obtain ⟨past, later, rfl⟩ := List.append_of_mem he
    exact (hsteps past e later rfl).2
      (fun e he => hmeets e (List.mem_append_left _ he)) (hmeets e he)
  · intro hcoherent e he
    obtain ⟨past, later, rfl⟩ := List.append_of_mem he
    exact meets_of_coherent A (hsteps past e later rfl).1 (hcoherent e he)

/-! ## Section 4: Decibels -/

/-- Exact gains, powers in decibels, and six decibels for each power of two of the level. -/
def decibels : Arithmetic ℚ (WithBot ℚ) ℚ where
  ofRat := id
  atLeast a b := decide (b ≤ a)
  atMost a b := decide (a ≤ b)
  sub a b := a - b
  dutySteps duty := ⌊20 * max (1 / 10000) (min duty 1) + 1 / 2⌋.toNat
  zeroPower := ⊥
  loudPower up := ↑(0 - up - 3)
  reachesPower level threshold := decide (threshold ≤ level)
  zero := 0
  smooth alpha d n smoothed count := smoothed * (1 - alpha) + d / n * count * alpha
  rank percentile count := count * percentile / 100
  smoothLevel alpha smoothed level := smoothed * (1 - alpha) + level * alpha
  noiseFloor level := if 0 < level then 6 * ((Nat.log2 ⌊level⌋.toNat : ℚ) - 16) else 0
  dynamicRange level := if 0 < level then -6 * ((Nat.log2 ⌊level⌋.toNat : ℚ) - 16) else 0
  exceeds a b := decide (b < a)
  below a b := decide (a < b)
  reaches a b := decide (b ≤ a)
  belowAfter a down b := decide (a + down / 2 < b)

/-- Bursts of two loud samples. -/
def bursts (n : ℕ) : List UInt16 := (List.replicate n [60000, 60000, 0]).flatten

/-- A table of two gains at its second step. One loud block is enough, and after a first subblock
    only one subblock in twenty counts. -/
def loudFront : List (Input ℚ (WithBot ℚ)) :=
  [.settings { Settings.default decibels with burstEnabled := true, burstLoudRunlength := 1 },
    .configureGain [0, 10] 1, .update (List.replicate 1250 0) none, .dutyCycle (1 / 20)]

/-- The other subblocks of the block, the first of them full of bursts. -/
def loudBlock : List UInt16 := bursts 400 ++ List.replicate 22550 0

/-- The block ends with the step below. -/
theorem coherence_spec_loud : ∃ s history,
    (machine decibels 25000).run (machine decibels 25000).init
      (loudFront ++ [.update loudBlock none]) = some (s, history) ∧
      (s.gain.current = 0 ∧ s.gainChanges = 2) ∧
      ((∀ e ∈ history, Meets decibels e) ↔ ∀ e ∈ history, Coherent decibels e) := by
  have hcurrent : ((machine decibels 25000).run (machine decibels 25000).init
      (loudFront ++ [.update loudBlock none])).map
      (fun r => (r.1.gain.current, r.1.gainChanges)) = some (0, 2) := by
    decide +kernel
  obtain ⟨⟨s, history⟩, hrun, hstep⟩ := Option.map_eq_some_iff.mp hcurrent
  exact ⟨s, history, hrun, Prod.mk.inj hstep, coherence_spec decibels hrun⟩

/-- The same table at its first step, which is the step of a new controller: the values in
    force are not those of the table. -/
theorem stale_first_step : ∃ s history,
    (machine decibels 2000000).run (machine decibels 2000000).init [.configureGain [0, 10] 0] =
        some (s, history) ∧
      ∃ e ∈ history, ¬Coherent decibels e := by
  have hgain : ((machine decibels 2000000).run (machine decibels 2000000).init
      [.configureGain [0, 10] 0]).map
      (fun r => (r.1.gain.table, r.1.gain.current, r.1.gain.upDb)) = some ([0, 10], 0, 0) := by
    decide +kernel
  obtain ⟨⟨s, history⟩, hrun, hstep⟩ := Option.map_eq_some_iff.mp hgain
  obtain ⟨htable, hcurrent, hup⟩ : s.gain.table = [0, 10] ∧ s.gain.current = 0 ∧
      s.gain.upDb = 0 := by simpa using hstep
  obtain ⟨s', o, later, -, hnil, rfl⟩ := (Machine.run_cons_eq_some _).mp hrun
  obtain ⟨rfl, rfl⟩ := Prod.mk.inj (Option.some.inj hnil)
  refine ⟨_, _, hrun, _, List.mem_singleton_self _, fun hcoherent => ?_⟩
  have hderived := hcoherent.derived (by simp [htable])
  have hten : (derived decibels [0, 10] 0).map Prod.fst = some 10 := by decide +kernel
  unfold AdaptiveGain.Derived at hderived
  rw [htable, hcurrent, hup] at hderived
  rw [hderived] at hten
  have hzero : (0 : ℚ) = 10 := Option.some.inj hten
  norm_num at hzero

end Gain
