import Mathlib

/-! # The Streaming Decimator

    `FirDecimator`: half-band stages that each drop every second sample, and a
    final filter that emits at exact multiples of the decimation. All state is
    carried from one call to the next.

    The arithmetic on samples is a parameter, `Dsp`: fixed functions of the
    windows of samples that the filters keep. -/

namespace Capture

/-! ## Section 1: Sample arithmetic -/

/-- The floating-point parts, for samples `α` and oscillators `ν`. -/
structure Dsp (α ν : Type*) where
  zero        : α
  /-- `Nco::new` for a channel centre, a block centre and a rate as a quotient. -/
  ncoNew      : ℕ → ℕ → ℕ → ℕ → ν
  /-- `Nco::seek` to a source index at a source rate. -/
  ncoSeek     : ν → ℕ → ℕ → ν
  /-- The oscillator applied to one sample. -/
  ncoMix      : ν → α → α × ν
  /-- Output of a half-band stage for its window. -/
  halfBand    : List α → α
  /-- Output of the final filter of a decimation for a phase and its window. -/
  phaseOutput : ℕ → ℕ → List α → α

def HALF_BAND_TAPS : ℕ := 63

/-! ## Section 2: Filters -/

/-- The delay line is stored twice over, so that a window is always contiguous. -/
structure HalfBandStage (α : Type*) where
  history        : List α
  write          : ℕ
  emit           : Bool
  length_history : history.length = 2 * HALF_BAND_TAPS

structure PhaseFilter (α : Type*) where
  history        : List α
  write          : ℕ
  len            : ℕ
  length_history : history.length = 2 * len

section

variable {α ν : Type*} (A : Dsp α ν)

namespace HalfBandStage

def new : HalfBandStage α where
  history := List.replicate (2 * HALF_BAND_TAPS) A.zero
  write := 0
  emit := true
  length_history := List.length_replicate

def reset (s : HalfBandStage α) : HalfBandStage α where
  history := s.history.map fun _ => A.zero
  write := 0
  emit := true
  length_history := by rw [List.length_map, s.length_history]

/-- One sample in; every second one gives a sample out. -/
def push (s : HalfBandStage α) (sample : α) : HalfBandStage α × Option α :=
  let history := (s.history.set s.write sample).set (s.write + HALF_BAND_TAPS) sample
  let write := (s.write + 1) % HALF_BAND_TAPS
  let window := (history.drop write).take HALF_BAND_TAPS
  (⟨history, write, !s.emit, by simp [history, s.length_history]⟩,
    if s.emit then some (A.halfBand window) else none)

end HalfBandStage

namespace PhaseFilter

/-- A filter for the rate ratio `decimation / factor`: 100 taps per unit of the
    ratio, and an odd number of them. -/
def new (decimation factor : ℕ) : PhaseFilter α :=
  let len := (100 * decimation + factor - 1) / factor ||| 1
  { history := List.replicate (2 * len) A.zero
    write := 0
    len := len
    length_history := List.length_replicate }

def reset (f : PhaseFilter α) : PhaseFilter α where
  history := f.history.map fun _ => A.zero
  write := 0
  len := f.len
  length_history := by rw [List.length_map, f.length_history]

def push (f : PhaseFilter α) (sample : α) : PhaseFilter α where
  history := (f.history.set f.write sample).set (f.write + f.len) sample
  write := (f.write + 1) % f.len
  len := f.len
  length_history := by simp [f.length_history]

def window (f : PhaseFilter α) : List α := (f.history.drop f.write).take f.len

end PhaseFilter

/-! ## Section 3: The decimator -/

structure FirDecimator (α : Type*) where
  decimation  : ℕ
  skip        : ℕ
  stages      : List (HalfBandStage α)
  stageFactor : ℕ
  outputPhase : ℕ
  finalFilter : Option (PhaseFilter α)

namespace FirDecimator

/-- Number of half-band stages. -/
def stageCount (decimation : ℕ) : ℕ := if decimation < 8 then 0 else Nat.log2 (decimation / 4)

/-- `FirDecimator::new`; factor one passes samples through. -/
def new (decimation : ℕ) : FirDecimator α :=
  if decimation = 1 then
    { decimation := decimation, skip := 0, stages := [], stageFactor := 1, outputPhase := 0,
      finalFilter := none }
  else
    let stages := stageCount decimation
    { decimation := decimation
      skip := 0
      stages := List.replicate stages (HalfBandStage.new A)
      stageFactor := 2 ^ stages
      outputPhase := 0
      finalFilter := some (PhaseFilter.new A decimation (2 ^ stages)) }

/-- Clear the history; the first output is at this offset in the new input. -/
def reset (d : FirDecimator α) (firstOffset : ℕ) : FirDecimator α :=
  { d with
    skip := firstOffset
    outputPhase := firstOffset % d.stageFactor
    stages := d.stages.map (·.reset A)
    finalFilter := d.finalFilter.map (·.reset A) }

/-- A sample on its way through the stages, until one of them keeps it. -/
def pushStages : List (HalfBandStage α) → α → List (HalfBandStage α) × Option α
  | [], sample => ([], some sample)
  | stage :: stages, sample =>
    match stage.push A sample with
    | (stage, none) => (stage :: stages, none)
    | (stage, some value) =>
      let (stages, value) := pushStages stages value
      (stage :: stages, value)

/-- One sample into the filters. -/
def feed (d : FirDecimator α) (filter : PhaseFilter α) (sample : α) :
    FirDecimator α × PhaseFilter α :=
  let (stages, value) := pushStages A d.stages sample
  ({ d with stages := stages }, value.elim filter filter.push)

/-- The phase of the output after this one. -/
def nextPhase (d : FirDecimator α) : FirDecimator α :=
  { d with outputPhase := (d.outputPhase + d.decimation % d.stageFactor) % d.stageFactor }

/-- The loop of `process` from input position `n` on, the next output being due
    at position `next`. -/
def processLoop (d : FirDecimator α) (filter : PhaseFilter α) (next n : ℕ) :
    List α → FirDecimator α × PhaseFilter α × ℕ × List α
  | [] => (d, filter, next, [])
  | sample :: input =>
    let (d, filter) := d.feed A filter sample
    if n = next then
      let value := A.phaseOutput d.decimation d.outputPhase filter.window
      let (d, filter, next, output) :=
        processLoop d.nextPhase filter (next + d.decimation) (n + 1) input
      (d, filter, next, value :: output)
    else processLoop d filter next (n + 1) input

/-- `process`. -/
def process (d : FirDecimator α) (input : List α) : FirDecimator α × List α :=
  match d.finalFilter with
  | none => (d, input)
  | some filter =>
    let (d, filter, next, output) := d.processLoop A filter d.skip 0 input
    ({ d with finalFilter := some filter, skip := next - input.length }, output)

/-! ## Section 4: One call or many -/

/-- What no call changes. -/
structure SameShape (d d' : FirDecimator α) : Prop where
  decimation : d'.decimation = d.decimation
  factor     : d'.stageFactor = d.stageFactor
  stages     : d'.stages.length = d.stages.length
  filter     : d'.finalFilter.map (·.len) = d.finalFilter.map (·.len)

theorem SameShape.refl (d : FirDecimator α) : SameShape d d := ⟨rfl, rfl, rfl, rfl⟩

theorem SameShape.trans {d d' d'' : FirDecimator α} (h : SameShape d d') (h' : SameShape d' d'') :
    SameShape d d'' :=
  ⟨h'.decimation.trans h.decimation, h'.factor.trans h.factor, h'.stages.trans h.stages,
    h'.filter.trans h.filter⟩

@[simp] theorem nextPhase_decimation (d : FirDecimator α) :
    d.nextPhase.decimation = d.decimation := rfl

@[simp] theorem feed_decimation (d : FirDecimator α) (filter : PhaseFilter α) (sample : α) :
    (d.feed A filter sample).1.decimation = d.decimation := rfl

theorem processLoop_nil (d : FirDecimator α) (filter : PhaseFilter α) (next n : ℕ) :
    d.processLoop A filter next n [] = (d, filter, next, []) := rfl

/-- A position where an output is due. -/
theorem processLoop_due (d : FirDecimator α) (filter : PhaseFilter α) (n : ℕ) (x : α)
    (input : List α) :
    d.processLoop A filter n n (x :: input) =
      let fed := d.feed A filter x
      let r := fed.1.nextPhase.processLoop A fed.2 (n + d.decimation) (n + 1) input
      (r.1, r.2.1, r.2.2.1,
        A.phaseOutput d.decimation fed.1.outputPhase fed.2.window :: r.2.2.2) := by
  simp only [processLoop, if_true]
  rfl

/-- A position where none is due. -/
theorem processLoop_skip (d : FirDecimator α) (filter : PhaseFilter α) {next n : ℕ}
    (h : n ≠ next) (x : α) (input : List α) :
    d.processLoop A filter next n (x :: input) =
      (d.feed A filter x).1.processLoop A (d.feed A filter x).2 next (n + 1) input := by
  simp only [processLoop, if_neg h]

theorem SameShape.symm {d d' : FirDecimator α} (h : SameShape d d') : SameShape d' d :=
  ⟨h.decimation.symm, h.factor.symm, h.stages.symm, h.filter.symm⟩

theorem length_pushStages (stages : List (HalfBandStage α)) (sample : α) :
    (pushStages A stages sample).1.length = stages.length := by
  induction stages generalizing sample with
  | nil => rfl
  | cons stage stages ih =>
    unfold pushStages
    split
    · rfl
    · next stage' value _ => simp [ih value]

theorem feed_shape (d : FirDecimator α) (filter : PhaseFilter α) (sample : α) :
    SameShape d (d.feed A filter sample).1 ∧ (d.feed A filter sample).2.len = filter.len := by
  refine ⟨⟨rfl, rfl, length_pushStages A d.stages sample, rfl⟩, ?_⟩
  unfold feed
  cases pushStages A d.stages sample with
  | mk stages value => cases value <;> rfl

theorem processLoop_shape (input : List α) (d : FirDecimator α) (filter : PhaseFilter α)
    (next n : ℕ) :
    SameShape d (d.processLoop A filter next n input).1 ∧
      (d.processLoop A filter next n input).2.1.len = filter.len := by
  induction input generalizing d filter next n with
  | nil => exact ⟨.refl d, rfl⟩
  | cons x input ih =>
    obtain ⟨hshape, hlen⟩ := feed_shape A d filter x
    by_cases hdue : n = next
    · subst hdue
      rw [processLoop_due]
      have hphase : SameShape (d.feed A filter x).1 (d.feed A filter x).1.nextPhase :=
        ⟨rfl, rfl, rfl, rfl⟩
      obtain ⟨hrest, hlen'⟩ := ih (d.feed A filter x).1.nextPhase (d.feed A filter x).2 _ _
      exact ⟨hshape.trans (hphase.trans hrest), hlen'.trans hlen⟩
    · rw [processLoop_skip A d filter hdue]
      obtain ⟨hrest, hlen'⟩ := ih (d.feed A filter x).1 (d.feed A filter x).2 next (n + 1)
      exact ⟨hshape.trans hrest, hlen'.trans hlen⟩

/-- The loop over two pieces is the loop over the first, then over the second. -/
theorem processLoop_append (xs ys : List α) (d : FirDecimator α) (filter : PhaseFilter α)
    (next n : ℕ) :
    d.processLoop A filter next n (xs ++ ys) =
      let first := d.processLoop A filter next n xs
      let rest := first.1.processLoop A first.2.1 first.2.2.1 (n + xs.length) ys
      (rest.1, rest.2.1, rest.2.2.1, first.2.2.2 ++ rest.2.2.2) := by
  induction xs generalizing d filter next n with
  | nil => rfl
  | cons x xs ih =>
    have hlen : n + (xs.length + 1) = n + 1 + xs.length := by omega
    rw [List.cons_append, List.length_cons, hlen]
    by_cases hdue : n = next
    · subst hdue
      rw [processLoop_due, processLoop_due]
      dsimp only
      rw [ih]
      rfl
    · rw [processLoop_skip A d filter hdue, processLoop_skip A d filter hdue, ih]

/-- Only the distance to the next output matters, not where counting begins. -/
theorem processLoop_shift (input : List α) (k : ℕ) (d : FirDecimator α) (filter : PhaseFilter α)
    (next n : ℕ) :
    d.processLoop A filter (next + k) (n + k) input =
      let r := d.processLoop A filter next n input
      (r.1, r.2.1, r.2.2.1 + k, r.2.2.2) := by
  induction input generalizing d filter next n with
  | nil => rfl
  | cons x input ih =>
    have hn : n + k + 1 = n + 1 + k := by omega
    by_cases hdue : n = next
    · subst hdue
      have hnext : n + k + d.decimation = n + d.decimation + k := by omega
      rw [processLoop_due, processLoop_due, hnext, hn]
      dsimp only
      rw [ih]
    · have hdue' : n + k ≠ next + k := by omega
      rw [processLoop_skip A d filter hdue, processLoop_skip A d filter hdue', hn, ih]

/-- What `process` stores at the end of a call. -/
def store (d : FirDecimator α) (filter : PhaseFilter α) (skip : ℕ) : FirDecimator α :=
  { d with finalFilter := some filter, skip := skip }

/-- The loop works on its own copies of what `process` stores. -/
theorem processLoop_store (input : List α) (f : PhaseFilter α) (skip : ℕ) (d : FirDecimator α)
    (filter : PhaseFilter α) (next n : ℕ) :
    (d.store f skip).processLoop A filter next n input =
      let r := d.processLoop A filter next n input
      (r.1.store f skip, r.2) := by
  induction input generalizing d filter next n with
  | nil => rfl
  | cons x input ih =>
    have hfeed : (d.store f skip).feed A filter x =
      ((d.feed A filter x).1.store f skip, (d.feed A filter x).2) := rfl
    by_cases hdue : n = next
    · subst hdue
      have hphase : ((d.feed A filter x).1.store f skip).nextPhase =
        (d.feed A filter x).1.nextPhase.store f skip := rfl
      rw [processLoop_due, processLoop_due, hfeed]
      dsimp only
      rw [hphase, show (d.store f skip).decimation = d.decimation from rfl, ih]
      rfl
    · rw [processLoop_skip A _ _ hdue, processLoop_skip A d filter hdue, hfeed, ih]

/-- Each output moves the next one on by the decimation. -/
theorem processLoop_next (input : List α) (d : FirDecimator α) (filter : PhaseFilter α)
    (next n : ℕ) :
    (d.processLoop A filter next n input).2.2.1 =
      next + (d.processLoop A filter next n input).2.2.2.length * d.decimation := by
  induction input generalizing d filter next n with
  | nil => simp [processLoop_nil]
  | cons x input ih =>
    by_cases hdue : n = next
    · subst hdue
      rw [processLoop_due]
      dsimp only
      rw [ih, List.length_cons, nextPhase_decimation, feed_decimation]
      ring
    · rw [processLoop_skip A d filter hdue, ih, feed_decimation]

/-- The next output is never behind the input. -/
theorem processLoop_le (input : List α) (d : FirDecimator α) (filter : PhaseFilter α)
    {next n : ℕ} (hpos : 0 < d.decimation) (hle : n ≤ next) :
    n + input.length ≤ (d.processLoop A filter next n input).2.2.1 := by
  induction input generalizing d filter next n with
  | nil => exact hle
  | cons x input ih =>
    have hlen : n + (input.length + 1) = n + 1 + input.length := by omega
    rw [List.length_cons, hlen]
    by_cases hdue : n = next
    · subst hdue
      rw [processLoop_due]
      exact ih (d.feed A filter x).1.nextPhase _ hpos (Nat.add_le_add_left hpos n)
    · rw [processLoop_skip A d filter hdue]
      exact ih (d.feed A filter x).1 _ hpos (by omega)

/-- The next output stays ahead of the input, by at most the decimation. -/
theorem processLoop_ahead (input : List α) (d : FirDecimator α) (filter : PhaseFilter α)
    {next n : ℕ} (hpos : 0 < d.decimation) (hle : n ≤ next) (hlt : next < n + d.decimation) :
    n + input.length ≤ (d.processLoop A filter next n input).2.2.1 ∧
      (d.processLoop A filter next n input).2.2.1 < n + input.length + d.decimation := by
  induction input generalizing d filter next n with
  | nil => exact ⟨hle, hlt⟩
  | cons x input ih =>
    have hlen : n + (input.length + 1) = n + 1 + input.length := by omega
    rw [List.length_cons, hlen]
    by_cases hdue : n = next
    · subst hdue
      rw [processLoop_due]
      have hbound : n + d.decimation < n + 1 + d.decimation := by omega
      exact ih (d.feed A filter x).1.nextPhase _ hpos (by omega) hbound
    · rw [processLoop_skip A d filter hdue]
      have hbound : next < n + 1 + d.decimation := by omega
      exact ih (d.feed A filter x).1 _ hpos (by omega) hbound

/-- Positions below `n` on the grid of a step, for an input that starts at `start`. -/
def gridCount (start step n : ℕ) : ℕ := Nat.count (fun j => (start + j) % step = 0) n

theorem gridCount_succ (start step n : ℕ) :
    gridCount start step (n + 1) =
      gridCount start step n + if (start + n) % step = 0 then 1 else 0 :=
  Nat.count_succ _ n

/-- No grid point lies short of the next one. -/
theorem off_grid {start step next n : ℕ} (hnext : (start + next) % step = 0) (hlt : n < next)
    (hnear : next < n + step) : (start + n) % step ≠ 0 := by
  intro hzero
  have hdvd : step ∣ (start + next) - (start + n) :=
    Nat.dvd_sub (Nat.dvd_of_mod_eq_zero hnext) (Nat.dvd_of_mod_eq_zero hzero)
  have hle := Nat.le_of_dvd (by omega) hdvd
  omega

/-- The outputs are due at the positions on the grid of the decimation. -/
theorem processLoop_count (input : List α) (d : FirDecimator α) (filter : PhaseFilter α)
    {start next n : ℕ} (hle : n ≤ next) (hlt : next < n + d.decimation)
    (hgrid : (start + next) % d.decimation = 0) :
    (d.processLoop A filter next n input).2.2.2.length + gridCount start d.decimation n =
      gridCount start d.decimation (n + input.length) := by
  induction input generalizing d filter next n with
  | nil => simp [processLoop_nil]
  | cons x input ih =>
    have hlen : n + (input.length + 1) = n + 1 + input.length := by omega
    have hcount := gridCount_succ start d.decimation n
    rw [List.length_cons, hlen]
    by_cases hdue : n = next
    · -- an output is due at `n`, and the next one a whole step later
      subst hdue
      have hstep : (start + (n + d.decimation)) % d.decimation = 0 := by
        rw [← Nat.add_assoc, Nat.add_mod_right]
        exact hgrid
      have hbound : n + d.decimation < n + 1 + d.decimation := by omega
      have hrest := ih (d.feed A filter x).1.nextPhase (d.feed A filter x).2
        (by omega) hbound hstep
      rw [nextPhase_decimation, feed_decimation, hcount, if_pos hgrid] at hrest
      rw [processLoop_due, ← hrest]
      show (_ :: _ : List α).length + _ = _
      rw [List.length_cons]
      omega
    · have hbound : next < n + 1 + d.decimation := by omega
      have hrest := ih (d.feed A filter x).1 (d.feed A filter x).2 (by omega) hbound hgrid
      rw [feed_decimation, hcount, if_neg (off_grid hgrid (by omega) hlt)] at hrest
      rw [processLoop_skip A d filter hdue]
      exact hrest

/-- What every decimator in use satisfies: the next output is less than a step
    away, and only factor one has no final filter. -/
structure Due (d : FirDecimator α) : Prop where
  pos  : 0 < d.decimation
  skip : d.skip < d.decimation
  pass : d.finalFilter = none ↔ d.decimation = 1

theorem process_none {d : FirDecimator α} (h : d.finalFilter = none) (input : List α) :
    d.process A input = (d, input) := by
  simp only [process, h]

theorem process_some {d : FirDecimator α} {filter : PhaseFilter α}
    (h : d.finalFilter = some filter) (input : List α) :
    d.process A input =
      let r := d.processLoop A filter d.skip 0 input
      (r.1.store r.2.1 (r.2.2.1 - input.length), r.2.2.2) := by
  simp only [process, h]
  rfl

/-- What one call leaves: the due position after the input. -/
theorem process_due {d : FirDecimator α} (h : d.Due) (input : List α) :
    (d.process A input).1.Due ∧ SameShape d (d.process A input).1 ∧
      (d.process A input).1.skip + input.length =
        d.skip + (d.process A input).2.length * d.decimation := by
  cases hfilter : d.finalFilter with
  | none =>
    rw [process_none A hfilter]
    have hone := h.pass.1 hfilter
    refine ⟨h, .refl d, ?_⟩
    rw [hone, Nat.mul_one]
  | some filter =>
    rw [process_some A hfilter]
    have hne : d.decimation ≠ 1 := fun hone => by
      rw [h.pass.2 hone] at hfilter
      cases hfilter
    obtain ⟨hshape, hlen⟩ := processLoop_shape A input d filter d.skip 0
    obtain ⟨hahead, hbound⟩ := processLoop_ahead A input d filter h.pos (Nat.zero_le _)
      (by simpa using h.skip)
    have hnext := processLoop_next A input d filter d.skip 0
    rw [Nat.zero_add] at hahead hbound
    refine ⟨⟨?_, ?_, ?_⟩, ⟨hshape.decimation, hshape.factor, hshape.stages, ?_⟩, ?_⟩
    · show 0 < (d.processLoop A filter d.skip 0 input).1.decimation
      rw [hshape.decimation]
      exact h.pos
    · show (d.processLoop A filter d.skip 0 input).2.2.1 - input.length <
        (d.processLoop A filter d.skip 0 input).1.decimation
      rw [hshape.decimation]
      omega
    · simp [store, hshape.decimation, hne]
    · simp [store, hfilter, hlen]
    · show (d.processLoop A filter d.skip 0 input).2.2.1 - input.length + input.length = _
      rw [Nat.sub_add_cancel hahead]
      exact hnext

/-- **One call or two.** Feeding two pieces one after the other gives the state
    and the outputs of feeding them at once, wherever the next output is due. -/
theorem process_append_of_pos {d : FirDecimator α} (hpos : 0 < d.decimation) (xs ys : List α) :
    d.process A (xs ++ ys) =
      (((d.process A xs).1.process A ys).1,
        (d.process A xs).2 ++ ((d.process A xs).1.process A ys).2) := by
  cases hfilter : d.finalFilter with
  | none => simp only [process_none A hfilter]
  | some filter =>
    have hahead := processLoop_le A xs d filter hpos (Nat.zero_le d.skip)
    rw [Nat.zero_add] at hahead
    have happend := processLoop_append A xs ys d filter d.skip 0
    rw [process_some A hfilter, happend, process_some A hfilter]
    dsimp only
    generalize d.processLoop A filter d.skip 0 xs = first at hahead ⊢
    -- the second call counts from zero what the first left of the way to its next output
    have hshift := processLoop_shift A ys xs.length first.1 first.2.1
      (first.2.2.1 - xs.length) 0
    rw [Nat.sub_add_cancel hahead] at hshift
    have hlen : (xs ++ ys).length = ys.length + xs.length := by
      rw [List.length_append, Nat.add_comm]
    rw [process_some A rfl, processLoop_store, hshift, hlen]
    dsimp only
    rw [Nat.add_sub_add_right]
    rfl

theorem process_append {d : FirDecimator α} (h : d.Due) (xs ys : List α) :
    d.process A (xs ++ ys) =
      (((d.process A xs).1.process A ys).1,
        (d.process A xs).2 ++ ((d.process A xs).1.process A ys).2) :=
  process_append_of_pos A h.pos xs ys

/-- One output for each grid point of the input, when the next one is due on the grid. -/
theorem process_count {d : FirDecimator α} (h : d.Due) {start : ℕ} (input : List α)
    (hgrid : (start + d.skip) % d.decimation = 0) :
    (d.process A input).2.length = gridCount start d.decimation input.length := by
  cases hfilter : d.finalFilter with
  | none =>
    have hone := h.pass.1 hfilter
    rw [process_none A hfilter, hone]
    simp [gridCount, Nat.mod_one]
  | some filter =>
    have hcount := processLoop_count A input d filter (Nat.zero_le d.skip)
      (by simpa using h.skip) hgrid
    rw [process_some A hfilter]
    simpa [gridCount] using hcount

/-! ## Section 5: Reset -/

end FirDecimator

theorem HalfBandStage.reset_eq (s : HalfBandStage α) : s.reset A = HalfBandStage.new A := by
  simp [reset, new, s.length_history]

theorem PhaseFilter.reset_eq {f f' : PhaseFilter α} (h : f'.len = f.len) :
    f'.reset A = f.reset A := by
  simp [reset, f.length_history, f'.length_history, h]

namespace FirDecimator

/-- **Reset forgets.** Nothing but the shape survives it. -/
theorem SameShape.reset_eq {d d' : FirDecimator α} (h : SameShape d d') (firstOffset : ℕ) :
    d'.reset A firstOffset = d.reset A firstOffset := by
  have hstages : d'.stages.map (·.reset A) = d.stages.map (·.reset A) := by
    simp [HalfBandStage.reset_eq, h.stages]
  have hfilter : d'.finalFilter.map (·.reset A) = d.finalFilter.map (·.reset A) := by
    have hlen := h.filter
    cases hd : d.finalFilter with
    | none => simpa [hd] using hlen
    | some f =>
      cases hd' : d'.finalFilter with
      | none => simp [hd, hd'] at hlen
      | some f' =>
        have hlen' : f'.len = f.len := by simpa [hd, hd'] using hlen
        exact congrArg some (PhaseFilter.reset_eq A hlen')
  simp only [reset, h.decimation, h.factor, hstages, hfilter]

@[simp] theorem new_decimation (decimation : ℕ) :
    (new A decimation : FirDecimator α).decimation = decimation := by
  unfold new
  split <;> rfl

theorem new_due {decimation : ℕ} (h : 0 < decimation) :
    (new A decimation : FirDecimator α).Due := by
  unfold new
  split
  · next hone => exact ⟨by omega, by simp [hone], by simp [hone]⟩
  · next hne => exact ⟨h, h, by simp [hne]⟩

theorem Due.reset {d : FirDecimator α} (h : d.Due) {firstOffset : ℕ}
    (hlt : firstOffset < d.decimation) : (d.reset A firstOffset).Due :=
  ⟨h.pos, hlt, by simpa [FirDecimator.reset] using h.pass⟩

theorem reset_shape (d : FirDecimator α) (firstOffset : ℕ) :
    SameShape d (d.reset A firstOffset) := by
  refine ⟨rfl, rfl, by simp [FirDecimator.reset], ?_⟩
  cases hfilter : d.finalFilter with
  | none => simp [FirDecimator.reset, hfilter]
  | some filter => simp [FirDecimator.reset, hfilter, PhaseFilter.reset]

end FirDecimator

end

end Capture
