import EzSdr.Capture.Decimator
import EzSdr.Framework.Machine

/-! # The Decimator over Chunks of any Length

    A decimator is fed chunk after chunk, and now and then it is reset to a new
    first offset. Since the last reset its outputs are a function of the input
    alone: one at every position `first offset + i * decimation`, with the phase
    of that position.

    **`chunking_onePass`**: this holds for all chunks and all resets, and the
    distance to the next output never underflows. -/

namespace Capture

namespace FirDecimator

variable {α ν : Type*} (A : Dsp α ν)

/-! ## Section 1: One pass -/

/-- The stages and the final filter after some input. -/
def feedAll (filters : List (HalfBandStage α) × PhaseFilter α) (input : List α) :
    List (HalfBandStage α) × PhaseFilter α :=
  input.foldl (fun filters sample =>
    let (stages, value) := pushStages A filters.1 sample
    (stages, value.elim filters.2 filters.2.push)) filters

theorem feedAll_concat (filters : List (HalfBandStage α) × PhaseFilter α) (input : List α)
    (x : α) :
    feedAll A filters (input ++ [x]) =
      ((pushStages A (feedAll A filters input).1 x).1,
        (pushStages A (feedAll A filters input).1 x).2.elim (feedAll A filters input).2
          (feedAll A filters input).2.push) := by
  rw [feedAll, List.foldl_append]
  rfl

/-- Positions that give an output. -/
def IsDue (firstOffset decimation n : ℕ) : Prop :=
  firstOffset ≤ n ∧ (n - firstOffset) % decimation = 0

instance (firstOffset decimation n : ℕ) : Decidable (IsDue firstOffset decimation n) :=
  inferInstanceAs (Decidable (_ ∧ _))

/-- The output at position `n` of the input. -/
def outputAt (d : FirDecimator α) (filter : PhaseFilter α) (input : List α) (n : ℕ) : α :=
  A.phaseOutput d.decimation (n % d.stageFactor)
    (feedAll A (d.stages, filter) (input.take (n + 1))).2.window

/-- The outputs of `input` for a filter that has seen nothing. -/
def outputsAt (d : FirDecimator α) (filter : PhaseFilter α) (firstOffset : ℕ) (input : List α) :
    List α :=
  ((List.range input.length).filter (IsDue firstOffset d.decimation ·)).map
    (outputAt A d filter input)

/-- **One pass** over the whole input, position by position. -/
def onePass (decimation firstOffset : ℕ) (input : List α) : List α :=
  let d := (new A decimation).reset A firstOffset
  match d.finalFilter with
  | none => input
  | some filter => outputsAt A d filter firstOffset input

/-! ## Section 2: The loop is one pass -/

/-- What the loop has reached after `input`. -/
structure Reached (d : FirDecimator α) (filter : PhaseFilter α) (firstOffset : ℕ)
    (input : List α) (r : FirDecimator α × PhaseFilter α × ℕ × List α) : Prop where
  filters    : (r.1.stages, r.2.1) = feedAll A (d.stages, filter) input
  decimation : r.1.decimation = d.decimation
  factor     : r.1.stageFactor = d.stageFactor
  phase      : r.1.outputPhase = r.2.2.1 % d.stageFactor
  due        : IsDue firstOffset d.decimation r.2.2.1
  near       : r.2.2.1 < input.length + d.decimation ∨ r.2.2.1 = firstOffset
  outputs    : r.2.2.2 = outputsAt A d filter firstOffset input

/-- Longer input adds outputs at its end. -/
theorem outputsAt_concat (d : FirDecimator α) (filter : PhaseFilter α) (firstOffset : ℕ)
    (input : List α) (x : α) :
    outputsAt A d filter firstOffset (input ++ [x]) =
      outputsAt A d filter firstOffset input ++
        if IsDue firstOffset d.decimation input.length then
          [outputAt A d filter (input ++ [x]) input.length]
        else [] := by
  unfold outputsAt
  rw [List.length_append, List.length_singleton, List.range_succ, List.filter_append,
    List.map_append]
  congr 1
  · -- positions in the old input do not see the new sample
    apply List.map_congr_left
    intro n hn
    have hlt : n + 1 ≤ input.length := List.mem_range.1 (List.mem_filter.1 hn).1
    rw [outputAt, outputAt, List.take_append_of_le_length hlt]
  · split
    next h => rw [List.filter_singleton, decide_eq_true h]; rfl
    next h => rw [List.filter_singleton, decide_eq_false h]; rfl

/-- Short of the next output, no position is due. -/
theorem not_due {firstOffset decimation next n : ℕ} (hdue : IsDue firstOffset decimation next)
    (hlt : n < next) (hnear : next < n + decimation ∨ next = firstOffset) :
    ¬ IsDue firstOffset decimation n := by
  intro h
  obtain ⟨hle, hzero⟩ := h
  have hdvd : decimation ∣ (next - firstOffset) - (n - firstOffset) :=
    Nat.dvd_sub (Nat.dvd_of_mod_eq_zero hdue.2) (Nat.dvd_of_mod_eq_zero hzero)
  have hstep := Nat.le_of_dvd (by omega) hdvd
  omega

theorem reached_step {d : FirDecimator α} {filter : PhaseFilter α} {firstOffset : ℕ}
    {input : List α} {r : FirDecimator α × PhaseFilter α × ℕ × List α}
    (hle : input.length ≤ r.2.2.1) (h : Reached A d filter firstOffset input r) (x : α) :
    Reached A d filter firstOffset (input ++ [x])
      (let rest := r.1.processLoop A r.2.1 r.2.2.1 input.length [x]
      (rest.1, rest.2.1, rest.2.2.1, r.2.2.2 ++ rest.2.2.2)) := by
  obtain ⟨d', filter', next, output⟩ := r
  obtain ⟨hfilters, hdec, hfactor, hphase, hdue, hnear, houtputs⟩ := h
  dsimp only at hle hfilters hdec hfactor hphase hdue hnear houtputs
  have hfed := feedAll_concat A (d.stages, filter) input x
  rw [← hfilters] at hfed
  have hlast : (input ++ [x]).take (input.length + 1) = input ++ [x] :=
    List.take_of_length_le (by rw [List.length_append, List.length_singleton])
  have hmore := outputsAt_concat A d filter firstOffset input x
  rcases Nat.eq_or_lt_of_le hle with heq | hlt
  · -- an output is due at the new sample
    rw [heq, if_pos hdue, outputAt, ← heq, hlast, hfed, ← houtputs] at hmore
    dsimp only
    rw [heq, processLoop_due]
    dsimp only [processLoop_nil]
    constructor
    case filters => exact hfed.symm
    case decimation => exact hdec
    case factor => exact hfactor
    case phase =>
      show (d'.outputPhase + d'.decimation % d'.stageFactor) % d'.stageFactor = _
      rw [hphase, hfactor, ← Nat.add_mod]
    case due =>
      obtain ⟨hfirst, hzero⟩ := hdue
      refine ⟨hfirst.trans (Nat.le_add_right _ _), ?_⟩
      show (next + d'.decimation - firstOffset) % d.decimation = 0
      rw [hdec, Nat.sub_add_comm hfirst, Nat.add_mod_right, hzero]
    case near =>
      left
      show next + d'.decimation < (input ++ [x]).length + d.decimation
      rw [hdec, List.length_append, List.length_singleton, heq]
      omega
    case outputs =>
      rw [hmore]
      show _ ++ [A.phaseOutput d'.decimation d'.outputPhase _] = _
      rw [hdec, hphase, heq]
      rfl
  · have hnone := not_due hdue hlt hnear
    rw [if_neg hnone, List.append_nil, ← houtputs] at hmore
    dsimp only
    rw [processLoop_skip A d' filter' (Nat.ne_of_lt hlt), processLoop_nil]
    constructor
    case filters => exact hfed.symm
    case decimation => exact hdec
    case factor => exact hfactor
    case phase => exact hphase
    case due => exact hdue
    case near =>
      show next < (input ++ [x]).length + d.decimation ∨ next = firstOffset
      rw [List.length_append]
      omega
    case outputs => rw [hmore, List.append_nil]

/-- **The loop is one pass**, wherever the first output is due. -/
theorem processLoop_reached {d : FirDecimator α} (filter : PhaseFilter α) {firstOffset : ℕ}
    (hpos : 0 < d.decimation) (hphase : d.outputPhase = firstOffset % d.stageFactor)
    (input : List α) :
    Reached A d filter firstOffset input (d.processLoop A filter firstOffset 0 input) := by
  induction input using List.reverseRecOn with
  | nil =>
    refine ⟨rfl, rfl, rfl, hphase, ⟨le_rfl, ?_⟩, .inr rfl, rfl⟩
    rw [processLoop_nil, Nat.sub_self, Nat.zero_mod]
  | append_singleton input x ih =>
    have hle := processLoop_le A input d filter hpos (Nat.zero_le firstOffset)
    rw [Nat.zero_add] at hle
    have hstep := reached_step A hle ih x
    rw [processLoop_append, Nat.zero_add]
    exact hstep

/-! ## Section 3: Chunks and resets -/

/-- `process`, where the distance to the next output is checked not to underflow. -/
def processChecked (d : FirDecimator α) (input : List α) : Option (FirDecimator α × List α) :=
  match d.finalFilter with
  | none => some (d, input)
  | some filter =>
    let (d, filter, next, output) := d.processLoop A filter d.skip 0 input
    if input.length ≤ next then
      some ({ d with finalFilter := some filter, skip := next - input.length }, output)
    else none

theorem processChecked_eq {d : FirDecimator α} (hpos : 0 < d.decimation) (input : List α) :
    d.processChecked A input = some (d.process A input) := by
  unfold processChecked
  cases hfilter : d.finalFilter with
  | none => rw [process_none A hfilter]
  | some filter =>
    have hle := processLoop_le A input d filter hpos (Nat.zero_le d.skip)
    rw [Nat.zero_add] at hle
    dsimp only
    rw [if_pos hle, process_some A hfilter]
    rfl

inductive Input (α : Type*) where
  | process (chunk : List α)
  | reset (firstOffset : ℕ)

/-- A decimator and its caller. -/
def machine (decimation : ℕ) : Machine (FirDecimator α) (Input α) (List α) where
  init := new A decimation
  step d
    | .process chunk => d.processChecked A chunk
    | .reset firstOffset => some (d.reset A firstOffset, [])

/-- First offset, input and outputs since the last reset. -/
structure Segment (α : Type*) where
  firstOffset : ℕ
  input       : List α
  outputs     : List α

def Segment.next (s : Segment α) (e : Machine.Event (FirDecimator α) (Input α) (List α)) :
    Segment α :=
  match e.input with
  | .process chunk =>
    { s with input := s.input ++ chunk, outputs := s.outputs ++ e.output }
  | .reset firstOffset => ⟨firstOffset, [], []⟩

def segment (h : List (Machine.Event (FirDecimator α) (Input α) (List α))) : Segment α :=
  h.foldl Segment.next ⟨0, [], []⟩

/-- The decimator is the fresh one after the segment, whatever the chunks were. -/
structure Whole (decimation : ℕ) (d : FirDecimator α) (s : Segment α) : Prop where
  state   : d = (((new A decimation).reset A s.firstOffset).process A s.input).1
  outputs : s.outputs = (((new A decimation).reset A s.firstOffset).process A s.input).2

theorem reset_zero (decimation : ℕ) :
    (new A decimation : FirDecimator α).reset A 0 = new A decimation := by
  unfold new
  split
  · rfl
  · simp [FirDecimator.reset, HalfBandStage.reset_eq, PhaseFilter.reset, PhaseFilter.new]

theorem process_nil {d : FirDecimator α} : d.process A [] = (d, []) := by
  cases hfilter : d.finalFilter with
  | none => rw [process_none A hfilter]
  | some filter =>
    rw [process_some A hfilter, processLoop_nil]
    show (d.store filter (d.skip - 0), []) = (d, [])
    rw [Nat.sub_zero, store, ← hfilter]

theorem process_shape (d : FirDecimator α) (input : List α) :
    SameShape d (d.process A input).1 := by
  cases hfilter : d.finalFilter with
  | none =>
    rw [process_none A hfilter]
    exact .refl d
  | some filter =>
    rw [process_some A hfilter]
    obtain ⟨hshape, hlen⟩ := processLoop_shape A input d filter d.skip 0
    exact ⟨hshape.decimation, hshape.factor, hshape.stages, by simp [store, hfilter, hlen]⟩

theorem Whole.reset {decimation : ℕ} {d : FirDecimator α} {s : Segment α}
    (h : Whole A decimation d s) (firstOffset : ℕ) :
    Whole A decimation (d.reset A firstOffset) ⟨firstOffset, [], []⟩ := by
  have hshape : SameShape (new A decimation) d := by
    rw [h.state]
    exact (reset_shape A _ _).trans (process_shape A _ _)
  constructor
  · rw [process_nil, hshape.reset_eq]
  · rw [process_nil]

theorem Whole.process {decimation : ℕ} (hpos : 0 < decimation) {d : FirDecimator α}
    {s : Segment α} (h : Whole A decimation d s) (chunk : List α) :
    Whole A decimation (d.process A chunk).1
      { s with input := s.input ++ chunk, outputs := s.outputs ++ (d.process A chunk).2 } := by
  have hstart : 0 < ((new A decimation).reset A s.firstOffset : FirDecimator α).decimation := by
    rw [(reset_shape A _ _).decimation, new_decimation]
    exact hpos
  have happend := process_append_of_pos A hstart s.input chunk
  constructor
  · rw [happend, h.state]
  · rw [happend, h.outputs, h.state]

/-- The outputs of a decimator that has just been reset are those of one pass, and its phase
    is that of the position of its next output. -/
theorem process_onePass {decimation : ℕ} (hpos : 0 < decimation) (firstOffset : ℕ)
    (input : List α) :
    (((new A decimation).reset A firstOffset).process A input).2 =
        onePass A decimation firstOffset input ∧
      (((new A decimation).reset A firstOffset).process A input).1.outputPhase =
        (input.length + (((new A decimation).reset A firstOffset).process A input).1.skip) %
          (new A decimation).stageFactor := by
  have hstart : 0 < ((new A decimation).reset A firstOffset : FirDecimator α).decimation := by
    rw [(reset_shape A _ _).decimation, new_decimation]
    exact hpos
  unfold onePass
  dsimp only
  cases hfilter : ((new A decimation).reset A firstOffset : FirDecimator α).finalFilter with
  | none =>
    -- only factor one has no filter, and its only phase is zero
    have hone : (new A decimation : FirDecimator α).stageFactor = 1 := by
      unfold new at hfilter ⊢
      split at hfilter
      · next h => rw [if_pos h]
      · cases hfilter
    rw [process_none A hfilter]
    refine ⟨rfl, ?_⟩
    rw [hone, Nat.mod_one]
    show firstOffset % (new A decimation : FirDecimator α).stageFactor = 0
    rw [hone, Nat.mod_one]
  | some filter =>
    have hreached := @processLoop_reached _ _ A _ filter firstOffset hstart rfl input
    have hle := processLoop_le A input ((new A decimation).reset A firstOffset) filter hstart
      (Nat.zero_le firstOffset)
    rw [Nat.zero_add] at hle
    rw [process_some A hfilter]
    refine ⟨hreached.outputs, ?_⟩
    show (processLoop A _ filter firstOffset 0 input).1.outputPhase =
      (input.length + ((processLoop A _ filter firstOffset 0 input).2.2.1 - input.length)) % _
    rw [Nat.add_sub_cancel' hle]
    exact hreached.phase

/-- **Any chunks, any resets.** A decimator never underflows. The outputs since its last reset
    are those of one call, and of one pass, over all the input since then, and its phase is
    the position of its next output in that input, modulo the stage factor. -/
theorem chunking_onePass {decimation : ℕ} (hpos : 0 < decimation) (is : List (Input α)) :
    ∃ t h, (machine A decimation).run (new A decimation) is = some (t, h) ∧
      (segment h).outputs =
        (((new A decimation).reset A (segment h).firstOffset).process A (segment h).input).2 ∧
      (segment h).outputs = onePass A decimation (segment h).firstOffset (segment h).input ∧
      t.outputPhase = ((segment h).input.length + t.skip) % t.stageFactor := by
  have hinit : Whole A decimation (new A decimation) (segment []) := by
    constructor
    · show _ = (((new A decimation).reset A 0).process A []).1
      rw [process_nil, reset_zero]
    · show _ = (((new A decimation).reset A 0).process A []).2
      rw [process_nil]
      rfl
  obtain ⟨t, h, hrun, hwhole⟩ := (machine A decimation).run_safe (I := fun _ => True)
    (P := fun h d => Whole A decimation d (segment h)) hinit
    (by
      intro h d i hwhole _
      have hsegment (e) : segment (h ++ [e]) = (segment h).next e := List.foldl_concat ..
      cases i with
      | process chunk =>
        have hdec : 0 < d.decimation := by
          rw [hwhole.state, (process_shape A _ _).decimation, (reset_shape A _ _).decimation,
            new_decimation]
          exact hpos
        refine ⟨_, _, processChecked_eq A hdec chunk, ?_⟩
        rw [hsegment]
        exact hwhole.process A hpos chunk
      | reset firstOffset =>
        refine ⟨_, _, rfl, ?_⟩
        rw [hsegment]
        exact hwhole.reset A firstOffset)
    is (fun _ _ => trivial)
  obtain ⟨houtputs, hphase⟩ := process_onePass A hpos (segment h).firstOffset (segment h).input
  refine ⟨t, h, hrun, hwhole.outputs, hwhole.outputs.trans houtputs, ?_⟩
  have hfactor : t.stageFactor = (new A decimation : FirDecimator α).stageFactor := by
    rw [hwhole.state, (process_shape A _ _).factor, (reset_shape A _ _).factor]
  rw [hfactor]
  conv_lhs => rw [hwhole.state, hphase]
  rw [hwhole.state]

/-- Sums over the windows, with the phase added. -/
def phaseSum : Dsp ℤ Unit where
  zero := 0
  ncoNew _ _ _ _ := ()
  ncoSeek _ _ _ := ()
  ncoMix _ x := (x, ())
  halfBand window := window.sum
  phaseOutput _ phase window := phase + window.sum

/-- Chunks shorter than the step, and a reset between them. -/
theorem chunking_onePass_factorTwelve :
    ∃ t h, (machine phaseSum 12).run (new phaseSum 12)
        [.process [1, 2, 3], .reset 5, .process [4], .process [5, 6, 7, 8, 9, 10]] =
          some (t, h) ∧
      (segment h).outputs =
        (((new phaseSum 12).reset phaseSum (segment h).firstOffset).process phaseSum
          (segment h).input).2 ∧
      (segment h).outputs = onePass phaseSum 12 (segment h).firstOffset (segment h).input ∧
      t.outputPhase = ((segment h).input.length + t.skip) % t.stageFactor :=
  chunking_onePass phaseSum (by decide)
    [.process [1, 2, 3], .reset 5, .process [4], .process [5, 6, 7, 8, 9, 10]]

end FirDecimator

end Capture
