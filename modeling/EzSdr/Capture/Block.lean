import EzSdr.Ingest.Source

/-! # Sample Blocks and Their Clocks

    The blocks that the wideband bus and the virtual channels carry to their
    consumers, with the checked arithmetic on capture clocks and the
    continuity test every consumer applies to its own queue.

    Samples are of any type `α`: what is done with them differs by consumer. -/

namespace Capture

open Ingest (CaptureClock)

/-! ## Section 1: Clock arithmetic -/

/-- `u64::checked_add`. -/
def checkedAdd (a b : ℕ) : Option ℕ := if a + b < 2 ^ 64 then some (a + b) else none

/-- `u64::checked_mul`. -/
def checkedMul (a b : ℕ) : Option ℕ := if a * b < 2 ^ 64 then some (a * b) else none

theorem checkedAdd_eq_some {a b c : ℕ} :
    checkedAdd a b = some c ↔ a + b < 2 ^ 64 ∧ c = a + b := by
  unfold checkedAdd
  split <;> simp_all [eq_comm]

theorem checkedMul_eq_some {a b c : ℕ} :
    checkedMul a b = some c ↔ a * b < 2 ^ 64 ∧ c = a * b := by
  unfold checkedMul
  split <;> simp_all [eq_comm]

/-- `CaptureClock::offset_samples`. -/
def offsetSamples (clock : CaptureClock) (samples : ℕ) : Option CaptureClock := do
  let source ← checkedMul samples clock.sampleStride
  let index ← checkedAdd clock.sourceSampleIndex source
  return { clock with sourceSampleIndex := index }

/-- The clock moves by whole strides, and never wraps. -/
theorem offsetSamples_eq_some {clock next : CaptureClock} {samples : ℕ} :
    offsetSamples clock samples = some next ↔
      clock.sourceSampleIndex + samples * clock.sampleStride < 2 ^ 64 ∧
      next = { clock with
        sourceSampleIndex := clock.sourceSampleIndex + samples * clock.sampleStride } := by
  simp only [offsetSamples, Option.bind_eq_bind, Option.bind_eq_some_iff,
    checkedMul_eq_some, checkedAdd_eq_some]
  constructor
  · rintro ⟨source, ⟨-, rfl⟩, index, ⟨hindex, rfl⟩, hnext⟩
    exact ⟨hindex, (Option.some.inj hnext).symm⟩
  · rintro ⟨hindex, rfl⟩
    exact ⟨_, ⟨by omega, rfl⟩, _, ⟨hindex, rfl⟩, rfl⟩

theorem offsetSamples_of_lt {clock : CaptureClock} {samples : ℕ}
    (h : clock.sourceSampleIndex + samples * clock.sampleStride < 2 ^ 64) :
    offsetSamples clock samples = some { clock with
      sourceSampleIndex := clock.sourceSampleIndex + samples * clock.sampleStride } :=
  offsetSamples_eq_some.2 ⟨h, rfl⟩

/-! ## Section 2: Blocks -/

/-- A block of consecutive samples, without the time it was observed at. -/
structure SampleBlock (α : Type*) where
  productSession : ℕ
  capture        : Option CaptureClock
  startSample    : ℕ
  sampleRateHz   : ℕ
  centerFreqHz   : ℕ
  samples        : List α
  deriving DecidableEq

variable {α : Type*}

/-- `SampleBlock::capture_clock`: callers without a clock of their own count
    samples in epoch zero. -/
def SampleBlock.captureClock (block : SampleBlock α) : CaptureClock :=
  block.capture.getD (CaptureClock.new 0 block.startSample block.sampleRateHz none)

/-! ## Section 3: Continuity -/

/-- What a consumer expects of the next block if nothing is lost. -/
structure Expected where
  sample    : ℕ
  clock     : CaptureClock
  rate      : ℕ
  center    : ℕ
  deriving DecidableEq

/-- `SampleContinuity`: the expectation left by the last block, if any. -/
abbrev SampleContinuity := Option Expected

/-- The block is the one expected, and no break was reported before it. -/
def Expected.admits (expected : Expected) (block : SampleBlock α) : Bool :=
  let clock := block.captureClock
  expected.sample = block.startSample && expected.rate = block.sampleRateHz &&
  expected.center = block.centerFreqHz && expected.clock.epoch = clock.epoch &&
  expected.clock.sourceSampleIndex = clock.sourceSampleIndex &&
  expected.clock.sourceSampleRateHz = clock.sourceSampleRateHz &&
  expected.clock.sampleStride = clock.sampleStride &&
  expected.clock.originUnixNs = clock.originUnixNs

/-- `SampleContinuity::observe`: whether the block continues the last one, and
    the expectation it leaves. -/
def observe (next : SampleContinuity) (block : SampleBlock α) : Bool × SampleContinuity :=
  let clock := block.captureClock
  let contiguous := !clock.discontinuous && next.any (·.admits block)
  let next := do
    let sample ← checkedAdd block.startSample block.samples.length
    let clock' ← offsetSamples clock block.samples.length
    if clock.sourceSampleRateHz > 0 ∧ clock.sampleStride > 0 then
      some ⟨sample, clock', block.sampleRateHz, block.centerFreqHz⟩
    else none
  (contiguous, next)

end Capture
