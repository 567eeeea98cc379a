import EzSdr.Capture.Block

/-! # Times of Samples and of Messages

    A capture clock gives every sample a place and a time in the original
    acquisition. Messages of the 2.4 MHz demodulator come with their own time
    stamps, in fifths of a sample. The code computes with 128 bits and answers
    with 64, or not at all.

    **`clock_law`**: all of these are the exact values, rounded down once. -/

namespace Capture

open Ingest (CaptureClock)

/-! ## Section 1: The arithmetic -/

/-- `u64::try_from`. -/
def toU64 (n : ℕ) : Option ℕ := if n < 2 ^ 64 then some n else none

/-- A checked result of type `i128`. -/
def toI128 (n : ℤ) : Option ℤ := if -2 ^ 127 ≤ n ∧ n < 2 ^ 127 then some n else none

/-- A result of type `u128`. -/
def u128 (n : ℕ) : ℕ := n % 2 ^ 128

/-- The exact source-sample coordinate of a decoded message. -/
structure CaptureTimestamp where
  epoch                   : ℕ
  sourceSampleIndex       : ℕ
  sourceSamplePhaseFifths : ℕ
  sourceSampleRateHz      : ℕ
  originUnixNs            : Option ℕ
  deriving DecidableEq

namespace CaptureTimestamp

def relativeTimeNs (t : CaptureTimestamp) : Option ℕ :=
  if t.sourceSampleRateHz = 0 ∨ t.sourceSamplePhaseFifths ≥ 5 then none
  else
    let fifths := u128 (u128 (t.sourceSampleIndex * 5) + t.sourceSamplePhaseFifths)
    toU64 (u128 (fifths * 1000000000) / u128 (t.sourceSampleRateHz * 5))

def unixTimeNs (t : CaptureTimestamp) : Option ℕ := do
  let origin ← t.originUnixNs
  checkedAdd origin (← t.relativeTimeNs)

end CaptureTimestamp

/-- `CaptureClock::message_timestamp_2400`. -/
def messageTimestamp2400 (clock : CaptureClock) (offsetFifths : ℤ) : Option CaptureTimestamp :=
  if clock.sourceSampleRateHz = 0 ∨ clock.sampleStride = 0 then none
  else do
    let start ← toI128 (clock.sourceSampleIndex * 5)
    let offset ← toI128 (offsetFifths * clock.sampleStride)
    let fifths ← toI128 (start + offset)
    if fifths < 0 then none
    else do
      let index ← toU64 (fifths / 5).toNat
      return {
        epoch := clock.epoch
        sourceSampleIndex := index
        sourceSamplePhaseFifths := (fifths % 5).toNat
        sourceSampleRateHz := clock.sourceSampleRateHz
        originUnixNs := clock.originUnixNs }

/-- `CaptureClock::relative_time_ns`. -/
def relativeTimeNs (clock : CaptureClock) (sampleOffset : ℕ) : Option ℕ :=
  if clock.sourceSampleRateHz = 0 ∨ clock.sampleStride = 0 then none
  else
    let index := u128 (clock.sourceSampleIndex + u128 (sampleOffset * clock.sampleStride))
    toU64 (u128 (index * 1000000000) / clock.sourceSampleRateHz)

/-- `CaptureClock::unix_time_ns`. -/
def unixTimeNs (clock : CaptureClock) (sampleOffset : ℕ) : Option ℕ := do
  let origin ← clock.originUnixNs
  checkedAdd origin (← relativeTimeNs clock sampleOffset)

/-! ## Section 2: Exact values -/

/-- The fields have the values of their types in the code. -/
structure InRange (clock : CaptureClock) : Prop where
  index  : clock.sourceSampleIndex < 2 ^ 64
  rate   : clock.sourceSampleRateHz < 2 ^ 32
  stride : clock.sampleStride < 2 ^ 32

/-- The source index of a sample of the block. -/
def indexAt (clock : CaptureClock) (offset : ℕ) : ℕ :=
  clock.sourceSampleIndex + offset * clock.sampleStride

/-- Fifths of source samples at an offset in fifths of a sample. -/
def fifthsAt (clock : CaptureClock) (offsetFifths : ℤ) : ℤ :=
  clock.sourceSampleIndex * 5 + offsetFifths * clock.sampleStride

/-- Nanoseconds up to a number of fifths of source samples, rounded down. -/
def nanoseconds (clock : CaptureClock) (fifths : ℕ) : ℕ :=
  fifths * 1000000000 / (clock.sourceSampleRateHz * 5)

theorem toU64_eq_some {n m : ℕ} : toU64 n = some m ↔ n < 2 ^ 64 ∧ m = n := by
  unfold toU64
  split <;> simp_all [eq_comm]

theorem toI128_eq_some {n m : ℤ} : toI128 n = some m ↔ (-2 ^ 127 ≤ n ∧ n < 2 ^ 127) ∧ m = n := by
  unfold toI128
  split <;> simp_all [eq_comm]

theorem u128_of_lt {n : ℕ} (h : n < 2 ^ 128) : u128 n = n := Nat.mod_eq_of_lt h

/-- A time stamp in range has its time, rounded down once. -/
theorem CaptureTimestamp.relativeTimeNs_eq {t : CaptureTimestamp}
    (hindex : t.sourceSampleIndex < 2 ^ 64) (hrate : t.sourceSampleRateHz < 2 ^ 32)
    (hpos : t.sourceSampleRateHz ≠ 0) (hphase : t.sourceSamplePhaseFifths < 5) :
    t.relativeTimeNs = toU64 ((t.sourceSampleIndex * 5 + t.sourceSamplePhaseFifths) * 1000000000 /
      (t.sourceSampleRateHz * 5)) := by
  have hstart : u128 (t.sourceSampleIndex * 5) = t.sourceSampleIndex * 5 := u128_of_lt (by omega)
  have hfifths : u128 (t.sourceSampleIndex * 5 + t.sourceSamplePhaseFifths) =
      t.sourceSampleIndex * 5 + t.sourceSamplePhaseFifths := u128_of_lt (by omega)
  unfold relativeTimeNs
  rw [if_neg (by omega)]
  dsimp only
  rw [hstart, hfifths, u128_of_lt (n := t.sourceSampleRateHz * 5) (by omega),
    u128_of_lt (by omega)]

/-- So has a sample of a block. -/
theorem relativeTimeNs_eq {clock : CaptureClock} (h : InRange clock) {offset : ℕ}
    (hoffset : offset < 2 ^ 64) (hrate : clock.sourceSampleRateHz ≠ 0)
    (hstride : clock.sampleStride ≠ 0) :
    relativeTimeNs clock offset = toU64 (nanoseconds clock (indexAt clock offset * 5)) := by
  have hproduct : offset * clock.sampleStride < 2 ^ 64 * 2 ^ 32 :=
    Nat.mul_lt_mul'' hoffset h.stride
  have hindex := h.index
  have hexact : indexAt clock offset * 5 * 1000000000 / (clock.sourceSampleRateHz * 5) =
      indexAt clock offset * 1000000000 / clock.sourceSampleRateHz := by
    rw [Nat.mul_right_comm, Nat.mul_div_mul_right _ _ (by decide)]
  have hmoved : u128 (offset * clock.sampleStride) = offset * clock.sampleStride :=
    u128_of_lt (by omega)
  have hplace : u128 (clock.sourceSampleIndex + offset * clock.sampleStride) =
      indexAt clock offset := u128_of_lt (by omega)
  have hscaled : u128 (indexAt clock offset * 1000000000) = indexAt clock offset * 1000000000 := by
    refine u128_of_lt ?_
    unfold indexAt
    omega
  unfold relativeTimeNs nanoseconds
  rw [if_neg (by omega), hexact]
  dsimp only
  rw [hmoved, hplace, hscaled]

theorem relativeTimeNs_unclocked {clock : CaptureClock} {offset : ℕ}
    (h : clock.sourceSampleRateHz = 0 ∨ clock.sampleStride = 0) :
    relativeTimeNs clock offset = none := if_pos h

/-- What a message gets: an exact coordinate, if it lies within 64 bits. -/
theorem messageTimestamp2400_eq_some {clock : CaptureClock} (h : InRange clock)
    {offset : ℤ} {t : CaptureTimestamp} :
    messageTimestamp2400 clock offset = some t ↔
      (clock.sourceSampleRateHz ≠ 0 ∧ clock.sampleStride ≠ 0) ∧
      (0 ≤ fifthsAt clock offset ∧ fifthsAt clock offset < 5 * 2 ^ 64) ∧
      t = { epoch := clock.epoch
            sourceSampleIndex := (fifthsAt clock offset / 5).toNat
            sourceSamplePhaseFifths := (fifthsAt clock offset % 5).toNat
            sourceSampleRateHz := clock.sourceSampleRateHz
            originUnixNs := clock.originUnixNs } := by
  have hindex := h.index
  unfold messageTimestamp2400 fifthsAt
  obtain ⟨moved, hmoved⟩ : ∃ moved, moved = offset * (clock.sampleStride : ℤ) := ⟨_, rfl⟩
  rw [← hmoved]
  by_cases hclock : clock.sourceSampleRateHz = 0 ∨ clock.sampleStride = 0
  · rw [if_pos hclock]
    constructor
    · intro hnone
      cases hnone
    · intro hsome
      exact absurd hclock (not_or.2 hsome.1)
  · rw [if_neg hclock]
    simp only [Option.bind_eq_bind, Option.bind_eq_some_iff, toI128_eq_some]
    constructor
    · intro hsome
      obtain ⟨start, ⟨-, rfl⟩, shift, ⟨-, hshift⟩, fifths, ⟨-, rfl⟩, hfinal⟩ := hsome
      rw [hshift] at hfinal
      by_cases hneg : (clock.sourceSampleIndex : ℤ) * 5 + moved < 0
      · rw [if_pos hneg] at hfinal
        cases hfinal
      · rw [if_neg hneg] at hfinal
        obtain ⟨index, hindex', ht⟩ := Option.bind_eq_some_iff.1 hfinal
        obtain ⟨hlt, rfl⟩ := toU64_eq_some.1 hindex'
        exact ⟨not_or.1 hclock, ⟨not_lt.1 hneg, by omega⟩, (Option.some.inj ht).symm⟩
    · intro hsome
      obtain ⟨-, ⟨hnonneg, hlt⟩, rfl⟩ := hsome
      refine ⟨_, ⟨by omega, rfl⟩, _, ⟨by omega, rfl⟩, _, ⟨by omega, rfl⟩, ?_⟩
      rw [if_neg (by omega), Option.bind_eq_some_iff]
      exact ⟨_, toU64_eq_some.2 ⟨by omega, rfl⟩, rfl⟩

theorem messageTimestamp2400_eq_none {clock : CaptureClock} (h : InRange clock) {offset : ℤ} :
    messageTimestamp2400 clock offset = none ↔
      (clock.sourceSampleRateHz = 0 ∨ clock.sampleStride = 0) ∨
        fifthsAt clock offset < 0 ∨ 5 * 2 ^ 64 ≤ fifthsAt clock offset := by
  constructor
  · intro hnone
    by_contra hfits
    obtain ⟨hclock, hplace⟩ := not_or.1 hfits
    obtain ⟨hnonneg, hlt⟩ := not_or.1 hplace
    have hsome := (messageTimestamp2400_eq_some h).2
      ⟨not_or.1 hclock, ⟨not_lt.1 hnonneg, not_le.1 hlt⟩, rfl⟩
    rw [hnone] at hsome
    cases hsome
  · intro hfails
    cases ht : messageTimestamp2400 clock offset with
    | none => rfl
    | some t =>
      obtain ⟨⟨hrate, hstride⟩, ⟨hnonneg, hlt⟩, -⟩ := (messageTimestamp2400_eq_some h).1 ht
      rcases hfails with (hzero | hzero) | hneg | hover
      · exact absurd hzero hrate
      · exact absurd hzero hstride
      · exact absurd hnonneg (not_le.2 hneg)
      · exact absurd hlt (not_lt.2 hover)

/-- The time of a message is that of its coordinate. -/
theorem messageTime_eq {clock : CaptureClock} (h : InRange clock) {offset : ℤ}
    {t : CaptureTimestamp} (ht : messageTimestamp2400 clock offset = some t) :
    t.relativeTimeNs = toU64 (nanoseconds clock (fifthsAt clock offset).toNat) := by
  obtain ⟨⟨hrate, -⟩, ⟨hnonneg, hlt⟩, rfl⟩ := (messageTimestamp2400_eq_some h).1 ht
  rw [CaptureTimestamp.relativeTimeNs_eq (by dsimp only; omega) h.rate hrate (by dsimp only; omega)]
  unfold nanoseconds
  dsimp only
  have hwhole : (fifthsAt clock offset / 5).toNat * 5 + (fifthsAt clock offset % 5).toNat =
      (fifthsAt clock offset).toNat := by
    omega
  rw [hwhole]

/-! ## Section 3: One law for all of them -/

/-- Offsets and times of a clock are exact. -/
structure ExactClock (clock : CaptureClock) : Prop where
  /-- Offsets add up. -/
  offset_offset : ∀ a b, (offsetSamples clock a).bind (offsetSamples · b) =
    offsetSamples clock (a + b)
  /-- An offset fails only where the index would leave its 64 bits. -/
  offset_fails  : ∀ a, offsetSamples clock a = none ↔ 2 ^ 64 ≤ indexAt clock a
  offset_exact  : ∀ a next, offsetSamples clock a = some next →
    next = { clock with sourceSampleIndex := indexAt clock a }
  /-- A time is missing only without a rate or a stride, or beyond 64 bits. -/
  time          : ∀ a < 2 ^ 64, relativeTimeNs clock a =
    if clock.sourceSampleRateHz = 0 ∨ clock.sampleStride = 0 then none
    else toU64 (nanoseconds clock (indexAt clock a * 5))
  /-- The time of a sample does not depend on the block it is counted from. -/
  time_offset   : ∀ a b next, a + b < 2 ^ 64 → offsetSamples clock a = some next →
    relativeTimeNs next b = relativeTimeNs clock (a + b) ∧
      unixTimeNs next b = unixTimeNs clock (a + b)
  /-- A message `5 k` ticks into the block is stamped like sample `k`. -/
  message       : ∀ k : ℕ, k < 2 ^ 64 → clock.sourceSampleRateHz ≠ 0 → clock.sampleStride ≠ 0 →
    (messageTimestamp2400 clock (5 * k) = none ↔ offsetSamples clock k = none) ∧
    ∀ t next, messageTimestamp2400 clock (5 * k) = some t → offsetSamples clock k = some next →
      t.sourceSampleIndex = next.sourceSampleIndex ∧ t.sourceSamplePhaseFifths = 0 ∧
      t.relativeTimeNs = relativeTimeNs next 0 ∧ t.relativeTimeNs = relativeTimeNs clock k ∧
      t.unixTimeNs = unixTimeNs clock k
  /-- A stamp is missing only without a rate or a stride, or outside the 64 bits. -/
  message_fails : ∀ offset, messageTimestamp2400 clock offset = none ↔
    (clock.sourceSampleRateHz = 0 ∨ clock.sampleStride = 0) ∨
      fifthsAt clock offset < 0 ∨ 5 * 2 ^ 64 ≤ fifthsAt clock offset
  /-- Any message gets its exact coordinate and time, or none. -/
  message_exact : ∀ offset t, messageTimestamp2400 clock offset = some t →
    (t.sourceSampleIndex * 5 + t.sourceSamplePhaseFifths : ℤ) = fifthsAt clock offset ∧
    t.relativeTimeNs = toU64 (nanoseconds clock (fifthsAt clock offset).toNat)
  /-- Later samples and messages have later indices and times. -/
  monotone      : ∀ a b, a ≤ b → b < 2 ^ 64 →
    indexAt clock a ≤ indexAt clock b ∧
    ∀ s t, relativeTimeNs clock a = some s → relativeTimeNs clock b = some t → s ≤ t
  message_mono  : ∀ a b : ℤ, a ≤ b → ∀ s t, messageTimestamp2400 clock a = some s →
    messageTimestamp2400 clock b = some t → s.sourceSampleIndex ≤ t.sourceSampleIndex ∧
    ∀ x y, s.relativeTimeNs = some x → t.relativeTimeNs = some y → x ≤ y

theorem offsetSamples_eq_none {clock : CaptureClock} {a : ℕ} :
    offsetSamples clock a = none ↔ 2 ^ 64 ≤ indexAt clock a := by
  constructor
  · intro hnone
    by_contra hfits
    rw [offsetSamples_of_lt (not_le.1 hfits)] at hnone
    cases hnone
  · intro hover
    cases hsome : offsetSamples clock a with
    | none => rfl
    | some next => exact absurd (offsetSamples_eq_some.1 hsome).1 (not_lt.2 hover)

/-- The index at an offset from an offset. -/
theorem indexAt_offset {clock next : CaptureClock} {a : ℕ} (h : offsetSamples clock a = some next)
    (b : ℕ) : indexAt next b = indexAt clock (a + b) := by
  obtain ⟨-, rfl⟩ := offsetSamples_eq_some.1 h
  unfold indexAt
  rw [Nat.add_mul, Nat.add_assoc]

theorem offset_offset (clock : CaptureClock) (a b : ℕ) :
    (offsetSamples clock a).bind (offsetSamples · b) = offsetSamples clock (a + b) := by
  cases ha : offsetSamples clock a with
  | none =>
    have hover := offsetSamples_eq_none.1 ha
    have hmono : indexAt clock a ≤ indexAt clock (a + b) :=
      Nat.add_le_add_left (Nat.mul_le_mul_right _ (Nat.le_add_right a b)) _
    exact (offsetSamples_eq_none.2 (hover.trans hmono)).symm
  | some next =>
    rw [Option.bind_some]
    have hindex := indexAt_offset ha b
    by_cases hfits : indexAt clock (a + b) < 2 ^ 64
    · have hfits' : indexAt next b < 2 ^ 64 := by
        rw [hindex]
        exact hfits
      rw [offsetSamples_of_lt hfits, offsetSamples_of_lt hfits']
      show some { next with sourceSampleIndex := indexAt next b } =
        some { clock with sourceSampleIndex := indexAt clock (a + b) }
      rw [hindex, (offsetSamples_eq_some.1 ha).2]
    · have hover : 2 ^ 64 ≤ indexAt next b := by
        rw [hindex]
        exact not_lt.1 hfits
      rw [offsetSamples_eq_none.2 (not_lt.1 hfits), offsetSamples_eq_none.2 hover]

theorem InRange.offset {clock next : CaptureClock} (h : InRange clock) {a : ℕ}
    (hnext : offsetSamples clock a = some next) : InRange next := by
  obtain ⟨hindex, rfl⟩ := offsetSamples_eq_some.1 hnext
  exact ⟨hindex, h.rate, h.stride⟩

/-- The time in one formula. -/
theorem relativeTimeNs_cases {clock : CaptureClock} (h : InRange clock) {a : ℕ} (ha : a < 2 ^ 64) :
    relativeTimeNs clock a =
      if clock.sourceSampleRateHz = 0 ∨ clock.sampleStride = 0 then none
      else toU64 (nanoseconds clock (indexAt clock a * 5)) := by
  by_cases hclock : clock.sourceSampleRateHz = 0 ∨ clock.sampleStride = 0
  · rw [if_pos hclock, relativeTimeNs_unclocked hclock]
  · rw [if_neg hclock, relativeTimeNs_eq h ha (not_or.1 hclock).1 (not_or.1 hclock).2]

theorem nanoseconds_mono (clock : CaptureClock) {m n : ℕ} (h : m ≤ n) :
    nanoseconds clock m ≤ nanoseconds clock n :=
  Nat.div_le_div_right (Nat.mul_le_mul_right _ h)

theorem relativeTimeNs_offset {clock next : CaptureClock} (h : InRange clock) {a b : ℕ}
    (hab : a + b < 2 ^ 64) (hnext : offsetSamples clock a = some next) :
    relativeTimeNs next b = relativeTimeNs clock (a + b) := by
  rw [relativeTimeNs_cases h hab, relativeTimeNs_cases (h.offset hnext) (by omega),
    indexAt_offset hnext]
  obtain ⟨-, rfl⟩ := offsetSamples_eq_some.1 hnext
  rfl

/-- A whole number of samples, in fifths. -/
theorem fifthsAt_whole (clock : CaptureClock) (k : ℕ) :
    fifthsAt clock (5 * k) = (indexAt clock k * 5 : ℕ) := by
  unfold fifthsAt indexAt
  push_cast
  ring

/-- A message that is stamped like a sample. -/
theorem message_whole {clock : CaptureClock} (h : InRange clock) {k : ℕ} (hk : k < 2 ^ 64)
    {t : CaptureTimestamp} (ht : messageTimestamp2400 clock (5 * k) = some t) :
    t.sourceSampleIndex = indexAt clock k ∧ t.sourceSamplePhaseFifths = 0 ∧
      t.relativeTimeNs = relativeTimeNs clock k ∧ t.unixTimeNs = unixTimeNs clock k := by
  have htime := messageTime_eq h ht
  obtain ⟨⟨hrate, hstride⟩, -, rfl⟩ := (messageTimestamp2400_eq_some h).1 ht
  rw [fifthsAt_whole, Int.toNat_natCast, ← relativeTimeNs_eq h hk hrate hstride,
    ← fifthsAt_whole] at htime
  refine ⟨?_, ?_, htime, ?_⟩
  · show (fifthsAt clock (5 * k) / 5).toNat = _
    rw [fifthsAt_whole]
    omega
  · show (fifthsAt clock (5 * k) % 5).toNat = 0
    rw [fifthsAt_whole]
    omega
  · unfold CaptureTimestamp.unixTimeNs unixTimeNs
    rw [htime]

/-- **The law of capture clocks.** -/
theorem clock_law (clock : CaptureClock) (h : InRange clock) : ExactClock clock where
  offset_offset := offset_offset clock
  offset_fails := fun _ => offsetSamples_eq_none
  offset_exact := fun _ _ hnext => (offsetSamples_eq_some.1 hnext).2
  time := fun _ => relativeTimeNs_cases h
  time_offset := fun a b next hab hnext => by
    have htime := relativeTimeNs_offset h hab hnext
    refine ⟨htime, ?_⟩
    unfold unixTimeNs
    rw [htime]
    obtain ⟨-, rfl⟩ := offsetSamples_eq_some.1 hnext
    rfl
  message := fun k hk hrate hstride => by
    refine ⟨?_, fun t next ht hnext => ?_⟩
    · rw [messageTimestamp2400_eq_none h, offsetSamples_eq_none, fifthsAt_whole]
      omega
    · obtain ⟨hindex, hphase, htime, hunix⟩ := message_whole h hk ht
      refine ⟨?_, hphase, ?_, htime, hunix⟩
      · rw [hindex, (offsetSamples_eq_some.1 hnext).2]
        rfl
      · rw [htime, relativeTimeNs_offset h (by simpa using hk) hnext]
        rfl
  message_fails := fun _ => messageTimestamp2400_eq_none h
  message_exact := fun offset t ht => by
    have htime := messageTime_eq h ht
    obtain ⟨-, ⟨hnonneg, -⟩, rfl⟩ := (messageTimestamp2400_eq_some h).1 ht
    refine ⟨?_, htime⟩
    dsimp only
    omega
  monotone := fun a b hab hb => by
    have hindex : indexAt clock a ≤ indexAt clock b :=
      Nat.add_le_add_left (Nat.mul_le_mul_right _ hab) _
    refine ⟨hindex, fun s t hs ht => ?_⟩
    rw [relativeTimeNs_cases h (hab.trans_lt hb)] at hs
    rw [relativeTimeNs_cases h hb] at ht
    split at hs
    · cases hs
    · next hclock =>
      rw [if_neg hclock] at ht
      obtain ⟨-, rfl⟩ := toU64_eq_some.1 hs
      obtain ⟨-, rfl⟩ := toU64_eq_some.1 ht
      exact nanoseconds_mono clock (Nat.mul_le_mul_right 5 hindex)
  message_mono := fun a b hab s t hs ht => by
    have hfifths : fifthsAt clock a ≤ fifthsAt clock b :=
      add_le_add_right (mul_le_mul_of_nonneg_right hab (Int.natCast_nonneg _)) _
    have hsTime := messageTime_eq h hs
    have htTime := messageTime_eq h ht
    obtain ⟨-, ⟨hnonneg, -⟩, rfl⟩ := (messageTimestamp2400_eq_some h).1 hs
    obtain ⟨-, -, rfl⟩ := (messageTimestamp2400_eq_some h).1 ht
    refine ⟨?_, fun x y hx hy => ?_⟩
    · dsimp only
      omega
    · rw [hsTime] at hx
      rw [htTime] at hy
      obtain ⟨-, rfl⟩ := toU64_eq_some.1 hx
      obtain ⟨-, rfl⟩ := toU64_eq_some.1 hy
      exact nanoseconds_mono clock (Int.toNat_le_toNat hfifths)

/-- A receiver at 16.8 MHz, decimated by seven. -/
theorem clock_law_decimated :
    InRange ⟨11, 700, 16800003, 7, some 1000000, false⟩ ∧
    ExactClock ⟨11, 700, 16800003, 7, some 1000000, false⟩ ∧
    relativeTimeNs ⟨11, 700, 16800003, 7, some 1000000, false⟩ 100 = some 83333 := by
  have hrange : InRange ⟨11, 700, 16800003, 7, some 1000000, false⟩ :=
    ⟨by decide, by decide, by decide⟩
  exact ⟨hrange, clock_law _ hrange, by decide⟩

/-- Without a rate there is no time and no stamp, although nothing overflows;
    and an offset does not fail where only the time overflows. -/
theorem clock_without_rate :
    (let clock : CaptureClock := ⟨11, 700, 0, 1, none, false⟩
     offsetSamples clock 1 = some { clock with sourceSampleIndex := 701 } ∧
       messageTimestamp2400 clock 5 = none ∧ relativeTimeNs clock 1 = none) ∧
    (let clock : CaptureClock := ⟨11, 2 ^ 63, 1, 1, none, false⟩
     offsetSamples clock 0 = some clock ∧ relativeTimeNs clock 0 = none ∧
       2 ^ 64 ≤ nanoseconds clock (indexAt clock 0 * 5)) := by
  decide

end Capture
