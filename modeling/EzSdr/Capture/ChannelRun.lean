import EzSdr.Capture.Channel

/-! # What a Virtual Channel Puts Out

    A channel reads any sequence of wideband blocks. Its output is compared
    with the stream it was given: however the stream is cut into blocks, the
    output is that of the stream as one block; the output of a stream is a
    stream again, on the grid of the decimation; and after a break the channel
    behaves as a new one, under an epoch that was never used before. -/

namespace Capture

open Ingest (CaptureClock)

variable {α ν : Type*} (A : Dsp α ν)

/-! ## Section 1: Runs -/

/-- The samples of blocks, one block after the other. -/
def samplesOf (blocks : List (SampleBlock α)) : List α := blocks.flatMap (·.samples)

@[simp] theorem samplesOf_nil : samplesOf ([] : List (SampleBlock α)) = [] := rfl

@[simp] theorem samplesOf_cons (block : SampleBlock α) (blocks : List (SampleBlock α)) :
    samplesOf (block :: blocks) = block.samples ++ samplesOf blocks := rfl

/-- A stream as one block. -/
def Origin.block (o : Origin) (samples : List α) : SampleBlock α :=
  ⟨0, some o.clock, o.startSample, o.sampleRateHz, o.centerFreqHz, samples⟩

/-- The first samples of a block. -/
def SampleBlock.first (block : SampleBlock α) (n : ℕ) : SampleBlock α :=
  { block with samples := block.samples.take n }

/-- The samples of the block have 64-bit positions. -/
def SampleBlock.Fits (block : SampleBlock α) : Prop := block.origin.Fits block.samples.length

/-- The block continues the last of the blocks, without a break. -/
def Continues (blocks : List (SampleBlock α)) (block : SampleBlock α) : Prop :=
  ∃ last, blocks.getLast? = some last ∧ block.origin = last.origin.advance last.samples.length

namespace VirtualChannel

/-- A channel and the next epoch, over a sequence of blocks; with the blocks put out. -/
def run (s : VirtualChannel α ν × ℕ) :
    List (SampleBlock α) → (VirtualChannel α ν × ℕ) × List (SampleBlock α)
  | [] => (s, [])
  | block :: blocks =>
    let (ch, next, output) := s.1.process A block s.2
    let (s, outputs) := run (ch, next) blocks
    (s, output.toList ++ outputs)

/-- A new channel; its epoch comes from the counter. -/
def start (id widebandCenterHz widebandRateHz centerFreqHz decimation next : ℕ) :
    VirtualChannel α ν × ℕ :=
  (new A id widebandCenterHz widebandRateHz centerFreqHz decimation next, next + 1)

/-- The first output of a block belongs to the sample at this position: without
    that sample there is none, and with it there is the one. -/
def FirstAt (s : VirtualChannel α ν × ℕ) (block out : SampleBlock α) (k : ℕ) : Prop :=
  samplesOf (run A s [block.first k]).2 = [] ∧
    samplesOf (run A s [block.first (k + 1)]).2 = out.samples.take 1

theorem run_cons (s : VirtualChannel α ν × ℕ) (block : SampleBlock α)
    (blocks : List (SampleBlock α)) :
    run A s (block :: blocks) =
      let p := s.1.process A block s.2
      let r := run A (p.1, p.2.1) blocks
      (r.1, p.2.2.toList ++ r.2) := rfl

theorem run_append (s : VirtualChannel α ν × ℕ) (xs ys : List (SampleBlock α)) :
    run A s (xs ++ ys) =
      let first := run A s xs
      let rest := run A first.1 ys
      (rest.1, first.2 ++ rest.2) := by
  induction xs generalizing s with
  | nil => rfl
  | cons x xs ih =>
    rw [List.cons_append, run_cons, run_cons]
    dsimp only
    rw [ih, List.append_assoc]

/-! ## Section 2: The output of a stream -/

/-- The channel as it begins to convert what lies at an origin. -/
def entering (s : VirtualChannel α ν × ℕ) (o : Origin) : VirtualChannel α ν :=
  (s.1.entered A (o.block []) s.2).1

section Stream

variable {A} {decimation : ℕ}

/-- Where the output goes on after a block: whole steps of the output clock later. -/
theorem Converted.outputOrigin_eq {ch ch' : VirtualChannel α ν} {block : SampleBlock α}
    {output : Option (SampleBlock α)} (h : ch.Aligned A decimation block.startSample)
    (hc : Converted A ch block ch' output) :
    ch'.outputOrigin (block.origin.advance block.samples.length) =
      let o := (ch.outputOrigin block.origin).advance (ch.filter A block.samples).length
      { o with clock := { o.clock with discontinuous := ch'.pendingDiscontinuity } } := by
  have hskip := h.skip_filtered block.samples
  have hdec := h.decimation_eq
  have hdec' : ch'.decimator.decimation = decimation := by
    rw [hc.decimator]
    exact (h.filtered block.samples).decimation_eq
  have hpos := h.due.pos
  rw [hdec] at hpos
  rw [← hc.decimator] at hskip
  have hstart : block.startSample + block.samples.length + ch'.decimator.skip =
      block.startSample + ch.decimator.skip + (ch.filter A block.samples).length * decimation := by
    omega
  have hindex : block.samples.length * block.captureClock.sampleStride +
        ch'.decimator.skip * block.captureClock.sampleStride =
      ch.decimator.skip * block.captureClock.sampleStride +
        (ch.filter A block.samples).length *
          (block.captureClock.sampleStride * decimation) := by
    rw [← Nat.add_mul, Nat.add_comm block.samples.length, hskip]
    ring
  simp only [outputOrigin, Origin.advance, SampleBlock.origin, hc.center, hc.epoch, hdec, hdec',
    hstart, Nat.add_mul_div_right _ _ hpos]
  simp only [Nat.add_assoc, hindex]

/-- Cutting off the front of a stream moves the output by the blocks put out for it. -/
theorem Converted.stream {ch ch' : VirtualChannel α ν} {block : SampleBlock α}
    {output : Option (SampleBlock α)} (h : ch.Aligned A decimation block.startSample)
    (hc : Converted A ch block ch' output)
    (hstride : block.captureClock.sampleStride * decimation < 2 ^ 32)
    {rest : List α} {outputs : List (SampleBlock α)}
    (hrest : StreamFrom (ch'.outputOrigin (block.origin.advance block.samples.length)) outputs)
    (hsamples : samplesOf outputs = ch'.filter A rest) :
    StreamFrom (ch.outputOrigin block.origin) (output.toList ++ outputs) ∧
      samplesOf (output.toList ++ outputs) = ch.filter A (block.samples ++ rest) := by
  have hfilter : ch'.filter A rest = (ch.filtered A block.samples).filter A rest := by
    unfold filter
    rw [hc.nco, hc.decimator]
  rw [filter_append A h.due, ← hfilter, ← hsamples]
  rw [hc.outputOrigin_eq h] at hrest
  obtain ⟨rfl, hpending, hnone⟩ | ⟨out, rfl, horigin, hout, -, hpending, -⟩ := hc.output
  · -- nothing was due in the block, so the next output begins where it did
    rw [h.decimation_eq] at hnone
    have hempty : ch.filter A block.samples = [] := hnone.resolve_right (by omega)
    rw [hempty, hpending] at hrest
    rw [hempty]
    exact ⟨by simpa [Origin.advance, outputOrigin] using hrest, rfl⟩
  · rw [hpending] at hrest
    refine ⟨⟨horigin, ?_⟩, ?_⟩
    · rw [hout]
      exact hrest
    · rw [← hout]
      rfl

/-- **The output of a stream is a stream**, for a channel that expects its origin. -/
theorem run_stream_from {s : VirtualChannel α ν × ℕ} {o : Origin}
    (h : s.1.Ready A decimation) (hlast : s.1.lastInput.map InputEnd.origin = some o)
    (hdec : decimation < 2 ^ 32) (hvalid : o.Valid)
    (hstride : o.clock.sampleStride * decimation < 2 ^ 32) {blocks : List (SampleBlock α)}
    (hstream : StreamFrom o blocks) (hfits : o.Fits (samplesOf blocks).length) :
    StreamFrom (s.1.outputOrigin o) (run A s blocks).2 ∧
      samplesOf (run A s blocks).2 = s.1.filter A (samplesOf blocks) := by
  induction blocks generalizing s o with
  | nil => exact ⟨trivial, (filter_nil A s.1).symm⟩
  | cons block blocks ih =>
    obtain ⟨rfl, hrest⟩ := hstream
    rw [samplesOf_cons, List.length_append] at hfits
    have hentered : s.1.entered A block s.2 = (s.1, s.2) := if_pos hlast
    have haligned := h.entered block s.2
    rw [hentered] at haligned
    have hc := convert_spec A haligned hdec (hfits.mono (Nat.le_add_right _ _))
    obtain ⟨hout, hsamples⟩ := ih (s := ((s.1.convert A block).1, s.2)) (hc.ready haligned)
      hc.last hvalid hstride hrest hfits.advance
    rw [run_cons, process_valid A s.1 hvalid, hentered]
    exact hc.stream haligned hstride hout hsamples

/-- Nothing comes out where the stride of the output would not fit 32 bits. -/
theorem run_stream_wide {s : VirtualChannel α ν × ℕ} {o : Origin}
    (h : s.1.Ready A decimation) (hdec : decimation < 2 ^ 32) (hvalid : o.Valid)
    (hstride : 2 ^ 32 ≤ o.clock.sampleStride * decimation) {blocks : List (SampleBlock α)}
    (hstream : StreamFrom o blocks) (hfits : o.Fits (samplesOf blocks).length) :
    (run A s blocks).2 = [] := by
  induction blocks generalizing s o with
  | nil => rfl
  | cons block blocks ih =>
    obtain ⟨rfl, hrest⟩ := hstream
    rw [samplesOf_cons, List.length_append] at hfits
    have haligned := h.entered block s.2
    have hc := convert_spec A haligned hdec (hfits.mono (Nat.le_add_right _ _))
    rw [run_cons, process_valid A s.1 hvalid]
    dsimp only
    obtain ⟨hnone, -⟩ | ⟨out, -, -, -, -, -, hlt⟩ := hc.output
    · have hrest' := ih
        (s := (((s.1.entered A block s.2).1.convert A block).1, (s.1.entered A block s.2).2))
        (o := block.origin.advance block.samples.length) (hc.ready haligned) hvalid hstride hrest
        hfits.advance
      rw [hnone, hrest']
      rfl
    · rw [haligned.decimation_eq] at hlt
      exact absurd hlt (not_lt.2 hstride)

theorem run_stream_invalid {s : VirtualChannel α ν × ℕ} {o : Origin} (hvalid : ¬o.Valid)
    {blocks : List (SampleBlock α)} (hstream : StreamFrom o blocks) :
    (run A s blocks).2 = [] := by
  induction blocks generalizing s o with
  | nil => rfl
  | cons block blocks ih =>
    obtain ⟨rfl, hrest⟩ := hstream
    rw [run_cons, process_invalid A s.1 hvalid]
    exact ih (o := block.origin.advance block.samples.length) hvalid hrest

/-- The channel that converts a block depends on where the block begins only. -/
theorem entered_congr (ch : VirtualChannel α ν) {block block' : SampleBlock α}
    (h : block.origin = block'.origin) (next : ℕ) :
    ch.entered A block next = ch.entered A block' next := by
  have hstart : block.startSample = block'.startSample := congrArg Origin.startSample h
  have hcenter : block.centerFreqHz = block'.centerFreqHz := congrArg Origin.centerFreqHz h
  have hclock : block.captureClock = block'.captureClock := congrArg Origin.clock h
  simp only [entered, restart, h, hstart, hcenter, hclock]

/-- **The output of a stream**, from any state of the channel. -/
theorem run_stream {s : VirtualChannel α ν × ℕ} {o : Origin} (h : s.1.Ready A decimation)
    (hdec : decimation < 2 ^ 32) (hvalid : o.Valid)
    (hstride : o.clock.sampleStride * decimation < 2 ^ 32) {blocks : List (SampleBlock α)}
    (hstream : StreamFrom o blocks) (hfits : o.Fits (samplesOf blocks).length) :
    StreamFrom ((entering A s o).outputOrigin o) (run A s blocks).2 ∧
      samplesOf (run A s blocks).2 = (entering A s o).filter A (samplesOf blocks) := by
  cases blocks with
  | nil => exact ⟨trivial, (filter_nil A _).symm⟩
  | cons block blocks =>
    obtain ⟨rfl, hrest⟩ := hstream
    rw [samplesOf_cons, List.length_append] at hfits
    have haligned := h.entered block s.2
    have hc := convert_spec A haligned hdec (hfits.mono (Nat.le_add_right _ _))
    obtain ⟨hout, hsamples⟩ := run_stream_from
      (s := (((s.1.entered A block s.2).1.convert A block).1, (s.1.entered A block s.2).2))
      (hc.ready haligned) hc.last hdec hvalid hstride hrest hfits.advance
    have hentering : entering A s block.origin = (s.1.entered A block s.2).1 :=
      congrArg Prod.fst (entered_congr s.1 rfl s.2)
    rw [run_cons, process_valid A s.1 hvalid, hentering]
    exact hc.stream haligned hstride hout hsamples

/-- **However the stream is cut**, the output is that of the stream as one block. -/
theorem run_stream_one {s : VirtualChannel α ν × ℕ} {o : Origin} (h : s.1.Ready A decimation)
    (hdec : decimation < 2 ^ 32) {blocks : List (SampleBlock α)} (hstream : StreamFrom o blocks)
    (hfits : o.Fits (samplesOf blocks).length) :
    samplesOf (run A s blocks).2 = samplesOf (run A s [o.block (samplesOf blocks)]).2 := by
  have hone : StreamFrom o [o.block (samplesOf blocks)] := ⟨rfl, trivial⟩
  have hall : samplesOf [o.block (samplesOf blocks)] = samplesOf blocks := List.append_nil _
  have hfits' : o.Fits (samplesOf [o.block (samplesOf blocks)]).length := hall.symm ▸ hfits
  by_cases hvalid : o.Valid
  · by_cases hstride : o.clock.sampleStride * decimation < 2 ^ 32
    · rw [(run_stream h hdec hvalid hstride hstream hfits).2,
        (run_stream h hdec hvalid hstride hone hfits').2, hall]
    · rw [run_stream_wide h hdec hvalid (not_lt.1 hstride) hstream hfits,
        run_stream_wide h hdec hvalid (not_lt.1 hstride) hone hfits']
  · rw [run_stream_invalid hvalid hstream, run_stream_invalid hvalid hone]

/-- The outputs of one block, if there are any, are those of its filters. -/
theorem run_single {s : VirtualChannel α ν × ℕ} (h : s.1.Ready A decimation)
    (hdec : decimation < 2 ^ 32) {block : SampleBlock α} (hvalid : block.origin.Valid)
    (hstride : block.captureClock.sampleStride * decimation < 2 ^ 32) {n : ℕ}
    (hfits : block.Fits) :
    samplesOf (run A s [block.first n]).2 =
      (entering A s block.origin).filter A (block.samples.take n) := by
  have hstream : StreamFrom block.origin [block.first n] := ⟨rfl, trivial⟩
  have hall : samplesOf [block.first n] = block.samples.take n := List.append_nil _
  have hle : (samplesOf [block.first n]).length ≤ block.samples.length := by
    rw [hall, List.length_take]
    exact Nat.min_le_right _ _
  rw [(run_stream h hdec hvalid hstride hstream (hfits.mono hle)).2, hall]

/-- **The clock of an output block** is that of the sample its first output belongs to. -/
theorem process_clock {s : VirtualChannel α ν × ℕ} (h : s.1.Ready A decimation)
    (hdec : decimation < 2 ^ 32) {block out : SampleBlock α} (hfits : block.Fits)
    (hout : (s.1.process A block s.2).2.2 = some out) :
    ∃ k < block.samples.length, FirstAt A s block out k ∧
      out.captureClock.sourceSampleIndex =
        block.captureClock.sourceSampleIndex + k * block.captureClock.sampleStride ∧
      out.startSample * decimation = block.startSample + k ∧
      out.captureClock.sampleStride = block.captureClock.sampleStride * decimation := by
  have hvalid : block.origin.Valid := by
    by_contra hvalid
    rw [process_invalid A s.1 hvalid] at hout
    cases hout
  have haligned := h.entered block s.2
  have hc := convert_spec A haligned hdec hfits
  rw [process_valid A s.1 hvalid] at hout
  dsimp only at hout
  rw [hout] at hc
  obtain ⟨hnone, -⟩ | ⟨out', heq, horigin, hsamples, hne, -, hstride⟩ := hc.output
  · cases hnone
  · obtain rfl := Option.some.inj heq
    have hentering : entering A s block.origin = (s.1.entered A block s.2).1 :=
      congrArg Prod.fst (entered_congr s.1 rfl s.2)
    rw [hsamples] at hne
    have hskip := haligned.skip_lt hne
    have hdec' := haligned.decimation_eq
    rw [hdec'] at hstride
    -- `k` is what the decimator skips: nothing comes out before it, one sample with it
    refine ⟨(s.1.entered A block s.2).1.decimator.skip, hskip, ⟨?_, ?_⟩, ?_, ?_, ?_⟩
    · rw [run_single h hdec hvalid hstride hfits, hentering]
      exact haligned.filter_before (List.length_take_le _ _)
    · rw [run_single h hdec hvalid hstride hfits, hentering, hsamples]
      have hone : ((s.1.entered A block s.2).1.filter A (block.samples.take
          ((s.1.entered A block s.2).1.decimator.skip + 1))).length = 1 :=
        haligned.filter_at (by rw [List.length_take]; omega)
      have hall := filter_append A haligned.due
        (block.samples.take ((s.1.entered A block s.2).1.decimator.skip + 1))
        (block.samples.drop ((s.1.entered A block s.2).1.decimator.skip + 1))
      rw [List.take_append_drop] at hall
      rw [hall, List.take_left' hone]
    · exact congrArg (·.clock.sourceSampleIndex) horigin
    · have hgrid := haligned.grid
      have hstart : out.startSample =
          (block.startSample + (s.1.entered A block s.2).1.decimator.skip) / decimation := by
        rw [← hdec']
        exact congrArg Origin.startSample horigin
      rw [hstart, Nat.div_mul_cancel (Nat.dvd_of_mod_eq_zero hgrid)]
    · rw [← hdec']
      exact congrArg (·.clock.sampleStride) horigin

end Stream

/-! ## Section 3: Breaks -/

/-- A block without the number of its epoch. -/
def eraseEpoch (block : SampleBlock α) : SampleBlock α :=
  { block with capture := block.capture.map fun clock => { clock with epoch := 0 } }

/-- Two channels that put out the same for any input, up to the epochs. Without a
    last input the next block resets the filters, so they are not compared then. -/
structure Alike (ch ch' : VirtualChannel α ν) : Prop where
  center  : ch'.centerFreqHz = ch.centerFreqHz
  last    : ch'.lastInput = ch.lastInput
  pending : ch'.pendingDiscontinuity = ch.pendingDiscontinuity
  shape   : FirDecimator.SameShape ch.decimator ch'.decimator
  filters : ch.lastInput ≠ none → ch'.nco = ch.nco ∧ ch'.decimator = ch.decimator

section Breaks

variable {A}

/-- `convert` reads the filters and whether a break is pending; the last input is
    written before it is read. -/
theorem convert_alike {ch ch' : VirtualChannel α ν} (block : SampleBlock α)
    (hcenter : ch'.centerFreqHz = ch.centerFreqHz)
    (hpending : ch'.pendingDiscontinuity = ch.pendingDiscontinuity) (hnco : ch'.nco = ch.nco)
    (hdecimator : ch'.decimator = ch.decimator)
    (hlast : ch'.lastInput = ch.lastInput ∨
      offsetSamples block.captureClock block.samples.length ≠ none) :
    Alike (ch.convert A block).1 (ch'.convert A block).1 ∧
      (ch'.convert A block).2.map eraseEpoch = (ch.convert A block).2.map eraseEpoch := by
  obtain ⟨id, center, rate, nco, decimator, last, epoch, pending⟩ := ch
  obtain ⟨id', center', rate', nco', decimator', last', epoch', pending'⟩ := ch'
  dsimp only at hcenter hpending hnco hdecimator hlast
  subst hcenter hpending hnco hdecimator
  simp only [convert]
  cases hoffset : offsetSamples block.captureClock block.samples.length with
  | none =>
    rw [hoffset] at hlast
    obtain rfl := hlast.resolve_right fun hne => hne rfl
    exact ⟨⟨rfl, rfl, rfl, .refl _, fun _ => ⟨rfl, rfl⟩⟩, rfl⟩
  | some clock =>
    dsimp only
    split
    · exact ⟨⟨rfl, rfl, rfl, .refl _, fun _ => ⟨rfl, rfl⟩⟩, rfl⟩
    · simp only [outputClock]
      cases offsetSamples block.captureClock decimator'.skip with
      | none => exact ⟨⟨rfl, rfl, rfl, .refl _, fun _ => ⟨rfl, rfl⟩⟩, rfl⟩
      | some clock' =>
        simp only [Option.bind_eq_bind, Option.bind_some]
        by_cases hstride : clock'.sampleStride *
            ((decimator'.process A (mix A nco' block.samples).1).1.decimation % 2 ^ 32) < 2 ^ 32
        · simp only [if_pos hstride]
          exact ⟨⟨rfl, rfl, rfl, .refl _, fun _ => ⟨rfl, rfl⟩⟩, rfl⟩
        · simp only [if_neg hstride]
          exact ⟨⟨rfl, rfl, rfl, .refl _, fun _ => ⟨rfl, rfl⟩⟩, trivial⟩

/-- Channels that are alike stay so. -/
theorem Alike.process {ch ch' : VirtualChannel α ν} (h : Alike ch ch') (block : SampleBlock α)
    (next next' : ℕ) :
    Alike (ch.process A block next).1 (ch'.process A block next').1 ∧
      (ch'.process A block next').2.2.map eraseEpoch =
        (ch.process A block next).2.2.map eraseEpoch := by
  by_cases hvalid : block.origin.Valid
  · rw [process_valid A ch hvalid, process_valid A ch' hvalid]
    dsimp only
    unfold entered
    rw [h.last]
    split
    · next hcont =>
      obtain ⟨hnco, hdecimator⟩ := h.filters fun hnone => by simp [hnone] at hcont
      exact convert_alike block h.center h.pending hnco hdecimator (.inl h.last)
    · have hnco : (ch'.restart A block next').nco = (ch.restart A block next).nco := by
        simp only [restart, h.center]
      have hdecimator : (ch'.restart A block next').decimator =
          (ch.restart A block next).decimator := by
        simp only [restart, h.shape.decimation, h.shape.reset_eq A]
      exact convert_alike block h.center rfl hnco hdecimator (.inl h.last)
  · rw [process_invalid A ch hvalid, process_invalid A ch' hvalid]
    exact ⟨⟨h.center, rfl, rfl, h.shape, fun hne => absurd rfl hne⟩, rfl⟩

theorem Alike.run {s s' : VirtualChannel α ν × ℕ} (h : Alike s.1 s'.1)
    (blocks : List (SampleBlock α)) :
    (run A s' blocks).2.map eraseEpoch = (run A s blocks).2.map eraseEpoch := by
  induction blocks generalizing s s' with
  | nil => rfl
  | cons block blocks ih =>
    obtain ⟨halike, hout⟩ := h.process (A := A) block s.2 s'.2
    rw [run_cons, run_cons]
    generalize s.1.process A block s.2 = p at halike hout ⊢
    generalize s'.1.process A block s'.2 = p' at halike hout ⊢
    have hrest : (VirtualChannel.run A (p'.1, p'.2.1) blocks).2.map eraseEpoch =
      (VirtualChannel.run A (p.1, p.2.1) blocks).2.map eraseEpoch := ih halike
    dsimp only
    rw [List.map_append, List.map_append, ← Option.toList_map, ← Option.toList_map, hout, hrest]

/-- Two channels whose first blocks make them alike. -/
theorem run_map_eraseEpoch {s s' : VirtualChannel α ν × ℕ} {block : SampleBlock α}
    (h : Alike (s.1.process A block s.2).1 (s'.1.process A block s'.2).1)
    (hout : (s'.1.process A block s'.2).2.2.map eraseEpoch =
      (s.1.process A block s.2).2.2.map eraseEpoch) (rest : List (SampleBlock α)) :
    (VirtualChannel.run A s (block :: rest)).2.map eraseEpoch =
      (VirtualChannel.run A s' (block :: rest)).2.map eraseEpoch := by
  rw [run_cons, run_cons]
  generalize s.1.process A block s.2 = p at h hout ⊢
  generalize s'.1.process A block s'.2 = p' at h hout ⊢
  have hrest : (VirtualChannel.run A (p'.1, p'.2.1) rest).2.map eraseEpoch =
    (VirtualChannel.run A (p.1, p.2.1) rest).2.map eraseEpoch := h.run rest
  dsimp only
  rw [List.map_append, List.map_append, ← Option.toList_map, ← Option.toList_map, hout, hrest]

variable {decimation : ℕ}

/-- A block that breaks the input leaves a channel like a new one that read it. -/
theorem process_break {ch ch' : VirtualChannel α ν} {block : SampleBlock α} (hfits : block.Fits)
    (hcenter : ch'.centerFreqHz = ch.centerFreqHz)
    (hshape : FirDecimator.SameShape ch.decimator ch'.decimator)
    (hbreak : block.origin.Valid → ch.lastInput.map InputEnd.origin ≠ some block.origin)
    (hnew : ch'.lastInput = none) (next next' : ℕ) :
    Alike (ch.process A block next).1 (ch'.process A block next').1 ∧
      (ch'.process A block next').2.2.map eraseEpoch =
        (ch.process A block next).2.2.map eraseEpoch := by
  by_cases hvalid : block.origin.Valid
  · have hentered : ch.entered A block next = (ch.restart A block next, next + 1) :=
      if_neg (hbreak hvalid)
    have hentered' : ch'.entered A block next' = (ch'.restart A block next', next' + 1) :=
      if_neg (by simp [hnew])
    rw [process_valid A ch hvalid, process_valid A ch' hvalid, hentered, hentered']
    have hnco : (ch'.restart A block next').nco = (ch.restart A block next).nco := by
      simp only [restart, hcenter]
    have hdecimator : (ch'.restart A block next').decimator =
        (ch.restart A block next).decimator := by
      simp only [restart, hshape.decimation, hshape.reset_eq A]
    refine convert_alike block hcenter rfl hnco hdecimator (.inr ?_)
    have hend : block.captureClock.sourceSampleIndex +
        block.samples.length * block.captureClock.sampleStride < 2 ^ 64 := hfits.2
    simp [offsetSamples_of_lt hend]
  · rw [process_invalid A ch hvalid, process_invalid A ch' hvalid]
    exact ⟨⟨hcenter, rfl, rfl, hshape, fun hne => absurd rfl hne⟩, rfl⟩

/-- The next block put out will be flagged, under an epoch from this one on. -/
structure Armed (bound : ℕ) (s : VirtualChannel α ν × ℕ) : Prop where
  pending : s.1.pendingDiscontinuity = true
  last    : s.1.lastInput = none ∨ bound ≤ s.1.outputEpoch
  next    : bound ≤ s.2

/-- A flagged block, under an epoch from this one on. -/
def Flagged (bound : ℕ) (out : SampleBlock α) : Prop :=
  out.captureClock.discontinuous = true ∧ bound ≤ out.captureClock.epoch

/-- A block read by a channel with a break to report: it reports it with this
    block, or keeps it. -/
theorem process_flagged {bound : ℕ} {s : VirtualChannel α ν × ℕ} (h : s.1.Ready A decimation)
    (hdec : decimation < 2 ^ 32) {block : SampleBlock α} (hfits : block.Fits)
    (hnext : bound ≤ s.2)
    (hbase : block.origin.Valid → (s.1.entered A block s.2).1.pendingDiscontinuity = true ∧
      bound ≤ (s.1.entered A block s.2).1.outputEpoch) :
    (∀ out, (s.1.process A block s.2).2.2 = some out → Flagged bound out) ∧
      ((s.1.process A block s.2).2.2 = none →
        Armed bound ((s.1.process A block s.2).1, (s.1.process A block s.2).2.1)) := by
  by_cases hvalid : block.origin.Valid
  · obtain ⟨hpending, hepoch⟩ := hbase hvalid
    have hc := convert_spec A (h.entered block s.2) hdec hfits
    have hle : s.2 ≤ (s.1.entered A block s.2).2 := by
      unfold entered
      split <;> simp
    rw [process_valid A s.1 hvalid]
    dsimp only
    obtain ⟨hnone, hkeep, -⟩ | ⟨out, hsome, horigin, -⟩ := hc.output
    · rw [hnone]
      refine ⟨fun out hout => (by cases hout), fun _ => ⟨hkeep.trans hpending, .inr ?_, ?_⟩⟩
      · exact hc.epoch.symm ▸ hepoch
      · exact hnext.trans hle
    · rw [hsome]
      refine ⟨fun out' hout => ?_, fun hnone => by cases hnone⟩
      obtain rfl := Option.some.inj hout
      have hclock : out.captureClock = _ := congrArg Origin.clock horigin
      unfold Flagged
      rw [hclock]
      exact ⟨hpending, hepoch⟩
  · rw [process_invalid A s.1 hvalid]
    exact ⟨fun out hout => (by cases hout), fun _ => ⟨rfl, .inl rfl, hnext⟩⟩

/-- The entry of a channel with a break to report. -/
theorem Armed.entered {bound : ℕ} {s : VirtualChannel α ν × ℕ} (h : Armed bound s)
    (block : SampleBlock α) :
    (s.1.entered A block s.2).1.pendingDiscontinuity = true ∧
      bound ≤ (s.1.entered A block s.2).1.outputEpoch := by
  unfold VirtualChannel.entered
  split
  · next hcont =>
    have hepoch := h.last.resolve_left fun hnone => by simp [hnone] at hcont
    exact ⟨h.pending, hepoch⟩
  · exact ⟨rfl, h.next⟩

theorem run_armed {bound : ℕ} {s : VirtualChannel α ν × ℕ} (h : s.1.Ready A decimation)
    (hdec : decimation < 2 ^ 32) (harmed : Armed bound s) {blocks : List (SampleBlock α)}
    (hfits : ∀ block ∈ blocks, block.Fits) :
    ∀ out, (run A s blocks).2.head? = some out → Flagged bound out := by
  induction blocks generalizing s with
  | nil => exact fun out hout => by cases hout
  | cons block blocks ih =>
    have hblock := hfits block List.mem_cons_self
    obtain ⟨hsome, hnone⟩ := process_flagged h hdec hblock harmed.next
      fun _ => harmed.entered block
    have hready := process_ready h hdec hblock s.2
    rw [run_cons]
    generalize s.1.process A block s.2 = p at hsome hnone hready ⊢
    cases hp : p.2.2 with
    | some out' =>
      intro out hout
      obtain rfl : out' = out := by simpa [hp] using hout
      exact hsome out' hp
    | none =>
      have hrest := ih (s := (p.1, p.2.1)) hready (hnone hp)
        fun b hb => hfits b (List.mem_cons_of_mem _ hb)
      simpa [hp] using hrest

end Breaks

/-! ## Section 4: Any run -/

/-- What holds after a run over these blocks that put these out. -/
structure Reached (decimation centerFreqHz : ℕ) (blocks past : List (SampleBlock α))
    (s : VirtualChannel α ν × ℕ) : Prop where
  ready  : s.1.Ready A decimation
  center : s.1.centerFreqHz = centerFreqHz
  last   : ∀ block : SampleBlock α, s.1.lastInput.map InputEnd.origin = some block.origin →
    Continues blocks block
  epoch  : s.1.outputEpoch < s.2
  past   : ∀ out ∈ past, out.captureClock.epoch < s.2

section Run

variable {A} {decimation centerFreqHz : ℕ}

/-- **One block further.** -/
theorem Reached.process {blocks past : List (SampleBlock α)} {s : VirtualChannel α ν × ℕ}
    (h : Reached A decimation centerFreqHz blocks past s) (hdec : decimation < 2 ^ 32)
    {block : SampleBlock α} (hfits : block.Fits) :
    Reached A decimation centerFreqHz (blocks ++ [block])
      (past ++ (s.1.process A block s.2).2.2.toList)
      ((s.1.process A block s.2).1, (s.1.process A block s.2).2.1) := by
  have hready := process_ready h.ready hdec hfits s.2
  by_cases hvalid : block.origin.Valid
  · have hc := convert_spec A (h.ready.entered block s.2) hdec hfits
    have hcenter : (s.1.entered A block s.2).1.centerFreqHz = centerFreqHz := by
      unfold entered
      split <;> exact h.center
    have hle : s.2 ≤ (s.1.entered A block s.2).2 := by
      unfold entered
      split <;> simp
    have hepoch : (s.1.entered A block s.2).1.outputEpoch < (s.1.entered A block s.2).2 := by
      unfold entered
      split
      · exact h.epoch
      · exact Nat.lt_succ_self _
    rw [process_valid A s.1 hvalid] at hready ⊢
    refine ⟨hready, hc.center.trans hcenter, fun block' horigin => ?_, ?_, fun out hout => ?_⟩
    · exact ⟨block, by simp, (Option.some.inj (hc.last.symm.trans horigin)).symm⟩
    · exact hc.epoch.symm ▸ hepoch
    · rcases List.mem_append.1 hout with hold | hnew
      · exact (h.past out hold).trans_le hle
      · -- a new block carries the epoch of the channel that put it out
        obtain ⟨hnone, -⟩ | ⟨out', hsome, horigin, -⟩ := hc.output
        · simp [hnone] at hnew
        · obtain rfl : out = out' := by simpa [hsome] using hnew
          have hclock : out.captureClock.epoch = (s.1.entered A block s.2).1.outputEpoch :=
            congrArg (·.clock.epoch) horigin
          rw [hclock]
          exact hepoch
  · rw [process_invalid A s.1 hvalid] at hready ⊢
    refine ⟨hready, h.center, fun block' horigin => (by cases horigin), h.epoch, fun out hout => ?_⟩
    exact h.past out (by simpa using hout)

theorem run_reached (hpos : 0 < decimation) (hdec : decimation < 2 ^ 32)
    (id widebandCenterHz widebandRateHz next : ℕ) {blocks : List (SampleBlock α)}
    (hfits : ∀ block ∈ blocks, block.Fits) :
    let r := run A (start A id widebandCenterHz widebandRateHz centerFreqHz decimation next) blocks
    Reached A decimation centerFreqHz blocks r.2 r.1 := by
  induction blocks using List.reverseRecOn with
  | nil =>
    exact ⟨new_ready _ _ _ _ _ hpos, rfl, fun block horigin => (by cases horigin),
      Nat.lt_succ_self _, fun out hout => (by cases hout)⟩
  | append_singleton blocks block ih =>
    have hreached := ih fun b hb => hfits b (List.mem_append_left _ hb)
    have hstep := hreached.process hdec (hfits block (by simp))
    rw [run_append]
    simpa [run] using hstep

end Run

/-! ## Section 5: The law of the output -/

/-- What a channel makes of whatever comes next, after it read these blocks and
    put out those of the past. -/
structure ChunkLaw (decimation centerFreqHz : ℕ) (blocks past : List (SampleBlock α))
    (s : VirtualChannel α ν × ℕ) : Prop where
  /-- How a stream is cut into blocks does not show in the output. -/
  chunks  : ∀ (o : Origin) (stretch stretch' : List (SampleBlock α)), StreamFrom o stretch →
    StreamFrom o stretch' → samplesOf stretch = samplesOf stretch' →
    o.Fits (samplesOf stretch).length →
    samplesOf (run A s stretch).2 = samplesOf (run A s stretch').2
  /-- A stream gives what the filters make of its samples, one sample for each point of the grid,
      if the stride of the output fits 32 bits. -/
  output  : ∀ (o : Origin) (stretch : List (SampleBlock α)), StreamFrom o stretch →
    o.Fits (samplesOf stretch).length → o.Valid → o.clock.sampleStride * decimation < 2 ^ 32 →
    samplesOf (run A s stretch).2 = (entering A s o).filter A (samplesOf stretch) ∧
      (samplesOf (run A s stretch).2).length =
        FirDecimator.gridCount o.startSample decimation (samplesOf stretch).length
  /-- The output of a stream is a stream, with a longer stride. -/
  stream  : ∀ (o : Origin) (stretch : List (SampleBlock α)), StreamFrom o stretch →
    o.Fits (samplesOf stretch).length →
    ∃ o' : Origin, o'.clock.sampleStride = o.clock.sampleStride * decimation ∧
      StreamFrom o' (run A s stretch).2
  /-- An output block has the source index of the sample its first output belongs to. -/
  clock   : ∀ block out : SampleBlock α, block.Fits →
    (s.1.process A block s.2).2.2 = some out →
    ∃ k < block.samples.length, FirstAt A s block out k ∧
      out.captureClock.sourceSampleIndex =
        block.captureClock.sourceSampleIndex + k * block.captureClock.sampleStride ∧
      out.captureClock.sampleStride = block.captureClock.sampleStride * decimation
  /-- After a break the channel puts out what a new one would. -/
  reset   : ∀ (block : SampleBlock α) (rest : List (SampleBlock α)) (id center rate next : ℕ),
    ¬Continues blocks block → block.Fits →
    (run A s (block :: rest)).2.map eraseEpoch =
      (run A (start A id center rate centerFreqHz decimation next) (block :: rest)).2.map
        eraseEpoch
  /-- The first block put out from a break on is flagged, under an epoch of its own. -/
  flagged : ∀ (block : SampleBlock α) (rest : List (SampleBlock α)), ¬Continues blocks block →
    (∀ b ∈ block :: rest, b.Fits) → ∀ out, (run A s (block :: rest)).2.head? = some out →
    out.captureClock.discontinuous = true ∧
      ∀ old ∈ past, old.captureClock.epoch ≠ out.captureClock.epoch

variable {A}

/-- The output of a stream begins on the grid of the decimation, if there is any. -/
theorem run_stream_origin {decimation : ℕ} {s : VirtualChannel α ν × ℕ}
    (h : s.1.Ready A decimation) (hdec : decimation < 2 ^ 32) {o : Origin}
    {stretch : List (SampleBlock α)} (hstream : StreamFrom o stretch)
    (hfits : o.Fits (samplesOf stretch).length) :
    ∃ o' : Origin, o'.clock.sampleStride = o.clock.sampleStride * decimation ∧
      StreamFrom o' (run A s stretch).2 := by
  have hdecimation : (entering A s o).decimator.decimation = decimation :=
    (h.entered (o.block []) s.2).decimation_eq
  refine ⟨(entering A s o).outputOrigin o, ?_, ?_⟩
  · rw [← hdecimation]
    rfl
  by_cases hvalid : o.Valid
  · by_cases hstride : o.clock.sampleStride * decimation < 2 ^ 32
    · exact (run_stream h hdec hvalid hstride hstream hfits).1
    · rw [run_stream_wide h hdec hvalid (not_lt.1 hstride) hstream hfits]
      trivial
  · rw [run_stream_invalid hvalid hstream]
    trivial

/-- The first block put out from a break on. -/
theorem run_break_flagged {decimation centerFreqHz : ℕ} {blocks past : List (SampleBlock α)}
    {s : VirtualChannel α ν × ℕ} (h : Reached A decimation centerFreqHz blocks past s)
    (hdec : decimation < 2 ^ 32) {block : SampleBlock α} {rest : List (SampleBlock α)}
    (hbreak : ¬Continues blocks block) (hfits : ∀ b ∈ block :: rest, b.Fits) :
    ∀ out, (run A s (block :: rest)).2.head? = some out → Flagged s.2 out := by
  have hblock := hfits block List.mem_cons_self
  have hentered : s.1.entered A block s.2 = (s.1.restart A block s.2, s.2 + 1) :=
    if_neg fun hcont => hbreak (h.last block hcont)
  obtain ⟨hsome, hnone⟩ := process_flagged h.ready hdec hblock le_rfl
    fun _ => hentered ▸ ⟨rfl, le_rfl⟩
  have hready := process_ready h.ready hdec hblock s.2
  rw [run_cons]
  generalize s.1.process A block s.2 = p at hsome hnone hready ⊢
  cases hp : p.2.2 with
  | some out' =>
    intro out hout
    obtain rfl : out' = out := by simpa [hp] using hout
    exact hsome out' hp
  | none =>
    have hrest := run_armed (s := (p.1, p.2.1)) hready hdec (hnone hp)
      fun b hb => hfits b (List.mem_cons_of_mem _ hb)
    simpa [hp] using hrest

/-- **What a virtual channel puts out.** After any blocks, for any that follow. -/
theorem run_chunkLaw {decimation : ℕ} (hpos : 0 < decimation) (hdec : decimation < 2 ^ 32)
    (id widebandCenterHz widebandRateHz centerFreqHz next : ℕ) {blocks : List (SampleBlock α)}
    (hfits : ∀ block ∈ blocks, block.Fits) :
    let r := run A (start A id widebandCenterHz widebandRateHz centerFreqHz decimation next) blocks
    ChunkLaw A decimation centerFreqHz blocks r.2 r.1 := by
  have h : Reached A decimation centerFreqHz blocks _ _ :=
    run_reached hpos hdec id widebandCenterHz widebandRateHz next hfits
  generalize run A (start A id widebandCenterHz widebandRateHz centerFreqHz decimation next)
    blocks = r at h ⊢
  refine ⟨?_, ?_, ?_, ?_, ?_, ?_⟩
  · intro o stretch stretch' hstream hstream' hsame hstretch
    have hstretch' : o.Fits (samplesOf stretch').length := hsame ▸ hstretch
    rw [run_stream_one h.ready hdec hstream hstretch,
      run_stream_one h.ready hdec hstream' hstretch', hsame]
  · intro o stretch hstream hstretch hvalid hstride
    have hsamples := (run_stream h.ready hdec hvalid hstride hstream hstretch).2
    have haligned : (entering A r.1 o).Aligned A decimation o.startSample :=
      h.ready.entered (o.block []) r.1.2
    refine ⟨hsamples, ?_⟩
    rw [hsamples, haligned.length_filter]
  · intro o stretch hstream hstretch
    exact run_stream_origin h.ready hdec hstream hstretch
  · intro block out hblock hout
    obtain ⟨k, hlt, hfirst, hindex, -, hstride⟩ := process_clock h.ready hdec hblock hout
    exact ⟨k, hlt, hfirst, hindex, hstride⟩
  · intro block rest id' center rate next' hbreak hblock
    have hcont (hvalid : block.origin.Valid) :
        r.1.1.lastInput.map InputEnd.origin ≠ some block.origin :=
      fun hcont => hbreak (h.last block hcont)
    generalize hnew : start A id' center rate centerFreqHz decimation next' = fresh
    have hlast : fresh.1.lastInput = none := hnew ▸ rfl
    have hcenter : fresh.1.centerFreqHz = r.1.1.centerFreqHz := hnew ▸ h.center.symm
    have hshape : FirDecimator.SameShape r.1.1.decimator fresh.1.decimator :=
      hnew ▸ h.ready.shape.symm
    obtain ⟨halike, hout⟩ :=
      process_break (A := A) hblock hcenter hshape hcont hlast r.1.2 fresh.2
    exact run_map_eraseEpoch halike hout rest
  · intro block rest hbreak hrest out hout
    obtain ⟨hflag, hepoch⟩ := run_break_flagged h hdec hbreak hrest out hout
    exact ⟨hflag, fun old hold heq => absurd (h.past old hold) (by omega)⟩

/-- Moving sums of integers; no tuning. -/
def movingSum : Dsp ℤ Unit where
  zero := 0
  ncoNew _ _ _ _ := ()
  ncoSeek nco _ _ := nco
  ncoMix nco sample := (sample, nco)
  halfBand := List.sum
  phaseOutput _ _ := List.sum

/-- A block at 1 kHz with the clock of its position. -/
def blockAt (startSample : ℕ) (samples : List ℤ) : SampleBlock ℤ :=
  ⟨0, none, startSample, 1000, 100000, samples⟩

/-- Two samples of the input are missing, fewer than the decimation. -/
theorem run_chunkLaw_gap :
    let r := run movingSum (start movingSum 1 100000 1000 100000 4 1)
      [blockAt 0 [1], blockAt 3 [0, 0, 0]]
    ChunkLaw movingSum 4 100000 [blockAt 0 [1], blockAt 3 [0, 0, 0]] r.2 r.1 :=
  run_chunkLaw (by decide) (by decide) 1 100000 1000 100000 1 (by
    intro block hblock
    have hcases : block = blockAt 0 [1] ∨ block = blockAt 3 [0, 0, 0] := by simpa using hblock
    rcases hcases with rfl | rfl
    · exact ⟨by decide, by decide⟩
    · exact ⟨by decide, by decide⟩)

end VirtualChannel

end Capture
