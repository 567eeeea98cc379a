import EzSdr.Capture.Recording

/-! # What a Recording Holds

    The abstract recording is a list of accepted blocks that follow one
    another without a break. `Spans` relates it to the span the thread keeps;
    one accepted block extends both.

    Layout:

    1. `Follows` and `Spans`, and what `accept` does to them
    2. The writer: what is on the file and in the buffer together
    3. `Ending`: the three ways in which the loop stops
    4. The loop, by induction on the offers
    5. The side-car -/

namespace Capture

open Ingest (CaptureClock)

/-! ## Section 1: Contiguous blocks -/

/-- Source index after the last sample of a block. -/
def SampleBlock.endIndex {α : Type*} (b : SampleBlock α) : ℕ :=
  b.captureClock.sourceSampleIndex + b.samples.length * b.captureClock.sampleStride

/-- Two blocks belong to one acquisition at one tuning. -/
structure SameTuning {α : Type*} (a b : SampleBlock α) : Prop where
  epoch      : b.captureClock.epoch = a.captureClock.epoch
  center     : b.centerFreqHz = a.centerFreqHz
  rate       : b.sampleRateHz = a.sampleRateHz
  sourceRate : b.captureClock.sourceSampleRateHz = a.captureClock.sourceSampleRateHz
  stride     : b.captureClock.sampleStride = a.captureClock.sampleStride
  origin     : b.captureClock.originUnixNs = a.captureClock.originUnixNs

/-- `b` is the next block of the run that `a` belongs to. -/
structure Follows {α : Type*} (a b : SampleBlock α) : Prop where
  tuning  : SameTuning a b
  index   : b.captureClock.sourceSampleIndex = a.endIndex
  unbroken : b.captureClock.discontinuous = false

/-- The kept span is the span of a run of accepted blocks. -/
structure Spans (accepted : List (SampleBlock Complex32)) (c : RecordingCapture) : Prop where
  first   : accepted.head?.map (·.captureClock) = some c.firstClock
  run     : accepted.IsChain Follows
  tuned   : accepted.Pairwise SameTuning
  center  : ∀ b ∈ accepted, b.centerFreqHz = c.centerFrequencyHz
  rate    : ∀ b ∈ accepted, b.sampleRateHz = c.sampleRateHz
  clock   : ∀ b ∈ accepted, b.captureClock.epoch = c.firstClock.epoch ∧
    b.captureClock.sourceSampleRateHz = c.firstClock.sourceSampleRateHz ∧
    b.captureClock.sampleStride = c.firstClock.sampleStride ∧
    b.captureClock.originUnixNs = c.firstClock.originUnixNs
  last    : ∀ b ∈ accepted.getLast?, c.nextSourceSampleIndex = b.endIndex
  total   : c.samples = (accepted.map (·.samples.length)).sum
  next    : c.nextSourceSampleIndex =
    c.firstClock.sourceSampleIndex + c.samples * c.firstClock.sampleStride
  bounded : c.nextSourceSampleIndex < 2 ^ 64

namespace RecordingCapture

variable {c c' : RecordingCapture} {b : SampleBlock Complex32}

/-- No objection: same tuning, and the block starts where the span ends. -/
theorem objection_eq_none {clock : CaptureClock} {center rate : ℕ} :
    c.objection clock center rate = none ↔
      c.firstClock.epoch = clock.epoch ∧ c.centerFrequencyHz = center ∧
      c.sampleRateHz = rate ∧
      c.firstClock.sourceSampleRateHz = clock.sourceSampleRateHz ∧
      c.firstClock.sampleStride = clock.sampleStride ∧
      c.firstClock.originUnixNs = clock.originUnixNs ∧
      clock.discontinuous = false ∧ c.nextSourceSampleIndex = clock.sourceSampleIndex := by
  unfold objection
  split
  · next h => simp [h]
  · next hepoch =>
    split
    · next h =>
      constructor
      · intro hnone
        cases hnone
      · rintro ⟨-, h₁, h₂, h₃, h₄, h₅, -⟩
        simp [h₁, h₂, h₃, h₄, h₅] at h
    · next h =>
      simp only [not_or, not_not, ne_eq] at h hepoch
      obtain ⟨h₁, h₂, h₃, h₄, h₅⟩ := h
      simp [hepoch, h₁, h₂, h₃, h₄, h₅]

/-- What `accept` asks of a block, and the span it answers. -/
theorem acceptBlock_eq_ok {previous : Option RecordingCapture} :
    acceptBlock previous b = .ok c' →
      b.endIndex < 2 ^ 64 ∧
      (∀ c, previous = some c →
        c.objection b.captureClock b.centerFreqHz b.sampleRateHz = none) ∧
      c' = { firstClock := previous.elim b.captureClock (·.firstClock)
             centerFrequencyHz := b.centerFreqHz
             sampleRateHz := b.sampleRateHz
             samples := previous.elim 0 (·.samples) + b.samples.length
             nextSourceSampleIndex := b.endIndex } := by
  intro hok
  unfold acceptBlock accept at hok
  split at hok
  · cases hok
  · split at hok
    · cases hok
    · next next hnext =>
      split at hok
      · cases hok
      · next hobjection =>
        split at hok
        · cases hok
        · next total htotal =>
          obtain ⟨hend, rfl⟩ := offsetSamples_eq_some.1 hnext
          obtain ⟨-, rfl⟩ := checkedAdd_eq_some.1 htotal
          refine ⟨hend, ?_, (Except.ok.inj hok).symm⟩
          intro c hc
          simpa [hc] using hobjection

end RecordingCapture

/-- The first block of a file may stand anywhere. -/
theorem Spans.begin {b : SampleBlock Complex32} {c : RecordingCapture}
    (hok : RecordingCapture.acceptBlock none b = .ok c) : Spans [b] c := by
  obtain ⟨hend, -, rfl⟩ := RecordingCapture.acceptBlock_eq_ok hok
  constructor <;> simp [SampleBlock.endIndex] at hend ⊢
  exact hend

/-- A further block is accepted only if it continues the run. -/
theorem Spans.extend {accepted : List (SampleBlock Complex32)} {b : SampleBlock Complex32}
    {c c' : RecordingCapture} (h : Spans accepted c)
    (hok : RecordingCapture.acceptBlock (some c) b = .ok c') :
    Spans (accepted ++ [b]) c' := by
  obtain ⟨hend, hobjection, rfl⟩ := RecordingCapture.acceptBlock_eq_ok hok
  obtain ⟨hepoch, hcenter, hrate, hsource, hstride, horigin, hflag, hindex⟩ :=
    RecordingCapture.objection_eq_none.1 (hobjection c rfl)
  -- every earlier block shares the tuning of the span, hence that of `b`
  have htuning : ∀ a ∈ accepted, SameTuning a b := by
    intro a ha
    obtain ⟨h₁, h₂, h₃, h₄⟩ := h.clock a ha
    constructor
    · rw [h₁, hepoch]
    · rw [h.center a ha, hcenter]
    · rw [h.rate a ha, hrate]
    · rw [h₂, hsource]
    · rw [h₃, hstride]
    · rw [h₄, horigin]
  constructor
  · show (accepted ++ [b]).head?.map _ = some c.firstClock
    rw [List.head?_append, Option.map_or, h.first]
    rfl
  · rw [List.isChain_append]
    refine ⟨h.run, List.isChain_singleton b, ?_⟩
    intro a ha b' hb'
    obtain rfl : b = b' := by simpa using hb'
    refine ⟨htuning a (List.mem_of_getLast? ha), ?_, hflag⟩
    rw [← hindex, h.last a ha]
  · rw [List.pairwise_append]
    refine ⟨h.tuned, List.pairwise_singleton _ _, ?_⟩
    intro a ha b' hb'
    obtain rfl := List.mem_singleton.1 hb'
    exact htuning a ha
  · intro a ha
    rcases List.mem_append.1 ha with ha | ha
    · rw [h.center a ha]
      exact hcenter
    · rw [List.mem_singleton.1 ha]
  · intro a ha
    rcases List.mem_append.1 ha with ha | ha
    · rw [h.rate a ha]
      exact hrate
    · rw [List.mem_singleton.1 ha]
  · intro a ha
    rcases List.mem_append.1 ha with ha | ha
    · exact h.clock a ha
    · rw [List.mem_singleton.1 ha]
      exact ⟨hepoch.symm, hsource.symm, hstride.symm, horigin.symm⟩
  · intro a ha
    obtain rfl : b = a := by simpa using ha
    rfl
  · simp [h.total]
  · show b.endIndex = c.firstClock.sourceSampleIndex +
      (c.samples + b.samples.length) * c.firstClock.sampleStride
    rw [SampleBlock.endIndex, ← hindex, ← hstride, h.next]
    ring
  · exact hend

/-! ## Section 2: The writer -/

namespace Writer

/-- Everything the writer has taken, on the file or not. -/
def contents (w : Writer) : List (BitVec 8) := w.file ++ w.buffered

@[simp] theorem contents_drain (w : Writer) (count : ℕ) : (w.drain count).contents = w.contents := by
  simp [contents, drain]

@[simp] theorem contents_flush (w : Writer) (io : WriteOutcome) :
    (w.flush io).contents = w.contents := by
  unfold flush
  split <;> simp

/-- A call that succeeds takes all of its bytes. -/
theorem contents_writeAll {w : Writer} {bytes : List (BitVec 8)} {io : WriteOutcome}
    (hok : io.error = none) : (w.writeAll bytes io).contents = w.contents ++ bytes := by
  simp [writeAll, hok, contents, drain]

/-- A call that fails takes some of its first bytes, perhaps none. -/
theorem contents_writeAll_failed {w : Writer} {bytes : List (BitVec 8)} {io : WriteOutcome}
    {message : String} (hfail : io.error = some message) :
    ∃ part, part <+: bytes ∧ (w.writeAll bytes io).contents = w.contents ++ part := by
  refine ⟨bytes.take (io.drained - w.buffered.length), List.take_prefix _ _, ?_⟩
  simp only [writeAll, hfail, contents, List.take_append, List.append_assoc]
  -- either the buffer went out whole or nothing of the new bytes did
  rcases Nat.le_total io.drained w.buffered.length with hle | hle
  · rw [Nat.sub_eq_zero_of_le hle]
    simp
  · rw [List.drop_eq_nil_of_le hle, List.take_of_length_le hle, List.append_nil]

/-- After a flush that succeeds nothing waits. -/
theorem flush_ok {w : Writer} {io : WriteOutcome} (hok : io.error = none) :
    (w.flush io).file = w.contents ∧ (w.flush io).buffered = [] := by
  simp [flush, hok, drain, contents]

/-- The file is a front part of what was taken. -/
theorem file_prefix (w : Writer) : w.file <+: w.contents := List.prefix_append _ _

end Writer

/-! ## Section 3: Bytes of a recording -/

section Thread

variable {format : RecordingFormat} {componentToUc8 : BitVec 32 → BitVec 8} {metadata : Bool}

theorem RecordingFormat.sampleBytes_pos (format : RecordingFormat) : 0 < format.sampleBytes := by
  cases format <;> decide

theorem RecordingFormat.length_bytes (format : RecordingFormat)
    (componentToUc8 : BitVec 32 → BitVec 8) (block : SampleBlock Complex32) :
    (format.bytes componentToUc8 block).length = block.samples.length * format.sampleBytes := by
  cases format <;>
    simp [bytes, complexToCf32LeBytes, complexToUc8Bytes, toLeBytes, sampleBytes,
      List.length_flatMap]

/-- The bytes of the accepted blocks, in order. -/
def recordedBytes (format : RecordingFormat) (componentToUc8 : BitVec 32 → BitVec 8)
    (accepted : List (SampleBlock Complex32)) : List (BitVec 8) :=
  accepted.flatMap (format.bytes componentToUc8)

theorem length_recordedBytes (accepted : List (SampleBlock Complex32)) :
    (recordedBytes format componentToUc8 accepted).length =
      (accepted.map (·.samples.length)).sum * format.sampleBytes := by
  unfold recordedBytes
  induction accepted with
  | nil => simp
  | cons b accepted ih =>
    rw [List.flatMap_cons, List.length_append, ih, RecordingFormat.length_bytes]
    simp [Nat.add_mul]

/-- The blocks with samples among the offers, in order. -/
def offered : List Offer → List (SampleBlock Complex32)
  | [] => []
  | .idle :: offers => offered offers
  | .block block _ :: offers =>
    if block.samples = [] then offered offers else block :: offered offers

/-- The kept span belongs to the accepted blocks; none is kept before the first. -/
def Captured (accepted : List (SampleBlock Complex32)) : Option RecordingCapture → Prop
  | none => accepted = []
  | some c => Spans accepted c

theorem Captured.step {accepted : List (SampleBlock Complex32)} {b : SampleBlock Complex32}
    {previous : Option RecordingCapture} {next : RecordingCapture}
    (h : Captured accepted previous)
    (hok : RecordingCapture.acceptBlock previous b = .ok next) :
    Captured (accepted ++ [b]) (some next) := by
  cases previous with
  | none =>
    obtain rfl : accepted = [] := h
    exact Spans.begin hok
  | some c => exact Spans.extend h hok

/-! ## Section 4: The loop -/

/-- The recorder has accepted these blocks and nothing has gone wrong yet. -/
structure Recorded (format : RecordingFormat) (componentToUc8 : BitVec 32 → BitVec 8)
    (accepted : List (SampleBlock Complex32)) (r : Recorder) : Prop where
  captured : Captured accepted r.capture
  counted  : r.bytesWritten = (recordedBytes format componentToUc8 accepted).length % 2 ^ 64

/-- How the loop ended: the stop flag, a refused block of which nothing is
    written, or a block the writer failed on, of which a front part may be. -/
inductive Ending (format : RecordingFormat) (componentToUc8 : BitVec 32 → BitVec 8)
    (metadata : Bool) (accepted rest : List (SampleBlock Complex32)) (r : Recorder) : Prop where
  | stopped
      (all      : rest = [])
      (contents : r.writer.contents = recordedBytes format componentToUc8 accepted)
      (error    : r.error = none)
      (reason   : r.stopReason = none)
  | refused (b : SampleBlock Complex32) (later : List (SampleBlock Complex32)) (reason : String)
      (first    : rest = b :: later)
      (rejected : RecordingCapture.acceptBlock r.capture b = .error reason)
      (contents : r.writer.contents = recordedBytes format componentToUc8 accepted)
      (told     : (if metadata then r.stopReason else r.error) = some reason)
  | failed (b : SampleBlock Complex32) (later : List (SampleBlock Complex32))
      (next : RecordingCapture) (part : List (BitVec 8)) (message : String)
      (first    : rest = b :: later)
      (admitted : RecordingCapture.acceptBlock r.capture b = .ok next)
      (front    : part <+: format.bytes componentToUc8 b)
      (contents : r.writer.contents = recordedBytes format componentToUc8 accepted ++ part)
      (error    : r.error = some message)

/-- The loop accepts a front part of the offered blocks and says why it ended. -/
theorem recordLoop_ending (offers : List Offer) :
    ∀ (accepted : List (SampleBlock Complex32)) (r : Recorder),
      Recorded format componentToUc8 accepted r →
      r.writer.contents = recordedBytes format componentToUc8 accepted →
      r.error = none → r.stopReason = none →
      ∃ more rest, offered offers = more ++ rest ∧
        Recorded format componentToUc8 (accepted ++ more)
          (recordLoop format componentToUc8 metadata r offers) ∧
        Ending format componentToUc8 metadata (accepted ++ more) rest
          (recordLoop format componentToUc8 metadata r offers) := by
  induction offers with
  | nil =>
    intro accepted r hr hcontents herror hreason
    refine ⟨[], [], rfl, ?_, ?_⟩
    · rw [List.append_nil]
      exact hr
    · rw [List.append_nil]
      exact .stopped rfl hcontents herror hreason
  | cons offer offers ih =>
    intro accepted r hr hcontents herror hreason
    cases offer with
    | idle => exact ih accepted r hr hcontents herror hreason
    | block b io =>
      by_cases hempty : b.samples = []
      · simp only [offered, recordLoop, if_pos hempty]
        exact ih accepted r hr hcontents herror hreason
      · simp only [offered, recordLoop, if_neg hempty]
        cases haccept : RecordingCapture.acceptBlock r.capture b with
        | error reason =>
          -- nothing but the reason changes
          refine ⟨[], b :: offered offers, rfl, ?_, ?_⟩
          · rw [List.append_nil]
            cases metadata <;> exact ⟨hr.captured, hr.counted⟩
          · rw [List.append_nil]
            cases metadata <;>
              exact .refused b _ reason rfl haccept hcontents rfl
        | ok next =>
          cases hio : io.error with
          | some message =>
            have hfront : ∃ part, part <+: format.bytes componentToUc8 b ∧
                (r.writer.writeAll (format.bytes componentToUc8 b) io).contents =
                  r.writer.contents ++ part :=
              Writer.contents_writeAll_failed hio
            obtain ⟨part, hpart, htaken⟩ := hfront
            refine ⟨[], b :: offered offers, rfl, ?_, ?_⟩
            · rw [List.append_nil]
              exact ⟨hr.captured, hr.counted⟩
            · rw [List.append_nil]
              exact .failed b _ next part message rfl haccept hpart
                (by rw [htaken, hcontents]) rfl
          | none =>
            -- the block extends the span, the bytes and the count alike
            have hbytes : recordedBytes format componentToUc8 (accepted ++ [b]) =
                recordedBytes format componentToUc8 accepted ++
                  format.bytes componentToUc8 b := by
              simp [recordedBytes]
            obtain ⟨more, rest, hoffered, hrec, hend⟩ :=
              ih (accepted ++ [b])
                { r with
                  writer := r.writer.writeAll (format.bytes componentToUc8 b) io
                  bytesWritten :=
                    (r.bytesWritten + (format.bytes componentToUc8 b).length) % 2 ^ 64
                  capture := some next }
                ⟨hr.captured.step haccept, by simp [hr.counted, hbytes]⟩
                (by rw [Writer.contents_writeAll hio, hcontents, hbytes]) herror hreason
            refine ⟨b :: more, rest, by simp [hoffered], ?_, ?_⟩
            · simpa using hrec
            · simpa using hend

/-! ## Section 5: The side-car -/

namespace Recorder

/-- What the side-car is made from: the recorder after the flush and the measurement. -/
def settled (r : Recorder) (io : FinishIo) : Recorder := (r.flush io.flush).measure io.size

theorem orError_error_ne_none (r : Recorder) (message : String) :
    (r.orError message).error ≠ none := by
  cases herror : r.error <;> simp [orError, herror]

/-- Neither the span nor the contents change after the loop. -/
theorem settled_frame (r : Recorder) (io : FinishIo) :
    (r.settled io).capture = r.capture ∧ (r.settled io).stopReason = r.stopReason ∧
      (r.settled io).writer = r.writer.flush io.flush := by
  unfold settled measure flush
  cases io.size <;> cases io.flush.error <;> exact ⟨rfl, rfl, rfl⟩

/-- Without an error at the end there was none before, and the flush and the
    measurement went well. -/
theorem settled_error_eq_none {r : Recorder} {io : FinishIo}
    (h : (r.settled io).error = none) :
    r.error = none ∧ io.flush.error = none ∧
      (r.settled io).bytesWritten = (r.writer.flush io.flush).file.length := by
  cases hsize : io.size with
  | some failure =>
    rw [settled, hsize] at h
    exact absurd h (orError_error_ne_none _ _)
  | none =>
    cases hflush : io.flush.error with
    | some failure =>
      simp only [settled, measure, flush, hsize, hflush] at h
      exact absurd h (orError_error_ne_none _ _)
    | none =>
      simp only [settled, measure, flush, hsize, hflush] at h ⊢
      exact ⟨h, trivial, trivial⟩

/-- The reported length is that of the file or the count kept by the loop. -/
theorem settled_bytesWritten (r : Recorder) (io : FinishIo) :
    (r.settled io).bytesWritten = (r.writer.flush io.flush).file.length ∨
      (r.settled io).bytesWritten = r.bytesWritten := by
  unfold settled measure flush
  cases io.size <;> cases io.flush.error <;> simp [orError]

/-- A side-car on disk is the one of the settled recorder, which is also the
    recorder that remains, but for what the dropped writer still moves. -/
theorem finish_sidecar {r : Recorder} {io : FinishIo} {sidecar : Sidecar}
    (h : (r.finish format metadata io).2 = some sidecar) :
    metadata = true ∧ sidecar = (r.settled io).sidecar format ∧
      (r.finish format metadata io).1 =
        { r.settled io with writer := (r.settled io).writer.drain io.dropped } := by
  unfold finish at h ⊢
  cases metadata with
  | false => simp at h
  | true =>
    cases hio : io.sidecar with
    | some failure => simp [hio] at h
    | none =>
      simp only [hio, if_true, Option.some.injEq] at h ⊢
      exact ⟨trivial, h.symm, rfl⟩

/-- What is on the file at the end was taken by the writer in the loop. -/
theorem finish_contents (r : Recorder) (io : FinishIo) :
    (r.finish format metadata io).1.writer.contents = r.writer.contents := by
  have hsettled : (r.settled io).writer.contents = r.writer.contents := by
    rw [(r.settled_frame io).2.2, Writer.contents_flush]
  have hflush : (r.flush io.flush).writer.contents = r.writer.contents := by
    unfold flush
    cases io.flush.error <;> simp [orError]
  unfold finish
  cases metadata with
  | false => simpa using hflush
  | true => cases io.sidecar <;> simpa [settled] using hsettled

end Recorder

/-- A saturated product of a sample count is odd, so it is no whole number of samples. -/
theorem saturatingMul_exact {samples bytes : ℕ}
    (hmul : saturatingMul samples format.sampleBytes = bytes)
    (hwhole : bytes % format.sampleBytes = 0) : bytes = samples * format.sampleBytes := by
  unfold saturatingMul at hmul
  cases format <;> simp only [RecordingFormat.sampleBytes] at * <;> omega

/-- A complete side-car: no reason, no error, and a file of exactly its samples. -/
theorem Recorder.sidecar_complete {r : Recorder} (h : (r.sidecar format).complete = true) :
    r.error = none ∧ r.stopReason = none ∧
      ∃ c, r.capture = some c ∧ r.bytesWritten = c.samples * format.sampleBytes := by
  simp only [sidecar, Bool.and_eq_true, Option.isNone_iff_eq_none, Option.or_eq_none_iff,
    decide_eq_true_eq] at h
  obtain ⟨⟨⟨hreason, herror⟩, hintact⟩, hwhole⟩ := h
  obtain ⟨c, hc, hmul⟩ := (Option.any_eq_true _ _).1 hintact
  exact ⟨herror, hreason, c, hc, saturatingMul_exact (by simpa using hmul) hwhole⟩

/-- Every sample count that the writer can have taken is one the clock was
    checked for: that of the accepted blocks and of the one that failed. -/
theorem Ending.index_bounded {accepted rest : List (SampleBlock Complex32)} {r : Recorder}
    {c : RecordingCapture} (h : Ending format componentToUc8 metadata accepted rest r)
    (hcapture : r.capture = some c) (hspans : Spans accepted c) :
    c.firstClock.sourceSampleIndex +
      r.writer.contents.length / format.sampleBytes * c.firstClock.sampleStride < 2 ^ 64 := by
  have hpos := format.sampleBytes_pos
  have hnext := hspans.next
  have hbounded := hspans.bounded
  have hwhole : r.writer.contents = recordedBytes format componentToUc8 accepted →
      r.writer.contents.length / format.sampleBytes = c.samples := by
    intro hcontents
    rw [hcontents, length_recordedBytes, hspans.total, Nat.mul_div_cancel _ hpos]
  cases h with
  | stopped all contents error reason =>
    rw [hwhole contents]
    omega
  | refused b later reason first rejected contents told =>
    rw [hwhole contents]
    omega
  | failed b later next part message first admitted front contents error =>
    rw [hcapture] at admitted
    have hlast := (hspans.extend admitted).next
    have hlimit := (hspans.extend admitted).bounded
    obtain ⟨-, -, rfl⟩ := RecordingCapture.acceptBlock_eq_ok admitted
    -- at most the whole of the failing block was taken
    have hcount : r.writer.contents.length / format.sampleBytes ≤ c.samples + b.samples.length := by
      apply Nat.div_le_of_le_mul
      rw [contents, List.length_append, length_recordedBytes, ← hspans.total]
      have hpart := front.length_le
      rw [RecordingFormat.length_bytes] at hpart
      calc c.samples * format.sampleBytes + part.length
          ≤ c.samples * format.sampleBytes + b.samples.length * format.sampleBytes := by omega
        _ = format.sampleBytes * (c.samples + b.samples.length) := by ring
    have hmono := Nat.mul_le_mul_right c.firstClock.sampleStride hcount
    simp only [Option.elim] at hlast hlimit
    omega

/-! ## Section 6: The recorder thread -/

/-- The whole file is on disk when the flush succeeds. -/
theorem Recorder.finish_file {r : Recorder} {io : FinishIo} (hflush : io.flush.error = none) :
    (r.finish format metadata io).1.writer.file = r.writer.contents := by
  have hempty : (r.writer.flush io.flush).file = r.writer.contents ∧
      (r.writer.flush io.flush).buffered = [] := Writer.flush_ok hflush
  obtain ⟨hfile, hbuffered⟩ := hempty
  -- nothing waits any more, so dropping the writer moves nothing
  have hdrain : ((r.writer.flush io.flush).drain io.dropped).file = r.writer.contents := by
    simp [Writer.drain, hfile, hbuffered]
  have hwriter : (r.flush io.flush).writer = r.writer.flush io.flush := by
    simp [flush, hflush]
  have hsettled : ((r.flush io.flush).measure io.size).writer = r.writer.flush io.flush :=
    (r.settled_frame io).2.2
  unfold finish
  cases metadata with
  | false => simpa [hwriter] using hdrain
  | true => cases io.sidecar <;> simpa [hsettled] using hdrain

/-- The law of the span in the side-car, for a file of any length. -/
theorem Recorder.sidecar_span {accepted rest : List (SampleBlock Complex32)} {r : Recorder}
    (hrec : Recorded format componentToUc8 accepted r)
    (hend : Ending format componentToUc8 metadata accepted rest r) (io : FinishIo)
    {c : RecordingCapture} (hc : ((r.settled io).sidecar format).capture = some c) :
    c.nextSourceSampleIndex =
      c.firstClock.sourceSampleIndex + c.samples * c.firstClock.sampleStride := by
  obtain ⟨kept, hkept, rfl⟩ := Option.map_eq_some_iff.1 hc
  rw [(r.settled_frame io).1] at hkept
  have hspans : Spans accepted kept := by
    simpa [hkept, Captured] using hrec.captured
  have hpos := format.sampleBytes_pos
  have hlength : (r.settled io).bytesWritten ≤ r.writer.contents.length := by
    rcases r.settled_bytesWritten io with hsize | hsize
    · rw [hsize, ← Writer.contents_flush r.writer io.flush]
      exact (Writer.file_prefix _).length_le
    · -- the count of the loop never exceeds what was taken
      rw [hsize, hrec.counted]
      refine (Nat.mod_le _ _).trans ?_
      cases hend with
      | stopped all contents error reason => rw [contents]
      | refused b later reason first rejected contents told => rw [contents]
      | failed b later next part message first admitted front contents error =>
        rw [contents, List.length_append]
        exact Nat.le_add_right _ _
  have hbound : kept.firstClock.sourceSampleIndex +
      (r.settled io).bytesWritten / format.sampleBytes * kept.firstClock.sampleStride < 2 ^ 64 :=
    lt_of_le_of_lt
      (Nat.add_le_add_left (Nat.mul_le_mul_right _ (Nat.div_le_div_right hlength)) _)
      (hend.index_bounded hkept hspans)
  have hoffset := offsetSamples_eq_some.2 ⟨hbound, rfl⟩
  simp [RecordingCapture.resize, hoffset]

/-- A complete side-car: the loop was stopped, and everything is on the file. -/
theorem Recorder.finish_complete {accepted rest : List (SampleBlock Complex32)} {r : Recorder}
    (hrec : Recorded format componentToUc8 accepted r)
    (hend : Ending format componentToUc8 metadata accepted rest r) {io : FinishIo}
    {sidecar : Sidecar} (hsidecar : (r.finish format metadata io).2 = some sidecar)
    (hcomplete : sidecar.complete = true) :
    rest = [] ∧ (r.finish format metadata io).1.error = none ∧
      (r.finish format metadata io).1.stopReason = none ∧
      (r.finish format metadata io).1.writer.file =
        recordedBytes format componentToUc8 accepted ∧
      ∃ c, sidecar.capture = some c ∧ Spans accepted c ∧
        (r.finish format metadata io).1.writer.file.length = c.samples * format.sampleBytes ∧
        sidecar.bytesTotal = (r.finish format metadata io).1.writer.file.length := by
  obtain ⟨hmeta, rfl, hout⟩ := finish_sidecar hsidecar
  obtain ⟨herror, hreason, c, hc, hbytes⟩ := sidecar_complete hcomplete
  obtain ⟨hloop, hflush, hsize⟩ := settled_error_eq_none herror
  obtain ⟨hcapture, hstop, -⟩ := r.settled_frame io
  rw [hcapture] at hc
  rw [hstop] at hreason
  have hspans : Spans accepted c := by
    simpa [hc, Captured] using hrec.captured
  have hpos := format.sampleBytes_pos
  have hfile : (r.finish format metadata io).1.writer.file = r.writer.contents :=
    finish_file hflush
  cases hend with
  | refused b later reason first rejected contents told =>
    -- a refusal leaves a reason
    rw [if_pos hmeta, hreason] at told
    cases told
  | failed b later next part message first admitted front contents error =>
    rw [hloop] at error
    cases error
  | stopped all contents error reason =>
    have hexact : (r.settled io).bytesWritten = r.writer.contents.length := by
      rw [hsize, (Writer.flush_ok hflush).1]
    refine ⟨all, ?_, ?_, ?_, c, ?_, hspans, ?_, ?_⟩
    · rw [hout]
      exact herror
    · rw [hout]
      exact hstop.trans hreason
    · rw [hfile, contents]
    · -- the length of the file gives back the count of the span
      have hsamples : (r.settled io).bytesWritten / format.sampleBytes = c.samples := by
        rw [hbytes, Nat.mul_div_cancel _ hpos]
      have hoffset := offsetSamples_eq_some.2 ⟨hspans.next ▸ hspans.bounded, rfl⟩
      simp [sidecar, hcapture, hc, hsamples, RecordingCapture.resize, hoffset, ← hspans.next]
    · rw [hfile, ← hexact, hbytes]
    · rw [hfile, ← hexact]
      rfl

/-- **Recording continuity.** Whatever blocks are offered, and however the
    writer and the disk behave:

    * a front part of the offered blocks is accepted; it is one contiguous run,
      and the kept span and the count of bytes are those of the run;
    * the loop ends at the first block that is refused, with nothing of it
      written, or that the writer fails on;
    * the file is a front part of the bytes taken, all of them if the flush
      succeeds;
    * the span in the side-car obeys its law whatever the length of the file;
    * a complete side-car stands for all the offered blocks, byte for byte, and
      no error. -/
theorem recordThread_contiguous (format : RecordingFormat)
    (componentToUc8 : BitVec 32 → BitVec 8) (metadata : Bool) (offers : List Offer)
    (io : FinishIo) :
    ∃ accepted rest,
      let r := recordLoop format componentToUc8 metadata Recorder.new offers
      let out := r.finish format metadata io
      offered offers = accepted ++ rest ∧
      Captured accepted r.capture ∧
      r.bytesWritten = (recordedBytes format componentToUc8 accepted).length % 2 ^ 64 ∧
      Ending format componentToUc8 metadata accepted rest r ∧
      out.1.writer.file <+: r.writer.contents ∧
      (io.flush.error = none → out.1.writer.file = r.writer.contents) ∧
      (∀ sidecar c, out.2 = some sidecar → sidecar.capture = some c →
        c.nextSourceSampleIndex =
          c.firstClock.sourceSampleIndex + c.samples * c.firstClock.sampleStride) ∧
      (∀ sidecar, out.2 = some sidecar → sidecar.complete = true →
        rest = [] ∧ out.1.error = none ∧ out.1.stopReason = none ∧
        out.1.writer.file = recordedBytes format componentToUc8 accepted ∧
        ∃ c, sidecar.capture = some c ∧ Spans accepted c ∧
          out.1.writer.file.length = c.samples * format.sampleBytes ∧
          sidecar.bytesTotal = out.1.writer.file.length) := by
  have hnew : Recorded format componentToUc8 [] Recorder.new := ⟨rfl, rfl⟩
  obtain ⟨accepted, rest, hoffered, hrec, hend⟩ :=
    recordLoop_ending offers [] Recorder.new hnew rfl rfl rfl
  rw [List.nil_append] at hrec hend
  refine ⟨accepted, rest, hoffered, hrec.captured, hrec.counted, hend, ?_, ?_, ?_, ?_⟩
  · show (Recorder.finish format metadata _ io).1.writer.file <+: _
    rw [← Recorder.finish_contents _ io]
    exact Writer.file_prefix _
  · intro hflush
    exact Recorder.finish_file hflush
  · intro sidecar c hsidecar hc
    obtain ⟨-, rfl, -⟩ := Recorder.finish_sidecar hsidecar
    exact Recorder.sidecar_span hrec hend io hc
  · intro sidecar hsidecar hcomplete
    exact Recorder.finish_complete hrec hend hsidecar hcomplete

end Thread

end Capture
