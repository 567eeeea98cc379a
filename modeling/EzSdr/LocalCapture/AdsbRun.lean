import EzSdr.LocalCapture.Adsb

/-! # The Accounts of the ADS-B Worker

    Once the producer has finished its last generation and the worker has
    emptied its queue, one more round settles the accounts of that generation,
    unless it was taken for lost too early: the worker reads that its queue is
    empty, a short generation starts, sends and finishes, and only then the
    worker reads the progress of the stream.

    **`accounts_settled_iff`**: in every run the accounts are settled if and only if no
    look at a finished generation took it for lost with a block of it first in
    the queue. -/

namespace LocalCapture.Adsb

open CaptureStream

abbrev Event : Type := Machine.Event State Input Output

/-! ## Section 1: What a run has done -/

/-- Samples of the blocks of a generation. -/
def samplesOf (generation : ℕ) (blocks : List CaptureBlock) : ℕ :=
  ((blocks.filter (·.sourceGeneration = generation)).map CaptureBlock.count).sum

/-- Samples of all blocks. -/
def allSamples (blocks : List CaptureBlock) : ℕ := (blocks.map CaptureBlock.count).sum

/-- A generation is taken for lost with a block of it first in the queue. -/
def TakenForLost (generation : ℕ) (e : Event) : Prop :=
  ∃ dirty q block rest, e.input = .readStream ∧ e.before.phase = .queueRead 0 dirty ∧
    e.before.stream.progress.generation = generation ∧ generation ≠ 0 ∧
    e.before.stream.progress.live = false ∧ e.before.decoder.snapshot.generation ≠ generation ∧
    e.before.stream.input = some q ∧ q.queue.items = block :: rest ∧
    block.sourceGeneration = generation

/-- What is kept of a history. -/
structure Ledger where
  published : List CaptureBlock
  accepted  : List CaptureBlock
  refused   : List CaptureBlock
  ingested  : List CaptureBlock
  /-- Generations that were taken for lost too early. -/
  taken     : ℕ → Prop

def Output.published : Output → List CaptureBlock
  | .produced o => o.published
  | _ => []

def Output.accepted : Output → List CaptureBlock
  | .produced o => o.accepted
  | _ => []

def Output.refused : Output → List CaptureBlock
  | .produced o => o.dropped
  | _ => []

def Output.ingested? : Output → List CaptureBlock
  | .ingested block => [block]
  | _ => []

def ledger (h : List Event) : Ledger where
  published := h.flatMap (·.output.published)
  accepted := h.flatMap (·.output.accepted)
  refused := h.flatMap (·.output.refused)
  ingested := h.flatMap (·.output.ingested?)
  taken generation := ∃ e ∈ h, TakenForLost generation e

/-- The accounts of the last generation are settled. -/
structure Settled (L : Ledger) (t : State) : Prop where
  generation : t.output.generation = t.stream.progress.generation
  complete   : t.output.complete = true
  source     : t.output.sourceSamples = t.stream.progress.samples
  samples    : t.output.receivedSamples + t.output.lostSamples = t.stream.progress.samples
  lost       : t.output.lostSamples = samplesOf t.stream.progress.generation L.refused
  total      : t.output.totalReceivedSamples + t.output.totalLostSamples = t.stream.totalSamples

/-- The worker's steps from one look at its queue to the next. -/
def round (configured : Option Bool) (due : Bool) : List Input :=
  [.receive configured, .ingest, .readProgress, .accountProgress, .readQueue, .readStream,
    .readTotal, .store due]

section

variable {g : ℕ} {a b : List CaptureBlock} {block : CaptureBlock}

@[simp] theorem samplesOf_append : samplesOf g (a ++ b) = samplesOf g a + samplesOf g b := by
  simp [samplesOf]

@[simp] theorem samplesOf_nil : samplesOf g [] = 0 := rfl

theorem samplesOf_singleton :
    samplesOf g [block] = if block.sourceGeneration = g then block.count else 0 := by
  by_cases h : block.sourceGeneration = g <;> simp [samplesOf, h]

theorem samplesOf_eq_zero (h : ∀ block ∈ a, block.sourceGeneration ≠ g) : samplesOf g a = 0 := by
  have hnone : a.filter (·.sourceGeneration = g) = [] := by
    rw [List.filter_eq_nil_iff]
    intro block hblock heq
    exact h block hblock (by simpa using heq)
  simp [samplesOf, hnone]

@[simp] theorem allSamples_append : allSamples (a ++ b) = allSamples a + allSamples b := by
  simp [allSamples]

@[simp] theorem allSamples_nil : allSamples [] = 0 := rfl

@[simp] theorem allSamples_singleton : allSamples [block] = block.count := by simp [allSamples]

end

/-! ## Section 2: The producer's accounts -/

/-- Counted, but not published. -/
def unsentOf : Stage → ℕ
  | .counted block => block.count
  | _ => 0

def unsent (s : CaptureStream) : ℕ := s.producer.elim 0 fun p => unsentOf p.stage

/-- How far the producer and the progress of its session are, of what was published. -/
def StageOk (samples : ℕ) (s : CaptureStream) : Prop :=
  match s.producer with
  | none => s.progress.samples = samples
  | some p =>
    match p.stage with
    | .ready => p.streamSampleIndex = samples ∧ s.progress.samples = samples
    | .counted block =>
      block.streamSampleIndex = samples ∧ p.streamSampleIndex = block.next ∧ 0 < block.count
    | .sent block => block.next = samples ∧ p.streamSampleIndex = samples

structure Counted (published : List CaptureBlock) (s : CaptureStream) : Prop where
  sound  : s.Sound
  /-- Generation zero has no producer. -/
  unused : s.progress.generation = 0 → s.producer = none ∧ published = []
  blocks : ∀ block ∈ published, block.session ≤ s.session ∧
    block.sourceGeneration = (s.sessions block.session).generation ∧ 0 < block.count
  fits   : ∀ block ∈ published, block.sourceGeneration = s.progress.generation →
    block.next ≤ samplesOf s.progress.generation published
  stage  : StageOk (samplesOf s.progress.generation published) s
  total  : s.totalSamples = allSamples published + unsent s

section

variable {sent : List CaptureBlock} {s s' : CaptureStream} {p : ProducerStep} {o : Produced}

theorem Counted.le_generation (h : Counted sent s) {block : CaptureBlock}
    (hblock : block ∈ sent) : block.sourceGeneration ≤ s.progress.generation := by
  obtain ⟨hle, hgeneration, -⟩ := h.blocks block hblock
  obtain hcurrent | hlt := Nat.eq_or_lt_of_le hle
  · rw [hgeneration, hcurrent]
    exact le_rfl
  · rw [hgeneration]
    exact (h.sound.ordered _ hlt).le

/-- Only the current session has the current generation. -/
theorem Counted.session_eq (h : Counted sent s) {i : ℕ} (hle : i ≤ s.session)
    (hgeneration : (s.sessions i).generation = s.progress.generation) : i = s.session := by
  obtain hcurrent | hlt := Nat.eq_or_lt_of_le hle
  · exact hcurrent
  · have hless := h.sound.ordered i hlt
    omega

/-- No session is live if and only if no producer is at work. -/
theorem Counted.idle_iff (h : Counted sent s) :
    s.producer = none ↔ s.progress.live = false := by
  constructor
  · exact h.sound.idle
  · intro hended
    cases hp : s.producer with
    | none => rfl
    | some p =>
      have hlive := (h.sound.busy p hp).2.1
      rw [hended] at hlive
      cases hlive

theorem Counted.samples_eq (h : Counted sent s) (hidle : s.producer = none) :
    s.progress.samples = samplesOf s.progress.generation sent := by
  have hstage := h.stage
  unfold StageOk at hstage
  rwa [hidle] at hstage

/-- What is sent continues what was published of its generation. -/
theorem Counted.continues (h : Counted sent s) (hstep : Produces s p s' o)
    {block : CaptureBlock} (hblock : block ∈ o.published) :
    block.sourceGeneration = s.progress.generation ∧
      block.streamSampleIndex = samplesOf s.progress.generation sent ∧ 0 < block.count := by
  refine ⟨((h.sound.kept hstep).published hblock).2.2.1, ?_⟩
  cases hstep with
  | @send q b hp hcounted =>
    have heq : block = b := by
      apply send_snd (s := s) (p := q)
      generalize (s.send q b).2 = o at hblock
      cases o with
      | silent => cases hblock
      | sent b' => exact .inl (by rw [List.mem_singleton.1 hblock])
      | refused b' => exact .inr (by rw [List.mem_singleton.1 hblock])
    have hstage := h.stage
    unfold StageOk at hstage
    rw [hp] at hstage
    dsimp only at hstage
    rw [hcounted] at hstage
    rw [heq]
    exact ⟨hstage.1, hstage.2.2⟩
  | start => cases hblock
  | acquire => cases hblock
  | store => cases hblock
  | finish => cases hblock

/-- **One step of the producer** keeps its accounts. -/
theorem Counted.produce (h : Counted sent s) (hinput : s.input.isSome = true)
    (hstep : Produces s p s' o) : Counted (sent ++ o.published) s' := by
  have hkept := h.sound.kept hstep
  -- an old block keeps its session; a new one is of the session that is going on
  have hblocks : ∀ block ∈ sent ++ o.published, block.session ≤ s'.session ∧
      block.sourceGeneration = (s'.sessions block.session).generation ∧ 0 < block.count := by
    intro block hblock
    rw [List.mem_append] at hblock
    obtain hold | hnew := hblock
    · obtain ⟨hle, hgeneration, hpos⟩ := h.blocks block hold
      exact ⟨hle.trans hkept.session, hgeneration.trans (hkept.generation _ hle).symm, hpos⟩
    · obtain ⟨hsession, hsame, hgeneration, -⟩ := hkept.published hnew
      refine ⟨(hsession.trans hsame.symm).le, ?_, (h.continues hstep hnew).2.2⟩
      rw [hgeneration, hsession]
      exact (hkept.generation _ le_rfl).symm
  have hused {q : CaptureProducer} {P : Prop} (hp : s.producer = some q)
      (hnone : s.producer = none) : P := by
    rw [hp] at hnone
    cases hnone
  have hstage := h.stage
  have htotal := h.total
  unfold StageOk at hstage
  unfold unsent at htotal
  cases hstep with
  | @start generation hidle hless =>
    have hprogress := s.start_progress generation
    have hnone : ∀ block ∈ sent ++ Produced.silent.published,
        block.sourceGeneration ≠ generation := by
      intro block hblock
      rw [Produced.published, List.append_nil] at hblock
      have hle := h.le_generation hblock
      omega
    -- the generation is new: nothing of it has been sent
    refine ⟨hkept.sound, fun hzero => ?_, hblocks, fun block hblock heq => ?_, ?_, ?_⟩
    · rw [hprogress] at hzero
      rw [show generation = 0 from hzero] at hless
      exact absurd hless (Nat.not_lt_zero _)
    · rw [hprogress] at heq
      exact absurd heq (hnone block hblock)
    · rw [hprogress]
      have hzero := samplesOf_eq_zero hnone
      exact ⟨hzero.symm, by rw [hprogress]; exact hzero.symm⟩
    · rw [hidle] at htotal
      simpa [Produced.published, unsent, unsentOf, start, finishSession] using htotal
  | @acquire q samples clock centerHz observedAt hp hready hpos heven =>
    rw [hp] at hstage htotal
    dsimp only [Option.elim] at hstage htotal
    rw [hready] at hstage htotal
    have hcount : 0 < samples.length / 2 := by
      have hlen := List.length_pos_iff.2 hpos
      omega
    rw [Produced.published, List.append_nil]
    refine ⟨hkept.sound, fun hzero => hused hp (h.unused hzero).1,
      by simpa [Produced.published] using hblocks, h.fits, ?_, ?_⟩
    · exact ⟨hstage.1, rfl, hcount⟩
    · show s.totalSamples + _ = allSamples sent + _
      rw [htotal]
      rfl
  | @send q block hp hcounted =>
    rw [hp] at hstage htotal
    dsimp only [Option.elim] at hstage htotal
    rw [hcounted] at hstage htotal
    obtain ⟨hindex, hnext, hpos⟩ := hstage
    obtain ⟨hsession, hsessions, hsamples, hproducer⟩ := send_fst s q block
    have hprogress : (s.send q block).1.progress = s.progress := by
      unfold progress
      rw [hsession, hsessions]
    have hpublished : (s.send q block).2.published = [block] := by
      obtain ⟨input, hinput⟩ := Option.isSome_iff_exists.1 hinput
      have hoffer : (s.send q block).2 =
          if (input.offer block).2 then .sent block else .refused block := by
        simp [send, hinput]
      rw [hoffer]
      split <;> rfl
    have hgeneration : block.sourceGeneration = s.progress.generation := by
      obtain ⟨-, -, -, hown⟩ := h.sound.busy q hp
      exact (hown block (by rw [hcounted]; rfl)).2
    -- the block begins where the generation has got to
    have hsum : samplesOf s.progress.generation (sent ++ [block]) = block.next := by
      rw [samplesOf_append, samplesOf_singleton, if_pos hgeneration, ← hindex]
      rfl
    rw [hpublished] at hblocks ⊢
    refine ⟨hkept.sound, fun hzero => ?_, hblocks, fun b hb heq => ?_, ?_, ?_⟩
    · rw [hprogress] at hzero
      exact hused hp (h.unused hzero).1
    · rw [hprogress] at heq ⊢
      rw [List.mem_append, List.mem_singleton] at hb
      obtain hold | rfl := hb
      · exact (h.fits b hold heq).trans (by simp)
      · exact hsum.ge
    · unfold StageOk
      rw [hproducer, hprogress, hsum]
      exact ⟨rfl, hnext⟩
    · unfold unsent
      rw [hsamples, hproducer, htotal, allSamples_append, allSamples_singleton]
      rfl
  | @store q block hp hsent =>
    rw [hp] at hstage htotal
    dsimp only [Option.elim] at hstage htotal
    rw [hsent] at hstage htotal
    obtain ⟨hcurrent, -, hgeneration, hown⟩ := h.sound.busy q hp
    have hprogress : (s.store q block).progress =
        ⟨block.sourceGeneration, block.next, (s.sessions s.session).blocks + 1, true⟩ := by
      show Function.update s.sessions q.session _ s.session = _
      rw [hcurrent, Function.update_self]
    -- only now does the progress move past the block that was sent
    have hsame : block.sourceGeneration = s.progress.generation :=
      (hown block (by rw [hsent]; rfl)).2
    rw [Produced.published, List.append_nil]
    refine ⟨hkept.sound, fun hzero => ?_, by simpa [Produced.published] using hblocks, ?_, ?_, ?_⟩
    · rw [hprogress, hsame] at hzero
      exact hused hp (h.unused hzero).1
    · rw [hprogress, hsame]
      exact h.fits
    · unfold StageOk
      rw [hprogress, hsame]
      exact ⟨hstage.2, hstage.1⟩
    · show s.totalSamples = allSamples sent + 0
      rw [htotal]
      rfl
  | @finish q hp hready =>
    rw [hp] at hstage htotal
    dsimp only [Option.elim] at hstage htotal
    rw [hready] at hstage htotal
    obtain ⟨hcurrent, -⟩ := h.sound.busy q hp
    have hprogress : (s.finish q).progress = { s.progress with live := false } := by
      show Function.update s.sessions q.session _ s.session = _
      rw [hcurrent, Function.update_self]
      rfl
    rw [Produced.published, List.append_nil]
    refine ⟨hkept.sound, fun hzero => ?_, by simpa [Produced.published] using hblocks, ?_, ?_, ?_⟩
    · rw [hprogress] at hzero
      exact hused hp (h.unused hzero).1
    · rw [hprogress]
      exact h.fits
    · unfold StageOk
      rw [hprogress]
      exact hstage.2
    · show s.totalSamples = allSamples sent + 0
      rw [htotal]
      rfl

end

/-! ## Section 3: What holds in every state -/

/-- The block received and not counted yet. -/
def Phase.hand : Phase → List CaptureBlock
  | .received (some block) _ => [block]
  | _ => []

/-- The snapshot is going to be stored. -/
def Phase.dirty : Phase → Bool
  | .receiving => false
  | .received _ dirty => dirty
  | .ingested dirty => dirty
  | .progressRead _ dirty => dirty
  | .accounted dirty => dirty
  | .queueRead _ dirty => dirty
  | .streamRead dirty => dirty
  | .storing dirty => dirty

namespace State

/-- The last generation. -/
def generation (s : State) : ℕ := s.stream.progress.generation

/-- Blocks that the worker still has to count. -/
def pending (s : State) : List CaptureBlock :=
  s.phase.hand ++ s.stream.input.elim [] (·.queue.items)

end State

/-- The order of blocks in the queue. -/
def Before (a b : CaptureBlock) : Prop :=
  a.sourceGeneration ≤ b.sourceGeneration ∧
    (a.sourceGeneration = b.sourceGeneration → a.next ≤ b.streamSampleIndex)

/-- The snapshots agree in what they say of the samples. -/
structure SameFigures (a b : LocalAdsbSnapshot) : Prop where
  generation    : a.generation = b.generation
  complete      : a.complete = b.complete
  received      : a.receivedSamples = b.receivedSamples
  lost          : a.lostSamples = b.lostSamples
  source        : a.sourceSamples = b.sourceSamples
  totalReceived : a.totalReceivedSamples = b.totalReceivedSamples
  totalLost     : a.totalLostSamples = b.totalLostSamples

/-- What the worker knows can be seen, or will be at the end of the round. -/
def Shown (s : State) : Prop :=
  s.phase.dirty = true ∨ SameFigures s.output s.decoder.snapshot

/-- The last generation has ended, and the worker knows. -/
structure Ended (s : State) : Prop where
  idle   : s.stream.producer = none
  source : s.decoder.snapshot.sourceSamples = s.stream.progress.samples
  read   : ∀ progress dirty, s.phase = .progressRead progress dirty →
    progress.generation = s.generation → progress.live = false
  shown  : Shown s

/-- No block of the last generation was counted yet. -/
structure Waiting (L : Ledger) (s : State) : Prop where
  generation : s.generation ≠ 0 → s.decoder.snapshot.generation ≠ s.generation
  ingested   : ∀ block ∈ L.ingested, block.sourceGeneration ≠ s.generation
  taken      : ¬L.taken s.generation

/-- The worker counts the blocks of the last generation. -/
structure Following (L : Ledger) (s : State) : Prop where
  generation : s.decoder.snapshot.generation = s.generation
  session    : s.decoder.session = some s.stream.session
  received   : s.decoder.snapshot.receivedSamples = samplesOf s.generation L.ingested
  next       : s.decoder.nextStreamSample ≤ samplesOf s.generation L.published
  pending    : ∀ block ∈ s.pending, block.sourceGeneration = s.generation ∧
    s.decoder.nextStreamSample ≤ block.streamSampleIndex
  running    : s.decoder.snapshot.complete = false →
    s.decoder.snapshot.receivedSamples + s.decoder.snapshot.lostSamples =
      s.decoder.nextStreamSample
  ended      : s.decoder.snapshot.complete = true → Ended s ∧ s.pending = [] ∧
    s.decoder.snapshot.receivedSamples + s.decoder.snapshot.lostSamples =
      s.stream.progress.samples
  taken      : ¬L.taken s.generation

/-- The last generation was taken for lost, and no block of it is first in the queue. -/
structure Lost (L : Ledger) (s : State) : Prop where
  generation : s.decoder.snapshot.generation = s.generation
  complete   : s.decoder.snapshot.complete = true
  received   : s.decoder.snapshot.receivedSamples = 0
  lost       : s.decoder.snapshot.lostSamples = s.stream.progress.samples
  ingested   : ∀ block ∈ L.ingested, block.sourceGeneration ≠ s.generation
  pending    : ∀ block, s.pending.head? = some block → block.sourceGeneration ≠ s.generation
  ended      : Ended s
  taken      : ¬L.taken s.generation

/-- The last generation was taken for lost too early. -/
structure Raced (L : Ledger) (s : State) : Prop where
  generation : s.decoder.snapshot.generation = s.generation
  idle       : s.stream.producer = none
  lost       : s.stream.progress.samples ≤ s.decoder.snapshot.lostSamples
  pending    : ∀ block ∈ s.pending, block.sourceGeneration = s.generation
  fresh      : s.decoder.snapshot.receivedSamples = 0 →
    s.pending ≠ [] ∧ s.decoder.snapshot.epoch = none
  shown      : 0 < s.decoder.snapshot.receivedSamples → s.phase.dirty = true ∨
    s.stream.progress.samples < s.output.receivedSamples + s.output.lostSamples
  taken      : L.taken s.generation

def Mode (L : Ledger) (s : State) : Prop :=
  Waiting L s ∨ Following L s ∨ Lost L s ∨ Raced L s

structure Inv (L : Ledger) (s : State) : Prop where
  counted  : Counted L.published s.stream
  input    : s.stream.input.isSome = true
  accepted : L.accepted = L.ingested ++ s.pending
  subset   : ∀ block ∈ L.accepted, block ∈ L.published
  split    : ∀ g, samplesOf g L.published = samplesOf g L.accepted + samplesOf g L.refused
  fewer    : allSamples L.accepted ≤ allSamples L.published
  ordered  : s.pending.Pairwise Before
  session  : ∀ i, s.decoder.session = some i → i ≤ s.stream.session
  bound    : s.decoder.snapshot.generation ≤ s.generation
  totals   : s.decoder.snapshot.totalReceivedSamples = allSamples L.ingested
  read     : ∀ progress dirty, s.phase = .progressRead progress dirty →
    progress.generation ≤ s.generation ∧ (progress.generation = s.generation →
      progress.live = false → progress = s.stream.progress)
  earlier  : ∀ g, L.taken g → g ≤ s.generation
  mode     : Mode L s

/-! ## Section 4: Steps of the producer -/

/-- The ledger after a step of the producer. -/
def Ledger.produce (L : Ledger) (o : Produced) : Ledger :=
  { L with
    published := L.published ++ o.published
    accepted := L.accepted ++ o.accepted
    refused := L.refused ++ o.dropped }

section

variable {L : Ledger} {s : State} {stream : CaptureStream} {p : ProducerStep} {o : Produced}

theorem Inv.le_generation (h : Inv L s) {block : CaptureBlock} (hblock : block ∈ L.accepted) :
    block.sourceGeneration ≤ s.generation := h.counted.le_generation (h.subset block hblock)

theorem Inv.ingested_mem (h : Inv L s) {block : CaptureBlock} (hblock : block ∈ L.ingested) :
    block ∈ L.accepted := by
  rw [h.accepted]
  exact List.mem_append_left _ hblock

theorem Inv.pending_mem (h : Inv L s) {block : CaptureBlock} (hblock : block ∈ s.pending) :
    block ∈ L.accepted := by
  rw [h.accepted]
  exact List.mem_append_right _ hblock

/-- While a producer is at work no session starts. -/
theorem Produces.same_session {s s' : CaptureStream} (h : Produces s p s' o) (hkept : Kept s s' o)
    (hbusy : s.producer ≠ none) :
    s'.session = s.session ∧ s'.progress.generation = s.progress.generation := by
  have hsession : s'.session = s.session := by
    cases h with
    | start hidle => exact absurd hidle hbusy
    | acquire => rfl
    | send => exact (send_fst ..).1
    | store => rfl
    | finish => rfl
  refine ⟨hsession, ?_⟩
  unfold progress
  rw [hsession]
  exact hkept.generation _ le_rfl

/-- **A step of the producer.** -/
theorem Inv.produce (hinv : Inv L s) (hstep : Produces s.stream p stream o) :
    Inv (L.produce o) { s with stream := stream } := by
  have hkept := hinv.counted.sound.kept hstep
  obtain ⟨q, hq⟩ := Option.isSome_iff_exists.1 hinv.input
  obtain ⟨q', hq', hitems, -⟩ := hstep.queue hq
  have hpending : State.pending { s with stream := stream } = s.pending ++ o.accepted := by
    simp [State.pending, hq, hq', hitems]
  have haccepted : ∀ block ∈ o.accepted, block ∈ o.published := by
    cases o with
    | sent block => exact fun _ h => h
    | silent => exact fun _ h => h
    | refused block => exact fun _ h => absurd h List.not_mem_nil
  have hcounted := hinv.counted.produce hinv.input hstep
  have hgeneration : s.generation ≤ stream.progress.generation := by
    have hsame := hkept.generation s.stream.session le_rfl
    obtain hcurrent | hlt := Nat.eq_or_lt_of_le hkept.session
    · show (s.stream.sessions s.stream.session).generation ≤ (stream.sessions stream.session).generation
      rw [← hcurrent, hsame]
    · have hless := hkept.sound.ordered _ hlt
      rw [hsame] at hless
      exact hless.le
  refine ⟨hcounted, by simp [hq'], ?_, ?_, ?_, ?_, ?_, ?_, ?_, hinv.totals, ?_, ?_, ?_⟩
  · rw [hpending]
    show L.accepted ++ o.accepted = L.ingested ++ _
    rw [hinv.accepted, List.append_assoc]
  · intro block hblock
    obtain hold | hnew := List.mem_append.1 hblock
    · exact List.mem_append_left _ (hinv.subset block hold)
    · exact List.mem_append_right _ (haccepted block hnew)
  · intro g
    have hsplit := hinv.split g
    show samplesOf g (L.published ++ o.published) =
      samplesOf g (L.accepted ++ o.accepted) + samplesOf g (L.refused ++ o.dropped)
    rw [samplesOf_append, samplesOf_append, samplesOf_append, hsplit]
    cases o with
    | silent => rfl
    | sent block => simp [Produced.published, Produced.accepted, Produced.dropped]; omega
    | refused block => simp [Produced.published, Produced.accepted, Produced.dropped]; omega
  · have hfewer := hinv.fewer
    show allSamples (L.accepted ++ o.accepted) ≤ allSamples (L.published ++ o.published)
    rw [allSamples_append, allSamples_append]
    cases o with
    | silent => exact hfewer
    | sent block => simp [Produced.published, Produced.accepted]; omega
    | refused block => simp [Produced.published, Produced.accepted]; omega
  · rw [hpending, List.pairwise_append]
    refine ⟨hinv.ordered, ?_, fun a ha b hb => ?_⟩
    · cases o with
      | silent => exact .nil
      | sent block => exact List.pairwise_singleton ..
      | refused block => exact .nil
    · obtain ⟨hcurrent, hindex, -⟩ := hinv.counted.continues hstep (haccepted b hb)
      have hmem := hinv.subset a (hinv.pending_mem ha)
      refine ⟨?_, fun heq => ?_⟩
      · rw [hcurrent]
        exact hinv.counted.le_generation hmem
      · rw [hindex]
        exact hinv.counted.fits a hmem (heq.trans hcurrent)
  · intro i hi
    exact (hinv.session i hi).trans hkept.session
  · exact hinv.bound.trans hgeneration
  · intro progress dirty hphase
    obtain ⟨hle, hread⟩ := hinv.read progress dirty hphase
    refine ⟨hle.trans hgeneration, fun heq hended => ?_⟩
    by_cases hidle : s.stream.producer = none
    · cases hstep with
      | @start generation _ hless =>
        have hnew : (s.stream.start generation).progress.generation = generation := by
          rw [start_progress]
        have heq' : progress.generation = (s.stream.start generation).progress.generation := heq
        have hle' : progress.generation ≤ s.stream.progress.generation := hle
        omega
      | acquire hp | send hp | store hp | finish hp =>
        rw [hidle] at hp
        cases hp
    · obtain ⟨-, hsame⟩ := Produces.same_session hstep hkept hidle
      have hcurrent := hread (heq.trans hsame) hended
      rw [hcurrent] at hended
      exact absurd (hinv.counted.idle_iff.2 hended) hidle
  · intro g hg
    exact (hinv.earlier g hg).trans hgeneration
  · by_cases hidle : s.stream.producer = none
    · cases hstep with
      | @start generation _ hless =>
        -- nothing is known of a generation that begins
        have hnew : State.generation { s with stream := s.stream.start generation } = generation := by
          show (s.stream.start generation).progress.generation = generation
          rw [start_progress]
        have hold : s.generation < generation := hless
        left
        refine ⟨fun _ => ?_, fun block hblock => ?_, fun htaken => ?_⟩
        · rw [hnew]
          have hbound := hinv.bound
          show s.decoder.snapshot.generation ≠ generation
          omega
        · rw [hnew]
          have hle := hinv.le_generation (hinv.ingested_mem hblock)
          omega
        · rw [hnew] at htaken
          have hle := hinv.earlier generation htaken
          omega
      | acquire hp | send hp | store hp | finish hp =>
        rw [hidle] at hp
        cases hp
    · obtain ⟨hsession, hsame⟩ := Produces.same_session hstep hkept hidle
      have hsame' : State.generation { s with stream := stream } = s.generation := hsame
      have htaken : (L.produce o).taken = L.taken := rfl
      obtain hmode | hmode | hmode | hmode := hinv.mode
      · left
        refine ⟨?_, ?_, ?_⟩
        · rw [hsame']
          exact hmode.generation
        · rw [hsame']
          exact hmode.ingested
        · rw [hsame', htaken]
          exact hmode.taken
      · right
        left
        have hrunning : s.decoder.snapshot.complete = false := by
          by_contra hended
          exact hidle (hmode.ended (by simpa using hended)).1.idle
        refine ⟨?_, ?_, ?_, ?_, ?_, hmode.running, fun hended => ?_, ?_⟩
        · rw [hsame']
          exact hmode.generation
        · show s.decoder.session = some stream.session
          rw [hsession]
          exact hmode.session
        · rw [hsame']
          exact hmode.received
        · rw [hsame']
          show _ ≤ samplesOf s.generation (L.published ++ o.published)
          rw [samplesOf_append]
          exact hmode.next.trans (Nat.le_add_right ..)
        · rw [hsame', hpending]
          intro block hblock
          obtain hold | hnew := List.mem_append.1 hblock
          · exact hmode.pending block hold
          · obtain ⟨hcurrent, hindex, -⟩ := hinv.counted.continues hstep (haccepted block hnew)
            exact ⟨hcurrent, hmode.next.trans hindex.ge⟩
        · rw [show s.decoder.snapshot.complete = true from hended] at hrunning
          cases hrunning
        · rw [hsame', htaken]
          exact hmode.taken
      · exact absurd hmode.ended.idle hidle
      · exact absurd hmode.idle hidle

end

/-! ## Section 5: Steps of the worker -/

/-- The step changes nothing of what the accounts rest on. -/
structure Quiet (s s' : State) : Prop where
  stream        : ∃ q, s'.stream = { s.stream with input := some q }
  pending       : s'.pending = s.pending
  session       : s'.decoder.session = s.decoder.session
  next          : s'.decoder.nextStreamSample = s.decoder.nextStreamSample
  generation    : s'.decoder.snapshot.generation = s.decoder.snapshot.generation
  complete      : s'.decoder.snapshot.complete = s.decoder.snapshot.complete
  received      : s'.decoder.snapshot.receivedSamples = s.decoder.snapshot.receivedSamples
  lost          : s'.decoder.snapshot.lostSamples = s.decoder.snapshot.lostSamples
  source        : s'.decoder.snapshot.sourceSamples = s.decoder.snapshot.sourceSamples
  totalReceived : s'.decoder.snapshot.totalReceivedSamples = s.decoder.snapshot.totalReceivedSamples
  epoch         : s.decoder.snapshot.epoch = none → s'.decoder.snapshot.epoch = none
  shown         : Shown s → Shown s'
  visible       : s.stream.progress.samples ≤ s.decoder.snapshot.lostSamples →
    0 < s.decoder.snapshot.receivedSamples →
    (s.phase.dirty = true ∨
      s.stream.progress.samples < s.output.receivedSamples + s.output.lostSamples) →
    s'.phase.dirty = true ∨
      s.stream.progress.samples < s'.output.receivedSamples + s'.output.lostSamples
  read          : ∀ progress dirty, s'.phase = .progressRead progress dirty →
    progress.generation ≤ s.generation ∧
      (progress.generation = s.generation → progress = s.stream.progress)

theorem Counted.of_input {sent : List CaptureBlock} {s : CaptureStream} (h : Counted sent s)
    (input : Option Subscription) : Counted sent { s with input := input } :=
  ⟨h.sound.of_input input, h.unused, h.blocks, h.fits, h.stage, h.total⟩

section

variable {L : Ledger} {s s' : State}

theorem Ended.quiet (h : Ended s) (hcounted : Counted L.published s.stream) (hquiet : Quiet s s') :
    Ended s' := by
  obtain ⟨q, hstream⟩ := hquiet.stream
  have hprogress : s'.stream.progress = s.stream.progress := by
    rw [hstream]
    rfl
  have hgeneration : s'.generation = s.generation := by
    unfold State.generation
    rw [hprogress]
  refine ⟨?_, ?_, fun progress dirty hphase heq => ?_, hquiet.shown h.shown⟩
  · rw [hstream]
    exact h.idle
  · rw [hquiet.source, hprogress]
    exact h.source
  · rw [(hquiet.read progress dirty hphase).2 (heq.trans hgeneration)]
    exact hcounted.idle_iff.1 h.idle

/-- **A quiet step** keeps the accounts. -/
theorem Inv.quiet (hinv : Inv L s) (hquiet : Quiet s s') : Inv L s' := by
  obtain ⟨q, hstream⟩ := hquiet.stream
  have hcounted : Counted L.published s'.stream := by
    rw [hstream]
    exact hinv.counted.of_input (some q)
  have hprogress : s'.stream.progress = s.stream.progress := by
    rw [hstream]
    rfl
  have hsession : s'.stream.session = s.stream.session := by rw [hstream]
  have hgeneration : s'.generation = s.generation := by
    unfold State.generation
    rw [hprogress]
  have hidle : s'.stream.producer = s.stream.producer := by rw [hstream]
  refine ⟨hcounted, by rw [hstream]; rfl, ?_, hinv.subset, hinv.split, hinv.fewer, ?_, ?_, ?_, ?_,
    ?_, ?_, ?_⟩
  · rw [hquiet.pending]
    exact hinv.accepted
  · rw [hquiet.pending]
    exact hinv.ordered
  · rw [hquiet.session, hsession]
    exact hinv.session
  · rw [hquiet.generation, hgeneration]
    exact hinv.bound
  · rw [hquiet.totalReceived]
    exact hinv.totals
  · intro progress dirty hphase
    obtain ⟨hle, hread⟩ := hquiet.read progress dirty hphase
    rw [hgeneration, hprogress]
    exact ⟨hle, fun heq _ => hread heq⟩
  · rw [hgeneration]
    exact hinv.earlier
  -- the worker stays in the mode it is in: all that a mode reads is unchanged
  · obtain hmode | hmode | hmode | hmode := hinv.mode
    · left
      refine ⟨?_, ?_, ?_⟩
      · rw [hquiet.generation, hgeneration]
        exact hmode.generation
      · rw [hgeneration]
        exact hmode.ingested
      · rw [hgeneration]
        exact hmode.taken
    · right
      left
      refine ⟨?_, ?_, ?_, ?_, ?_, ?_, ?_, ?_⟩
      · rw [hquiet.generation, hgeneration]
        exact hmode.generation
      · rw [hquiet.session, hsession]
        exact hmode.session
      · rw [hquiet.received, hgeneration]
        exact hmode.received
      · rw [hquiet.next, hgeneration]
        exact hmode.next
      · rw [hquiet.pending, hquiet.next, hgeneration]
        exact hmode.pending
      · rw [hquiet.complete, hquiet.received, hquiet.lost, hquiet.next]
        exact hmode.running
      · rw [hquiet.complete, hquiet.pending, hquiet.received, hquiet.lost, hprogress]
        intro hcomplete
        obtain ⟨hended, hrest⟩ := hmode.ended hcomplete
        exact ⟨hended.quiet hinv.counted hquiet, hrest⟩
      · rw [hgeneration]
        exact hmode.taken
    · right
      right
      left
      refine ⟨?_, ?_, ?_, ?_, ?_, ?_, hmode.ended.quiet hinv.counted hquiet, ?_⟩
      · rw [hquiet.generation, hgeneration]
        exact hmode.generation
      · rw [hquiet.complete]
        exact hmode.complete
      · rw [hquiet.received]
        exact hmode.received
      · rw [hquiet.lost, hprogress]
        exact hmode.lost
      · rw [hgeneration]
        exact hmode.ingested
      · rw [hquiet.pending, hgeneration]
        exact hmode.pending
      · rw [hgeneration]
        exact hmode.taken
    · right
      right
      right
      refine ⟨?_, ?_, ?_, ?_, ?_, ?_, ?_⟩
      · rw [hquiet.generation, hgeneration]
        exact hmode.generation
      · rw [hidle]
        exact hmode.idle
      · rw [hprogress, hquiet.lost]
        exact hmode.lost
      · rw [hquiet.pending, hgeneration]
        exact hmode.pending
      · rw [hquiet.received, hquiet.pending]
        intro hnone
        obtain ⟨hleft, hepoch⟩ := hmode.fresh hnone
        exact ⟨hleft, hquiet.epoch hepoch⟩
      · rw [hquiet.received, hprogress]
        intro hpos
        exact hquiet.visible hmode.lost hpos (hmode.shown hpos)
      · rw [hgeneration]
        exact hmode.taken

end

/-! ## Section 6: Where the accounts change -/

section

variable {L : Ledger} {s : State}

/-- The ledger after a block was counted. -/
def Ledger.ingest (L : Ledger) (block : CaptureBlock) : Ledger :=
  { L with ingested := L.ingested ++ [block] }

/-- The figures after a block was counted. -/
theorem count_figures (d : DecoderState) (block : CaptureBlock) :
    (d.count block).1.snapshot.generation = d.snapshot.generation ∧
    (d.count block).1.session = d.session ∧
    (d.count block).1.nextStreamSample = block.next ∧
    (d.count block).1.snapshot.complete = false ∧
    (d.count block).1.snapshot.receivedSamples = d.snapshot.receivedSamples + block.count ∧
    (d.count block).1.snapshot.lostSamples =
      d.snapshot.lostSamples + (block.streamSampleIndex - d.nextStreamSample) ∧
    (d.count block).1.snapshot.totalReceivedSamples =
      d.snapshot.totalReceivedSamples + block.count ∧
    (d.snapshot.epoch = none → (d.count block).2 = true) := by
  refine ⟨rfl, rfl, rfl, rfl, rfl, rfl, rfl, fun hepoch => ?_⟩
  simp [DecoderState.count, hepoch]

/-- The account of a session leaves the count of what was received alone. -/
theorem accountProgress_figures (d : DecoderState) (progress : CaptureProgress)
    (queued drops : ℕ) :
    (d.accountProgress progress queued drops).1.snapshot.generation = d.snapshot.generation ∧
    (d.accountProgress progress queued drops).1.session = d.session ∧
    (d.accountProgress progress queued drops).1.snapshot.receivedSamples =
      d.snapshot.receivedSamples ∧
    (d.accountProgress progress queued drops).1.snapshot.totalReceivedSamples =
      d.snapshot.totalReceivedSamples ∧
    d.snapshot.lostSamples ≤ (d.accountProgress progress queued drops).1.snapshot.lostSamples ∧
    (d.accountProgress progress queued drops).1.snapshot.epoch = d.snapshot.epoch := by
  unfold DecoderState.accountProgress
  dsimp only
  split
  · exact ⟨rfl, rfl, rfl, rfl, le_rfl, rfl⟩
  · split
    · exact ⟨rfl, rfl, rfl, rfl, Nat.le_add_right .., rfl⟩
    · exact ⟨rfl, rfl, rfl, rfl, le_rfl, rfl⟩

/-- The figures with the first block of a generation. -/
theorem begin_figures (d : DecoderState) (sessions : ℕ → CaptureProgress) (block : CaptureBlock) :
    (d.begin sessions block).snapshot.generation = block.sourceGeneration ∧
    (d.begin sessions block).session = some block.session ∧
    (d.begin sessions block).nextStreamSample = 0 ∧
    (d.begin sessions block).snapshot.receivedSamples = 0 ∧
    (d.begin sessions block).snapshot.lostSamples = 0 ∧
    (d.begin sessions block).snapshot.totalReceivedSamples =
      d.snapshot.totalReceivedSamples := by
  refine ⟨rfl, rfl, rfl, rfl, rfl, ?_⟩
  unfold DecoderState.begin
  dsimp only
  split
  · rfl
  · exact (accountProgress_figures ..).2.2.2.1

/-- The first block of the last generation is counted. -/
theorem Waiting.begin {s' : State} {block : CaptureBlock} {rest : List CaptureBlock}
    {boundary : Bool} (hinv : Inv L s) (hmode : Waiting L s) (hpending : s.pending = block :: rest)
    (hcurrent : block.sourceGeneration = s.generation)
    (hingest : s.decoder.ingest s.stream.sessions block = (s'.decoder, boundary))
    (hstream : s'.stream = s.stream) (hrest : s'.pending = rest) :
    Following (L.ingest block) s' := by
  have hmem : block ∈ L.published := hinv.subset block (hinv.pending_mem (by simp [hpending]))
  -- the decoder is still at an earlier generation, so the block begins a new one
  have hne : s.decoder.snapshot.generation ≠ block.sourceGeneration := by
    rw [hcurrent]
    refine hmode.generation fun hzero => ?_
    rw [(hinv.counted.unused hzero).2] at hmem
    cases hmem
  have heq : (s.decoder.begin s.stream.sessions block).count block = (s'.decoder, boundary) := by
    rw [← hingest, DecoderState.ingest, if_pos hne]
  obtain ⟨hgeneration, hsession, hnext, hcomplete, hreceived, hlost, -⟩ :=
    count_figures (s.decoder.begin s.stream.sessions block) block
  rw [heq] at hgeneration hsession hnext hcomplete hreceived hlost
  dsimp only at hgeneration hsession hnext hcomplete hreceived hlost
  obtain ⟨hgeneration', hsession', hnext', hreceived', hlost', -⟩ :=
    begin_figures s.decoder s.stream.sessions block
  have hsame : s'.generation = s.generation := by
    unfold State.generation
    rw [hstream]
  have hordered := hinv.ordered
  rw [hpending, List.pairwise_cons] at hordered
  refine ⟨?_, ?_, ?_, ?_, ?_, fun _ => ?_, fun hended => ?_, ?_⟩
  · rw [hgeneration, hgeneration', hsame, hcurrent]
  · obtain ⟨hle, hown, -⟩ := hinv.counted.blocks block hmem
    rw [hsession, hsession', hstream,
      hinv.counted.session_eq hle (hown.symm.trans hcurrent)]
  · show _ = samplesOf s'.generation (L.ingested ++ [block])
    rw [hreceived, hreceived', hsame, samplesOf_append, samplesOf_singleton, if_pos hcurrent,
      samplesOf_eq_zero hmode.ingested]
  · rw [hnext, hsame]
    exact hinv.counted.fits block hmem hcurrent
  · rw [hrest, hnext, hsame]
    intro b hb
    obtain ⟨hle, hindex⟩ := hordered.1 b hb
    have hmem : b ∈ s.pending := by simp [hpending, hb]
    have hbound := hinv.le_generation (hinv.pending_mem hmem)
    have hsame' : b.sourceGeneration = s.generation := by omega
    exact ⟨hsame', hindex (hcurrent.trans hsame'.symm)⟩
  · rw [hreceived, hlost, hreceived', hlost', hnext', hnext]
    unfold CaptureBlock.next
    omega
  · rw [hcomplete] at hended
    cases hended
  · rw [hsame]
    exact hmode.taken

/-- A block more of the last generation is counted. -/
theorem Following.count {s' : State} {block : CaptureBlock} {rest : List CaptureBlock}
    {boundary : Bool} (hinv : Inv L s) (hmode : Following L s)
    (hpending : s.pending = block :: rest)
    (hingest : s.decoder.ingest s.stream.sessions block = (s'.decoder, boundary))
    (hstream : s'.stream = s.stream) (hrest : s'.pending = rest) :
    Following (L.ingest block) s' := by
  have hmem : block ∈ L.published := hinv.subset block (hinv.pending_mem (by simp [hpending]))
  obtain ⟨hcurrent, hindex⟩ := hmode.pending block (by simp [hpending])
  have heq : s.decoder.count block = (s'.decoder, boundary) := by
    rw [← hingest, DecoderState.ingest, if_neg]
    rw [hcurrent, hmode.generation]
    simp
  obtain ⟨hgeneration, hsession, hnext, hcomplete, hreceived, hlost, -⟩ :=
    count_figures s.decoder block
  rw [heq] at hgeneration hsession hnext hcomplete hreceived hlost
  dsimp only at hgeneration hsession hnext hcomplete hreceived hlost
  have hsame : s'.generation = s.generation := by
    unfold State.generation
    rw [hstream]
  have hordered := hinv.ordered
  rw [hpending, List.pairwise_cons] at hordered
  -- a session that has been completed has nothing pending, so this one has not
  have hrunning : s.decoder.snapshot.receivedSamples + s.decoder.snapshot.lostSamples =
      s.decoder.nextStreamSample := by
    apply hmode.running
    by_contra hended
    have hnil := (hmode.ended (by simpa using hended)).2.1
    rw [hpending] at hnil
    cases hnil
  refine ⟨?_, ?_, ?_, ?_, ?_, fun _ => ?_, fun hended => ?_, ?_⟩
  · rw [hgeneration, hsame]
    exact hmode.generation
  · rw [hsession, hstream]
    exact hmode.session
  · show _ = samplesOf s'.generation (L.ingested ++ [block])
    rw [hreceived, hmode.received, hsame, samplesOf_append, samplesOf_singleton, if_pos hcurrent]
  · rw [hnext, hsame]
    exact hinv.counted.fits block hmem hcurrent
  · rw [hrest, hnext, hsame]
    intro b hb
    obtain ⟨hcurrent', -⟩ := hmode.pending b (by simp [hpending, hb])
    exact ⟨hcurrent', (hordered.1 b hb).2 (hcurrent.trans hcurrent'.symm)⟩
  · rw [hreceived, hlost, hnext]
    unfold CaptureBlock.next
    omega
  · rw [hcomplete] at hended
    cases hended
  · rw [hsame]
    exact hmode.taken

/-- A block of a generation that was taken for lost is counted. -/
theorem Raced.count {s' : State} {block : CaptureBlock} {rest : List CaptureBlock}
    {boundary : Bool} (hinv : Inv L s) (hmode : Raced L s)
    (hpending : s.pending = block :: rest)
    (hingest : s.decoder.ingest s.stream.sessions block = (s'.decoder, boundary))
    (hstream : s'.stream = s.stream) (houtput : s'.output = s.output)
    (hdirty : s'.phase.dirty = (s.phase.dirty || boundary)) (hrest : s'.pending = rest) :
    Raced (L.ingest block) s' := by
  have hmem : block ∈ L.published := hinv.subset block (hinv.pending_mem (by simp [hpending]))
  have hcurrent := hmode.pending block (by simp [hpending])
  have heq : s.decoder.count block = (s'.decoder, boundary) := by
    rw [← hingest, DecoderState.ingest, if_neg]
    rw [hcurrent, hmode.generation]
    simp
  obtain ⟨hgeneration, -, -, -, hreceived, hlost, -, hboundary⟩ := count_figures s.decoder block
  rw [heq] at hgeneration hreceived hlost hboundary
  dsimp only at hgeneration hreceived hlost hboundary
  have hsame : s'.generation = s.generation := by
    unfold State.generation
    rw [hstream]
  have hpos := (hinv.counted.blocks block hmem).2.2
  refine ⟨?_, ?_, ?_, ?_, fun hnone => ?_, fun _ => ?_, ?_⟩
  · rw [hgeneration, hsame]
    exact hmode.generation
  · rw [hstream]
    exact hmode.idle
  · rw [hstream, hlost]
    exact hmode.lost.trans (Nat.le_add_right ..)
  · rw [hrest, hsame]
    intro b hb
    exact hmode.pending b (by simp [hpending, hb])
  · omega
  · rw [hstream, houtput, hdirty]
    -- the first block is a boundary and so it is shown; after that what is dirty stays so
    by_cases hfirst : s.decoder.snapshot.receivedSamples = 0
    · left
      rw [hboundary (hmode.fresh hfirst).2, Bool.or_true]
    · obtain hold | hold := hmode.shown (by omega)
      · left
        rw [hold, Bool.true_or]
      · exact .inr hold
  · rw [hsame]
    exact hmode.taken

/-- **A block is counted.** -/
theorem Inv.ingest {block : CaptureBlock} {dirty boundary : Bool} {decoder : DecoderState}
    (hinv : Inv L s) (hphase : s.phase = .received (some block) dirty)
    (hingest : s.decoder.ingest s.stream.sessions block = (decoder, boundary)) :
    Inv (L.ingest block)
      { s with decoder := decoder, phase := .ingested (dirty || boundary) } := by
  generalize hs' : ({ s with decoder := decoder, phase := .ingested (dirty || boundary) } : State) = s'
  have hdecoder : s'.decoder = decoder := by rw [← hs']
  have hstream : s'.stream = s.stream := by rw [← hs']
  have hphase' : s'.phase = .ingested (dirty || boundary) := by rw [← hs']
  have hpending : s.pending = block :: s'.pending := by
    rw [← hs']
    simp [State.pending, hphase, Phase.hand]
  have hsame : s'.generation = s.generation := by
    unfold State.generation
    rw [hstream]
  rw [← hdecoder] at hingest
  have haccepted : block ∈ L.accepted := hinv.pending_mem (by simp [hpending])
  have hbound := hinv.le_generation haccepted
  obtain ⟨hle, -, -⟩ := hinv.counted.blocks block (hinv.subset block haccepted)
  -- what does not depend on whether the generation is new
  obtain ⟨hgeneration, hsession, htotals⟩ :
      s'.decoder.snapshot.generation = block.sourceGeneration ∧
        (∀ i, s'.decoder.session = some i → i ≤ s.stream.session) ∧
        s'.decoder.snapshot.totalReceivedSamples =
          s.decoder.snapshot.totalReceivedSamples + block.count := by
    unfold DecoderState.ingest at hingest
    split at hingest
    · obtain ⟨hgeneration, hsession, -, -, -, -, htotals, -⟩ :=
        count_figures (s.decoder.begin s.stream.sessions block) block
      rw [hingest] at hgeneration hsession htotals
      obtain ⟨hgeneration', hsession', -, -, -, htotals'⟩ :=
        begin_figures s.decoder s.stream.sessions block
      refine ⟨hgeneration.trans hgeneration', fun i hi => ?_, htotals.trans (by rw [htotals'])⟩
      obtain rfl : block.session = i := Option.some.inj ((hsession.trans hsession').symm.trans hi)
      exact hle
    · next hgen =>
      obtain ⟨hgeneration, hsession, -, -, -, -, htotals, -⟩ := count_figures s.decoder block
      rw [hingest] at hgeneration hsession htotals
      refine ⟨hgeneration.trans (not_not.1 hgen), fun i hi => ?_, htotals⟩
      exact hinv.session i (hsession.symm.trans hi)
  have hordered := hinv.ordered
  rw [hpending, List.pairwise_cons] at hordered
  refine ⟨hstream ▸ hinv.counted, hstream ▸ hinv.input, ?_, hinv.subset, hinv.split, hinv.fewer,
    hordered.2, hstream ▸ hsession, ?_, ?_, ?_, ?_, ?_⟩
  · show L.accepted = L.ingested ++ [block] ++ s'.pending
    rw [hinv.accepted, hpending, List.append_assoc]
    rfl
  · rw [hgeneration, hsame]
    exact hbound
  · show _ = allSamples (L.ingested ++ [block])
    rw [htotals, hinv.totals, allSamples_append, allSamples_singleton]
  · intro progress dirty' hread
    rw [hphase'] at hread
    cases hread
  · rw [hsame]
    exact hinv.earlier
  · have hwaiting (hne : block.sourceGeneration ≠ s.generation)
        (hnone : ∀ b ∈ L.ingested, b.sourceGeneration ≠ s.generation)
        (htaken : ¬L.taken s.generation) : Waiting (L.ingest block) s' := by
      refine ⟨fun _ => ?_, ?_, ?_⟩
      · rw [hgeneration, hsame]
        exact hne
      · rw [hsame]
        intro b hb
        obtain hold | hnew := List.mem_append.1 hb
        · exact hnone b hold
        · rw [List.mem_singleton.1 hnew]
          exact hne
      · rw [hsame]
        exact htaken
    obtain hmode | hmode | hmode | hmode := hinv.mode
    · by_cases hcurrent : block.sourceGeneration = s.generation
      · exact .inr (.inl (hmode.begin hinv hpending hcurrent hingest hstream rfl))
      · exact .inl (hwaiting hcurrent hmode.ingested hmode.taken)
    · exact .inr (.inl (hmode.count hinv hpending hingest hstream rfl))
    · have hne := hmode.pending block (by rw [hpending]; rfl)
      exact .inl (hwaiting hne hmode.ingested hmode.taken)
    · refine .inr (.inr (.inr (hmode.count hinv hpending hingest hstream ?_ ?_ rfl)))
      · rw [← hs']
      · rw [hphase', hphase]
        rfl

/-- What the account of a session can do. -/
theorem accountProgress_cases (d : DecoderState) (progress : CaptureProgress)
    (queued drops : ℕ) :
    ((d.accountProgress progress queued drops).2 = true ∧ queued = 0 ∧ progress.live = false ∧
      progress.generation = d.snapshot.generation ∧
      (d.accountProgress progress queued drops).1.snapshot.complete = true ∧
      (d.accountProgress progress queued drops).1.snapshot.sourceSamples = progress.samples ∧
      (d.accountProgress progress queued drops).1.nextStreamSample = progress.samples ∧
      d.snapshot.complete = false ∧
      (d.accountProgress progress queued drops).1.snapshot.lostSamples =
        d.snapshot.lostSamples + (progress.samples - d.nextStreamSample)) ∨
    ((d.accountProgress progress queued drops).2 = false ∧
      (d.accountProgress progress queued drops).1.snapshot.complete = d.snapshot.complete ∧
      (d.accountProgress progress queued drops).1.nextStreamSample = d.nextStreamSample ∧
      (d.accountProgress progress queued drops).1.snapshot.lostSamples = d.snapshot.lostSamples ∧
      (d.accountProgress progress queued drops).1.snapshot.totalLostSamples =
        d.snapshot.totalLostSamples ∧
      ((d.accountProgress progress queued drops).1.snapshot.sourceSamples =
          d.snapshot.sourceSamples ∨
        progress.generation = d.snapshot.generation ∧
        (d.accountProgress progress queued drops).1.snapshot.sourceSamples =
          progress.samples)) := by
  unfold DecoderState.accountProgress
  dsimp only
  split
  · exact .inr ⟨rfl, rfl, rfl, rfl, rfl, .inl rfl⟩
  · next hgeneration =>
    rw [not_or, not_not] at hgeneration
    split
    · next hend =>
      exact .inl ⟨rfl, hend.2.1, hend.1, hgeneration.2, rfl, rfl, rfl, hend.2.2, rfl⟩
    · exact .inr ⟨rfl, rfl, rfl, rfl, rfl, .inr ⟨hgeneration.2, rfl⟩⟩

/-- What was shown before a session was accounted for is shown after it. -/
theorem Ended.account {s' : State} {progress : CaptureProgress} {dirty finished : Bool}
    {decoder : DecoderState} {queued drops : ℕ} (hinv : Inv L s) (h : Ended s)
    (hgeneration : s.decoder.snapshot.generation = s.generation)
    (hcomplete : s.decoder.snapshot.complete = true)
    (hphase : s.phase = .progressRead progress dirty)
    (haccount : s.decoder.accountProgress progress queued drops = (decoder, finished))
    (hs' : s' = { s with decoder := decoder, phase := .accounted (dirty || finished) }) :
    Ended s' ∧ decoder.snapshot.complete = true ∧
      decoder.snapshot.lostSamples = s.decoder.snapshot.lostSamples := by
  obtain ⟨hgen, -, hreceived, htotals, -⟩ :=
    accountProgress_figures s.decoder progress queued drops
  have hcases := accountProgress_cases s.decoder progress queued drops
  rw [haccount] at hgen hreceived htotals hcases
  dsimp only at hgen hreceived htotals hcases
  obtain ⟨-, -, -, -, -, -, -, hnot, -⟩ | ⟨hfinished, hsame, hnext, hlost, htotal, hsource⟩ := hcases
  · rw [hcomplete] at hnot
    cases hnot
  · have hsource' : decoder.snapshot.sourceSamples = s.stream.progress.samples := by
      obtain hold | ⟨heq, hnew⟩ := hsource
      · rw [hold, h.source]
      · have hcurrent := heq.trans hgeneration
        have hended := h.read progress dirty hphase hcurrent
        rw [hnew, (hinv.read progress dirty hphase).2 hcurrent hended]
    subst hs'
    refine ⟨⟨h.idle, hsource', fun _ _ hread => (by cases hread), ?_⟩, hsame.trans hcomplete, hlost⟩
    obtain hdirty | hfigures := h.shown
    · left
      rw [hphase] at hdirty
      show (dirty || finished) = true
      rw [show dirty = true from hdirty, Bool.true_or]
    · right
      refine ⟨hfigures.generation.trans hgen.symm, hfigures.complete.trans hsame.symm,
        hfigures.received.trans hreceived.symm, hfigures.lost.trans hlost.symm, ?_,
        hfigures.totalReceived.trans htotals.symm, hfigures.totalLost.trans htotal.symm⟩
      show s.output.sourceSamples = decoder.snapshot.sourceSamples
      rw [hfigures.source, h.source, hsource']

/-- **A session is accounted for.** -/
theorem Inv.account {progress : CaptureProgress} {dirty finished : Bool} {decoder : DecoderState}
    {q : Subscription} (hinv : Inv L s) (hphase : s.phase = .progressRead progress dirty)
    (hq : s.stream.input = some q)
    (haccount : s.decoder.accountProgress progress q.queue.items.length q.dropped =
      (decoder, finished)) :
    Inv L { s with decoder := decoder, phase := .accounted (dirty || finished) } := by
  obtain ⟨hgen, hsession, hreceived, htotals, hless, hepoch⟩ :=
    accountProgress_figures s.decoder progress q.queue.items.length q.dropped
  have hcases := accountProgress_cases s.decoder progress q.queue.items.length q.dropped
  rw [haccount] at hgen hsession hreceived htotals hless hepoch hcases
  dsimp only at hgen hsession hreceived htotals hless hepoch hcases
  have hpending : State.pending
      { s with decoder := decoder, phase := .accounted (dirty || finished) } = s.pending := by
    simp [State.pending, hphase, Phase.hand]
  have hqueue : s.pending = q.queue.items := by simp [State.pending, hphase, Phase.hand, hq]
  have hdirty : s.phase.dirty = dirty := by rw [hphase]; rfl
  refine ⟨hinv.counted, hinv.input, ?_, hinv.subset, hinv.split, hinv.fewer, ?_, ?_, ?_, ?_,
    fun _ _ hread => (by cases hread), hinv.earlier, ?_⟩
  · rw [hpending]
    exact hinv.accepted
  · rw [hpending]
    exact hinv.ordered
  · intro i hi
    exact hinv.session i (hsession.symm.trans hi)
  · exact hgen.trans_le hinv.bound
  · exact htotals.trans hinv.totals
  · obtain hmode | hmode | hmode | hmode := hinv.mode
    · exact .inl ⟨fun hpos heq => hmode.generation hpos (hgen.symm.trans heq), hmode.ingested,
        hmode.taken⟩
    · right
      left
      refine ⟨hgen.trans hmode.generation, hsession.trans hmode.session,
        hreceived.trans hmode.received, ?_, ?_, fun hrunning => ?_, fun hended => ?_, hmode.taken⟩
      -- a session that has ended has come as far as all its samples
      · obtain ⟨-, -, hlive, heq, -, -, hnext, -⟩ | ⟨-, -, hnext, -⟩ := hcases
        · have hcurrent := (hinv.read progress dirty hphase).2 (heq.trans hmode.generation) hlive
          rw [hcurrent] at hnext hlive
          exact (hnext.trans (hinv.counted.samples_eq (hinv.counted.idle_iff.2 hlive))).le
        · exact hnext.trans_le hmode.next
      · rw [hpending]
        intro block hblock
        obtain ⟨-, hempty, -⟩ | ⟨-, -, hnext, -⟩ := hcases
        · rw [hqueue, List.eq_nil_of_length_eq_zero hempty] at hblock
          cases hblock
        · have hold := hmode.pending block hblock
          exact ⟨hold.1, hnext.trans_le hold.2⟩
      · obtain ⟨-, -, -, -, hcomplete, -⟩ | ⟨-, hsame, hnext, hlost, -⟩ := hcases
        · rw [show decoder.snapshot.complete = false from hrunning] at hcomplete
          cases hcomplete
        · show decoder.snapshot.receivedSamples + decoder.snapshot.lostSamples =
            decoder.nextStreamSample
          rw [hreceived, hlost, hnext]
          exact hmode.running (hsame.symm.trans hrunning)
      · rw [hpending]
        -- either the session is completed now, and the tail counts as lost, or it was complete
        -- before
        obtain ⟨hfinished, hempty, hlive, heq, -, hsource, hnext, hnot, hlost⟩ |
          ⟨-, hsame, -, -⟩ := hcases
        · have hcurrent := (hinv.read progress dirty hphase).2 (heq.trans hmode.generation) hlive
          rw [hcurrent] at hsource hnext hlost hlive
          have hidle := hinv.counted.idle_iff.2 hlive
          have hsamples := hinv.counted.samples_eq hidle
          refine ⟨⟨hidle, hsource, fun _ _ hread => (by cases hread), .inl ?_⟩, ?_, ?_⟩
          · show (dirty || finished) = true
            rw [hfinished, Bool.or_true]
          · rw [hqueue]
            exact List.eq_nil_of_length_eq_zero hempty
          · show decoder.snapshot.receivedSamples + decoder.snapshot.lostSamples =
              s.stream.progress.samples
            have hrunning := hmode.running hnot
            have hle : s.decoder.nextStreamSample ≤ s.stream.progress.samples := by
              rw [hsamples]
              exact hmode.next
            omega
        · have hcomplete : s.decoder.snapshot.complete = true := hsame.symm.trans hended
          obtain ⟨hold, hnil, hsum⟩ := hmode.ended hcomplete
          obtain ⟨hnew, -, hlost⟩ :=
            hold.account hinv hmode.generation hcomplete hphase haccount rfl
          refine ⟨hnew, hnil, ?_⟩
          show decoder.snapshot.receivedSamples + decoder.snapshot.lostSamples =
            s.stream.progress.samples
          rw [hreceived, hlost]
          exact hsum
    · right
      right
      left
      obtain ⟨hended, hcomplete, hlost⟩ :=
        hmode.ended.account hinv hmode.generation hmode.complete hphase haccount rfl
      refine ⟨hgen.trans hmode.generation, hcomplete, hreceived.trans hmode.received,
        hlost.trans hmode.lost, hmode.ingested, ?_, hended, hmode.taken⟩
      rw [hpending]
      exact hmode.pending
    · right
      right
      right
      refine ⟨hgen.trans hmode.generation, hmode.idle, hmode.lost.trans hless, ?_, fun hnone => ?_,
        fun hpos => ?_, hmode.taken⟩
      · rw [hpending]
        exact hmode.pending
      · obtain ⟨hleft, hold⟩ := hmode.fresh (hreceived.symm.trans hnone)
        rw [hpending]
        exact ⟨hleft, hepoch.trans hold⟩
      -- what was going to be shown still is: the flag is only ever set here
      · obtain hold | hold := hmode.shown (hpos.trans_eq hreceived)
        · left
          show (dirty || finished) = true
          rw [← hdirty, hold, Bool.true_or]
        · exact .inr hold

/-- **A generation is taken for lost.** -/
theorem Inv.lose {dirty : Bool} (hinv : Inv L s) (hphase : s.phase = .queueRead 0 dirty)
    (hended : s.stream.progress.live = false)
    (hne : s.stream.progress.generation ≠ s.decoder.snapshot.generation) (taken : ℕ → Prop)
    (htaken : ∀ g, taken g ↔ L.taken g ∨ g = s.generation ∧
      ∃ block rest, s.pending = block :: rest ∧ block.sourceGeneration = g) :
    Inv { L with taken := taken }
      { s with decoder := s.decoder.lose s.stream.progress, phase := .streamRead (dirty || true) } := by
  have hpending : State.pending { s with
      decoder := s.decoder.lose s.stream.progress
      phase := .streamRead (dirty || true) } = s.pending := by
    simp [State.pending, hphase, Phase.hand]
  have hidle := hinv.counted.idle_iff.2 hended
  have hwaiting : Waiting L s := by
    obtain hmode | hmode | hmode | hmode := hinv.mode
    · exact hmode
    · exact absurd hmode.generation.symm hne
    · exact absurd hmode.generation.symm hne
    · exact absurd hmode.generation.symm hne
  refine ⟨hinv.counted, hinv.input, ?_, hinv.subset, hinv.split, hinv.fewer, ?_, hinv.session,
    le_rfl, hinv.totals, fun _ _ hread => (by cases hread), fun g hg => ?_, ?_⟩
  · rw [hpending]
    exact hinv.accepted
  · rw [hpending]
    exact hinv.ordered
  · obtain hold | ⟨rfl, -⟩ := (htaken g).1 hg
    · exact hinv.earlier g hold
    · exact le_rfl
  · by_cases hhead : ∃ block rest, s.pending = block :: rest ∧
      block.sourceGeneration = s.generation
    · -- the oldest block of the queue is of the generation, and so are the others
      right
      right
      right
      refine ⟨rfl, hidle, le_rfl, ?_, fun _ => ?_, fun hpos => ?_,
        (htaken s.generation).2 (.inr ⟨rfl, hhead⟩)⟩
      · obtain ⟨block, rest, hblock, hcurrent⟩ := hhead
        have hordered := hinv.ordered
        rw [hpending]
        rw [hblock, List.pairwise_cons] at hordered
        intro b hb
        have hbound := hinv.le_generation (hinv.pending_mem hb)
        rw [hblock, List.mem_cons] at hb
        obtain rfl | hlater := hb
        · exact hcurrent
        · have hle := (hordered.1 b hlater).1
          show b.sourceGeneration = s.generation
          omega
      · rw [hpending]
        obtain ⟨block, rest, hblock, -⟩ := hhead
        refine ⟨fun hnil => ?_, rfl⟩
        rw [hblock] at hnil
        cases hnil
      · exact absurd hpos (lt_irrefl 0)
    · right
      right
      left
      refine ⟨rfl, rfl, rfl, rfl, hwaiting.ingested, ?_,
        ⟨hidle, rfl, fun _ _ hread => (by cases hread), .inl (Bool.or_true _)⟩, fun hg => ?_⟩
      · rw [hpending]
        intro block hblock hcurrent
        obtain ⟨rest, hrest⟩ := List.head?_eq_some_iff.1 hblock
        exact hhead ⟨block, rest, hrest, hcurrent⟩
      · obtain hold | ⟨-, hnew⟩ := (htaken _).1 hg
        · exact hwaiting.taken hold
        · exact hhead hnew

end

/-! ## Section 7: Every step -/

section

variable {s : State}

theorem SameFigures.refl (a : LocalAdsbSnapshot) : SameFigures a a :=
  ⟨rfl, rfl, rfl, rfl, rfl, rfl, rfl⟩

/-- The worker goes on to its next step. -/
theorem Quiet.next_phase {phase : Phase} {q : Subscription} (hq : s.stream.input = some q)
    (hhand : phase.hand = s.phase.hand) (hdirty : s.phase.dirty = true → phase.dirty = true)
    (hread : ∀ progress dirty, phase = .progressRead progress dirty →
      progress.generation ≤ s.generation ∧
        (progress.generation = s.generation → progress = s.stream.progress)) :
    Quiet s { s with phase := phase } := by
  refine ⟨⟨q, by rw [← hq]⟩, ?_, rfl, rfl, rfl, rfl, rfl, rfl, rfl, rfl, fun h => h, fun h => ?_,
    fun _ _ h => ?_, hread⟩
  · unfold State.pending
    rw [← hhand]
  · obtain hold | hold := h
    · exact .inl (hdirty hold)
    · exact .inr hold
  · obtain hold | hold := h
    · exact .inl (hdirty hold)
    · exact .inr hold

/-- A block is received, or the wait times out. -/
theorem Quiet.receive {q q' : Subscription} {block : Option CaptureBlock} {decoder : DecoderState}
    {configured : Option Bool} (hphase : s.phase = .receiving) (hq : s.stream.input = some q)
    (hitems : q.queue.items = block.toList ++ q'.queue.items)
    (hdecoder : decoder = if configured = some true then s.decoder.reset else s.decoder) :
    Quiet s { s with
      stream := { s.stream with input := some q' }
      decoder := decoder
      phase := .received block configured.isSome } := by
  have hclean : s.phase.dirty = false := by rw [hphase]; rfl
  have hsame : SameFigures s.decoder.snapshot decoder.snapshot ∧
      decoder.session = s.decoder.session ∧
      decoder.nextStreamSample = s.decoder.nextStreamSample ∧
      (s.decoder.snapshot.epoch = none → decoder.snapshot.epoch = none) := by
    rw [hdecoder]
    split
    · exact ⟨⟨rfl, rfl, rfl, rfl, rfl, rfl, rfl⟩, rfl, rfl, fun _ => rfl⟩
    · exact ⟨.refl _, rfl, rfl, fun h => h⟩
  obtain ⟨hfigures, hsession, hnext, hepoch⟩ := hsame
  refine ⟨⟨q', rfl⟩, ?_, hsession, hnext, hfigures.generation.symm, hfigures.complete.symm,
    hfigures.received.symm, hfigures.lost.symm, hfigures.source.symm, hfigures.totalReceived.symm,
    hepoch, fun h => ?_, fun _ _ h => ?_, fun _ _ hread => (by cases hread)⟩
  · cases block with
    | none => simpa [State.pending, hphase, hq, Phase.hand] using hitems.symm
    | some block => simpa [State.pending, hphase, hq, Phase.hand] using hitems.symm
  · obtain hold | hold := h
    · rw [hclean] at hold
      cases hold
    · exact .inr ⟨hold.generation.trans hfigures.generation, hold.complete.trans hfigures.complete,
        hold.received.trans hfigures.received, hold.lost.trans hfigures.lost,
        hold.source.trans hfigures.source, hold.totalReceived.trans hfigures.totalReceived,
        hold.totalLost.trans hfigures.totalLost⟩
  · obtain hold | hold := h
    · rw [hclean] at hold
      cases hold
    · exact .inr hold

/-- The total is accounted for. -/
theorem Quiet.account_total {q : Subscription} {dirty : Bool}
    (hphase : s.phase = .streamRead dirty) (hq : s.stream.input = some q) (total : ℕ) :
    Quiet s { s with
      decoder := (s.decoder.accountTotal total).1
      phase := .storing (dirty || (s.decoder.accountTotal total).2) } := by
  have hdirty : s.phase.dirty = dirty := by rw [hphase]; rfl
  refine ⟨⟨q, by rw [← hq]⟩, ?_, rfl, rfl, rfl, rfl, rfl, rfl, rfl, rfl, fun h => h, fun h => ?_,
    fun _ _ h => ?_, fun _ _ hread => (by cases hread)⟩
  · simp [State.pending, hphase, Phase.hand]
  · obtain hold | hold := h
    · left
      show (dirty || _) = true
      rw [← hdirty, hold, Bool.true_or]
    · by_cases hsame : total - s.decoder.snapshot.totalReceivedSamples =
          s.decoder.snapshot.totalLostSamples
      · exact .inr ⟨hold.generation, hold.complete, hold.received, hold.lost, hold.source,
          hold.totalReceived, hold.totalLost.trans hsame.symm⟩
      · left
        show (dirty || decide (_ ≠ _)) = true
        rw [decide_eq_true hsame, Bool.or_true]
  · obtain hold | hold := h
    · left
      show (dirty || _) = true
      rw [← hdirty, hold, Bool.true_or]
    · exact .inr hold

/-- The snapshot is stored, or left as it is. -/
theorem Quiet.store {q : Subscription} {dirty due : Bool} (hphase : s.phase = .storing dirty)
    (hq : s.stream.input = some q) :
    Quiet s { s with
      phase := .receiving
      output := if dirty || due then s.decoder.snapshot else s.output } := by
  have hdirty : s.phase.dirty = dirty := by rw [hphase]; rfl
  refine ⟨⟨q, by rw [← hq]⟩, ?_, rfl, rfl, rfl, rfl, rfl, rfl, rfl, rfl, fun h => h, fun h => ?_,
    fun hless hpos h => ?_, fun _ _ hread => (by cases hread)⟩
  · simp [State.pending, hphase, Phase.hand]
  · right
    show SameFigures (if dirty || due then s.decoder.snapshot else s.output) s.decoder.snapshot
    split
    · exact .refl _
    · next hnot =>
      obtain hold | hold := h
      · rw [hdirty] at hold
        simp [hold] at hnot
      · exact hold
  · right
    dsimp only
    split
    · omega
    · next hnot =>
      obtain hold | hold := h
      · rw [hdirty] at hold
        simp [hold] at hnot
      · exact hold

theorem ledger_append (h : List Event) (e : Event) : ledger (h ++ [e]) =
    { published := (ledger h).published ++ e.output.published
      accepted := (ledger h).accepted ++ e.output.accepted
      refused := (ledger h).refused ++ e.output.refused
      ingested := (ledger h).ingested ++ e.output.ingested?
      taken := fun g => (ledger h).taken g ∨ TakenForLost g e } := by
  simp [ledger, or_and_right, exists_or]

theorem not_taken_of_input {e : Event} (hinput : e.input ≠ .readStream) (g : ℕ) :
    ¬TakenForLost g e := by
  intro htaken
  obtain ⟨dirty, q, block, rest, heq, -⟩ := htaken
  exact hinput heq

/-- A step without an output that takes no generation for lost. -/
theorem ledger_silent {h : List Event} {e : Event} (houtput : e.output = .silent)
    (htaken : ∀ g, ¬TakenForLost g e) : ledger (h ++ [e]) = ledger h := by
  rw [ledger_append, houtput]
  simp [htaken, Output.published, Output.accepted, Output.refused, Output.ingested?]

/-- **Every step** keeps the accounts. -/
theorem Inv.step {h : List Event} {s s' : State} {i : Input} {o : Output} (hinv : Inv (ledger h) s)
    (hstep : step s i = some (s', o)) : Inv (ledger (h ++ [⟨s, i, o, s'⟩])) s' := by
  obtain ⟨q, hq⟩ := Option.isSome_iff_exists.1 hinv.input
  have hquiet (hsilent : o = .silent) (hinput : i ≠ .readStream) (h' : Quiet s s') :
      Inv (ledger (h ++ [⟨s, i, o, s'⟩])) s' := by
    rw [ledger_silent hsilent (not_taken_of_input hinput)]
    exact hinv.quiet h'
  cases i with
  | producer p =>
    obtain ⟨⟨stream, o'⟩, hproduce, heq⟩ := Option.map_eq_some_iff.1 hstep
    cases heq
    have hnext := hinv.produce (produces_of_produce hproduce)
    have hledger : ledger (h ++ [⟨s, .producer p, .produced o', { s with stream := stream }⟩]) =
        (ledger h).produce o' := by
      rw [ledger_append]
      simp [Ledger.produce, Output.published, Output.accepted, Output.refused, Output.ingested?,
        not_taken_of_input]
    rw [hledger]
    exact hnext
  | receive configured =>
    simp only [Adsb.step] at hstep
    split at hstep
    · next q' hphase hq' =>
      split at hstep
      · next block queue hrecv =>
        cases hstep
        refine hquiet rfl (by simp) (Quiet.receive hphase hq' ?_ rfl)
        rw [(BoundedQueue.tryRecv_eq_some hrecv).1]
        rfl
      · next hrecv =>
        cases hstep
        have hsame : s.stream = { s.stream with input := some q' } := by rw [← hq']
        rw [hsame]
        have h' : Quiet s { s with
            stream := { s.stream with input := some q' }
            decoder := if configured = some true then s.decoder.reset else s.decoder
            phase := .received none configured.isSome } := Quiet.receive hphase hq' rfl rfl
        rw [ledger_silent rfl (not_taken_of_input (by simp))]
        exact hinv.quiet h'
    · cases hstep
  | ingest =>
    simp only [Adsb.step] at hstep
    split at hstep
    · next block dirty hphase =>
      cases hstep
      have hledger (e : Event) (hinput : e.input = .ingest) (houtput : e.output = .ingested block) :
          ledger (h ++ [e]) = (ledger h).ingest block := by
        have htaken := not_taken_of_input (e := e) (by simp [hinput])
        rw [ledger_append, houtput]
        simp [Ledger.ingest, Output.published, Output.accepted, Output.refused, Output.ingested?,
          htaken]
      rw [hledger _ rfl rfl]
      exact hinv.ingest hphase rfl
    · next dirty hphase =>
      cases hstep
      refine hquiet rfl (by simp) (Quiet.next_phase hq ?_ ?_ fun _ _ hread => (by cases hread))
      · rw [hphase]
        rfl
      · rw [hphase]
        exact fun h => h
    · cases hstep
  | readProgress =>
    simp only [Adsb.step] at hstep
    split at hstep
    · next dirty hphase =>
      cases hstep
      refine hquiet rfl (by simp) (Quiet.next_phase hq ?_ ?_ fun progress dirty' hread => ?_)
      · rw [hphase]
        rfl
      · rw [hphase]
        exact fun h => h
      · obtain ⟨rfl, -⟩ : s.progress = progress ∧ dirty = dirty' := by
          cases hread
          exact ⟨rfl, rfl⟩
        unfold State.progress
        split
        · exact ⟨le_rfl, fun _ => rfl⟩
        · next session hsession =>
          have hle := hinv.session session hsession
          refine ⟨?_, fun heq => by rw [hinv.counted.session_eq hle heq]; rfl⟩
          obtain rfl | hlt := Nat.eq_or_lt_of_le hle
          · exact le_rfl
          · exact (hinv.counted.sound.ordered session hlt).le
    · cases hstep
  | accountProgress =>
    simp only [Adsb.step] at hstep
    split at hstep
    · next progress dirty q' hphase hq' =>
      cases hstep
      rw [ledger_silent rfl (not_taken_of_input (by simp))]
      exact hinv.account hphase hq' rfl
    · cases hstep
  | readQueue =>
    simp only [Adsb.step] at hstep
    split at hstep
    · next dirty q' hphase hq' =>
      cases hstep
      refine hquiet rfl (by simp) (Quiet.next_phase hq ?_ ?_ fun _ _ hread => (by cases hread))
      · rw [hphase]
        rfl
      · rw [hphase]
        exact fun h => h
    · cases hstep
  | readStream =>
    simp only [Adsb.step] at hstep
    split at hstep
    · next queued dirty hphase =>
      have hnext {phase : Phase} (hhand : phase.hand = []) (hdirty : dirty = true → phase.dirty = true)
          (hread : ∀ progress dirty, phase ≠ .progressRead progress dirty) :
          Quiet s { s with phase := phase } := by
        refine Quiet.next_phase hq ?_ ?_ fun progress dirty heq => absurd heq (hread progress dirty)
        · rw [hphase, hhand]
          rfl
        · rw [hphase]
          exact hdirty
      unfold DecoderState.finishedStream at hstep
      split at hstep
      · next hnone =>
        -- nothing has ended, or the queue was not empty
        split at hnone
        · next hcond =>
          cases hstep
          rw [ledger_silent rfl fun g htaken => ?_]
          · exact hinv.quiet (hnext rfl (fun h => h) (by simp))
          · obtain ⟨dirty', q', block, rest, -, hphase', hg, hpos, hended, -⟩ := htaken
            dsimp only at hphase' hg hended
            rw [hphase] at hphase'
            cases hphase'
            rw [hg, hended] at hcond
            simp [hpos] at hcond
        · split at hnone <;> cases hnone
      · next decoder changed hsome =>
        cases hstep
        split at hsome
        · cases hsome
        · next hcond =>
          simp only [not_or, Bool.not_eq_true, not_lt, Nat.le_zero] at hcond
          obtain ⟨hpos, hended, rfl⟩ := hcond
          split at hsome
          · next hne =>
            cases hsome
            rw [ledger_append]
            simp only [Output.published, Output.accepted, Output.refused, Output.ingested?,
              List.append_nil]
            refine hinv.lose hphase hended hne _ fun g => ?_
            refine or_congr_right ?_
            have hpending : s.pending = q.queue.items := by
              simp [State.pending, hphase, Phase.hand, hq]
            constructor
            · intro htaken
              obtain ⟨dirty', q', block, rest, -, -, hg, -, -, -, hq', hitems, hblock⟩ := htaken
              obtain rfl : q = q' := Option.some.inj (hq.symm.trans hq')
              exact ⟨hg.symm, block, rest, hpending.trans hitems, hblock⟩
            · intro hhead
              obtain ⟨rfl, block, rest, hitems, hblock⟩ := hhead
              exact ⟨dirty, q, block, rest, rfl, hphase, rfl, hpos, hended, hne.symm, hq,
                hpending.symm.trans hitems, hblock⟩
          · next heq =>
            cases hsome
            rw [ledger_silent rfl fun g htaken => ?_]
            · exact hinv.quiet (hnext rfl (by simp [Phase.dirty]) (by simp))
            · obtain ⟨dirty', q', block, rest, -, -, hg, -, -, hne, -⟩ := htaken
              exact hne ((not_not.1 heq).symm.trans hg)
    · cases hstep
  | readTotal =>
    simp only [Adsb.step] at hstep
    split at hstep
    · next dirty hphase =>
      cases hstep
      exact hquiet rfl (by simp) (Quiet.account_total hphase hq _)
    · cases hstep
  | store due =>
    simp only [Adsb.step] at hstep
    split at hstep
    · next dirty hphase =>
      cases hstep
      exact hquiet rfl (by simp) (Quiet.store hphase hq)
    · cases hstep

end

/-! ## Section 8: Whole runs -/

theorem Inv.init : Inv (ledger []) machine.init := by
  refine ⟨⟨Sound.new.of_input _, fun _ => ⟨rfl, rfl⟩, ?_, ?_, rfl, rfl⟩, rfl, rfl, ?_, fun _ => rfl,
    le_rfl, .nil, ?_, le_rfl, rfl, fun _ _ hread => (by cases hread), ?_, .inl ⟨?_, ?_, ?_⟩⟩
  · simp [ledger]
  · simp [ledger]
  · simp [ledger]
  · intro i hi
    cases hi
  · simp [ledger]
  · intro hpos
    exact absurd rfl hpos
  · simp [ledger]
  · simp [ledger]

/-- **Every run** keeps the accounts. -/
theorem inv_run {is : List Input} {h : List Event} {s : State}
    (hrun : machine.run machine.init is = some (s, h)) : Inv (ledger h) s :=
  machine.run_inv (P := fun h s => Inv (ledger h) s) (I := fun _ => True) Inv.init
    (fun _ _ _ _ _ hinv _ hstep => hinv.step hstep) (fun _ _ => trivial) hrun

/-! ## Section 9: The last round -/

section

variable {L : Ledger} {t : State}

/-- All of the last generation is accounted for: what was refused is what is missing. -/
theorem Inv.refused_eq (hinv : Inv L t) (hidle : t.stream.producer = none)
    (hempty : t.pending = []) :
    t.stream.progress.samples =
      samplesOf t.generation L.ingested + samplesOf t.generation L.refused := by
  have haccepted := hinv.accepted
  rw [hempty, List.append_nil] at haccepted
  rw [hinv.counted.samples_eq hidle, ← haccepted]
  exact hinv.split t.generation

theorem Inv.total_le (hinv : Inv L t) :
    t.decoder.snapshot.totalReceivedSamples ≤ t.stream.totalSamples := by
  have haccepted : allSamples L.accepted = allSamples L.ingested + allSamples t.pending := by
    rw [hinv.accepted, allSamples_append]
  have hfewer := hinv.fewer
  rw [hinv.totals, hinv.counted.total]
  omega

/-- What the last round leaves. -/
structure Rested (t : State) : Prop where
  phase      : t.phase = .receiving
  idle       : t.stream.producer = none
  empty      : t.pending = []
  used       : t.generation ≠ 0
  generation : t.decoder.snapshot.generation = t.generation
  complete   : t.decoder.session = some t.stream.session → t.decoder.snapshot.complete = true
  total      : t.decoder.snapshot.totalLostSamples =
    t.stream.totalSamples - t.decoder.snapshot.totalReceivedSamples

/-- The figures that are shown, in the two modes that settle them. -/
theorem Ended.settled (hinv : Inv L t) (hrested : Rested t) (hended : Ended t)
    (hcomplete : t.decoder.snapshot.complete = true)
    (hreceived : t.decoder.snapshot.receivedSamples = samplesOf t.generation L.ingested)
    (hsum : t.decoder.snapshot.receivedSamples + t.decoder.snapshot.lostSamples =
      t.stream.progress.samples) : Settled L t := by
  obtain hdirty | hfigures := hended.shown
  · rw [hrested.phase] at hdirty
    cases hdirty
  · have hrefused := hinv.refused_eq hended.idle hrested.empty
    have htotal := hinv.total_le
    refine ⟨hfigures.generation.trans hrested.generation, hfigures.complete.trans hcomplete,
      hfigures.source.trans hended.source, ?_, ?_, ?_⟩
    · rw [hfigures.received, hfigures.lost]
      exact hsum
    · rw [hfigures.lost]
      show _ = samplesOf t.generation L.refused
      omega
    · rw [hfigures.totalReceived, hfigures.totalLost, hrested.total]
      omega

/-- **After the last round** the accounts are settled, unless the generation was taken for
    lost too early. -/
theorem Inv.settled_iff (hinv : Inv L t) (hrested : Rested t) :
    Settled L t ↔ ¬L.taken t.generation := by
  obtain hmode | hmode | hmode | hmode := hinv.mode
  · exact absurd hrested.generation (hmode.generation hrested.used)
  · have hcomplete := hrested.complete hmode.session
    obtain ⟨hended, -, hsum⟩ := hmode.ended hcomplete
    exact iff_of_true (hended.settled hinv hrested hcomplete hmode.received hsum) hmode.taken
  · refine iff_of_true (hmode.ended.settled hinv hrested hmode.complete ?_ ?_) hmode.taken
    · rw [hmode.received, samplesOf_eq_zero hmode.ingested]
    · rw [hmode.received, hmode.lost, Nat.zero_add]
  · refine iff_of_false (fun hsettled => ?_) (not_not.2 hmode.taken)
    have hpos : 0 < t.decoder.snapshot.receivedSamples := by
      by_contra hnone
      exact (hmode.fresh (by omega)).1 hrested.empty
    obtain hdirty | hmore := hmode.shown hpos
    · rw [hrested.phase] at hdirty
      cases hdirty
    · have hsamples := hsettled.samples
      omega

end

/-- A silent step of the worker on an empty queue. -/
theorem Inv.step_silent {h : List Event} {s s' : State} {i : Input} (hinv : Inv (ledger h) s)
    (hempty : ∀ q, s.stream.input = some q → q.queue.items = [])
    (hstep : Adsb.step s i = some (s', .silent)) :
    Inv (ledger h) s' ∧ ledger (h ++ [⟨s, i, .silent, s'⟩]) = ledger h := by
  have hledger : ledger (h ++ [⟨s, i, .silent, s'⟩]) = ledger h := by
    refine ledger_silent rfl fun g htaken => ?_
    obtain ⟨dirty, q, block, rest, -, -, -, -, -, -, hq, hitems, -⟩ := htaken
    rw [hempty q hq] at hitems
    cases hitems
  refine ⟨?_, hledger⟩
  rw [← hledger]
  exact hinv.step hstep

/-- Steps that leave the ledger alone one by one leave it alone together. -/
theorem ledger_append_all {h h' : List Event} (hall : ∀ e ∈ h', ledger (h ++ [e]) = ledger h) :
    ledger (h ++ h') = ledger h := by
  induction h' using List.reverseRecOn with
  | nil => rw [List.append_nil]
  | append_singleton h' e ih =>
    have hfront := ih fun e' he' => hall e' (List.mem_append_left _ he')
    rw [← List.append_assoc, ledger_append, hfront, ← ledger_append]
    exact hall e (List.mem_append_right _ List.mem_cons_self)

/-- A session that has ended is complete once it was accounted for on an empty queue. -/
theorem accountProgress_complete (d : DecoderState) (progress : CaptureProgress) (drops : ℕ)
    (hused : progress.generation ≠ 0) (hended : progress.live = false)
    (hgeneration : progress.generation = d.snapshot.generation) :
    (d.accountProgress progress 0 drops).1.snapshot.complete = true := by
  unfold DecoderState.accountProgress
  dsimp only
  rw [if_neg (by rw [not_or, not_not]; exact ⟨hused, hgeneration⟩)]
  split
  · rfl
  · next hnot =>
    simpa [hended] using hnot

/-- The state after the last round. -/
def afterRound (s : State) (drops : ℕ) (configured : Option Bool) (due : Bool) : State :=
  let d := if configured = some true then s.decoder.reset else s.decoder
  let progress := ({ s with decoder := d } : State).progress
  let (d, finished) := d.accountProgress progress 0 drops
  let changed : Bool := s.stream.progress.generation ≠ d.snapshot.generation
  let d := if changed then d.lose s.stream.progress else d
  let (d, newLoss) := d.accountTotal s.stream.totalSamples
  let stored := configured.isSome || finished || changed || newLoss || due
  { s with decoder := d, phase := .receiving, output := if stored then d.snapshot else s.output }

section

variable {h : List Event} {s : State} {configured : Option Bool} {due : Bool}

/-- The worker goes round once more. -/
theorem round_run (configured : Option Bool) (due : Bool) (hinv : Inv (ledger h) s)
    (hphase : s.phase = .receiving) (hidle : s.stream.producer = none) (hempty : s.pending = []) (hused : s.generation ≠ 0) :
    ∃ q t h', s.stream.input = some q ∧ t = afterRound s q.dropped configured due ∧
      machine.run s (round configured due) = some (t, h') ∧ Inv (ledger h) t ∧
      ledger (h ++ h') = ledger h := by
  obtain ⟨q, hq⟩ := Option.isSome_iff_exists.1 hinv.input
  have hitems : q.queue.items = [] := by simpa [State.pending, hphase, Phase.hand, hq] using hempty
  have hended := hinv.counted.idle_iff.1 hidle
  have hnone (q' : Subscription) (hq' : s.stream.input = some q') : q'.queue.items = [] := by
    obtain rfl : q = q' := Option.some.inj (hq.symm.trans hq')
    exact hitems
  have hrecv : q.queue.tryRecv = none := by
    cases hrecv : q.queue.tryRecv with
    | none => rfl
    | some r =>
      rw [(BoundedQueue.tryRecv_eq_some (show q.queue.tryRecv = some (r.1, r.2) from hrecv)).1]
        at hitems
      cases hitems
  -- the eight steps, one after the other
  generalize hd₀ : (if configured = some true then s.decoder.reset else s.decoder) = d₀
  generalize hprogress : ({ s with decoder := d₀ } : State).progress = progress
  rcases hd₁ : d₀.accountProgress progress 0 q.dropped with ⟨d₁, finished⟩
  generalize hchanged : (decide (s.stream.progress.generation ≠ d₁.snapshot.generation)) = changed
  generalize hd₂ : (if changed then d₁.lose s.stream.progress else d₁) = d₂
  rcases hd₃ : d₂.accountTotal s.stream.totalSamples with ⟨d₃, newLoss⟩
  have h₁ : step s (.receive configured) =
      some ({ s with decoder := d₀, phase := .received none configured.isSome }, .silent) := by
    simp [Adsb.step, hphase, hq, hrecv, hd₀]
  have h₂ : step { s with decoder := d₀, phase := .received none configured.isSome } .ingest =
      some ({ s with decoder := d₀, phase := .ingested configured.isSome }, .silent) := rfl
  have h₃ : step { s with decoder := d₀, phase := .ingested configured.isSome } .readProgress =
      some ({ s with decoder := d₀, phase := .progressRead progress configured.isSome },
        .silent) := by
    rw [← hprogress]
    rfl
  have h₄ : step { s with decoder := d₀, phase := .progressRead progress configured.isSome }
      .accountProgress =
      some ({ s with decoder := d₁, phase := .accounted (configured.isSome || finished) },
        .silent) := by
    simp [Adsb.step, hq, hitems, hd₁]
  have h₅ : step { s with decoder := d₁, phase := .accounted (configured.isSome || finished) }
      .readQueue =
      some ({ s with decoder := d₁, phase := .queueRead 0 (configured.isSome || finished) },
        .silent) := by
    simp [Adsb.step, hq, hitems]
  have h₆ : step { s with decoder := d₁, phase := .queueRead 0 (configured.isSome || finished) }
      .readStream =
      some ({ s with
        decoder := d₂, phase := .streamRead (configured.isSome || finished || changed) },
        .silent) := by
    have hfinished : d₁.finishedStream s.stream.progress 0 = some (d₂, changed) := by
      unfold DecoderState.finishedStream
      rw [if_neg (by simp [hended]; exact hused), ← hd₂, ← hchanged]
      split <;> simp_all
    simp [Adsb.step, hfinished]
  have h₇ : step { s with
      decoder := d₂, phase := .streamRead (configured.isSome || finished || changed) } .readTotal =
      some ({ s with
        decoder := d₃, phase := .storing (configured.isSome || finished || changed || newLoss) },
        .silent) := by
    simp [Adsb.step, hd₃]
  have h₈ : step { s with
      decoder := d₃, phase := .storing (configured.isSome || finished || changed || newLoss) }
      (.store due) = some (afterRound s q.dropped configured due, .silent) := by
    simp [Adsb.step, afterRound, hd₀, hprogress, hd₁, hchanged, hd₂, hd₃]
  obtain ⟨hinv₁, hl₁⟩ := hinv.step_silent hnone h₁
  obtain ⟨hinv₂, hl₂⟩ := hinv₁.step_silent hnone h₂
  obtain ⟨hinv₃, hl₃⟩ := hinv₂.step_silent hnone h₃
  obtain ⟨hinv₄, hl₄⟩ := hinv₃.step_silent hnone h₄
  obtain ⟨hinv₅, hl₅⟩ := hinv₄.step_silent hnone h₅
  obtain ⟨hinv₆, hl₆⟩ := hinv₅.step_silent hnone h₆
  obtain ⟨hinv₇, hl₇⟩ := hinv₆.step_silent hnone h₇
  obtain ⟨hinv₈, hl₈⟩ := hinv₇.step_silent hnone h₈
  have hrun (a : State) (i : Input) (b : State) (is : List Input) (t : State) (h' : List Event)
      (hstep : step a i = some (b, .silent)) (hrest : machine.run b is = some (t, h')) :
      machine.run a (i :: is) = some (t, ⟨a, i, .silent, b⟩ :: h') :=
    machine.run_cons_eq_some.2 ⟨b, .silent, h', hstep, hrest, rfl⟩
  refine ⟨q, _, _, hq, rfl, hrun _ _ _ _ _ _ h₁ (hrun _ _ _ _ _ _ h₂ (hrun _ _ _ _ _ _ h₃
    (hrun _ _ _ _ _ _ h₄ (hrun _ _ _ _ _ _ h₅ (hrun _ _ _ _ _ _ h₆ (hrun _ _ _ _ _ _ h₇
      (hrun _ _ _ _ _ _ h₈ rfl))))))), hinv₈, ?_⟩
  refine ledger_append_all fun e he => ?_
  simp only [List.mem_cons, List.not_mem_nil, or_false] at he
  obtain rfl | rfl | rfl | rfl | rfl | rfl | rfl | rfl := he
  · exact hl₁
  · exact hl₂
  · exact hl₃
  · exact hl₄
  · exact hl₅
  · exact hl₆
  · exact hl₇
  · exact hl₈

/-- The last round leaves the worker at rest. -/
theorem rested_afterRound (hinv : Inv (ledger h) s) (hphase : s.phase = .receiving)
    (hidle : s.stream.producer = none) (hempty : s.pending = []) (hused : s.generation ≠ 0)
    (drops : ℕ) : Rested (afterRound s drops configured due) := by
  have hended := hinv.counted.idle_iff.1 hidle
  have hpending : (afterRound s drops configured due).pending = s.pending := by
    simp [State.pending, afterRound, hphase]
  unfold afterRound at hpending ⊢
  dsimp only at hpending ⊢
  generalize hd₀ : (if configured = some true then s.decoder.reset else s.decoder) = d₀ at *
  generalize hprogress : ({ s with decoder := d₀ } : State).progress = progress at *
  obtain ⟨hgen, hsession, -⟩ := accountProgress_figures d₀ progress 0 drops
  have hcomplete := accountProgress_complete d₀ progress drops
  rcases hd₁ : d₀.accountProgress progress 0 drops with ⟨d₁, finished⟩
  rw [hd₁] at hgen hsession hcomplete hpending
  dsimp only at hgen hsession hcomplete hpending ⊢
  refine ⟨rfl, hidle, hpending.trans hempty, hused, ?_, fun hcurrent => ?_, rfl⟩
  · show (if _ then d₁.lose s.stream.progress else d₁).snapshot.generation = s.generation
    split
    · rfl
    · next hsame =>
      have heq : s.stream.progress.generation = d₁.snapshot.generation := by simpa using hsame
      exact heq.symm
  · show (if _ then d₁.lose s.stream.progress else d₁).snapshot.complete = true
    have hcurrent' : (if decide (s.stream.progress.generation ≠ d₁.snapshot.generation) = true then
        d₁.lose s.stream.progress else d₁).session = some s.stream.session := hcurrent
    split
    · rfl
    · next hsame =>
      rw [if_neg hsame] at hcurrent'
      -- the session that the worker follows is the last one, whose progress it then reads
      have hfollowed : progress = s.stream.progress := by
        rw [← hprogress]
        unfold State.progress
        dsimp only
        rw [← hsession, hcurrent']
        rfl
      refine hcomplete ?_ ?_ ?_
      · rw [hfollowed]
        exact hused
      · rw [hfollowed]
        exact hended
      · rw [hfollowed, ← hgen]
        simpa using hsame

end

/-- **The accounts of the last generation.** When the producer has finished its last generation
    and the queue is empty, one more round of the worker settles the accounts if and only if
    the generation was never taken for lost with a block of it first in the queue. -/
theorem accounts_settled_iff {is : List Input} {h : List Event} {s : State}
    (hrun : machine.run machine.init is = some (s, h)) (hphase : s.phase = .receiving)
    (hidle : s.stream.producer = none) (hempty : s.pending = []) (hused : s.generation ≠ 0)
    (configured : Option Bool) (due : Bool) :
    ∃ t h', machine.run s (round configured due) = some (t, h') ∧
      (Settled (ledger (h ++ h')) t ↔ ∀ e ∈ h, ¬TakenForLost s.generation e) := by
  have hinv := inv_run hrun
  obtain ⟨q, t, h', -, ht, hround, hinv', hledger⟩ :=
    round_run configured due hinv hphase hidle hempty hused
  have hrested : Rested t := by
    rw [ht]
    exact rested_afterRound hinv hphase hidle hempty hused q.dropped
  have hsame : t.generation = s.generation := by rw [ht]; rfl
  refine ⟨t, h', hround, ?_⟩
  rw [hledger, hinv'.settled_iff hrested, hsame]
  simp [ledger]

/-! ## Section 10: A generation taken for lost -/

/-- What a run shows at its end. -/
structure Summary where
  receiving  : Bool
  idle       : Bool
  pending    : List CaptureBlock
  generation : ℕ
  samples    : ℕ
  output     : LocalAdsbSnapshot
  deriving DecidableEq

def summary (r : State × List Event) : Summary where
  receiving := r.1.phase matches .receiving
  idle := r.1.stream.producer.isNone
  pending := r.1.pending
  generation := r.1.generation
  samples := r.1.stream.progress.samples
  output := r.1.output

theorem receiving_of_summary {r : State × List Event} (h : (summary r).receiving = true) :
    r.1.phase = .receiving := by
  obtain ⟨⟨stream, decoder, phase, output⟩, history⟩ := r
  cases phase with
  | receiving => rfl
  | _ => cases h

def exampleClock : Ingest.CaptureClock := .new 9 0 2400000 none

/-- One session with one block of one sample. -/
def shortSession : List Input :=
  [.producer (.start 1), .producer (.acquire [90, 110] exampleClock 1090 0), .producer .send,
    .producer .store, .producer .finish]

/-- The session comes before the worker has looked at its queue. -/
def inTime : List Input := shortSession ++ round none false

/-- The session comes between the look at the queue and the look at the stream. -/
def between : List Input :=
  [.receive none, .ingest, .readProgress, .accountProgress, .readQueue] ++ shortSession ++
    [.readStream, .readTotal, .store false] ++ round none false

theorem inTime_settled : ∃ h s, machine.run machine.init inTime = some (s, h) ∧
    ∃ t h', machine.run s (round none false) = some (t, h') ∧
      (Settled (ledger (h ++ h')) t ↔ ∀ e ∈ h, ¬TakenForLost s.generation e) := by
  have hsummary : (machine.run machine.init inTime).map summary =
      some ⟨true, true, [], 1, 1, ⟨1, some 9, 1, 1, 0, 1, 0, 1, 0, true⟩⟩ := by decide
  obtain ⟨⟨s, h⟩, hrun, hvalue⟩ := Option.map_eq_some_iff.1 hsummary
  have hreceiving := congrArg Summary.receiving hvalue
  have hidle : s.stream.producer.isNone = true := congrArg Summary.idle hvalue
  have hpending : s.pending = [] := congrArg Summary.pending hvalue
  have hgeneration : s.generation = 1 := congrArg Summary.generation hvalue
  refine ⟨h, s, hrun, accounts_settled_iff hrun (receiving_of_summary hreceiving)
    (Option.isNone_iff_eq_none.1 hidle) hpending ?_ none false⟩
  rw [hgeneration]
  decide

/-- The samples of the session are lost and received. -/
theorem between_unsettled : ∃ h s, machine.run machine.init between = some (s, h) ∧
    s.phase = .receiving ∧ s.stream.producer = none ∧ s.pending = [] ∧ s.generation ≠ 0 ∧
      ∃ t h', machine.run s (round none false) = some (t, h') ∧
        ¬Settled (ledger (h ++ h')) t := by
  have hlate : (machine.run machine.init (between ++ round none false)).map summary =
      some ⟨true, true, [], 1, 1, ⟨1, some 9, 3, 1, 1, 1, 0, 1, 0, true⟩⟩ := by decide
  obtain ⟨⟨t, h₀⟩, hrun₀, hlast⟩ := Option.map_eq_some_iff.1 hlate
  obtain ⟨s, h, h', hrun, hround, -⟩ := machine.run_append.1 hrun₀
  have hsummary : (machine.run machine.init between).map summary =
      some ⟨true, true, [], 1, 1, ⟨1, some 9, 3, 1, 1, 1, 0, 1, 0, true⟩⟩ := by decide
  rw [hrun] at hsummary
  have hvalue := Option.some.inj hsummary
  have hreceiving := congrArg Summary.receiving hvalue
  have hidle : s.stream.producer.isNone = true := congrArg Summary.idle hvalue
  have hpending : s.pending = [] := congrArg Summary.pending hvalue
  have hgeneration : s.generation = 1 := congrArg Summary.generation hvalue
  refine ⟨h, s, hrun, receiving_of_summary hreceiving, Option.isNone_iff_eq_none.1 hidle, hpending,
    ?_, t, h', hround, fun hsettled => ?_⟩
  · rw [hgeneration]
    decide
  · have hsamples := hsettled.samples
    have hshown : t.stream.progress.samples = 1 := congrArg Summary.samples hlast
    have houtput : t.output = _ := congrArg Summary.output hlast
    rw [houtput, hshown] at hsamples
    cases hsamples

end LocalCapture.Adsb
