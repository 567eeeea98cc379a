import EzSdr.Framework.Machine
import EzSdr.Framework.BoundedQueue
import EzSdr.Ingest.Source

/-! # The Local Capture Stream

    The capture of the desktop program goes from one producer to its consumers:
    each has a bounded queue, and everyone can read the progress of the session
    at any time.

    The atomic steps of the producer are here: a session is started; a block is
    acquired and counted, then sent, then its progress is stored; the session
    is finished. What an `Arc` points to is a number: sessions are numbered in
    the order of their start. -/

namespace LocalCapture

open Ingest (CaptureClock)

/-! ## Section 1: Sessions and blocks -/

structure CaptureProgress where
  generation : ℕ
  samples    : ℕ
  blocks     : ℕ
  live       : Bool
  deriving DecidableEq

def CaptureProgress.default : CaptureProgress := ⟨0, 0, 0, false⟩

/-- A published block always has a session. -/
structure CaptureBlock where
  samples           : List (BitVec 8)
  clock             : CaptureClock
  centerHz          : ℕ
  observedAt        : ℕ
  sourceGeneration  : ℕ
  streamSampleIndex : ℕ
  session           : ℕ
  deriving DecidableEq

/-- Two bytes make a sample. -/
def CaptureBlock.count (block : CaptureBlock) : ℕ := block.samples.length / 2

/-- The index of the sample after the block. -/
def CaptureBlock.next (block : CaptureBlock) : ℕ := block.streamSampleIndex + block.count

/-- The queue of a consumer has places. -/
theorem capacity_pos : 0 < 128 := by decide

/-- What a consumer shares with the producer. -/
structure Subscription where
  queue   : BoundedQueue CaptureBlock
  dropped : ℕ

/-- `OverflowPolicy::DropIncoming`: the queue, and whether it took the block. -/
def Subscription.offer (q : Subscription) (block : CaptureBlock) : Subscription × Bool :=
  match q.queue.trySend block with
  | some queue => ({ q with queue := queue }, true)
  | none => ({ q with dropped := q.dropped + 1 }, false)

/-! ## Section 2: The producer -/

/-- How far the producer is with its block. -/
inductive Stage where
  | ready
  /-- Counted, not sent yet. -/
  | counted (block : CaptureBlock)
  /-- Sent, its progress not stored yet. -/
  | sent (block : CaptureBlock)

/-- The block a producer is busy with. -/
def Stage.block? : Stage → Option CaptureBlock
  | .ready => none
  | .counted block => some block
  | .sent block => some block

structure CaptureProducer where
  session           : ℕ
  sourceGeneration  : ℕ
  streamSampleIndex : ℕ
  stage             : Stage

/-- `CaptureStream` as one consumer sees it. -/
structure CaptureStream where
  session      : ℕ
  sessions     : ℕ → CaptureProgress
  totalSamples : ℕ
  input        : Option Subscription
  producer     : Option CaptureProducer

/-- The next atomic step of the producer. -/
inductive ProducerStep where
  | start (generation : ℕ)
  /-- A block is acquired and added to the total. -/
  | acquire (samples : List (BitVec 8)) (clock : CaptureClock) (centerHz observedAt : ℕ)
  | send
  | store
  | finish

/-- What the consumer's queue saw of the step. -/
inductive Produced where
  | silent
  | sent (block : CaptureBlock)
  | refused (block : CaptureBlock)
  deriving DecidableEq

namespace Produced

/-- Blocks that were published, whether the queue took them or not. -/
def published : Produced → List CaptureBlock
  | .silent => []
  | .sent block => [block]
  | .refused block => [block]

/-- Blocks that the queue took. -/
def accepted : Produced → List CaptureBlock
  | .sent block => [block]
  | _ => []

/-- Blocks that the queue had no place for. -/
def dropped : Produced → List CaptureBlock
  | .refused block => [block]
  | _ => []

theorem of_not_refused {o : Produced} (h : ∀ block, o ≠ .refused block) :
    o.dropped = [] ∧ o.accepted = o.published := by
  cases o with
  | silent => exact ⟨rfl, rfl⟩
  | sent block => exact ⟨rfl, rfl⟩
  | refused block => exact absurd rfl (h block)

end Produced

namespace CaptureStream

def new : CaptureStream where
  session := 0
  sessions _ := .default
  totalSamples := 0
  input := none
  producer := none

/-- `CaptureStream::progress`. -/
def progress (s : CaptureStream) : CaptureProgress := s.sessions s.session

/-- `CaptureSession::finish`. -/
def finishSession (s : CaptureStream) (i : ℕ) : CaptureStream :=
  { s with sessions := Function.update s.sessions i { s.sessions i with live := false } }

/-- `CaptureStream::start`, with the producer that takes the session over. -/
def start (s : CaptureStream) (generation : ℕ) : CaptureStream :=
  let s := s.finishSession s.session
  { s with
    session := s.session + 1
    sessions := Function.update s.sessions (s.session + 1) ⟨generation, 0, 0, true⟩
    producer := some ⟨s.session + 1, generation, 0, .ready⟩ }

theorem start_progress (s : CaptureStream) (generation : ℕ) :
    (s.start generation).progress = ⟨generation, 0, 0, true⟩ := Function.update_self ..

/-- The block that the producer makes of what it acquired. -/
def blockOf (p : CaptureProducer) (samples : List (BitVec 8)) (clock : CaptureClock)
    (centerHz observedAt : ℕ) : CaptureBlock where
  samples := samples
  clock := clock
  centerHz := centerHz
  observedAt := observedAt
  sourceGeneration := p.sourceGeneration
  streamSampleIndex := p.streamSampleIndex
  session := p.session

/-- `block_with_float`, up to the count in `publish`. -/
def acquire (s : CaptureStream) (p : CaptureProducer) (block : CaptureBlock) : CaptureStream :=
  { s with
    totalSamples := s.totalSamples + block.count
    producer := some { p with streamSampleIndex := block.next, stage := .counted block } }

/-- `self.bus.publish`. -/
def send (s : CaptureStream) (p : CaptureProducer) (block : CaptureBlock) :
    CaptureStream × Produced :=
  let producer := some { p with stage := Stage.sent block }
  match s.input with
  | none => ({ s with producer := producer }, .silent)
  | some q =>
    let (q, taken) := q.offer block
    ({ s with input := some q, producer := producer },
     if taken then .sent block else .refused block)

/-- The progress after the block. -/
def store (s : CaptureStream) (p : CaptureProducer) (block : CaptureBlock) : CaptureStream :=
  { s with
    sessions := Function.update s.sessions p.session
      ⟨block.sourceGeneration, block.next, (s.sessions p.session).blocks + 1, true⟩
    producer := some { p with stage := .ready } }

/-- `CaptureProducer::finish`. -/
def finish (s : CaptureStream) (p : CaptureProducer) : CaptureStream :=
  { s.finishSession p.session with producer := none }

/-- One step of the producer; `none` if it is not its next one. A session is
    started when the producer of the one before has finished, and the source
    manager counts the generations up. -/
def produce (s : CaptureStream) (step : ProducerStep) : Option (CaptureStream × Produced) :=
  match step, s.producer with
  | .start generation, none =>
    if s.progress.generation < generation then some (s.start generation, .silent) else none
  | .acquire samples clock centerHz observedAt, some p =>
    match p.stage with
    | .ready =>
      if samples = [] ∨ samples.length % 2 ≠ 0 then none
      else some (s.acquire p (blockOf p samples clock centerHz observedAt), .silent)
    | _ => none
  | .send, some p =>
    match p.stage with
    | .counted block => some (s.send p block)
    | _ => none
  | .store, some p =>
    match p.stage with
    | .sent block => some (s.store p block, .silent)
    | _ => none
  | .finish, some p =>
    match p.stage with
    | .ready => some (s.finish p, .silent)
    | _ => none
  | _, _ => none

/-! ## Section 3: What the producer can do -/

/-- The steps of the producer, one constructor each. -/
inductive Produces (s : CaptureStream) : ProducerStep → CaptureStream → Produced → Prop
  | start {generation} (hidle : s.producer = none) (hless : s.progress.generation < generation) :
    Produces s (.start generation) (s.start generation) .silent
  | acquire {p samples clock centerHz observedAt} (hp : s.producer = some p)
    (hready : p.stage = .ready) (hpos : samples ≠ []) (heven : samples.length % 2 = 0) :
    Produces s (.acquire samples clock centerHz observedAt)
      (s.acquire p (blockOf p samples clock centerHz observedAt)) .silent
  | send {p block} (hp : s.producer = some p) (hcounted : p.stage = .counted block) :
    Produces s .send (s.send p block).1 (s.send p block).2
  | store {p block} (hp : s.producer = some p) (hsent : p.stage = .sent block) :
    Produces s .store (s.store p block) .silent
  | finish {p} (hp : s.producer = some p) (hready : p.stage = .ready) :
    Produces s .finish (s.finish p) .silent

theorem produces_of_produce {s s' : CaptureStream} {step : ProducerStep} {o : Produced}
    (h : s.produce step = some (s', o)) : Produces s step s' o := by
  unfold produce at h
  split at h
  · next generation hidle =>
    split at h
    · next hless =>
      cases h
      exact .start hidle hless
    · cases h
  · next samples clock centerHz observedAt p hp =>
    split at h
    · next hready =>
      split at h
      · cases h
      · next hfit =>
        cases h
        rw [not_or, not_not] at hfit
        exact .acquire hp hready hfit.1 hfit.2
    · cases h
  · next p hp =>
    split at h
    · next block hcounted =>
      have hsend := Option.some.inj h
      have hproduces : Produces s .send (s.send p block).1 (s.send p block).2 :=
        .send hp hcounted
      rwa [hsend] at hproduces
    · cases h
  · next p hp =>
    split at h
    · next block hsent =>
      cases h
      exact .store hp hsent
    · cases h
  · next p hp =>
    split at h
    · next hready =>
      cases h
      exact .finish hp hready
    · cases h
  · cases h

/-- What holds of the sessions at every time. -/
structure Sound (s : CaptureStream) : Prop where
  /-- Without a producer no session is live. -/
  idle    : s.producer = none → s.progress.live = false
  /-- The producer works for the current session. -/
  busy    : ∀ p, s.producer = some p → p.session = s.session ∧ s.progress.live = true ∧
    p.sourceGeneration = s.progress.generation ∧
    ∀ block, p.stage.block? = some block →
      block.session = s.session ∧ block.sourceGeneration = s.progress.generation
  /-- Every other session has finished, or was never started. -/
  others  : ∀ i, i ≠ s.session → (s.sessions i).live = false
  /-- Generations go up with the sessions. -/
  ordered : ∀ i, i < s.session → (s.sessions i).generation < s.progress.generation

theorem Sound.new : Sound new := by
  refine ⟨fun _ => rfl, fun p hp => ?_, fun _ _ => rfl, fun i hi => ?_⟩
  · cases hp
  · exact absurd hi (Nat.not_lt_zero i)

/-- What a step leaves of the sessions. -/
structure Kept (s s' : CaptureStream) (o : Produced) : Prop where
  sound      : Sound s'
  session    : s.session ≤ s'.session
  generation : ∀ i, i ≤ s.session → (s'.sessions i).generation = (s.sessions i).generation
  /-- A session that has finished is not revived. -/
  finished   : ∀ i, i ≤ s.session → (s.sessions i).live = false → (s'.sessions i).live = false
  /-- What is sent belongs to the current session, which is live. -/
  sent       : ∀ block, o = .sent block ∨ o = .refused block →
    block.session = s.session ∧ s'.session = s.session ∧
      block.sourceGeneration = s.progress.generation ∧ s.progress.live = true

theorem send_fst (s : CaptureStream) (p : CaptureProducer) (block : CaptureBlock) :
    (s.send p block).1.session = s.session ∧ (s.send p block).1.sessions = s.sessions ∧
      (s.send p block).1.totalSamples = s.totalSamples ∧
      (s.send p block).1.producer = some { p with stage := .sent block } := by
  unfold send
  dsimp only
  split
  · exact ⟨rfl, rfl, rfl, rfl⟩
  · exact ⟨rfl, rfl, rfl, rfl⟩

/-- The queue sees the block that is sent, and no other. -/
theorem send_snd {s : CaptureStream} {p : CaptureProducer} {block block' : CaptureBlock}
    (h : (s.send p block).2 = .sent block' ∨ (s.send p block).2 = .refused block') :
    block' = block := by
  unfold send at h
  dsimp only at h
  split at h
  · simp at h
  · next q hq =>
    generalize q.offer block = r at h
    obtain ⟨q', taken⟩ := r
    have heq : block = block' := by
      cases taken
      · simpa using h
      · simpa using h
    exact heq.symm

/-- **One step of the producer** keeps the sessions in order. -/
theorem Sound.kept {s s' : CaptureStream} {step : ProducerStep} {o : Produced} (h : Sound s)
    (hstep : Produces s step s' o) : Kept s s' o := by
  cases hstep with
  | @start generation hidle hless =>
    have hsession : (s.start generation).session = s.session + 1 := rfl
    have hprogress := s.start_progress generation
    -- the start finishes the session before it
    have hother (i : ℕ) (hi : i ≠ s.session + 1) :
        ((s.start generation).sessions i).generation = (s.sessions i).generation ∧
          ((s.start generation).sessions i).live = false := by
      have hupdate : (s.start generation).sessions i =
          Function.update s.sessions s.session { s.progress with live := false } i :=
        Function.update_of_ne hi ..
      rw [hupdate]
      by_cases hcurrent : i = s.session
      · subst hcurrent
        simp [progress]
      · rw [Function.update_of_ne hcurrent]
        exact ⟨rfl, h.others i hcurrent⟩
    refine ⟨⟨fun hnone => ?_, fun p hp => ?_, fun i hi => ?_, fun i hi => ?_⟩, by omega,
      fun i hi => (hother i (by omega)).1, fun i hi _ => (hother i (by omega)).2, by simp⟩
    · cases hnone
    · obtain rfl : _ = p := Option.some.inj hp
      rw [hprogress]
      exact ⟨rfl, rfl, rfl, by simp [Stage.block?]⟩
    · exact (hother i (by omega)).2
    · rw [hprogress, (hother i (by omega)).1]
      obtain hcurrent | hlt : i = s.session ∨ i < s.session := by omega
      · subst hcurrent
        exact hless
      · exact (h.ordered i hlt).trans hless
  | @acquire p samples clock centerHz observedAt hp hready hpos heven =>
    obtain ⟨hsession, hlive, hgeneration, -⟩ := h.busy p hp
    refine ⟨⟨fun hnone => ?_, fun p' hp' => ?_, h.others, h.ordered⟩, le_rfl, fun _ _ => rfl,
      fun _ _ hfinished => hfinished, by simp⟩
    · cases hnone
    · obtain rfl : _ = p' := Option.some.inj hp'
      refine ⟨hsession, hlive, hgeneration, fun block hblock => ?_⟩
      obtain rfl : _ = block := Option.some.inj hblock
      exact ⟨hsession, hgeneration⟩
  | @send p block hp hcounted =>
    obtain ⟨hsession, hlive, hgeneration, hblock⟩ := h.busy p hp
    have hown := hblock block (by rw [hcounted]; rfl)
    obtain ⟨hsame, hsessions, -, hproducer⟩ := send_fst s p block
    have hprogress : (s.send p block).1.progress = s.progress := by
      unfold progress
      rw [hsame, hsessions]
    refine ⟨⟨fun hnone => ?_, fun p' hp' => ?_, fun i hi => ?_, fun i hi => ?_⟩, hsame.ge,
      fun i _ => by rw [hsessions], fun i _ hfinished => by rwa [hsessions],
      fun block' hsent => ?_⟩
    · rw [hproducer] at hnone
      cases hnone
    · rw [hproducer] at hp'
      obtain rfl : _ = p' := Option.some.inj hp'
      rw [hsame, hprogress]
      refine ⟨hsession, hlive, hgeneration, fun block' hblock' => ?_⟩
      obtain rfl : _ = block' := Option.some.inj hblock'
      exact hown
    · rw [hsessions]
      exact h.others i (hsame ▸ hi)
    · rw [hsessions, hprogress]
      exact h.ordered i (hsame ▸ hi)
    · rw [send_snd hsent]
      exact ⟨hown.1, hsame, hown.2, hlive⟩
  | @store p block hp hsent =>
    obtain ⟨hsession, hlive, hgeneration, hblock⟩ := h.busy p hp
    have hown := hblock block (by rw [hsent]; rfl)
    have hself : (s.store p block).sessions s.session =
        ⟨block.sourceGeneration, block.next, s.progress.blocks + 1, true⟩ := by
      show Function.update s.sessions p.session _ s.session = _
      rw [hsession, Function.update_self]
      rfl
    -- the producer stores into its own session only
    have hother (i : ℕ) (hi : i ≠ s.session) :
        (s.store p block).sessions i = s.sessions i := by
      show Function.update s.sessions p.session _ i = _
      rw [hsession, Function.update_of_ne hi]
    have hprogress : (s.store p block).progress.generation = s.progress.generation := by
      show ((s.store p block).sessions s.session).generation = _
      rw [hself]
      exact hown.2
    refine ⟨⟨fun hnone => ?_, fun p' hp' => ?_, fun i hi => ?_, fun i hi => ?_⟩, le_rfl,
      fun i _ => ?_, fun i _ hfinished => ?_, by simp⟩
    · cases hnone
    · obtain rfl : _ = p' := Option.some.inj hp'
      refine ⟨hsession, ?_, hgeneration.trans hprogress.symm, by simp [Stage.block?]⟩
      show ((s.store p block).sessions s.session).live = true
      rw [hself]
    · rw [hother i hi]
      exact h.others i hi
    · rw [hprogress, hother i (Nat.ne_of_lt hi)]
      exact h.ordered i hi
    · by_cases hi : i = s.session
      · subst hi
        exact hprogress
      · rw [hother i hi]
    · have hi : i ≠ s.session := by
        intro heq
        subst heq
        rw [show (s.sessions s.session).live = true from hlive] at hfinished
        cases hfinished
      rwa [hother i hi]
  | @finish p hp hready =>
    obtain ⟨hsession, hlive, hgeneration, -⟩ := h.busy p hp
    -- after it no session is live
    have hall (i : ℕ) :
        ((s.finish p).sessions i).generation = (s.sessions i).generation ∧
          ((s.finish p).sessions i).live = false := by
      show (Function.update s.sessions p.session _ i).generation = _ ∧
        (Function.update s.sessions p.session _ i).live = false
      rw [hsession]
      by_cases hi : i = s.session
      · subst hi
        simp
      · rw [Function.update_of_ne hi]
        exact ⟨rfl, h.others i hi⟩
    refine ⟨⟨fun _ => (hall _).2, fun p' hp' => ?_, fun i _ => (hall i).2, fun i hi => ?_⟩, le_rfl,
      fun i _ => (hall i).1, fun i _ _ => (hall i).2, by simp⟩
    · cases hp'
    · rw [(hall i).1]
      show _ < ((s.finish p).sessions s.session).generation
      rw [(hall _).1]
      exact h.ordered i hi

/-- The sessions do not depend on the consumer's queue. -/
theorem Sound.of_input {s : CaptureStream} (h : s.Sound) (input : Option Subscription) :
    Sound { s with input := input } :=
  ⟨h.idle, h.busy, h.others, h.ordered⟩

/-- A published block is of the current session, which is live. -/
theorem Kept.published {s s' : CaptureStream} {o : Produced} (h : Kept s s' o)
    {block : CaptureBlock} (hblock : block ∈ o.published) :
    block.session = s.session ∧ s'.session = s.session ∧
      block.sourceGeneration = s.progress.generation ∧ s.progress.live = true := by
  apply h.sent
  cases o with
  | silent => cases hblock
  | sent b =>
    obtain rfl := List.mem_singleton.1 hblock
    exact .inl rfl
  | refused b =>
    obtain rfl := List.mem_singleton.1 hblock
    exact .inr rfl

/-- What the producer sends goes to the end of the queue, if there is room. -/
theorem Produces.queue {s s' : CaptureStream} {step : ProducerStep} {o : Produced}
    {q : Subscription} (h : Produces s step s' o) (hq : s.input = some q) :
    ∃ q', s'.input = some q' ∧ q'.queue.items = q.queue.items ++ o.accepted ∧
      q'.dropped = q.dropped + o.dropped.length := by
  cases h with
  | start => exact ⟨q, hq, (List.append_nil _).symm, rfl⟩
  | acquire => exact ⟨q, hq, (List.append_nil _).symm, rfl⟩
  | @send p block hp hcounted =>
    have hinput : (s.send p block).1.input = some (q.offer block).1 := by
      simp [CaptureStream.send, hq]
    have hoffer : (s.send p block).2 = if (q.offer block).2 then .sent block else .refused block := by
      simp [CaptureStream.send, hq]
    refine ⟨(q.offer block).1, hinput, ?_, ?_⟩
    all_goals
      rw [hoffer]
      unfold Subscription.offer
      split
    · next queue hsend => exact (BoundedQueue.trySend_eq_some hsend).1
    · next hsend => exact (List.append_nil _).symm
    · next queue hsend => rfl
    · next hsend => rfl
  | store => exact ⟨q, hq, (List.append_nil _).symm, rfl⟩
  | finish => exact ⟨q, hq, (List.append_nil _).symm, rfl⟩

/-- The producer does the same for any consumer. -/
theorem Produces.with_input {s s' : CaptureStream} {step : ProducerStep} {o : Produced}
    (h : Produces s step s' o) (q : Subscription) :
    ∃ q' o', Produces { s with input := some q } step { s' with input := some q' } o' := by
  cases h with
  | start hidle hless => exact ⟨q, .silent, .start hidle hless⟩
  | acquire hp hready hpos heven => exact ⟨q, .silent, .acquire hp hready hpos heven⟩
  | @send p block hp hcounted =>
    have hsend : (CaptureStream.send { s with input := some q } p block).1 =
        { (s.send p block).1 with input := some (q.offer block).1 } := by
      unfold CaptureStream.send
      dsimp only
      cases s.input <;> rfl
    refine ⟨(q.offer block).1, (CaptureStream.send { s with input := some q } p block).2, ?_⟩
    rw [← hsend]
    exact .send hp hcounted
  | store hp hsent => exact ⟨q, .silent, .store hp hsent⟩
  | finish hp hready => exact ⟨q, .silent, .finish hp hready⟩

/-- Without a subscription nothing is published. -/
theorem Produces.silent {s s' : CaptureStream} {step : ProducerStep} {o : Produced}
    (h : Produces s step s' o) (hq : s.input = none) : s'.input = none ∧ o.published = [] := by
  cases h with
  | @send p block =>
    have hsend : s.send p block = ({ s with producer := some { p with stage := .sent block } },
        .silent) := by
      simp [CaptureStream.send, hq]
    rw [hsend]
    exact ⟨hq, rfl⟩
  | start => exact ⟨hq, rfl⟩
  | acquire => exact ⟨hq, rfl⟩
  | store => exact ⟨hq, rfl⟩
  | finish => exact ⟨hq, rfl⟩

end CaptureStream

end LocalCapture
