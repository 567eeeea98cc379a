import EzSdr.LocalCapture.Recorder

/-! # The End of a Recording

    The recorder learns of the end of its session from a flag, which it reads
    after a wait for a block has timed out. Between the two the producer can
    send its last block and finish.

    **`recording_complete_iff`**: in every run that nothing else disturbs, the recording
    holds all blocks of its session if and only if no such look at the flag
    finds it cleared with a block of the session in the queue. -/

namespace LocalCapture

open CaptureStream

abbrev Event : Type := Machine.Event State Input Output

/-! ## Section 1: Histories -/

/-- Blocks that were published to the recorder's queue. -/
def Output.published : Output → List CaptureBlock
  | .produced o => o.published
  | _ => []

/-- Blocks that the writer accepted. -/
def Output.written : Output → List CaptureBlock
  | .wrote block => [block]
  | _ => []

def published (h : List Event) : List CaptureBlock := h.flatMap (·.output.published)

def written (h : List Event) : List CaptureBlock := h.flatMap (·.output.written)

@[simp] theorem published_append (h : List Event) (e : Event) :
    published (h ++ [e]) = published h ++ e.output.published := by simp [published]

@[simp] theorem written_append (h : List Event) (e : Event) :
    written (h ++ [e]) = written h ++ e.output.written := by simp [written]

/-- No overflow, no stop request, no deadline and no write error. -/
structure Undisturbed (e : Event) : Prop where
  accepted : ∀ block, e.output ≠ .produced (.refused block)
  running  : ∀ now, e.input ≠ .requestStop now
  endless  : ∀ deadline, e.input = .setDeadline deadline ∨ e.input = .begin deadline →
    deadline = none
  writing  : ∀ error, e.output ≠ .writeFailed error
  disk     : ∀ finished, e.input = .check finished → finished = false
  written  : ∀ io, e.input = .close io → io.disk = .done

/-- The worker has left its loop. -/
def Phase.left : Phase → Bool
  | .closing => true
  | .stopped => true
  | _ => false

/-- A recording that has ended holds every block of its owner that was published to it, in
    order and once each, and nothing else. -/
def Complete (h : List Event) (t : State) : Prop :=
  t.recorder.phase.left = true → ∃ owner, t.recorder.owner = some owner ∧
    written h = (published h).filter (·.session = owner) ∧
    (∀ block ∈ written h,
      block.sourceGeneration = (t.stream.sessions owner).generation) ∧
    (t.recorder.phase = .stopped → t.recorder.file = (written h).flatMap (·.samples))

/-- After a wait without a block, the flag of the owner is found cleared with a block of the
    owner in the queue. -/
def Missed (e : Event) : Prop :=
  ∃ now sent stop owner q block, e.input = .act now sent ∧
    e.before.recorder.phase = .controlled none stop ∧ e.before.recorder.owner = some owner ∧
    (e.before.stream.sessions owner).live = false ∧ e.before.stream.input = some q ∧
    block ∈ q.queue.items ∧ block.session = owner

/-! ## Section 2: What holds in every state -/

/-- The worker is in its loop, with these blocks in hand. -/
structure Looping (h : List Event) (s : State) (hand : List CaptureBlock) : Prop where
  queue    : ∃ q, s.stream.input = some q ∧ q.dropped = 0 ∧
    published h = written h ++ hand ++ q.queue.items
  fresh    : s.recorder.owner = none → written h = []
  owned    : ∀ owner, s.recorder.owner = some owner → owner ≤ s.stream.session ∧
    (∀ block ∈ published h, owner ≤ block.session) ∧ ∀ block ∈ written h, block.session = owner
  unmissed : ∀ e ∈ h, ¬Missed e
  intact   : s.recorder.writer.error = none

/-- The worker has left its loop, with the rest of its owner's blocks not written. -/
def Left (h : List Event) (s : State) : Prop :=
  ∃ owner rest, s.recorder.owner = some owner ∧ owner ≤ s.stream.session ∧
    (s.stream.sessions owner).live = false ∧
    (published h).filter (·.session = owner) = written h ++ rest ∧
    (rest = [] ↔ ∀ e ∈ h, ¬Missed e)

/-- What holds by the worker's phase. -/
def AtPhase (h : List Event) (s : State) : Prop :=
  match s.recorder.phase with
  | .unstarted =>
    s.stream.input = none ∧ published h = [] ∧ written h = [] ∧ s.recorder.owner = none ∧
      s.recorder.writer.error = none ∧ ∀ e ∈ h, ¬Missed e
  | .subscribed => Looping h s [] ∧ s.recorder.owner = none ∧
      ∀ block ∈ published h, block.session = s.stream.session
  | .receiving => Looping h s []
  | .received block => Looping h s block.toList
  | .controlled block stop => stop = none ∧ Looping h s block.toList
  | .checking => Looping h s []
  | .closing => (∃ q, s.stream.input = some q ∧ q.dropped = 0) ∧ Left h s
  | .stopped => s.recorder.file = (written h).flatMap (·.samples) ∧ Left h s

structure Inv (h : List Event) (s : State) : Prop where
  sound   : s.stream.Sound
  blocks  : ∀ block ∈ published h, block.session ≤ s.stream.session ∧
    block.sourceGeneration = (s.stream.sessions block.session).generation
  sorted  : (published h).Pairwise (·.session ≤ ·.session)
  control : s.recorder.control = ⟨none, none⟩
  chunks  : s.recorder.writer.chunks.flatten = (written h).flatMap (·.samples)
  phase   : AtPhase h s

/-! ## Section 3: The producer's steps -/

section

variable {h : List Event} {s : State} {stream : CaptureStream} {p : ProducerStep} {o : Produced}

/-- A step of the producer, as an event. -/
def producerEvent (s : State) (stream : CaptureStream) (p : ProducerStep) (o : Produced) : Event :=
  ⟨s, .producer p, .produced o, { s with stream := stream }⟩

theorem not_missed_of_input {e : Event} (hinput : ∀ now sent, e.input ≠ .act now sent) :
    ¬Missed e := by
  intro hmissed
  obtain ⟨now, sent, -, -, -, -, heq, -⟩ := hmissed
  exact hinput now sent heq

theorem forall_not_missed_append {e : Event} (hall : ∀ e ∈ h, ¬Missed e) (he : ¬Missed e) :
    ∀ e' ∈ h ++ [e], ¬Missed e' := by
  intro e' he'
  rw [List.mem_append, List.mem_singleton] at he'
  obtain hold | rfl := he'
  · exact hall e' hold
  · exact he

theorem forall_not_missed_append_iff {e : Event} (he : ¬Missed e) :
    (∀ e' ∈ h ++ [e], ¬Missed e') ↔ ∀ e' ∈ h, ¬Missed e' := by
  constructor
  · intro hall e' he'
    exact hall e' (List.mem_append_left _ he')
  · intro hall
    exact forall_not_missed_append hall he

/-- The loop is not aware of the producer's step, but for its queue. -/
theorem Looping.produce {hand : List CaptureBlock} (hloop : Looping h s hand)
    (hstep : Produces s.stream p stream o) (hkept : Kept s.stream stream o)
    (haccepted : ∀ block, o ≠ .refused block) :
    Looping (h ++ [producerEvent s stream p o]) { s with stream := stream } hand := by
  obtain ⟨q, hq, hdropped, hqueue⟩ := hloop.queue
  obtain ⟨q', hq', hitems, hdropped'⟩ := hstep.queue hq
  obtain ⟨hnone, hsame⟩ := Produced.of_not_refused haccepted
  rw [hnone, List.length_nil] at hdropped'
  rw [hsame] at hitems
  have hwritten : written (h ++ [producerEvent s stream p o]) = written h := by
    simp [producerEvent, Output.written]
  have hpublished : published (h ++ [producerEvent s stream p o]) =
      published h ++ o.published := published_append ..
  refine ⟨⟨q', hq', by omega, ?_⟩, ?_, fun owner howner => ?_, ?_, hloop.intact⟩
  · rw [hpublished, hwritten, hqueue, hitems]
    simp
  · rw [hwritten]
    exact hloop.fresh
  · obtain ⟨hle, hall, hown⟩ := hloop.owned owner howner
    rw [hpublished, hwritten]
    refine ⟨hle.trans hkept.session, fun block hblock => ?_, hown⟩
    rw [List.mem_append] at hblock
    obtain hold | hnew := hblock
    · exact hall block hold
    · rw [(hkept.published hnew).1]
      exact hle
  · exact forall_not_missed_append hloop.unmissed
      (not_missed_of_input fun now sent hinput => by cases hinput)

/-- A session that has ended publishes nothing more. -/
theorem Left.produce (hleft : Left h s) (hkept : Kept s.stream stream o) :
    Left (h ++ [producerEvent s stream p o]) { s with stream := stream } := by
  obtain ⟨owner, rest, howner, hle, hended, hfilter, hrest⟩ := hleft
  refine ⟨owner, rest, howner, hle.trans hkept.session, hkept.finished owner hle hended, ?_, ?_⟩
  · have hnone : (o.published).filter (·.session = owner) = [] := by
      rw [List.filter_eq_nil_iff]
      intro block hblock hsession
      obtain ⟨hcurrent, -, -, hlive⟩ := hkept.published hblock
      have howned : block.session = owner := by simpa using hsession
      rw [← howned, hcurrent] at hended
      rw [show (s.stream.sessions s.stream.session).live = true from hlive] at hended
      cases hended
    rw [published_append, List.filter_append, hfilter]
    simp only [producerEvent, Output.published, hnone, List.append_nil, written_append,
      Output.written]
  · rw [hrest]
    exact (forall_not_missed_append_iff
      (not_missed_of_input fun now sent hinput => by cases hinput)).symm

/-- **A step of the producer.** -/
theorem Inv.produce (hinv : Inv h s) (hproduce : s.stream.produce p = some (stream, o))
    (hstart : s.recorder.phase = .subscribed → ∀ generation, p ≠ .start generation)
    (haccepted : ∀ block, o ≠ .refused block) :
    Inv (h ++ [producerEvent s stream p o]) { s with stream := stream } := by
  have hstep := produces_of_produce hproduce
  have hkept := hinv.sound.kept hstep
  have hpublished : published (h ++ [producerEvent s stream p o]) =
      published h ++ o.published := published_append ..
  have hwritten : written (h ++ [producerEvent s stream p o]) = written h := by
    simp [producerEvent, Output.written]
  have hmissed : ¬Missed (producerEvent s stream p o) :=
    not_missed_of_input fun now sent hinput => by cases hinput
  refine ⟨hkept.sound, fun block hblock => ?_, ?_, hinv.control, ?_, ?_⟩
  · rw [hpublished, List.mem_append] at hblock
    obtain hold | hnew := hblock
    · obtain ⟨hle, hgeneration⟩ := hinv.blocks block hold
      exact ⟨hle.trans hkept.session, hgeneration.trans (hkept.generation _ hle).symm⟩
    · obtain ⟨hsession, hsame, hgeneration, -⟩ := hkept.published hnew
      refine ⟨(hsession.trans hsame.symm).le, ?_⟩
      rw [hgeneration, hsession]
      exact (hkept.generation _ le_rfl).symm
  · rw [hpublished, List.pairwise_append]
    refine ⟨hinv.sorted, ?_, fun a ha b hb => ?_⟩
    · cases o with
      | silent => exact .nil
      | sent block => exact List.pairwise_singleton ..
      | refused block => exact List.pairwise_singleton ..
    · rw [(hkept.published hb).1]
      exact (hinv.blocks a ha).1
  · rw [hwritten]
    exact hinv.chunks
  · have hphase := hinv.phase
    unfold AtPhase at hphase ⊢
    cases hcase : s.recorder.phase with
    | unstarted =>
      rw [hcase] at hphase
      obtain ⟨hinput, hnone, hnothing, howner, hintact, hall⟩ := hphase
      obtain ⟨hinput', hsilent⟩ := hstep.silent hinput
      refine ⟨hinput', ?_, hwritten.trans hnothing, howner, hintact,
        forall_not_missed_append hall hmissed⟩
      rw [hpublished, hnone, hsilent]
      rfl
    | subscribed =>
      rw [hcase] at hphase
      obtain ⟨hloop, howner, hcurrent⟩ := hphase
      refine ⟨hloop.produce hstep hkept haccepted, howner, fun block hblock => ?_⟩
      -- the session stays: the thread that starts sessions is busy with the recorder
      have hsame : stream.session = s.stream.session := by
        cases hstep with
        | start => exact absurd rfl (hstart hcase _)
        | send => exact (send_fst ..).1
        | acquire => rfl
        | store => rfl
        | finish => rfl
      rw [hpublished, List.mem_append] at hblock
      show block.session = stream.session
      obtain hold | hnew := hblock
      · rw [hsame]
        exact hcurrent block hold
      · rw [hsame]
        exact (hkept.published hnew).1
    | receiving =>
      rw [hcase] at hphase
      exact hphase.produce hstep hkept haccepted
    | received block =>
      rw [hcase] at hphase
      exact hphase.produce hstep hkept haccepted
    | controlled block stop =>
      rw [hcase] at hphase
      exact ⟨hphase.1, hphase.2.produce hstep hkept haccepted⟩
    | checking =>
      rw [hcase] at hphase
      exact hphase.produce hstep hkept haccepted
    | closing =>
      rw [hcase] at hphase
      obtain ⟨⟨q, hq, hdropped⟩, hleft⟩ := hphase
      obtain ⟨q', hq', -, hdropped'⟩ := hstep.queue hq
      rw [(Produced.of_not_refused haccepted).1, List.length_nil] at hdropped'
      exact ⟨⟨q', hq', hdropped'.trans hdropped⟩, hleft.produce hkept⟩
    | stopped =>
      rw [hcase] at hphase
      obtain ⟨hfile, hleft⟩ := hphase
      rw [hwritten]
      exact ⟨hfile, hleft.produce hkept⟩

end

/-! ## Section 4: The recorder's steps -/

section

variable {h : List Event} {s : State} {input : Option Subscription} {recorder : Recorder}
  {i : Input} {o : Output}

/-- A step of the recorder, as an event. -/
def recorderEvent (s : State) (i : Input) (o : Output) (input : Option Subscription)
    (recorder : Recorder) : Event :=
  ⟨s, i, o, ⟨{ s.stream with input := input }, recorder⟩⟩

/-- The recorder's steps leave the sessions and what was published alone. -/
theorem Inv.worker (hinv : Inv h s) (hsilent : o.published = [])
    (hcontrol : recorder.control = ⟨none, none⟩)
    (hchunks : recorder.writer.chunks.flatten =
      s.recorder.writer.chunks.flatten ++ o.written.flatMap (·.samples))
    (hphase : AtPhase (h ++ [recorderEvent s i o input recorder])
      ⟨{ s.stream with input := input }, recorder⟩) :
    Inv (h ++ [recorderEvent s i o input recorder]) ⟨{ s.stream with input := input }, recorder⟩ := by
  have hpublished : published (h ++ [recorderEvent s i o input recorder]) = published h := by
    rw [published_append]
    show published h ++ o.published = _
    rw [hsilent, List.append_nil]
  refine ⟨hinv.sound.of_input input, ?_, ?_, hcontrol, ?_, hphase⟩
  · rw [hpublished]
    exact hinv.blocks
  · rw [hpublished]
    exact hinv.sorted
  · rw [hchunks, hinv.chunks, written_append, List.flatMap_append]
    rfl

/-- A step inside the loop that writes nothing. -/
theorem Looping.silent {hand hand' : List CaptureBlock} {q : Subscription}
    (hloop : Looping h s hand) (hpublished : o.published = []) (hwritten : o.written = [])
    (howner : recorder.owner = s.recorder.owner) (hintact : recorder.writer.error = none)
    (hdropped : q.dropped = 0) (hqueue : published h = written h ++ hand' ++ q.queue.items)
    (hmissed : ¬Missed (recorderEvent s i o (some q) recorder)) :
    Looping (h ++ [recorderEvent s i o (some q) recorder])
      ⟨{ s.stream with input := some q }, recorder⟩ hand' := by
  have hpublished' : published (h ++ [recorderEvent s i o (some q) recorder]) = published h := by
    rw [published_append]
    show published h ++ o.published = _
    rw [hpublished, List.append_nil]
  have hwritten' : written (h ++ [recorderEvent s i o (some q) recorder]) = written h := by
    rw [written_append]
    show written h ++ o.written = _
    rw [hwritten, List.append_nil]
  refine ⟨⟨q, rfl, hdropped, ?_⟩, fun hnone => ?_, fun owner hsome => ?_, ?_, hintact⟩
  · rw [hpublished', hwritten']
    exact hqueue
  · rw [hwritten']
    exact hloop.fresh (howner ▸ hnone)
  · rw [hpublished', hwritten']
    exact hloop.owned owner (howner ▸ hsome)
  · exact forall_not_missed_append hloop.unmissed hmissed

theorem writeCapture_ok {w w' : RawCaptureWriter} {block : CaptureBlock} {sent : TrySend}
    (h : w.writeCapture block sent = (w', none)) :
    w'.error = w.error ∧ w'.chunks.flatten = w.chunks.flatten ++ block.samples := by
  unfold RawCaptureWriter.writeCapture at h
  dsimp only at h
  split at h
  · next hempty =>
    cases h
    exact ⟨rfl, by rw [hempty, List.append_nil]⟩
  · split at h
    · cases h
    · split at h
      · cases h
      · split at h
        · cases h
        · split at h
          · cases h
            exact ⟨rfl, by simp⟩
          · cases h
          · cases h

/-- The owner's name is settled by the first block at the latest. -/
theorem Looping.owned_getD {block : CaptureBlock} (hinv : Inv h s)
    (hloop : Looping h s [block]) :
    s.recorder.owner.getD block.session ≤ s.stream.session ∧
      (∀ b ∈ published h, s.recorder.owner.getD block.session ≤ b.session) ∧
      ∀ b ∈ written h, b.session = s.recorder.owner.getD block.session := by
  obtain ⟨q, -, -, hqueue⟩ := hloop.queue
  cases howner : s.recorder.owner with
  | some owner => exact hloop.owned owner howner
  | none =>
    have hnothing := hloop.fresh howner
    rw [hnothing, List.nil_append, List.singleton_append] at hqueue
    have hsorted := hinv.sorted
    rw [hqueue, List.pairwise_cons] at hsorted
    refine ⟨(hinv.blocks block (by rw [hqueue]; exact List.mem_cons_self)).1, fun b hb => ?_,
      by simp [hnothing]⟩
    rw [hqueue, List.mem_cons] at hb
    obtain rfl | hlater := hb
    · exact le_rfl
    · exact hsorted.1 b hlater

/-- A block of another session: the owner's are all written. -/
theorem Looping.left_of_foreign {block : CaptureBlock} {owner : ℕ} (hinv : Inv h s)
    (hloop : Looping h s [block]) (hle : ∀ b ∈ published h, owner ≤ b.session)
    (hown : ∀ b ∈ written h, b.session = owner) (hne : block.session ≠ owner) :
    (published h).filter (·.session = owner) = written h ∧ owner < s.stream.session := by
  obtain ⟨q, -, -, hqueue⟩ := hloop.queue
  have hblock : block ∈ published h := by
    rw [hqueue]
    simp
  have hlt : owner < block.session := lt_of_le_of_ne (hle block hblock) hne.symm
  have hsorted := hinv.sorted
  rw [hqueue, List.append_assoc, List.pairwise_append, List.singleton_append,
    List.pairwise_cons] at hsorted
  refine ⟨?_, hlt.trans_le (hinv.blocks block hblock).1⟩
  have hwritten : (written h).filter (·.session = owner) = written h :=
    List.filter_eq_self.2 fun b hb => by simpa using hown b hb
  have hqueued : q.queue.items.filter (·.session = owner) = [] := by
    rw [List.filter_eq_nil_iff]
    intro b hb hsession
    have hlater := hsorted.2.1.1 b hb
    have howned : b.session = owner := by simpa using hsession
    omega
  rw [hqueue, List.filter_append, List.filter_append, hwritten, hqueued]
  simp [hne]

/-- The owner's generation tells nothing that its session does not tell. -/
theorem foreign_iff {block : CaptureBlock} {owner : ℕ} (hinv : Inv h s)
    (hblock : block ∈ published h) : s.foreign owner block = true ↔ block.session ≠ owner := by
  have hgeneration := (hinv.blocks block hblock).2
  simp only [State.foreign, Bool.or_eq_true, decide_eq_true_eq]
  constructor
  · intro hforeign hsession
    obtain hsession' | hgeneration' := hforeign
    · exact hsession' hsession
    · exact hgeneration' (hsession ▸ hgeneration)
  · exact Or.inl

theorem not_missed_of_block {e : Event} {block : CaptureBlock} {stop : Option ℕ}
    (hphase : e.before.recorder.phase = .controlled (some block) stop) : ¬Missed e := by
  intro hmissed
  obtain ⟨now, sent, stop', owner, q, block', -, hnone, -⟩ := hmissed
  rw [hphase] at hnone
  cases hnone

/-- The turn of the loop that has a block. -/
theorem Inv.record {block : CaptureBlock} (now : ℕ) (sent : TrySend) (hinv : Inv h s)
    (hphase : s.recorder.phase = .controlled (some block) none)
    (hloop : Looping h s [block]) (hwriting : ∀ error, (s.record block sent).2 ≠ .writeFailed error) :
    Inv (h ++ [⟨s, .act now sent, (s.record block sent).2, (s.record block sent).1⟩])
      (s.record block sent).1 := by
  obtain ⟨q, hq, hdropped, hqueue⟩ := hloop.queue
  obtain ⟨hle, hall, hown⟩ := hloop.owned_getD hinv
  have hblock : block ∈ published h := by
    rw [hqueue]
    simp
  have hmissed (e : Event) (he : e.before = s) : ¬Missed e :=
    not_missed_of_block (by rw [he]; exact hphase)
  unfold State.record at hwriting ⊢
  dsimp only at hwriting ⊢
  generalize s.recorder.owner.getD block.session = owner at *
  split at hwriting
  · next hforeign =>
    -- a block of a later session: the owner has finished, and nothing of it is left
    have hne : block.session ≠ owner := (foreign_iff hinv hblock).1 hforeign
    obtain ⟨hfilter, hlt⟩ := hloop.left_of_foreign hinv hall hown hne
    rw [if_pos hforeign]
    show Inv (h ++ [recorderEvent s (.act now sent) .silent s.stream.input
        (State.leave { s with recorder := { s.recorder with owner := some owner } } true).recorder])
      ⟨{ s.stream with input := s.stream.input },
        (State.leave { s with recorder := { s.recorder with owner := some owner } } true).recorder⟩
    refine hinv.worker ?_ ?_ ?_ ?_
    · rfl
    · exact hinv.control
    · exact (List.append_nil _).symm
    refine ⟨⟨q, hq, hdropped⟩, owner, [], rfl, hle, ?_, ?_, ?_⟩
    · exact hinv.sound.others owner (Nat.ne_of_lt hlt)
    · simp only [published_append, written_append, recorderEvent, Output.published,
        Output.written, List.append_nil]
      exact hfilter
    · simp only [true_iff]
      exact forall_not_missed_append hloop.unmissed (hmissed _ rfl)
  · next hforeign =>
    rw [if_neg hforeign]
    -- a block of the owner is written
    have hsession : block.session = owner := by
      by_contra hne
      exact hforeign ((foreign_iff hinv hblock).2 hne)
    generalize hwrite : s.recorder.writer.writeCapture block sent = r at hwriting ⊢
    obtain ⟨writer, error⟩ := r
    cases error with
    | some error => exact absurd rfl (hwriting error)
    | none =>
      obtain ⟨herror, hchunks⟩ := writeCapture_ok hwrite
      generalize s.recorder.first.or (some (block.session, block.streamSampleIndex)) = first
      show Inv (h ++ [recorderEvent s (.act now sent) (.wrote block) s.stream.input
          { s.recorder with owner := some owner, writer, first, phase := .checking }])
        ⟨{ s.stream with input := s.stream.input },
          { s.recorder with owner := some owner, writer, first, phase := .checking }⟩
      refine hinv.worker ?_ ?_ ?_ ?_
      · rfl
      · exact hinv.control
      · simpa [Output.written] using hchunks
      · refine ⟨⟨q, hq, hdropped, ?_⟩, fun hnone => (by cases hnone),
          fun owner' howner' => ?_, ?_, ?_⟩
        · simp only [published_append, written_append, recorderEvent, Output.published,
            Output.written, List.append_nil]
          exact hqueue
        · obtain rfl : owner = owner' := Option.some.inj howner'
          simp only [published_append, written_append, recorderEvent, Output.published,
            Output.written, List.append_nil]
          refine ⟨hle, hall, fun b hb => ?_⟩
          rw [List.mem_append, List.mem_singleton] at hb
          obtain hold | rfl := hb
          · exact hown b hold
          · exact hsession
        · exact forall_not_missed_append hloop.unmissed (hmissed _ rfl)
        · exact herror.trans hloop.intact

/-- The turn of the loop without a block. -/
theorem Inv.timeout (now : ℕ) (sent : TrySend) (hinv : Inv h s)
    (hphase : s.recorder.phase = .controlled none none) (hloop : Looping h s []) :
    Inv (h ++ [⟨s, .act now sent, (s.act none none now sent).2, (s.act none none now sent).1⟩])
      (s.act none none now sent).1 := by
  obtain ⟨q, hq, hdropped, hqueue⟩ := hloop.queue
  have hact : s.act none none now sent =
      if s.ownerEnded then (s.leave true, .silent)
      else ({ s with recorder := { s.recorder with phase := .checking } }, .silent) := by
    simp [State.act]
  rw [hact]
  split
  · next hended =>
    -- the loop ends here: `rest` is what of the owner is still in the queue
    obtain ⟨owner, howner, hended⟩ := Option.any_eq_true _ _ |>.1 hended
    have hended : (s.stream.sessions owner).live = false := by simpa using hended
    obtain ⟨hle, hall, hown⟩ := hloop.owned owner howner
    show Inv (h ++ [recorderEvent s (.act now sent) .silent s.stream.input
        (s.leave true).recorder])
      ⟨{ s.stream with input := s.stream.input }, (s.leave true).recorder⟩
    refine hinv.worker ?_ ?_ ?_ ?_
    · rfl
    · exact hinv.control
    · exact (List.append_nil _).symm
    refine ⟨⟨q, hq, hdropped⟩, owner, q.queue.items.filter (·.session = owner), howner, hle, hended,
      ?_, ?_⟩
    · have hwritten : (written h).filter (·.session = owner) = written h :=
        List.filter_eq_self.2 fun b hb => by simpa using hown b hb
      simp only [published_append, written_append, recorderEvent, Output.published,
        Output.written, List.append_nil]
      rw [hqueue, List.append_nil, List.filter_append, hwritten]
    -- there is none of it just when this step misses no block
    · rw [List.filter_eq_nil_iff]
      constructor
      · intro hnone
        refine forall_not_missed_append hloop.unmissed fun hmissed => ?_
        obtain ⟨-, -, -, owner', q', block, -, -, howner', -, hq', hblock, hsession⟩ := hmissed
        obtain rfl : owner = owner' := Option.some.inj (howner.symm.trans howner')
        obtain rfl : q = q' := Option.some.inj (hq.symm.trans hq')
        exact hnone block hblock (by simpa using hsession)
      · intro hall' block hblock hsession
        exact hall' _ (List.mem_append_right _ List.mem_cons_self)
          ⟨now, sent, none, owner, q, block, rfl, hphase, howner, hended, hq, hblock,
            by simpa using hsession⟩
  · next hlive =>
    have hs : (⟨{ s.stream with input := some q }, { s.recorder with phase := .checking }⟩ : State) =
        { s with recorder := { s.recorder with phase := .checking } } := by
      rw [← hq]
    rw [← hs]
    show Inv (h ++ [recorderEvent s (.act now sent) .silent (some q)
        { s.recorder with phase := .checking }]) _
    refine hinv.worker ?_ ?_ ?_ ?_
    · rfl
    · exact hinv.control
    · exact (List.append_nil _).symm
    refine hloop.silent rfl rfl rfl hloop.intact hdropped hqueue fun hmissed => ?_
    obtain ⟨-, -, -, owner, -, -, -, -, howner, hended, -⟩ := hmissed
    apply hlive
    have howner' : s.recorder.owner = some owner := howner
    have hended' : (s.stream.sessions owner).live = false := hended
    simp [State.ownerEnded, howner', hended']

/-- What the thread does after its loop leaves the chunks alone. -/
theorem finish_chunks (w : RawCaptureWriter) (io : FinishIo) : (w.finish io).chunks = w.chunks := by
  have hjoin : (w.joinDisk io.disk).chunks = w.chunks := by
    unfold RawCaptureWriter.joinDisk
    split
    · rfl
    · split
      · rfl
      · rfl
    · rfl
  have hmeasure (w : RawCaptureWriter) (size : ℕ) : (w.measure size).chunks = w.chunks := by
    unfold RawCaptureWriter.measure
    dsimp only
    cases w.capture with
    | none => split <;> rfl
    | some capture =>
      dsimp only
      split
      · split <;> rfl
      · split <;> rfl
  unfold RawCaptureWriter.finish
  dsimp only
  cases io.size with
  | none =>
    cases io.sidecar with
    | none => exact (hmeasure _ _).trans hjoin
    | some error => exact (hmeasure _ _).trans hjoin
  | some failure =>
    cases io.sidecar with
    | none => exact hjoin
    | some error => exact hjoin

/-- A step that changes nothing at all. -/
theorem AtPhase.idle {e : Event} (hphase : AtPhase h s) (hpublished : e.output.published = [])
    (hwritten : e.output.written = []) (hmissed : ¬Missed e) : AtPhase (h ++ [e]) s := by
  have hpublished' : published (h ++ [e]) = published h := by simp [hpublished]
  have hwritten' : written (h ++ [e]) = written h := by simp [hwritten]
  have hall : (∀ e' ∈ h ++ [e], ¬Missed e') = ∀ e' ∈ h, ¬Missed e' :=
    propext (forall_not_missed_append_iff hmissed)
  have hloop {hand : List CaptureBlock} (hloop : Looping h s hand) :
      Looping (h ++ [e]) s hand := by
    obtain ⟨hqueue, hfresh, howned, hunmissed, hintact⟩ := hloop
    refine ⟨?_, ?_, ?_, hall ▸ hunmissed, hintact⟩
    · rwa [hpublished', hwritten']
    · rwa [hwritten']
    · rwa [hpublished', hwritten']
  have hleft (hleft : Left h s) : Left (h ++ [e]) s := by
    unfold Left
    rw [hpublished', hwritten', hall]
    exact hleft
  unfold AtPhase at hphase ⊢
  cases hcase : s.recorder.phase with
  | unstarted =>
    rw [hcase] at hphase
    show _ ∧ _ ∧ _ ∧ _ ∧ _ ∧ _
    rw [hpublished', hwritten', hall]
    exact hphase
  | subscribed =>
    rw [hcase] at hphase
    refine ⟨hloop hphase.1, hphase.2.1, ?_⟩
    rw [hpublished']
    exact hphase.2.2
  | receiving =>
    rw [hcase] at hphase
    exact hloop hphase
  | received block =>
    rw [hcase] at hphase
    exact hloop hphase
  | controlled block stop =>
    rw [hcase] at hphase
    exact ⟨hphase.1, hloop hphase.2⟩
  | checking =>
    rw [hcase] at hphase
    exact hloop hphase
  | closing =>
    rw [hcase] at hphase
    exact ⟨hphase.1, hleft hphase.2⟩
  | stopped =>
    rw [hcase] at hphase
    refine ⟨?_, hleft hphase.2⟩
    rw [hwritten']
    exact hphase.1

/-- **A step of the recorder.** -/
theorem Inv.step {s' : State} (hinv : Inv h s) (hstep : step s i = some (s', o))
    (hquiet : Undisturbed ⟨s, i, o, s'⟩) : Inv (h ++ [⟨s, i, o, s'⟩]) s' := by
  have hphase := hinv.phase
  cases i with
  | producer p =>
    obtain ⟨stream, o', hproduce, rfl, rfl⟩ : ∃ stream o', s.stream.produce p = some (stream, o') ∧
        s' = { s with stream := stream } ∧ o = .produced o' := by
      simp only [LocalCapture.step] at hstep
      split at hstep
      · cases hstep
      · obtain ⟨⟨stream, o'⟩, hproduce, heq⟩ := Option.map_eq_some_iff.1 hstep
        cases heq
        exact ⟨stream, o', hproduce, rfl, rfl⟩
    -- a subscribed recorder holds back the start of a session
    refine hinv.produce hproduce (fun hsubscribed generation heq => ?_) fun block heq => ?_
    · subst heq
      simp [LocalCapture.step, hsubscribed] at hstep
    · exact hquiet.accepted block (by rw [heq])
  | begin deadline =>
    simp only [LocalCapture.step] at hstep
    split at hstep
    · next hunstarted =>
      cases hstep
      obtain rfl := hquiet.endless deadline (.inr rfl)
      unfold AtPhase at hphase
      rw [hunstarted] at hphase
      obtain ⟨hinput, hnone, hnothing, howner, hintact, hall⟩ := hphase
      refine hinv.worker rfl rfl (List.append_nil _).symm ?_
      have hpublished : published (h ++ [recorderEvent s (.begin none) .silent
          (some ⟨.empty 128 capacity_pos, 0⟩)
          { s.recorder with control := ⟨none, none⟩, phase := .subscribed }]) = [] := by
        simp [recorderEvent, Output.published, hnone]
      have hwritten : written (h ++ [recorderEvent s (.begin none) .silent
          (some ⟨.empty 128 capacity_pos, 0⟩)
          { s.recorder with control := ⟨none, none⟩, phase := .subscribed }]) = [] := by
        simp [recorderEvent, Output.written, hnothing]
      -- the queue is new and nothing has been published for it
      refine ⟨⟨⟨_, rfl, rfl, ?_⟩, fun _ => hwritten, fun owner hsome => ?_, ?_, hintact⟩, howner,
        fun block hblock => ?_⟩
      · rw [hpublished, hwritten]
        rfl
      · rw [show s.recorder.owner = some owner from hsome] at howner
        cases howner
      · exact forall_not_missed_append hall
          (not_missed_of_input fun now sent hinput' => by cases hinput')
      · rw [hpublished] at hblock
        cases hblock
    · cases hstep
  | readOwner =>
    simp only [LocalCapture.step] at hstep
    split at hstep
    · next hsubscribed =>
      cases hstep
      unfold AtPhase at hphase
      rw [hsubscribed] at hphase
      obtain ⟨hloop, howner, hcurrent⟩ := hphase
      have hnothing := hloop.fresh howner
      obtain ⟨q, hq, hdropped, hqueue⟩ := hloop.queue
      refine hinv.worker (o := .silent) rfl hinv.control (List.append_nil _).symm ?_
      refine ⟨⟨q, hq, hdropped, ?_⟩, fun _ => ?_, fun owner hsome => ?_, ?_, hloop.intact⟩
      · simpa [recorderEvent, Output.published, Output.written] using hqueue
      · simpa [recorderEvent, Output.written] using hnothing
      -- only a session that is live is taken for the owner
      · have hlive : owner = s.stream.session := by
          have hread : (if s.stream.progress.live then some s.stream.session else none) =
            some owner := hsome
          split at hread
          · exact (Option.some.inj hread).symm
          · cases hread
        refine ⟨hlive.le, fun block hblock => ?_, fun block hblock => ?_⟩
        · rw [hlive]
          refine (hcurrent block ?_).ge
          simpa [recorderEvent, Output.published] using hblock
        · simp [recorderEvent, Output.written, hnothing] at hblock
      · exact forall_not_missed_append hloop.unmissed
          (not_missed_of_input fun now sent hinput => by cases hinput)
    · cases hstep
  | setDeadline deadline =>
    cases hstep
    obtain rfl := hquiet.endless deadline (.inl rfl)
    -- no deadline is set in an undisturbed run, and there was none before
    have hsame : s.setControl { s.recorder.control with deadline := none } = s := by
      rw [hinv.control]
      show State.mk s.stream { s.recorder with control := ⟨none, none⟩ } = s
      rw [← hinv.control]
    rw [hsame]
    have hidle := hphase.idle (e := ⟨s, .setDeadline none, .silent, s⟩) rfl rfl
      (not_missed_of_input fun now sent hinput => by cases hinput)
    exact hinv.worker rfl hinv.control (List.append_nil _).symm hidle
  | requestStop now => exact absurd rfl (hquiet.running now)
  | receive =>
    simp only [LocalCapture.step] at hstep
    split at hstep
    · next q hreceiving hq =>
      unfold AtPhase at hphase
      rw [hreceiving] at hphase
      obtain ⟨q', hq', hdropped, hqueue⟩ := hphase.queue
      obtain rfl : q = q' := Option.some.inj (hq.symm.trans hq')
      split at hstep
      · next block queue hrecv =>
        cases hstep
        refine hinv.worker rfl hinv.control (List.append_nil _).symm ?_
        refine Looping.silent hphase rfl rfl rfl hphase.intact hdropped ?_
          (not_missed_of_input fun now sent hinput => by cases hinput)
        rw [hqueue, (BoundedQueue.tryRecv_eq_some hrecv).1]
        simp
      · next hrecv =>
        cases hstep
        have hinput : s.stream = { s.stream with input := some q } := by rw [← hq]
        rw [hinput]
        refine hinv.worker rfl hinv.control (List.append_nil _).symm ?_
        exact Looping.silent hphase rfl rfl rfl hphase.intact hdropped hqueue
          (not_missed_of_input fun now sent hinput => by cases hinput)
    · cases hstep
  | readControl =>
    simp only [LocalCapture.step] at hstep
    split at hstep
    · next block hreceived =>
      cases hstep
      unfold AtPhase at hphase
      rw [hreceived] at hphase
      obtain ⟨q, hq, hdropped, hqueue⟩ := hphase.queue
      have hinput : s.stream = { s.stream with input := some q } := by rw [← hq]
      rw [hinput]
      refine hinv.worker rfl hinv.control (List.append_nil _).symm ?_
      refine ⟨by rw [hinv.control]; rfl, ?_⟩
      exact Looping.silent hphase rfl rfl rfl hphase.intact hdropped hqueue
        (not_missed_of_input fun now sent hinput => by cases hinput)
    · cases hstep
  | act now sent =>
    simp only [LocalCapture.step] at hstep
    split at hstep
    · next block stop hcontrolled =>
      have heq := Option.some.inj hstep
      unfold AtPhase at hphase
      rw [hcontrolled] at hphase
      obtain ⟨rfl, hloop⟩ := hphase
      cases block with
      | none =>
        have hinv' := hinv.timeout now sent hcontrolled hloop
        rwa [heq] at hinv'
      | some block =>
        have hact : s.act (some block) none now sent = s.record block sent := by simp [State.act]
        rw [hact] at heq
        have hinv' := hinv.record now sent hcontrolled hloop fun error => by
          rw [heq]
          exact hquiet.writing error
        rwa [heq] at hinv'
    · cases hstep
  | check diskFinished =>
    simp only [LocalCapture.step] at hstep
    split at hstep
    · next q hchecking hq =>
      cases hstep
      obtain rfl := hquiet.disk diskFinished rfl
      unfold AtPhase at hphase
      rw [hchecking] at hphase
      obtain ⟨q', hq', hdropped, hqueue⟩ := hphase.queue
      obtain rfl : q = q' := Option.some.inj (hq.symm.trans hq')
      have hcheck : s.check q.dropped false =
          ⟨{ s.stream with input := some q }, { s.recorder with phase := .receiving }⟩ := by
        rw [hdropped]
        simp [State.check, RawCaptureWriter.progressError, hphase.intact, ← hq]
      rw [hcheck]
      refine hinv.worker rfl hinv.control (List.append_nil _).symm ?_
      exact Looping.silent hphase rfl rfl rfl hphase.intact hdropped hqueue
        (not_missed_of_input fun now sent hinput => by cases hinput)
    · cases hstep
  | close io =>
    simp only [LocalCapture.step] at hstep
    split at hstep
    · next q hclosing hq =>
      cases hstep
      have hdone := hquiet.written io rfl
      unfold AtPhase at hphase
      rw [hclosing] at hphase
      -- the owner has finished: `rest` is what came of it after the last block that was written
      obtain ⟨⟨q', hq', hdropped⟩, owner, rest, howner, hle, hended, hfilter, hrest⟩ := hphase
      obtain rfl : q = q' := Option.some.inj (hq.symm.trans hq')
      have hmissed (e : Event) (he : e.input = .close io) : ¬Missed e :=
        not_missed_of_input fun now sent hinput => by
          rw [he] at hinput
          cases hinput
      have hclose : s.close q.dropped io = ⟨{ s.stream with input := none },
          { s.recorder with
            writer := s.recorder.writer.finish io
            file := s.recorder.writer.file io.disk
            phase := .stopped }⟩ := by
        rw [hdropped]
        rfl
      rw [hclose]
      refine hinv.worker rfl hinv.control ?_ ?_
      · show (s.recorder.writer.finish io).chunks.flatten = _
        rw [finish_chunks]
        exact (List.append_nil _).symm
      · refine ⟨?_, owner, rest, howner, hle, hended, ?_, ?_⟩
        · show s.recorder.writer.file io.disk = _
          rw [hdone, written_append]
          simpa [recorderEvent, Output.written, RawCaptureWriter.file] using hinv.chunks
        · simpa [recorderEvent, Output.published, Output.written] using hfilter
        · rw [hrest]
          exact (forall_not_missed_append_iff (hmissed _ rfl)).symm
    · cases hstep

end

/-! ## Section 5: Whole runs -/

/-- The state before anything has happened. -/
theorem Inv.init {writer : RawCaptureWriter} (hchunks : writer.chunks = [])
    (herror : writer.error = none) : Inv [] (machine writer).init := by
  refine ⟨Sound.new, by simp [published], .nil, rfl, ?_, rfl, rfl, rfl, rfl, herror, by simp⟩
  show writer.chunks.flatten = _
  rw [hchunks]
  rfl

/-- What the invariant says of a recording that has ended. -/
theorem Inv.complete_iff {h : List Event} {t : State} (hinv : Inv h t)
    (hleft : t.recorder.phase.left = true) : Complete h t ↔ ∀ e ∈ h, ¬Missed e := by
  have hphase := hinv.phase
  obtain ⟨hfile, hended⟩ : (t.recorder.phase = .stopped →
      t.recorder.file = (written h).flatMap (·.samples)) ∧ Left h t := by
    unfold AtPhase at hphase
    cases hcase : t.recorder.phase with
    | closing =>
      rw [hcase] at hphase
      exact ⟨fun heq => (by cases heq), hphase.2⟩
    | stopped =>
      rw [hcase] at hphase
      exact ⟨fun _ => hphase.1, hphase.2⟩
    | unstarted | subscribed | receiving | received | controlled | checking =>
      rw [hcase] at hleft
      cases hleft
  obtain ⟨owner, rest, howner, -, -, hfilter, hrest⟩ := hended
  rw [← hrest]
  constructor
  · intro hcomplete
    obtain ⟨owner', howner', hall, -⟩ := hcomplete hleft
    obtain rfl : owner = owner' := Option.some.inj (howner.symm.trans howner')
    rw [hall] at hfilter
    simpa using hfilter
  · intro hnone _
    rw [hnone, List.append_nil] at hfilter
    refine ⟨owner, howner, hfilter.symm, fun block hblock => ?_, hfile⟩
    rw [← hfilter, List.mem_filter] at hblock
    have hsession : block.session = owner := by simpa using hblock.2
    rw [← hsession]
    exact (hinv.blocks block hblock.1).2

/-- The flag has not been read in vain while the worker is in its loop. -/
theorem Inv.unmissed {h : List Event} {t : State} (hinv : Inv h t)
    (hinside : t.recorder.phase.left = false) : ∀ e ∈ h, ¬Missed e := by
  have hphase := hinv.phase
  unfold AtPhase at hphase
  cases hcase : t.recorder.phase with
  | unstarted =>
    rw [hcase] at hphase
    exact hphase.2.2.2.2.2
  | subscribed =>
    rw [hcase] at hphase
    exact hphase.1.unmissed
  | controlled block stop =>
    rw [hcase] at hphase
    exact hphase.2.unmissed
  | receiving | received | checking =>
    rw [hcase] at hphase
    exact hphase.unmissed
  | closing | stopped =>
    rw [hcase] at hinside
    cases hinside

/-- **The end of a recording.** In a run without overflow, stop request, deadline or write
    error, the recording is complete if and only if the flag of the owner was never found
    cleared, after a wait without a block, with a block of the owner in the queue. -/
theorem recording_complete_iff {frequencyHz sampleRateHz : Option ℕ} {audioPending : Bool}
    {is : List Input} {h : List Event} {t : State}
    (hrun : (machine (.new frequencyHz sampleRateHz audioPending)).run
      (machine (.new frequencyHz sampleRateHz audioPending)).init is = some (t, h))
    (hquiet : ∀ e ∈ h, Undisturbed e) :
    Complete h t ↔ ∀ e ∈ h, ¬Missed e := by
  have hinv : (∀ e ∈ h, Undisturbed e) → Inv h t := by
    refine Machine.run_inv _ (P := fun h s => (∀ e ∈ h, Undisturbed e) → Inv h s)
      (I := fun _ => True) (fun _ => Inv.init rfl rfl) ?_ (fun _ _ => trivial) hrun
    intro h s i s' o hP _ hstep hall
    have hold := hP fun e he => hall e (List.mem_append_left _ he)
    exact hold.step hstep (hall _ (List.mem_append_right _ List.mem_cons_self))
  cases hleft : t.recorder.phase.left with
  | true => exact (hinv hquiet).complete_iff hleft
  | false =>
    have hall := (hinv hquiet).unmissed hleft
    refine ⟨fun _ => hall, fun _ hended => ?_⟩
    rw [hleft] at hended
    cases hended

/-! ## Section 6: A lost block -/

/-- Nothing in the input disturbs the recording. -/
def Input.calm : Input → Bool
  | .requestStop _ => false
  | .setDeadline deadline => deadline.isNone
  | .begin deadline => deadline.isNone
  | .check diskFinished => !diskFinished
  | .close io => match io.disk with
    | .done => true
    | _ => false
  | _ => true

/-- Nothing in the output disturbs the recording. -/
def Output.calm : Output → Bool
  | .produced (.refused _) => false
  | .writeFailed _ => false
  | _ => true

theorem undisturbed_of_calm {e : Event} (hinput : e.input.calm = true)
    (houtput : e.output.calm = true) : Undisturbed e := by
  refine ⟨fun block heq => ?_, fun now heq => ?_, fun deadline heq => ?_, fun error heq => ?_,
    fun finished heq => ?_, fun io heq => ?_⟩
  · rw [heq] at houtput
    cases houtput
  · rw [heq] at hinput
    cases hinput
  · obtain heq | heq := heq
    all_goals
      rw [heq] at hinput
      exact Option.isNone_iff_eq_none.1 hinput
  · rw [heq] at houtput
    cases houtput
  · rw [heq] at hinput
    simpa [Input.calm] using hinput
  · rw [heq] at hinput
    unfold Input.calm at hinput
    dsimp only at hinput
    split at hinput
    · assumption
    · cases hinput

/-- What a run shows at its end. -/
structure Summary where
  calm      : Bool
  published : List CaptureBlock
  written   : List CaptureBlock
  phase     : Phase
  owner     : Option ℕ
  complete  : Option Bool
  deriving DecidableEq

def summary (r : State × List Event) : Summary where
  calm := r.2.all fun e => e.input.calm && e.output.calm
  published := LocalCapture.published r.2
  written := LocalCapture.written r.2
  phase := r.1.recorder.phase
  owner := r.1.recorder.owner
  complete := r.1.recorder.writer.metadata.complete

theorem undisturbed_of_summary {r : State × List Event} (h : (summary r).calm = true) :
    ∀ e ∈ r.2, Undisturbed e := by
  intro e he
  have hcalm := List.all_eq_true.1 h e he
  rw [Bool.and_eq_true] at hcalm
  exact undisturbed_of_calm hcalm.1 hcalm.2

/-- A recorder on a file for the source below. -/
def exampleMachine : Machine State Input Output := machine (.new (some 1090) (some 2400000) false)

def exampleClock : Ingest.CaptureClock := .new 9 0 2400000 none

/-- The producer sends one block and finishes. -/
def lastBlock : List Input :=
  [.producer (.acquire [90, 110] exampleClock 1090 0), .producer .send, .producer .store,
    .producer .finish]

def start : List Input := [.producer (.start 1), .begin none, .readOwner]

/-- The recorder receives the block before it looks at the flag. -/
def inTime : List Input :=
  start ++ lastBlock ++
    [.receive, .readControl, .act 0 .ok, .check false, .receive, .readControl, .act 0 .ok,
      .close ⟨.done, none, none⟩]

/-- The wait has timed out when the block comes, and the flag is read after that. -/
def tooLate : List Input :=
  start ++ [.receive, .readControl] ++ lastBlock ++ [.act 0 .ok, .close ⟨.done, none, none⟩]

theorem inTime_complete : ∃ h t, exampleMachine.run exampleMachine.init inTime = some (t, h) ∧
    (Complete h t ↔ ∀ e ∈ h, ¬Missed e) := by
  have hsome : (exampleMachine.run exampleMachine.init inTime).isSome = true := by decide
  obtain ⟨⟨t, h⟩, hrun⟩ := Option.isSome_iff_exists.1 hsome
  have hcalm : (exampleMachine.run exampleMachine.init inTime).map (fun r => (summary r).calm) =
    some true := by decide
  rw [hrun] at hcalm
  exact ⟨h, t, hrun, recording_complete_iff hrun (undisturbed_of_summary (Option.some.inj hcalm))⟩

/-- The last block stays in the queue, and the side-car says that all is there. -/
theorem tooLate_incomplete : ∃ h t, exampleMachine.run exampleMachine.init tooLate = some (t, h) ∧
    (∀ e ∈ h, Undisturbed e) ∧ ¬Complete h t ∧
      t.recorder.writer.metadata.complete = some true := by
  have hsummary : (exampleMachine.run exampleMachine.init tooLate).map summary =
      some ⟨true, [⟨[90, 110], exampleClock, 1090, 0, 1, 0, 1⟩], [], .stopped, some 1,
        some true⟩ := by decide
  obtain ⟨⟨t, h⟩, hrun, hvalue⟩ := Option.map_eq_some_iff.1 hsummary
  simp only [summary, Summary.mk.injEq] at hvalue
  obtain ⟨hcalm, hpublished, hwritten, hphase, howner, hcomplete⟩ := hvalue
  refine ⟨h, t, hrun, undisturbed_of_summary (r := (t, h)) hcalm, fun hall => ?_, hcomplete⟩
  obtain ⟨owner, howner', heq, -⟩ := hall (by rw [hphase]; rfl)
  obtain rfl : owner = 1 := Option.some.inj (howner'.symm.trans howner)
  rw [hpublished, hwritten] at heq
  revert heq
  decide

end LocalCapture
