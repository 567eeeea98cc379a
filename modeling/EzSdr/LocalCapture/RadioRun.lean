import EzSdr.Framework.OfferLog
import EzSdr.LocalCapture.AdsbRun
import EzSdr.LocalCapture.Radio

/-! # The Accounts of the Radio Worker

    The worker infers what it lost: from the indices of the blocks it gets,
    from the session they are of when that has ended, and, with an empty queue,
    from the total of all sessions. It reads the total after it has looked at
    the queue, and a session may begin in between; and a worker that begins in
    the middle of a session takes what was published before for lost.

    **`losses_real`**: as long as the worker begins before anything was published
    and the total is never read with a block on its way, what the worker says it
    lost was refused by its queue, and after the last session all samples are
    received or lost. -/

namespace LocalCapture.Radio

open CaptureStream
open Adsb (samplesOf allSamples Counted unsent)

abbrev Event : Type := Machine.Event State Input Output

/-! ## Section 1: What a run has done -/

/-- What the worker's queue was offered in a step of the producer. -/
def offers : Produced → OfferLog CaptureBlock
  | .silent => []
  | .sent block => [(block, true)]
  | .refused block => [(block, false)]

def Output.offers : Output → OfferLog CaptureBlock
  | .produced o => Radio.offers o
  | _ => []

def Output.processed? : Output → List CaptureBlock
  | .processed block => [block]
  | _ => []

def offerLog (h : List Event) : OfferLog CaptureBlock := h.flatMap (·.output.offers)

def processed (h : List Event) : List CaptureBlock := h.flatMap (·.output.processed?)

/-- Samples of the blocks that the worker's queue refused. -/
def refusedSamples (h : List Event) : ℕ := allSamples (offerLog h).refused

/-- The block received and not processed yet. -/
def Phase.hand : Phase → List CaptureBlock
  | .received (some block) _ => [block]
  | _ => []

/-- Blocks that the worker still has to process. -/
def State.pending (s : State) : List CaptureBlock :=
  s.phase.hand ++ s.stream.input.elim [] (·.queue.items)

/-- The worker does not subscribe after a block was published, and the total is not read with a
    block on its way to it. -/
def InTime (e : Event) : Prop :=
  (e.input = .subscribe → e.before.stream.totalSamples = unsent e.before.stream) ∧
    (e.input = .readTotal → e.before.pending = [] ∧ unsent e.before.stream = 0)

theorem offers_offered (o : Produced) : (offers o).offered = o.published := by
  cases o <;> rfl

theorem offers_taken (o : Produced) : (offers o).taken = o.accepted := by
  cases o <;> rfl

/-! ## Section 2: The order of blocks -/

/-- Each block has the index of the samples of its generation before it, and
    no block comes before one of an earlier generation. -/
def Indexed (published : List CaptureBlock) : Prop :=
  ∀ a b c, published = a ++ b :: c → b.streamSampleIndex = samplesOf b.sourceGeneration a ∧
    ∀ x ∈ a, x.sourceGeneration ≤ b.sourceGeneration

/-- The progress of a finished session is what was published of it. -/
def Closed (published : List CaptureBlock) (s : CaptureStream) : Prop :=
  ∀ i ≤ s.session, (s.sessions i).live = false →
    (s.sessions i).samples = samplesOf (s.sessions i).generation published

section

variable {sent : List CaptureBlock} {s s' : CaptureStream} {p : ProducerStep} {o : Produced}

theorem Indexed.produce (h : Indexed sent) (hcounted : Counted sent s)
    (hstep : Produces s p s' o) : Indexed (sent ++ o.published) := by
  have hnew (block : CaptureBlock) (hblock : o.published = [block]) :
      Indexed (sent ++ [block]) := by
    have hmem : block ∈ o.published := by
      rw [hblock]
      exact List.mem_singleton_self block
    obtain ⟨hgeneration, hindex, -⟩ := hcounted.continues hstep hmem
    intro a b c hsplit
    rcases Machine.split_concat hsplit with ⟨rfl, rfl⟩ | ⟨c', hold⟩
    · rw [hgeneration]
      exact ⟨hindex, fun x hx => hcounted.le_generation hx⟩
    · exact h a b c' hold
  cases o with
  | silent =>
    rw [Produced.published, List.append_nil]
    exact h
  | sent block => exact hnew block rfl
  | refused block => exact hnew block rfl

/-- A block that is sent now is of no finished session. -/
theorem sent_of_live (hcounted : Counted sent s) (hstep : Produces s p s' o) {i : ℕ}
    (hi : i ≤ s.session) (hended : (s.sessions i).live = false) :
    samplesOf (s.sessions i).generation (sent ++ o.published) =
      samplesOf (s.sessions i).generation sent := by
  have hnone : samplesOf (s.sessions i).generation o.published = 0 := by
    refine Adsb.samplesOf_eq_zero fun block hblock heq => ?_
    obtain ⟨-, -, hgeneration, hlive⟩ := (hcounted.sound.kept hstep).published hblock
    have hcurrent := hcounted.session_eq hi (heq.symm.trans hgeneration)
    subst hcurrent
    have hlive' : (s.sessions s.session).live = true := hlive
    rw [hended] at hlive'
    cases hlive'
  rw [Adsb.samplesOf_append, hnone, Nat.add_zero]

theorem Closed.produce (h : Closed sent s) (hcounted : Counted sent s)
    (hinput : s.input.isSome = true) (hstep : Produces s p s' o) :
    Closed (sent ++ o.published) s' := by
  have hsent := fun i hi hended => sent_of_live hcounted hstep (i := i) hi hended
  have hnext := hcounted.produce hinput hstep
  have hsame (hsession : s'.session = s.session) (hsessions : s'.sessions = s.sessions) :
      Closed (sent ++ o.published) s' := by
    intro i hi hended
    rw [hsessions] at hended ⊢
    rw [hsession] at hi
    rw [hsent i hi hended]
    exact h i hi hended
  cases hstep with
  | @start generation hidle hless =>
    intro i hi hended
    have hsession : (s.start generation).session = s.session + 1 := rfl
    obtain rfl | hlt : i = s.session + 1 ∨ i ≤ s.session := by omega
    · have hlive : ((s.start generation).sessions (s.session + 1)).live = true := by
        show (s.start generation).progress.live = true
        rw [s.start_progress]
      rw [hlive] at hended
      cases hended
    · have hold : ((s.start generation).sessions i).samples = (s.sessions i).samples ∧
          ((s.start generation).sessions i).generation = (s.sessions i).generation := by
        have hne : i ≠ s.session + 1 := by omega
        have hupdate : (s.start generation).sessions i =
            Function.update s.sessions s.session { s.progress with live := false } i :=
          Function.update_of_ne hne ..
        rw [hupdate]
        by_cases hcurrent : i = s.session
        · subst hcurrent
          simp [progress]
        · rw [Function.update_of_ne hcurrent]
          exact ⟨rfl, rfl⟩
      have hwas : (s.sessions i).live = false := by
        by_cases hcurrent : i = s.session
        · subst hcurrent
          exact hcounted.sound.idle hidle
        · exact hcounted.sound.others i hcurrent
      rw [hold.1, hold.2, hsent i hlt hwas]
      exact h i hlt hwas
  | acquire => exact hsame rfl rfl
  | @send q block hp hcount =>
    obtain ⟨hsession, hsessions, -⟩ := send_fst s q block
    exact hsame hsession hsessions
  | @store q block hp hstored =>
    obtain ⟨hcurrent, hlive, -⟩ := hcounted.sound.busy q hp
    intro i hi hended
    have hne : i ≠ q.session := by
      rintro rfl
      have hupdate : (s.store q block).sessions q.session =
          ⟨block.sourceGeneration, block.next, (s.sessions q.session).blocks + 1, true⟩ :=
        Function.update_self ..
      rw [hupdate] at hended
      cases hended
    have hold : (s.store q block).sessions i = s.sessions i := Function.update_of_ne hne ..
    rw [hold] at hended ⊢
    rw [hsent i hi hended]
    exact h i hi hended
  | @finish q hp hready =>
    obtain ⟨hcurrent, -⟩ := hcounted.sound.busy q hp
    intro i hi hended
    by_cases hi' : i = s.session
    · subst hi'
      exact hnext.samples_eq rfl
    · have hne : i ≠ q.session := by
        rw [hcurrent]
        exact hi'
      have hold : (s.finish q).sessions i = s.sessions i := Function.update_of_ne hne ..
      rw [hold] at hended ⊢
      rw [hsent i hi hended]
      exact h i hi hended

end

section

variable {sent : List CaptureBlock} {s s' : CaptureStream} {p : ProducerStep} {o : Produced}

/-- Only a start changes the generation; every other step is a producer's. -/
theorem generation_of_produces (hcounted : Counted sent s) (hstep : Produces s p s' o) :
    s.progress.generation < s'.progress.generation ∧ o.published = [] ∨
      s'.progress.generation = s.progress.generation ∧ s.producer ≠ none := by
  have hkept := hcounted.sound.kept hstep
  have hsame (hsession : s'.session = s.session) :
      s'.progress.generation = s.progress.generation := by
    unfold progress
    rw [hsession]
    exact hkept.generation _ le_rfl
  cases hstep with
  | @start generation hidle hless =>
    refine .inl ⟨?_, rfl⟩
    rw [s.start_progress]
    exact hless
  | @acquire q _ _ _ _ hp => exact .inr ⟨hsame rfl, by rw [hp]; exact Option.some_ne_none q⟩
  | @send q block hp =>
    exact .inr ⟨hsame (send_fst s q block).1, by rw [hp]; exact Option.some_ne_none q⟩
  | @store q block hp => exact .inr ⟨hsame rfl, by rw [hp]; exact Option.some_ne_none q⟩
  | @finish q hp => exact .inr ⟨hsame rfl, by rw [hp]; exact Option.some_ne_none q⟩

/-- A block is refused only while others wait. -/
theorem waiting_of_refused {block : CaptureBlock} {q : Subscription} (hq : s.input = some q)
    (hstep : Produces s p s' (.refused block)) : q.queue.items ≠ [] := by
  generalize ho : Produced.refused block = o at hstep
  cases hstep with
  | @send r b hp hcounted =>
    intro hempty
    have hroom : q.queue.trySend b ≠ none := by
      rw [Ne, BoundedQueue.trySend_eq_none, hempty]
      exact q.queue.pos.ne
    obtain ⟨queue, hsend⟩ := Option.ne_none_iff_exists'.1 hroom
    have hsent : (s.send r b).2 = .sent b := by
      simp [CaptureStream.send, hq, Subscription.offer, hsend]
    rw [hsent] at ho
    cases ho
  | start => cases ho
  | acquire => cases ho
  | store => cases ho
  | finish => cases ho

end

/-! ## Section 3: What the processor counts -/

/-- The figures that the accounts are kept with. -/
structure Figures where
  lost       : ℕ
  received   : ℕ
  generation : ℕ
  session    : Option ℕ
  nextStream : ℕ

def Processor.figures (p : Processor) : Figures where
  lost := p.snapshot.lostSamples
  received := p.snapshot.receivedSamples
  generation := p.snapshot.generation
  session := p.session
  nextStream := p.nextStream

/-- Samples missing at the end of the session of the last block. -/
def Figures.tail (f : Figures) (sessions : ℕ → CaptureProgress) : ℕ :=
  match f.session with
  | none => 0
  | some i => if (sessions i).live then 0 else (sessions i).samples - f.nextStream

/-- The figures after a block. -/
def Figures.process (f : Figures) (sessions : ℕ → CaptureProgress) (block : CaptureBlock) :
    Figures where
  lost :=
    if f.generation ≠ block.sourceGeneration then
      f.lost + f.tail sessions + block.streamSampleIndex
    else f.lost + (block.streamSampleIndex - f.nextStream)
  received := f.received + block.count
  generation := block.sourceGeneration
  session := if f.generation ≠ block.sourceGeneration then some block.session else f.session
  nextStream := block.next

theorem configure_figures (p : Processor) (desired : WorkerControl) (changed : Bool) :
    (p.configure desired changed).figures = p.figures := by
  unfold Processor.configure
  split <;> rfl

theorem rejectAudio_figures (p : Processor) (block : CaptureBlock) (desired : WorkerControl)
    (subscribed : Bool) : (p.rejectAudio block desired subscribed).1.figures = p.figures := by
  unfold Processor.rejectAudio
  split <;> rfl

theorem receive_figures (p : Processor) (block : CaptureBlock) (missing : ℕ)
    (desired : WorkerControl) (subscribed : Bool) (audio : List (BitVec 16)) :
    (p.receive block missing desired subscribed audio).1.figures = p.figures := by
  unfold Processor.receive
  dsimp only
  generalize hp : (if ¬p.expected = some (block.sourceGeneration, block.centerHz, block.clock) ∨
    missing > 0 then p.reset else p) = p'
  have hsame : p'.figures = p.figures := by
    rw [← hp]
    split <;> rfl
  split
  · rw [rejectAudio_figures]
    exact hsame
  · split
    · rw [rejectAudio_figures]
      exact hsame
    · split
      · exact hsame
      · split
        · split <;> exact hsame
        · split <;> exact hsame

theorem count_figures (p : Processor) (block : CaptureBlock) :
    (p.count block).1.figures =
      { p.figures with
        lost := p.figures.lost + (block.streamSampleIndex - p.figures.nextStream)
        received := p.figures.received + block.count
        nextStream := block.next } := rfl

theorem accountTail_figures (p : Processor) (sessions : ℕ → CaptureProgress) :
    (p.accountTail sessions).figures.lost = p.figures.lost + p.figures.tail sessions ∧
      (p.accountTail sessions).figures.received = p.figures.received ∧
      (p.accountTail sessions).figures.generation = p.figures.generation ∧
      (p.accountTail sessions).figures.session = p.figures.session ∧
      ∀ i, p.session = some i → (sessions i).live = false →
        (p.accountTail sessions).nextStream = (sessions i).samples := by
  unfold Processor.accountTail Figures.tail Processor.figures
  cases hsession : p.session with
  | none => exact ⟨rfl, rfl, rfl, hsession, fun i hi => by cases hi⟩
  | some i =>
    dsimp only
    split
    · next hlive =>
      refine ⟨rfl, rfl, rfl, hsession, fun j hj hended => ?_⟩
      cases hj
      rw [hlive] at hended
      cases hended
    · refine ⟨rfl, rfl, rfl, rfl, fun j hj _ => ?_⟩
      cases hj
      rfl

theorem process_figures (p : Processor) (sessions : ℕ → CaptureProgress) (block : CaptureBlock)
    (desired : WorkerControl) (subscribed : Bool) (audio : List (BitVec 16)) :
    (p.process sessions block desired subscribed audio).1.figures =
      p.figures.process sessions block := by
  have hcounted : ((if p.snapshot.generation ≠ block.sourceGeneration then p.begin sessions block
      else p).count block).1.figures = p.figures.process sessions block := by
    rw [count_figures]
    by_cases hnew : p.snapshot.generation ≠ block.sourceGeneration
    · obtain ⟨hlost, hreceived, -⟩ := accountTail_figures p sessions
      have hnew' : p.figures.generation ≠ block.sourceGeneration := hnew
      unfold Figures.process
      rw [if_pos hnew, if_pos hnew', if_pos hnew', ← hlost, ← hreceived]
      rfl
    · have hnew' : ¬p.figures.generation ≠ block.sourceGeneration := hnew
      have hsame : block.sourceGeneration = p.figures.generation := (not_not.1 hnew).symm
      unfold Figures.process
      rw [if_neg hnew, if_neg hnew', if_neg hnew', hsame]
  unfold Processor.process
  dsimp only
  split
  · exact hcounted
  · rw [receive_figures]
    exact hcounted

/-! ## Section 4: What holds in every state -/

/-- The progress that the worker has read in this turn. -/
def Phase.current? : Phase → Option CaptureProgress
  | .progressRead current => some current
  | .ended current => some current
  | .tailAccounted current => some current
  | _ => none

/-- The figures are about to be replaced by those of the total. -/
def Phase.tailed : Phase → Bool
  | .tailAccounted _ => true
  | _ => false

/-- The last generation. -/
def State.generation (s : State) : ℕ := s.stream.progress.generation

def State.figures (s : State) : Figures := s.processor.figures

/-- The worker is between `done` and `todo` in the log of its queue. -/
structure Placed (s : State) (done todo : OfferLog CaptureBlock) : Prop where
  lost     : s.figures.lost ≤ allSamples done.refused
  passed   : ∀ b ∈ done.offered, b.sourceGeneration ≤ s.figures.generation
  ahead    : ∀ b ∈ todo.offered, s.figures.generation ≤ b.sourceGeneration
  /-- The session of the last block, and the sample after it. -/
  session  : ∀ i, s.figures.session = some i →
    s.figures.nextStream = samplesOf s.figures.generation done.offered
  /-- Nothing more comes of the session that has been given up. -/
  given_up : s.figures.session = none → ∀ b ∈ todo.offered, s.figures.generation < b.sourceGeneration

/-- What is known of a progress that was read. -/
structure Reading (log : OfferLog CaptureBlock) (s : State) (current : CaptureProgress) : Prop where
  le     : current.generation ≤ s.generation
  passed : s.figures.generation ≤ current.generation
  ended  : current.live = false →
    (∀ i, s.figures.session = some i → (s.stream.sessions i).live = false) ∧
      (current.generation = s.generation → s.stream.producer = none)
  /-- Later generations are still on their way. -/
  later  : s.pending = [] → ∀ b ∈ log.offered, b.sourceGeneration ≤ current.generation

structure Inv (h : List Event) (s : State) : Prop where
  counted  : Counted (offerLog h).offered s.stream
  input    : s.stream.input.isSome = true
  indexed  : Indexed (offerLog h).offered
  closed   : Closed (offerLog h).offered s.stream
  received : s.figures.received = allSamples (processed h)
  taken    : (offerLog h).taken = processed h ++ s.pending
  le       : s.figures.generation ≤ s.generation
  session  : ∀ i, s.figures.session = some i → i ≤ s.stream.session ∧
    (s.stream.sessions i).generation = s.figures.generation
  given_up : s.figures.session = none → s.figures.generation = s.generation →
    s.stream.producer = none
  place    : s.phase.tailed = false → ∃ done todo, offerLog h = done ++ todo ∧
    done.taken = processed h ∧ Placed s done todo
  reading  : ∀ current, s.phase.current? = some current → Reading (offerLog h) s current
  ended    : ∀ current, s.phase = .ended current ∨ s.phase = .tailAccounted current →
    current.live = false
  tail     : s.phase.tailed = true → ∀ i, s.figures.session = some i →
    s.figures.nextStream = samplesOf s.figures.generation (offerLog h).offered
  lost     : s.lost ≤ refusedSamples h

section

variable {h : List Event} {s s' : State} {e : Event}

theorem offerLog_append : offerLog (h ++ [e]) = offerLog h ++ e.output.offers := by
  simp [offerLog]

theorem processed_append : processed (h ++ [e]) = processed h ++ e.output.processed? := by
  simp [processed]

/-- A step in which nothing is offered or processed. -/
theorem logs_quiet (hoffers : e.output.offers = []) (hprocessed : e.output.processed? = []) :
    offerLog (h ++ [e]) = offerLog h ∧ processed (h ++ [e]) = processed h := by
  rw [offerLog_append, processed_append, hoffers, hprocessed, List.append_nil, List.append_nil]
  exact ⟨rfl, rfl⟩

theorem refusedSamples_append : refusedSamples (h ++ [e]) =
    refusedSamples h + allSamples (OfferLog.refused e.output.offers) := by
  unfold refusedSamples
  rw [offerLog_append, OfferLog.refused_append, Adsb.allSamples_append]

/-! ### Steps of the producer -/

theorem Inv.produce {p : ProducerStep} {stream : CaptureStream} {o : Produced} (hinv : Inv h s)
    (hstep : Produces s.stream p stream o) :
    Inv (h ++ [⟨s, .producer p, .produced o, { s with stream := stream }⟩])
      { s with stream := stream } := by
  obtain ⟨q, hq⟩ := Option.isSome_iff_exists.1 hinv.input
  obtain ⟨q', hq', hitems, -⟩ := Produces.queue hstep hq
  have hkept := hinv.counted.sound.kept hstep
  generalize he : (⟨s, .producer p, .produced o, { s with stream := stream }⟩ : Event) = e
  have hlog : offerLog (h ++ [e]) = offerLog h ++ offers o := by
    rw [offerLog_append, ← he]
    rfl
  have hoffered : (offerLog (h ++ [e])).offered = (offerLog h).offered ++ o.published := by
    rw [hlog, OfferLog.offered_append, offers_offered]
  have hprocessed : processed (h ++ [e]) = processed h := by
    rw [processed_append, ← he]
    exact List.append_nil _
  have hpending : State.pending { s with stream := stream } = s.pending ++ o.accepted := by
    unfold State.pending
    dsimp only
    rw [hq, hq']
    dsimp only [Option.elim]
    rw [hitems, List.append_assoc]
  have hgeneration := generation_of_produces hinv.counted hstep
  have hfigures : State.figures { s with stream := stream } = s.figures := rfl
  have hle : s.generation ≤ State.generation { s with stream := stream } := by
    rcases hgeneration with hstart | hsame
    · exact hstart.1.le
    · exact hsame.1.ge
  -- a producer at work keeps the generation, and there is none before a start
  have hidle (g : ℕ) (hg : g ≤ s.generation) (hnone : g = s.generation → s.stream.producer = none)
      (heq : g = State.generation { s with stream := stream }) : stream.producer = none := by
    rcases hgeneration with hstart | hsame
    · have hless : s.generation < State.generation { s with stream := stream } := hstart.1
      omega
    · have hsame' : State.generation { s with stream := stream } = s.generation := hsame.1
      exact absurd (hnone (by omega)) hsame.2
  have hnew (hnone : s.figures.session = none) (b : CaptureBlock) (hb : b ∈ o.published) :
      s.figures.generation < b.sourceGeneration := by
    obtain ⟨-, -, hcurrent, -⟩ := hkept.published hb
    have hcurrent' : b.sourceGeneration = s.generation := hcurrent
    have hworking : s.stream.producer ≠ none := by
      rcases hgeneration with hstart | hsame
      · rw [hstart.2] at hb
        cases hb
      · exact hsame.2
    have hne : s.figures.generation ≠ s.generation :=
      fun heq => hworking (hinv.given_up hnone heq)
    rw [hcurrent']
    exact lt_of_le_of_ne hinv.le hne
  constructor
  case counted =>
    rw [hoffered]
    exact hinv.counted.produce hinv.input hstep
  case input =>
    show stream.input.isSome = true
    rw [hq']
    rfl
  case indexed =>
    rw [hoffered]
    exact hinv.indexed.produce hinv.counted hstep
  case closed =>
    rw [hoffered]
    exact hinv.closed.produce hinv.counted hinv.input hstep
  case received =>
    rw [hprocessed]
    exact hinv.received
  case taken =>
    rw [hlog, OfferLog.taken_append, offers_taken, hprocessed, hpending, hinv.taken,
      List.append_assoc]
  case le => exact hinv.le.trans hle
  case session =>
    intro i hi
    obtain ⟨hi', hgen⟩ := hinv.session i hi
    exact ⟨hi'.trans hkept.session, (hkept.generation i hi').trans hgen⟩
  case given_up =>
    intro hnone heq
    exact hidle _ hinv.le (hinv.given_up hnone) heq
  case place =>
    intro htailed
    obtain ⟨done, todo, hsplit, hdone, hplaced⟩ := hinv.place htailed
    refine ⟨done, todo ++ offers o, ?_, ?_,
      ⟨hplaced.lost, hplaced.passed, fun b hb => ?_, hplaced.session, ?_⟩⟩
    · rw [hlog, hsplit, List.append_assoc]
    · rw [hprocessed]
      exact hdone
    · rw [OfferLog.offered_append, offers_offered, List.mem_append] at hb
      rcases hb with hold | hb
      · exact hplaced.ahead b hold
      · have hcurrent : b.sourceGeneration = s.generation := (hkept.published hb).2.2.1
        rw [hcurrent]
        exact hinv.le
    · intro hnone b hb
      rw [OfferLog.offered_append, offers_offered, List.mem_append] at hb
      rcases hb with hold | hb
      · exact hplaced.given_up hnone b hold
      · exact hnew hnone b hb
  case reading =>
    intro current hcurrent
    have hreading := hinv.reading current hcurrent
    refine ⟨hreading.le.trans hle, hreading.passed, fun hended => ⟨fun i hi => ?_, ?_⟩, ?_⟩
    · exact hkept.finished i (hinv.session i hi).1 ((hreading.ended hended).1 i hi)
    · exact hidle _ hreading.le (hreading.ended hended).2
    · intro hempty b hb
      rw [hpending, List.append_eq_nil_iff] at hempty
      rw [hoffered, List.mem_append] at hb
      rcases hb with hold | hb
      · exact hreading.later hempty.1 b hold
      · -- with an empty queue nothing is refused
        exfalso
        cases o with
        | silent => cases hb
        | sent b' => cases hempty.2
        | refused b' =>
          have hwaiting := waiting_of_refused hq hstep
          have hitems' : q.queue.items = [] := by
            have hall := hempty.1
            unfold State.pending at hall
            rw [hq] at hall
            exact (List.append_eq_nil_iff.1 hall).2
          exact hwaiting hitems'
  case ended => exact hinv.ended
  case tail =>
    intro htailed i hi
    obtain ⟨hi', hgen⟩ := hinv.session i hi
    have hended : (s.stream.sessions i).live = false := by
      have hphase : ∃ current, s.phase = .tailAccounted current := by
        cases hp : s.phase with
        | tailAccounted current => exact ⟨current, rfl⟩
        | _ => simp [hp, Phase.tailed] at htailed
      obtain ⟨current, hphase⟩ := hphase
      have hreading := hinv.reading current (by rw [hphase]; rfl)
      exact (hreading.ended (hinv.ended current (.inr hphase))).1 i hi
    have hsame := sent_of_live hinv.counted hstep hi' hended
    rw [hgen] at hsame
    rw [hoffered]
    exact (hinv.tail htailed i hi).trans hsame.symm
  case lost =>
    rw [refusedSamples_append]
    exact hinv.lost.trans (Nat.le_add_right _ _)

/-! ### Steps of the worker that count nothing -/

/-- What a step of the worker has to keep when it neither gets a block nor processes one. -/
structure Kept (h : List Event) (s s' : State) : Prop where
  stream   : ∃ input, input.isSome = true ∧ s'.stream = { s.stream with input := input }
  pending  : s'.pending = s.pending
  received : s'.figures.received = s.figures.received
  le       : s'.figures.generation ≤ s.generation
  session  : ∀ i, s'.figures.session = some i → i ≤ s.stream.session ∧
    (s.stream.sessions i).generation = s'.figures.generation
  given_up : s'.figures.session = none → s'.figures.generation = s.generation →
    s.stream.producer = none
  place    : s'.phase.tailed = false → ∃ done todo, offerLog h = done ++ todo ∧
    done.taken = processed h ∧ Placed s' done todo
  reading  : ∀ current, s'.phase.current? = some current → Reading (offerLog h) s' current
  ended    : ∀ current, s'.phase = .ended current ∨ s'.phase = .tailAccounted current →
    current.live = false
  tail     : s'.phase.tailed = true → ∀ i, s'.figures.session = some i →
    s'.figures.nextStream = samplesOf s'.figures.generation (offerLog h).offered
  lost     : s'.lost ≤ refusedSamples h

theorem Inv.turn (hinv : Inv h s) (hkept : Kept h s s') (hoffers : e.output.offers = [])
    (hprocessed : e.output.processed? = []) : Inv (h ++ [e]) s' := by
  obtain ⟨hlog, hblocks⟩ := logs_quiet (h := h) hoffers hprocessed
  obtain ⟨input, hinput, hstream⟩ := hkept.stream
  have hgeneration : s'.generation = s.generation := by
    unfold State.generation
    rw [hstream]
    rfl
  have hrefused : refusedSamples (h ++ [e]) = refusedSamples h := by
    unfold refusedSamples
    rw [hlog]
  constructor
  case counted =>
    rw [hlog, hstream]
    exact hinv.counted.of_input input
  case input =>
    rw [hstream]
    exact hinput
  case indexed =>
    rw [hlog]
    exact hinv.indexed
  case closed =>
    rw [hlog, hstream]
    exact hinv.closed
  case received =>
    rw [hblocks, hkept.received]
    exact hinv.received
  case taken =>
    rw [hlog, hblocks, hkept.pending]
    exact hinv.taken
  case le =>
    rw [hgeneration]
    exact hkept.le
  case session =>
    rw [hstream]
    exact hkept.session
  case given_up =>
    rw [hgeneration, hstream]
    exact hkept.given_up
  case place =>
    rw [hlog, hblocks]
    exact hkept.place
  case reading =>
    rw [hlog]
    exact hkept.reading
  case ended => exact hkept.ended
  case tail =>
    rw [hlog]
    exact hkept.tail
  case lost =>
    rw [hrefused]
    exact hkept.lost

theorem Placed.of_figures {done todo : OfferLog CaptureBlock} (hplaced : Placed s done todo)
    (hfigures : s'.figures = s.figures) : Placed s' done todo :=
  ⟨hfigures ▸ hplaced.lost, hfigures ▸ hplaced.passed, hfigures ▸ hplaced.ahead,
    hfigures ▸ hplaced.session, hfigures ▸ hplaced.given_up⟩

/-- A step that leaves the blocks and the figures alone. -/
structure Quiet (s s' : State) : Prop where
  stream  : ∃ input, input.isSome = true ∧ s'.stream = { s.stream with input := input }
  pending : s'.pending = s.pending
  figures : s'.figures = s.figures
  tailed  : s.phase.tailed = false ∧ s'.phase.tailed = false

/-- A quiet step, with what it reads and what it stores. -/
theorem Inv.quiet (hinv : Inv h s) (hquiet : Quiet s s') (hoffers : e.output.offers = [])
    (hprocessed : e.output.processed? = [])
    (hreading : ∀ current, s'.phase.current? = some current → Reading (offerLog h) s current)
    (hended : ∀ current, s'.phase = .ended current → current.live = false)
    (hlost : s'.lost ≤ refusedSamples h) : Inv (h ++ [e]) s' := by
  have hfigures := hquiet.figures
  suffices hkept : Kept h s s' from hinv.turn hkept hoffers hprocessed
  constructor
  case stream => exact hquiet.stream
  case pending => exact hquiet.pending
  case received => rw [hfigures]
  case le =>
    rw [hfigures]
    exact hinv.le
  case session =>
    rw [hfigures]
    exact hinv.session
  case given_up =>
    rw [hfigures]
    exact hinv.given_up
  case place =>
    intro _
    obtain ⟨done, todo, hsplit, hdone, hplaced⟩ := hinv.place hquiet.tailed.1
    exact ⟨done, todo, hsplit, hdone, hplaced.of_figures hfigures⟩
  case reading =>
    intro current hcurrent
    obtain ⟨input, -, hstream⟩ := hquiet.stream
    have hread := hreading current hcurrent
    have hgeneration : s'.generation = s.generation := by
      unfold State.generation
      rw [hstream]
      rfl
    refine ⟨hgeneration ▸ hread.le, hfigures ▸ hread.passed, fun hend => ?_, ?_⟩
    · rw [hfigures, hgeneration, hstream]
      exact hread.ended hend
    · rw [hquiet.pending]
      exact hread.later
  case ended =>
    intro current hphase
    rcases hphase with hphase | hphase
    · exact hended current hphase
    · have htailed := hquiet.tailed.2
      rw [hphase] at htailed
      cases htailed
  case tail =>
    intro htailed
    rw [hquiet.tailed.2] at htailed
    cases htailed
  case lost => exact hlost

/-! ### A block -/

theorem sum_offered (log : OfferLog CaptureBlock) :
    allSamples log.offered = allSamples log.taken + allSamples log.refused :=
  OfferLog.sum_offered CaptureBlock.count log

/-- Samples of two generations are at most all samples. -/
theorem samplesOf_add_le {g g' : ℕ} (hne : g ≠ g') (blocks : List CaptureBlock) :
    samplesOf g blocks + samplesOf g' blocks ≤ allSamples blocks := by
  induction blocks with
  | nil => exact le_rfl
  | cons b blocks ih =>
    have hsplit (k : ℕ) : samplesOf k (b :: blocks) = samplesOf k [b] + samplesOf k blocks :=
      Adsb.samplesOf_append (a := [b])
    have hall : allSamples (b :: blocks) = b.count + allSamples blocks := by simp [allSamples]
    rw [hsplit, hsplit, hall, Adsb.samplesOf_singleton, Adsb.samplesOf_singleton]
    by_cases hb : b.sourceGeneration = g
    · have hb' : ¬b.sourceGeneration = g' := fun heq => hne (hb.symm.trans heq)
      rw [if_pos hb, if_neg hb']
      omega
    · rw [if_neg hb]
      split <;> omega

theorem samplesOf_le (g : ℕ) (blocks : List CaptureBlock) :
    samplesOf g blocks ≤ allSamples blocks := by
  have := samplesOf_add_le (Nat.succ_ne_self g).symm blocks
  omega

/-- What is missing at the end of an old session was refused. -/
theorem Placed.tail_le (hinv : Inv h s) {done todo : OfferLog CaptureBlock}
    {front back : List CaptureBlock} {block : CaptureBlock} (hplaced : Placed s done todo)
    (hoffered : (offerLog h).offered = done.offered ++ front ++ block :: back)
    (hnew : s.figures.generation ≠ block.sourceGeneration)
    (hcurrent : s.figures.generation ≤ block.sourceGeneration)
    (hlater : ∀ b ∈ back, block.sourceGeneration ≤ b.sourceGeneration) :
    s.figures.tail s.stream.sessions ≤ samplesOf s.figures.generation front := by
  unfold Figures.tail
  cases hsession : s.figures.session with
  | none => exact Nat.zero_le _
  | some i =>
    dsimp only
    split
    · exact Nat.zero_le _
    · next hended =>
      obtain ⟨hi, hgeneration⟩ := hinv.session i hsession
      have hall := hinv.closed i hi (Bool.not_eq_true _ ▸ hended)
      have hrest : samplesOf s.figures.generation (block :: back) = 0 := by
        refine Adsb.samplesOf_eq_zero fun b hb heq => ?_
        rcases List.mem_cons.1 hb with rfl | hb
        · exact hnew heq.symm
        · have hle := hlater b hb
          omega
      rw [hgeneration, hoffered, Adsb.samplesOf_append, Adsb.samplesOf_append, hrest] at hall
      rw [hplaced.session i hsession, hall]
      omega

/-- Where the worker is after the next block that its queue took: what it adds
    to the losses was refused before that block. -/
theorem Placed.process (hinv : Inv h s) {done front back : OfferLog CaptureBlock}
    {block : CaptureBlock} (hlog : offerLog h = done ++ (front ++ (block, true) :: back))
    (hplaced : Placed s done (front ++ (block, true) :: back)) (hfront : front.taken = [])
    (hs' : s'.figures = s.figures.process s.stream.sessions block) :
    Placed s' (done ++ (front ++ [(block, true)])) back := by
  have hoffered : (offerLog h).offered =
      done.offered ++ front.offered ++ block :: back.offered := by
    rw [hlog]
    simp
  obtain ⟨hindex, hbefore⟩ := hinv.indexed _ _ _ hoffered
  have hall : OfferLog.refused (done ++ (front ++ [(block, true)])) =
      done.refused ++ front.offered := by
    rw [OfferLog.refused_append, OfferLog.refused_append, OfferLog.refused_of_taken_nil hfront]
    simp
  have hpassed (b : CaptureBlock)
      (hb : b ∈ OfferLog.offered (done ++ (front ++ [(block, true)]))) :
      b.sourceGeneration ≤ block.sourceGeneration := by
    simp only [OfferLog.offered_append, OfferLog.offered_cons, OfferLog.offered_nil,
      List.mem_append, List.mem_singleton] at hb
    rcases hb with hb | hb | rfl
    · exact hbefore b (List.mem_append_left _ hb)
    · exact hbefore b (List.mem_append_right _ hb)
    · exact le_rfl
  have hnext : block.next = samplesOf block.sourceGeneration
      (OfferLog.offered (done ++ (front ++ [(block, true)]))) := by
    simp only [OfferLog.offered_append, OfferLog.offered_cons, OfferLog.offered_nil,
      Adsb.samplesOf_append, Adsb.samplesOf_singleton, if_true]
    rw [Adsb.samplesOf_append] at hindex
    unfold CaptureBlock.next
    omega
  have hcurrent : s.figures.generation ≤ block.sourceGeneration :=
    hplaced.ahead block (by simp)
  have hlater (b : CaptureBlock) (hb : b ∈ back.offered) :
      block.sourceGeneration ≤ b.sourceGeneration := by
    obtain ⟨c, d, hsplit⟩ := List.append_of_mem hb
    have hwhole : (offerLog h).offered =
        (done.offered ++ front.offered ++ block :: c) ++ b :: d := by
      rw [hoffered, hsplit]
      simp
    exact (hinv.indexed _ _ _ hwhole).2 block (by simp)
  have hgap : s'.figures.lost ≤ s.figures.lost + allSamples front.offered := by
    rw [Adsb.samplesOf_append] at hindex
    rw [hs']
    unfold Figures.process
    dsimp only
    split
    · next hnew =>
      -- what is missing of the old generation and of the new one
      have hnone : samplesOf block.sourceGeneration done.offered = 0 := by
        refine Adsb.samplesOf_eq_zero fun b hb heq => hnew ?_
        have hle := hplaced.passed b hb
        omega
      have htail : s.figures.tail s.stream.sessions ≤
          samplesOf s.figures.generation front.offered :=
        hplaced.tail_le hinv hoffered hnew hcurrent hlater
      have hsum := samplesOf_add_le hnew front.offered
      omega
    · next hsame =>
      obtain ⟨i, hi⟩ : ∃ i, s.figures.session = some i := by
        cases hsession : s.figures.session with
        | some i => exact ⟨i, rfl⟩
        | none =>
          have hless := hplaced.given_up hsession block (by simp)
          omega
      have hplace := hplaced.session i hi
      have hfew := samplesOf_le block.sourceGeneration front.offered
      rw [not_not.1 hsame] at hplace
      omega
  constructor
  case lost =>
    have hlost := hplaced.lost
    rw [hall, Adsb.allSamples_append]
    omega
  case passed =>
    intro b hb
    rw [hs']
    exact hpassed b hb
  case ahead =>
    intro b hb
    rw [hs']
    exact hlater b hb
  case session =>
    intro i _
    rw [hs']
    exact hnext
  case given_up =>
    intro hnone
    rw [hs'] at hnone
    unfold Figures.process at hnone
    dsimp only at hnone
    split at hnone
    · cases hnone
    · next hsame =>
      have hless := hplaced.given_up hnone block (by simp)
      omega

theorem Inv.process {block : CaptureBlock} {desired : WorkerControl} (hinv : Inv h s)
    (hphase : s.phase = .received (some block) desired) (hstream : s'.stream = s.stream)
    (hfigures : s'.figures = s.figures.process s.stream.sessions block)
    (hhand : s'.phase.hand = []) (hcurrent : s'.phase.current? = none)
    (hlost : s'.lost = s.lost) (houtput : e.output = .processed block) : Inv (h ++ [e]) s' := by
  have hlog : offerLog (h ++ [e]) = offerLog h := by
    rw [offerLog_append, houtput]
    exact List.append_nil _
  have hprocessed : processed (h ++ [e]) = processed h ++ [block] := by
    rw [processed_append, houtput]
    rfl
  have hpending : s.pending = block :: s'.pending := by
    unfold State.pending
    rw [hphase, hhand, hstream]
    rfl
  obtain ⟨done, todo, hsplit, hdone, hplaced⟩ := hinv.place (by rw [hphase]; rfl)
  -- the block is the first one of `todo` that the queue took
  have htodo : todo.taken = block :: s'.pending := by
    have htaken := hinv.taken
    rw [hsplit, OfferLog.taken_append, hdone, hpending] at htaken
    exact List.append_cancel_left htaken
  obtain ⟨front, back, rfl, hfront, hback⟩ := OfferLog.exists_first htodo
  have hmem : block ∈ (offerLog h).offered := by
    rw [hsplit]
    simp
  obtain ⟨hle, hgeneration, -⟩ := hinv.counted.blocks block hmem
  have hahead := hplaced.ahead block (by simp)
  have hnext := hplaced.process hinv hsplit hfront hfigures
  -- the session is that of the block, or in the same generation the one the worker had
  have hcases : s'.figures.session = some block.session ∨
      s'.figures.session = s.figures.session ∧ s.figures.generation = block.sourceGeneration := by
    rw [hfigures]
    unfold Figures.process
    dsimp only
    split
    · exact .inl rfl
    · next hsame => exact .inr ⟨rfl, not_not.1 hsame⟩
  have hsession (i : ℕ) (hi : s'.figures.session = some i) : i ≤ s.stream.session ∧
      (s.stream.sessions i).generation = block.sourceGeneration := by
    rcases hcases with hown | ⟨hsame, hgen⟩
    · obtain rfl := Option.some.inj (hown.symm.trans hi)
      exact ⟨hle, hgeneration.symm⟩
    · rw [← hgen]
      exact hinv.session i (hsame.symm.trans hi)
  have hgen : s'.figures.generation = block.sourceGeneration := by
    rw [hfigures]
    rfl
  constructor
  case counted =>
    rw [hlog, hstream]
    exact hinv.counted
  case input =>
    rw [hstream]
    exact hinv.input
  case indexed =>
    rw [hlog]
    exact hinv.indexed
  case closed =>
    rw [hlog, hstream]
    exact hinv.closed
  case received =>
    rw [hfigures, hprocessed, Adsb.allSamples_append, Adsb.allSamples_singleton]
    show s.figures.received + block.count = _
    rw [hinv.received]
  case taken =>
    rw [hlog, hprocessed, hinv.taken, hpending, List.append_assoc]
    rfl
  case le =>
    rw [hgen]
    show block.sourceGeneration ≤ s'.stream.progress.generation
    rw [hstream]
    exact hinv.counted.le_generation hmem
  case session =>
    intro i hi
    rw [hgen, hstream]
    exact hsession i hi
  case given_up =>
    intro hnone
    rcases hcases with hown | ⟨hsame, hgen⟩
    · rw [hown] at hnone
      cases hnone
    · have hless := hplaced.given_up (hsame.symm.trans hnone) block (by simp)
      omega
  case place =>
    intro _
    refine ⟨_, back, ?_, ?_, hnext⟩
    · rw [hlog, hsplit]
      simp
    · rw [OfferLog.taken_append, OfferLog.taken_append, hdone, hfront, hprocessed]
      rfl
  case reading =>
    intro current hread
    rw [hcurrent] at hread
    cases hread
  case ended =>
    intro current hphase'
    rcases hphase' with hphase' | hphase'
    all_goals
      rw [hphase'] at hcurrent
      cases hcurrent
  case tail =>
    intro htailed
    cases hp : s'.phase with
    | tailAccounted current =>
      rw [hp] at hcurrent
      cases hcurrent
    | _ => simp [hp, Phase.tailed] at htailed
  case lost =>
    have hsame : refusedSamples (h ++ [e]) = refusedSamples h := by
      unfold refusedSamples
      rw [hlog]
    rw [hsame, hlost]
    exact hinv.lost

/-! ### The end of a session -/

/-- Without a producer every session that was started has finished. -/
theorem finished_of_idle (hinv : Inv h s) (hidle : s.stream.producer = none) (i : ℕ) :
    (s.stream.sessions i).live = false := by
  by_cases hi : i = s.stream.session
  · subst hi
    exact hinv.counted.sound.idle hidle
  · exact hinv.counted.sound.others i hi

/-- What the progress tells at the moment when it is read. -/
theorem Inv.reading_progress (hinv : Inv h s) :
    Reading (offerLog h) s s.stream.progress := by
  refine ⟨le_rfl, hinv.le, fun hended => ?_, fun _ b hb => hinv.counted.le_generation hb⟩
  have hidle := hinv.counted.idle_iff.2 hended
  exact ⟨fun i _ => finished_of_idle hinv hidle i, fun _ => hidle⟩

theorem Inv.accountTail {current : CaptureProgress} (hinv : Inv h s)
    (hphase : s.phase = .ended current) (houtput : e.output = .silent) :
    Inv (h ++ [e]) { s with
      processor := s.processor.accountTail s.stream.sessions, phase := .tailAccounted current } := by
  obtain ⟨-, hreceived, hgeneration, hsession, hnext⟩ :=
    accountTail_figures s.processor s.stream.sessions
  have hread := hinv.reading current (by rw [hphase]; rfl)
  have hended := hinv.ended current (.inl hphase)
  refine hinv.turn ?_ (by rw [houtput]; rfl) (by rw [houtput]; rfl)
  constructor
  case stream => exact ⟨s.stream.input, hinv.input, rfl⟩
  case pending =>
    unfold State.pending
    rw [hphase]
    rfl
  case received => exact hreceived
  case le => exact hgeneration.trans_le hinv.le
  case session =>
    intro i hi
    obtain ⟨hle, hgen⟩ := hinv.session i (hsession.symm.trans hi)
    exact ⟨hle, hgen.trans hgeneration.symm⟩
  case given_up =>
    intro hnone heq
    exact hinv.given_up (hsession.symm.trans hnone) (hgeneration.symm.trans heq)
  case place =>
    intro htailed
    cases htailed
  case reading =>
    intro current' hcurrent
    cases hcurrent
    refine ⟨hread.le, hgeneration.trans_le hread.passed, fun hend => ⟨fun i hi => ?_, ?_⟩, ?_⟩
    · exact (hread.ended hend).1 i (hsession.symm.trans hi)
    · exact (hread.ended hend).2
    · intro hempty
      refine hread.later ?_
      rw [← hempty]
      unfold State.pending
      rw [hphase]
      rfl
  case ended =>
    intro current' hphase'
    rcases hphase' with hphase' | hphase'
    · cases hphase'
    · cases hphase'
      exact hended
  case tail =>
    intro _ i hi
    have hi' : s.figures.session = some i := hsession.symm.trans hi
    obtain ⟨hle, hgen⟩ := hinv.session i hi'
    have hfinished := (hread.ended hended).1 i hi'
    have hsamples := hinv.closed i hle hfinished
    show (s.processor.accountTail s.stream.sessions).nextStream = _
    rw [hnext i hi' hfinished, hsamples, hgen]
    exact congrArg (samplesOf · _) hgeneration.symm
  case lost => exact hinv.lost

/-- The figures after the total was read. -/
theorem finish_figures (p : Processor) (current : CaptureProgress) (total : ℕ) :
    (p.finish current total).figures =
      { p.figures with
        lost := total - p.figures.received
        generation := current.generation
        session := if current.generation = p.figures.generation then p.figures.session else none } := by
  unfold Processor.finish
  dsimp only
  split
  · next hother =>
    have hother' : ¬current.generation = p.figures.generation := hother
    rw [if_neg hother']
    rfl
  · next hsame =>
    have hsame' : current.generation = p.figures.generation := not_not.1 hsame
    rw [if_pos hsame', hsame']
    rfl

/-- With nothing on its way, the total is what was processed and what was refused. -/
theorem Inv.readTotal {current : CaptureProgress} (hinv : Inv h s)
    (hphase : s.phase = .tailAccounted current) (hempty : s.pending = [])
    (hunsent : unsent s.stream = 0) (houtput : e.output = .silent) :
    Inv (h ++ [e]) { s with
      processor := s.processor.finish current s.stream.totalSamples, phase := .measured true } := by
  have hfigures := finish_figures s.processor current s.stream.totalSamples
  have hread := hinv.reading current (by rw [hphase]; rfl)
  have hended := hinv.ended current (.inr hphase)
  have htaken : (offerLog h).taken = processed h := by
    rw [hinv.taken, hempty, List.append_nil]
  -- with nothing on its way, what was not processed was refused
  have htotal : s.stream.totalSamples - s.figures.received = refusedSamples h := by
    rw [hinv.counted.total, hunsent, Nat.add_zero, sum_offered, htaken, hinv.received]
    exact Nat.add_sub_cancel_left _ _
  refine hinv.turn ?_ (by rw [houtput]; rfl) (by rw [houtput]; rfl)
  generalize hs' : ({ s with
      processor := s.processor.finish current s.stream.totalSamples, phase := .measured true } :
        State) = s'
  have hstream : s'.stream = s.stream := by rw [← hs']
  have hphase' : s'.phase = .measured true := by rw [← hs']
  have hfigures' : s'.figures = { s.figures with
      lost := s.stream.totalSamples - s.figures.received
      generation := current.generation
      session :=
        if current.generation = s.figures.generation then s.figures.session else none } := by
    rw [← hs']
    exact hfigures
  constructor
  case stream => exact ⟨s.stream.input, hinv.input, hstream⟩
  case pending =>
    unfold State.pending
    rw [hphase', hphase, hstream]
    rfl
  case received => rw [hfigures']
  case le =>
    rw [hfigures']
    exact hread.le
  case session =>
    rw [hfigures']
    intro i hi
    dsimp only at hi ⊢
    split at hi
    · next hsame =>
      rw [hsame]
      exact hinv.session i hi
    · cases hi
  case given_up =>
    rw [hfigures']
    intro _ heq
    exact (hread.ended hended).2 heq
  case place =>
    -- all that was offered lies behind the worker
    intro _
    refine ⟨offerLog h, [], (List.append_nil _).symm, htaken, ?_⟩
    constructor
    case lost =>
      rw [hfigures']
      exact htotal.le
    case passed =>
      rw [hfigures']
      exact hread.later hempty
    case ahead =>
      intro b hb
      cases hb
    case session =>
      rw [hfigures']
      intro i hi
      dsimp only at hi ⊢
      split at hi
      · next hsame =>
        rw [hsame]
        exact hinv.tail (by rw [hphase]; rfl) i hi
      · cases hi
    case given_up =>
      intro _ b hb
      cases hb
  case reading =>
    intro current' hcurrent
    rw [hphase'] at hcurrent
    cases hcurrent
  case ended =>
    intro current' hcurrent
    rw [hphase'] at hcurrent
    rcases hcurrent with hcurrent | hcurrent
    all_goals cases hcurrent
  case tail =>
    intro htailed
    rw [hphase'] at htailed
    cases htailed
  case lost =>
    rw [← hs']
    exact hinv.lost

/-! ### Every step -/

/-- The figures of the moment are those of losses that happened. -/
theorem Inv.lost_le (hinv : Inv h s) (htailed : s.phase.tailed = false) :
    s.figures.lost ≤ refusedSamples h := by
  obtain ⟨done, todo, hsplit, -, hplaced⟩ := hinv.place htailed
  unfold refusedSamples
  rw [hsplit, OfferLog.refused_append, Adsb.allSamples_append]
  exact hplaced.lost.trans (Nat.le_add_right _ _)

theorem afterProcess_idle (audio : Option RadioAudio) :
    (Phase.afterProcess audio).hand = [] ∧ (Phase.afterProcess audio).current? = none := by
  cases audio <;> exact ⟨rfl, rfl⟩

theorem Inv.step {i : Input} {o : Output} (hinv : Inv h s) (hthere : s.phase ≠ .unsubscribed)
    (hstep : step s i = some (s', o)) (htime : InTime ⟨s, i, o, s'⟩) :
    Inv (h ++ [⟨s, i, o, s'⟩]) s' := by
  obtain ⟨q, hq⟩ := Option.isSome_iff_exists.1 hinv.input
  -- a step to a phase in which nothing is read
  have hquiet (hquiet : Quiet s s') (hsilent : o.offers = [] ∧ o.processed? = [])
      (hcurrent : s'.phase.current? = none) (hlost : s'.lost ≤ refusedSamples h) :
      Inv (h ++ [⟨s, i, o, s'⟩]) s' := by
    refine hinv.quiet hquiet hsilent.1 hsilent.2 (fun current hread => ?_) (fun current hend => ?_)
      hlost
    · rw [hcurrent] at hread
      cases hread
    · rw [hend] at hcurrent
      cases hcurrent
  have hstay {phase : Phase} {processor : Processor} {handled : ℕ}
      (hfigures : processor.figures = s.figures) (hhand : phase.hand = s.phase.hand)
      (hbefore : s.phase.tailed = false) (hafter : phase.tailed = false) (lost : ℕ)
      (output : RadioSnapshot) :
      Quiet s { s with
        processor := processor, phase := phase, handled := handled, lost := lost,
        output := output } := by
    refine ⟨⟨s.stream.input, hinv.input, rfl⟩, ?_, hfigures, hbefore, hafter⟩
    unfold State.pending
    rw [hhand]
  cases i with
  | producer p =>
    obtain ⟨⟨stream, o'⟩, hproduce, heq⟩ := Option.map_eq_some_iff.1 hstep
    cases heq
    exact hinv.produce (produces_of_produce hproduce)
  | subscribe =>
    simp only [Radio.step] at hstep
    cases hstep
  | receive desired changed =>
    simp only [Radio.step] at hstep
    split at hstep
    · next q' hphase hq' =>
      split at hstep
      · next block queue hrecv =>
        cases hstep
        refine hquiet ⟨⟨_, rfl, rfl⟩, ?_, configure_figures _ _ _, ?_, rfl⟩ ⟨rfl, rfl⟩ rfl hinv.lost
        · unfold State.pending
          rw [hphase, hq']
          exact (BoundedQueue.tryRecv_eq_some hrecv).1.symm
        · rw [hphase]
          rfl
      · next hrecv =>
        cases hstep
        refine hquiet (hstay (configure_figures _ _ _) ?_ ?_ rfl _ _) ⟨rfl, rfl⟩ rfl hinv.lost
        · rw [hphase]
          rfl
        · rw [hphase]
          rfl
    · cases hstep
  | process subscribed audio =>
    simp only [Radio.step] at hstep
    split at hstep
    · next block desired hphase =>
      cases hstep
      have hidle := afterProcess_idle
        (s.processor.process s.stream.sessions block desired subscribed audio).2
      exact hinv.process hphase rfl (process_figures _ _ _ _ _ _) hidle.1 hidle.2 rfl rfl
    · next desired hphase =>
      cases hstep
      refine hquiet (hstay rfl ?_ ?_ rfl _ _) ⟨rfl, rfl⟩ rfl hinv.lost
      · rw [hphase]
        rfl
      · rw [hphase]
        rfl
    · cases hstep
  | publish =>
    simp only [Radio.step] at hstep
    split at hstep
    · next audio hphase =>
      cases hstep
      refine hquiet (hstay rfl ?_ ?_ rfl _ _) ⟨rfl, rfl⟩ rfl hinv.lost
      · rw [hphase]
        rfl
      · rw [hphase]
        rfl
    · cases hstep
  | readProgress =>
    simp only [Radio.step] at hstep
    split at hstep
    · next hphase =>
      cases hstep
      refine hinv.quiet (hstay rfl ?_ ?_ rfl _ _) rfl rfl (fun current hread => ?_)
        (fun current hend => by cases hend) hinv.lost
      · rw [hphase]
        rfl
      · rw [hphase]
        rfl
      · cases hread
        exact hinv.reading_progress
    · cases hstep
  | readQueue =>
    simp only [Radio.step] at hstep
    split at hstep
    · next current q' hphase hq' =>
      cases hstep
      have hread := hinv.reading current (by rw [hphase]; rfl)
      by_cases hfinished : current.generation > 0 ∧ current.live = false ∧ q'.queue.items = []
      · rw [if_pos hfinished]
        refine hinv.quiet (hstay rfl ?_ ?_ rfl _ _) rfl rfl (fun current' hcurrent => ?_)
          (fun current' hend => ?_) hinv.lost
        · rw [hphase]
          rfl
        · rw [hphase]
          rfl
        · cases hcurrent
          exact hread
        · cases hend
          exact hfinished.2.1
      · rw [if_neg hfinished]
        refine hinv.quiet (hstay rfl ?_ ?_ rfl _ _) rfl rfl (fun current' hcurrent => ?_)
          (fun current' hend => ?_) hinv.lost
        · rw [hphase]
          rfl
        · rw [hphase]
          rfl
        · cases hcurrent
        · cases hend
    · cases hstep
  | accountTail =>
    simp only [Radio.step] at hstep
    split at hstep
    · next current hphase =>
      cases hstep
      exact hinv.accountTail hphase rfl
    · cases hstep
  | readTotal =>
    simp only [Radio.step] at hstep
    split at hstep
    · next current hphase =>
      cases hstep
      obtain ⟨hempty, hunsent⟩ := htime.2 rfl
      exact hinv.readTotal hphase hempty hunsent rfl
    · cases hstep
  | storeHandled =>
    simp only [Radio.step] at hstep
    split at hstep
    · next finished q' hphase hq' =>
      cases hstep
      refine hquiet (hstay ?_ ?_ ?_ ?_ _ _) ⟨rfl, rfl⟩ rfl hinv.lost
      · rfl
      · rw [hphase]
        rfl
      · rw [hphase]
        rfl
      · rfl
    · cases hstep
  | storeLost due =>
    simp only [Radio.step] at hstep
    split at hstep
    · next finished hphase =>
      cases hstep
      refine hquiet (hstay rfl ?_ ?_ rfl _ _) ⟨rfl, rfl⟩ rfl (hinv.lost_le (by rw [hphase]; rfl))
      · rw [hphase]
        rfl
      · rw [hphase]
        rfl
    · cases hstep

/-! ### Before the worker is there -/

/-- The worker is not there yet; one that was there from the start would have been offered
    `published`. -/
structure Waiting (h : List Event) (s : State) (published : List CaptureBlock) : Prop where
  phase     : s.phase = .unsubscribed
  input     : s.stream.input = none
  offers    : offerLog h = []
  processed : processed h = []
  counted   : Counted published s.stream
  closed    : Closed published s.stream
  processor : s.processor = .new
  lost      : s.lost = 0

theorem Waiting.init : Waiting [] machine.init [] where
  phase := rfl
  input := rfl
  offers := rfl
  processed := rfl
  counted := ⟨Sound.new, fun _ => ⟨rfl, rfl⟩, nofun, nofun, rfl, rfl⟩
  closed := fun _ _ _ => rfl
  processor := rfl
  lost := rfl

theorem Waiting.produce {published : List CaptureBlock} {p : ProducerStep}
    {stream : CaptureStream} {o : Produced} (h' : Waiting h s published)
    (hstep : Produces s.stream p stream o) : ∃ published',
      Waiting (h ++ [⟨s, .producer p, .produced o, { s with stream := stream }⟩])
        { s with stream := stream } published' := by
  obtain ⟨hnone, hsilent⟩ := Produces.silent hstep h'.input
  obtain ⟨q', o', hshadow⟩ := hstep.with_input ⟨.empty 128 capacity_pos, 0⟩
  have hcounted := h'.counted.of_input (some ⟨.empty 128 capacity_pos, 0⟩)
  have hclosed : Closed published
      { s.stream with input := some ⟨.empty 128 capacity_pos, 0⟩ } := h'.closed
  obtain ⟨hlog, hblocks⟩ := logs_quiet (h := h)
    (e := ⟨s, .producer p, .produced o, { s with stream := stream }⟩)
    (by cases o <;> first | rfl | cases hsilent) rfl
  have hclosed' := hclosed.produce hcounted rfl hshadow
  exact ⟨published ++ o'.published, h'.phase, hnone, hlog.trans h'.offers,
    hblocks.trans h'.processed, (hcounted.produce rfl hshadow).of_input stream.input, hclosed',
    h'.processor, h'.lost⟩

/-- Nothing has been offered to the worker, and its figures are the first ones. -/
theorem Placed.init (hfigures : s.figures = ⟨0, 0, 0, none, 0⟩) : Placed s [] [] where
  lost := by
    rw [hfigures]
    exact le_rfl
  passed _ hb := absurd hb List.not_mem_nil
  ahead _ hb := absurd hb List.not_mem_nil
  session := by
    rw [hfigures]
    exact nofun
  given_up _ _ hb := absurd hb List.not_mem_nil

/-- Nothing was published, so the worker has missed nothing. -/
theorem Waiting.subscribe {published : List CaptureBlock} (h' : Waiting h s published)
    (htotal : s.stream.totalSamples = unsent s.stream) (houtput : e.output = .silent) :
    Inv (h ++ [e]) { s with
      stream := { s.stream with input := some ⟨.empty 128 capacity_pos, 0⟩ }
      phase := .receiving } := by
  have hnone : published = [] := by
    -- no block is empty, and every sample of the stream has yet to be sent
    have hcount := h'.counted.total
    cases published with
    | nil => rfl
    | cons block blocks =>
      have hpos := (h'.counted.blocks block List.mem_cons_self).2.2
      have hall : allSamples (block :: blocks) = block.count + allSamples blocks := by
        simp [allSamples]
      omega
  subst hnone
  obtain ⟨hlog, hblocks⟩ := logs_quiet (h := h) (e := e) (by rw [houtput]; rfl)
    (by rw [houtput]; rfl)
  have hlog := hlog.trans h'.offers
  have hblocks := hblocks.trans h'.processed
  generalize hs' : ({ s with
      stream := { s.stream with input := some ⟨.empty 128 capacity_pos, 0⟩ }
      phase := .receiving } : State) = s'
  have hfigures : s'.figures = ⟨0, 0, 0, none, 0⟩ := by
    rw [← hs']
    show s.processor.figures = _
    rw [h'.processor]
    rfl
  have hstream : s'.stream =
      { s.stream with input := some ⟨.empty 128 capacity_pos, 0⟩ } := by rw [← hs']
  have hphase : s'.phase = .receiving := by rw [← hs']
  constructor
  case counted =>
    rw [hlog, hstream]
    exact h'.counted.of_input _
  case input =>
    rw [hstream]
    rfl
  case indexed =>
    rw [hlog]
    intro a b c hnil
    cases a <;> cases hnil
  case closed =>
    rw [hlog, hstream]
    exact h'.closed
  case received =>
    rw [hfigures, hblocks]
    rfl
  case taken =>
    rw [hlog, hblocks]
    unfold State.pending
    rw [hphase, hstream]
    rfl
  case le =>
    rw [hfigures]
    exact Nat.zero_le _
  case session =>
    rw [hfigures]
    intro i hi
    cases hi
  case given_up =>
    -- the generation 0 of the first figures was never used, so there is no producer of it
    rw [hfigures, hstream]
    intro _ hunused
    refine (h'.counted.unused ?_).1
    unfold State.generation at hunused
    rw [hstream] at hunused
    exact hunused.symm
  case place =>
    intro _
    exact ⟨[], [], hlog, hblocks.symm, .init hfigures⟩
  case reading =>
    rw [hphase]
    intro current hcurrent
    cases hcurrent
  case ended =>
    rw [hphase]
    intro current hcurrent
    rcases hcurrent with hcurrent | hcurrent
    all_goals cases hcurrent
  case tail =>
    rw [hphase]
    intro htailed
    cases htailed
  case lost =>
    have hlost : s'.lost = 0 := by
      rw [← hs']
      exact h'.lost
    rw [hlost]
    exact Nat.zero_le _

/-- A worker that is there stays. -/
theorem step_there {i : Input} {o : Output} (hstep : step s i = some (s', o))
    (h : s.phase ≠ .unsubscribed) : s'.phase ≠ .unsubscribed := by
  cases i with
  | producer p =>
    obtain ⟨r, -, heq⟩ := Option.map_eq_some_iff.1 hstep
    cases heq
    exact h
  | process subscribed audio =>
    simp only [Radio.step] at hstep
    split at hstep
    · cases hstep
      show Phase.afterProcess _ ≠ .unsubscribed
      unfold Phase.afterProcess
      split <;> exact Phase.noConfusion
    · cases hstep
      exact Phase.noConfusion
    · cases hstep
  | receive desired changed =>
    simp only [Radio.step] at hstep
    split at hstep
    · split at hstep
      · cases hstep
        exact Phase.noConfusion
      · cases hstep
        exact Phase.noConfusion
    · cases hstep
  | readQueue =>
    simp only [Radio.step] at hstep
    split at hstep
    · cases hstep
      dsimp only
      split <;> exact Phase.noConfusion
    · cases hstep
  | subscribe =>
    simp only [Radio.step] at hstep
    cases hstep
  | _ =>
    simp only [Radio.step] at hstep
    split at hstep
    · cases hstep
      exact Phase.noConfusion
    · cases hstep

/-- **Every run** in which the worker begins and the total is read in time keeps the accounts. -/
theorem inv_run {is : List Input} {h : List Event} {s : State}
    (hrun : machine.run machine.init is = some (s, h)) (htime : ∀ e ∈ h, InTime e) :
    (s.phase ≠ .unsubscribed ∧ Inv h s) ∨ ∃ published, Waiting h s published := by
  have hinv := machine.run_inv
    (P := fun h s => (∀ e ∈ h, InTime e) →
      (s.phase ≠ .unsubscribed ∧ Inv h s) ∨ ∃ published, Waiting h s published)
    (I := fun _ => True) (fun _ => .inr ⟨[], Waiting.init⟩)
    (fun h s i s' o hprev _ hstep hall => ?_) (fun _ _ => trivial) hrun
  · exact hinv htime
  · have hnow := hall ⟨s, i, o, s'⟩ (by simp)
    have hstep : Radio.step s i = some (s', o) := hstep
    rcases hprev fun e he => hall e (List.mem_append_left _ he) with
      ⟨hthere, hinv⟩ | ⟨published, hwaiting⟩
    · exact .inl ⟨step_there hstep hthere, hinv.step hthere hstep hnow⟩
    · cases i with
      | producer p =>
        obtain ⟨⟨stream, o'⟩, hproduce, heq⟩ := Option.map_eq_some_iff.1 hstep
        cases heq
        exact .inr (hwaiting.produce (produces_of_produce hproduce))
      | subscribe =>
        simp only [Radio.step, hwaiting.phase] at hstep
        cases hstep
        exact .inl ⟨Phase.noConfusion, hwaiting.subscribe (hnow.1 rfl) rfl⟩
      | _ =>
        simp only [Radio.step, hwaiting.phase] at hstep
        cases hstep

end

/-! ## Section 5: After the last session -/

/-- The worker's steps from one look at its queue to the next, with nothing in it. -/
def round (desired : WorkerControl) (changed subscribed : Bool) (audio : List (BitVec 16))
    (due : Bool) : List Input :=
  [.receive desired changed, .process subscribed audio, .readProgress, .readQueue, .accountTail,
    .readTotal, .storeHandled, .storeLost due]

theorem finish_complete (p : Processor) (current : CaptureProgress) (total : ℕ) :
    (p.finish current total).snapshot.complete = true := by
  unfold Processor.finish
  dsimp only
  split <;> rfl

/-- All samples are received or lost, and the snapshot says so. -/
structure Accounted (t : State) : Prop where
  complete : t.output.complete = true
  total    : t.output.receivedSamples + t.output.lostSamples = t.stream.totalSamples
  lost     : t.lost = t.output.lostSamples
  handled  : t.handled = t.stream.totalSamples

section

variable {h : List Event} {s : State}

theorem Inv.received_le (hinv : Inv h s) : s.figures.received ≤ s.stream.totalSamples := by
  rw [hinv.counted.total, sum_offered, hinv.taken, Adsb.allSamples_append, hinv.received]
  omega

theorem Inv.round_run (hinv : Inv h s) (hphase : s.phase = .receiving)
    (hidle : s.stream.producer = none) (hempty : s.pending = []) (hused : s.generation ≠ 0)
    (desired : WorkerControl) (changed subscribed : Bool) (audio : List (BitVec 16))
    (due : Bool) :
    ∃ t h', machine.run s (round desired changed subscribed audio due) = some (t, h') ∧
      Accounted t := by
  obtain ⟨q, hq⟩ := Option.isSome_iff_exists.1 hinv.input
  have hitems : q.queue.items = [] := by
    unfold State.pending at hempty
    rw [hphase, hq] at hempty
    exact hempty
  have hnone : q.queue.tryRecv = none := by
    cases hrecv : q.queue.tryRecv with
    | none => rfl
    | some r =>
      obtain ⟨a, q'⟩ := r
      have hhead := (BoundedQueue.tryRecv_eq_some hrecv).1
      rw [hitems] at hhead
      cases hhead
  have hended : s.stream.progress.live = false := hinv.counted.idle_iff.1 hidle
  generalize hp₁ : s.processor.configure desired changed = p₁
  generalize hp₂ : p₁.accountTail s.stream.sessions = p₂
  generalize hp₃ : p₂.finish s.stream.progress s.stream.totalSamples = p₃
  generalize hp₄ : { p₃ with snapshot := { p₃.snapshot with droppedBlocks := q.dropped } } = p₄
  have h₁ : Radio.step s (.receive desired changed) =
      some ({ s with processor := p₁, phase := .received none desired }, .silent) := by
    simp [Radio.step, hphase, hq, hnone, hp₁]
  have h₂ : Radio.step { s with processor := p₁, phase := .received none desired }
      (.process subscribed audio) = some ({ s with processor := p₁, phase := .processed }, .silent) :=
    rfl
  have h₃ : Radio.step { s with processor := p₁, phase := .processed } .readProgress =
      some ({ s with processor := p₁, phase := .progressRead s.stream.progress }, .silent) := rfl
  have h₄ : Radio.step { s with processor := p₁, phase := .progressRead s.stream.progress } .readQueue =
      some ({ s with processor := p₁, phase := .ended s.stream.progress }, .silent) := by
    have hpos : 0 < s.stream.progress.generation := Nat.pos_of_ne_zero hused
    simp [Radio.step, hq, hitems, hended, hpos]
  have h₅ : Radio.step { s with processor := p₁, phase := .ended s.stream.progress } .accountTail =
      some ({ s with processor := p₂, phase := .tailAccounted s.stream.progress }, .silent) := by
    rw [← hp₂]
    rfl
  have h₆ : Radio.step { s with processor := p₂, phase := .tailAccounted s.stream.progress } .readTotal =
      some ({ s with processor := p₃, phase := .measured true }, .silent) := by
    rw [← hp₃]
    rfl
  have h₇ : Radio.step { s with processor := p₃, phase := .measured true } .storeHandled =
      some ({ s with
        processor := p₄
        handled := p₄.snapshot.receivedSamples + p₄.snapshot.lostSamples
        phase := .handledStored true }, .silent) := by
    simp [Radio.step, hq, ← hp₄]
  have h₈ : Radio.step { s with
      processor := p₄
      handled := p₄.snapshot.receivedSamples + p₄.snapshot.lostSamples
      phase := .handledStored true } (.storeLost due) = some ({ s with
        processor := p₄
        handled := p₄.snapshot.receivedSamples + p₄.snapshot.lostSamples
        lost := p₄.snapshot.lostSamples
        output := p₄.snapshot
        phase := .receiving }, .silent) := rfl
  have hrun (a : State) (i : Input) (b : State) (is : List Input) (t : State) (h' : List Event)
      (hstep : Radio.step a i = some (b, .silent)) (hrest : machine.run b is = some (t, h')) :
      machine.run a (i :: is) = some (t, ⟨a, i, .silent, b⟩ :: h') :=
    machine.run_cons_eq_some.2 ⟨b, .silent, h', hstep, hrest, rfl⟩
  refine ⟨_, _, hrun _ _ _ _ _ _ h₁ (hrun _ _ _ _ _ _ h₂ (hrun _ _ _ _ _ _ h₃
    (hrun _ _ _ _ _ _ h₄ (hrun _ _ _ _ _ _ h₅ (hrun _ _ _ _ _ _ h₆ (hrun _ _ _ _ _ _ h₇
      (hrun _ _ _ _ _ _ h₈ rfl))))))), ?_⟩
  -- what was received is not touched, and the rest of the total is lost
  have hfigures := finish_figures p₂ s.stream.progress s.stream.totalSamples
  have hreceived : p₂.figures.received = s.figures.received := by
    rw [← hp₂, (accountTail_figures p₁ s.stream.sessions).2.1, ← hp₁, configure_figures]
    rfl
  rw [hp₃] at hfigures
  have hlost : p₄.snapshot.lostSamples = s.stream.totalSamples - s.figures.received := by
    rw [← hp₄, ← hreceived]
    exact congrArg Figures.lost hfigures
  have hkept : p₄.snapshot.receivedSamples = s.figures.received := by
    rw [← hp₄, ← hreceived]
    exact congrArg Figures.received hfigures
  have htotal : p₄.snapshot.receivedSamples + p₄.snapshot.lostSamples = s.stream.totalSamples := by
    rw [hlost, hkept, Nat.add_sub_cancel' hinv.received_le]
  refine ⟨?_, htotal, rfl, htotal⟩
  show p₄.snapshot.complete = true
  rw [← hp₄, ← hp₃]
  exact finish_complete p₂ s.stream.progress s.stream.totalSamples

end

/-- **What the worker says it lost was refused**, and after the last session
    its accounts are complete. -/
theorem losses_real {is : List Input} {h : List Event} {s : State}
    (hrun : machine.run machine.init is = some (s, h)) (htime : ∀ e ∈ h, InTime e) :
    s.lost ≤ refusedSamples h ∧
      (s.phase = .receiving → s.stream.producer = none → s.pending = [] → s.generation ≠ 0 →
        ∀ desired changed subscribed audio due, ∃ t h',
          machine.run s (round desired changed subscribed audio due) = some (t, h') ∧
            Accounted t) := by
  rcases inv_run hrun htime with ⟨-, hinv⟩ | ⟨published, hwaiting⟩
  · refine ⟨hinv.lost, ?_⟩
    intro hphase hidle hempty hused desired changed subscribed audio due
    exact hinv.round_run hphase hidle hempty hused desired changed subscribed audio due
  · refine ⟨?_, fun hphase => ?_⟩
    · rw [hwaiting.lost]
      exact Nat.zero_le _
    · rw [hwaiting.phase] at hphase
      cases hphase

/-! ## Section 6: Runs -/

def exampleClock : Ingest.CaptureClock := .new 9 0 2400000 none

def exampleControl : WorkerControl := ⟨⟨.fm, 48000⟩, none, 0⟩

/-- A block of one sample, from its acquisition to its progress. -/
def oneSample : List Input :=
  [.producer (.acquire [90, 110] exampleClock 100 0), .producer .send, .producer .store]

/-- A turn of the worker that does not end a session. -/
def turn : List Input :=
  [.receive exampleControl false, .process false [], .readProgress, .readQueue, .storeHandled,
    .storeLost false]

/-- A worker that begins with the first block on its way, and a session of that block. -/
def oneBlock : List Input :=
  [.producer (.start 1), .producer (.acquire [90, 110] exampleClock 100 0), .subscribe,
    .producer .send, .producer .store] ++ turn ++ [.producer .finish]

/-- The next session begins after the look at the queue. -/
def overtaken : List Input :=
  oneBlock ++ [.receive exampleControl false, .process false [], .readProgress, .readQueue,
    .producer (.start 2), .producer (.acquire [90, 110] exampleClock 100 0), .accountTail,
    .readTotal, .storeHandled, .storeLost false]

/-- The worker begins after the first block of a session was published. -/
def late : List Input :=
  [.producer (.start 1)] ++ oneSample ++ [.subscribe] ++ oneSample ++ turn

/-- Whether an event is in time, as it can be computed. -/
def inTime (e : Event) : Bool :=
  match e.input with
  | .subscribe => e.before.stream.totalSamples = unsent e.before.stream
  | .readTotal => e.before.pending = [] && unsent e.before.stream = 0
  | _ => true

theorem inTime_spec {e : Event} (h : inTime e = true) : InTime e := by
  unfold inTime at h
  constructor
  · intro hinput
    rw [hinput] at h
    exact of_decide_eq_true h
  · intro hinput
    rw [hinput, Bool.and_eq_true] at h
    exact ⟨of_decide_eq_true h.1, of_decide_eq_true h.2⟩

/-- What a run shows at its end. -/
structure Summary where
  inTime    : Bool
  receiving : Bool
  idle      : Bool
  pending   : List CaptureBlock
  lost      : ℕ
  handled   : ℕ
  refused   : ℕ
  deriving DecidableEq

def summary (r : State × List Event) : Summary where
  inTime := r.2.all Radio.inTime
  receiving := r.1.phase matches .receiving
  idle := r.1.stream.producer.isNone
  pending := r.1.pending
  lost := r.1.lost
  handled := r.1.handled
  refused := refusedSamples r.2

/-- The total is read when the session has ended, and the accounts are complete. -/
theorem losses_real_oneBlock : ∃ h s, machine.run machine.init
      (oneBlock ++ round exampleControl false false [] false) = some (s, h) ∧
    s.handled = 1 ∧ s.lost ≤ refusedSamples h ∧ ∃ t h',
      machine.run s (round exampleControl false false [] false) = some (t, h') ∧ Accounted t := by
  have hsummary : (machine.run machine.init
      (oneBlock ++ round exampleControl false false [] false)).map
        (fun r => (summary r, decide (r.1.generation = 1))) =
          some (⟨true, true, true, [], 0, 1, 0⟩, true) := by decide
  obtain ⟨⟨s, h⟩, hrun, hvalue⟩ := Option.map_eq_some_iff.1 hsummary
  have hsum := congrArg (·.1) hvalue
  have hall : h.all Radio.inTime = true := congrArg Summary.inTime hsum
  have htime (e : Event) (he : e ∈ h) : InTime e := inTime_spec (List.all_eq_true.1 hall e he)
  have hphase : s.phase = .receiving := by
    have hreceiving : (s.phase matches .receiving) = true := congrArg Summary.receiving hsum
    cases hp : s.phase with
    | receiving => rfl
    | _ => simp [hp] at hreceiving
  have hidle : s.stream.producer = none := Option.isNone_iff_eq_none.1 (congrArg Summary.idle hsum)
  have hgeneration : s.generation = 1 := of_decide_eq_true (congrArg (·.2) hvalue)
  have hreal := losses_real hrun htime
  exact ⟨h, s, hrun, congrArg Summary.handled hsum, hreal.1, hreal.2 hphase hidle
    (congrArg Summary.pending hsum) (by rw [hgeneration]; exact Nat.one_ne_zero) exampleControl
    false false [] false⟩

/-- The block of a new session is counted as lost before it is sent, and a worker that begins late
    counts what it has missed. -/
theorem lost_without_refusal :
    (∃ h s, machine.run machine.init overtaken = some (s, h) ∧ refusedSamples h < s.lost) ∧
      ∃ h s, machine.run machine.init late = some (s, h) ∧ refusedSamples h < s.lost := by
  have hovertaken : (machine.run machine.init overtaken).map
      (fun r => (r.1.lost, refusedSamples r.2)) = some (1, 0) := by decide
  have hlate : (machine.run machine.init late).map
      (fun r => (r.1.lost, refusedSamples r.2)) = some (1, 0) := by decide
  constructor
  · obtain ⟨⟨s, h⟩, hrun, hvalue⟩ := Option.map_eq_some_iff.1 hovertaken
    exact ⟨h, s, hrun, (congrArg (·.2) hvalue).trans_lt
      (Nat.one_pos.trans_eq (congrArg (·.1) hvalue).symm)⟩
  · obtain ⟨⟨s, h⟩, hrun, hvalue⟩ := Option.map_eq_some_iff.1 hlate
    exact ⟨h, s, hrun, (congrArg (·.2) hvalue).trans_lt
      (Nat.one_pos.trans_eq (congrArg (·.1) hvalue).symm)⟩

end LocalCapture.Radio
