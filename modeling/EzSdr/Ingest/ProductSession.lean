import EzSdr.Ingest.Loop

/-! # Product Sessions

    A product session is meant to last for one pass over the source: from a
    start, or a rewind of a replay file, to the next, at one tuning. The thread
    renews it when it sees the source count in another epoch than the one it
    remembers. A command makes it forget that epoch, so two kinds of step start
    a new pass inside an old session: a recovery after a failed command, and a
    rewind that follows a command. In every run without such steps the
    sessions are those of the passes. -/

namespace Ingest

/-- One executed step of the thread. -/
abbrev Ev := Machine.Event State Input Outcome

/-! ## Section 1: Passes and tunings of a run -/

/-- The step starts a new pass: the source was restarted, or a replay file rewound. -/
def newPass (e : Ev) : Bool :=
  match e.output with
  | .recovered _ => true
  | _ => decide (e.before.source.passEpoch ≠ e.after.source.passEpoch)

/-- The step is an accepted command that changed the frequency or the rate. -/
def retunes (e : Ev) : Bool :=
  decide (e.output = .applied) &&
    (decide (e.before.source.settings.frequencyHz ≠ e.after.source.settings.frequencyHz) ||
      decide (e.before.source.settings.sampleRateHz ≠ e.after.source.settings.sampleRateHz))

/-- A published block with the pass and the tuning it was read in. -/
structure Published where
  block  : SampleBlock
  pass   : ℕ
  tuning : ℕ
  deriving DecidableEq

def publishedBlock : Outcome → Option SampleBlock
  | .published b => some b
  | _ => none

def passes (h : List Ev) : ℕ := h.countP newPass

def tunings (h : List Ev) : ℕ := h.countP retunes

/-- The blocks of a run that begins in pass `pass` at tuning `tuning`. -/
def publishedFrom (pass tuning : ℕ) : List Ev → List Published
  | [] => []
  | e :: es =>
    let pass := pass + (if newPass e then 1 else 0)
    let tuning := tuning + (if retunes e then 1 else 0)
    ((publishedBlock e.output).map fun b => ⟨b, pass, tuning⟩).toList ++
      publishedFrom pass tuning es

/-- The blocks a run has published. -/
def published (h : List Ev) : List Published := publishedFrom 0 0 h

theorem passes_append (h : List Ev) (e : Ev) :
    passes (h ++ [e]) = passes h + (if newPass e then 1 else 0) := by
  simp [passes, List.countP_append, List.countP_singleton]

theorem tunings_append (h : List Ev) (e : Ev) :
    tunings (h ++ [e]) = tunings h + (if retunes e then 1 else 0) := by
  simp [tunings, List.countP_append, List.countP_singleton]

theorem publishedFrom_append (pass tuning : ℕ) (h : List Ev) (e : Ev) :
    publishedFrom pass tuning (h ++ [e]) = publishedFrom pass tuning h ++
      ((publishedBlock e.output).map fun b =>
        (⟨b, pass + passes (h ++ [e]), tuning + tunings (h ++ [e])⟩ : Published)).toList := by
  induction h generalizing pass tuning with
  | nil => simp [publishedFrom, passes, tunings, List.countP_singleton]
  | cons e' es ih =>
    simp only [List.cons_append, publishedFrom, ih, List.append_assoc, passes, tunings,
      List.countP_cons]
    have hpass : ∀ n, pass + (if newPass e' then 1 else 0) + n =
        pass + (n + (if newPass e' then 1 else 0)) := by intro n; omega
    have htuning : ∀ n, tuning + (if retunes e' then 1 else 0) + n =
        tuning + (n + (if retunes e' then 1 else 0)) := by intro n; omega
    simp only [hpass, htuning]

theorem published_append (h : List Ev) (e : Ev) :
    published (h ++ [e]) = published h ++
      ((publishedBlock e.output).map fun b =>
        (⟨b, passes (h ++ [e]), tunings (h ++ [e])⟩ : Published)).toList := by
  simpa only [published, Nat.zero_add] using publishedFrom_append 0 0 h e

/-! ## Section 2: The law, and the steps that can break it -/

/-- The product-session law of a run. -/
structure SessionLaw (h : List Ev) : Prop where
  /-- Blocks of different passes carry different sessions. -/
  apart : ∀ b ∈ published h, ∀ c ∈ published h, b.pass ≠ c.pass →
    b.block.productSession ≠ c.block.productSession
  /-- Blocks of one uninterrupted pass carry the same session. -/
  together : ∀ b ∈ published h, ∀ c ∈ published h, b.pass = c.pass → b.tuning = c.tuning →
    b.block.productSession = c.block.productSession

/-- The next read of a replay rewinds the file. -/
def Source.rewinds (source : Source) (io : FileIo) : Prop :=
  match source with
  | .replay f => f.Rewinds io
  | .live _ => False

/-- The input starts a new pass without a new session: a failed command whose
    recovery succeeds, or a rewind while no source epoch is remembered. -/
def Reopens (s : State) : Input → Prop
  | .command begun command calls => begun = true ∧
      ∃ message source next,
        command.apply s.source calls.setter s.nextEpoch = (some message, source, next) ∧
        (recovery s.source.settings calls source.stop next).1 = none
  | .read io _ => s.lastSourceEpoch = none ∧ s.source.rewinds io.file
  | .shutdown => False

/-- No block was published in the current session before a step that starts a
    new pass inside it. -/
def StepOk (h : List Ev) (s : State) (i : Input) : Prop :=
  s.ended = false → Reopens s i → ∀ b ∈ published h, b.block.productSession ≠ s.productSession

/-- Every step of the run is such a step. -/
def GoodRun (h : List Ev) : Prop :=
  ∀ pre e post, h = pre ++ e :: post → StepOk pre e.before e.input

theorem GoodRun.append {h : List Ev} {e : Ev} (hgood : GoodRun (h ++ [e])) :
    GoodRun h ∧ StepOk h e.before e.input := by
  constructor
  · intro pre e' post heq
    exact hgood pre e' (post ++ [e]) (by simp [heq])
  · exact hgood h e [] rfl

/-! ## Section 3: What source calls do to the epochs -/

/-- The epoch of the current pass was handed out before `next`. -/
def Source.Older (s : Source) (next : ℕ) : Prop := ∀ e, s.passEpoch = some e → e < next

theorem Source.Older.mono {s : Source} {m n : ℕ} (h : s.Older m) (hmn : m ≤ n) : s.Older n :=
  fun e he => lt_of_lt_of_le (h e he) hmn

/-- What every fallible call keeps: the pass of the source, and the order of epochs. -/
def SamePass (s : Source) (next : ℕ) (r : Option String × Source × ℕ) : Prop :=
  r.2.1.passEpoch = s.passEpoch ∧ next ≤ r.2.2

theorem LiveSource.call_le (l : LiveSource) (c : DriverCall) (next : ℕ) :
    next ≤ (l.call c next).2.2 := by
  unfold LiveSource.call
  cases c.pump <;> simp

theorem setFrequency_samePass (s : Source) (hz : ℕ) (c : DriverCall) (next : ℕ) :
    SamePass s next (s.setFrequency hz c next) := by
  cases s with
  | replay f => exact ⟨rfl, le_refl _⟩
  | live l => exact ⟨rfl, l.call_le c next⟩

theorem setSampleRate_samePass (s : Source) (hz : ℕ) (c : DriverCall) (next : ℕ) :
    SamePass s next (s.setSampleRate hz c next) := by
  cases s with
  | replay f =>
    unfold SamePass Source.setSampleRate FileReplaySource.setSampleRate
    by_cases hz : hz = 0 <;> simp [hz, Source.passEpoch]
  | live l => exact ⟨rfl, l.call_le c next⟩

theorem setGain_samePass (s : Source) (db : ℚ) (c : DriverCall) (next : ℕ) :
    SamePass s next (s.setGain db c next) := by
  cases s with
  | replay f => exact ⟨rfl, le_refl _⟩
  | live l => exact ⟨rfl, l.call_le c next⟩

theorem apply_samePass (command : HardwareCommand) (s : Source) (c : DriverCall) (next : ℕ) :
    SamePass s next (command.apply s c next) := by
  cases command with
  | frequency hz => exact setFrequency_samePass s hz c next
  | sampleRate hz => exact setSampleRate_samePass s hz c next
  | gain db => exact setGain_samePass s db c next

theorem stop_passEpoch (s : Source) : s.stop.passEpoch = s.passEpoch := by
  cases s <;> rfl

/-- What a call does to the epochs when it may also start the source. -/
def StaysOlder (next : ℕ) (r : Option String × Source × ℕ) : Prop :=
  r.2.1.Older r.2.2 ∧ next ≤ r.2.2

theorem SamePass.staysOlder {s : Source} {next : ℕ} {r : Option String × Source × ℕ}
    (h : SamePass s next r) (hs : s.Older next) : StaysOlder next r := by
  refine ⟨?_, h.2⟩
  intro e he
  rw [h.1] at he
  exact lt_of_lt_of_le (hs e he) h.2

theorem start_staysOlder (s : Source) (c : DriverCall) (next : ℕ) (hs : s.Older next) :
    StaysOlder next (s.start c next) := by
  cases s with
  | replay f =>
    unfold Source.start FileReplaySource.start
    cases c.error with
    | some error => exact ⟨hs, le_refl _⟩
    | none =>
      refine ⟨?_, Nat.le_succ _⟩
      intro e he
      simp only [Source.passEpoch, Option.some.injEq] at he
      show e < next + 1
      omega
  | live l =>
    refine ⟨?_, l.call_le c next⟩
    intro e he
    simp [Source.start, Source.passEpoch] at he

theorem andThen_staysOlder {next : ℕ} {r : Option String × Source × ℕ}
    {f : Source → ℕ → Option String × Source × ℕ} (hr : StaysOlder next r)
    (hf : ∀ s n, s.Older n → StaysOlder n (f s n)) : StaysOlder next (andThen r f) := by
  obtain ⟨_ | error, s, n⟩ := r
  · have h := hf s n hr.1
    exact ⟨h.1, le_trans hr.2 h.2⟩
  · exact hr

theorem recovery_staysOlder (before : Settings) (calls : CommandCalls) (s : Source) (next : ℕ)
    (hs : s.Older next) : StaysOlder next (recovery before calls s next) := by
  unfold recovery
  apply andThen_staysOlder
  · apply andThen_staysOlder
    · apply andThen_staysOlder
      · exact (setFrequency_samePass s _ _ _).staysOlder hs
      · exact fun s n h => (setSampleRate_samePass s _ _ _).staysOlder h
    · exact fun s n h => (setGain_samePass s _ _ _).staysOlder h
  · exact fun s n h => start_staysOlder s _ _ h

/-- A read rewinds only where `rewinds` says so, and then takes a new epoch. -/
theorem readIq_epochs (s : Source) (io : ReadIo) (len next : ℕ) (hs : s.Older next) :
    StaysOlder next ((none : Option String), (s.readIq io len next).2) ∧
      ((s.readIq io len next).2.1.passEpoch = s.passEpoch ∨ s.rewinds io.file) := by
  cases s with
  | replay f =>
    have hsame := f.readIq_epochs io.file len next
    have hepoch := f.readLoop_epoch io.file (len * f.format.bytesPerSample) next
    rw [← hsame.1, ← hsame.2] at hepoch
    have hlt : f.captureEpoch < next := hs f.captureEpoch rfl
    unfold StaysOlder Source.Older
    simp only [Source.readIq, Source.passEpoch, Option.some.injEq, Source.rewinds]
    rcases hepoch with ⟨hepoch, hnext⟩ | ⟨hrewinds, hepoch, hnext⟩
    · rw [hepoch, hnext]
      exact ⟨⟨by intro e he; omega, le_refl _⟩, Or.inl rfl⟩
    · rw [hepoch, hnext]
      exact ⟨⟨by intro e he; omega, Nat.le_succ _⟩, Or.inr hrewinds⟩
  | live l =>
    unfold StaysOlder Source.Older
    simp [Source.readIq, Source.passEpoch]

/-- A read that returns samples leaves the clock of the source in its own epoch. -/
theorem readIq_clock (s : Source) (io : ReadIo) (len next n : ℕ)
    (hread : (s.readIq io len next).1 = .ok (n + 1)) :
    ((s.readIq io len next).2.1.captureClock = none ∧
        (s.readIq io len next).2.1.clockEpoch = none ∧ s.clockEpoch = none) ∨
      ∃ c, (s.readIq io len next).2.1.captureClock = some c ∧
        (s.readIq io len next).2.1.clockEpoch = some c.epoch := by
  cases s with
  | replay f =>
    right
    simp only [Source.readIq] at hread ⊢
    unfold FileReplaySource.readIq at hread ⊢
    split at hread
    · cases hread
    · next heq =>
      split at hread
      · cases hread
      · next hfilled =>
        simp only [hfilled, if_false]
        exact ⟨_, rfl, rfl⟩
  | live l =>
    simp only [Source.readIq] at hread ⊢
    unfold LiveSource.readIq at hread ⊢
    split at hread
    · cases hread
    · cases hread
    · next n' hanswer =>
      cases hpump : l.pump with
      | none => left; simp [Source.captureClock, Source.clockEpoch, hpump]
      | some pump =>
        right
        simp only [Source.captureClock, Source.clockEpoch]
        exact ⟨_, rfl, rfl⟩

/-- Reads never move the epoch of a driver, and a replay counts in the epoch of its pass. -/
theorem readIq_clockEpoch (s : Source) (io : ReadIo) (len next : ℕ) :
    (s.readIq io len next).2.1.clockEpoch = s.clockEpoch ↔
      (s.readIq io len next).2.1.passEpoch = s.passEpoch := by
  cases s with
  | replay f => rfl
  | live l =>
    simp only [Source.readIq, Source.clockEpoch, Source.passEpoch, iff_true]
    unfold LiveSource.readIq
    split
    · rfl
    · rfl
    · cases hpump : l.pump <;> simp [hpump]

/-- A file never reports a pending read. -/
theorem readIq_pending (s : Source) (io : ReadIo) (len next : ℕ) {e : ReadError}
    (hread : (s.readIq io len next).1 = .error e) (he : ∀ m, e ≠ .failed m) :
    (s.readIq io len next).2.1.clockEpoch = s.clockEpoch := by
  cases s with
  | replay f =>
    simp only [Source.readIq] at hread
    unfold FileReplaySource.readIq at hread
    split at hread
    · cases hread
      exact absurd rfl (he _)
    · split at hread <;> cases hread
  | live l =>
    rw [readIq_clockEpoch]
    rfl

/-! ## Section 4: What one step does to the session -/

/-- The thread remembers the epoch the source counts in, if it remembers one. -/
def State.Remembers (s : State) : Prop :=
  ∀ e, s.lastSourceEpoch = some e → s.source.clockEpoch = some e

/-- What a step of a running thread does to epochs and sessions. -/
structure SessionStep (s : State) (i : Input) (s' : State) (o : Outcome) : Prop where
  next_le : s.nextEpoch ≤ s'.nextEpoch
  older   : s'.source.Older s'.nextEpoch
  /-- The session is kept, or replaced by one that was never used. -/
  session : s'.productSession = s.productSession ∨
    (s.nextEpoch ≤ s'.productSession ∧ s'.productSession < s'.nextEpoch)
  /-- A block carries the session of the state after the step. -/
  block : ∀ b, o = .published b → b.productSession = s'.productSession ∧ s'.ended = false
  /-- A new pass takes a new session, unless the step reopens the old one. -/
  pass : newPass ⟨s, i, o, s'⟩ = true → s'.ended = false →
    s'.productSession ≠ s.productSession ∨ Reopens s i
  retune : retunes ⟨s, i, o, s'⟩ = true → s'.productSession ≠ s.productSession
  /-- Nothing else takes a new session. -/
  renewed : s'.productSession ≠ s.productSession → s'.ended = false →
    newPass ⟨s, i, o, s'⟩ = true ∨ retunes ⟨s, i, o, s'⟩ = true
  remembers : s'.ended = false → s'.Remembers

/-- A thread that ends publishes nothing and keeps its session. -/
theorem SessionStep.finish {s : State} {i : Input} {source : Source} {next : ℕ}
    {status : HardwareStatus} {o : Outcome} (hnext : s.nextEpoch ≤ next)
    (holder : source.Older next) (hblock : ∀ b, o ≠ .published b) (happlied : o ≠ .applied) :
    SessionStep s i (s.finish source next status) o where
  next_le := hnext
  older := holder
  session := Or.inl rfl
  block := fun b hb => absurd hb (hblock b)
  pass := fun _ hended => absurd hended (by simp [State.finish])
  retune := fun h => by simp [retunes, happlied] at h
  renewed := fun h => absurd rfl h
  remembers := fun hended => absurd hended (by simp [State.finish])

@[simp] theorem accept_source (s : State) (source : Source) (next : ℕ) :
    (s.accept source next).source = source := by
  unfold State.accept
  dsimp only
  split_ifs <;> rfl

theorem accept_nextEpoch_le (s : State) (source : Source) (next : ℕ) :
    next ≤ (s.accept source next).nextEpoch := by
  unfold State.accept
  dsimp only
  split <;> split <;> (simp; try omega)

/-- An accepted command renews the session exactly when it changed the geometry. -/
theorem accept_session (s : State) (source : Source) (next : ℕ) :
    if s.source.settings.frequencyHz ≠ source.settings.frequencyHz ∨
        s.source.settings.sampleRateHz ≠ source.settings.sampleRateHz then
      next ≤ (s.accept source next).productSession ∧
        (s.accept source next).productSession < (s.accept source next).nextEpoch
    else (s.accept source next).productSession = s.productSession := by
  unfold State.accept
  dsimp only
  split_ifs <;> simp

/-- Commands keep the session with the tuning, but a recovery does not renew it. -/
theorem stepCommand_session {s : State} (command : HardwareCommand) (calls : CommandCalls)
    (hs : s.source.Older s.nextEpoch) (hsession : s.productSession < s.nextEpoch) :
    SessionStep s (.command true command calls) (stepCommand s command calls).1
      (stepCommand s command calls).2 := by
  have hsame := apply_samePass command s.source calls.setter s.nextEpoch
  unfold stepCommand
  rcases hr : command.apply s.source calls.setter s.nextEpoch with ⟨_ | message, source, next⟩
  · -- the setter succeeded
    rw [hr] at hsame
    obtain ⟨hpass, hnext⟩ := hsame
    have hle := accept_nextEpoch_le s source next
    have hrenew := accept_session s source next
    dsimp only at hpass hnext ⊢
    refine ⟨by omega, ?_, ?_, ?_, ?_, ?_, ?_, ?_⟩
    · intro e he
      rw [accept_source, hpass] at he
      exact lt_of_lt_of_le (hs e he) (by omega)
    · split at hrenew
      · exact Or.inr ⟨by omega, hrenew.2⟩
      · exact Or.inl hrenew
    · intro b hb
      cases hb
    · intro h
      simp [newPass, hpass] at h
    · intro h
      simp only [retunes, accept_source, decide_true, Bool.true_and, Bool.or_eq_true,
        decide_eq_true_eq] at h
      rw [if_pos h] at hrenew
      omega
    · intro h _
      right
      split at hrenew
      · next hchanged =>
        simpa only [retunes, accept_source, decide_true, Bool.true_and, Bool.or_eq_true,
          decide_eq_true_eq] using hchanged
      · exact absurd hrenew h
    · intro _ e he
      cases he
  · -- the setter failed
    have holder := (hsame.staysOlder hs)
    rw [hr] at holder
    have hstop : source.stop.Older next := by
      intro e he
      rw [stop_passEpoch] at he
      exact holder.1 e he
    have hrec := recovery_staysOlder s.source.settings calls source.stop next hstop
    have hnext : s.nextEpoch ≤ next := holder.2
    dsimp only
    rcases hr' : recovery s.source.settings calls source.stop next with
      ⟨_ | error, source', next'⟩
    · -- the recovery succeeded: a new pass in the old session
      rw [hr'] at hrec
      obtain ⟨hsource', hnext'⟩ := hrec
      dsimp only at hsource' hnext' ⊢
      refine ⟨?_, hsource'.mono (Nat.le_succ _), Or.inl rfl, ?_, ?_, ?_, ?_, ?_⟩
      · show s.nextEpoch ≤ next' + 1
        omega
      · intro b hb
        cases hb
      · intro _ _
        exact Or.inr ⟨rfl, message, source, next, hr, by rw [hr']⟩
      · intro h
        simp [retunes] at h
      · intro h
        exact absurd rfl h
      · intro _ e he
        cases he
    · -- the recovery failed: the thread ends
      rw [hr'] at hrec
      apply SessionStep.finish (le_trans hnext hrec.2) hrec.1
      · intro b hb
        cases hb
      · intro h
        cases h

/-- Following a clock renews the session exactly when another epoch was remembered. -/
theorem follow_session (s : State) (clock : CaptureClock) :
    s.nextEpoch ≤ (s.follow clock).nextEpoch ∧
      (s.follow clock).source = s.source ∧ (s.follow clock).ended = s.ended ∧
      (s.follow clock).lastSourceEpoch = some clock.epoch ∧
      if s.lastSourceEpoch = none ∨ s.lastSourceEpoch = some clock.epoch then
        (s.follow clock).productSession = s.productSession
      else s.nextEpoch ≤ (s.follow clock).productSession ∧
        (s.follow clock).productSession < (s.follow clock).nextEpoch := by
  unfold State.follow
  by_cases hsame : s.lastSourceEpoch = some clock.epoch
  · simp [hsame]
  · cases hlast : s.lastSourceEpoch with
    | none => simp
    | some e =>
      rw [hlast, Option.some.injEq] at hsame
      simp only [ne_eq, Option.some.injEq, hsame, not_false_eq_true, if_true, Option.isSome_some,
        reduceCtorEq, or_self, if_false, true_and]
      exact ⟨by omega, le_refl _, by omega⟩

/-- Publishing carries the session of the state it leaves behind. -/
theorem publish_block (s : State) (n : ℕ) :
    (s.publish n).2.productSession = (s.publish n).1.productSession ∧
      (s.publish n).1.ended = s.ended ∧ (s.publish n).1.source = s.source ∧
      s.nextEpoch ≤ (s.publish n).1.nextEpoch := by
  unfold State.publish
  cases s.source.captureClock with
  | none => exact ⟨rfl, rfl, rfl, le_refl _⟩
  | some c =>
    obtain ⟨hnext, hsource, hended, -, -⟩ := follow_session s c
    exact ⟨rfl, hended, hsource, hnext⟩

/-- Without a clock of the source, publishing keeps the session. -/
theorem publish_unclocked (s : State) (n : ℕ) (hclock : s.source.captureClock = none) :
    (s.publish n).1.productSession = s.productSession ∧
      (s.publish n).1.lastSourceEpoch = s.lastSourceEpoch := by
  unfold State.publish
  rw [hclock]
  exact ⟨rfl, rfl⟩

/-- With one, publishing follows it. -/
theorem publish_clocked (s : State) (n : ℕ) {c : CaptureClock}
    (hclock : s.source.captureClock = some c) :
    (s.publish n).1.lastSourceEpoch = some c.epoch ∧
      if s.lastSourceEpoch = none ∨ s.lastSourceEpoch = some c.epoch then
        (s.publish n).1.productSession = s.productSession
      else s.nextEpoch ≤ (s.publish n).1.productSession ∧
        (s.publish n).1.productSession < (s.publish n).1.nextEpoch := by
  obtain ⟨-, -, -, hlast, hsession⟩ := follow_session s c
  unfold State.publish
  rw [hclock]
  exact ⟨hlast, hsession⟩

/-- A read that publishes. The session is renewed exactly when the source was
    seen in another epoch than the remembered one. -/
theorem publishing_session {s : State} {source : Source} {next : ℕ} (io : ReadIo)
    (running : Bool) (n : ℕ) (hended : s.ended = false)
    (hlt : s.productSession < s.nextEpoch) (hnext : s.nextEpoch ≤ next)
    (holder : source.Older next) (hrem : s.Remembers)
    (hclockEpoch : source.clockEpoch = s.source.clockEpoch ↔
      source.passEpoch = s.source.passEpoch)
    (hpass : source.passEpoch = s.source.passEpoch ∨ s.source.rewinds io.file)
    (hclock : (source.captureClock = none ∧ source.clockEpoch = none ∧
        s.source.clockEpoch = none) ∨
      ∃ c, source.captureClock = some c ∧ source.clockEpoch = some c.epoch) :
    SessionStep s (.read io running)
      (State.publish { s with source := source, nextEpoch := next } (n + 1)).1
      (.published (State.publish { s with source := source, nextEpoch := next } (n + 1)).2) := by
  obtain ⟨hblock, hend, hsource, hle⟩ :=
    publish_block { s with source := source, nextEpoch := next } (n + 1)
  have hunclocked := publish_unclocked { s with source := source, nextEpoch := next } (n + 1)
  have hclocked := fun c =>
    @publish_clocked { s with source := source, nextEpoch := next } (n + 1) c
  generalize State.publish { s with source := source, nextEpoch := next } (n + 1) = p
    at hblock hend hsource hle hunclocked hclocked ⊢
  obtain ⟨s', b⟩ := p
  dsimp only at hblock hend hsource hle hunclocked hclocked ⊢
  -- the two ways to relate the session before and after to the epoch of the source
  have hsession : (s'.productSession = s.productSession ∧
        (source.clockEpoch = s.source.clockEpoch ∨ s.lastSourceEpoch = none)) ∨
      (source.clockEpoch ≠ s.source.clockEpoch ∧ next ≤ s'.productSession ∧
        s'.productSession < s'.nextEpoch) := by
    rcases hclock with ⟨hcapture, hnone, hnone'⟩ | ⟨c, hcapture, hepoch⟩
    · exact Or.inl ⟨(hunclocked hcapture).1, Or.inl (hnone.trans hnone'.symm)⟩
    · obtain ⟨-, hs'⟩ := hclocked c hcapture
      split at hs'
      · next hlast =>
        refine Or.inl ⟨hs', ?_⟩
        rcases hlast with hlast | hlast
        · exact Or.inr hlast
        · exact Or.inl (hepoch.trans (hrem _ hlast).symm)
      · next hlast =>
        right
        refine ⟨?_, hs'⟩
        intro heq
        apply hlast
        cases h : s.lastSourceEpoch with
        | none => exact Or.inl rfl
        | some e => exact Or.inr (by rw [← hrem e h, ← heq, hepoch])
  refine ⟨le_trans hnext hle, ?_, ?_, ?_, ?_, ?_, ?_, ?_⟩
  · rw [hsource]
    exact holder.mono hle
  · rcases hsession with ⟨hkept, -⟩ | ⟨-, hfresh⟩
    · exact Or.inl hkept
    · exact Or.inr ⟨le_trans hnext hfresh.1, hfresh.2⟩
  · intro b' hb'
    cases hb'
    exact ⟨hblock, hend.trans hended⟩
  · intro hnew _
    have hmoved : source.passEpoch ≠ s.source.passEpoch := by
      intro heq
      simp [newPass, hsource, heq] at hnew
    rcases hsession with ⟨hkept, hepoch | hforgot⟩ | ⟨-, hfresh⟩
    · exact absurd (hclockEpoch.1 hepoch) hmoved
    · exact Or.inr ⟨hforgot, hpass.resolve_left hmoved⟩
    · left
      omega
  · intro h
    simp [retunes] at h
  · intro hrenewed _
    left
    rcases hsession with ⟨hkept, -⟩ | ⟨hmoved, -⟩
    · exact absurd hkept hrenewed
    · have hmoved' : s.source.passEpoch ≠ source.passEpoch :=
        fun h => hmoved (hclockEpoch.2 h.symm)
      simp [newPass, hsource, hmoved']
  · intro _ e he
    rw [hsource]
    rcases hclock with ⟨hcapture, hnone, hnone'⟩ | ⟨c, hcapture, hepoch⟩
    · rw [(hunclocked hcapture).2] at he
      rw [hnone, ← hnone', hrem e he]
    · rw [(hclocked c hcapture).1] at he
      rw [hepoch, he]

/-- A read renews the session when the source has moved on from the remembered epoch. -/
theorem stepRead_session {s : State} (io : ReadIo) (running : Bool) (hended : s.ended = false)
    (hs : s.source.Older s.nextEpoch) (hlt : s.productSession < s.nextEpoch)
    (hrem : s.Remembers) :
    SessionStep s (.read io running) (stepRead s io running).1 (stepRead s io running).2 := by
  have hepochs := readIq_epochs s.source io readChunk s.nextEpoch hs
  have hclockEpoch := readIq_clockEpoch s.source io readChunk s.nextEpoch
  have hclock := readIq_clock s.source io readChunk s.nextEpoch
  have hpending := fun e => @readIq_pending s.source io readChunk s.nextEpoch e
  unfold stepRead
  rcases hr : s.source.readIq io readChunk s.nextEpoch with ⟨read, source, next⟩
  rw [hr] at hepochs hclockEpoch hclock hpending
  obtain ⟨⟨holder, hnext⟩, hpass⟩ := hepochs
  dsimp only at holder hnext hpass hclockEpoch hclock hpending ⊢
  by_cases hrunning : running = false
  · rw [if_pos hrunning]
    exact SessionStep.finish hnext holder (by intro b hb; cases hb) (by intro h; cases h)
  rw [if_neg hrunning]
  match read with
  | .ok 0 =>
    exact SessionStep.finish hnext holder (by intro b hb; cases hb) (by intro h; cases h)
  | .error (.failed e) =>
    exact SessionStep.finish hnext holder (by intro b hb; cases hb) (by intro h; cases h)
  | .error .timeout =>
    -- a timeout leaves the clock of the source as it was
    have hkept := hpending .timeout rfl (by intro m h; cases h)
    refine ⟨hnext, holder, Or.inl rfl, ?_, ?_, ?_, ?_, ?_⟩
    · intro b hb
      cases hb
    · intro h
      simp [newPass, hclockEpoch.1 hkept] at h
    · intro h
      simp [retunes] at h
    · intro h
      exact absurd rfl h
    · intro _ e he
      show source.clockEpoch = some e
      rw [hkept]
      exact hrem e he
  | .error .gap =>
    -- a gap takes a fresh epoch but not a new product session
    have hkept := hpending .gap rfl (by intro m h; cases h)
    refine ⟨by show s.nextEpoch ≤ next + 1; omega, holder.mono (Nat.le_succ _), Or.inl rfl,
      ?_, ?_, ?_, ?_, ?_⟩
    · intro b hb
      cases hb
    · intro h
      simp [newPass, hclockEpoch.1 hkept] at h
    · intro h
      simp [retunes] at h
    · intro h
      exact absurd rfl h
    · intro _ e he
      cases he
  | .ok (n + 1) =>
    exact publishing_session io running n hended hlt hnext holder hrem hclockEpoch hpass
      (hclock n rfl)

/-- The session facts of any step of a running thread. -/
theorem step_session {s : State} (i : Input) (hended : s.ended = false)
    (hs : s.source.Older s.nextEpoch) (hlt : s.productSession < s.nextEpoch)
    (hrem : s.Remembers) : SessionStep s i (step s i).1 (step s i).2 := by
  unfold step
  rw [hended]
  cases i with
  | command begun command calls =>
    cases begun with
    | true => exact stepCommand_session command calls hs hlt
    | false =>
      -- a cancelled command changes nothing
      refine ⟨le_refl _, hs, Or.inl rfl, ?_, ?_, ?_, ?_, fun _ => hrem⟩
      · intro b hb
        cases hb
      · intro h
        simp [newPass] at h
      · intro h
        simp [retunes] at h
      · intro h
        exact absurd rfl h
  | read io running => exact stepRead_session io running hended hs hlt hrem
  | shutdown =>
    exact SessionStep.finish (le_refl _) hs (by intro b hb; cases hb) (by intro h; cases h)

/-! ## Section 5: Runs -/

/-- What holds of the thread after a run without reopened sessions. -/
structure SessionInv (h : List Ev) (s : State) : Prop where
  law : SessionLaw h
  /-- Blocks were read in the passes and tunings so far, under sessions handed out so far. -/
  past : ∀ b ∈ published h, b.pass ≤ passes h ∧ b.tuning ≤ tunings h ∧
    b.block.productSession < s.nextEpoch
  session_lt : s.productSession < s.nextEpoch
  older : s.source.Older s.nextEpoch
  remembers : s.ended = false → s.Remembers
  /-- The current session has only seen the current pass. -/
  used : s.ended = false → ∀ b ∈ published h, b.block.productSession = s.productSession →
    b.pass = passes h
  /-- The current pass and tuning have only seen the current session. -/
  current : s.ended = false → ∀ b ∈ published h, b.pass = passes h → b.tuning = tunings h →
    b.block.productSession = s.productSession

/-- A thread that has ended adds nothing to the run. -/
theorem SessionInv.ended_step {h : List Ev} {s : State} (hinv : SessionInv h s) (i : Input)
    (hended : s.ended = true) : SessionInv (h ++ [⟨s, i, (step s i).2, (step s i).1⟩])
      (step s i).1 := by
  have hstep : step s i = (s, .finished) := by simp [step, hended]
  rw [hstep]
  have hpub : published (h ++ [⟨s, i, .finished, s⟩]) = published h := by
    simp [published_append, publishedBlock]
  have hpasses : passes (h ++ [⟨s, i, .finished, s⟩]) = passes h := by
    simp [passes_append, newPass]
  have htunings : tunings (h ++ [⟨s, i, .finished, s⟩]) = tunings h := by
    simp [tunings_append, retunes]
  constructor
  · constructor
    · rw [hpub]; exact hinv.law.apart
    · rw [hpub]; exact hinv.law.together
  · rw [hpub, hpasses, htunings]; exact hinv.past
  · exact hinv.session_lt
  · exact hinv.older
  · exact hinv.remembers
  · rw [hpub, hpasses]; exact hinv.used
  · rw [hpub, hpasses, htunings]; exact hinv.current

/-- The blocks published before a step keep apart from, or stay with, the
    session after it. -/
theorem SessionInv.earlier {h : List Ev} {s : State} (hinv : SessionInv h s) {i : Input}
    {s' : State} {o : Outcome} (hended : s.ended = false) (hstep : SessionStep s i s' o)
    (hok : StepOk h s i) (hended' : s'.ended = false) :
    ∀ b ∈ published h,
      (b.block.productSession = s'.productSession → b.pass = passes (h ++ [⟨s, i, o, s'⟩])) ∧
      (b.pass = passes (h ++ [⟨s, i, o, s'⟩]) → b.tuning = tunings (h ++ [⟨s, i, o, s'⟩]) →
        b.block.productSession = s'.productSession) := by
  intro b hb
  obtain ⟨hpass, htuning, hold⟩ := hinv.past b hb
  rw [passes_append, tunings_append]
  constructor
  · intro hsame
    -- the session is older than any renewed one, so it was kept
    have hkept : s'.productSession = s.productSession :=
      hstep.session.resolve_right (by omega)
    have huse := hinv.used hended b hb (hsame.trans hkept)
    split
    · next hnew =>
      rcases hstep.pass hnew hended' with hne | hreopens
      · exact absurd hkept hne
      · exact absurd (hsame.trans hkept) (hok hended hreopens b hb)
    · omega
  · intro hpass' htuning'
    have hnew : newPass ⟨s, i, o, s'⟩ = false := by
      by_contra hnew
      rw [if_pos (by simpa using hnew)] at hpass'
      omega
    have hretunes : retunes ⟨s, i, o, s'⟩ = false := by
      by_contra hretunes
      rw [if_pos (by simpa using hretunes)] at htuning'
      omega
    have hkept : s'.productSession = s.productSession := by
      by_contra hne
      rcases hstep.renewed hne hended' with h' | h'
      · rw [hnew] at h'; cases h'
      · rw [hretunes] at h'; cases h'
    rw [hkept]
    simp only [hnew, hretunes] at hpass' htuning'
    exact hinv.current hended b hb hpass' htuning'

/-- One step of a good run keeps the invariant. -/
theorem SessionInv.step {h : List Ev} {s : State} (hinv : SessionInv h s) (i : Input)
    (hok : StepOk h s i) :
    SessionInv (h ++ [⟨s, i, (step s i).2, (step s i).1⟩]) (step s i).1 := by
  by_cases hended : s.ended = true
  · exact hinv.ended_step i hended
  have hended : s.ended = false := by simpa using hended
  have hstep := step_session i hended hinv.older hinv.session_lt (hinv.remembers hended)
  generalize Ingest.step s i = r at hstep ⊢
  obtain ⟨s', o⟩ := r
  dsimp only at hstep ⊢
  have hearlier := fun hended' => hinv.earlier hended hstep hok hended'
  have hpub := published_append h ⟨s, i, o, s'⟩
  have hlt : s'.productSession < s'.nextEpoch := by
    rcases hstep.session with hkept | hfresh
    · have := hinv.session_lt
      have := hstep.next_le
      omega
    · exact hfresh.2
  have hpast : ∀ b ∈ published h, b.pass ≤ passes (h ++ [⟨s, i, o, s'⟩]) ∧
      b.tuning ≤ tunings (h ++ [⟨s, i, o, s'⟩]) ∧ b.block.productSession < s'.nextEpoch := by
    intro b hb
    obtain ⟨hpass, htuning, hold⟩ := hinv.past b hb
    have := hstep.next_le
    rw [passes_append, tunings_append]
    exact ⟨by omega, by omega, by omega⟩
  cases hblock : publishedBlock o with
  | none =>
    rw [hblock] at hpub
    simp only [Option.map_none, Option.toList_none, List.append_nil] at hpub
    constructor
    · exact ⟨by rw [hpub]; exact hinv.law.apart, by rw [hpub]; exact hinv.law.together⟩
    · rw [hpub]; exact hpast
    · exact hlt
    · exact hstep.older
    · exact hstep.remembers
    · rw [hpub]; exact fun hended' b hb => (hearlier hended' b hb).1
    · rw [hpub]; exact fun hended' b hb => (hearlier hended' b hb).2
  | some b =>
    have ho : o = .published b := by
      cases o <;> simp [publishedBlock] at hblock
      exact congrArg _ hblock
    obtain ⟨hb, hended'⟩ := hstep.block b ho
    rw [hblock] at hpub
    simp only [Option.map_some, Option.toList_some] at hpub
    set new : Published :=
      ⟨b, passes (h ++ [⟨s, i, o, s'⟩]), tunings (h ++ [⟨s, i, o, s'⟩])⟩ with hnewdef
    have hmem : ∀ c, c ∈ published (h ++ [⟨s, i, o, s'⟩]) → c ∈ published h ∨ c = new := by
      intro c hc
      rw [hpub] at hc
      simpa using hc
    constructor
    · -- the new block against the earlier ones
      constructor
      · intro c hc d hd hne
        rcases hmem c hc with hc | rfl <;> rcases hmem d hd with hd | rfl
        · exact hinv.law.apart c hc d hd hne
        · intro hsame
          exact hne ((hearlier hended' c hc).1 (hsame.trans hb))
        · intro hsame
          exact hne ((hearlier hended' d hd).1 (hsame.symm.trans hb)).symm
        · exact absurd rfl hne
      · intro c hc d hd hpass htuning
        rcases hmem c hc with hc | rfl <;> rcases hmem d hd with hd | rfl
        · exact hinv.law.together c hc d hd hpass htuning
        · exact ((hearlier hended' c hc).2 hpass htuning).trans hb.symm
        · exact hb.trans ((hearlier hended' d hd).2 hpass.symm htuning.symm).symm
        · rfl
    · intro c hc
      rcases hmem c hc with hc | rfl
      · exact hpast c hc
      · exact ⟨le_refl _, le_refl _, by show b.productSession < _; omega⟩
    · exact hlt
    · exact hstep.older
    · exact hstep.remembers
    · intro _ c hc hsame
      rcases hmem c hc with hc | rfl
      · exact (hearlier hended' c hc).1 hsame
      · rfl
    · intro _ c hc hpass htuning
      rcases hmem c hc with hc | rfl
      · exact (hearlier hended' c hc).2 hpass htuning
      · exact hb

/-- A source that starts counts in an epoch handed out before. -/
theorem start_older {s source : Source} {c : DriverCall} {next next' : ℕ}
    (h : s.start c next = (none, source, next')) : source.Older next' := by
  cases s with
  | replay f =>
    unfold Source.start FileReplaySource.start at h
    cases herror : c.error with
    | some error => simp [herror] at h
    | none =>
      simp only [herror, Prod.mk.injEq, true_and] at h
      obtain ⟨rfl, rfl⟩ := h
      intro e he
      simp only [Source.passEpoch, Option.some.injEq] at he
      omega
  | live l =>
    simp only [Source.start, Prod.mk.injEq] at h
    obtain ⟨-, rfl, -⟩ := h
    intro e he
    cases he

/-- The invariant holds when `spawn` returns. -/
theorem spawn_inv {source : Source} {call : DriverCall} {next : ℕ} {s : State}
    (hspawn : spawn source call next = .ok s) : SessionInv [] s := by
  unfold spawn at hspawn
  split at hspawn
  · cases hspawn
  · next source' next' hstart =>
    cases hspawn
    refine ⟨⟨?_, ?_⟩, ?_, ?_, ?_, ?_, ?_, ?_⟩
    · intro b hb
      cases hb
    · intro b hb
      cases hb
    · intro b hb
      cases hb
    · show next' + 1 < next' + 2
      omega
    · exact (start_older hstart).mono (by show next' ≤ next' + 2; omega)
    · intro _ e he
      cases he
    · intro _ b hb
      cases hb
    · intro _ b hb
      cases hb

/-- In a run that never starts a new pass inside a session it has already
    published in, every pass at one tuning has a product session of its own. -/
theorem run_sessionLaw {source : Source} {call : DriverCall} {next : ℕ} {s t : State}
    {inputs : List Input} {h : List Ev} (hspawn : spawn source call next = .ok s)
    (hrun : (machine s).run s inputs = some (t, h)) (hgood : GoodRun h) : SessionLaw h := by
  have hinv : GoodRun h → SessionInv h t := by
    apply Machine.run_inv (machine s) (P := fun h s => GoodRun h → SessionInv h s)
      (I := fun _ => True) _ _ (fun _ _ => trivial) hrun
    · intro _
      exact spawn_inv hspawn
    · intro h s i s' o hinv _ hstep hgood
      obtain ⟨hgood, hok⟩ := hgood.append
      have hnext := (hinv hgood).step i hok
      rw [Option.some.inj hstep] at hnext
      exact hnext
  exact (hinv hgood).law

/-- A run none of whose steps reopens a session is good. -/
theorem GoodRun.of_not_reopens {h : List Ev} (hno : ∀ e ∈ h, ¬ Reopens e.before e.input) :
    GoodRun h := by
  intro pre e post heq _ hreopens
  exact absurd hreopens (hno e (by simp [heq]))

/-! ## Section 6: A looping file -/

/-- A looping recording of two samples. -/
def shortRecording : FileReplaySource where
  fileLen := 4
  position := 0
  format := .rawU8
  frequencyHz := 0
  sampleRateHz := 288000
  gainDb := 0
  looping := true
  running := false
  samplesEmitted := 0
  captureEpoch := 1
  captureIndex := 0
  lastCapture := none
  pendingDiscontinuity := true

/-- A call that succeeds; a file ignores the rest. -/
def quietCall : DriverCall where
  error := none
  settings := ⟨0, 0, 0, none, none⟩
  pump := .keep

/-- A file system that hands out all it has. -/
def quietIo : ReadIo where
  file := ⟨fun _ _ => .ok readChunk, none⟩
  driver := ⟨.ok 0, 0, false⟩

/-- The gain is set once. -/
def gainCommand : Input :=
  .command true (.gain 1) ⟨quietCall, quietCall, quietCall, quietCall, quietCall⟩

/-- The thread on the recording, started. -/
def shortThread : State where
  source := .replay { shortRecording with captureEpoch := 2, running := true }
  nextEpoch := 5
  sampleCounter := 0
  captureEpoch := 3
  productSession := 4
  pendingDiscontinuity := true
  lastSourceEpoch := none
  status := statusSnapshot (.replay shortRecording) true none
  ended := false

theorem spawn_shortRecording :
    spawn (.replay shortRecording) quietCall 2 = .ok shortThread := rfl

/-- The thread after its first read: the whole file, in the first pass. -/
def shortThreadRead : State :=
  let f : FileReplaySource := { shortRecording with captureEpoch := 2, running := true }
  { shortThread with
    source := .replay ({ f with position := 4 }.emit 2), nextEpoch := 6, captureEpoch := 5,
    sampleCounter := 2, pendingDiscontinuity := false, lastSourceEpoch := some 2 }

/-- The first read publishes in session 4. -/
theorem read_shortThread : ∃ b, step shortThread (.read quietIo true) =
    (shortThreadRead, .published b) ∧ b.productSession = 4 := by
  simp [step, stepRead, Source.readIq, FileReplaySource.readIq, FileReplaySource.readLoop,
    FileReplaySource.read, FileReplaySource.advance, FileReplaySource.emit,
    FileReplaySource.clock, CaptureClock.new, Source.captureClock, State.publish, State.follow,
    State.block, ReplayFormat.bytesPerSample, readChunk, quietIo, shortThread, shortThreadRead,
    shortRecording]

/-- A second read rewinds the file and takes a new session. -/
theorem read_shortThreadRead : ∃ s b, step shortThreadRead (.read quietIo true) =
    (s, .published b) ∧ s.source.passEpoch = some 6 := by
  simp [step, stepRead, Source.readIq, FileReplaySource.readIq, FileReplaySource.readLoop,
    FileReplaySource.read, FileReplaySource.advance, FileReplaySource.rewind,
    FileReplaySource.emit, FileReplaySource.clock, CaptureClock.new, Source.captureClock,
    Source.passEpoch, State.publish, State.follow, ReplayFormat.bytesPerSample, readChunk,
    quietIo, shortThread, shortThreadRead, shortRecording]

/-- Reading the recording twice rewinds it once, and keeps the law. -/
theorem run_sessionLaw_shortRecording : ∃ t h,
    (machine shortThread).run shortThread [.read quietIo true, .read quietIo true] =
      some (t, h) ∧ passes h = 1 ∧ SessionLaw h := by
  obtain ⟨b, hread, -⟩ := read_shortThread
  obtain ⟨s, b', hread', hepoch⟩ := read_shortThreadRead
  have hrun : (machine shortThread).run shortThread [.read quietIo true, .read quietIo true] =
      some (s, [⟨shortThread, .read quietIo true, .published b, shortThreadRead⟩,
        ⟨shortThreadRead, .read quietIo true, .published b', s⟩]) := by
    simp only [Machine.run, machine, hread, hread']
  refine ⟨_, _, hrun, ?_, run_sessionLaw spawn_shortRecording hrun ?_⟩
  · have hfirst : newPass ⟨shortThread, .read quietIo true, .published b, shortThreadRead⟩ =
        false := rfl
    have hsecond : newPass ⟨shortThreadRead, .read quietIo true, .published b', s⟩ = true := by
      simp only [newPass, hepoch]
      decide
    simp [passes, hfirst, hsecond]
  · apply GoodRun.of_not_reopens
    intro e he
    simp only [List.mem_cons, List.not_mem_nil, or_false] at he
    rcases he with rfl | rfl
    · rintro ⟨-, -, hend, -⟩
      revert hend
      decide
    · rintro ⟨hlast, -⟩
      cases hlast

/-- The thread after the gain command that follows: it has forgotten the epoch. -/
def shortThreadGain : State :=
  { shortThreadRead with
    source := match shortThreadRead.source with
      | .replay f => .replay { f with gainDb := 1 }
      | .live l => .live l
    nextEpoch := 7, captureEpoch := 6, sampleCounter := 0, pendingDiscontinuity := true,
    lastSourceEpoch := none,
    status := { shortThread.status with gainDb := 1 } }

theorem gain_shortThreadRead : step shortThreadRead gainCommand = (shortThreadGain, .applied) := by
  decide +kernel

/-- The read after the gain command rewinds the file, and publishes in session 4 again. -/
theorem read_shortThreadGain : ∃ s b, step shortThreadGain (.read quietIo true) =
    (s, .published b) ∧ b.productSession = 4 ∧ s.source.passEpoch = some 7 := by
  simp [step, stepRead, Source.readIq, FileReplaySource.readIq, FileReplaySource.readLoop,
    FileReplaySource.read, FileReplaySource.advance, FileReplaySource.rewind,
    FileReplaySource.emit, FileReplaySource.clock, CaptureClock.new, Source.captureClock,
    Source.passEpoch, State.publish, State.follow, State.block, ReplayFormat.bytesPerSample,
    readChunk, quietIo, shortThread, shortThreadRead, shortThreadGain, shortRecording]

/-- A gain command between two passes of a looping recording leaves both in one session. -/
theorem gain_then_rewind_one_session :
    ¬ ∀ (source : Source) (call : DriverCall) (next : ℕ) (s t : State) (inputs : List Input)
        (h : List Ev), spawn source call next = .ok s →
      (machine s).run s inputs = some (t, h) → SessionLaw h := by
  intro hlaw
  obtain ⟨b, hread, hb⟩ := read_shortThread
  obtain ⟨s, b', hread', hb', hepoch⟩ := read_shortThreadGain
  have hrun : (machine shortThread).run shortThread
        [.read quietIo true, gainCommand, .read quietIo true] =
      some (s, [⟨shortThread, .read quietIo true, .published b, shortThreadRead⟩,
        ⟨shortThreadRead, gainCommand, .applied, shortThreadGain⟩,
        ⟨shortThreadGain, .read quietIo true, .published b', s⟩]) := by
    simp only [Machine.run, machine, hread, gain_shortThreadRead, hread']
  have hsessions := hlaw _ _ _ _ _ _ _ spawn_shortRecording hrun
  have hfirst : newPass ⟨shortThread, .read quietIo true, .published b, shortThreadRead⟩ =
      false := rfl
  have hgain : newPass ⟨shortThreadRead, gainCommand, .applied, shortThreadGain⟩ = false := rfl
  have hsecond : newPass ⟨shortThreadGain, .read quietIo true, .published b', s⟩ = true := by
    simp only [newPass, hepoch]
    decide
  have hnoretune : ∀ e ∈ [(⟨shortThread, .read quietIo true, .published b, shortThreadRead⟩ : Ev),
      ⟨shortThreadRead, gainCommand, .applied, shortThreadGain⟩,
      ⟨shortThreadGain, .read quietIo true, .published b', s⟩], retunes e = false := by
    simp only [List.forall_mem_cons]
    refine ⟨by simp [retunes], rfl, by simp [retunes], by simp⟩
  simp only [List.forall_mem_cons] at hnoretune
  -- the two blocks, read in passes 0 and 1
  have hapart := hsessions.apart ⟨b, 0, 0⟩
    (by simp [published, publishedFrom, publishedBlock, hfirst, retunes]) ⟨b', 1, 0⟩
    (by simp [published, publishedFrom, publishedBlock, hfirst, hgain, hsecond, hnoretune])
    (by simp)
  exact hapart (hb.trans hb'.symm)

end Ingest
