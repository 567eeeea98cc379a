import EzSdr.Ingest.ProductSession

/-! # Capture Epochs

    A source without a clock of its own is counted by the thread: the capture
    epoch and the sample counter of the published blocks are all that their
    consumers have to stitch samples together.

    Layout:

    1. Breaks, and the law of a block given the run before it
    2. What one step of a running thread does to the epoch
    3. Runs -/

namespace Ingest

/-! ## Section 1: Breaks and the law -/

/-- The blocks a run has published, in order. -/
def blocks (h : List Ev) : List SampleBlock := h.filterMap fun e => publishedBlock e.output

/-- The capture epoch of a block; the thread stamps every block. -/
def SampleBlock.epoch (b : SampleBlock) : ℕ := b.capture.elim 0 (·.epoch)

def SampleBlock.discontinuous (b : SampleBlock) : Bool := b.capture.any (·.discontinuous)

/-- The step breaks the stream: samples were lost, the source was restarted, or
    a command changed what the source reports. -/
def breaks (e : Ev) : Bool :=
  match e.output with
  | .recovered _ => true
  | .applied => decide (e.before.source.settings.observed ≠ e.after.source.settings.observed)
  | .pending =>
    match e.input with
    | .read io _ =>
      match (e.before.source.readIq io readChunk e.before.nextEpoch).1 with
      | .error .gap => true
      | _ => false
    | _ => false
  | _ => false

/-- The stream was broken, or has not begun, since the last published block. -/
def brokenSince (h : List Ev) : Bool :=
  h.foldl (fun broken e =>
    if (publishedBlock e.output).isSome then false else broken || breaks e) true

@[simp] theorem blocks_nil : blocks [] = [] := rfl

@[simp] theorem blocks_append (h : List Ev) (e : Ev) :
    blocks (h ++ [e]) = blocks h ++ (publishedBlock e.output).toList := by
  cases hb : publishedBlock e.output <;> simp [blocks, List.filterMap_append, hb]

@[simp] theorem brokenSince_append (h : List Ev) (e : Ev) :
    brokenSince (h ++ [e]) =
      if (publishedBlock e.output).isSome then false else brokenSince h || breaks e := by
  simp [brokenSince]

/-- What the blocks published before say about the next one. -/
structure BlockLaw (past : List Ev) (b : SampleBlock) : Prop where
  /-- The clock of the block counts its samples. -/
  stamped : ∃ c, b.capture = some c ∧ c.sourceSampleIndex = b.startSample ∧
    c.sourceSampleRateHz = b.sampleRateHz ∧ c.sampleStride = 1
  /-- Epochs never come back. -/
  ordered : ∀ a ∈ blocks past, a.epoch ≤ b.epoch
  /-- In one epoch each block starts where the last one ended. -/
  tiles   : ∀ a, (blocks past).getLast? = some a → a.epoch = b.epoch →
    b.startSample = a.startSample + a.sampleCount
  /-- One epoch has one tuning. -/
  tuned   : ∀ a ∈ blocks past, a.epoch = b.epoch →
    a.centerFreqHz = b.centerFreqHz ∧ a.sampleRateHz = b.sampleRateHz
  /-- The flag marks the first block of an epoch, which counts from zero. -/
  flagged : b.discontinuous = true ↔ ∀ a ∈ blocks past, a.epoch ≠ b.epoch
  origin  : b.discontinuous = true → b.startSample = 0
  /-- The flag marks a block after a break. -/
  broken  : b.discontinuous = brokenSince past

/-! ## Section 2: Steps -/

/-- What a step of a running thread does to epoch and counter, as long as the
    source has no clock. -/
inductive EpochStep (s : State) (e : Ev) (s' : State) : Prop where
  /-- Nothing that a consumer could see. -/
  | quiet
      (epoch   : s'.captureEpoch = s.captureEpoch)
      (counter : s'.sampleCounter = s.sampleCounter)
      (flag    : s'.pendingDiscontinuity = s.pendingDiscontinuity)
      (tuning  : s'.source.settings.frequencyHz = s.source.settings.frequencyHz ∧
        s'.source.settings.sampleRateHz = s.source.settings.sampleRateHz)
      (next    : s.nextEpoch ≤ s'.nextEpoch)
      (silent  : publishedBlock e.output = none)
      (whole   : breaks e = false)
  /-- A break opens a new epoch. -/
  | renewed
      (epoch   : s.nextEpoch ≤ s'.captureEpoch)
      (next    : s'.captureEpoch < s'.nextEpoch)
      (counter : s'.sampleCounter = 0)
      (flag    : s'.pendingDiscontinuity = true)
      (silent  : publishedBlock e.output = none)
      (broke   : breaks e = true)
  /-- A block is published and counted. -/
  | counted (b : SampleBlock) (c : CaptureClock)
      (output  : publishedBlock e.output = some b)
      (capture : b.capture = some c)
      (stamp   : c.epoch = s.captureEpoch ∧ c.sourceSampleIndex = b.startSample ∧
        c.sourceSampleRateHz = b.sampleRateHz ∧ c.sampleStride = 1 ∧
        c.discontinuous = s.pendingDiscontinuity)
      (start   : b.startSample = s.sampleCounter)
      (tuning  : b.centerFreqHz = s.source.settings.frequencyHz ∧
        b.sampleRateHz = s.source.settings.sampleRateHz)
      (epoch   : s'.captureEpoch = s.captureEpoch)
      (counter : s'.sampleCounter = b.startSample + b.sampleCount)
      (flag    : s'.pendingDiscontinuity = false)
      (same    : s'.source.settings.frequencyHz = s.source.settings.frequencyHz ∧
        s'.source.settings.sampleRateHz = s.source.settings.sampleRateHz)
      (next    : s.nextEpoch ≤ s'.nextEpoch)
  /-- The thread ends. -/
  | ended
      (done    : s'.ended = true)
      (silent  : publishedBlock e.output = none)

/-- A pending read, and a read of samples after which the source still has no
    clock, leave settings and epochs alone: both come from a driver. -/
theorem readIq_unclocked (s : Source) (io : ReadIo) (len next : ℕ) :
    ((∃ e, (s.readIq io len next).1 = .error e ∧ ∀ m, e ≠ .failed m) ∨
      (∃ n, (s.readIq io len next).1 = .ok (n + 1)) ∧
        (s.readIq io len next).2.1.captureClock = none) →
      (s.readIq io len next).2.1.settings = s.settings ∧ (s.readIq io len next).2.2 = next := by
  intro h
  cases s with
  | live l =>
    refine ⟨?_, rfl⟩
    show (l.readIq io.driver).2.settings = l.settings
    unfold LiveSource.readIq
    split
    · rfl
    · rfl
    · cases l.pump <;> rfl
  | replay f =>
    exfalso
    rcases h with ⟨e, hread, he⟩ | ⟨⟨n, hread⟩, hclock⟩
    · simp only [Source.readIq] at hread
      unfold FileReplaySource.readIq at hread
      split at hread
      · cases hread
        exact he _ rfl
      · split at hread <;> cases hread
    · rcases readIq_clock (.replay f) io len next n hread with ⟨-, hepoch, -⟩ | ⟨c, hc, -⟩
      · cases hepoch
      · rw [hclock] at hc
        cases hc

/-- An accepted command opens a new epoch exactly when it changed anything. -/
theorem accept_epoch (s : State) (source : Source) (next : ℕ) :
    if s.source.settings.observed ≠ source.settings.observed then
      (s.accept source next).captureEpoch = next ∧ next < (s.accept source next).nextEpoch ∧
        (s.accept source next).sampleCounter = 0 ∧
        (s.accept source next).pendingDiscontinuity = true
    else
      (s.accept source next).captureEpoch = s.captureEpoch ∧
        (s.accept source next).sampleCounter = s.sampleCounter ∧
        (s.accept source next).pendingDiscontinuity = s.pendingDiscontinuity := by
  unfold State.accept
  dsimp only
  split_ifs <;> simp

theorem stepCommand_epoch {s : State} (command : HardwareCommand) (calls : CommandCalls)
    (hs : s.source.Older s.nextEpoch) :
    EpochStep s ⟨s, .command true command calls, (stepCommand s command calls).2,
      (stepCommand s command calls).1⟩ (stepCommand s command calls).1 := by
  have hsame := apply_samePass command s.source calls.setter s.nextEpoch
  unfold stepCommand
  rcases hr : command.apply s.source calls.setter s.nextEpoch with ⟨_ | message, source, next⟩
  · -- the setter succeeded
    rw [hr] at hsame
    have hnext : s.nextEpoch ≤ next := hsame.2
    have hepoch := accept_epoch s source next
    have hle := accept_nextEpoch_le s source next
    dsimp only
    by_cases hobserved : s.source.settings.observed = source.settings.observed
    · rw [if_neg (not_not.2 hobserved)] at hepoch
      obtain ⟨hepoch, hcounter, hflag⟩ := hepoch
      have htuning := hobserved
      simp only [Settings.observed, Prod.mk.injEq] at htuning
      refine .quiet hepoch hcounter hflag ?_ (hnext.trans hle) rfl ?_
      · rw [accept_source]
        exact ⟨htuning.1.symm, htuning.2.1.symm⟩
      · simp [breaks, hobserved]
    · rw [if_pos hobserved] at hepoch
      obtain ⟨hepoch, hfresh, hcounter, hflag⟩ := hepoch
      refine .renewed ?_ ?_ hcounter hflag rfl ?_
      · rw [hepoch]
        exact hnext
      · rw [hepoch]
        exact hfresh
      · simp [breaks, hobserved]
  · -- the setter failed
    have holder := hsame.staysOlder hs
    rw [hr] at holder
    have hstop : source.stop.Older next := by
      intro e he
      rw [stop_passEpoch] at he
      exact holder.1 e he
    have hrec := recovery_staysOlder s.source.settings calls source.stop next hstop
    have hnext : s.nextEpoch ≤ next := holder.2
    dsimp only
    rcases hr' : recovery s.source.settings calls source.stop next with
      ⟨_ | error, source', next'⟩
    · rw [hr'] at hrec
      exact .renewed (hnext.trans hrec.2) (Nat.lt_succ_self _) rfl rfl rfl rfl
    · exact .ended rfl rfl

theorem stepRead_epoch {s : State} (io : ReadIo) (running : Bool)
    (hclock : (stepRead s io running).1.source.captureClock = none) :
    EpochStep s ⟨s, .read io running, (stepRead s io running).2, (stepRead s io running).1⟩
      (stepRead s io running).1 := by
  have hkept := readIq_unclocked s.source io readChunk s.nextEpoch
  unfold stepRead at hclock ⊢
  rcases hr : s.source.readIq io readChunk s.nextEpoch with ⟨read, source, next⟩
  rw [hr] at hkept hclock
  dsimp only at hkept hclock ⊢
  by_cases hrunning : running = false
  · rw [if_pos hrunning]
    exact .ended rfl rfl
  rw [if_neg hrunning] at hclock ⊢
  match read with
  | .ok 0 => exact .ended rfl rfl
  | .error (.failed e) => exact .ended rfl rfl
  | .error .timeout =>
    obtain ⟨hsettings, rfl⟩ := hkept (.inl ⟨.timeout, rfl, by simp⟩)
    refine .quiet rfl rfl rfl ?_ le_rfl rfl ?_
    · show source.settings.frequencyHz = _ ∧ source.settings.sampleRateHz = _
      rw [hsettings]
      exact ⟨rfl, rfl⟩
    · simp [breaks, hr]
  | .error .gap =>
    obtain ⟨-, rfl⟩ := hkept (.inl ⟨.gap, rfl, by simp⟩)
    exact .renewed le_rfl (Nat.lt_succ_self _) rfl rfl rfl (by simp [breaks, hr])
  | .ok (n + 1) =>
    have hnone : source.captureClock = none := by
      rw [(publish_block { s with source := source, nextEpoch := next } (n + 1)).2.2.1] at hclock
      exact hclock
    obtain ⟨hsettings, rfl⟩ := hkept (.inr ⟨⟨n, rfl⟩, hnone⟩)
    have htuning : source.settings.frequencyHz = s.source.settings.frequencyHz ∧
        source.settings.sampleRateHz = s.source.settings.sampleRateHz := by
      rw [hsettings]
      exact ⟨rfl, rfl⟩
    simp only [State.publish, hnone]
    exact .counted _ _ rfl rfl ⟨rfl, rfl, rfl, rfl, by simp [State.blockClock, CaptureClock.new]⟩
      rfl htuning rfl rfl rfl htuning le_rfl

theorem step_epoch {s : State} (i : Input) (hended : s.ended = false)
    (hs : s.source.Older s.nextEpoch)
    (hclock : (step s i).1.source.captureClock = none) :
    EpochStep s ⟨s, i, (step s i).2, (step s i).1⟩ (step s i).1 := by
  unfold step at hclock ⊢
  rw [hended] at hclock ⊢
  cases i with
  | command begun command calls =>
    cases begun with
    | true => exact stepCommand_epoch command calls hs
    | false => exact .quiet rfl rfl rfl ⟨rfl, rfl⟩ le_rfl rfl rfl
  | read io running => exact stepRead_epoch io running hclock
  | shutdown => exact .ended rfl rfl

/-! ## Section 3: Runs -/

/-- What holds of a running thread after a run whose source never had a clock. -/
structure EpochInv (h : List Ev) (s : State) : Prop where
  older     : s.source.Older s.nextEpoch
  session   : s.productSession < s.nextEpoch
  remembers : s.Remembers
  fresh     : s.captureEpoch < s.nextEpoch
  ordered   : ∀ a ∈ blocks h, a.epoch ≤ s.captureEpoch
  broken    : s.pendingDiscontinuity = brokenSince h
  /-- A new epoch has no blocks yet. -/
  begun     : s.pendingDiscontinuity = true →
    (∀ a ∈ blocks h, a.epoch < s.captureEpoch) ∧ s.sampleCounter = 0
  /-- An epoch that goes on does so where its last block ended. -/
  going     : s.pendingDiscontinuity = false →
    ∃ a, (blocks h).getLast? = some a ∧ a.epoch = s.captureEpoch ∧
      s.sampleCounter = a.startSample + a.sampleCount
  tuned     : ∀ a ∈ blocks h, a.epoch = s.captureEpoch →
    a.centerFreqHz = s.source.settings.frequencyHz ∧
    a.sampleRateHz = s.source.settings.sampleRateHz

/-- The block that a step publishes obeys the law. -/
theorem EpochInv.blockLaw {h : List Ev} {s s' : State} {e : Ev} (hinv : EpochInv h s)
    (hstep : EpochStep s e s') {b : SampleBlock} (hb : publishedBlock e.output = some b) :
    BlockLaw h b := by
  cases hstep with
  | quiet _ _ _ _ _ silent _ =>
    rw [silent] at hb
    cases hb
  | renewed _ _ _ _ silent _ =>
    rw [silent] at hb
    cases hb
  | ended _ silent =>
    rw [silent] at hb
    cases hb
  | counted b' c output capture stamp start tuning epoch counter flag same next =>
    obtain rfl : b' = b := Option.some.inj (output.symm.trans hb)
    obtain ⟨hepoch, hindex, hrate, hstride, hflag⟩ := stamp
    have hb_epoch : b'.epoch = s.captureEpoch := by simp [SampleBlock.epoch, capture, hepoch]
    have hb_flag : b'.discontinuous = s.pendingDiscontinuity := by
      simp [SampleBlock.discontinuous, capture, hflag]
    constructor
    · exact ⟨c, capture, hindex, hrate, hstride⟩
    · intro a ha
      rw [hb_epoch]
      exact hinv.ordered a ha
    · intro a ha hae
      rw [hb_epoch] at hae
      rw [start]
      -- in a fresh epoch there is no block before it; in one that goes on the counter is its end
      cases hpending : s.pendingDiscontinuity with
      | true =>
        have hlt := (hinv.begun hpending).1 a (List.mem_of_getLast? ha)
        omega
      | false =>
        obtain ⟨a', ha', -, hcounter⟩ := hinv.going hpending
        obtain rfl : a' = a := Option.some.inj (ha'.symm.trans ha)
        exact hcounter
    · intro a ha hae
      rw [tuning.1, tuning.2]
      exact hinv.tuned a ha (hae.trans hb_epoch)
    · rw [hb_flag, hb_epoch]
      constructor
      · intro hpending a ha
        exact ((hinv.begun hpending).1 a ha).ne
      · intro hnew
        by_contra hpending
        obtain ⟨a, ha, hae, -⟩ := hinv.going (by simpa using hpending)
        exact hnew a (List.mem_of_getLast? ha) hae
    · intro hdisc
      rw [start]
      exact (hinv.begun (hb_flag ▸ hdisc)).2
    · rw [hb_flag]
      exact hinv.broken

/-- One step of a running thread keeps the invariant while it keeps running. -/
theorem EpochInv.step {h : List Ev} {s s' : State} {e : Ev} (hinv : EpochInv h s)
    (hstep : EpochStep s e s') (hrunning : s'.ended = false)
    (holder : s'.source.Older s'.nextEpoch) (hsession : s'.productSession < s'.nextEpoch)
    (hrem : s'.Remembers) : EpochInv (h ++ [e]) s' := by
  cases hstep with
  | ended done silent =>
    rw [done] at hrunning
    cases hrunning
  | quiet epoch counter flag tuning next silent whole =>
    have hblocks : blocks (h ++ [e]) = blocks h := by simp [silent]
    refine ⟨holder, hsession, hrem, ?_, ?_, ?_, ?_, ?_, ?_⟩
    · rw [epoch]
      exact hinv.fresh.trans_le next
    · rw [hblocks, epoch]
      exact hinv.ordered
    · simp [flag, silent, whole, hinv.broken]
    · rw [flag, hblocks, epoch, counter]
      exact hinv.begun
    · rw [flag, hblocks, epoch, counter]
      exact hinv.going
    · rw [hblocks, epoch, tuning.1, tuning.2]
      exact hinv.tuned
  | renewed epoch next counter flag silent broke =>
    have hblocks : blocks (h ++ [e]) = blocks h := by simp [silent]
    -- the epoch is fresh, so no block has it yet
    have hlt : ∀ a ∈ blocks h, a.epoch < s'.captureEpoch := by
      intro a ha
      have hle := hinv.ordered a ha
      have hfresh := hinv.fresh
      omega
    refine ⟨holder, hsession, hrem, next, ?_, ?_, ?_, ?_, ?_⟩
    · rw [hblocks]
      intro a ha
      exact (hlt a ha).le
    · simp [flag, silent, broke]
    · intro _
      rw [hblocks]
      exact ⟨hlt, counter⟩
    · intro hpending
      rw [flag] at hpending
      cases hpending
    · intro a ha hae
      rw [hblocks] at ha
      exact absurd hae (hlt a ha).ne
  | counted b c output capture stamp start tuning epoch counter flag same next =>
    have hblocks : blocks (h ++ [e]) = blocks h ++ [b] := by simp [output]
    -- one block more of the epoch that is going on
    have hb_epoch : b.epoch = s.captureEpoch := by
      simp [SampleBlock.epoch, capture, stamp.1]
    refine ⟨holder, hsession, hrem, ?_, ?_, ?_, ?_, ?_, ?_⟩
    · rw [epoch]
      exact hinv.fresh.trans_le next
    · rw [hblocks, epoch]
      intro a ha
      rcases List.mem_append.1 ha with ha | ha
      · exact hinv.ordered a ha
      · rw [List.mem_singleton.1 ha, hb_epoch]
    · simp [flag, output]
    · intro hpending
      rw [flag] at hpending
      cases hpending
    · intro _
      exact ⟨b, by simp [hblocks], by rw [hb_epoch, epoch], counter⟩
    · rw [hblocks, epoch, same.1, same.2]
      intro a ha hae
      rcases List.mem_append.1 ha with ha | ha
      · exact hinv.tuned a ha hae
      · rw [List.mem_singleton.1 ha]
        exact tuning

/-- The invariant holds when `spawn` returns. -/
theorem spawn_epochInv {source : Source} {call : DriverCall} {next : ℕ} {s : State}
    (hspawn : spawn source call next = .ok s) : EpochInv [] s := by
  have hsession := spawn_inv hspawn
  unfold spawn at hspawn
  split at hspawn
  · cases hspawn
  · next source' next' hstart =>
    cases hspawn
    refine ⟨hsession.older, hsession.session_lt, hsession.remembers rfl, ?_, ?_, rfl, ?_, ?_, ?_⟩
    · show next' < next' + 2
      omega
    · intro a ha
      cases ha
    · intro _
      exact ⟨by simp, rfl⟩
    · intro hpending
      cases hpending
    · intro a ha
      cases ha

/-- No step of the run left the source with a clock. -/
def Unclocked (h : List Ev) : Prop := ∀ e ∈ h, e.after.source.captureClock = none

/-- **The epoch law.** In every run of the thread on a source without a clock of
    its own, every published block obeys the law, given the run before it:
    epochs grow, the blocks of one epoch tile the sample axis at one tuning, and
    the first block of an epoch, which is a block after a break, is flagged. -/
theorem run_epochLaw {source : Source} {call : DriverCall} {next : ℕ} {s t : State}
    {inputs : List Input} {h : List Ev} (hspawn : spawn source call next = .ok s)
    (hrun : (machine s).run s inputs = some (t, h)) (hclock : Unclocked h) :
    ∀ past e later b, h = past ++ e :: later → e.output = .published b → BlockLaw past b := by
  have hinv := (machine s).run_safe_steps (I := fun _ => True)
    (P := fun h s => Unclocked h → s.ended = false → EpochInv h s)
    (Q := fun past e => Unclocked (past ++ [e]) → ∀ b, e.output = .published b → BlockLaw past b)
    (fun _ _ => spawn_epochInv hspawn) ?_ inputs (fun _ _ => trivial)
  · obtain ⟨t', h', hrun', -, hlaw⟩ := hinv
    obtain ⟨-, rfl⟩ := Prod.mk.inj (Option.some.inj (hrun'.symm.trans hrun))
    intro past e later b hsplit hb
    refine hlaw past e later hsplit ?_ b hb
    intro e' he'
    refine hclock e' ?_
    rw [hsplit]
    rcases List.mem_append.1 he' with he' | he'
    · exact List.mem_append_left _ he'
    · rw [List.mem_singleton.1 he']
      simp
  · intro h s i hP _
    refine ⟨(step s i).1, (step s i).2, rfl, ?_, ?_⟩
    · intro hclock hrunning
      have hfront : Unclocked h := fun e he => hclock e (List.mem_append_left _ he)
      have hlast := hclock _ (List.mem_append_right _ (List.mem_singleton_self _))
      cases hended : s.ended with
      | true =>
        simp [step, hended] at hrunning
      | false =>
        have hs := hP hfront hended
        have hsession := step_session i hended hs.older hs.session hs.remembers
        refine hs.step (step_epoch i hended hs.older hlast) hrunning hsession.older ?_
          (hsession.remembers hrunning)
        -- the session is an old one or one just handed out
        rcases hsession.session with hkept | ⟨-, hlt⟩
        · rw [hkept]
          exact hs.session.trans_le hsession.next_le
        · exact hlt
    · intro hclock b hb
      have hfront : Unclocked h := fun e he => hclock e (List.mem_append_left _ he)
      have hlast := hclock _ (List.mem_append_right _ (List.mem_singleton_self _))
      cases hended : s.ended with
      | true => simp [step, hended] at hb
      | false =>
        have hs := hP hfront hended
        exact hs.blockLaw (step_epoch i hended hs.older hlast) (congrArg publishedBlock hb)

/-- A driver without a pump. -/
def plainDriver : Source := .live ⟨"driver", ⟨100, 48000, 0, none, none⟩, none⟩

/-- Any call into it succeeds and changes nothing. -/
def plainCall : DriverCall := ⟨none, plainDriver.settings, .keep⟩

/-- A read of two samples. -/
def plainRead : Input := .read ⟨⟨fun _ _ => .ok 0, none⟩, ⟨.ok 2, 0, false⟩⟩ true

/-- Samples were lost. -/
def gapRead : Input := .read ⟨⟨fun _ _ => .ok 0, none⟩, ⟨.error .gap, 0, false⟩⟩ true

/-- The thread on the driver. -/
def plainThread : State where
  source := plainDriver
  nextEpoch := 3
  sampleCounter := 0
  captureEpoch := 1
  productSession := 2
  pendingDiscontinuity := true
  lastSourceEpoch := none
  status := statusSnapshot plainDriver true none
  ended := false

/-- Two blocks, a gap and a third block. -/
theorem run_epochLaw_gap : ∃ t h,
    (machine plainThread).run plainThread [plainRead, plainRead, gapRead, plainRead] =
      some (t, h) ∧
    (blocks h).map (fun b => (b.epoch, b.startSample, b.discontinuous)) =
      [(1, 0, true), (1, 2, false), (3, 0, true)] ∧
    ∀ past e later b, h = past ++ e :: later → e.output = .published b → BlockLaw past b := by
  have hspawn : spawn plainDriver plainCall 1 = .ok plainThread := rfl
  have hrun : (machine plainThread).run plainThread [plainRead, plainRead, gapRead, plainRead] =
      some (_, _) := rfl
  refine ⟨_, _, hrun, rfl, run_epochLaw hspawn hrun ?_⟩
  intro e he
  fin_cases he <;> rfl

end Ingest
