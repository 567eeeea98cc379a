import EzSdr.Ingest.ReceiptCommands

/-! # Runs of the Receipt Protocol

    Whatever the order of the steps: a terminal receipt stays as it is, a thread
    that is given steps comes to rest with every receipt terminal, a command
    whose requester was told that it was cancelled is never applied, and one
    that was reported as accepted was applied once and is visible in the
    status. -/

namespace Ingest

namespace Protocol

/-! ## Section 1: Terminal receipts stay -/

/-- An event leaves the receipt of `c` as it is, unless it is still open. -/
def Stable (c : CommandId) (q : Request) (s' : Protocol) : Prop :=
  ∃ q', s'.requests.get? c = some q' ∧
    (q.receipt.phase = .queued ∨ q.receipt.phase = .applying ∨ q'.receipt = q.receipt)

theorem stable_same {s s' : Protocol} {c : CommandId} {q : Request}
    (hq : s.requests.get? c = some q) (hrequests : s'.requests = s.requests) : Stable c q s' :=
  ⟨q, by rw [hrequests]; exact hq, Or.inr (Or.inr rfl)⟩

theorem stable_onReceipt {s : Protocol} {c d : CommandId} {q : Request}
    {f : CommandReceipt → CommandReceipt} (hq : s.requests.get? c = some q)
    (hf : d = c → q.receipt.phase = .queued ∨ q.receipt.phase = .applying ∨
      f q.receipt = q.receipt) : Stable c q (s.onReceipt d f) := by
  by_cases hd : c = d
  · subst hd
    exact ⟨_, get?_onReceipt_self f hq, hf rfl⟩
  · exact ⟨q, by rw [get?_onReceipt_ne hd]; exact hq, Or.inr (Or.inr rfl)⟩

theorem cancelQueued_stable (r : CommandReceipt) :
    r.phase = .queued ∨ r.phase = .applying ∨ r.cancelQueued = r := by
  by_cases hphase : r.phase = .queued
  · exact Or.inl hphase
  · exact Or.inr (Or.inr (if_neg hphase))

theorem stable_setRequester {s : Protocol} {c d : CommandId} {q : Request} (r : RequesterAt)
    (h : Stable c q s) : Stable c q (s.setRequester d r) := by
  obtain ⟨q', hq', hstable⟩ := h
  by_cases hd : c = d
  · subst hd
    exact ⟨_, get?_setRequester_self r hq', hstable⟩
  · exact ⟨q', by rw [← hq']; exact BTreeMap.get?_alter_ne _ hd _, hstable⟩

/-- The thread changes only the open receipt of the command it holds. -/
theorem stable_advance {h : List PEv} {s : Protocol} {c : CommandId} {q : Request}
    {expired : Bool} {calls : CommandCalls} (hi : ∀ d, CommandInv d h s)
    (hq : s.requests.get? c = some q) : Stable c q (s.advance expired calls).1 := by
  have hsame : Stable c q s := stable_same hq rfl
  -- what the receipt is when the thread holds the command
  have hheld : ∀ d, s.location.command = some d → d = c → ReceiptAt (.held s.location) q.receipt := by
    rintro d hd rfl
    have := ((hi d).request q hq).receipt
    rwa [custody_held hd] at this
  unfold advance
  match hat : s.location with
  | .idle =>
    show Stable c q (s.takeEntry _ _)
    unfold takeEntry
    split <;> exact stable_same hq rfl
  | .taken d =>
    dsimp only
    split
    · exact stable_onReceipt hq fun _ => cancelQueued_stable _
    · exact stable_same hq rfl
  | .checked d =>
    dsimp only
    split
    · next hphase =>
      refine stable_onReceipt hq ?_
      rintro rfl
      rw [phaseOf_eq hq, Option.some.injEq] at hphase
      exact Or.inl hphase
    · exact stable_same hq rfl
  | .applying d =>
    show Stable c q (s.applyCommand d calls).1
    unfold applyCommand
    split
    · exact hsame
    · exact stable_same hq rfl
  | .storing d result => exact stable_same hq rfl
  | .finishing d result =>
    refine stable_onReceipt hq ?_
    intro hd
    have hreceipt := hheld d (by rw [hat]; rfl) hd
    rw [hat] at hreceipt
    exact Or.inr (Or.inl (congrArg CommandReceipt.phase hreceipt))
  | .written d result =>
    refine stable_onReceipt hq ?_
    intro hd
    have hreceipt := hheld d (by rw [hat]; rfl) hd
    rw [hat] at hreceipt
    exact Or.inr (Or.inl (congrArg CommandReceipt.phase hreceipt))
  | .replying d result =>
    by_cases hd : c = d
    · subst hd
      exact ⟨_, get?_sendReply_self result hq, Or.inr (Or.inr rfl)⟩
    · exact ⟨q, by rw [← hq]; exact BTreeMap.get?_alter_ne _ hd _, Or.inr (Or.inr rfl)⟩
  | .dropping d =>
    dsimp only
    split
    · exact stable_onReceipt hq fun _ => cancelQueued_stable _
    · exact stable_same hq rfl
  | .dropLoading d =>
    dsimp only
    split <;> exact stable_same hq rfl
  | .dropFinishing d =>
    refine stable_onReceipt hq ?_
    intro hd
    have hreceipt := hheld d (by rw [hat]; rfl) hd
    rw [hat] at hreceipt
    exact Or.inr (Or.inl (congrArg CommandReceipt.phase hreceipt))
  | .dropWritten d =>
    refine stable_onReceipt hq ?_
    intro hd
    have hreceipt := hheld d (by rw [hat]; rfl) hd
    rw [hat] at hreceipt
    exact Or.inr (Or.inl (congrArg CommandReceipt.phase hreceipt))
  | .draining =>
    dsimp only
    split <;> exact stable_same hq rfl
  | .closing => exact stable_same hq rfl
  | .discarding =>
    show Stable c q (s.takeEntry _ _)
    unfold takeEntry
    split <;> exact stable_same hq rfl
  | .ended => exact hsame

theorem stable_step {h : List PEv} {s : Protocol} {c : CommandId} {q : Request} {event : Event}
    (hs : Shape s) (hi : ∀ d, CommandInv d h s) (hq : s.requests.get? c = some q) :
    Stable c q (step s event).1 := by
  have hsame : Stable c q s := stable_same hq rfl
  match event with
  | .send command =>
    -- the new request has an id of its own
    have hne : c ≠ s.nextId := (hs.fresh c q hq).ne
    have hinsert : ∀ q', (s.requests.insert s.nextId q').get? c = some q := by
      intro q'
      rw [BTreeMap.get?_insert_ne _ hne, hq]
    show Stable c q (s.send command)
    unfold send
    dsimp only
    split
    · exact ⟨q, hinsert _, Or.inr (Or.inr rfl)⟩
    · split <;> exact ⟨q, hinsert _, Or.inr (Or.inr rfl)⟩
  | .receive d =>
    show Stable c q (s.receive d)
    unfold receive
    split
    · exact hsame
    · split
      · exact stable_setRequester _ hsame
      · exact hsame
  | .timeOut d =>
    show Stable c q (s.timeOut d)
    unfold timeOut
    split
    · exact hsame
    · split
      · exact stable_setRequester _ hsame
      · exact hsame
  | .proceed d =>
    show Stable c q (s.proceed d)
    unfold proceed
    split
    · exact hsame
    · split
      -- a timed-out requester cancels its command, which only works while it is queued
      · exact stable_setRequester _ (stable_onReceipt hq fun _ => cancelQueued_stable _)
      · exact stable_setRequester _ hsame
      · split <;> exact stable_setRequester _ hsame
      · exact hsame
  | .stop => exact hsame
  | .advance expired calls => exact stable_advance hi hq
  | .leave =>
    show Stable c q s.leave
    unfold leave
    split
    · split
      · exact hsame
      · exact stable_same hq rfl
    · exact hsame
  | .read io =>
    show Stable c q (s.read io)
    unfold read
    split <;> exact stable_same hq rfl
  | .panic =>
    show Stable c q s.panic
    unfold panic
    split <;> exact stable_same hq rfl

/-! ## Section 2: The thread comes to rest -/

/-- The thread waits for commands, or has ended, and no entry is left. -/
def Resting (s : Protocol) : Prop :=
  (s.location = .idle ∨ s.location = .ended) ∧ s.queue.items = []

/-- Steps that are left with the entry in hand, and to the end of the thread. -/
def rank : WorkerAt → ℕ
  | .taken _ => 14
  | .checked _ => 13
  | .applying _ => 12
  | .storing _ _ => 11
  | .finishing _ _ => 10
  | .written _ _ => 9
  | .replying _ _ => 8
  | .dropping _ => 7
  | .dropLoading _ => 6
  | .dropFinishing _ => 5
  | .dropWritten _ => 4
  | .draining => 3
  | .closing => 2
  | .discarding => 1
  | .idle => 0
  | .ended => 0

/-- Steps that are left to the thread if nothing is sent or read. -/
def work (s : Protocol) : ℕ := 20 * s.queue.items.length + rank s.location

theorem rank_afterDrop (s : Protocol) : rank s.afterDrop < 4 := by
  unfold afterDrop
  split
  · decide
  · split
    · decide
    · split <;> decide

theorem work_take {s : Protocol} {c : CommandId} {queue : BoundedQueue CommandId}
    {location : WorkerAt} (hrecv : s.queue.tryRecv = some (c, queue)) (hrank : rank location < 20) :
    work { s with queue := queue, location := location } < s.work := by
  have hitems := (BoundedQueue.tryRecv_eq_some hrecv).1
  unfold work
  rw [hitems, List.length_cons]
  dsimp only
  omega

/-- Every step of the thread brings it closer to rest. -/
theorem work_advance {s : Protocol} {expired : Bool} {calls : CommandCalls} (hs : Shape s)
    (hresting : ¬ Resting s) : (s.advance expired calls).1.work < s.work := by
  -- most steps take nothing from the queue and only lower the rank of the location
  have hdone : ∀ location, rank location < rank s.location →
      work { s with location := location } < s.work := by
    intro location hrank
    unfold work
    dsimp only
    omega
  have hdrop : 4 ≤ rank s.location → rank s.afterDrop < rank s.location := by
    intro h
    have := rank_afterDrop s
    omega
  unfold advance
  match hat : s.location with
  | .idle =>
    show (s.takeEntry .taken .idle).work < s.work
    unfold takeEntry
    split
    · next hrecv => exact absurd ⟨Or.inl hat, BoundedQueue.tryRecv_eq_none hrecv⟩ hresting
    · next c queue hrecv => exact work_take hrecv (by simp [rank])
  | .taken c =>
    dsimp only
    split <;> exact hdone (.checked c) (by rw [hat]; simp [rank])
  | .checked c =>
    dsimp only
    split
    · exact hdone (.applying c) (by rw [hat]; simp [rank])
    · exact hdone (.dropping c) (by rw [hat]; simp [rank])
  | .applying c =>
    obtain ⟨q, hq⟩ := hs.known c (by simp [hat, WorkerAt.command])
    show (s.applyCommand c calls).1.work < s.work
    unfold applyCommand
    rw [hq]
    exact hdone (.storing c _) (by rw [hat]; simp [rank])
  | .storing c result => exact hdone (.finishing c result) (by rw [hat]; simp [rank])
  | .finishing c result => exact hdone (.written c result) (by rw [hat]; simp [rank])
  | .written c result => exact hdone (.replying c result) (by rw [hat]; simp [rank])
  | .replying c result => exact hdone (.dropping c) (by rw [hat]; simp [rank])
  | .dropping c =>
    dsimp only
    split
    · exact hdone s.afterDrop (hdrop (by rw [hat]; simp [rank]))
    · exact hdone (.dropLoading c) (by rw [hat]; simp [rank])
  | .dropLoading c =>
    dsimp only
    split
    · exact hdone (.dropFinishing c) (by rw [hat]; simp [rank])
    · exact hdone s.afterDrop (hdrop (by rw [hat]; simp [rank]))
  | .dropFinishing c => exact hdone (.dropWritten c) (by rw [hat]; simp [rank])
  | .dropWritten c => exact hdone s.afterDrop (hdrop (by rw [hat]; simp [rank]))
  | .draining =>
    dsimp only
    split
    · exact hdone .closing (by rw [hat]; simp [rank])
    · next c queue hrecv => exact work_take hrecv (by simp [rank])
  | .closing => exact hdone .discarding (by rw [hat]; simp [rank])
  | .discarding =>
    show (s.takeEntry .dropping .ended).work < s.work
    unfold takeEntry
    split
    · exact hdone .ended (by rw [hat]; simp [rank])
    · next c queue hrecv => exact work_take hrecv (by simp [rank])
  | .ended => exact absurd ⟨Or.inr hat, hs.emptied hat⟩ hresting

/-- At rest every receipt is terminal. -/
theorem terminal_of_resting {h : List PEv} {s : Protocol} {c : CommandId} {q : Request}
    (hi : CommandInv c h s) (hresting : Resting s) (hq : s.requests.get? c = some q) :
    Terminal q.receipt := by
  have hgone : s.custody c = .gone := by
    apply custody_gone
    · rcases hresting.1 with hat | hat <;> rw [hat] <;> rfl
    · rw [hresting.2]
      exact List.not_mem_nil
  have hreceipt := (hi.request q hq).receipt
  rwa [hgone] at hreceipt

/-! ## Section 3: Every run -/

theorem shape_initialState {worker : State} : Shape (initialState worker) := by
  refine ⟨?_, ?_, ?_, fun _ => rfl, ?_, ?_, ?_⟩
  · exact List.nodup_nil
  · intro c hc
    cases hc
  · intro c q hq
    cases hq
  · intro hu
    cases hu
  · rintro (h | h) <;> cases h
  · intro h
    cases h

theorem commandInv_initialState {worker : State} (c : CommandId) :
    CommandInv c [] (initialState worker) := by
  refine ⟨fun _ => rfl, ?_⟩
  intro q hq
  cases hq

/-- What every run keeps. -/
structure RunInv (h : List PEv) (s : Protocol) : Prop where
  shape : Shape s
  commands : ∀ c, CommandInv c h s

theorem run_inv {worker : State} {events : List Event} {h : List PEv} {s : Protocol}
    (hrun : (machine worker).run (initialState worker) events = some (s, h)) : RunInv h s := by
  refine (machine worker).run_inv (I := fun _ => True) (P := RunInv) ?_ ?_ (fun _ _ => trivial) hrun
  · exact ⟨shape_initialState, commandInv_initialState⟩
  · intro h s event s' note hinv _ hstep
    have hs' : (step s event).1 = s' := congrArg Prod.fst (Option.some.inj hstep)
    have hnote : (step s event).2 = note := congrArg Prod.snd (Option.some.inj hstep)
    subst hs' hnote
    exact ⟨shape_step hinv.shape event, commands_step hinv.shape hinv.commands⟩

/-- A terminal receipt is the same after every continuation of a run. -/
theorem run_terminal {worker : State} {later : List Event} {h h' : List PEv} {s t : Protocol}
    (hinv : RunInv h s) (hrun : (machine worker).run s later = some (t, h')) :
    RunInv (h ++ h') t ∧ ∀ c q, s.requests.get? c = some q → Terminal q.receipt →
      ∃ q', t.requests.get? c = some q' ∧ q'.receipt = q.receipt := by
  refine (machine worker).run_inv_from (I := fun _ => True)
    (P := fun h t => RunInv h t ∧ ∀ c q, s.requests.get? c = some q → Terminal q.receipt →
      ∃ q', t.requests.get? c = some q' ∧ q'.receipt = q.receipt) ?_ later h h' s t ?_
    (fun _ _ => trivial) hrun
  · intro h t event t' note hP _ hstep
    obtain ⟨hinv, hkept⟩ := hP
    have ht' : (step t event).1 = t' := congrArg Prod.fst (Option.some.inj hstep)
    have hnote : (step t event).2 = note := congrArg Prod.snd (Option.some.inj hstep)
    subst ht' hnote
    refine ⟨⟨shape_step hinv.shape event, commands_step hinv.shape hinv.commands⟩, ?_⟩
    intro c q hq hterminal
    obtain ⟨q', hq', hreceipt⟩ := hkept c q hq hterminal
    have hstep : Stable c q' (step t event).1 := stable_step hinv.shape hinv.commands hq'
    obtain ⟨q'', hq'', hstable⟩ := hstep
    refine ⟨q'', hq'', ?_⟩
    -- a terminal receipt is neither queued nor being applied
    rw [← hreceipt] at hterminal
    rcases hstable with hqueued | happlying | hsame
    · rcases hterminal with hc | ⟨result, hf⟩
      · rw [hc] at hqueued
        cases hqueued
      · rw [show q'.receipt = _ from hf] at hqueued
        cases result <;> cases hqueued
    · rcases hterminal with hc | ⟨result, hf⟩
      · rw [hc] at happlying
        cases happlying
      · rw [show q'.receipt = _ from hf] at happlying
        cases result <;> cases happlying
    · exact hsame.trans hreceipt
  · exact ⟨hinv, fun c q hq _ => ⟨q, hq, rfl⟩⟩

/-- In every run of the requesters, the thread, the drops and the shutdown, in any
    order: a terminal receipt never changes; at rest every receipt is terminal, and
    every step of the thread brings it closer to rest; a command whose requester was
    told that it was cancelled is never applied; a command that was reported as
    accepted was applied once, and every status read later shows the source as it
    was at some moment after that. -/
theorem run_receipts {worker : State} {events : List Event} {h : List PEv} {s : Protocol}
    (hrun : (machine worker).run (initialState worker) events = some (s, h)) :
    (∀ c q, s.requests.get? c = some q → Terminal q.receipt →
      ∀ later t h', (machine worker).run s later = some (t, h') →
        ∃ q', t.requests.get? c = some q' ∧ q'.receipt = q.receipt) ∧
    (Resting s → ∀ c q, s.requests.get? c = some q → Terminal q.receipt) ∧
    (¬ Resting s → ∀ expired calls, (s.advance expired calls).1.work < s.work) ∧
    (∀ c q, s.requests.get? c = some q → q.requester = .returned .cancelled →
      ∀ later t h', (machine worker).run s later = some (t, h') →
        applications c (h ++ h') = 0) ∧
    (∀ c q, s.requests.get? c = some q → q.requester = .returned .accepted →
      ∀ later t h', (machine worker).run s later = some (t, h') →
        applications c (h ++ h') = 1 ∧ acceptances c (h ++ h') = 1 ∧
          Reflects c (h ++ h') t) := by
  have hinv := run_inv hrun
  refine ⟨?_, ?_, ?_, ?_, ?_⟩
  · intro c q hq hterminal later t h' hlater
    exact (run_terminal hinv hlater).2 c q hq hterminal
  · exact fun hresting c q hq => terminal_of_resting (hinv.commands c) hresting hq
  · exact fun hresting expired calls => work_advance hinv.shape hresting
  · intro c q hq hcancelled later t h' hlater
    have hrequest := (hinv.commands c).request q hq
    have hphase : q.receipt.phase = .cancelled := by
      have hok := hrequest.requester
      rwa [hcancelled] at hok
    obtain ⟨hinv', hkept⟩ := run_terminal hinv hlater
    obtain ⟨q', hq', hreceipt⟩ := hkept c q hq
      (receiptAt_terminal hrequest.receipt (Or.inr (Or.inr hphase)))
    apply ((hinv'.commands c).request q' hq').untouched
    rw [hreceipt]
    exact Or.inr (Or.inl hphase)
  · intro c q hq haccepted later t h' hlater
    have hrequest := (hinv.commands c).request q hq
    have hphase : q.receipt.phase = .applied := by
      have hok := hrequest.requester
      rwa [haccepted] at hok
    obtain ⟨hinv', hkept⟩ := run_terminal hinv hlater
    obtain ⟨q', hq', hreceipt⟩ := hkept c q hq
      (receiptAt_terminal hrequest.receipt (Or.inl hphase))
    have hrequest' := (hinv'.commands c).request q' hq'
    have hphase' : q'.receipt.phase = .applied := by rw [hreceipt]; exact hphase
    obtain ⟨hn, hm⟩ := hrequest'.applied hphase'
    exact ⟨hn, hm, hrequest'.reflected (Or.inr hphase')⟩

/-- A thread over a file, and a driver that accepts everything. -/
def exampleThread : State where
  source := .replay ⟨4, 0, .rawU8, 0, 288000, 0, true, true, 0, 2, 0, none, true⟩
  nextEpoch := 5
  sampleCounter := 0
  captureEpoch := 3
  productSession := 4
  pendingDiscontinuity := true
  lastSourceEpoch := none
  status := statusSnapshot (.replay ⟨4, 0, .rawU8, 0, 288000, 0, true, true, 0, 2, 0, none, true⟩)
    true none
  ended := false

def exampleCalls : CommandCalls :=
  let call : DriverCall := ⟨none, ⟨0, 0, 0, none, none⟩, .keep⟩
  ⟨call, call, call, call, call⟩

/-- One command that is applied, and one that its requester cancels in the queue. -/
def exampleEvents : List Event :=
  [.send (.frequency 100000000), .send (.frequency 101000000), .timeOut 1, .proceed 1, .proceed 1,
   .advance false exampleCalls, .advance false exampleCalls, .advance false exampleCalls,
   .advance false exampleCalls, .advance false exampleCalls, .advance false exampleCalls,
   .advance false exampleCalls, .advance false exampleCalls, .receive 0]

/-- What the requesters were told, and the published frequency. -/
def answers (s : Protocol) : Option RequesterAt × Option RequesterAt × ℕ :=
  ((s.requests.get? 0).map Request.requester, (s.requests.get? 1).map Request.requester,
    s.published.frequencyHz)

theorem run_exampleEvents :
    ((machine exampleThread).run (initialState exampleThread) exampleEvents).map
      (fun r => answers r.1) =
    some (some (.returned .accepted), some (.returned .cancelled), 100000000) := by
  decide +kernel

/-- The command of the first requester is applied once and is published, the cancelled one never. -/
theorem run_receipts_example : ∃ s h,
    (machine exampleThread).run (initialState exampleThread) exampleEvents = some (s, h) ∧
      applications 1 h = 0 ∧ applications 0 h = 1 ∧ Reflects 0 h s ∧
      s.published.frequencyHz = 100000000 := by
  obtain ⟨⟨s, h⟩, hrun, hanswers⟩ := Option.map_eq_some_iff.1 run_exampleEvents
  simp only [answers, Prod.mk.injEq] at hanswers
  obtain ⟨haccepted, hcancelled, hfrequency⟩ := hanswers
  obtain ⟨q, hq, hqa⟩ := Option.map_eq_some_iff.1 haccepted
  obtain ⟨q', hq', hqc⟩ := Option.map_eq_some_iff.1 hcancelled
  obtain ⟨-, -, -, hnever, honce⟩ := run_receipts hrun
  have hfirst := honce 0 q hq hqa [] s [] rfl
  have hsecond := hnever 1 q' hq' hqc [] s [] rfl
  rw [List.append_nil] at hfirst hsecond
  exact ⟨s, h, hrun, hsecond, hfirst.1, hfirst.2.2, hfrequency⟩

end Protocol

end Ingest
