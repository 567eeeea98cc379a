import EzSdr.Ingest.Receipt

/-! # The Receipt Protocol

    A receipt is owned by whoever holds the queue entry of its command: the
    queue, the thread at some point of its loop, or nobody. What the phase may
    be follows from the owner, and what was done to the source follows from
    both. A requester only ever moves a queued receipt to cancelled, which the
    thread checks for when it begins. -/

namespace Ingest

open CommandReceipt (finalPhase)

/-- One executed step. -/
abbrev PEv := Machine.Event Protocol Event Note

/-! ## Section 1: What a run did with a command -/

/-- Calls of the setter of `c` in a step. -/
def appliedIn (c : CommandId) : Note → ℕ
  | .applied d _ => if d = c then 1 else 0
  | .silent => 0

/-- Those the source accepted. -/
def acceptedIn (c : CommandId) : Note → ℕ
  | .applied d true => if d = c then 1 else 0
  | _ => 0

def applications (c : CommandId) (h : List PEv) : ℕ := (h.map fun e => appliedIn c e.output).sum

def acceptances (c : CommandId) (h : List PEv) : ℕ := (h.map fun e => acceptedIn c e.output).sum

@[simp] theorem applications_append (c : CommandId) (h : List PEv) (e : PEv) :
    applications c (h ++ [e]) = applications c h + appliedIn c e.output := by
  simp [applications]

@[simp] theorem acceptances_append (c : CommandId) (h : List PEv) (e : PEv) :
    acceptances c (h ++ [e]) = acceptances c h + acceptedIn c e.output := by
  simp [acceptances]

/-- The settings a status shows. -/
def HardwareStatus.shown (status : HardwareStatus) : Settings where
  frequencyHz := status.frequencyHz
  sampleRateHz := status.sampleRateHz
  gainDb := status.gainDb
  requestedGainDb := status.requestedGainDb
  gainMode := status.gainMode

@[simp] theorem shown_statusSnapshot (source : Source) (connected : Bool)
    (error : Option String) : (statusSnapshot source connected error).shown = source.settings := rfl

/-- The published status shows the settings the source had at some moment after
    it accepted `c`. -/
def Reflects (c : CommandId) (h : List PEv) (s : Protocol) : Prop :=
  ∃ h₁ e h₂, h = h₁ ++ e :: h₂ ∧ 0 < acceptances c (h₁ ++ [e]) ∧
    s.published.shown = e.after.worker.source.settings

/-- A status that is left alone goes on showing what it showed. -/
theorem Reflects.keep {c : CommandId} {h : List PEv} {s s' : Protocol} (hr : Reflects c h s)
    (hshown : s'.published.shown = s.published.shown) (e : PEv) : Reflects c (h ++ [e]) s' := by
  obtain ⟨h₁, e₁, h₂, rfl, haccepted, hsettings⟩ := hr
  exact ⟨h₁, e₁, h₂ ++ [e], by simp, haccepted, hshown.trans hsettings⟩

theorem Reflects.accepted {c : CommandId} {h : List PEv} {s : Protocol} (hr : Reflects c h s) :
    0 < acceptances c h := by
  obtain ⟨h₁, e, h₂, rfl, haccepted, -⟩ := hr
  refine lt_of_lt_of_le haccepted ?_
  simp [acceptances]

/-- A new snapshot shows all that the source has accepted so far. -/
theorem reflects_now {c : CommandId} {h : List PEv} {s : Protocol} {e : PEv}
    (haccepted : 0 < acceptances c h)
    (hshown : s.published.shown = e.after.worker.source.settings) : Reflects c (h ++ [e]) s := by
  refine ⟨h, e, [], rfl, ?_, hshown⟩
  rw [acceptances_append]
  omega

/-! ## Section 2: Custody -/

/-- Who holds the queue entry of a command. -/
inductive Custody where
  | queued
  | held (w : WorkerAt)
  | gone

def Protocol.custody (s : Protocol) (c : CommandId) : Custody :=
  if s.location.command = some c then .held s.location
  else if c ∈ s.queue.items then .queued
  else .gone

/-- Nothing was done to the source. -/
def Waiting (r : CommandReceipt) : Prop :=
  r.outcome = none ∧ (r.phase = .queued ∨ r.phase = .cancelled)

/-- The command is being applied, and nothing was reported. -/
def Running (r : CommandReceipt) : Prop := r = ⟨.applying, none⟩

/-- The receipt of a command that was finished with `result`. -/
def Finished (result : Except String Unit) (r : CommandReceipt) : Prop :=
  r = ⟨finalPhase result, some result⟩

/-- A receipt with a terminal outcome. -/
def Terminal (r : CommandReceipt) : Prop :=
  r = ⟨.cancelled, none⟩ ∨ ∃ result, Finished result r

/-- What the receipt of a command looks like, by the owner of its entry. -/
def ReceiptAt : Custody → CommandReceipt → Prop
  | .queued, r => Waiting r
  | .gone, r => Terminal r
  | .held w, r =>
    match w with
    | .taken _ => Waiting r
    | .checked _ => Waiting r
    | .applying _ => Running r
    | .storing _ _ => Running r
    | .finishing _ _ => Running r
    | .written _ result => r = ⟨.applying, some result⟩
    | .replying _ result => Finished result r
    | .dropping _ => Waiting r ∨ Running r ∨ Terminal r
    | .dropLoading _ => Running r ∨ Terminal r
    | .dropFinishing _ => Running r
    | .dropWritten _ => r = ⟨.applying, some Protocol.lostOutcome⟩
    | _ => False

/-- The result of the hardware calls, while the thread is reporting it. -/
def Custody.result : Custody → Option (Except String Unit)
  | .held (.storing _ result) => some result
  | .held (.finishing _ result) => some result
  | .held (.written _ result) => some result
  | .held (.replying _ result) => some result
  | _ => none

/-- The result, once the status is stored. -/
def Custody.stored : Custody → Option (Except String Unit)
  | .held (.finishing _ result) => some result
  | .held (.written _ result) => some result
  | .held (.replying _ result) => some result
  | _ => none

/-- The setter of the command was not called. -/
def Untouched (k : Custody) (r : CommandReceipt) : Prop :=
  r.phase = .queued ∨ r.phase = .cancelled ∨ ∃ c, k = .held (.applying c)

/-- What a requester may have concluded from the receipt. -/
def RequesterOk (r : CommandReceipt) : RequesterAt → Prop
  | .loaded => r.phase = .applied ∨ r.phase = .rejected
  | .returned .accepted => r.phase = .applied
  | .returned .cancelled => r.phase = .cancelled
  | _ => True

/-- The invariant of one command. `n` and `m` count the calls of its setter and
    those the source accepted, `shown` says that the status shows it. -/
structure RequestInv (k : Custody) (q : Request) (n m : ℕ) (shown : Prop) : Prop where
  receipt : ReceiptAt k q.receipt
  reply : ∀ result, q.reply = some result → Finished result q.receipt
  requester : RequesterOk q.receipt q.requester
  untouched : Untouched k q.receipt → n = 0
  once : ∀ result, k.result = some result → n = 1 ∧ (result = .ok () → m = 1)
  applied : q.receipt.phase = .applied → n = 1 ∧ m = 1
  reflected : k.stored = some (.ok ()) ∨ q.receipt.phase = .applied → shown

section RequestInv

variable {k : Custody} {q : Request} {n m : ℕ} {shown : Prop} {c : CommandId}

/-- Nobody has concluded anything from a receipt that is still open. -/
theorem RequestInv.undecided (h : RequestInv k q n m shown)
    (hphase : q.receipt.phase = .queued ∨ q.receipt.phase = .applying) :
    q.reply = none ∧ ∀ r, RequesterOk r q.requester := by
  refine ⟨?_, ?_⟩
  · cases hreply : q.reply with
    | none => rfl
    | some result =>
      have hfinished := h.reply result hreply
      rw [hfinished] at hphase
      cases result <;> simp [finalPhase] at hphase
  · intro r
    have hok := h.requester
    cases hat : q.requester with
    | waiting => trivial
    | timedOut => trivial
    | cancelTried => trivial
    | loaded =>
      rw [hat] at hok
      rcases hok with hok | hok <;> simp [hok] at hphase
    | returned response =>
      rw [hat] at hok
      cases response with
      | accepted => simp [show q.receipt.phase = .applied from hok] at hphase
      | cancelled => simp [show q.receipt.phase = .cancelled from hok] at hphase
      | failed message => trivial
      | pending => trivial
      | unavailable => trivial

/-- The entry moves to another owner; the receipt stays. -/
theorem RequestInv.move (h : RequestInv k q n m shown) {k' : Custody}
    (hreceipt : ReceiptAt k' q.receipt) (hresult : k'.result = none) (hstored : k'.stored = none)
    (huntouched : Untouched k' q.receipt → Untouched k q.receipt) :
    RequestInv k' q n m shown where
  receipt := hreceipt
  reply := h.reply
  requester := h.requester
  untouched hu := h.untouched (huntouched hu)
  once result hr := by
    rw [hresult] at hr
    cases hr
  applied := h.applied
  reflected hor := by
    rcases hor with hs | happlied
    · rw [hstored] at hs
      cases hs
    · exact h.reflected (Or.inr happlied)

/-- Off the call of the setter, `Untouched` is about the phase only. -/
theorem Untouched.of_phase {r : CommandReceipt} {k' : Custody} (hu : Untouched k r)
    (hk : ∀ c, k ≠ .held (.applying c)) : Untouched k' r := by
  rcases hu with hq | hc | ⟨c, hc⟩
  · exact Or.inl hq
  · exact Or.inr (Or.inl hc)
  · exact absurd hc (hk c)

theorem receiptAt_cancelQueued {r : CommandReceipt} (h : ReceiptAt k r) :
    ReceiptAt k r.cancelQueued := by
  unfold CommandReceipt.cancelQueued
  split
  · next hphase =>
    -- a queued receipt is a waiting one, whoever owns the entry
    have hwaiting : Waiting r → Waiting { r with phase := .cancelled } :=
      fun hw => ⟨hw.1, Or.inr rfl⟩
    have hnotRunning : ¬ Running r := by
      rintro rfl
      cases hphase
    have hnotTerminal : ¬ Terminal r := by
      rintro (rfl | ⟨result, rfl⟩)
      · cases hphase
      · cases result <;> cases hphase
    match k with
    | .queued => exact hwaiting h
    | .gone => exact absurd h hnotTerminal
    | .held w =>
      match w with
      | .taken _ => exact hwaiting h
      | .checked _ => exact hwaiting h
      | .applying _ => exact absurd h hnotRunning
      | .storing _ _ => exact absurd h hnotRunning
      | .finishing _ _ => exact absurd h hnotRunning
      | .written _ result =>
        rw [show r = _ from h] at hphase
        cases hphase
      | .replying _ result => exact absurd (Or.inr ⟨result, h⟩) hnotTerminal
      | .dropping _ =>
        rcases h with hw | hr | ht
        · exact Or.inl (hwaiting hw)
        · exact absurd hr hnotRunning
        · exact absurd ht hnotTerminal
      | .dropLoading _ =>
        rcases h with hr | ht
        · exact absurd hr hnotRunning
        · exact absurd ht hnotTerminal
      | .dropFinishing _ => exact absurd h hnotRunning
      | .dropWritten _ =>
        rw [show r = _ from h] at hphase
        cases hphase
      | .idle => exact h.elim
      | .draining => exact h.elim
      | .closing => exact h.elim
      | .discarding => exact h.elim
      | .ended => exact h.elim
  · exact h

theorem untouched_cancelQueued {r : CommandReceipt} (h : Untouched k r.cancelQueued) :
    Untouched k r := by
  unfold CommandReceipt.cancelQueued at h
  split at h
  · next hphase => exact Or.inl hphase
  · exact h

theorem cancelQueued_phase {r : CommandReceipt} {phase : CommandPhase}
    (h : r.cancelQueued.phase = phase) (hphase : phase ≠ .cancelled) : r.phase = phase := by
  unfold CommandReceipt.cancelQueued at h
  split at h
  · exact absurd h.symm hphase
  · exact h

/-- A requester goes on. -/
theorem RequestInv.conclude (h : RequestInv k q n m shown) {r : RequesterAt}
    (hok : RequesterOk q.receipt r) : RequestInv k { q with requester := r } n m shown :=
  ⟨h.receipt, h.reply, hok, h.untouched, h.once, h.applied, h.reflected⟩

/-- Whoever holds the entry: nothing was done, or the command is being applied,
    or the outcome is terminal. -/
theorem receiptAt_cases {r : CommandReceipt} (h : ReceiptAt k r) :
    Waiting r ∨ r.phase = .applying ∨ Terminal r := by
  have hrunning : Running r → r.phase = .applying := fun hr => congrArg CommandReceipt.phase hr
  match k with
  | .queued => exact Or.inl h
  | .gone => exact Or.inr (Or.inr h)
  | .held w =>
    match w with
    | .taken _ => exact Or.inl h
    | .checked _ => exact Or.inl h
    | .applying _ => exact Or.inr (Or.inl (hrunning h))
    | .storing _ _ => exact Or.inr (Or.inl (hrunning h))
    | .finishing _ _ => exact Or.inr (Or.inl (hrunning h))
    | .written _ result => exact Or.inr (Or.inl (congrArg CommandReceipt.phase h))
    | .replying _ result => exact Or.inr (Or.inr (Or.inr ⟨result, h⟩))
    | .dropping _ => exact h.imp_right fun hr => hr.imp_left hrunning
    | .dropLoading _ => exact Or.inr (h.imp_left hrunning)
    | .dropFinishing _ => exact Or.inr (Or.inl (hrunning h))
    | .dropWritten _ => exact Or.inr (Or.inl (congrArg CommandReceipt.phase h))
    | .idle => exact h.elim
    | .draining => exact h.elim
    | .closing => exact h.elim
    | .discarding => exact h.elim
    | .ended => exact h.elim

/-- A phase that a requester relies on is terminal. -/
theorem receiptAt_terminal {r : CommandReceipt} (h : ReceiptAt k r)
    (hphase : r.phase = .applied ∨ r.phase = .rejected ∨ r.phase = .cancelled) : Terminal r := by
  rcases receiptAt_cases h with ⟨hnone, hw | hw⟩ | ha | ht
  · simp [hw] at hphase
  · refine Or.inl ?_
    rw [← hw, ← hnone]
  · simp [ha] at hphase
  · exact ht

/-- A receipt that says applied or rejected was finished with a result. -/
theorem receiptAt_finished {r : CommandReceipt} (h : ReceiptAt k r)
    (hphase : r.phase = .applied ∨ r.phase = .rejected) : ∃ result, Finished result r := by
  have hterminal : Terminal r := receiptAt_terminal h (hphase.imp_right Or.inl)
  rcases hterminal with hc | hfinished
  · rw [hc] at hphase
    simp at hphase
  · exact hfinished

/-- Cancelling a queued receipt, by its requester or by the thread. -/
theorem RequestInv.cancel (h : RequestInv k q n m shown) :
    RequestInv k { q with receipt := q.receipt.cancelQueued } n m shown := by
  by_cases hphase : q.receipt.phase = .queued
  · obtain ⟨hreply, hrequester⟩ := h.undecided (Or.inl hphase)
    refine ⟨receiptAt_cancelQueued h.receipt, ?_, hrequester _, ?_, h.once, ?_, ?_⟩
    · intro result hr
      rw [show q.reply = some result from hr] at hreply
      cases hreply
    · exact fun hu => h.untouched (untouched_cancelQueued hu)
    · exact fun ha => h.applied (cancelQueued_phase ha (by simp))
    · rintro (hs | ha)
      · exact h.reflected (Or.inl hs)
      · exact h.reflected (Or.inr (cancelQueued_phase ha (by simp)))
  · have hsame : q.receipt.cancelQueued = q.receipt := if_neg hphase
    rw [hsame]
    exact h

/-- A step on an open receipt; what is known of the source comes with it. -/
theorem RequestInv.change (h : RequestInv k q n m shown)
    (hphase : q.receipt.phase = .queued ∨ q.receipt.phase = .applying) {k' : Custody}
    {r : CommandReceipt} {n' m' : ℕ} {shown' : Prop} (hreceipt : ReceiptAt k' r)
    (huntouched : Untouched k' r → n' = 0)
    (honce : ∀ result, k'.result = some result → n' = 1 ∧ (result = .ok () → m' = 1))
    (happlied : r.phase = .applied → n' = 1 ∧ m' = 1)
    (hreflected : k'.stored = some (.ok ()) ∨ r.phase = .applied → shown') :
    RequestInv k' { q with receipt := r } n' m' shown' := by
  obtain ⟨hreply, hrequester⟩ := h.undecided hphase
  refine ⟨hreceipt, ?_, hrequester _, huntouched, honce, happlied, hreflected⟩
  intro result hr
  rw [show q.reply = some result from hr] at hreply
  cases hreply

/-- `begin` on a queued command. -/
theorem RequestInv.begin (h : RequestInv (.held (.checked c)) q n m shown)
    (hphase : q.receipt.phase = .queued) :
    RequestInv (.held (.applying c)) { q with receipt := q.receipt.begin } n m shown := by
  have hn : n = 0 := h.untouched (Or.inl hphase)
  have hreceipt : q.receipt.begin = ⟨.applying, none⟩ := by
    unfold CommandReceipt.begin
    rw [if_pos hphase, show q.receipt.outcome = none from h.receipt.1]
  rw [hreceipt]
  apply h.change (Or.inl hphase)
  · exact rfl
  · exact fun _ => hn
  · intro result hr
    cases hr
  · intro ha
    cases ha
  · rintro (hs | ha)
    · cases hs
    · cases ha

/-- The setter is called. -/
theorem RequestInv.apply {result : Except String Unit} {accepted : ℕ}
    (h : RequestInv (.held (.applying c)) q n m shown) (hm : m = 0)
    (haccepted : result = .ok () → accepted = 1) :
    RequestInv (.held (.storing c result)) q (n + 1) (m + accepted) shown := by
  have hrunning : q.receipt = ⟨.applying, none⟩ := h.receipt
  have hn : n = 0 := h.untouched (Or.inr (Or.inr ⟨c, rfl⟩))
  refine ⟨hrunning, h.reply, h.requester, ?_, ?_, ?_, ?_⟩
  · rintro (hq | hc | ⟨d, hd⟩)
    · simp [hrunning] at hq
    · simp [hrunning] at hc
    · cases hd
  · rintro _ ⟨⟩
    refine ⟨by omega, fun hok => ?_⟩
    have := haccepted hok
    omega
  · intro ha
    simp [hrunning] at ha
  · rintro (hs | ha)
    · cases hs
    · simp [hrunning] at ha

/-- The status is stored. -/
theorem RequestInv.store {result : Except String Unit} {shown' : Prop}
    (h : RequestInv (.held (.storing c result)) q n m shown) (hshown : result = .ok () → shown') :
    RequestInv (.held (.finishing c result)) q n m shown' := by
  have hrunning : q.receipt = ⟨.applying, none⟩ := h.receipt
  refine ⟨hrunning, h.reply, h.requester, ?_, h.once, h.applied, ?_⟩
  · rintro (hq | hc | ⟨d, hd⟩)
    · simp [hrunning] at hq
    · simp [hrunning] at hc
    · cases hd
  · rintro (hs | ha)
    · exact hshown (Option.some.inj hs)
    · simp [hrunning] at ha

/-- The first half of `finish`. -/
theorem RequestInv.write {result : Except String Unit}
    (h : RequestInv (.held (.finishing c result)) q n m shown) :
    RequestInv (.held (.written c result)) { q with receipt := q.receipt.writeOutcome result }
      n m shown := by
  have hrunning : q.receipt = ⟨.applying, none⟩ := h.receipt
  apply h.change (Or.inr (by rw [hrunning]))
  · show q.receipt.writeOutcome result = _
    rw [hrunning]
    rfl
  · rw [hrunning]
    rintro (hq | hc | ⟨d, hd⟩)
    · cases hq
    · cases hc
    · cases hd
  · exact h.once
  · rw [hrunning]
    intro ha
    cases ha
  · rw [hrunning]
    rintro (hs | ha)
    · exact h.reflected (Or.inl hs)
    · cases ha

/-- The second half. -/
theorem RequestInv.finish {result : Except String Unit}
    (h : RequestInv (.held (.written c result)) q n m shown) :
    RequestInv (.held (.replying c result)) { q with receipt := q.receipt.storePhase result }
      n m shown := by
  have hwritten : q.receipt = ⟨.applying, some result⟩ := h.receipt
  have hok : (q.receipt.storePhase result).phase = .applied → result = .ok () := by
    intro ha
    cases result with
    | ok => rfl
    | error message => cases ha
  apply h.change (Or.inr (by rw [hwritten]))
  · show q.receipt.storePhase result = _
    rw [hwritten]
    rfl
  · rintro (hq | hc | ⟨d, hd⟩)
    · cases result <;> cases hq
    · cases result <;> cases hc
    · cases hd
  · exact h.once
  · exact fun ha => ⟨(h.once result rfl).1, (h.once result rfl).2 (hok ha)⟩
  · rintro (hs | ha)
    · exact h.reflected (Or.inl hs)
    · rw [hok ha] at h
      exact h.reflected (Or.inl rfl)

/-- The reply is sent. -/
theorem RequestInv.sendReply {result : Except String Unit}
    (h : RequestInv (.held (.replying c result)) q n m shown) :
    RequestInv (.held (.dropping c)) { q with reply := some result } n m shown := by
  have hfinished : Finished result q.receipt := h.receipt
  have hmoved : RequestInv (.held (.dropping c)) q n m shown := by
    refine h.move ?_ rfl rfl fun hu => hu.of_phase (by simp)
    exact Or.inr (Or.inr (Or.inr ⟨result, hfinished⟩))
  refine ⟨hmoved.receipt, ?_, hmoved.requester, hmoved.untouched, hmoved.once, hmoved.applied,
    hmoved.reflected⟩
  rintro _ ⟨⟩
  exact hfinished

/-- The drop of an entry that was being applied, in its two halves. -/
theorem RequestInv.dropWrite (h : RequestInv (.held (.dropFinishing c)) q n m shown) :
    RequestInv (.held (.dropWritten c))
      { q with receipt := q.receipt.writeOutcome Protocol.lostOutcome } n m shown := by
  have hrunning : q.receipt = ⟨.applying, none⟩ := h.receipt
  apply h.change (Or.inr (by rw [hrunning]))
  · show q.receipt.writeOutcome _ = _
    rw [hrunning]
    rfl
  · rw [hrunning]
    rintro (hq | hc | ⟨d, hd⟩)
    · cases hq
    · cases hc
    · cases hd
  · intro result hr
    cases hr
  · rw [hrunning]
    intro ha
    cases ha
  · rw [hrunning]
    rintro (hs | ha)
    · cases hs
    · cases ha

theorem RequestInv.dropFinish (h : RequestInv (.held (.dropWritten c)) q n m shown) :
    RequestInv .gone { q with receipt := q.receipt.storePhase Protocol.lostOutcome } n m shown := by
  have hwritten : q.receipt = ⟨.applying, some Protocol.lostOutcome⟩ := h.receipt
  apply h.change (Or.inr (by rw [hwritten]))
  · refine Or.inr ⟨Protocol.lostOutcome, ?_⟩
    rw [hwritten]
    rfl
  · rintro (hq | hc | ⟨d, hd⟩)
    · cases hq
    · cases hc
    · cases hd
  · intro result hr
    cases hr
  · intro ha
    cases ha
  · rintro (hs | ha)
    · cases hs
    · cases ha

end RequestInv

theorem RequestInv.mono {k : Custody} {q : Request} {n m : ℕ} {shown shown' : Prop}
    (h : RequestInv k q n m shown) (himp : shown → shown') : RequestInv k q n m shown' :=
  ⟨h.receipt, h.reply, h.requester, h.untouched, h.once, h.applied,
    fun hor => himp (h.reflected hor)⟩

/-! ## Section 3: The shape of a state -/

/-- Where the thread can be while it unwinds. -/
def WorkerAt.Leaving : WorkerAt → Prop
  | .dropping _ => True
  | .dropLoading _ => True
  | .dropFinishing _ => True
  | .dropWritten _ => True
  | .closing => True
  | .discarding => True
  | .ended => True
  | _ => False

/-- The result of the hardware calls, before the status is stored. -/
def WorkerAt.unstored : WorkerAt → Option (Except String Unit)
  | .storing _ result => some result
  | _ => none

/-- What the thread stores next shows its source, or what is published already. -/
def Synced (s : Protocol) : Prop :=
  match s.location.unstored with
  | some result =>
    s.worker.status.shown = s.worker.source.settings ∨
      (result ≠ .ok () ∧ s.worker.status.shown = s.published.shown)
  | none => s.worker.status.shown = s.published.shown

structure Shape (s : Protocol) : Prop where
  nodup : (s.location.command.toList ++ s.queue.items).Nodup
  known : ∀ c ∈ s.location.command.toList ++ s.queue.items, ∃ q, s.requests.get? c = some q
  fresh : ∀ c q, s.requests.get? c = some q → c < s.nextId
  synced : s.unwinding = false → Synced s
  leaving : s.unwinding = true → s.location.Leaving
  closed : s.location = .discarding ∨ s.location = .ended → s.disconnected = true
  emptied : s.location = .ended → s.queue.items = []

/-- The invariant of one command in a run. -/
structure CommandInv (c : CommandId) (h : List PEv) (s : Protocol) : Prop where
  unseen : s.requests.get? c = none → applications c h = 0
  request : ∀ q, s.requests.get? c = some q →
    RequestInv (s.custody c) q (applications c h) (acceptances c h) (Reflects c h s)

theorem acceptedIn_le (c : CommandId) (note : Note) : acceptedIn c note ≤ appliedIn c note := by
  match note with
  | .silent => exact le_rfl
  | .applied d true => exact le_rfl
  | .applied d false => exact Nat.zero_le _

theorem acceptances_le (c : CommandId) (h : List PEv) : acceptances c h ≤ applications c h := by
  induction h with
  | nil => exact le_rfl
  | cons e h ih =>
    have := acceptedIn_le c e.output
    simp only [acceptances, applications, List.map_cons, List.sum_cons] at ih ⊢
    omega

theorem custody_held {s : Protocol} {c : CommandId} (h : s.location.command = some c) :
    s.custody c = .held s.location := if_pos h

/-- A command that another step is about keeps its owner. -/
theorem custody_congr {s s' : Protocol} {c : CommandId} (h : s.location.command ≠ some c)
    (h' : s'.location.command ≠ some c) (hqueue : c ∈ s'.queue.items ↔ c ∈ s.queue.items) :
    s'.custody c = s.custody c := by
  unfold Protocol.custody
  rw [if_neg h, if_neg h']
  by_cases hc : c ∈ s.queue.items
  · rw [if_pos hc, if_pos (hqueue.2 hc)]
  · rw [if_neg hc, if_neg (fun hc' => hc (hqueue.1 hc'))]

theorem Shape.not_queued {s : Protocol} {c : CommandId} (hs : Shape s)
    (h : s.location.command = some c) : c ∉ s.queue.items := by
  have hnodup := hs.nodup
  rw [h, List.nodup_append] at hnodup
  exact fun hc => hnodup.2.2 c (by simp) c hc rfl

/-- A step that is not about `c`. -/
theorem CommandInv.frame {c : CommandId} {h : List PEv} {s s' : Protocol} {e : PEv}
    (hi : CommandInv c h s) (hrequest : s'.requests.get? c = s.requests.get? c)
    (hcustody : s'.custody c = s.custody c) (hnote : appliedIn c e.output = 0)
    (hreflects : Reflects c h s → Reflects c (h ++ [e]) s') : CommandInv c (h ++ [e]) s' := by
  have haccepted : acceptedIn c e.output = 0 := by
    have := acceptedIn_le c e.output
    omega
  refine ⟨?_, ?_⟩
  · intro hnone
    rw [applications_append, hnote]
    exact hi.unseen (hrequest ▸ hnone)
  · intro q hq
    rw [hcustody, applications_append, acceptances_append, hnote, haccepted]
    exact (hi.request q (hrequest ▸ hq)).mono hreflects

/-- A step about `c` that does not call its setter. -/
theorem CommandInv.of_request {c : CommandId} {h : List PEv} {s' : Protocol} {e : PEv}
    {q : Request} (hq : s'.requests.get? c = some q) (hnote : appliedIn c e.output = 0)
    (hinv : RequestInv (s'.custody c) q (applications c h) (acceptances c h)
      (Reflects c (h ++ [e]) s')) : CommandInv c (h ++ [e]) s' := by
  have haccepted : acceptedIn c e.output = 0 := by
    have := acceptedIn_le c e.output
    omega
  refine ⟨fun hnone => ?_, ?_⟩
  · rw [hq] at hnone
    cases hnone
  · intro q' hq'
    rw [hq, Option.some.injEq] at hq'
    subst hq'
    rw [applications_append, acceptances_append, hnote, haccepted]
    exact hinv

namespace Protocol

@[simp] theorem get?_onReceipt_self {s : Protocol} {c : CommandId} {q : Request}
    (f : CommandReceipt → CommandReceipt) (h : s.requests.get? c = some q) :
    (s.onReceipt c f).requests.get? c = some { q with receipt := f q.receipt } := by
  simp [onReceipt, h]

theorem get?_onReceipt_ne {s : Protocol} {c d : CommandId} (hd : d ≠ c)
    (f : CommandReceipt → CommandReceipt) :
    (s.onReceipt c f).requests.get? d = s.requests.get? d :=
  BTreeMap.get?_alter_ne _ hd _

theorem get?_sendReply_self {s : Protocol} {c : CommandId} {q : Request}
    (result : Except String Unit) (h : s.requests.get? c = some q) :
    (s.sendReply c result).requests.get? c = some { q with reply := some result } := by
  simp [sendReply, h]

theorem get?_setRequester_self {s : Protocol} {c : CommandId} {q : Request} (r : RequesterAt)
    (h : s.requests.get? c = some q) :
    (s.setRequester c r).requests.get? c = some { q with requester := r } := by
  simp [setRequester, h]

theorem phaseOf_eq {s : Protocol} {c : CommandId} {q : Request}
    (h : s.requests.get? c = some q) : s.phaseOf c = some q.receipt.phase := by
  unfold phaseOf
  rw [h]
  rfl

end Protocol

/-- A step of the thread on the command it holds: the other commands keep their
    owners and their requests. -/
theorem commandInv_worker {h : List PEv} {s s' : Protocol} {e : PEv} {c : CommandId}
    (hi : ∀ d, CommandInv d h s) (hcommand : s.location.command = some c)
    (hcommand' : s'.location.command = some c ∨ s'.location.command = none)
    (hqueue : s'.queue = s.queue)
    (hrequests : ∀ d, d ≠ c → s'.requests.get? d = s.requests.get? d)
    (hnote : ∀ d, d ≠ c → appliedIn d e.output = 0)
    (hreflects : ∀ d, Reflects d h s → Reflects d (h ++ [e]) s')
    (hc : CommandInv c (h ++ [e]) s') : ∀ d, CommandInv d (h ++ [e]) s' := by
  intro d
  by_cases hd : d = c
  · rw [hd]
    exact hc
  · apply (hi d).frame (hrequests d hd) _ (hnote d hd) (hreflects d)
    apply custody_congr
    · rw [hcommand]
      exact fun heq => hd (Option.some.inj heq).symm
    · rcases hcommand' with hcommand' | hcommand'
      · rw [hcommand']
        exact fun heq => hd (Option.some.inj heq).symm
      · rw [hcommand']
        simp
    · rw [hqueue]

theorem custody_gone {s : Protocol} {c : CommandId} (h : s.location.command = none)
    (hqueue : c ∉ s.queue.items) : s.custody c = .gone := by
  unfold Protocol.custody
  rw [h, if_neg (by simp), if_neg hqueue]

/-- A silent step of the thread on the command it holds. -/
theorem commandInv_silent {h : List PEv} {s s' : Protocol} {e : PEv} {c : CommandId}
    (hs : Shape s) (hi : ∀ d, CommandInv d h s) (hcommand : s.location.command = some c)
    (hcommand' : s'.location.command = some c ∨ s'.location.command = none)
    (hqueue : s'.queue = s.queue) (hpublished : s'.published = s.published)
    (hrequests : ∀ d, d ≠ c → s'.requests.get? d = s.requests.get? d)
    (hnote : e.output = .silent)
    (hc : ∀ q, s.requests.get? c = some q → ∃ q', s'.requests.get? c = some q' ∧
      ∀ n m shown, RequestInv (.held s.location) q n m shown →
        RequestInv (s'.custody c) q' n m shown) : ∀ d, CommandInv d (h ++ [e]) s' := by
  have hsilent : ∀ d, appliedIn d e.output = 0 := by
    intro d
    rw [hnote]
    rfl
  have hreflects : ∀ d, Reflects d h s → Reflects d (h ++ [e]) s' :=
    fun d hr => hr.keep (by rw [hpublished]) e
  apply commandInv_worker hi hcommand hcommand' hqueue hrequests (fun d _ => hsilent d) hreflects
  obtain ⟨q, hq⟩ := hs.known c (by simp [hcommand])
  obtain ⟨q', hq', hinv⟩ := hc q hq
  apply CommandInv.of_request hq' (hsilent c)
  have hheld := (hi c).request q hq
  rw [custody_held hcommand] at hheld
  exact (hinv _ _ _ hheld).mono (hreflects c)

end Ingest
