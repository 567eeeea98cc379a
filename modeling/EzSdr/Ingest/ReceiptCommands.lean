import EzSdr.Ingest.ReceiptShape

/-! # Steps of the Receipt Protocol

    One lemma for each point of the thread and for each other event: it keeps
    the invariant of every command. -/

namespace Ingest

namespace Protocol

/-! ## Section 1: The thread at work on a command -/

theorem commands_taken {h : List PEv} {s : Protocol} {e : PEv} {c : CommandId} {expired : Bool}
    (hs : Shape s) (hi : ∀ d, CommandInv d h s) (hat : s.location = .taken c)
    (hnote : e.output = .silent) :
    ∀ d, CommandInv d (h ++ [e])
      (if s.running = false ∨ expired = true then
        { s with location := .checked c }.onReceipt c CommandReceipt.cancelQueued
      else { s with location := .checked c }) := by
  split
  · refine commandInv_silent hs hi (by rw [hat]; rfl) (Or.inl rfl) rfl rfl
      (fun d hd => get?_onReceipt_ne hd _) hnote ?_
    intro q hq
    refine ⟨_, get?_onReceipt_self _ hq, ?_⟩
    intro n m shown hinv
    rw [hat] at hinv
    rw [custody_held rfl]
    have hmoved : RequestInv (.held (.checked c)) q n m shown :=
      hinv.move hinv.receipt rfl rfl fun hu => hu.of_phase (by simp)
    exact hmoved.cancel
  · refine commandInv_silent hs hi (by rw [hat]; rfl) (Or.inl rfl) rfl rfl (fun _ _ => rfl) hnote ?_
    intro q hq
    refine ⟨q, hq, ?_⟩
    intro n m shown hinv
    rw [hat] at hinv
    rw [custody_held rfl]
    exact hinv.move hinv.receipt rfl rfl fun hu => hu.of_phase (by simp)

theorem commands_checked {h : List PEv} {s : Protocol} {e : PEv} {c : CommandId}
    (hs : Shape s) (hi : ∀ d, CommandInv d h s) (hat : s.location = .checked c)
    (hnote : e.output = .silent) :
    ∀ d, CommandInv d (h ++ [e])
      (if s.phaseOf c = some .queued then
        { s with location := .applying c }.onReceipt c CommandReceipt.begin
      else { s with location := .dropping c }) := by
  split
  · next hphase =>
    refine commandInv_silent hs hi (by rw [hat]; rfl) (Or.inl rfl) rfl rfl
      (fun d hd => get?_onReceipt_ne hd _) hnote ?_
    intro q hq
    refine ⟨_, get?_onReceipt_self _ hq, ?_⟩
    intro n m shown hinv
    rw [hat] at hinv
    rw [custody_held rfl]
    rw [phaseOf_eq hq, Option.some.injEq] at hphase
    exact hinv.begin hphase
  · refine commandInv_silent hs hi (by rw [hat]; rfl) (Or.inl rfl) rfl rfl (fun _ _ => rfl) hnote ?_
    intro q hq
    refine ⟨q, hq, ?_⟩
    intro n m shown hinv
    rw [hat] at hinv
    rw [custody_held rfl]
    exact hinv.move (Or.inl hinv.receipt) rfl rfl fun hu => hu.of_phase (by simp)

theorem commands_finishing {h : List PEv} {s : Protocol} {e : PEv} {c : CommandId}
    {result : Except String Unit} (hs : Shape s) (hi : ∀ d, CommandInv d h s)
    (hat : s.location = .finishing c result) (hnote : e.output = .silent) :
    ∀ d, CommandInv d (h ++ [e])
      ({ s with location := .written c result }.onReceipt c fun r => r.writeOutcome result) := by
  refine commandInv_silent hs hi (by rw [hat]; rfl) (Or.inl rfl) rfl rfl
    (fun d hd => get?_onReceipt_ne hd _) hnote ?_
  intro q hq
  refine ⟨_, get?_onReceipt_self _ hq, ?_⟩
  intro n m shown hinv
  rw [hat] at hinv
  rw [custody_held rfl]
  exact hinv.write

theorem commands_written {h : List PEv} {s : Protocol} {e : PEv} {c : CommandId}
    {result : Except String Unit} (hs : Shape s) (hi : ∀ d, CommandInv d h s)
    (hat : s.location = .written c result) (hnote : e.output = .silent) :
    ∀ d, CommandInv d (h ++ [e])
      ({ s with location := .replying c result }.onReceipt c fun r => r.storePhase result) := by
  refine commandInv_silent hs hi (by rw [hat]; rfl) (Or.inl rfl) rfl rfl
    (fun d hd => get?_onReceipt_ne hd _) hnote ?_
  intro q hq
  refine ⟨_, get?_onReceipt_self _ hq, ?_⟩
  intro n m shown hinv
  rw [hat] at hinv
  rw [custody_held rfl]
  exact hinv.finish

theorem commands_replying {h : List PEv} {s : Protocol} {e : PEv} {c : CommandId}
    {result : Except String Unit} (hs : Shape s) (hi : ∀ d, CommandInv d h s)
    (hat : s.location = .replying c result) (hnote : e.output = .silent) :
    ∀ d, CommandInv d (h ++ [e]) ({ s with location := .dropping c }.sendReply c result) := by
  refine commandInv_silent hs hi (by rw [hat]; rfl) (Or.inl rfl) rfl rfl
    (fun d hd => BTreeMap.get?_alter_ne _ hd _) hnote ?_
  intro q hq
  refine ⟨_, get?_sendReply_self _ hq, ?_⟩
  intro n m shown hinv
  rw [hat] at hinv
  rw [custody_held rfl]
  exact hinv.sendReply

theorem commands_applying {h : List PEv} {s : Protocol} {e : PEv} {c : CommandId}
    {calls : CommandCalls} (hs : Shape s) (hi : ∀ d, CommandInv d h s)
    (hat : s.location = .applying c) (hnote : e.output = (s.applyCommand c calls).2) :
    ∀ d, CommandInv d (h ++ [e]) (s.applyCommand c calls).1 := by
  obtain ⟨q, hq⟩ := hs.known c (by simp [hat, WorkerAt.command])
  have hresult := (stepCommand_cases s.worker q.command calls).1
  unfold applyCommand at hnote ⊢
  rw [hq] at hnote ⊢
  dsimp only at hnote ⊢
  have hreflects : ∀ d, Reflects d h s → Reflects d (h ++ [e]) { s with
      worker := (stepCommand s.worker q.command calls).1
      location := .storing c (resultOf (stepCommand s.worker q.command calls).2) } :=
    fun d hr => hr.keep rfl e
  refine commandInv_worker hi (by rw [hat]; rfl) (Or.inl rfl) rfl (fun _ _ => rfl) ?_ hreflects ?_
  · intro d hd
    rw [hnote]
    exact if_neg (Ne.symm hd)
  · have hinv := (hi c).request q hq
    rw [custody_held (by rw [hat]; rfl), hat] at hinv
    -- nothing was applied before this call
    have hm : acceptances c h = 0 := by
      have hn := hinv.untouched (Or.inr (Or.inr ⟨c, rfl⟩))
      have := acceptances_le c h
      omega
    refine ⟨fun hnone => ?_, ?_⟩
    · rw [show s.requests.get? c = none from hnone] at hq
      cases hq
    · intro q' hq'
      rw [show s.requests.get? c = some q' from hq', Option.some.injEq] at hq
      subst hq
      rw [custody_held rfl, applications_append, acceptances_append]
      have happlied : appliedIn c e.output = 1 := by
        rw [hnote]
        exact if_pos rfl
      rw [happlied]
      refine (hinv.apply hm ?_).mono (hreflects c)
      intro hok
      rw [hnote, hresult.1 hok]
      simp [acceptedIn]

theorem commands_storing {h : List PEv} {s : Protocol} {e : PEv} {c : CommandId}
    {result : Except String Unit} (hs : Shape s) (hi : ∀ d, CommandInv d h s)
    (hat : s.location = .storing c result) (hnote : e.output = .silent)
    (hafter : e.after.worker = s.worker) :
    ∀ d, CommandInv d (h ++ [e])
      { s with published := s.worker.status, location := .finishing c result } := by
  have hsilent : ∀ d, appliedIn d e.output = 0 := by
    intro d
    rw [hnote]
    rfl
  have hcommand : s.location.command = some c := by rw [hat]; rfl
  have hunwinding : s.unwinding = false := by
    cases hu : s.unwinding with
    | false => rfl
    | true =>
      have := hs.leaving hu
      rw [hat] at this
      exact this.elim
  have hsynced := hs.synced hunwinding
  unfold Synced at hsynced
  simp only [hat, WorkerAt.unstored] at hsynced
  obtain ⟨q, hq⟩ := hs.known c (by simp [hcommand])
  have hinv := (hi c).request q hq
  rw [custody_held hcommand, hat] at hinv
  have hreflects : ∀ d, Reflects d h s → Reflects d (h ++ [e])
      { s with published := s.worker.status, location := .finishing c result } := by
    intro d hr
    rcases hsynced with hshown | ⟨-, hshown⟩
    · exact reflects_now hr.accepted (by rw [hafter]; exact hshown)
    · exact hr.keep hshown e
  refine commandInv_worker hi hcommand (Or.inl rfl) rfl (fun _ _ => rfl)
    (fun d _ => hsilent d) hreflects ?_
  refine CommandInv.of_request hq (hsilent c) ?_
  rw [custody_held rfl]
  apply RequestInv.store hinv
  -- an accepted command is in the snapshot that is stored
  intro hok
  rcases hsynced with hshown | ⟨hfailed, -⟩
  · have hm := (hinv.once result rfl).2 hok
    exact reflects_now (by omega) (by rw [hafter]; exact hshown)
  · exact absurd hok hfailed

/-! ## Section 2: Taking and dropping entries -/

/-- A dropped entry is gone. -/
theorem requestInv_dropped {s s' : Protocol} {c : CommandId} {q : Request} {n m : ℕ}
    {shown : Prop} (hs : Shape s) (hcommand : s.location.command = some c)
    (hinv : RequestInv .gone q n m shown) (hlocation : s'.location = s.afterDrop)
    (hqueue : s'.queue = s.queue) : RequestInv (s'.custody c) q n m shown := by
  rw [custody_gone]
  · exact hinv
  · rw [hlocation]
    exact afterDrop_command s
  · rw [hqueue]
    exact hs.not_queued hcommand

theorem commands_dropping {h : List PEv} {s : Protocol} {e : PEv} {c : CommandId}
    (hs : Shape s) (hi : ∀ d, CommandInv d h s) (hat : s.location = .dropping c)
    (hnote : e.output = .silent) :
    ∀ d, CommandInv d (h ++ [e])
      (if s.phaseOf c = some .queued then
        { s with location := s.afterDrop }.onReceipt c CommandReceipt.cancelQueued
      else { s with location := .dropLoading c }) := by
  have hcommand : s.location.command = some c := by rw [hat]; rfl
  split
  · next hphase =>
    refine commandInv_silent hs hi hcommand (Or.inr (afterDrop_command s)) rfl rfl
      (fun d hd => get?_onReceipt_ne hd _) hnote ?_
    intro q hq
    refine ⟨_, get?_onReceipt_self _ hq, ?_⟩
    intro n m shown hinv
    rw [hat] at hinv
    refine requestInv_dropped hs hcommand ?_ rfl rfl
    rw [phaseOf_eq hq, Option.some.injEq] at hphase
    -- a queued receipt becomes a cancelled one
    have hwaiting : Waiting q.receipt := by
      rcases hinv.receipt with hw | hr | ht | ⟨result, ht⟩
      · exact hw
      · rw [show q.receipt = _ from hr] at hphase
        cases hphase
      · rw [ht] at hphase
        cases hphase
      · rw [show q.receipt = _ from ht] at hphase
        cases result <;> cases hphase
    have hcancelled : q.receipt.cancelQueued = ⟨.cancelled, none⟩ := by
      unfold CommandReceipt.cancelQueued
      rw [if_pos hphase, hwaiting.1]
    refine hinv.cancel.move ?_ rfl rfl fun hu => hu.of_phase (by simp)
    exact Or.inl hcancelled
  · next hphase =>
    refine commandInv_silent hs hi hcommand (Or.inl rfl) rfl rfl (fun _ _ => rfl) hnote ?_
    intro q hq
    refine ⟨q, hq, ?_⟩
    intro n m shown hinv
    rw [hat] at hinv
    rw [custody_held rfl]
    rw [phaseOf_eq hq, Option.some.injEq] at hphase
    refine hinv.move ?_ rfl rfl fun hu => hu.of_phase (by simp)
    rcases hinv.receipt with ⟨hnone, hq | hc⟩ | hr
    · exact absurd hq hphase
    · refine Or.inr (Or.inl ?_)
      rw [← hnone, ← hc]
    · exact hr

theorem commands_dropLoading {h : List PEv} {s : Protocol} {e : PEv} {c : CommandId}
    (hs : Shape s) (hi : ∀ d, CommandInv d h s) (hat : s.location = .dropLoading c)
    (hnote : e.output = .silent) :
    ∀ d, CommandInv d (h ++ [e])
      (if s.phaseOf c = some .applying then { s with location := .dropFinishing c }
      else { s with location := s.afterDrop }) := by
  have hcommand : s.location.command = some c := by rw [hat]; rfl
  split
  · next hphase =>
    refine commandInv_silent hs hi hcommand (Or.inl rfl) rfl rfl (fun _ _ => rfl) hnote ?_
    intro q hq
    refine ⟨q, hq, ?_⟩
    intro n m shown hinv
    rw [hat] at hinv
    rw [custody_held rfl]
    rw [phaseOf_eq hq, Option.some.injEq] at hphase
    refine hinv.move ?_ rfl rfl fun hu => hu.of_phase (by simp)
    rcases hinv.receipt with hr | ht | ⟨result, ht⟩
    · exact hr
    · rw [ht] at hphase
      cases hphase
    · rw [show q.receipt = _ from ht] at hphase
      cases result <;> cases hphase
  · next hphase =>
    refine commandInv_silent hs hi hcommand (Or.inr (afterDrop_command s)) rfl rfl
      (fun _ _ => rfl) hnote ?_
    intro q hq
    refine ⟨q, hq, ?_⟩
    intro n m shown hinv
    rw [hat] at hinv
    refine requestInv_dropped hs hcommand ?_ rfl rfl
    rw [phaseOf_eq hq, Option.some.injEq] at hphase
    refine hinv.move ?_ rfl rfl fun hu => hu.of_phase (by simp)
    rcases hinv.receipt with hr | ht
    · rw [show q.receipt = _ from hr] at hphase
      exact absurd rfl hphase
    · exact ht

theorem commands_dropFinishing {h : List PEv} {s : Protocol} {e : PEv} {c : CommandId}
    (hs : Shape s) (hi : ∀ d, CommandInv d h s) (hat : s.location = .dropFinishing c)
    (hnote : e.output = .silent) :
    ∀ d, CommandInv d (h ++ [e])
      ({ s with location := .dropWritten c }.onReceipt c fun r => r.writeOutcome lostOutcome) := by
  refine commandInv_silent hs hi (by rw [hat]; rfl) (Or.inl rfl) rfl rfl
    (fun d hd => get?_onReceipt_ne hd _) hnote ?_
  intro q hq
  refine ⟨_, get?_onReceipt_self _ hq, ?_⟩
  intro n m shown hinv
  rw [hat] at hinv
  rw [custody_held rfl]
  exact hinv.dropWrite

theorem commands_dropWritten {h : List PEv} {s : Protocol} {e : PEv} {c : CommandId}
    (hs : Shape s) (hi : ∀ d, CommandInv d h s) (hat : s.location = .dropWritten c)
    (hnote : e.output = .silent) :
    ∀ d, CommandInv d (h ++ [e])
      ({ s with location := s.afterDrop }.onReceipt c fun r => r.storePhase lostOutcome) := by
  have hcommand : s.location.command = some c := by rw [hat]; rfl
  refine commandInv_silent hs hi hcommand (Or.inr (afterDrop_command s)) rfl rfl
    (fun d hd => get?_onReceipt_ne hd _) hnote ?_
  intro q hq
  refine ⟨_, get?_onReceipt_self _ hq, ?_⟩
  intro n m shown hinv
  rw [hat] at hinv
  refine requestInv_dropped hs hcommand ?_ rfl rfl
  exact hinv.dropFinish

/-- An entry is taken out of the queue. -/
theorem commands_take {h : List PEv} {s : Protocol} {e : PEv} {c : CommandId}
    {queue : BoundedQueue CommandId} {location : WorkerAt} (hs : Shape s)
    (hi : ∀ d, CommandInv d h s) (hcommand : s.location.command = none)
    (hrecv : s.queue.tryRecv = some (c, queue)) (hnote : e.output = .silent)
    (hlocation : location = .taken c ∨ location = .dropping c) :
    ∀ d, CommandInv d (h ++ [e]) { s with queue := queue, location := location } := by
  have hsilent : ∀ d, appliedIn d e.output = 0 := by
    intro d
    rw [hnote]
    rfl
  have hitems := (BoundedQueue.tryRecv_eq_some hrecv).1
  have hcommand' : location.command = some c := by
    rcases hlocation with rfl | rfl <;> rfl
  intro d
  -- the entry changes its custody from the queue to the thread; the others are not touched
  by_cases hd : d = c
  · subst hd
    have hmem : d ∈ s.queue.items := by
      rw [hitems]
      exact List.mem_cons_self
    obtain ⟨q, hq⟩ := hs.known d (List.mem_append_right _ hmem)
    refine CommandInv.of_request hq (hsilent d) ?_
    have hinv := (hi d).request q hq
    have hqueued : s.custody d = .queued := by
      unfold Protocol.custody
      rw [hcommand, if_neg (by simp), if_pos hmem]
    rw [hqueued] at hinv
    rw [custody_held (s := { s with queue := queue, location := location }) hcommand']
    have hkeep : Reflects d h s → Reflects d (h ++ [e])
        { s with queue := queue, location := location } := fun hr => hr.keep rfl e
    rcases hlocation with rfl | rfl
    · refine RequestInv.mono ?_ hkeep
      exact hinv.move hinv.receipt rfl rfl fun hu => hu.of_phase (by simp)
    · refine RequestInv.mono ?_ hkeep
      exact hinv.move (Or.inl hinv.receipt) rfl rfl fun hu => hu.of_phase (by simp)
  · refine (hi d).frame rfl ?_ (hsilent d) fun hr => hr.keep rfl e
    apply custody_congr
    · rw [hcommand]
      simp
    · show location.command ≠ some d
      rw [hcommand']
      exact fun heq => hd (Option.some.inj heq).symm
    · rw [hitems]
      simp [hd]

/-- A step of a thread that holds no command. -/
theorem commands_idle {h : List PEv} {s s' : Protocol} {e : PEv} (hi : ∀ d, CommandInv d h s)
    (hcommand : s.location.command = none) (hcommand' : s'.location.command = none)
    (hqueue : s'.queue = s.queue) (hrequests : s'.requests = s.requests)
    (hnote : e.output = .silent) (hreflects : ∀ d, Reflects d h s → Reflects d (h ++ [e]) s') :
    ∀ d, CommandInv d (h ++ [e]) s' := by
  intro d
  apply (hi d).frame (by rw [hrequests]) _ (by rw [hnote]; rfl) (hreflects d)
  apply custody_congr
  · rw [hcommand]
    simp
  · rw [hcommand']
    simp
  · rw [hqueue]

theorem commands_takeEntry {h : List PEv} {s : Protocol} {e : PEv} {next : CommandId → WorkerAt}
    {empty : WorkerAt} (hs : Shape s) (hi : ∀ d, CommandInv d h s)
    (hcommand : s.location.command = none) (hempty : empty.command = none)
    (hnext : ∀ c, next c = .taken c ∨ next c = .dropping c) (hnote : e.output = .silent) :
    ∀ d, CommandInv d (h ++ [e]) (s.takeEntry next empty) := by
  unfold takeEntry
  split
  · exact commands_idle hi hcommand hempty rfl rfl hnote fun d hr => hr.keep rfl e
  · next c queue hrecv => exact commands_take hs hi hcommand hrecv hnote (hnext c)

/-- One step of the thread keeps the invariant of every command. -/
theorem commands_advance {h : List PEv} {s : Protocol} {e : PEv} {expired : Bool}
    {calls : CommandCalls} (hs : Shape s) (hi : ∀ d, CommandInv d h s)
    (hnote : e.output = (s.advance expired calls).2)
    (hafter : e.after = (s.advance expired calls).1) :
    ∀ d, CommandInv d (h ++ [e]) (s.advance expired calls).1 := by
  unfold advance at hnote hafter ⊢
  match hat : s.location with
  | .idle =>
    rw [hat] at hnote
    exact commands_takeEntry hs hi (by rw [hat]; rfl) rfl (fun c => Or.inl rfl) hnote
  | .taken c =>
    rw [hat] at hnote
    have hstep := @commands_taken h s e c expired hs hi hat hnote
    exact hstep
  | .checked c =>
    simp only [hat] at hnote
    have hsilent : e.output = .silent := by
      rw [hnote]
      split <;> rfl
    have hstep := commands_checked hs hi hat hsilent
    dsimp only
    split
    · next hphase =>
      rw [if_pos hphase] at hstep
      exact hstep
    · next hphase =>
      rw [if_neg hphase] at hstep
      exact hstep
  | .applying c =>
    rw [hat] at hnote
    exact commands_applying hs hi hat hnote
  | .storing c result =>
    rw [hat] at hnote hafter
    exact commands_storing hs hi hat hnote (by rw [hafter])
  | .finishing c result =>
    rw [hat] at hnote
    exact commands_finishing hs hi hat hnote
  | .written c result =>
    rw [hat] at hnote
    exact commands_written hs hi hat hnote
  | .replying c result =>
    rw [hat] at hnote
    exact commands_replying hs hi hat hnote
  | .dropping c =>
    simp only [hat] at hnote
    have hsilent : e.output = .silent := by
      rw [hnote]
      split <;> rfl
    have hstep := commands_dropping hs hi hat hsilent
    dsimp only
    split
    · next hphase =>
      rw [if_pos hphase] at hstep
      exact hstep
    · next hphase =>
      rw [if_neg hphase] at hstep
      exact hstep
  | .dropLoading c =>
    simp only [hat] at hnote
    have hsilent : e.output = .silent := by
      rw [hnote]
      split <;> rfl
    have hstep := commands_dropLoading hs hi hat hsilent
    dsimp only
    split
    · next hphase =>
      rw [if_pos hphase] at hstep
      exact hstep
    · next hphase =>
      rw [if_neg hphase] at hstep
      exact hstep
  | .dropFinishing c =>
    rw [hat] at hnote
    exact commands_dropFinishing hs hi hat hnote
  | .dropWritten c =>
    rw [hat] at hnote
    exact commands_dropWritten hs hi hat hnote
  | .draining =>
    simp only [hat] at hnote ⊢
    cases hrecv : s.queue.tryRecv with
    | none =>
      rw [hrecv] at hnote
      refine commands_idle hi (by rw [hat]; rfl) rfl rfl rfl hnote ?_
      -- the terminal status shows what the last one showed
      intro d hr
      have hunwinding : s.unwinding = false := by
        cases hu : s.unwinding with
        | false => rfl
        | true =>
          have := hs.leaving hu
          rw [hat] at this
          exact this.elim
      have hsynced := hs.synced hunwinding
      simp only [Synced, hat, WorkerAt.unstored] at hsynced
      exact hr.keep hsynced e
    | some r =>
      obtain ⟨c, queue⟩ := r
      rw [hrecv] at hnote
      exact commands_take hs hi (by rw [hat]; rfl) hrecv hnote (Or.inr rfl)
  | .closing =>
    rw [hat] at hnote
    exact commands_idle hi (by rw [hat]; rfl) rfl rfl rfl hnote fun d hr => hr.keep rfl e
  | .discarding =>
    rw [hat] at hnote
    exact commands_takeEntry hs hi (by rw [hat]; rfl) rfl (fun c => Or.inr rfl) hnote
  | .ended =>
    rw [hat] at hnote
    exact commands_idle hi (by rw [hat]; rfl) (by rw [hat]; rfl) rfl rfl hnote
      fun d hr => hr.keep rfl e

/-! ## Section 3: The other events -/

/-- An event after which every entry is where it was. -/
theorem commands_same {h : List PEv} {s s' : Protocol} {e : PEv} (hi : ∀ d, CommandInv d h s)
    (hlocation : s'.location = s.location) (hqueue : s'.queue = s.queue)
    (hrequests : s'.requests = s.requests) (hpublished : s'.published = s.published)
    (hnote : e.output = .silent) : ∀ d, CommandInv d (h ++ [e]) s' := by
  intro d
  refine (hi d).frame (by rw [hrequests]) ?_ (by rw [hnote]; rfl)
    fun hr => hr.keep (by rw [hpublished]) e
  unfold Protocol.custody
  rw [hlocation, hqueue]

/-- An event about the request of `c` only. -/
theorem commands_request {h : List PEv} {s s' : Protocol} {e : PEv} {c : CommandId} {q q' : Request}
    (hi : ∀ d, CommandInv d h s) (hlocation : s'.location = s.location)
    (hqueue : s'.queue = s.queue) (hpublished : s'.published = s.published)
    (hrequests : ∀ d, d ≠ c → s'.requests.get? d = s.requests.get? d)
    (hnote : e.output = .silent) (hq : s.requests.get? c = some q)
    (hq' : s'.requests.get? c = some q')
    (hinv : ∀ k n m shown, RequestInv k q n m shown → RequestInv k q' n m shown) :
    ∀ d, CommandInv d (h ++ [e]) s' := by
  have hsilent : ∀ d, appliedIn d e.output = 0 := by
    intro d
    rw [hnote]
    rfl
  have hcustody : ∀ d, s'.custody d = s.custody d := by
    intro d
    unfold Protocol.custody
    rw [hlocation, hqueue]
  intro d
  by_cases hd : d = c
  · subst hd
    refine CommandInv.of_request hq' (hsilent d) ?_
    rw [hcustody d]
    exact (hinv _ _ _ _ ((hi d).request q hq)).mono fun hr => hr.keep (by rw [hpublished]) e
  · exact (hi d).frame (hrequests d hd) (hcustody d) (hsilent d)
      fun hr => hr.keep (by rw [hpublished]) e

theorem commands_receive {h : List PEv} {s : Protocol} {e : PEv} (hi : ∀ d, CommandInv d h s)
    (c : CommandId) (hnote : e.output = .silent) : ∀ d, CommandInv d (h ++ [e]) (s.receive c) := by
  have hsame : ∀ d, CommandInv d (h ++ [e]) s := commands_same hi rfl rfl rfl rfl hnote
  unfold receive
  split
  · exact hsame
  · next q hq =>
    split
    · next result _ hreply =>
      refine commands_request hi rfl rfl rfl (fun d hd => BTreeMap.get?_alter_ne _ hd _) hnote hq
        (get?_setRequester_self _ hq) ?_
      intro k n m shown hinv
      apply hinv.conclude
      -- a reply is sent after the phase is final
      have hfinished := hinv.reply result hreply
      cases result with
      | ok => exact congrArg CommandReceipt.phase hfinished
      | error message => trivial
    · exact hsame

theorem commands_timeOut {h : List PEv} {s : Protocol} {e : PEv} (hi : ∀ d, CommandInv d h s)
    (c : CommandId) (hnote : e.output = .silent) : ∀ d, CommandInv d (h ++ [e]) (s.timeOut c) := by
  have hsame : ∀ d, CommandInv d (h ++ [e]) s := commands_same hi rfl rfl rfl rfl hnote
  unfold timeOut
  split
  · exact hsame
  · next q hq =>
    split
    · refine commands_request hi rfl rfl rfl (fun d hd => BTreeMap.get?_alter_ne _ hd _) hnote hq
        (get?_setRequester_self _ hq) ?_
      intro k n m shown hinv
      exact hinv.conclude trivial
    · exact hsame

/-- What a requester concludes from a phase is right. -/
theorem requesterOk_afterLoad (r : CommandReceipt) : RequesterOk r (afterLoad r.phase) := by
  cases hphase : r.phase with
  | queued => trivial
  | applying => trivial
  | applied => exact Or.inl hphase
  | rejected => exact Or.inr hphase
  | cancelled => exact hphase

theorem commands_proceed {h : List PEv} {s : Protocol} {e : PEv} (hi : ∀ d, CommandInv d h s)
    (c : CommandId) (hnote : e.output = .silent) : ∀ d, CommandInv d (h ++ [e]) (s.proceed c) := by
  have hsame : ∀ d, CommandInv d (h ++ [e]) s := commands_same hi rfl rfl rfl rfl hnote
  unfold proceed
  split
  · exact hsame
  · next q hq =>
    have hset : ∀ r, (∀ k n m shown, RequestInv k q n m shown → RequesterOk q.receipt r) →
        ∀ d, CommandInv d (h ++ [e]) (s.setRequester c r) := by
      intro r hok
      refine commands_request hi rfl rfl rfl (fun d hd => BTreeMap.get?_alter_ne _ hd _) hnote hq
        (get?_setRequester_self _ hq) ?_
      intro k n m shown hinv
      exact hinv.conclude (hok k n m shown hinv)
    split
    · -- the cancellation succeeds only on a queued receipt
      refine commands_request hi rfl rfl rfl ?_ hnote hq
        (get?_setRequester_self _ (get?_onReceipt_self _ hq)) ?_
      · intro d hd
        show ((s.onReceipt c _).requests.alter c _).get? d = _
        rw [BTreeMap.get?_alter_ne _ hd, get?_onReceipt_ne hd]
      · intro k n m shown hinv
        exact hinv.cancel.conclude trivial
    · exact hset _ fun _ _ _ _ _ => requesterOk_afterLoad _
    · next hloaded =>
      split
      · next result houtcome =>
        refine hset _ ?_
        intro k n m shown hinv
        have hok := hinv.requester
        rw [hloaded] at hok
        -- the phase was final, so the outcome is the one it was finished with
        obtain ⟨result', hfinished⟩ := receiptAt_finished hinv.receipt hok
        cases result with
        | error message => trivial
        | ok =>
          show q.receipt.phase = .applied
          rw [hfinished] at houtcome ⊢
          rw [Option.some.injEq] at houtcome
          rw [houtcome]
          rfl
      · exact hset _ fun _ _ _ _ _ => trivial
    · exact hsame

theorem commands_send {h : List PEv} {s : Protocol} {e : PEv} (hs : Shape s)
    (hi : ∀ d, CommandInv d h s) (command : HardwareCommand) (hnote : e.output = .silent) :
    ∀ d, CommandInv d (h ++ [e]) (s.send command) := by
  have hsilent : ∀ d, appliedIn d e.output = 0 := by
    intro d
    rw [hnote]
    rfl
  -- the id is new
  have hnone : s.requests.get? s.nextId = none := by
    cases hq : s.requests.get? s.nextId with
    | none => rfl
    | some q => exact absurd (hs.fresh _ q hq) (lt_irrefl _)
  have hlocation : s.location.command ≠ some s.nextId := by
    intro hcommand
    obtain ⟨q, hq⟩ := hs.known s.nextId (by simp [hcommand])
    rw [hnone] at hq
    cases hq
  have hqueue : s.nextId ∉ s.queue.items := by
    intro hmem
    obtain ⟨q, hq⟩ := hs.known s.nextId (List.mem_append_right _ hmem)
    rw [hnone] at hq
    cases hq
  have hn := (hi s.nextId).unseen hnone
  have hrefused : ∀ d, CommandInv d (h ++ [e]) { s with
      nextId := s.nextId + 1
      requests := s.requests.insert s.nextId
        ⟨command, CommandReceipt.new.cancelQueued, none, .returned .unavailable⟩ } := by
    intro d
    by_cases hd : d = s.nextId
    · subst hd
      refine CommandInv.of_request (BTreeMap.get?_insert_self _ _ _) (hsilent _) ?_
      have hgone : s.custody s.nextId = .gone := by
        unfold Protocol.custody
        rw [if_neg hlocation, if_neg hqueue]
      show RequestInv (s.custody s.nextId) _ _ _ _
      rw [hgone]
      refine ⟨Or.inl rfl, ?_, trivial, fun _ => hn, ?_, ?_, ?_⟩
      · intro result hr
        cases hr
      · intro result hr
        cases hr
      · intro happlied
        cases happlied
      · rintro (hstored | happlied)
        · cases hstored
        · cases happlied
    · exact (hi d).frame (BTreeMap.get?_insert_ne _ hd _) rfl (hsilent d) fun hr => hr.keep rfl e
  unfold send
  dsimp only
  split
  · exact hrefused
  · split
    · exact hrefused
    · next queue hsend =>
      have hitems := (BoundedQueue.trySend_eq_some hsend).1
      intro d
      by_cases hd : d = s.nextId
      · subst hd
        refine CommandInv.of_request (BTreeMap.get?_insert_self _ _ _) (hsilent _) ?_
        have hqueued : Protocol.custody { s with
            nextId := s.nextId + 1
            queue := queue
            requests := s.requests.insert s.nextId
              ⟨command, CommandReceipt.new, none, .waiting⟩ } s.nextId = .queued := by
          unfold Protocol.custody
          rw [if_neg hlocation, if_pos]
          rw [hitems]
          simp
        rw [hqueued]
        refine ⟨⟨rfl, Or.inl rfl⟩, ?_, trivial, fun _ => hn, ?_, ?_, ?_⟩
        · intro result hr
          cases hr
        · intro result hr
          cases hr
        · intro happlied
          cases happlied
        · rintro (hstored | happlied)
          · cases hstored
          · cases happlied
      · refine (hi d).frame (BTreeMap.get?_insert_ne _ hd _) ?_ (hsilent d) fun hr => hr.keep rfl e
        unfold Protocol.custody
        dsimp only
        rw [hitems]
        simp [hd]

theorem commands_read {h : List PEv} {s : Protocol} {e : PEv} (hs : Shape s)
    (hi : ∀ d, CommandInv d h s) (io : ReadIo) (hnote : e.output = .silent)
    (hafter : e.after = s.read io) : ∀ d, CommandInv d (h ++ [e]) (s.read io) := by
  have hworker : s.location = .idle →
      e.after.worker = (stepRead s.worker io s.running).1 := by
    intro hat
    rw [hafter]
    unfold read
    rw [hat]
  unfold read
  split
  · next hat =>
    refine commands_idle hi (by rw [hat]; rfl) (afterRead_command _) rfl rfl hnote ?_
    intro d hr
    have hshown := shape_idle_shown hs hat
    rcases stepRead_status s.worker io s.running with hsame | ⟨hrunning, hsnapshot⟩
    · refine hr.keep ?_ e
      dsimp only
      split
      · exact hsame.trans hshown
      · rfl
    · refine reflects_now hr.accepted ?_
      rw [hworker hat, ← hsnapshot]
      dsimp only
      rw [hrunning, if_pos rfl]
  · exact commands_same hi rfl rfl rfl rfl hnote

theorem commands_leave {h : List PEv} {s : Protocol} {e : PEv} (hi : ∀ d, CommandInv d h s)
    (hnote : e.output = .silent) : ∀ d, CommandInv d (h ++ [e]) s.leave := by
  unfold leave
  split
  · next hat =>
    split
    · exact commands_same hi rfl rfl rfl rfl hnote
    · exact commands_idle hi (by rw [hat]; rfl) rfl rfl rfl hnote fun d hr => hr.keep rfl e
  · exact commands_same hi rfl rfl rfl rfl hnote

theorem commands_panic {h : List PEv} {s : Protocol} {e : PEv} (hs : Shape s)
    (hi : ∀ d, CommandInv d h s) (hnote : e.output = .silent) :
    ∀ d, CommandInv d (h ++ [e]) s.panic := by
  unfold panic
  split
  · next hat =>
    exact commands_idle hi (by rw [hat]; rfl) rfl rfl rfl hnote fun d hr => hr.keep rfl e
  · next c hat =>
    refine commandInv_silent hs hi (by rw [hat]; rfl) (Or.inl rfl) rfl rfl (fun _ _ => rfl) hnote ?_
    intro q hq
    refine ⟨q, hq, ?_⟩
    intro n m shown hinv
    rw [hat] at hinv
    rw [custody_held rfl]
    exact hinv.move (Or.inr (Or.inl hinv.receipt)) rfl rfl fun _ => Or.inr (Or.inr ⟨c, rfl⟩)
  · next c result hat =>
    refine commandInv_silent hs hi (by rw [hat]; rfl) (Or.inl rfl) rfl rfl (fun _ _ => rfl) hnote ?_
    intro q hq
    refine ⟨q, hq, ?_⟩
    intro n m shown hinv
    rw [hat] at hinv
    rw [custody_held rfl]
    exact hinv.move (Or.inr (Or.inl hinv.receipt)) rfl rfl fun hu => hu.of_phase (by simp)
  · exact commands_same hi rfl rfl rfl rfl hnote

theorem commands_step {h : List PEv} {s : Protocol} {event : Event} (hs : Shape s)
    (hi : ∀ d, CommandInv d h s) :
    ∀ d, CommandInv d (h ++ [⟨s, event, (step s event).2, (step s event).1⟩]) (step s event).1 := by
  match event with
  | .send command => exact commands_send hs hi command rfl
  | .receive c => exact commands_receive hi c rfl
  | .timeOut c => exact commands_timeOut hi c rfl
  | .proceed c => exact commands_proceed hi c rfl
  | .stop => exact commands_same hi rfl rfl rfl rfl rfl
  | .advance expired calls => exact commands_advance hs hi rfl rfl
  | .leave => exact commands_leave hi rfl
  | .read io => exact commands_read hs hi io rfl rfl
  | .panic => exact commands_panic hs hi rfl

end Protocol

end Ingest
