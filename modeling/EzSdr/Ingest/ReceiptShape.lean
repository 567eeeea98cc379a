import EzSdr.Ingest.ReceiptLaw

/-! # States of the Receipt Protocol

    The entry of a command is in one place only, every entry belongs to a
    request, and between two stores the published status is the one the thread
    last stored. Every event keeps this. -/

namespace Ingest

namespace Protocol

/-! ## Section 1: What the single steps do -/

/-- The hardware calls of a command are over in one of three ways. -/
theorem stepCommand_cases (worker : State) (command : HardwareCommand) (calls : CommandCalls) :
    (resultOf (stepCommand worker command calls).2 = .ok () ↔
      (stepCommand worker command calls).2 = .applied) ∧
    ((stepCommand worker command calls).1.status.shown =
        (stepCommand worker command calls).1.source.settings ∨
      (resultOf (stepCommand worker command calls).2 ≠ .ok () ∧
        (stepCommand worker command calls).1.status.shown = worker.status.shown)) := by
  unfold stepCommand
  dsimp only
  split
  · -- accepted: the status is a snapshot of the source
    refine ⟨by simp [resultOf], Or.inl ?_⟩
    unfold State.accept
    dsimp only
    split <;> split <;> rfl
  · split
    · exact ⟨by simp [resultOf], Or.inl rfl⟩
    · exact ⟨by simp [resultOf], Or.inr ⟨by simp [resultOf], rfl⟩⟩

/-- A read leaves the settings of the status, or takes a snapshot of the source. -/
theorem stepRead_status (worker : State) (io : ReadIo) (running : Bool) :
    (stepRead worker io running).1.status.shown = worker.status.shown ∨
      (running = true ∧ (stepRead worker io running).1.status.shown =
        (stepRead worker io running).1.source.settings) := by
  unfold stepRead
  dsimp only
  split
  · exact Or.inl rfl
  · next hrunning =>
    have htrue : running = true := by simpa using hrunning
    split
    · exact Or.inr ⟨htrue, rfl⟩
    · -- a published block does not touch the status
      refine Or.inl ?_
      unfold State.publish State.follow
      dsimp only
      split
      · split
        · split <;> rfl
        · rfl
      · rfl
    · exact Or.inl rfl
    · exact Or.inl rfl
    · exact Or.inr ⟨htrue, rfl⟩

theorem afterDrop_command (s : Protocol) : s.afterDrop.command = none := by
  unfold afterDrop
  split
  · rfl
  · split
    · rfl
    · split <;> rfl

theorem afterDrop_unstored (s : Protocol) : s.afterDrop.unstored = none := by
  unfold afterDrop
  split
  · rfl
  · split
    · rfl
    · split <;> rfl

theorem afterDrop_leaving {s : Protocol} (h : s.unwinding = true) : s.afterDrop.Leaving := by
  unfold afterDrop
  split
  · trivial
  · trivial

theorem afterDrop_closed {s : Protocol} (h : s.afterDrop = .discarding ∨ s.afterDrop = .ended) :
    s.disconnected = true := by
  unfold afterDrop at h
  split at h
  · assumption
  · split at h
    · rcases h with h | h <;> cases h
    · split at h <;> rcases h with h | h <;> cases h

theorem afterDrop_ne_ended (s : Protocol) : s.afterDrop ≠ .ended := by
  unfold afterDrop
  split
  · simp
  · split
    · simp
    · split <;> simp

theorem afterRead_command (ended : Bool) :
    (if ended then WorkerAt.draining else WorkerAt.idle).command = none := by
  cases ended <;> rfl

theorem isSome_alter_map {m : BTreeMap CommandId Request} {c : CommandId} (f : Request → Request)
    (d : CommandId) : ((m.alter c fun q => q.map f).get? d).isSome = (m.get? d).isSome := by
  by_cases hd : d = c
  · rw [hd, BTreeMap.get?_alter_self, Option.isSome_map]
  · rw [BTreeMap.get?_alter_ne _ hd]

theorem isSome_onReceipt (s : Protocol) (c : CommandId) (f : CommandReceipt → CommandReceipt)
    (d : CommandId) : ((s.onReceipt c f).requests.get? d).isSome = (s.requests.get? d).isSome :=
  isSome_alter_map _ d

/-! ## Section 2: How a step changes the shape -/

/-- A thread that is still working is not unwinding. -/
theorem shape_working {s : Protocol} (hs : Shape s) (h : ¬ s.location.Leaving) :
    s.unwinding = false := by
  cases hu : s.unwinding with
  | false => rfl
  | true => exact absurd (hs.leaving hu) h

/-- At the head of its loop the thread has published what it last stored. -/
theorem shape_idle_shown {s : Protocol} (hs : Shape s) (hat : s.location = .idle) :
    s.worker.status.shown = s.published.shown := by
  have hsynced := hs.synced (shape_working hs (by rw [hat]; exact id))
  simpa only [Synced, hat, WorkerAt.unstored] using hsynced

/-- A step that leaves the queue and the set of requests as they are. -/
theorem shape_keep {s s' : Protocol} (hs : Shape s)
    (hcommand : s'.location.command = s.location.command ∨ s'.location.command = none)
    (hqueue : s'.queue = s.queue)
    (hrequests : ∀ c, (s'.requests.get? c).isSome = (s.requests.get? c).isSome)
    (hnext : s'.nextId = s.nextId) (hsynced : s'.unwinding = false → Synced s')
    (hleaving : s'.unwinding = true → s'.location.Leaving)
    (hclosed : s'.location = .discarding ∨ s'.location = .ended → s'.disconnected = true)
    (hemptied : s'.location = .ended → s'.queue.items = []) : Shape s' := by
  have hsublist : (s'.location.command.toList ++ s'.queue.items).Sublist
      (s.location.command.toList ++ s.queue.items) := by
    rw [hqueue]
    rcases hcommand with hcommand | hcommand
    · rw [hcommand]
    · rw [hcommand]
      exact List.sublist_append_right _ _
  refine ⟨hs.nodup.sublist hsublist, ?_, ?_, hsynced, hleaving, hclosed, hemptied⟩
  · intro c hc
    obtain ⟨q, hq⟩ := hs.known c (hsublist.subset hc)
    rw [← Option.isSome_iff_exists, hrequests c, hq]
    rfl
  · intro c q hq
    have hsome : (s.requests.get? c).isSome = true := by
      rw [← hrequests c, hq]
      rfl
    obtain ⟨q', hq'⟩ := Option.isSome_iff_exists.1 hsome
    rw [hnext]
    exact hs.fresh c q' hq'

/-- A step of the thread between two stores of the status. -/
theorem shape_move {s s' : Protocol} (hs : Shape s) (hat : s.location.unstored = none)
    (hat' : s'.location.unstored = none)
    (hcommand : s'.location.command = s.location.command ∨ s'.location.command = none)
    (hqueue : s'.queue = s.queue)
    (hrequests : ∀ c, (s'.requests.get? c).isSome = (s.requests.get? c).isSome)
    (hnext : s'.nextId = s.nextId) (hworker : s'.worker = s.worker)
    (hpublished : s'.published = s.published) (hunwinding : s'.unwinding = s.unwinding)
    (hleaving : s.unwinding = true → s.location.Leaving → s'.location.Leaving)
    (hclosed : s'.location = .discarding ∨ s'.location = .ended → s'.disconnected = true)
    (hemptied : s'.location = .ended → s'.queue.items = []) : Shape s' := by
  refine shape_keep hs hcommand hqueue hrequests hnext ?_ ?_ hclosed hemptied
  · intro hu
    have hsynced := hs.synced (hunwinding ▸ hu)
    simp only [Synced, hat] at hsynced
    simp only [Synced, hat', hworker, hpublished]
    exact hsynced
  · intro hu
    rw [hunwinding] at hu
    exact hleaving hu (hs.leaving hu)

/-- The thread goes on with the command it holds. -/
theorem shape_held {s s' : Protocol} {c : CommandId} (hs : Shape s)
    (hcommand : s.location.command = some c) (hcommand' : s'.location.command = some c)
    (hat : s.location.unstored = none) (hat' : s'.location.unstored = none)
    (hqueue : s'.queue = s.queue)
    (hrequests : ∀ c, (s'.requests.get? c).isSome = (s.requests.get? c).isSome)
    (hnext : s'.nextId = s.nextId) (hworker : s'.worker = s.worker)
    (hpublished : s'.published = s.published) (hunwinding : s'.unwinding = s.unwinding)
    (hleaving : s.location.Leaving → s'.location.Leaving) : Shape s' := by
  refine shape_move hs hat hat' (Or.inl (hcommand'.trans hcommand.symm)) hqueue hrequests hnext
    hworker hpublished hunwinding (fun _ => hleaving) ?_ ?_
  · rintro (h | h)
    all_goals
      rw [h] at hcommand'
      cases hcommand'
  · intro h
    rw [h] at hcommand'
    cases hcommand'

/-- The thread has dropped the entry it held. -/
theorem shape_dropped {s s' : Protocol} (hs : Shape s) (hat : s.location.unstored = none)
    (hlocation : s'.location = s.afterDrop) (hqueue : s'.queue = s.queue)
    (hrequests : ∀ c, (s'.requests.get? c).isSome = (s.requests.get? c).isSome)
    (hnext : s'.nextId = s.nextId) (hworker : s'.worker = s.worker)
    (hpublished : s'.published = s.published) (hunwinding : s'.unwinding = s.unwinding)
    (hdisconnected : s'.disconnected = s.disconnected) : Shape s' := by
  refine shape_move hs hat (by rw [hlocation]; exact afterDrop_unstored s)
    (Or.inr (by rw [hlocation]; exact afterDrop_command s)) hqueue hrequests hnext hworker
    hpublished hunwinding ?_ ?_ ?_
  · intro hu _
    rw [hlocation]
    exact afterDrop_leaving hu
  · rw [hlocation, hdisconnected]
    exact afterDrop_closed
  · rw [hlocation]
    exact fun h => absurd h (afterDrop_ne_ended s)

/-- An entry is taken out of the queue. -/
theorem shape_take {s : Protocol} {c : CommandId} {queue : BoundedQueue CommandId}
    {location : WorkerAt} (hs : Shape s) (hcommand : s.location.command = none)
    (hat : s.location.unstored = none) (hrecv : s.queue.tryRecv = some (c, queue))
    (hlocation : (location = .taken c ∧ ¬ s.location.Leaving) ∨ location = .dropping c) :
    Shape { s with queue := queue, location := location } := by
  have hitems := (BoundedQueue.tryRecv_eq_some hrecv).1
  have hcommand' : location.command = some c := by
    rcases hlocation with ⟨rfl, -⟩ | rfl <;> rfl
  -- the same entries, the first one in the hands of the thread
  have hsame : location.command.toList ++ queue.items =
      s.location.command.toList ++ s.queue.items := by
    rw [hcommand', hcommand, hitems]
    rfl
  refine ⟨?_, ?_, hs.fresh, ?_, ?_, ?_, ?_⟩
  · show (location.command.toList ++ queue.items).Nodup
    rw [hsame]
    exact hs.nodup
  · show ∀ c ∈ location.command.toList ++ queue.items, _
    rw [hsame]
    exact hs.known
  · intro hu
    have hsynced := hs.synced hu
    simp only [Synced, hat] at hsynced
    rcases hlocation with ⟨rfl, -⟩ | rfl <;> exact hsynced
  · intro hu
    rcases hlocation with ⟨-, hworking⟩ | rfl
    · exact absurd (hs.leaving hu) hworking
    · trivial
  · rcases hlocation with ⟨rfl, -⟩ | rfl <;> rintro (h | h) <;> cases h
  · rcases hlocation with ⟨rfl, -⟩ | rfl <;> intro h <;> cases h

theorem shape_applying {s : Protocol} {c : CommandId} {calls : CommandCalls} (hs : Shape s)
    (hat : s.location = .applying c) : Shape (s.applyCommand c calls).1 := by
  obtain ⟨q, hq⟩ := hs.known c (by simp [hat, WorkerAt.command])
  have hworking := shape_working hs (by rw [hat]; exact id)
  have hsynced := hs.synced hworking
  simp only [Synced, hat, WorkerAt.unstored] at hsynced
  unfold applyCommand
  rw [hq]
  refine shape_keep hs (Or.inl (by rw [hat]; rfl)) rfl (fun _ => rfl) rfl ?_ ?_ ?_ ?_
  · intro _
    simp only [Synced, WorkerAt.unstored]
    rcases (stepCommand_cases s.worker q.command calls).2 with hshown | ⟨hfailed, hshown⟩
    · exact Or.inl hshown
    · exact Or.inr ⟨hfailed, hshown.trans hsynced⟩
  · intro hu
    rw [show s.unwinding = true from hu] at hworking
    cases hworking
  · rintro (h | h) <;> cases h
  · intro h
    cases h

/-- A step after which the published status is the one of the thread. -/
theorem shape_store {s s' : Protocol} (hs : Shape s) (hworking : ¬ s.location.Leaving)
    (hcommand : s'.location.command = s.location.command ∨ s'.location.command = none)
    (hat' : s'.location.unstored = none) (hqueue : s'.queue = s.queue)
    (hrequests : s'.requests = s.requests) (hnext : s'.nextId = s.nextId)
    (hunwinding : s'.unwinding = s.unwinding)
    (hshown : s'.worker.status.shown = s'.published.shown)
    (hopen : s'.location ≠ .discarding ∧ s'.location ≠ .ended) : Shape s' := by
  refine shape_keep hs hcommand hqueue (fun c => by rw [hrequests]) hnext ?_ ?_ ?_ ?_
  · intro _
    simp only [Synced, hat']
    exact hshown
  · intro hu
    rw [hunwinding, shape_working hs hworking] at hu
    cases hu
  · exact fun h => absurd h (not_or.2 hopen)
  · exact fun h => absurd h hopen.2

/-! ## Section 3: Every event -/

theorem shape_advance {s : Protocol} {expired : Bool} {calls : CommandCalls} (hs : Shape s) :
    Shape (s.advance expired calls).1 := by
  unfold advance
  match hat : s.location with
  | .idle =>
    -- from here on one location after the other, in the order of the source
    show Shape (s.takeEntry .taken .idle)
    unfold takeEntry
    split
    · rw [show ({ s with location := .idle } : Protocol) = s by rw [← hat]]
      exact hs
    · next c queue hrecv =>
      exact shape_take hs (by rw [hat]; rfl) (by rw [hat]; rfl) hrecv
        (Or.inl ⟨rfl, by rw [hat]; exact id⟩)
  | .taken c =>
    dsimp only
    split
    · exact shape_held hs (by rw [hat]; rfl) rfl (by rw [hat]; rfl) rfl rfl
        (isSome_onReceipt _ c _) rfl rfl rfl rfl (by rw [hat]; exact False.elim)
    · exact shape_held hs (by rw [hat]; rfl) rfl (by rw [hat]; rfl) rfl rfl
        (fun _ => rfl) rfl rfl rfl rfl (by rw [hat]; exact False.elim)
  | .checked c =>
    dsimp only
    split
    · exact shape_held hs (by rw [hat]; rfl) rfl (by rw [hat]; rfl) rfl rfl
        (isSome_onReceipt _ c _) rfl rfl rfl rfl (by rw [hat]; exact False.elim)
    · exact shape_held hs (by rw [hat]; rfl) rfl (by rw [hat]; rfl) rfl rfl
        (fun _ => rfl) rfl rfl rfl rfl (by rw [hat]; exact False.elim)
  | .applying c => exact shape_applying hs hat
  | .storing c result =>
    exact shape_store hs (by rw [hat]; exact id) (Or.inl (by rw [hat]; rfl)) rfl rfl rfl rfl rfl rfl
      ⟨by simp, by simp⟩
  | .finishing c result =>
    exact shape_held hs (by rw [hat]; rfl) rfl (by rw [hat]; rfl) rfl rfl
      (isSome_onReceipt _ c _) rfl rfl rfl rfl (by rw [hat]; exact False.elim)
  | .written c result =>
    exact shape_held hs (by rw [hat]; rfl) rfl (by rw [hat]; rfl) rfl rfl
      (isSome_onReceipt _ c _) rfl rfl rfl rfl (by rw [hat]; exact False.elim)
  | .replying c result =>
    exact shape_held hs (by rw [hat]; rfl) rfl (by rw [hat]; rfl) rfl rfl
      (isSome_alter_map _) rfl rfl rfl rfl (by rw [hat]; exact False.elim)
  | .dropping c =>
    dsimp only
    split
    · exact shape_dropped hs (by rw [hat]; rfl) rfl rfl (isSome_onReceipt _ c _) rfl rfl rfl rfl rfl
    · exact shape_held hs (by rw [hat]; rfl) rfl (by rw [hat]; rfl) rfl rfl
        (fun _ => rfl) rfl rfl rfl rfl (fun _ => trivial)
  | .dropLoading c =>
    dsimp only
    split
    · exact shape_held hs (by rw [hat]; rfl) rfl (by rw [hat]; rfl) rfl rfl
        (fun _ => rfl) rfl rfl rfl rfl (fun _ => trivial)
    · exact shape_dropped hs (by rw [hat]; rfl) rfl rfl (fun _ => rfl) rfl rfl rfl rfl rfl
  | .dropFinishing c =>
    exact shape_held hs (by rw [hat]; rfl) rfl (by rw [hat]; rfl) rfl rfl
      (isSome_onReceipt _ c _) rfl rfl rfl rfl (fun _ => trivial)
  | .dropWritten c =>
    exact shape_dropped hs (by rw [hat]; rfl) rfl rfl (isSome_onReceipt _ c _) rfl rfl rfl rfl rfl
  | .draining =>
    dsimp only
    split
    · exact shape_store hs (by rw [hat]; exact id) (Or.inr rfl) rfl rfl rfl rfl rfl rfl
        ⟨by simp, by simp⟩
    · next c queue hrecv =>
      exact shape_take hs (by rw [hat]; rfl) (by rw [hat]; rfl) hrecv (Or.inr rfl)
  | .closing =>
    -- the queue is closed only here
    refine shape_move hs (by rw [hat]; rfl) rfl (Or.inr rfl) rfl (fun _ => rfl) rfl rfl rfl rfl
      (fun _ _ => trivial) (fun _ => rfl) ?_
    intro h
    cases h
  | .discarding =>
    show Shape (s.takeEntry .dropping .ended)
    unfold takeEntry
    split
    · next hrecv =>
      refine shape_move hs (by rw [hat]; rfl) rfl (Or.inr rfl) rfl (fun _ => rfl) rfl rfl rfl rfl
        (fun _ _ => trivial) (fun _ => hs.closed (Or.inl hat)) ?_
      exact fun _ => BoundedQueue.tryRecv_eq_none hrecv
    · next c queue hrecv =>
      exact shape_take hs (by rw [hat]; rfl) (by rw [hat]; rfl) hrecv (Or.inr rfl)
  | .ended => exact hs

theorem shape_send {s : Protocol} (hs : Shape s) (command : HardwareCommand) :
    Shape (s.send command) := by
  have hknown : ∀ q, ∀ c, (∃ q', s.requests.get? c = some q') →
      ∃ q', (s.requests.insert s.nextId q).get? c = some q' := by
    intro q c hc
    by_cases hd : c = s.nextId
    · exact ⟨q, by rw [hd, BTreeMap.get?_insert_self]⟩
    · rwa [BTreeMap.get?_insert_ne _ hd]
  have hfresh : ∀ q, ∀ c q', (s.requests.insert s.nextId q).get? c = some q' → c < s.nextId + 1 := by
    intro q c q' hq'
    by_cases hd : c = s.nextId
    · rw [hd]
      exact Nat.lt_succ_self _
    · rw [BTreeMap.get?_insert_ne _ hd] at hq'
      exact (hs.fresh c q' hq').trans (Nat.lt_succ_self _)
  have hrefused : ∀ q, Shape { s with
      nextId := s.nextId + 1, requests := s.requests.insert s.nextId q } := fun q =>
    ⟨hs.nodup, fun c hc => hknown q c (hs.known c hc), hfresh q, hs.synced, hs.leaving, hs.closed,
      hs.emptied⟩
  unfold send
  dsimp only
  split
  · exact hrefused _
  · next hdisconnected =>
    split
    · exact hrefused _
    · next queue hsend =>
      have hitems := (BoundedQueue.trySend_eq_some hsend).1
      -- the new id is nowhere yet
      have hnew : s.nextId ∉ s.location.command.toList ++ s.queue.items := by
        intro hmem
        obtain ⟨q, hq⟩ := hs.known _ hmem
        exact absurd (hs.fresh _ q hq) (lt_irrefl _)
      refine ⟨?_, ?_, hfresh _, hs.synced, hs.leaving, hs.closed, ?_⟩
      · show (s.location.command.toList ++ queue.items).Nodup
        rw [hitems, ← List.append_assoc, List.nodup_append]
        refine ⟨hs.nodup, List.nodup_singleton _, ?_⟩
        intro c hc d hd hcd
        rw [List.mem_singleton] at hd
        rw [hcd, hd] at hc
        exact hnew hc
      · intro c hc
        change c ∈ s.location.command.toList ++ queue.items at hc
        rw [hitems, ← List.append_assoc, List.mem_append, List.mem_singleton] at hc
        rcases hc with hc | rfl
        · exact hknown _ c (hs.known c hc)
        · exact ⟨_, BTreeMap.get?_insert_self _ _ _⟩
      · intro hended
        exact absurd (hs.closed (Or.inr hended)) hdisconnected

theorem shape_requester {s s' : Protocol} (hs : Shape s) (hworker : s'.worker = s.worker)
    (hlocation : s'.location = s.location) (hunwinding : s'.unwinding = s.unwinding)
    (hpublished : s'.published = s.published) (hqueue : s'.queue = s.queue)
    (hdisconnected : s'.disconnected = s.disconnected)
    (hrequests : ∀ c, (s'.requests.get? c).isSome = (s.requests.get? c).isSome)
    (hnext : s'.nextId = s.nextId) : Shape s' := by
  refine shape_keep hs (Or.inl (by rw [hlocation])) hqueue hrequests hnext ?_ ?_ ?_ ?_
  · intro hu
    have hsynced := hs.synced (hunwinding ▸ hu)
    unfold Synced at hsynced ⊢
    rw [hlocation, hworker, hpublished]
    exact hsynced
  · rw [hunwinding, hlocation]
    exact hs.leaving
  · rw [hlocation, hdisconnected]
    exact hs.closed
  · rw [hlocation, hqueue]
    exact hs.emptied

theorem shape_read {s : Protocol} (hs : Shape s) (io : ReadIo) : Shape (s.read io) := by
  unfold read
  split
  · next hat =>
    refine shape_store hs (by rw [hat]; exact id) (Or.inr (afterRead_command _)) ?_ rfl rfl rfl rfl
      ?_ ?_
    · dsimp only
      split <;> rfl
    · dsimp only
      split
      · rfl
      · next hrunning =>
        rcases stepRead_status s.worker io s.running with hsame | ⟨htrue, -⟩
        · exact hsame.trans (shape_idle_shown hs hat)
        · exact absurd htrue hrunning
    · dsimp only
      split <;> exact ⟨by simp, by simp⟩
  · exact hs

theorem shape_leave {s : Protocol} (hs : Shape s) : Shape s.leave := by
  unfold leave
  split
  · next hat =>
    split
    · exact hs
    · refine shape_store hs (by rw [hat]; exact id) (Or.inr rfl) rfl rfl rfl rfl rfl ?_
        ⟨by simp, by simp⟩
      -- the shutdown only marks the status as disconnected
      have hshown : (Ingest.step s.worker .shutdown).1.status.shown = s.worker.status.shown := by
        unfold Ingest.step
        split <;> rfl
      exact hshown.trans (shape_idle_shown hs hat)
  · exact hs

theorem shape_panic {s : Protocol} (hs : Shape s) : Shape s.panic := by
  unfold panic
  split
  · next hat =>
    refine shape_keep hs (Or.inr rfl) rfl (fun _ => rfl) rfl ?_ (fun _ => trivial) ?_ ?_
    · intro hu
      cases hu
    · rintro (h | h) <;> cases h
    · intro h
      cases h
  · next c hat =>
    refine shape_keep hs (Or.inl (by rw [hat]; rfl)) rfl (fun _ => rfl) rfl ?_ (fun _ => trivial)
      ?_ ?_
    · intro hu
      cases hu
    · rintro (h | h) <;> cases h
    · intro h
      cases h
  · next c result hat =>
    refine shape_keep hs (Or.inl (by rw [hat]; rfl)) rfl (fun _ => rfl) rfl ?_ (fun _ => trivial)
      ?_ ?_
    · intro hu
      cases hu
    · rintro (h | h) <;> cases h
    · intro h
      cases h
  · exact hs

theorem shape_step {s : Protocol} (hs : Shape s) (event : Event) : Shape (step s event).1 := by
  match event with
  | .send command => exact shape_send hs command
  | .receive c =>
    show Shape (s.receive c)
    unfold receive
    split
    · exact hs
    · split
      · exact shape_requester hs rfl rfl rfl rfl rfl rfl (isSome_alter_map _) rfl
      · exact hs
  | .timeOut c =>
    show Shape (s.timeOut c)
    unfold timeOut
    split
    · exact hs
    · split
      · exact shape_requester hs rfl rfl rfl rfl rfl rfl (isSome_alter_map _) rfl
      · exact hs
  | .proceed c =>
    have hset : ∀ r, Shape (s.setRequester c r) := fun r =>
      shape_requester hs rfl rfl rfl rfl rfl rfl (isSome_alter_map _) rfl
    show Shape (s.proceed c)
    unfold proceed
    split
    · exact hs
    · split
      · refine shape_requester hs rfl rfl rfl rfl rfl rfl ?_ rfl
        intro d
        exact (isSome_alter_map _ d).trans (isSome_onReceipt s c _ d)
      · exact hset _
      · split <;> exact hset _
      · exact hs
  | .stop => exact shape_requester hs rfl rfl rfl rfl rfl rfl (fun _ => rfl) rfl
  | .advance expired calls => exact shape_advance hs
  | .leave => exact shape_leave hs
  | .read io => exact shape_read hs io
  | .panic => exact shape_panic hs

end Protocol

end Ingest
