import EzSdr.Broadcast.Accounting

/-! # Order of Broadcast Values

    While no two publishes overlap, as with a single publisher, what a
    subscriber received and what it has queued are in the order of publication,
    and under `DropOldest` the newest of them is the newest value published. -/

namespace Broadcast

variable {α : Type}

/-! ## Section 1: Publishes that do not overlap -/

/-- No publish is in progress. -/
def Quiet (s : State α) : Prop := ∀ p, s.publishers.get? p = none

/-- A publish begins only when no other one is in progress. -/
def Sequential (h : List (Ev α)) : Prop :=
  ∀ e ∈ h, ∀ snapshot, e.output = .published snapshot → Quiet e.before

/-- Only `p` publishes. -/
def OnlyPublisher (p : PublisherId) (inputs : List (Input α)) : Prop :=
  ∀ q value, Input.publish q value ∈ inputs → q = p

/-- How far a publish in progress is with a subscriber. -/
inductive Stage where
  /-- The queue is as the last publish left it, apart from what was received. -/
  | before
  /-- A place was made. -/
  | cleared
  /-- The value was refused a second time. -/
  | refused
  /-- The value was sent, or the policy dropped it. -/
  | done
  deriving DecidableEq

def Phase.stage : Phase → Stage
  | .send => .before
  | .evict => .before
  | .resend _ => .cleared
  | .count _ rejected => if rejected then .refused else .done

/-- The stage a publish has reached with `i`. -/
def Publishing.stage (i : SubscriberId) (x : Publishing α) : Stage :=
  if i ∈ x.handled then .done else if x.rest.head? = some i then x.phase.stage else .before

/-- The newest value, or a place for it, is where the stage says. -/
def Newest (capacity : ℕ) (completed : List α) (value : α) (received queued : List α) :
    Stage → Prop
  | .before => (received ++ queued).getLast? = completed.getLast?
  | .cleared => queued.length < capacity
  | .refused => False
  | .done => (received ++ queued).getLast? = some value

/-- What holds of the values `received` and `queued`, when `completed` were
    published before and `value` is being published. -/
structure InOrder (policy : OverflowPolicy) (capacity : ℕ) (completed : List α) (value : α)
    (stage : Stage) (received queued : List α) : Prop where
  sublist : (received ++ queued).Sublist
    (completed ++ if stage = .done then [value] else [])
  newest : policy = .dropOldest → Newest capacity completed value received queued stage

/-- Sending keeps the order, and the value sent is the newest. -/
theorem InOrder.sent {policy : OverflowPolicy} {capacity : ℕ} {completed received : List α}
    {value : α} {stage : Stage} {queue queue' : BoundedQueue α}
    (h : InOrder policy capacity completed value stage received queue.items)
    (hstage : stage ≠ .done) (hsend : queue.trySend value = some queue') :
    InOrder policy capacity completed value .done received queue'.items := by
  have hsublist := h.sublist
  rw [if_neg hstage, List.append_nil] at hsublist
  rw [(BoundedQueue.trySend_eq_some hsend).1]
  refine ⟨?_, ?_⟩
  · rw [if_pos rfl, ← List.append_assoc]
    exact hsublist.append (List.Sublist.refl _)
  · intro _
    show (received ++ (queue.items ++ [value])).getLast? = some value
    rw [← List.append_assoc]
    exact List.getLast?_concat

/-- One step of the handling keeps the order. -/
theorem handle_inOrder {value : α} {sub : Subscriber α} {phase : Phase}
    {completed received : List α}
    (h : InOrder sub.policy sub.queue.capacity completed value phase.stage received
      sub.queue.items) :
    InOrder sub.policy sub.queue.capacity completed value
      ((handle value sub phase).phase.elim .done Phase.stage) received
      (handle value sub phase).subscriber.queue.items := by
  match phase with
  | .send =>
    unfold handle
    cases hsend : sub.queue.trySend value with
    | some queue => exact h.sent (by simp [Phase.stage]) hsend
    | none =>
      cases hpolicy : sub.policy with
      | dropOldest => exact ⟨h.sublist, fun _ => h.newest hpolicy⟩
      | dropIncoming => exact ⟨h.sublist, fun hp => by cases hp⟩
  | .evict =>
    have hsublist := h.sublist
    rw [if_neg (by simp [Phase.stage]), List.append_nil] at hsublist
    unfold handle
    cases hrecv : sub.queue.tryRecv with
    | some r =>
      obtain ⟨oldest, queue⟩ := r
      obtain ⟨hitems, hcapacity⟩ := BoundedQueue.tryRecv_eq_some hrecv
      refine ⟨?_, ?_⟩
      · -- the oldest value leaves from the middle
        show (received ++ queue.items).Sublist (completed ++ [])
        rw [List.append_nil]
        refine List.Sublist.trans ?_ hsublist
        rw [hitems]
        exact (List.Sublist.refl _).append (List.sublist_cons_self _ _)
      · intro _
        show queue.items.length < sub.queue.capacity
        rw [← hcapacity]
        exact BoundedQueue.room_of_tryRecv_some hrecv
    | none => exact ⟨h.sublist, fun _ => BoundedQueue.room_of_tryRecv_none hrecv⟩
  | .resend evicted =>
    unfold handle
    cases hsend : sub.queue.trySend value with
    | some queue => exact h.sent (by simp [Phase.stage]) hsend
    | none =>
      refine ⟨h.sublist, ?_⟩
      -- the place that was made is still free
      intro hpolicy
      have hroom : sub.queue.items.length < sub.queue.capacity := h.newest hpolicy
      rw [BoundedQueue.trySend_eq_none] at hsend
      omega
  | .count evicted rejected =>
    cases rejected with
    | false => exact h
    | true =>
      refine ⟨?_, fun hpolicy => absurd (h.newest hpolicy) (by simp [Phase.stage, Newest])⟩
      exact h.sublist.trans (by simp [Phase.stage, handle])

theorem handle_policy (value : α) (sub : Subscriber α) (phase : Phase) :
    (handle value sub phase).subscriber.policy = sub.policy ∧
      (handle value sub phase).subscriber.queue.capacity = sub.queue.capacity := by
  match phase with
  | .send =>
    unfold handle
    cases hsend : sub.queue.trySend value with
    | some queue => exact ⟨rfl, (BoundedQueue.trySend_eq_some hsend).2⟩
    | none => cases hpolicy : sub.policy <;> exact ⟨hpolicy, rfl⟩
  | .evict =>
    unfold handle
    cases hrecv : sub.queue.tryRecv with
    | some r => exact ⟨rfl, (BoundedQueue.tryRecv_eq_some hrecv).2⟩
    | none => exact ⟨rfl, rfl⟩
  | .resend evicted =>
    unfold handle
    cases hsend : sub.queue.trySend value with
    | some queue => exact ⟨rfl, (BoundedQueue.trySend_eq_some hsend).2⟩
    | none => exact ⟨rfl, rfl⟩
  | .count evicted rejected => exact ⟨rfl, rfl⟩

/-- The consumer takes the oldest value: received and queued together are the same. -/
theorem InOrder.recv {policy : OverflowPolicy} {capacity : ℕ} {completed received : List α}
    {value oldest : α} {stage : Stage} {queue queue' : BoundedQueue α}
    (h : InOrder policy capacity completed value stage received queue.items)
    (hrecv : queue.tryRecv = some (oldest, queue')) :
    InOrder policy capacity completed value stage (received ++ [oldest]) queue'.items := by
  obtain ⟨hsublist, hnewest⟩ := h
  rw [(BoundedQueue.tryRecv_eq_some hrecv).1] at hsublist hnewest
  refine ⟨by simpa using hsublist, ?_⟩
  intro hpolicy
  have := hnewest hpolicy
  cases stage with
  | before => simpa [Newest] using this
  | cleared => exact lt_of_le_of_lt (Nat.le_succ _) this
  | refused => exact this
  | done => simpa [Newest] using this

/-- What holds of a subscriber that no publish is concerned with. -/
structure Settled (policy : OverflowPolicy) (completed received queued : List α) : Prop where
  sublist : (received ++ queued).Sublist completed
  newest : policy = .dropOldest → (received ++ queued).getLast? = completed.getLast?

/-- A publish that has not reached the subscriber changed nothing. -/
theorem Settled.before {policy : OverflowPolicy} {completed received queued : List α}
    (h : Settled policy completed received queued) (capacity : ℕ) (value : α) :
    InOrder policy capacity completed value .before received queued :=
  ⟨by simpa using h.sublist, h.newest⟩

theorem InOrder.settled {policy : OverflowPolicy} {capacity : ℕ}
    {completed received queued : List α} {value : α}
    (h : InOrder policy capacity completed value .before received queued) :
    Settled policy completed received queued :=
  ⟨by simpa using h.sublist, h.newest⟩

/-- A publish that is done becomes the last completed one. -/
theorem InOrder.complete {policy : OverflowPolicy} {capacity : ℕ}
    {completed received queued : List α} {value : α}
    (h : InOrder policy capacity completed value .done received queued) :
    Settled policy (completed ++ [value]) received queued := by
  refine ⟨by simpa using h.sublist, ?_⟩
  intro hpolicy
  rw [List.getLast?_concat]
  exact h.newest hpolicy

theorem Settled.recv {policy : OverflowPolicy} {completed received : List α} {oldest : α}
    {queue queue' : BoundedQueue α} (h : Settled policy completed received queue.items)
    (hrecv : queue.tryRecv = some (oldest, queue')) :
    Settled policy completed (received ++ [oldest]) queue'.items :=
  ((h.before 0 oldest).recv hrecv).settled

/-! ## Section 2: The invariant -/

/-- The order of one subscriber's values, in a run whose publishes do not overlap. -/
structure Ordered (i : SubscriberId) (h : List (Ev α)) (s : State α) : Prop where
  alone : ∀ p q x y, s.publishers.get? p = some x → s.publishers.get? q = some y → p = q
  /-- Nothing happened for an id that is not in use yet. -/
  unseen : s.table.get? i = none → completed i h = [] ∧ received i h = []
  idle_begun : Quiet s → begun i h = completed i h
  idle : Quiet s → ∀ sub, s.table.get? i = some sub →
    Settled sub.policy (completed i h) (received i h) sub.queue.items
  busy_begun : ∀ p x, s.publishers.get? p = some x →
    begun i h = completed i h ++ if i ∈ x.handled ++ x.rest then [x.value] else []
  busy : ∀ p x, s.publishers.get? p = some x → ∀ sub, s.table.get? i = some sub →
    InOrder sub.policy sub.queue.capacity (completed i h) x.value (x.stage i) (received i h)
      sub.queue.items

theorem ordered_initialState (i : SubscriberId) : Ordered i [] (initialState : State α) := by
  refine ⟨?_, fun _ => ⟨rfl, rfl⟩, fun _ => rfl, ?_, ?_, ?_⟩
  · intro p q x y h
    cases h
  · intro _ sub h
    cases h
  · intro p x h
    cases h
  · intro p x h
    cases h

theorem proceed_stage {x : Publishing α} {i j : SubscriberId} {rest : List SubscriberId}
    (hrest : x.rest = i :: rest) (phase : Option Phase) (hnot : i ∉ x.handled) :
    (x.proceed i rest phase).stage j =
      if j = i then phase.elim .done Phase.stage else x.stage j := by
  cases phase with
  | none =>
    by_cases hj : j = i
    · simp [Publishing.proceed, Publishing.stage, hj]
    · simp only [Publishing.proceed, Publishing.stage, List.mem_append, List.mem_singleton, hj,
        or_false, hrest, List.head?_cons, Option.some.injEq, Ne.symm hj, if_false]
      split
      · rfl
      · exact ite_self _
  | some phase =>
    by_cases hj : j = i
    · simp [Publishing.proceed, Publishing.stage, hj, hrest, hnot]
    · simp [Publishing.proceed, Publishing.stage, hj, hrest, Ne.symm hj]

/-- A step that neither publishes nor touches the queue of `i`. -/
theorem Ordered.of_same {i : SubscriberId} {h : List (Ev α)} {s s' : State α} {e : Ev α}
    (ho : Ordered i h s) (hbegan : beganIn i e = none) (hcompleted : completedIn i e.output = none)
    (hreceived : receivedIn i e.output = none) (htable : s'.table.get? i = s.table.get? i)
    (hpublishers : s'.publishers = s.publishers) : Ordered i (h ++ [e]) s' := by
  refine ⟨?_, ?_, ?_, ?_, ?_, ?_⟩
  all_goals
    simp only [begun_append, completed_append, received_append, hbegan, hcompleted, hreceived,
      Option.toList_none, List.append_nil, Quiet, htable, hpublishers]
  · exact ho.alone
  · exact ho.unseen
  · exact ho.idle_begun
  · exact ho.idle
  · exact ho.busy_begun
  · exact ho.busy

/-! ## Section 3: Every step keeps the order -/

theorem Ordered.subscribe {i : SubscriberId} {h : List (Ev α)} {s : State α} {e : Ev α}
    (ho : Ordered i h s) (hwell : WellFormed s) (capacity : ℕ) (policy : OverflowPolicy)
    (hinput : e.input = .subscribe capacity policy) (houtput : e.output = .subscribed s.nextId) :
    Ordered i (h ++ [e]) (s.subscribe capacity policy) := by
  have hbegan : beganIn i e = none := by
    unfold beganIn
    rw [hinput]
  have hcompleted : completedIn i e.output = none := by rw [houtput]; rfl
  have hreceived : receivedIn i e.output = none := by rw [houtput]; rfl
  by_cases hi : i = s.nextId
  · -- the new subscriber: nothing was published to it
    have hnone : s.table.get? i = none := by
      rw [hi, ← Option.not_isSome_iff_eq_none, hwell.tabled]
      exact lt_irrefl _
    obtain ⟨hnothing, hnotyet⟩ := ho.unseen hnone
    have hempty : ∀ sub, (s.subscribe capacity policy).table.get? i = some sub →
        Settled sub.policy [] [] sub.queue.items := by
      intro sub hsub
      rw [hi] at hsub
      rw [show (s.subscribe capacity policy).table = s.table.insert s.nextId _ from rfl,
        BTreeMap.get?_insert_self] at hsub
      cases hsub
      exact ⟨List.Sublist.refl _, fun _ => rfl⟩
    refine ⟨ho.alone, ?_, ?_, ?_, ?_, ?_⟩
    all_goals
      simp only [begun_append, completed_append, received_append, hbegan, hcompleted, hreceived,
        Option.toList_none, List.append_nil]
    · intro _
      exact ⟨hnothing, hnotyet⟩
    · exact ho.idle_begun
    · rw [hnothing, hnotyet]
      exact fun _ => hempty
    · exact ho.busy_begun
    · rw [hnothing, hnotyet]
      intro p x hx sub hsub
      have hnot : i ∉ x.handled ++ x.rest := by
        intro hmem
        exact absurd (hwell.snapshot_fresh p x hx i hmem) (by rw [hi]; exact lt_irrefl _)
      have hstage : x.stage i = .before := by
        unfold Publishing.stage
        rw [if_neg (fun hmem => hnot (List.mem_append_left _ hmem)), if_neg]
        intro hhead
        exact hnot (List.mem_append_right _ (List.mem_of_head? hhead))
      rw [hstage]
      exact (hempty sub hsub).before _ _
  · refine ho.of_same hbegan hcompleted hreceived ?_ rfl
    show (s.table.insert s.nextId _).get? i = s.table.get? i
    rw [BTreeMap.get?_insert_ne _ hi]

theorem Ordered.publish {i : SubscriberId} {h : List (Ev α)} {s : State α} {p : PublisherId}
    {value : α} {e : Ev α} (ho : Ordered i h s) (hquiet : Quiet s)
    (hinput : e.input = .publish p value) (houtput : e.output = .published s.subscribers) :
    Ordered i (h ++ [e])
      { s with publishers := s.publishers.insert p ⟨value, [], s.subscribers, .send⟩ } := by
  have hbegan : beganIn i e = if i ∈ s.subscribers then some value else none := by
    unfold beganIn
    rw [hinput, houtput]
  have hcompleted : completedIn i e.output = none := by rw [houtput]; rfl
  have hreceived : receivedIn i e.output = none := by rw [houtput]; rfl
  -- the new publish is the only one
  have honly : ∀ q x, (s.publishers.insert p ⟨value, [], s.subscribers, .send⟩).get? q = some x →
      q = p ∧ x = ⟨value, [], s.subscribers, .send⟩ := by
    intro q x hx
    by_cases hq : q = p
    · rw [hq, BTreeMap.get?_insert_self] at hx
      exact ⟨hq, (Option.some.inj hx).symm⟩
    · rw [BTreeMap.get?_insert_ne _ hq, hquiet q] at hx
      cases hx
  have hbusy : ¬ Quiet { s with
      publishers := s.publishers.insert p ⟨value, [], s.subscribers, .send⟩ } := by
    intro hq
    have := hq p
    rw [show (_ : State α).publishers = s.publishers.insert p _ from rfl,
      BTreeMap.get?_insert_self] at this
    cases this
  refine ⟨?_, ?_, fun hq => absurd hq hbusy, fun hq => absurd hq hbusy, ?_, ?_⟩
  all_goals
    simp only [begun_append, completed_append, received_append, hbegan, hcompleted, hreceived,
      Option.toList_none, List.append_nil]
  · intro q r x y hx hy
    rw [(honly q x hx).1, (honly r y hy).1]
  · exact ho.unseen
  · intro q x hx
    obtain ⟨-, rfl⟩ := honly q x hx
    rw [ho.idle_begun hquiet]
    by_cases hi : i ∈ s.subscribers <;> simp [hi]
  · intro q x hx sub hsub
    obtain ⟨-, rfl⟩ := honly q x hx
    have hstage : Publishing.stage i ⟨value, [], s.subscribers, .send⟩ = .before := by
      simp [Publishing.stage, Phase.stage]
    rw [hstage]
    exact (ho.idle hquiet sub hsub).before _ _

theorem Ordered.complete {i : SubscriberId} {h : List (Ev α)} {s : State α} {p : PublisherId}
    {x : Publishing α} {e : Ev α} (ho : Ordered i h s) (hwell : WellFormed s)
    (hx : s.publishers.get? p = some x) (hrest : x.rest = []) (hinput : e.input = .advance p)
    (houtput : e.output = .completed x.value x.handled) :
    Ordered i (h ++ [e]) { s with publishers := s.publishers.erase p } := by
  have hbegan : beganIn i e = none := by
    unfold beganIn
    rw [hinput]
  have hcompleted : completedIn i e.output = if i ∈ x.handled then some x.value else none := by
    rw [houtput]
    rfl
  have hreceived : receivedIn i e.output = none := by rw [houtput]; rfl
  -- nothing else was in progress
  have hquiet : ∀ q y, (s.publishers.erase p).get? q ≠ some y := by
    intro q y hy
    by_cases hq : q = p
    · rw [hq, BTreeMap.get?_erase_self] at hy
      cases hy
    · rw [BTreeMap.get?_erase_ne _ hq] at hy
      exact hq (ho.alone q p y x hy hx)
  have hbegun := ho.busy_begun p x hx
  rw [hrest, List.append_nil] at hbegun
  refine ⟨?_, ?_, ?_, ?_, ?_, ?_⟩
  all_goals
    simp only [begun_append, completed_append, received_append, hbegan, hcompleted, hreceived,
      Option.toList_none, List.append_nil]
  · exact fun q r y z hy => absurd hy (hquiet q y)
  · intro hnone
    have hi : i ∉ x.handled := by
      intro hmem
      have := (hwell.tabled i).2
        (hwell.snapshot_fresh p x hx i (List.mem_append_left _ hmem))
      rw [hnone] at this
      cases this
    simpa [hi] using ho.unseen hnone
  · intro _
    rw [hbegun]
    by_cases hi : i ∈ x.handled <;> simp [hi]
  · intro _ sub hsub
    have hbusy := ho.busy p x hx sub hsub
    unfold Publishing.stage at hbusy
    by_cases hi : i ∈ x.handled
    · rw [if_pos hi] at hbusy
      simpa [hi] using hbusy.complete
    · rw [if_neg hi, hrest] at hbusy
      simpa [hi] using InOrder.settled hbusy
  · exact fun q y hy => absurd hy (hquiet q y)
  · exact fun q y hy => absurd hy (hquiet q y)

theorem Ordered.handle {i j : SubscriberId} {h : List (Ev α)} {s : State α} {p : PublisherId}
    {x : Publishing α} {rest : List SubscriberId} {sub : Subscriber α} {e : Ev α}
    (ho : Ordered i h s) (hx : s.publishers.get? p = some x) (hrest : x.rest = j :: rest)
    (hnot : j ∉ x.handled) (hsub : s.table.get? j = some sub) (hinput : e.input = .advance p)
    (houtput : e.output = .counted j (handle x.value sub x.phase).counted) :
    Ordered i (h ++ [e])
      { s with table := s.table.insert j (handle x.value sub x.phase).subscriber,
               publishers := s.publishers.insert p
                 (x.proceed j rest (handle x.value sub x.phase).phase) } := by
  have hbegan : beganIn i e = none := by
    unfold beganIn
    rw [hinput]
  have hcompleted : completedIn i e.output = none := by rw [houtput]; rfl
  have hreceived : receivedIn i e.output = none := by rw [houtput]; rfl
  set r := Broadcast.handle x.value sub x.phase with hr
  -- the publish in progress is still the only one
  have honly : ∀ q y, (s.publishers.insert p (x.proceed j rest r.phase)).get? q = some y →
      q = p ∧ y = x.proceed j rest r.phase := by
    intro q y hy
    by_cases hq : q = p
    · rw [hq, BTreeMap.get?_insert_self] at hy
      exact ⟨hq, (Option.some.inj hy).symm⟩
    · rw [BTreeMap.get?_insert_ne _ hq] at hy
      exact absurd (ho.alone q p y x hy hx) hq
  have hbusy : ∀ table, ¬ Quiet { s with
      table := table, publishers := s.publishers.insert p (x.proceed j rest r.phase) } := by
    intro table hq
    have hp : (s.publishers.insert p (x.proceed j rest r.phase)).get? p = none := hq p
    rw [BTreeMap.get?_insert_self] at hp
    cases hp
  refine ⟨?_, ?_, fun hq => absurd hq (hbusy _), fun hq => absurd hq (hbusy _), ?_, ?_⟩
  all_goals
    simp only [begun_append, completed_append, received_append, hbegan, hcompleted, hreceived,
      Option.toList_none, List.append_nil]
  · intro q q' y y' hy hy'
    rw [(honly q y hy).1, (honly q' y' hy').1]
  · intro hnone
    apply ho.unseen
    rw [← Option.not_isSome_iff_eq_none] at hnone ⊢
    rwa [get?_insert_isSome _ _ (by rw [hsub]; rfl)] at hnone
  · intro q y hy
    obtain ⟨-, rfl⟩ := honly q y hy
    rw [proceed_snapshot hrest]
    have hvalue : (x.proceed j rest r.phase).value = x.value := by cases r.phase <;> rfl
    rw [hvalue]
    exact ho.busy_begun p x hx
  · intro q y hy sub' hsub'
    obtain ⟨-, rfl⟩ := honly q y hy
    have hvalue : (x.proceed j rest r.phase).value = x.value := by cases r.phase <;> rfl
    rw [hvalue, proceed_stage hrest r.phase hnot]
    by_cases hi : i = j
    · subst hi
      rw [BTreeMap.get?_insert_self] at hsub'
      cases hsub'
      rw [if_pos rfl, (handle_policy _ _ _).1, (handle_policy _ _ _).2]
      apply handle_inOrder
      have hstage : x.stage i = x.phase.stage := by
        simp [Publishing.stage, hnot, hrest]
      rw [← hstage]
      exact ho.busy p x hx sub hsub
    · rw [BTreeMap.get?_insert_ne _ hi] at hsub'
      rw [if_neg hi]
      exact ho.busy p x hx sub' hsub'

theorem Ordered.resume {i : SubscriberId} {h : List (Ev α)} {s : State α} {p : PublisherId}
    {x : Publishing α} {e : Ev α} (ho : Ordered i h s) (hwell : WellFormed s)
    (hx : s.publishers.get? p = some x) (hinput : e.input = .advance p)
    (houtput : e.output = (s.resume p x).2) : Ordered i (h ++ [e]) (s.resume p x).1 := by
  unfold State.resume at houtput ⊢
  cases hrest : x.rest with
  | nil =>
    rw [hrest] at houtput
    exact ho.complete hwell hx hrest hinput houtput
  | cons j rest =>
    obtain ⟨sub, hsub, hnot⟩ := hwell.current hx hrest
    simp only [hrest, hsub] at houtput ⊢
    exact ho.handle hx hrest hnot hsub hinput houtput

theorem Ordered.tryRecv {i j : SubscriberId} {h : List (Ev α)} {s : State α} {e : Ev α}
    (ho : Ordered i h s) (hinput : e.input = .tryRecv j) (houtput : e.output = (s.tryRecv j).2) :
    Ordered i (h ++ [e]) (s.tryRecv j).1 := by
  have hbegan : beganIn i e = none := by
    unfold beganIn
    rw [hinput]
  have hsilent : e.output = .silent → Ordered i (h ++ [e]) s := by
    intro he
    exact ho.of_same hbegan (by rw [he]; rfl) (by rw [he]; rfl) rfl rfl
  unfold State.tryRecv at houtput ⊢
  cases hsub : s.table.get? j with
  | none =>
    rw [hsub] at houtput
    exact hsilent houtput
  | some sub =>
    simp only [hsub] at houtput ⊢
    cases hrecv : sub.queue.tryRecv with
    | none =>
      rw [hrecv] at houtput
      exact hsilent houtput
    | some r =>
      obtain ⟨value, queue⟩ := r
      simp only [hrecv] at houtput ⊢
      -- a value leaves the queue only of a subscriber that is held
      by_cases hheld : j ∈ s.subscribers
      · rw [if_pos hheld] at houtput ⊢
        have hcompleted : completedIn i e.output = none := by rw [houtput]; rfl
        by_cases hi : i = j
        · subst hi
          have hreceived : receivedIn i e.output = some value := by
            rw [houtput]
            exact if_pos rfl
          have hcapacity := (BoundedQueue.tryRecv_eq_some hrecv).2
          refine ⟨ho.alone, ?_, ?_, ?_, ?_, ?_⟩
          all_goals
            simp only [begun_append, completed_append, received_append, hbegan, hcompleted,
              hreceived, Option.toList_none, Option.toList_some, List.append_nil,
              BTreeMap.get?_insert_self]
          · exact fun hnone => by cases hnone
          · exact ho.idle_begun
          · rintro hquiet _ ⟨⟩
            exact (ho.idle hquiet sub hsub).recv hrecv
          · exact ho.busy_begun
          · rintro p x hx _ ⟨⟩
            show InOrder sub.policy queue.capacity _ _ _ _ queue.items
            rw [hcapacity]
            exact (ho.busy p x hx sub hsub).recv hrecv
        · have hreceived : receivedIn i e.output = none := by
            rw [houtput]
            exact if_neg (Ne.symm hi)
          refine ho.of_same hbegan hcompleted hreceived ?_ rfl
          exact BTreeMap.get?_insert_ne _ hi _
      · rw [if_neg hheld] at houtput ⊢
        exact hsilent houtput

/-- The step lemma. -/
theorem Ordered.step {i : SubscriberId} {h : List (Ev α)} {s : State α} {input : Input α}
    (ho : Ordered i h s) (hwell : WellFormed s)
    (hquiet : ∀ snapshot, (step s input).2 = .published snapshot → Quiet s) :
    Ordered i (h ++ [⟨s, input, (step s input).2, (step s input).1⟩]) (step s input).1 := by
  match input with
  | .subscribe capacity policy => exact ho.subscribe hwell capacity policy rfl rfl
  | .unsubscribe j => exact ho.of_same rfl rfl rfl rfl rfl
  | .publish p value =>
    change ∀ snapshot, (s.publish p value).2 = _ → _ at hquiet
    show Ordered i (h ++ [⟨s, _, (s.publish p value).2, _⟩]) (s.publish p value).1
    unfold State.publish at hquiet ⊢
    cases hidle : s.publishers.get? p with
    | some x => exact ho.of_same rfl rfl rfl rfl rfl
    | none =>
      rw [hidle] at hquiet
      exact ho.publish (hquiet _ rfl) rfl rfl
  | .advance p =>
    show Ordered i (h ++ [⟨s, _, (s.advance p).2, _⟩]) (s.advance p).1
    unfold State.advance
    cases hx : s.publishers.get? p with
    | none => exact ho.of_same rfl rfl rfl rfl rfl
    | some x => exact ho.resume hwell hx rfl rfl
  | .tryRecv j => exact ho.tryRecv rfl rfl

/-! ## Section 4: Every run -/

theorem Quiet.total {s : State α} (hquiet : Quiet s) (g : PublisherId → Publishing α → ℕ) :
    s.publishers.total g = 0 := by
  have hentries : s.publishers.entries = [] := by
    apply List.eq_nil_iff_forall_not_mem.2
    intro entry hmem
    have := (s.publishers.mem_entries).1 hmem
    rw [hquiet entry.1] at this
    cases this
  simp [BTreeMap.total, hentries]

/-- A publisher that is in the middle of a publish was before, or began one. -/
theorem step_publisher {s : State α} {input : Input α} {q : PublisherId} {x : Publishing α}
    (h : (step s input).1.publishers.get? q = some x) :
    (∃ y, s.publishers.get? q = some y) ∨ ∃ value, input = .publish q value := by
  match input with
  | .subscribe capacity policy => exact Or.inl ⟨x, h⟩
  | .unsubscribe i => exact Or.inl ⟨x, h⟩
  | .publish p value =>
    by_cases hq : q = p
    · exact Or.inr ⟨value, by rw [hq]⟩
    · change (s.publish p value).1.publishers.get? q = some x at h
      unfold State.publish at h
      split at h
      · exact Or.inl ⟨x, h⟩
      · exact Or.inl ⟨x, by rwa [BTreeMap.get?_insert_ne _ hq] at h⟩
  | .advance p =>
    change (s.advance p).1.publishers.get? q = some x at h
    unfold State.advance at h
    split at h
    · exact Or.inl ⟨x, h⟩
    · next y hy =>
      by_cases hq : q = p
      · exact Or.inl ⟨y, by rw [hq]; exact hy⟩
      · unfold State.resume at h
        split at h
        · exact Or.inl ⟨x, by rwa [BTreeMap.get?_erase_ne _ hq] at h⟩
        · split at h
          · exact Or.inl ⟨x, h⟩
          · exact Or.inl ⟨x, by rwa [BTreeMap.get?_insert_ne _ hq] at h⟩
  | .tryRecv i =>
    change (s.tryRecv i).1.publishers.get? q = some x at h
    unfold State.tryRecv at h
    split at h
    · exact Or.inl ⟨x, h⟩
    · split at h
      · exact Or.inl ⟨x, h⟩
      · split at h <;> exact Or.inl ⟨x, h⟩

/-- Only an idle publisher begins a publish. -/
theorem step_published {s : State α} {input : Input α} {snapshot : List SubscriberId}
    (h : (step s input).2 = .published snapshot) :
    ∃ p value, input = .publish p value ∧ s.publishers.get? p = none := by
  match input with
  | .publish p value =>
    change (s.publish p value).2 = _ at h
    unfold State.publish at h
    split at h
    · cases h
    · next hidle => exact ⟨p, value, rfl, hidle⟩
  | .subscribe capacity policy => cases h
  | .unsubscribe i => cases h
  | .advance p =>
    change (s.advance p).2 = _ at h
    unfold State.advance State.resume at h
    repeat' split at h
    all_goals cases h
  | .tryRecv i =>
    change (s.tryRecv i).2 = _ at h
    unfold State.tryRecv at h
    repeat' split at h
    all_goals cases h

/-- A single publisher does not overlap with itself. -/
theorem sequential_of_onlyPublisher {p : PublisherId} {inputs : List (Input α)}
    {h : List (Ev α)} {s : State α} (hrun : machine.run initialState inputs = some (s, h))
    (honly : OnlyPublisher p inputs) : Sequential h := by
  -- nobody but `p` is ever in the middle of a publish
  have hinv : (∀ q x, s.publishers.get? q = some x → q = p) ∧ Sequential h := by
    refine machine.run_inv (I := fun input => ∀ q value, input = .publish q value → q = p)
      (P := fun h s => (∀ q x, s.publishers.get? q = some x → q = p) ∧ Sequential h) ?_ ?_ ?_ hrun
    · refine ⟨?_, ?_⟩
      · intro q x hx
        cases hx
      · intro e he
        cases he
    · intro h s input s' output hP hinput hstep
      obtain ⟨hkeys, hseq⟩ := hP
      have hs' : (step s input).1 = s' := congrArg Prod.fst (Option.some.inj hstep)
      have houtput : (step s input).2 = output := congrArg Prod.snd (Option.some.inj hstep)
      subst hs' houtput
      refine ⟨?_, ?_⟩
      · intro q x hx
        rcases step_publisher hx with ⟨y, hy⟩ | ⟨value, hinput'⟩
        · exact hkeys q y hy
        · exact hinput q value hinput'
      · intro e he snapshot hpublished
        rcases List.mem_append.1 he with he | he
        · exact hseq e he snapshot hpublished
        · rw [List.mem_singleton] at he
          subst he
          obtain ⟨q, value, hinput', hidle⟩ := step_published hpublished
          obtain rfl := hinput q value hinput'
          intro r
          by_contra hbusy
          obtain ⟨x, hx⟩ := Option.ne_none_iff_exists'.1 hbusy
          rw [hkeys r x hx] at hx
          change s.publishers.get? q = some x at hx
          rw [hidle] at hx
          cases hx
    · rintro input hmem q value rfl
      exact honly q value hmem
  exact hinv.2

/-- What a subscriber received is part of what was published, in that order. -/
theorem Ordered.sublist {i : SubscriberId} {h : List (Ev α)} {s : State α}
    {sub : Subscriber α} (ho : Ordered i h s) (hsub : s.table.get? i = some sub) :
    (received i h).Sublist (begun i h) := by
  have hreceived := List.sublist_append_left (received i h) sub.queue.items
  by_cases hquiet : Quiet s
  · rw [ho.idle_begun hquiet]
    exact hreceived.trans (ho.idle hquiet sub hsub).sublist
  · obtain ⟨p, hp⟩ := not_forall.1 hquiet
    obtain ⟨x, hx⟩ := Option.ne_none_iff_exists'.1 hp
    rw [ho.busy_begun p x hx]
    refine hreceived.trans ((ho.busy p x hx sub hsub).sublist.trans ?_)
    apply List.Sublist.append (List.Sublist.refl _)
    split
    · next hdone =>
      -- a subscriber that is done belongs to the snapshot
      rw [if_pos]
      unfold Publishing.stage at hdone
      split at hdone
      · next hmem => exact List.mem_append_left _ hmem
      · split at hdone
        · next hhead => exact List.mem_append_right _ (List.mem_of_head? hhead)
        · cases hdone
    · exact List.nil_sublist _

/-- The accounts of a subscriber at the end of a run. -/
def Accounted (h : List (Ev α)) (s : State α) (i : SubscriberId) (sub : Subscriber α) : Prop :=
  sub.dropped = lost i h % 2 ^ 64 ∧
    (completed i h).length + s.credit i =
      (received i h).length + sub.queue.items.length + lost i h + s.debit i

/-- In every run, and for every subscriber: the values of completed publishes, and
    those the publishes in progress have sent already, are the values received,
    queued, dropped and evicted but not counted yet. If no two publishes overlap,
    the values are received in the order of publication, and under `DropOldest`
    the last one published is queued or received once no publish is in progress.
    Publishes of a single publisher do not overlap. -/
theorem run_accounting {inputs : List (Input α)} {h : List (Ev α)} {s : State α}
    (hrun : machine.run initialState inputs = some (s, h)) :
    (∀ i sub, s.table.get? i = some sub → Accounted h s i sub) ∧
    (Quiet s → ∀ i, s.credit i = 0 ∧ s.debit i = 0) ∧
    (Sequential h → ∀ i sub, s.table.get? i = some sub →
      (received i h).Sublist (begun i h) ∧
      (Quiet s → sub.policy = .dropOldest → ∀ value, (completed i h).getLast? = some value →
        value ∈ received i h ∨ value ∈ sub.queue.items)) ∧
    (∀ p, OnlyPublisher p inputs → Sequential h) := by
  have hinv : WellFormed s ∧ (∀ i, Balanced i h s) ∧ (Sequential h → ∀ i, Ordered i h s) := by
    refine machine.run_inv (I := fun _ => True) (P := fun h s => WellFormed s ∧
      (∀ i, Balanced i h s) ∧ (Sequential h → ∀ i, Ordered i h s)) ?_ ?_ (fun _ _ => trivial) hrun
    · exact ⟨wellFormed_initialState, balanced_initialState, fun _ => ordered_initialState⟩
    · intro h s input s' output hP _ hstep
      obtain ⟨hwell, hbalanced, hordered⟩ := hP
      have hs' : (step s input).1 = s' := congrArg Prod.fst (Option.some.inj hstep)
      have houtput : (step s input).2 = output := congrArg Prod.snd (Option.some.inj hstep)
      subst hs' houtput
      refine ⟨hwell.step input, fun i => (hbalanced i).step hwell, ?_⟩
      intro hseq i
      apply (hordered (fun e he => hseq e (List.mem_append_left _ he)) i).step hwell
      exact hseq ⟨s, input, (step s input).2, (step s input).1⟩ (by simp)
  obtain ⟨-, hbalanced, hordered⟩ := hinv
  refine ⟨?_, ?_, ?_, fun p honly => sequential_of_onlyPublisher hrun honly⟩
  · intro i sub hsub
    obtain ⟨hvalues, hdropped⟩ := hbalanced i
    rw [queued_of_get? hsub] at hvalues
    rw [droppedCount_of_get? hsub] at hdropped
    exact ⟨hdropped, hvalues⟩
  · exact fun hquiet i => ⟨hquiet.total _, hquiet.total _⟩
  · intro hseq i sub hsub
    refine ⟨(hordered hseq i).sublist hsub, ?_⟩
    intro hquiet hpolicy value hlast
    have hnewest := ((hordered hseq i).idle hquiet sub hsub).newest hpolicy
    rw [hlast] at hnewest
    exact List.mem_append.1 (List.mem_of_getLast? hnewest)

/-- Two publishers at a queue of one place: the second one takes it between the eviction and the
    second `try_send` of the first one. -/
def twoPublishers : List (Input ℕ) :=
  [.subscribe 1 .dropOldest, .publish 0 10, .advance 0, .advance 0, .publish 0 20, .advance 0,
    .advance 0, .publish 1 30, .advance 1]

/-- One publisher, whose second value evicts the first. -/
def onePublisher : List (Input ℕ) :=
  [.subscribe 1 .dropOldest, .publish 0 10, .advance 0, .advance 0, .publish 0 20, .advance 0,
    .advance 0, .advance 0, .advance 0, .advance 0]

/-- The accounts of two publishers in the middle of their publishes; and those of a single
    publisher that is done, whose last value is queued. -/
theorem run_accounting_overlap :
    (∃ s h, machine.run initialState twoPublishers = some (s, h) ∧
      (∀ p < 2, (s.publishers.get? p).isSome) ∧
      ∃ sub, s.table.get? 0 = some sub ∧ Accounted h s 0 sub) ∧
    ∃ s h, machine.run initialState onePublisher = some (s, h) ∧ Quiet s ∧ lost 0 h = 1 ∧
      ∃ sub, s.table.get? 0 = some sub ∧ (s.credit 0 = 0 ∧ s.debit 0 = 0) ∧
        Accounted h s 0 sub ∧ (received 0 h).Sublist (begun 0 h) ∧
        (20 ∈ received 0 h ∨ 20 ∈ sub.queue.items) := by
  refine ⟨⟨_, _, rfl, ?_, _, rfl, ?_⟩, _, _, rfl, ?_, ?_, _, rfl, ?_⟩
  · decide
  · exact (@run_accounting ℕ twoPublishers _ _ rfl).1 0 _ rfl
  · exact fun _ => rfl
  · decide
  · have honly : OnlyPublisher 0 onePublisher := by
      intro q value hmem
      simp only [onePublisher, List.mem_cons, reduceCtorEq, List.not_mem_nil, false_or,
        or_false] at hmem
      obtain heq | heq := hmem <;> cases heq <;> rfl
    have hlaw := @run_accounting ℕ onePublisher _ _ rfl
    have hordered := hlaw.2.2.1 (hlaw.2.2.2 0 honly) 0 _ rfl
    exact ⟨hlaw.2.1 (fun _ => rfl) 0, hlaw.1 0 _ rfl, hordered.1,
      hordered.2 (fun _ => rfl) rfl 20 rfl⟩

/-- The second publisher takes the place that the first one made, and the first one
    completes last: its value is neither queued nor received. And one publisher
    alone, between the eviction and the second `try_send`, has made the last
    completed value disappear without counting it. -/
theorem lastCompleted_lost :
    (∃ s h, machine.run initialState
      [.subscribe 1 .dropOldest, .publish 0 10, .advance 0, .advance 0, .publish 0 20,
       .advance 0, .advance 0, .publish 1 30, .advance 1, .advance 1, .advance 0, .advance 0,
       .advance 0] = some (s, h) ∧
      Quiet s ∧ (completed 0 h).getLast? = some 20 ∧ 20 ∉ received 0 h ∧ 20 ∉ s.queued 0) ∧
    ∃ s h, machine.run initialState
      [.subscribe 1 .dropOldest, .publish 0 10, .advance 0, .advance 0, .publish 0 20,
       .advance 0, .advance 0] = some (s, h) ∧
      completed 0 h = [10] ∧ received 0 h = [] ∧ s.queued 0 = [] ∧ s.droppedCount 0 = 0 := by
  refine ⟨⟨_, _, rfl, fun _ => rfl, ?_, ?_, ?_⟩, _, _, rfl, ?_⟩
  · decide
  · decide
  · decide
  · decide

end Broadcast
