import EzSdr.Broadcast.Model

/-! # Accounting of Broadcast Values

    Every value a completed publish sent to a subscriber was received, is still
    queued or was counted as dropped. While publishes are in progress the two
    sides differ by what these have sent already, and by what they have evicted
    and not counted yet. -/

namespace Broadcast

variable {α : Type}

/-- One executed step. -/
abbrev Ev (α : Type) := Machine.Event (State α) (Input α) (Output α)

/-! ## Section 1: What a run did for one subscriber -/

/-- The value a step began to publish to `i`. -/
def beganIn (i : SubscriberId) (e : Ev α) : Option α :=
  match e.input, e.output with
  | .publish _ value, .published snapshot => if i ∈ snapshot then some value else none
  | _, _ => none

/-- The value a step completed publishing to `i`. -/
def completedIn (i : SubscriberId) : Output α → Option α
  | .completed value snapshot => if i ∈ snapshot then some value else none
  | _ => none

/-- The value `i` received in a step. -/
def receivedIn (i : SubscriberId) : Output α → Option α
  | .received j value => if j = i then some value else none
  | _ => none

/-- What a step added to the drop counter of `i`. -/
def lostIn (i : SubscriberId) : Output α → ℕ
  | .counted j n => if j = i then n else 0
  | _ => 0

/-- The values published since `i` subscribed, in the order in which the publishes began. -/
def begun (i : SubscriberId) (h : List (Ev α)) : List α := h.filterMap (beganIn i)

/-- Those whose publish has completed, in the order of completion. -/
def completed (i : SubscriberId) (h : List (Ev α)) : List α :=
  h.filterMap fun e => completedIn i e.output

def received (i : SubscriberId) (h : List (Ev α)) : List α :=
  h.filterMap fun e => receivedIn i e.output

def lost (i : SubscriberId) (h : List (Ev α)) : ℕ := (h.map fun e => lostIn i e.output).sum

theorem begun_append (i : SubscriberId) (h : List (Ev α)) (e : Ev α) :
    begun i (h ++ [e]) = begun i h ++ (beganIn i e).toList := by
  cases he : beganIn i e <;> simp [begun, he]

theorem completed_append (i : SubscriberId) (h : List (Ev α)) (e : Ev α) :
    completed i (h ++ [e]) = completed i h ++ (completedIn i e.output).toList := by
  cases he : completedIn i e.output <;> simp [completed, he]

theorem received_append (i : SubscriberId) (h : List (Ev α)) (e : Ev α) :
    received i (h ++ [e]) = received i h ++ (receivedIn i e.output).toList := by
  cases he : receivedIn i e.output <;> simp [received, he]

theorem lost_append (i : SubscriberId) (h : List (Ev α)) (e : Ev α) :
    lost i (h ++ [e]) = lost i h + lostIn i e.output := by
  simp [lost]

/-- The queue of `i`; it has none before it subscribes. -/
def State.queued (s : State α) (i : SubscriberId) : List α :=
  match s.table.get? i with
  | none => []
  | some sub => sub.queue.items

/-- The drop counter of `i`. -/
def State.droppedCount (s : State α) (i : SubscriberId) : ℕ :=
  match s.table.get? i with
  | none => 0
  | some sub => sub.dropped

/-! ## Section 2: Publishes in progress -/

/-- Values the handling has sent already. -/
def Phase.sent : Phase → ℕ
  | .count _ rejected => (!rejected).toNat
  | _ => 0

/-- Values it has evicted and not counted yet. -/
def Phase.evicted : Phase → ℕ
  | .resend evicted => evicted.toNat
  | .count evicted _ => evicted.toNat
  | _ => 0

/-- A publish in progress counts for `i` once it has sent its value, and when it is done. -/
def Publishing.credit (i : SubscriberId) (x : Publishing α) : ℕ :=
  if i ∈ x.handled then 1 else if x.rest.head? = some i then x.phase.sent else 0

/-- Values of `i` that a publish in progress has evicted and not counted yet. -/
def Publishing.debit (i : SubscriberId) (x : Publishing α) : ℕ :=
  if x.rest.head? = some i then x.phase.evicted else 0

/-- Publishes in progress that have sent their value to `i`, or are done with it. -/
def State.credit (s : State α) (i : SubscriberId) : ℕ :=
  s.publishers.total fun _ x => x.credit i

/-- Values of `i` that are evicted and not counted yet. -/
def State.debit (s : State α) (i : SubscriberId) : ℕ :=
  s.publishers.total fun _ x => x.debit i

/-- One step of the handling: what it sends, evicts and counts is balanced. -/
theorem handle_balanced (value : α) (sub : Subscriber α) (phase : Phase) :
    let r := handle value sub phase
    sub.queue.items.length + phase.evicted + (r.phase.elim 1 Phase.sent) =
      r.subscriber.queue.items.length + (r.phase.elim 0 Phase.evicted) + r.counted +
        phase.sent := by
  cases phase with
  | send =>
    unfold handle
    cases hsend : sub.queue.trySend value with
    | some queue => simp [(BoundedQueue.trySend_eq_some hsend).1, Phase.sent, Phase.evicted]
    | none =>
      cases sub.policy <;> simp [Phase.sent, Phase.evicted]
  | evict =>
    unfold handle
    cases hrecv : sub.queue.tryRecv with
    | some r => simp [(BoundedQueue.tryRecv_eq_some hrecv).1, Phase.sent, Phase.evicted]
    | none => simp [Phase.sent, Phase.evicted]
  | resend evicted =>
    unfold handle
    cases hsend : sub.queue.trySend value with
    | some queue =>
      simp [(BoundedQueue.trySend_eq_some hsend).1, Phase.sent, Phase.evicted]
      omega
    | none => simp [Phase.sent, Phase.evicted]
  | count evicted rejected =>
    cases rejected
    · simp [handle, Phase.sent, Phase.evicted]
    · simp [handle, Phase.sent, Phase.evicted]
      omega

theorem handle_dropped (value : α) (sub : Subscriber α) (phase : Phase) {n : ℕ}
    (h : sub.dropped = n % 2 ^ 64) :
    (handle value sub phase).subscriber.dropped =
      (n + (handle value sub phase).counted) % 2 ^ 64 := by
  cases phase with
  | send =>
    unfold handle
    cases sub.queue.trySend value with
    | some queue => exact h
    | none => cases hpolicy : sub.policy <;> simpa [hpolicy] using h
  | evict =>
    unfold handle
    cases sub.queue.tryRecv <;> exact h
  | resend evicted =>
    unfold handle
    cases sub.queue.trySend value <;> exact h
  | count evicted rejected =>
    show (sub.dropped + _) % 2 ^ 64 = _
    rw [h, Nat.mod_add_mod]
    rfl

/-! ## Section 3: The shape of a state -/

/-- Ids are handed out once, and every id in use has a queue. -/
structure WellFormed (s : State α) : Prop where
  fresh : ∀ i ∈ s.subscribers, i < s.nextId
  nodup : s.subscribers.Nodup
  tabled : ∀ i, (s.table.get? i).isSome = true ↔ i < s.nextId
  snapshot_nodup : ∀ p x, s.publishers.get? p = some x → (x.handled ++ x.rest).Nodup
  snapshot_fresh : ∀ p x, s.publishers.get? p = some x →
    ∀ i ∈ x.handled ++ x.rest, i < s.nextId

theorem wellFormed_initialState : WellFormed (initialState : State α) := by
  refine ⟨by simp [initialState], by simp [initialState], ?_, ?_, ?_⟩
  · intro i
    simp [initialState]
  · intro p x h
    cases h
  · intro p x h
    cases h

/-- A publish that goes on keeps its snapshot. -/
theorem proceed_snapshot {x : Publishing α} {i : SubscriberId} {rest : List SubscriberId}
    (hrest : x.rest = i :: rest) (phase : Option Phase) :
    (x.proceed i rest phase).handled ++ (x.proceed i rest phase).rest = x.handled ++ x.rest := by
  cases phase with
  | none => simp [Publishing.proceed, hrest]
  | some phase => rfl

theorem get?_insert_isSome {κ ν : Type} [LinearOrder κ] (m : BTreeMap κ ν) {k j : κ} (v : ν)
    (hk : (m.get? k).isSome = true) :
    ((m.insert k v).get? j).isSome = (m.get? j).isSome := by
  by_cases hj : j = k
  · rw [hj, BTreeMap.get?_insert_self, hk]
    rfl
  · rw [BTreeMap.get?_insert_ne _ hj]

theorem WellFormed.resume {s : State α} {p : PublisherId} {x : Publishing α}
    (h : WellFormed s) (hx : s.publishers.get? p = some x) : WellFormed (s.resume p x).1 := by
  unfold State.resume
  split
  · -- the publish completes
    refine ⟨h.fresh, h.nodup, h.tabled, ?_, ?_⟩
    all_goals
      intro q y hy
      have hq : q ≠ p := by
        rintro rfl
        rw [BTreeMap.get?_erase_self] at hy
        cases hy
      rw [BTreeMap.get?_erase_ne _ hq] at hy
    · exact h.snapshot_nodup q y hy
    · exact h.snapshot_fresh q y hy
  · next i rest hrest =>
    split
    · exact h
    · next sub hsub =>
      have hkept : ∀ q y, (s.publishers.insert p
          (x.proceed i rest (handle x.value sub x.phase).phase)).get? q = some y →
          ∃ q' y', s.publishers.get? q' = some y' ∧
            y.handled ++ y.rest = y'.handled ++ y'.rest := by
        intro q y hy
        by_cases hq : q = p
        · rw [hq, BTreeMap.get?_insert_self] at hy
          cases hy
          exact ⟨p, x, hx, proceed_snapshot hrest _⟩
        · rw [BTreeMap.get?_insert_ne _ hq] at hy
          exact ⟨q, y, hy, rfl⟩
      refine ⟨h.fresh, h.nodup, ?_, ?_, ?_⟩
      · intro j
        rw [← h.tabled j]
        show ((s.table.insert i _).get? j).isSome = true ↔ _
        rw [get?_insert_isSome _ _ (by rw [hsub]; rfl)]
      · intro q y hy
        obtain ⟨q', y', hy', heq⟩ := hkept q y hy
        rw [heq]
        exact h.snapshot_nodup q' y' hy'
      · intro q y hy
        obtain ⟨q', y', hy', heq⟩ := hkept q y hy
        rw [heq]
        exact h.snapshot_fresh q' y' hy'

theorem WellFormed.tryRecv {s : State α} (h : WellFormed s) (i : SubscriberId) :
    WellFormed (s.tryRecv i).1 := by
  unfold State.tryRecv
  split
  · exact h
  · next sub hsub =>
    split
    · exact h
    · split
      · refine ⟨h.fresh, h.nodup, ?_, h.snapshot_nodup, h.snapshot_fresh⟩
        intro j
        rw [← h.tabled j]
        show ((s.table.insert i _).get? j).isSome = true ↔ _
        rw [get?_insert_isSome _ _ (by rw [hsub]; rfl)]
      · exact h

theorem WellFormed.subscribe {s : State α} (h : WellFormed s) (capacity : ℕ)
    (policy : OverflowPolicy) : WellFormed (s.subscribe capacity policy) := by
  refine ⟨?_, ?_, ?_, h.snapshot_nodup, ?_⟩
  · intro i hi
    rcases List.mem_append.1 hi with hi | hi
    · exact (h.fresh i hi).trans (Nat.lt_succ_self _)
    · rw [List.mem_singleton.1 hi]
      exact Nat.lt_succ_self _
  · show (s.subscribers ++ [s.nextId]).Nodup
    rw [List.nodup_append]
    refine ⟨h.nodup, List.nodup_singleton _, ?_⟩
    intro i hi j hj hij
    rw [List.mem_singleton.1 hj] at hij
    exact (h.fresh i hi).ne hij
  · intro i
    show ((s.table.insert s.nextId _).get? i).isSome = true ↔ i < s.nextId + 1
    by_cases hi : i = s.nextId
    · rw [hi, BTreeMap.get?_insert_self]
      simp
    · rw [BTreeMap.get?_insert_ne _ hi, h.tabled i]
      constructor
      · exact fun hlt => hlt.trans (Nat.lt_succ_self _)
      · exact fun hlt => lt_of_le_of_ne (Nat.le_of_lt_succ hlt) hi
  · intro p x hx i hi
    exact (h.snapshot_fresh p x hx i hi).trans (Nat.lt_succ_self _)

theorem WellFormed.publish {s : State α} (h : WellFormed s) (p : PublisherId) (value : α) :
    WellFormed (s.publish p value).1 := by
  unfold State.publish
  split
  · exact h
  · -- the snapshot is the list of subscribers
    refine ⟨h.fresh, h.nodup, h.tabled, ?_, ?_⟩
    all_goals
      intro q y hy
      by_cases hq : q = p
    · rw [hq, BTreeMap.get?_insert_self] at hy
      cases hy
      exact h.nodup
    · rw [BTreeMap.get?_insert_ne _ hq] at hy
      exact h.snapshot_nodup q y hy
    · rw [hq, BTreeMap.get?_insert_self] at hy
      cases hy
      exact h.fresh
    · rw [BTreeMap.get?_insert_ne _ hq] at hy
      exact h.snapshot_fresh q y hy

theorem WellFormed.step {s : State α} (h : WellFormed s) (input : Input α) :
    WellFormed (step s input).1 := by
  match input with
  | .subscribe capacity policy => exact h.subscribe capacity policy
  | .unsubscribe i =>
    refine ⟨?_, h.nodup.filter _, h.tabled, h.snapshot_nodup, h.snapshot_fresh⟩
    intro j hj
    exact h.fresh j (List.mem_of_mem_filter hj)
  | .publish p value => exact h.publish p value
  | .advance p =>
    show WellFormed (s.advance p).1
    unfold State.advance
    split
    · exact h
    · next x hx => exact h.resume hx
  | .tryRecv i => exact h.tryRecv i

/-- The subscriber a publish is handling has a queue, and is handled once. -/
theorem WellFormed.current {s : State α} {p : PublisherId} {x : Publishing α} {i : SubscriberId}
    {rest : List SubscriberId} (h : WellFormed s) (hx : s.publishers.get? p = some x)
    (hrest : x.rest = i :: rest) :
    ∃ sub, s.table.get? i = some sub ∧ i ∉ x.handled := by
  have hnodup := h.snapshot_nodup p x hx
  have hfresh := h.snapshot_fresh p x hx i (by simp [hrest])
  obtain ⟨sub, hsub⟩ := Option.isSome_iff_exists.1 ((h.tabled i).2 hfresh)
  refine ⟨sub, hsub, ?_⟩
  rw [hrest, List.nodup_append] at hnodup
  intro hi
  exact hnodup.2.2 i hi i List.mem_cons_self rfl

/-! ## Section 4: The balance -/

/-- What a run did for `i` is balanced by what the state holds. -/
structure Balanced (i : SubscriberId) (h : List (Ev α)) (s : State α) : Prop where
  values : (completed i h).length + s.credit i =
    (received i h).length + (s.queued i).length + lost i h + s.debit i
  dropped : s.droppedCount i = lost i h % 2 ^ 64

theorem balanced_initialState (i : SubscriberId) : Balanced i [] (initialState : State α) := by
  refine ⟨?_, rfl⟩
  simp [completed, received, lost, State.queued, State.credit, State.debit, initialState]

/-- A step that only concerns the list of subscribers. -/
theorem Balanced.of_same {i : SubscriberId} {h : List (Ev α)} {s s' : State α} {e : Ev α}
    (hb : Balanced i h s) (hcompleted : completedIn i e.output = none)
    (hreceived : receivedIn i e.output = none) (hlost : lostIn i e.output = 0)
    (hqueued : s'.queued i = s.queued i) (hdropped : s'.droppedCount i = s.droppedCount i)
    (hcredit : s'.credit i = s.credit i) (hdebit : s'.debit i = s.debit i) :
    Balanced i (h ++ [e]) s' := by
  refine ⟨?_, ?_⟩
  · rw [completed_append, received_append, lost_append, hcompleted, hreceived, hlost, hqueued,
      hcredit, hdebit]
    simpa using hb.values
  · rw [lost_append, hlost, hdropped]
    exact hb.dropped

theorem proceed_credit {x : Publishing α} {i j : SubscriberId} {rest : List SubscriberId}
    (hrest : x.rest = i :: rest) (phase : Option Phase) (hnot : i ∉ x.handled) :
    (x.proceed i rest phase).credit j =
      if j = i then phase.elim 1 Phase.sent else x.credit j := by
  cases phase with
  | none =>
    by_cases hj : j = i
    · simp [Publishing.proceed, Publishing.credit, hj]
    · -- the next subscriber is at the beginning of its handling
      simp only [Publishing.proceed, Publishing.credit, List.mem_append, List.mem_singleton, hj,
        or_false, hrest, List.head?_cons, Option.some.injEq, Ne.symm hj, if_false]
      split
      · rfl
      · exact ite_self 0
  | some phase =>
    by_cases hj : j = i
    · simp [Publishing.proceed, Publishing.credit, hj, hrest, hnot]
    · simp [Publishing.proceed, Publishing.credit, hj, hrest, Ne.symm hj]

theorem proceed_debit {x : Publishing α} {i j : SubscriberId} {rest : List SubscriberId}
    (hrest : x.rest = i :: rest) (phase : Option Phase) :
    (x.proceed i rest phase).debit j =
      if j = i then phase.elim 0 Phase.evicted else x.debit j := by
  cases phase with
  | none =>
    by_cases hj : j = i
    · simp [Publishing.proceed, Publishing.debit, hj, Phase.evicted]
    · simp only [Publishing.proceed, Publishing.debit, hj, hrest, List.head?_cons,
        Option.some.injEq, Ne.symm hj, if_false]
      exact ite_self 0
  | some phase =>
    by_cases hj : j = i
    · simp [Publishing.proceed, Publishing.debit, hj, hrest]
    · simp [Publishing.proceed, Publishing.debit, hj, hrest, Ne.symm hj]

/-- The queues after one of them changed. -/
theorem queued_of_insert {s s' : State α} {i : SubscriberId} {sub : Subscriber α}
    (h : s'.table = s.table.insert i sub) (j : SubscriberId) :
    s'.queued j = if j = i then sub.queue.items else s.queued j := by
  unfold State.queued
  by_cases hj : j = i
  · rw [h, hj, BTreeMap.get?_insert_self, if_pos rfl]
  · rw [h, BTreeMap.get?_insert_ne _ hj, if_neg hj]

theorem droppedCount_of_insert {s s' : State α} {i : SubscriberId} {sub : Subscriber α}
    (h : s'.table = s.table.insert i sub) (j : SubscriberId) :
    s'.droppedCount j = if j = i then sub.dropped else s.droppedCount j := by
  unfold State.droppedCount
  by_cases hj : j = i
  · rw [h, hj, BTreeMap.get?_insert_self, if_pos rfl]
  · rw [h, BTreeMap.get?_insert_ne _ hj, if_neg hj]

theorem queued_of_get? {s : State α} {i : SubscriberId} {sub : Subscriber α}
    (h : s.table.get? i = some sub) : s.queued i = sub.queue.items := by
  unfold State.queued
  rw [h]

theorem droppedCount_of_get? {s : State α} {i : SubscriberId} {sub : Subscriber α}
    (h : s.table.get? i = some sub) : s.droppedCount i = sub.dropped := by
  unfold State.droppedCount
  rw [h]

/-- A publish completes: what it had sent now belongs to a completed publish. -/
theorem Balanced.complete {j : SubscriberId} {h : List (Ev α)} {s : State α} {p : PublisherId}
    {x : Publishing α} {e : Ev α} (hb : Balanced j h s) (hx : s.publishers.get? p = some x)
    (hrest : x.rest = []) (houtput : e.output = .completed x.value x.handled) :
    Balanced j (h ++ [e]) { s with publishers := s.publishers.erase p } := by
  have hcredit := s.publishers.total_erase (fun _ x => x.credit j) p
  have hdebit := s.publishers.total_erase (fun _ x => x.debit j) p
  rw [hx, BTreeMap.share_some] at hcredit hdebit
  simp only [Publishing.credit, Publishing.debit, hrest, List.head?_nil, reduceCtorEq,
    if_false] at hcredit hdebit
  have hvalues := hb.values
  unfold State.credit State.debit at hvalues
  refine ⟨?_, ?_⟩
  · rw [completed_append, received_append, lost_append, houtput]
    show _ + (s.publishers.erase p).total _ = _ + (s.queued j).length + _ +
      (s.publishers.erase p).total _
    by_cases hj : j ∈ x.handled
    · simp only [completedIn, receivedIn, lostIn, hj, if_true, Option.toList_some,
        Option.toList_none, List.append_nil, List.length_append, List.length_singleton] at hcredit ⊢
      simp only [Publishing.credit, Publishing.debit] at hvalues hcredit hdebit ⊢
      omega
    · simp only [completedIn, receivedIn, lostIn, hj, if_false, Option.toList_none,
        List.append_nil] at hcredit ⊢
      simp only [Publishing.credit, Publishing.debit] at hvalues hcredit hdebit ⊢
      omega
  · rw [lost_append, houtput]
    exact hb.dropped

/-- The handling of a subscriber makes one step. -/
theorem Balanced.handle {j i : SubscriberId} {h : List (Ev α)} {s : State α} {p : PublisherId}
    {x : Publishing α} {rest : List SubscriberId} {sub : Subscriber α} {e : Ev α}
    (hb : Balanced j h s) (hx : s.publishers.get? p = some x) (hrest : x.rest = i :: rest)
    (hnot : i ∉ x.handled) (hsub : s.table.get? i = some sub)
    (houtput : e.output = .counted i (handle x.value sub x.phase).counted) :
    Balanced j (h ++ [e])
      { s with table := s.table.insert i (handle x.value sub x.phase).subscriber,
               publishers := s.publishers.insert p
                 (x.proceed i rest (handle x.value sub x.phase).phase) } := by
  set r := Broadcast.handle x.value sub x.phase with hr
  have hcredit := s.publishers.total_insert (fun _ x => x.credit j) p (x.proceed i rest r.phase)
  have hdebit := s.publishers.total_insert (fun _ x => x.debit j) p (x.proceed i rest r.phase)
  rw [hx, BTreeMap.share_some] at hcredit hdebit
  rw [proceed_credit hrest r.phase hnot] at hcredit
  rw [proceed_debit hrest r.phase] at hdebit
  have hvalues := hb.values
  unfold State.credit State.debit at hvalues
  refine ⟨?_, ?_⟩
  · rw [completed_append, received_append, lost_append, houtput, queued_of_insert rfl]
    show _ + (s.publishers.insert p _).total _ = _ + _ + _ + (s.publishers.insert p _).total _
    by_cases hj : j = i
    · -- the subscriber itself: what it lost in one place it has in another
      subst hj
      have hcredit₀ : x.credit j = x.phase.sent := by
        simp [Publishing.credit, hnot, hrest]
      have hdebit₀ : x.debit j = x.phase.evicted := by
        simp [Publishing.debit, hrest]
      have hbalanced : sub.queue.items.length + x.phase.evicted + r.phase.elim 1 Phase.sent =
          r.subscriber.queue.items.length + r.phase.elim 0 Phase.evicted + r.counted +
            x.phase.sent := handle_balanced x.value sub x.phase
      rw [queued_of_get? hsub] at hvalues
      simp only [if_true, completedIn, receivedIn, lostIn, Option.toList_none,
        List.append_nil] at hcredit hdebit ⊢
      omega
    · simp only [hj, Ne.symm hj, if_false, completedIn, receivedIn, lostIn, Option.toList_none,
        List.append_nil] at hcredit hdebit ⊢
      omega
  · rw [lost_append, houtput, droppedCount_of_insert rfl]
    by_cases hj : j = i
    · subst hj
      have hdropped := hb.dropped
      rw [droppedCount_of_get? hsub] at hdropped
      simpa [lostIn] using handle_dropped x.value sub x.phase hdropped
    · simpa [hj, Ne.symm hj, lostIn] using hb.dropped

theorem Balanced.resume {j : SubscriberId} {h : List (Ev α)} {s : State α} {p : PublisherId}
    {x : Publishing α} {e : Ev α} (hb : Balanced j h s) (hwell : WellFormed s)
    (hx : s.publishers.get? p = some x) (houtput : e.output = (s.resume p x).2) :
    Balanced j (h ++ [e]) (s.resume p x).1 := by
  unfold State.resume at houtput ⊢
  cases hrest : x.rest with
  | nil =>
    rw [hrest] at houtput
    exact hb.complete hx hrest houtput
  | cons i rest =>
    obtain ⟨sub, hsub, hnot⟩ := hwell.current hx hrest
    simp only [hrest, hsub] at houtput ⊢
    exact hb.handle hx hrest hnot hsub houtput

theorem Balanced.tryRecv {j i : SubscriberId} {h : List (Ev α)} {s : State α} {e : Ev α}
    (hb : Balanced j h s) (houtput : e.output = (s.tryRecv i).2) :
    Balanced j (h ++ [e]) (s.tryRecv i).1 := by
  unfold State.tryRecv at houtput ⊢
  have hsilent : e.output = .silent → Balanced j (h ++ [e]) s := by
    intro he
    apply hb.of_same <;> first | rfl | (rw [he]; rfl)
  cases hsub : s.table.get? i with
  | none =>
    rw [hsub] at houtput
    exact hsilent houtput
  | some sub =>
    simp only [hsub] at houtput ⊢
    cases hrecv : sub.queue.tryRecv with
    | none =>
      rw [hrecv] at houtput
      exact hsilent houtput
    | some r =>
      obtain ⟨value, queue⟩ := r
      simp only [hrecv] at houtput ⊢
      split
      · next hheld =>
        rw [if_pos hheld] at houtput
        have hvalues := hb.values
        refine ⟨?_, ?_⟩
        · rw [completed_append, received_append, lost_append, houtput, queued_of_insert rfl]
          show _ + s.credit j = _ + _ + _ + s.debit j
          -- what is received leaves the queue; the values of the others stay where they are
          by_cases hj : j = i
          · subst hj
            rw [queued_of_get? hsub, (BoundedQueue.tryRecv_eq_some hrecv).1] at hvalues
            simp only [completedIn, receivedIn, lostIn, if_true, Option.toList_none,
              Option.toList_some, List.append_nil, List.length_append, List.length_cons,
              List.length_nil] at hvalues ⊢
            omega
          · simp only [completedIn, receivedIn, lostIn, hj, Ne.symm hj, if_false,
              Option.toList_none, List.append_nil]
            omega
        · rw [lost_append, houtput, droppedCount_of_insert rfl]
          by_cases hj : j = i
          · subst hj
            have hdropped := hb.dropped
            rw [droppedCount_of_get? hsub] at hdropped
            simpa [lostIn] using hdropped
          · simpa [hj, lostIn] using hb.dropped
      · next hheld =>
        rw [if_neg hheld] at houtput
        exact hsilent houtput

/-- The step lemma. -/
theorem Balanced.step {j : SubscriberId} {h : List (Ev α)} {s : State α} {input : Input α}
    (hb : Balanced j h s) (hwell : WellFormed s) :
    Balanced j (h ++ [⟨s, input, (step s input).2, (step s input).1⟩]) (step s input).1 := by
  match input with
  | .subscribe capacity policy =>
    -- the new id had no queue, and now has an empty one
    have hnone : s.table.get? s.nextId = none := by
      rw [← Option.not_isSome_iff_eq_none, hwell.tabled]
      exact lt_irrefl _
    refine hb.of_same rfl rfl rfl ?_ ?_ rfl rfl
    · rw [queued_of_insert (s := s) rfl]
      split
      · next hj => simp [State.queued, hj, hnone, BoundedQueue.empty]
      · rfl
    · rw [droppedCount_of_insert (s := s) rfl]
      split
      · next hj => simp [State.droppedCount, hj, hnone]
      · rfl
  | .unsubscribe i => exact hb.of_same rfl rfl rfl rfl rfl rfl rfl
  | .publish p value =>
    show Balanced j (h ++ [⟨s, _, (s.publish p value).2, _⟩]) (s.publish p value).1
    unfold State.publish
    cases hidle : s.publishers.get? p with
    | some x => exact hb.of_same rfl rfl rfl rfl rfl rfl rfl
    | none =>
      have hcredit := s.publishers.total_insert (fun _ x => x.credit j) p
        ⟨value, [], s.subscribers, .send⟩
      have hdebit := s.publishers.total_insert (fun _ x => x.debit j) p
        ⟨value, [], s.subscribers, .send⟩
      -- nothing is sent or evicted yet
      have hsent : Publishing.credit j ⟨value, [], s.subscribers, .send⟩ = 0 := by
        simp [Publishing.credit, Phase.sent]
      have hevicted : Publishing.debit j ⟨value, [], s.subscribers, .send⟩ = 0 := by
        simp [Publishing.debit, Phase.evicted]
      rw [hidle, BTreeMap.share_none, hsent] at hcredit
      rw [hidle, BTreeMap.share_none, hevicted] at hdebit
      exact hb.of_same rfl rfl rfl rfl rfl hcredit hdebit
  | .advance p =>
    show Balanced j (h ++ [⟨s, _, (s.advance p).2, _⟩]) (s.advance p).1
    unfold State.advance
    cases hx : s.publishers.get? p with
    | none => exact hb.of_same rfl rfl rfl rfl rfl rfl rfl
    | some x => exact hb.resume hwell hx rfl
  | .tryRecv i => exact hb.tryRecv rfl

end Broadcast
