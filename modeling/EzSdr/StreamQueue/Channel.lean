import EzSdr.StreamQueue.Invariant

/-! # One Channel of the Stream Queue

    The abstract view of one channel: its queued frames, its pending loss
    count and whether its front is protected. Channels share nothing but the
    byte budget, so seen from one channel every call of the queue is one of a
    few moves (`PushView`, `PopView`). Conservation, retention and gap
    placement are proved over these moves. -/

namespace StreamQueue

/-! ## Section 1: Views -/

/-- What one channel holds; a closed channel holds nothing. -/
structure View where
  frames       : List Queued
  skipped      : ℕ
  protectFront : Bool

/-- Slot to view. -/
def Slot.view (slot : Slot) : View := ⟨slot.frames, slot.skipped, slot.protectFront⟩

/-- The view of channel `id`. -/
def State.view (q : State) (id : ChannelId) : View :=
  ((q.channels.get? id).map Slot.view).getD ⟨[], 0, false⟩

/-- Number of leading frames eviction must leave alone. -/
def View.protectedCount (v : View) : ℕ := if v.protectFront then 1 else 0

/-- The channel an event belongs to. -/
def channelOf : ServerEvent → Option ChannelId
  | .spectrum frame  => some frame.channelId
  | .audio frame     => some frame.channelId
  | .aircraft frame  => some frame.channelId
  | .telemetry frame => some frame.channelId
  | .streamGap id _  => some id
  | .control         => none

theorem channelOf_of_target {event : ServerEvent} {id : ChannelId} {capacity : ℕ}
    (h : target event = some (id, capacity)) : channelOf event = some id := by
  cases event <;> simp [target] at h <;> simp [channelOf, h.1]

@[simp] theorem view_initialState (id : ChannelId) : initialState.view id = ⟨[], 0, false⟩ := rfl

theorem view_of_get? {q : State} {id : ChannelId} {slot : Slot}
    (h : q.channels.get? id = some slot) : q.view id = slot.view := by
  simp [State.view, h]

/-- The view of a state only depends on its channel table. -/
theorem view_mk_insert_self (q : State) (id : ChannelId) (slot : Slot)
    (last : Option ChannelId) (bytes skipped : ℕ) :
    State.view ⟨q.channels.insert id slot, last, bytes, skipped⟩ id = slot.view := by
  simp [State.view]

theorem view_mk_insert_ne (q : State) {j id : ChannelId} (h : j ≠ id) (slot : Slot)
    (last : Option ChannelId) (bytes skipped : ℕ) :
    State.view ⟨q.channels.insert id slot, last, bytes, skipped⟩ j = q.view j := by
  simp [State.view, BTreeMap.get?_insert_ne _ h]

/-! ## Section 2: Moves -/

/-- One frame is dropped from the view and counted. -/
def ViewEvict (v v' : View) : Prop :=
  ∃ pre old post,
    v.frames = pre ++ old :: post ∧
    v.protectedCount ≤ pre.length ∧
    isCriticalTelemetry old.event = false ∧
    (isPreview old.event = true ∨
      ∀ f ∈ pre.drop v.protectedCount, isCriticalTelemetry f.event = true) ∧
    v' = ⟨pre ++ post, saturatingAdd v.skipped 1, v.protectFront⟩

/-- Any number of evictions. -/
def ViewEvictions : View → View → Prop := Relation.ReflTransGen ViewEvict

/-- The view with one more frame at its end. -/
def View.append (v : View) (entry : Queued) : View := { v with frames := v.frames ++ [entry] }

/-- The view with one more loss. -/
def View.skip (v : View) : View := { v with skipped := saturatingAdd v.skipped 1 }

/-- What a push that is taken in does to the channel it is for. -/
inductive PushView (event : ServerEvent) (v v' : View) : Prop where
  /-- The new frame is skipped at once. -/
  | skipped (v₁ : View) (hcrit : isCriticalTelemetry event = false)
      (hev : ViewEvictions v v₁)
      (hall : ∀ f ∈ v₁.frames.drop v₁.protectedCount, isCriticalTelemetry f.event = true)
      (hv' : v' = v₁.skip)
  /-- The new frame is queued. -/
  | queued (v₁ : View) (entry : Queued) (hentry : entry.event = event)
      (hev : ViewEvictions v v₁) (hshrink : ViewEvictions (v₁.append entry) v')

/-- What a pop of an item does to the channel the item belongs to. -/
inductive PopView (id : ChannelId) (v v' : View) : ServerEvent → Prop where
  | gap (hskipped : 0 < v.skipped) (hfront : v.protectFront = false)
      (hv' : v' = ⟨v.frames, 0, !v.frames.isEmpty⟩) :
      PopView id v v' (.streamGap id v.skipped)
  | frame (next : Queued) (rest : List Queued) (hframes : v.frames = next :: rest)
      (hgap : v.skipped = 0 ∨ v.protectFront = true)
      (hv' : v' = ⟨rest, v.skipped, false⟩) :
      PopView id v v' next.event

/-- Every queued frame is filed under its own channel, and is a stream frame. -/
def State.Filed (q : State) : Prop :=
  ∀ id, ∀ f ∈ (q.view id).frames, ∃ capacity, target f.event = some (id, capacity)

/-! ## Section 3: Evictions seen from one channel -/

theorem EvictStep.view {id : ChannelId} {q q' : State} (h : EvictStep id q q') (j : ChannelId) :
    ViewEvictions (q.view j) (q'.view j) := by
  obtain ⟨slot, pre, old, post, hslot, hsplit, hprot, hcrit, hfirst, -, rfl⟩ := h
  by_cases hj : j = id
  · subst hj
    rw [view_of_get? hslot]
    refine .single ⟨pre, old, post, hsplit, hprot, hcrit, hfirst, ?_⟩
    exact view_mk_insert_self q j _ _ _ _
  · rw [State.evicted, State.setSlot, view_mk_insert_ne q hj]
    exact .refl

theorem Evictions.view {q q' : State} (h : Evictions q q') (j : ChannelId) :
    ViewEvictions (q.view j) (q'.view j) := by
  induction h with
  | refl => exact .refl
  | tail _ hs ih => obtain ⟨id, hs⟩ := hs; exact ih.trans (hs.view j)

/-- Evictions keep the order of what is left. -/
theorem ViewEvictions.sublist {v v' : View} (h : ViewEvictions v v') :
    v'.frames.Sublist v.frames := by
  induction h with
  | refl => exact .refl _
  | tail _ hs ih =>
    obtain ⟨pre, old, post, hsplit, -, -, -, rfl⟩ := hs
    refine List.Sublist.trans ?_ ih
    rw [hsplit]
    exact List.Sublist.append_left (List.sublist_cons_self old post) pre

/-! ## Section 4: Calls seen from one channel -/

/-- Opening a slot changes no view. -/
theorem view_opened (q : State) (id : ChannelId) (at' : Instant) (j : ChannelId) :
    (q.opened id at').view j = q.view j := by
  by_cases hj : j = id
  · subst hj
    rw [State.opened, State.setSlot, view_mk_insert_self]
    cases hslot : q.channels.get? j with
    | none => simp [State.view, hslot, Slot.view, Inhabited.default]
    | some slot => simp [State.view, hslot, Slot.view]
  · exact view_mk_insert_ne q hj _ _ _ _

/-- Is a pushed event taken in? Not taken in are events that are no stream
    frames, frames above the channel limit, and critical frames of a channel
    that already holds its capacity of frames. -/
def State.accepts (q : State) (event : ServerEvent) : Bool :=
  match target event with
  | none => false
  | some (id, capacity) =>
    !q.atLimit id &&
      !(isCriticalTelemetry event && (q.view id).frames.length ≥ capacity)

/-- A push seen from the channel it is for, and from the other channels. -/
theorem push_view {L : Layout} {q q' : State} {id : ChannelId} {capacity : ℕ}
    {event : ServerEvent} {at' : Instant} {ok : Bool}
    (htarget : target event = some (id, capacity))
    (h : q.push L event at' = some (ok, q')) :
    (q.accepts event = false → ∀ j, q'.view j = q.view j) ∧
    (q.accepts event = true → PushView event (q.view id) (q'.view id)) ∧
    (∀ j, j ≠ id → ViewEvictions (q.view j) (q'.view j)) ∧
    (ok = true → q.accepts event = true) ∧
    (q.accepts event = true → ok = false → STREAM_BYTE_CAPACITY < q'.bytes) := by
  have haccepts : q.accepts event = (!q.atLimit id &&
      !(isCriticalTelemetry event && (q.view id).frames.length ≥ capacity)) := by
    simp [State.accepts, htarget]
  have hopen : (q.opened id at').channels.get? id =
      some { (q.channels.get? id).getD default with observedAt := some at' } :=
    BTreeMap.get?_insert_self _ _ _
  cases push_cases htarget h with
  | refused hlimit =>
    rw [haccepts, hlimit]
    exact ⟨fun _ _ => rfl, by simp, fun _ _ => .refl, by simp, by simp⟩
  | full slot hlimit hcrit hslot hlen =>
    have hframes : (q.view id).frames = slot.frames := by
      rw [← view_opened q id at' id, view_of_get? hslot]; rfl
    rw [haccepts, hlimit, hcrit, hframes]
    refine ⟨fun _ j => view_opened q id at' j, by simp [hlen], fun j _ => ?_, by simp,
      by simp [hlen]⟩
    rw [view_opened]
    exact .refl
  | skipped q₁ slot hlimit hcrit hev hslot hall =>
    have hview : ∀ j, ViewEvictions (q.view j) (q₁.view j) := fun j => by
      rw [← view_opened q id at' j]; exact hev.toEvictions.view j
    rw [haccepts, hlimit, hcrit]
    refine ⟨by simp, fun _ => .skipped (q₁.view id) hcrit (hview id) ?_ ?_, fun j hj => ?_,
      by simp, by simp⟩
    · rw [view_of_get? hslot]
      exact hall
    · rw [view_of_get? hslot]
      exact view_mk_insert_self q₁ id _ _ _ _
    · rw [State.skippedOn, State.setSlot, view_mk_insert_ne q₁ hj]
      exact hview j
  | queued q₁ slot q' ok hlimit hcrit hev hslot hshrink hok =>
    have hview : ∀ j, ViewEvictions (q.view j) (q₁.view j) := fun j => by
      rw [← view_opened q id at' j]; exact hev.toEvictions.view j
    -- a critical frame was only queued because its channel had room
    have hacc : q.accepts event = true := by
      rw [haccepts, hlimit]
      cases hc : isCriticalTelemetry event with
      | false => simp
      | true =>
        have := hcrit _ hopen hc
        have hframes : (q.view id).frames =
            ((q.channels.get? id).getD default).frames := by
          rw [← view_opened q id at' id, view_of_get? hopen]; rfl
        simpa [hframes] using this
    refine ⟨by simp [hacc], fun _ => .queued (q₁.view id) ⟨event, at', weight L event⟩ rfl
      (hview id) ?_, fun j hj => (hview j).trans ?_, fun _ => hacc, fun _ hfalse => ?_⟩
    · have hv := hshrink.view id
      rwa [State.appended, State.setSlot, view_mk_insert_self q₁,
        show Slot.view { slot with frames := slot.frames ++ [⟨event, at', weight L event⟩] } =
          (q₁.view id).append ⟨event, at', weight L event⟩ by
            rw [view_of_get? hslot]; rfl] at hv
    · have hv := hshrink.view j
      rwa [State.appended, State.setSlot, view_mk_insert_ne q₁ hj] at hv
    · by_contra hle
      exact absurd (hok.2 (by omega)) (by simp [hfalse])

/-- Settling a slot leaves its view, also when the slot is removed. -/
theorem view_settle_self {q : State} {id : ChannelId} {slot : Slot} (hok : slot.Ok) :
    (q.settle id slot).view id = slot.view := by
  unfold State.settle
  split_ifs with hidle
  · simp only [Slot.isIdle, Bool.and_eq_true, List.isEmpty_iff, beq_iff_eq] at hidle
    have hfront : slot.protectFront = false := by
      by_contra hp
      exact hok.front (by simpa using hp) hidle.1
    simp [State.view, Slot.view, hidle, hfront]
  · exact view_mk_insert_self q id _ _ _ _

theorem view_settle_ne {q : State} {j id : ChannelId} (h : j ≠ id) (slot : Slot) :
    (q.settle id slot).view j = q.view j := by
  unfold State.settle
  split_ifs
  · simp [State.view, BTreeMap.get?_erase_ne _ h]
  · exact view_mk_insert_ne q h _ _ _ _

/-- A pop seen from every channel. -/
theorem pop_view {q q' : State} {item : Option (ServerEvent × Instant)} (hq : q.Inv)
    (h : q.pop = some (item, q')) :
    (item = none ∧ ∀ j, q'.view j = q.view j) ∨
    ∃ id event at', item = some (event, at') ∧ PopView id (q.view id) (q'.view id) event ∧
      ∀ j, j ≠ id → q'.view j = q.view j := by
  cases pop_cases h with
  | nothing _ => exact .inl ⟨rfl, fun _ => rfl⟩
  | gap id slot observedAt hslot hskipped hfront hobserved =>
    refine .inr ⟨id, _, observedAt, rfl, ?_, fun j hj => view_settle_ne hj _⟩
    have hok : Slot.Ok { slot with skipped := 0, protectFront := !slot.frames.isEmpty } :=
      ⟨by simp, (hq.slots _ _ hslot).observed⟩
    rw [view_settle_self hok, view_of_get? hslot]
    exact .gap hskipped hfront rfl
  | frame id slot next rest hslot hframes hgap hweight =>
    refine .inr ⟨id, _, next.observedAt, rfl, ?_, fun j hj => view_settle_ne hj _⟩
    have hok : Slot.Ok { slot with frames := rest, protectFront := false } :=
      ⟨by simp, (hq.slots _ _ hslot).observed⟩
    rw [view_settle_self hok, view_of_get? hslot]
    exact .frame next rest hframes hgap rfl
  | idle id slot hslot hframes hgap =>
    refine .inl ⟨rfl, fun j => ?_⟩
    by_cases hj : j = id
    · subst hj
      rw [view_settle_self (hq.slots _ _ hslot), view_of_get? hslot]
    · exact view_settle_ne hj _

/-- A gap note seen from every channel. -/
theorem noteGap_view (q : State) (id : ChannelId) (frames : ℕ) (at' : Instant) (j : ChannelId) :
    (q.noteGap id frames at').2.view j =
      if j = id ∧ (q.noteGap id frames at').1 = true ∧ 0 < frames then
        { q.view j with skipped := saturatingAdd (q.view j).skipped frames }
      else q.view j := by
  rcases noteGap_cases q id frames at' with ⟨hzero, h⟩ | ⟨-, -, h⟩ | ⟨hpos, -, h⟩
  · rw [h]
    simp [hzero]
  · rw [h]
    simp
  · rw [h]
    by_cases hj : j = id
    · subst hj
      simp only [hpos, and_self, if_true, State.setSlot]
      rw [view_mk_insert_self]
      cases hslot : q.channels.get? j with
      | none => simp [State.view, hslot, Slot.view, Inhabited.default]
      | some slot => simp [State.view, hslot, Slot.view]
    · simp only [hj, false_and, if_false, State.setSlot]
      exact view_mk_insert_ne q hj _ _ _ _

/-! ## Section 5: Frames are filed under their channel -/

theorem PushView.mem {event : ServerEvent} {v v' : View} (h : PushView event v v') {f : Queued}
    (hf : f ∈ v'.frames) : f ∈ v.frames ∨ f.event = event := by
  cases h with
  | skipped v₁ hcrit hev hall hv' =>
    subst hv'
    exact .inl (hev.sublist.subset hf)
  | queued v₁ entry hentry hev hshrink =>
    have := hshrink.sublist.subset hf
    simp only [View.append, List.mem_append, List.mem_singleton] at this
    rcases this with h | h
    · exact .inl (hev.sublist.subset h)
    · exact .inr (by rw [h, hentry])

theorem PopView.mem {id : ChannelId} {v v' : View} {event : ServerEvent}
    (h : PopView id v v' event) {f : Queued} (hf : f ∈ v'.frames) : f ∈ v.frames := by
  cases h with
  | gap _ _ hv' => simpa [hv'] using hf
  | frame next rest hframes _ hv' => simp [hframes]; right; simpa [hv'] using hf

theorem filed_initialState : initialState.Filed := by
  intro id f hf
  simp at hf

/-- Every call files its frames. -/
theorem step_filed {L : Layout} {q q' : State} {op : Op} {r : Reply} (hinv : q.Inv)
    (h : step L q op = some (q', r)) (hq : q.Filed) : q'.Filed := by
  cases op with
  | push event at' =>
    obtain ⟨⟨ok, q₁⟩, hp, hr⟩ := Option.map_eq_some_iff.1 h
    cases hr
    cases htarget : target event with
    | some p =>
      obtain ⟨id, capacity⟩ := p
      obtain ⟨hno, hyes, hother, -, -⟩ := push_view htarget hp
      -- a frame is old, or it is the one that was pushed, on its own channel
      intro j f hf
      by_cases hj : j = id
      · subst hj
        cases hacc : q.accepts event with
        | false => rw [hno hacc] at hf; exact hq j f hf
        | true =>
          rcases (hyes hacc).mem hf with hf | hf
          · exact hq j f hf
          · exact ⟨capacity, by rw [hf, htarget]⟩
      · exact hq j f ((hother j hj).sublist.subset hf)
    | none =>
      cases event with
      | streamGap id dropped =>
        simp only [State.push, Option.some.injEq] at hp
        intro j f hf
        have hv := noteGap_view q id dropped at' j
        rw [hp] at hv
        rw [hv] at hf
        split_ifs at hf <;> exact hq j f hf
      | control =>
        simp only [State.push, target, Option.some.injEq, Prod.mk.injEq] at hp
        exact hp.2 ▸ hq
      | _ => simp [target] at htarget
  | noteGap id frames at' =>
    cases h
    intro j f hf
    rw [noteGap_view] at hf
    split_ifs at hf <;> exact hq j f hf
  | pop =>
    obtain ⟨⟨item, q₁⟩, hp, hr⟩ := Option.map_eq_some_iff.1 h
    cases hr
    rcases pop_view hinv hp with ⟨-, hv⟩ | ⟨id, event, at', -, hpv, hother⟩
    · intro j f hf
      rw [hv] at hf
      exact hq j f hf
    · intro j f hf
      by_cases hj : j = id
      · subst hj; exact hq j f (hpv.mem hf)
      · rw [hother j hj] at hf; exact hq j f hf
  | clear id =>
    obtain ⟨q₁, hc, hr⟩ := Option.map_eq_some_iff.1 h
    cases hr
    rcases clear_cases hc with ⟨-, rfl⟩ | ⟨slot, -, -, rfl⟩
    · exact hq
    · intro j f hf
      by_cases hj : j = id
      · subst hj; simp [State.view] at hf
      · refine hq j f ?_
        simpa [State.view, BTreeMap.get?_erase_ne _ hj] using hf

/-! ## Section 6: Calls as moves of one channel -/

/-- The stream frame a call takes in on channel `id`. -/
def takenIn (id : ChannelId) (c : Call) : Option ServerEvent :=
  match c.input with
  | .push event _ =>
    if (target event).map Prod.fst = some id ∧ c.before.accepts event = true then some event
    else none
  | _ => none

/-- The losses a call reports to the queue for channel `id`. -/
def noted (id : ChannelId) (c : Call) : ℕ :=
  match c.input, c.output with
  | .push (.streamGap j dropped) _, .accepted true => if j = id then dropped else 0
  | .noteGap j frames _, .accepted true => if j = id then frames else 0
  | _, _ => 0

/-- The frame or gap notice of channel `id` a call delivers. -/
def delivered (id : ChannelId) (c : Call) : Option ServerEvent :=
  match c.output with
  | .popped (some (event, _)) => if channelOf event = some id then some event else none
  | _ => none

/-- A call that is no `clear`, seen from channel `id`. -/
inductive Move (id : ChannelId) (c : Call) : Prop where
  | taken (event : ServerEvent) (htaken : takenIn id c = some event) (hnoted : noted id c = 0)
      (hdelivered : delivered id c = none)
      (hview : PushView event (c.before.view id) (c.after.view id))
  | noted (n : ℕ) (hpos : 0 < n) (htaken : takenIn id c = none) (hnoted : noted id c = n)
      (hdelivered : delivered id c = none)
      (hview : c.after.view id =
        { c.before.view id with skipped := saturatingAdd (c.before.view id).skipped n })
  | delivered (event : ServerEvent) (htaken : takenIn id c = none) (hnoted : noted id c = 0)
      (hdelivered : delivered id c = some event)
      (hview : PopView id (c.before.view id) (c.after.view id) event)
  | other (htaken : takenIn id c = none) (hnoted : noted id c = 0)
      (hdelivered : delivered id c = none)
      (hview : ViewEvictions (c.before.view id) (c.after.view id))

/-- A stream frame is not a gap notice. -/
theorem noted_of_target (id : ChannelId) (c : Call) {event : ServerEvent} {at' : Instant}
    {p : ChannelId × ℕ} (hinput : c.input = .push event at') (htarget : target event = some p) :
    noted id c = 0 := by
  unfold noted
  rw [hinput]
  cases event <;> simp_all [target]

/-- Noting losses on channel `i`, seen from channel `id`. -/
theorem noteGap_move {id : ChannelId} (i : ChannelId) (n : ℕ) (at' : Instant) {c : Call}
    (hinput : c.input = .noteGap i n at' ∨ c.input = .push (.streamGap i n) at')
    (hout : c.output = .accepted (c.before.noteGap i n at').1)
    (hafter : c.after = (c.before.noteGap i n at').2) : Move id c := by
  have htaken : takenIn id c = none := by
    rcases hinput with h | h <;> simp [takenIn, h, target]
  have hdelivered : delivered id c = none := by simp [delivered, hout]
  have hview := noteGap_view c.before i n at' id
  rw [← hafter] at hview
  have hnoted : noted id c =
      if id = i ∧ (c.before.noteGap i n at').1 = true ∧ 0 < n then n else 0 := by
    rcases hinput with h | h <;>
    · rw [noted, h, hout]
      cases (c.before.noteGap i n at').1 <;> by_cases hid : id = i <;>
        simp [hid, eq_comm (a := i)]
  by_cases hcond : id = i ∧ (c.before.noteGap i n at').1 = true ∧ 0 < n
  · rw [if_pos hcond] at hview hnoted
    exact .noted n hcond.2.2 htaken hnoted hdelivered hview
  · rw [if_neg hcond] at hview hnoted
    refine .other htaken hnoted hdelivered ?_
    rw [hview]
    exact .refl

/-- Every call but `clear` is one move of every channel. -/
theorem step_move {L : Layout} {q q' : State} {op : Op} {r : Reply} (hinv : q.Inv)
    (hfiled : q.Filed) (hclear : ∀ i, op ≠ .clear i) (h : step L q op = some (q', r))
    (id : ChannelId) : Move id ⟨q, op, r, q'⟩ := by
  cases op with
  | push event at' =>
    obtain ⟨⟨ok, q₁⟩, hp, hr⟩ := Option.map_eq_some_iff.1 h
    cases hr
    cases htarget : target event with
    | some p =>
      obtain ⟨i, capacity⟩ := p
      obtain ⟨hno, hyes, hother, -, -⟩ := push_view htarget hp
      have hnoted := noted_of_target id ⟨q, .push event at', .accepted ok, q₁⟩ rfl htarget
      -- the channel takes the frame in, or the push only takes frames from it
      by_cases hi : id = i ∧ q.accepts event = true
      · obtain ⟨rfl, hacc⟩ := hi
        exact .taken event (by simp [takenIn, htarget, hacc]) hnoted rfl (hyes hacc)
      · refine .other ?_ hnoted rfl ?_
        · simp only [takenIn, htarget, Option.map_some, Option.some.injEq]
          exact if_neg fun hc => hi ⟨hc.1.symm, hc.2⟩
        · by_cases hid : id = i
          · have hacc : q.accepts event = false := by simpa [hid] using hi
            simp only [hno hacc]
            exact .refl
          · exact hother id hid
    | none =>
      cases event with
      | streamGap i n =>
        simp only [State.push, Option.some.injEq] at hp
        exact noteGap_move i n at' (.inr rfl) (by simp [hp]) (by simp [hp])
      | control =>
        simp only [State.push, target, Option.some.injEq, Prod.mk.injEq] at hp
        obtain ⟨rfl, rfl⟩ := hp
        exact .other (by simp [takenIn, target]) rfl rfl .refl
      | _ => simp [target] at htarget
  | noteGap i n at' =>
    cases h
    exact noteGap_move i n at' (.inl rfl) rfl rfl
  | pop =>
    obtain ⟨⟨item, q₁⟩, hp, hr⟩ := Option.map_eq_some_iff.1 h
    cases hr
    rcases pop_view hinv hp with ⟨rfl, hv⟩ | ⟨i, event, at', rfl, hpv, hother⟩
    · refine .other rfl rfl rfl ?_
      simp only [hv]
      exact .refl
    -- what is delivered was filed on the channel it is delivered from
    · have hchannel : channelOf event = some i := by
        cases hpv with
        | gap => rfl
        | frame next rest hframes _ _ =>
          obtain ⟨capacity, htarget⟩ := hfiled i next (by simp [hframes])
          exact channelOf_of_target htarget
      by_cases hi : id = i
      · subst hi
        exact .delivered event rfl rfl (by simp [delivered, hchannel]) hpv
      · refine .other rfl rfl (by simp [delivered, hchannel, eq_comm (a := i), hi]) ?_
        simp only [hother id hi]
        exact .refl
  | clear i => exact absurd rfl (hclear i)

/-- A push that answers `true` is taken in; one that is taken in and answers
    `false` leaves the byte budget exceeded. -/
theorem step_taken {L : Layout} {q q' : State} {op : Op} {r : Reply} {event : ServerEvent}
    {at' : Instant} {id : ChannelId} {capacity : ℕ} (h : step L q op = some (q', r))
    (hop : op = .push event at') (htarget : target event = some (id, capacity)) :
    (r = .accepted true → takenIn id ⟨q, op, r, q'⟩ = some event) ∧
    (r = .accepted false → takenIn id ⟨q, op, r, q'⟩ = some event →
      STREAM_BYTE_CAPACITY < q'.bytes) := by
  subst hop
  obtain ⟨⟨ok, q₁⟩, hp, hr⟩ := Option.map_eq_some_iff.1 h
  cases hr
  obtain ⟨-, -, -, htrue, hfalse⟩ := push_view htarget hp
  simp only [takenIn, htarget, Option.map_some, true_and, Reply.accepted.injEq]
  constructor
  · intro hok
    rw [if_pos (htrue hok)]
  · intro hok htaken
    split_ifs at htaken with hacc
    exact hfalse hacc hok

/-- The answers to the pushes on channel `id` tell what was taken in: a push
    that answers `true` is taken in, one that answers `false` is taken in only
    when it leaves the byte budget exceeded. -/
def Answered (id : ChannelId) (calls : List Call) : Prop :=
  ∀ c ∈ calls, ∀ event at' capacity, c.input = .push event at' →
    target event = some (id, capacity) →
    (c.output = .accepted true → takenIn id c = some event) ∧
    (c.output = .accepted false → takenIn id c = some event →
      STREAM_BYTE_CAPACITY < c.after.bytes)

theorem Answered.append {L : Layout} {id : ChannelId} {calls : List Call} {c : Call}
    (h : Answered id calls) (hstep : step L c.before c.input = some (c.after, c.output)) :
    Answered id (calls ++ [c]) := by
  intro c' hc' event at' capacity hinput htarget
  rcases List.mem_append.1 hc' with hc' | hc'
  · exact h c' hc' event at' capacity hinput htarget
  · obtain rfl := List.mem_singleton.1 hc'
    exact step_taken hstep hinput htarget

/-- What every run keeps: the invariant and the filing of frames. -/
structure State.Good (q : State) : Prop where
  inv   : q.Inv
  filed : q.Filed

theorem good_initialState : initialState.Good := ⟨inv_initialState, filed_initialState⟩

/-- The rule for runs without `clear`: a history property that every move keeps
    holds after every run, and every run ends. -/
theorem run_moves (L : Layout) {P : List Call → State → Prop} {I : Op → Prop}
    (hI : ∀ op, I op → ∀ id, op ≠ .clear id) (hinit : P [] initialState)
    (hmove : ∀ calls c, c.before.Good → I c.input →
      step L c.before c.input = some (c.after, c.output) → (∀ id, Move id c) →
      P calls c.before → P (calls ++ [c]) c.after)
    (ops : List Op) (hops : ∀ op ∈ ops, I op) :
    ∃ q calls, (machine L).run (machine L).init ops = some (q, calls) ∧ P calls q := by
  obtain ⟨q, calls, hrun, -, hP⟩ := (machine L).run_safe (P := fun calls q => q.Good ∧ P calls q)
    ⟨good_initialState, hinit⟩ (fun calls q op hgood hop => by
      obtain ⟨hgood, hP⟩ := hgood
      obtain ⟨q', r, hstep, hinv⟩ := step_inv L hgood.inv op
      have hmoves := step_move hgood.inv hgood.filed (hI op hop) hstep
      exact ⟨q', r, hstep, ⟨hinv, step_filed hgood.inv hstep hgood.filed⟩,
        hmove calls ⟨q, op, r, q'⟩ hgood hop hstep hmoves hP⟩) ops hops
  exact ⟨q, calls, hrun, hP⟩

end StreamQueue
