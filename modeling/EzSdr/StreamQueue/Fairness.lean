import EzSdr.StreamQueue.Channel

/-! # No Channel Starves

    A pop that reports a gap promises the frame behind it: the frame stays in
    front, whatever is pushed or evicted, and is what the next pop of the
    channel delivers. And the channels are served in turn: between two pops of
    one channel every other channel that has something to deliver is popped. -/

namespace StreamQueue

/-! ## Section 1: The promised front -/

/-- The frame in front is promised. -/
def View.Promises (v : View) (f : Queued) : Prop :=
  v.protectFront = true ∧ ∃ rest, v.frames = f :: rest

theorem ViewEvict.promises {v v' : View} {f : Queued} (h : ViewEvict v v')
    (hv : v.Promises f) : v'.Promises f := by
  obtain ⟨pre, old, post, hsplit, hprot, -, -, rfl⟩ := h
  obtain ⟨hfront, rest, hframes⟩ := hv
  have hone : 1 ≤ pre.length := by simpa [View.protectedCount, hfront] using hprot
  -- what is evicted stands behind the promised frame
  obtain ⟨first, pre, rfl⟩ := List.exists_cons_of_length_pos hone
  rw [hframes] at hsplit
  obtain ⟨rfl, -⟩ := List.cons.inj hsplit
  exact ⟨hfront, pre ++ post, rfl⟩

theorem ViewEvictions.promises {v v' : View} {f : Queued} (h : ViewEvictions v v')
    (hv : v.Promises f) : v'.Promises f := by
  induction h with
  | refl => exact hv
  | tail _ hs ih => exact ViewEvict.promises hs ih

/-- A push keeps the promise. -/
theorem PushView.promises {event : ServerEvent} {v v' : View} {f : Queued}
    (h : PushView event v v') (hv : v.Promises f) : v'.Promises f := by
  cases h with
  | skipped v₁ _ hev _ hv' =>
    subst hv'
    exact hev.promises hv
  | queued v₁ entry _ hev hshrink =>
    obtain ⟨hfront, rest, hframes⟩ := hev.promises hv
    refine hshrink.promises ⟨hfront, rest ++ [entry], ?_⟩
    simp [View.append, hframes]

/-- A call that does not touch the channel's front. -/
def Spares (id : ChannelId) (c : Call) : Prop :=
  delivered id c = none ∧ c.input ≠ .clear id

/-- Forgetting a channel is seen only from there. -/
theorem clear_view {q q' : State} {id j : ChannelId} (h : q.clear id = some q') (hj : j ≠ id) :
    q'.view j = q.view j := by
  obtain ⟨-, rfl⟩ | ⟨slot, -, -, rfl⟩ := clear_cases h
  · rfl
  · simp [State.view, BTreeMap.get?_erase_ne _ hj]

/-- Every call that spares a channel keeps its promise. -/
theorem step_promises {L : Layout} {c : Call} {id : ChannelId} {f : Queued}
    (hgood : c.before.Good) (hstep : step L c.before c.input = some (c.after, c.output))
    (hspares : Spares id c) (hpromise : (c.before.view id).Promises f) :
    (c.after.view id).Promises f := by
  by_cases hclear : ∃ i, c.input = .clear i
  · obtain ⟨i, hi⟩ := hclear
    have hne : id ≠ i := fun heq => hspares.2 (hi.trans (congrArg Op.clear heq.symm))
    rw [hi] at hstep
    obtain ⟨q', hq', heq⟩ := Option.map_eq_some_iff.1 hstep
    obtain rfl : q' = c.after := congrArg Prod.fst heq
    rw [clear_view hq' hne]
    exact hpromise
  · cases step_move hgood.inv hgood.filed (fun i hi => hclear ⟨i, hi⟩) hstep id with
    | taken event _ _ _ hview => exact hview.promises hpromise
    | noted n _ _ _ _ hview =>
      rw [hview]
      exact hpromise
    | delivered event _ _ hdelivered _ =>
      rw [hspares.1] at hdelivered
      cases hdelivered
    | other _ _ _ hview => exact hview.promises hpromise

/-- A pop of the channel: the promise is made, or redeemed. -/
theorem step_delivers {L : Layout} {c : Call} {id : ChannelId} {event : ServerEvent}
    (hgood : c.before.Good) (hstep : step L c.before c.input = some (c.after, c.output))
    (hdelivered : delivered id c = some event) :
    PopView id (c.before.view id) (c.after.view id) event := by
  have hclear (i : ChannelId) : c.input ≠ .clear i := by
    intro hi
    rw [hi] at hstep
    obtain ⟨q', -, heq⟩ := Option.map_eq_some_iff.1 hstep
    have hout : c.output = .cleared := (congrArg Prod.snd heq).symm
    simp [delivered, hout] at hdelivered
  cases step_move hgood.inv hgood.filed hclear hstep id with
  | taken _ _ _ hnone _ | noted _ _ _ _ hnone _ | other _ _ hnone _ =>
    rw [hnone] at hdelivered
    cases hdelivered
  | delivered event' _ _ hsome hview =>
    rw [hsome] at hdelivered
    rw [← Option.some.inj hdelivered]
    exact hview

/-! ## Section 2: The channel served next -/

theorem nextChannel_eq (q : State) : q.nextChannel = q.channels.nextKey q.lastChannel := rfl

/-- A channel that has something to deliver. -/
def View.Waiting (v : View) : Prop := v.frames ≠ [] ∨ 0 < v.skipped

theorem get?_of_waiting {q : State} {id : ChannelId} (h : (q.view id).Waiting) :
    ∃ slot, q.channels.get? id = some slot := by
  cases hslot : q.channels.get? id with
  | none => simp [State.view, hslot, View.Waiting] at h
  | some slot => exact ⟨slot, rfl⟩

theorem EvictStep.lastChannel {id : ChannelId} {q q' : State} (h : EvictStep id q q') :
    q'.lastChannel = q.lastChannel := by
  obtain ⟨slot, pre, old, post, -, -, -, -, -, -, rfl⟩ := h
  rfl

theorem Evictions.lastChannel {q q' : State} (h : Evictions q q') :
    q'.lastChannel = q.lastChannel := by
  induction h with
  | refl => rfl
  | tail _ hs ih =>
    obtain ⟨id, hs⟩ := hs
    rw [hs.lastChannel, ih]

theorem noteGap_lastChannel (q : State) (id : ChannelId) (frames : ℕ) (at' : Instant) :
    (q.noteGap id frames at').2.lastChannel = q.lastChannel := by
  obtain ⟨-, h⟩ | ⟨-, -, h⟩ | ⟨-, -, h⟩ := noteGap_cases q id frames at'
  all_goals simp only [h]
  rfl

theorem push_lastChannel {L : Layout} {q q' : State} {event : ServerEvent} {at' : Instant}
    {ok : Bool} (h : q.push L event at' = some (ok, q')) : q'.lastChannel = q.lastChannel := by
  cases htarget : target event with
  | some p =>
    obtain ⟨id, capacity⟩ := p
    cases push_cases htarget h with
    | refused | full => rfl
    | skipped q₁ slot _ _ hev => exact hev.toEvictions.lastChannel
    | queued q₁ slot q' ok _ _ hev _ hshrink =>
      rw [hshrink.lastChannel]
      exact hev.toEvictions.lastChannel
  | none =>
    cases event with
    | streamGap id dropped =>
      simp only [State.push, Option.some.injEq] at h
      rw [← show (q.noteGap id dropped at').2 = q' from congrArg Prod.snd h]
      exact noteGap_lastChannel q id dropped at'
    | control =>
      simp only [State.push, target, Option.some.injEq, Prod.mk.injEq] at h
      rw [← h.2]
    | _ => simp [target] at htarget

/-- A pop serves the next channel in turn, and delivers something of it. -/
theorem pop_serves {q q' : State} {item : Option (ServerEvent × Instant)} (hq : q.Good)
    (h : q.pop = some (item, q')) :
    (item = none ∧ q'.lastChannel = q.lastChannel) ∨
    ∃ id event at', item = some (event, at') ∧ channelOf event = some id ∧
      q.nextChannel = some id ∧ q'.lastChannel = some id := by
  have hsettle (p : State) (id : ChannelId) (slot : Slot) :
      (p.settle id slot).lastChannel = p.lastChannel := by
    unfold State.settle
    split <;> rfl
  have hnext (id : ChannelId) (hlast : q'.lastChannel = some id) (hkeys : q.channels.keys ≠ []) :
      q.nextChannel = some id := by
    simp only [State.pop] at h
    split at h
    · next hnone => exact absurd (nextChannel_eq_none hnone) hkeys
    · next i hi =>
      rw [hi, ← hlast]
      obtain ⟨slot, -, h⟩ := Option.bind_eq_some_iff.1 h
      split at h
      · obtain ⟨observedAt, -, h⟩ := Option.bind_eq_some_iff.1 h
        cases h
        rw [hsettle]
      · split at h
        · cases h
          rw [hsettle]
        · obtain ⟨bytes, -, h⟩ := Option.bind_eq_some_iff.1 h
          cases h
          rw [hsettle]
  have hkeys (id : ChannelId) (slot : Slot) (hslot : q.channels.get? id = some slot) :
      q.channels.keys ≠ [] := List.ne_nil_of_mem (q.channels.mem_keys.2 ⟨slot, hslot⟩)
  cases pop_cases h with
  | nothing _ => exact .inl ⟨rfl, rfl⟩
  | gap id slot observedAt hslot =>
    exact .inr ⟨id, _, _, rfl, rfl, hnext id (hsettle _ _ _) (hkeys id slot hslot), hsettle _ _ _⟩
  | frame id slot next rest hslot hframes =>
    have hfiled : ∃ capacity, target next.event = some (id, capacity) := by
      refine hq.filed id next ?_
      rw [view_of_get? hslot]
      simp [Slot.view, hframes]
    obtain ⟨capacity, htarget⟩ := hfiled
    exact .inr ⟨id, _, _, rfl, channelOf_of_target htarget,
      hnext id (hsettle _ _ _) (hkeys id slot hslot), hsettle _ _ _⟩
  | idle id slot hslot hframes hgap =>
    -- no idle slot is left behind
    have hlive := hq.inv.live id slot (by simp) hslot
    have hfront : slot.protectFront = false := by
      by_contra hprotect
      exact (hq.inv.slots id slot hslot).front (by simpa using hprotect) hframes
    have hskipped : slot.skipped = 0 := by simpa [hfront] using hgap
    simp [Slot.isIdle, hframes, hskipped] at hlive

/-- A call moves the turn on only when it delivers. -/
theorem step_turn {L : Layout} {c : Call} (hgood : c.before.Good)
    (hstep : step L c.before c.input = some (c.after, c.output)) :
    (c.after.lastChannel = c.before.lastChannel ∧ ∀ id, delivered id c = none) ∨
    ∃ id, c.before.nextChannel = some id ∧ c.after.lastChannel = some id ∧
      ∀ j, delivered j c ≠ none ↔ j = id := by
  cases hinput : c.input with
  | push event at' =>
    rw [hinput] at hstep
    obtain ⟨⟨ok, q'⟩, hpush, heq⟩ := Option.map_eq_some_iff.1 hstep
    obtain ⟨hafter, hout⟩ := Prod.mk.inj heq
    rw [← hafter]
    exact .inl ⟨push_lastChannel hpush, fun id => by simp [delivered, ← hout]⟩
  | noteGap id frames at' =>
    rw [hinput] at hstep
    obtain ⟨hafter, hout⟩ := Prod.mk.inj (Option.some.inj hstep)
    rw [← hafter]
    exact .inl ⟨noteGap_lastChannel _ _ _ _, fun id => by simp [delivered, ← hout]⟩
  | pop =>
    rw [hinput] at hstep
    obtain ⟨⟨item, q'⟩, hpop, heq⟩ := Option.map_eq_some_iff.1 hstep
    obtain ⟨hafter, hout⟩ := Prod.mk.inj heq
    rw [← hafter]
    obtain ⟨rfl, hlast⟩ | ⟨id, event, at', rfl, hchannel, hnext, hlast⟩ := pop_serves hgood hpop
    · exact .inl ⟨hlast, fun id => by simp [delivered, ← hout]⟩
    · refine .inr ⟨id, hnext, hlast, fun j => ?_⟩
      simp [delivered, ← hout, hchannel, eq_comm]
  | clear id =>
    rw [hinput] at hstep
    obtain ⟨q', hclear, heq⟩ := Option.map_eq_some_iff.1 hstep
    obtain ⟨hafter, hout⟩ := Prod.mk.inj heq
    rw [← hafter]
    refine .inl ⟨?_, fun id => by simp [delivered, ← hout]⟩
    obtain ⟨-, rfl⟩ | ⟨slot, -, -, rfl⟩ := clear_cases hclear
    · rfl
    · rfl

/-! ## Section 3: Whole runs -/

/-- The queue runs to its end, in good states only. -/
theorem run_good (L : Layout) (ops : List Op) :
    ∃ q calls, (machine L).run (machine L).init ops = some (q, calls) ∧ q.Good :=
  (machine L).run_safe (P := fun _ q => q.Good) (I := fun _ => True) good_initialState
    (fun _ q op hgood _ => by
      obtain ⟨q', r, hstep, hinv⟩ := step_inv L hgood.inv op
      exact ⟨q', r, hstep, hinv, step_filed hgood.inv hstep hgood.filed⟩)
    ops (fun _ _ => trivial)

/-- A step from a good state ends in one. -/
theorem step_good {L : Layout} {c : Call} (hgood : c.before.Good)
    (hstep : step L c.before c.input = some (c.after, c.output)) : c.after.Good := by
  obtain ⟨q', r, hstep', hinv⟩ := step_inv L hgood.inv c.input
  obtain ⟨rfl, rfl⟩ := Prod.mk.inj (Option.some.inj (hstep.symm.trans hstep'))
  exact ⟨hinv, step_filed hgood.inv hstep hgood.filed⟩

/-- The frame behind a reported gap is the next one delivered. -/
theorem run_promise {L : Layout} {ops : List Op} {q : State} {calls : List Call}
    (hrun : (machine L).run (machine L).init ops = some (q, calls)) (id : ChannelId) (n : ℕ)
    (f : Queued) (event : ServerEvent) :
    ∀ past gap mid next later, calls = past ++ gap :: (mid ++ next :: later) →
      (delivered id gap = some (.streamGap id n) ∧ ∃ rest, (gap.after.view id).frames = f :: rest) →
      (∀ c ∈ mid, Spares id c) → delivered id next = some event → event = f.event := by
  refine (machine L).run_between (G := State.Good) (R := fun q => (q.view id).Promises f)
    (Q := fun c => delivered id c = some event → event = f.event) good_initialState ?_ hrun
  intro c hgood hstep
  refine ⟨step_good hgood hstep, fun hgap => ?_, fun hpromise => ⟨fun hspares =>
    step_promises hgood hstep hspares hpromise, fun hdelivered => ?_⟩⟩
  · obtain ⟨hdelivered, rest, hframes⟩ := hgap
    have hview := step_delivers hgood hstep hdelivered
    generalize hevent : ServerEvent.streamGap id n = event at hview
    cases hview with
    | gap _ _ hv' =>
      rw [hv'] at hframes ⊢
      refine ⟨?_, rest, hframes⟩
      show (!(c.before.view id).frames.isEmpty) = true
      rw [show (c.before.view id).frames = f :: rest from hframes]
      rfl
    | frame next _ hframes _ _ =>
      -- no gap notice is queued
      obtain ⟨capacity, htarget⟩ := hgood.filed id next (by simp [hframes])
      rw [← hevent] at htarget
      cases htarget
  · obtain ⟨hfront, rest, hframes⟩ := hpromise
    cases step_delivers hgood hstep hdelivered with
    | gap _ hnot _ =>
      rw [hfront] at hnot
      cases hnot
    | frame next _ hnext _ _ =>
      rw [hframes] at hnext
      rw [(List.cons.inj hnext).1]

/-- A channel that waits while another is popped twice is popped in between. -/
theorem run_turn {L : Layout} {ops : List Op} {q : State} {calls : List Call}
    (hrun : (machine L).run (machine L).init ops = some (q, calls)) {a b : ChannelId}
    (hne : a ≠ b) :
    ∀ past first mid second later, calls = past ++ first :: (mid ++ second :: later) →
      (delivered a first ≠ none ∧ (first.after.view b).Waiting) →
      (∀ c ∈ mid, delivered a c = none ∧ delivered b c = none ∧ (c.after.view b).Waiting) →
      delivered a second = none := by
  refine (machine L).run_between (G := State.Good)
    (R := fun q => BTreeMap.Between a b q.lastChannel ∧ (q.view b).Waiting)
    (Q := fun c => delivered a c = none) good_initialState ?_ hrun
  intro c hgood hstep
  refine ⟨step_good hgood hstep, fun hfirst => ?_, fun hbetween => ?_⟩
  · obtain ⟨hdelivered, hwaiting⟩ := hfirst
    obtain ⟨-, hnone⟩ | ⟨id, -, hlast, hserved⟩ := step_turn hgood hstep
    · exact absurd (hnone a) hdelivered
    · obtain rfl := (hserved a).1 hdelivered
      rw [hlast]
      exact ⟨.start, hwaiting⟩
  · obtain ⟨hbetween, hwaiting⟩ := hbetween
    obtain ⟨slot, hslot⟩ := get?_of_waiting hwaiting
    obtain ⟨hlast, hnone⟩ | ⟨id, hnext, hlast, hserved⟩ := step_turn hgood hstep
    · rw [hlast]
      exact ⟨fun hkeep => ⟨hbetween, hkeep.2.2⟩, hnone a⟩
    · rw [nextChannel_eq] at hnext
      rw [hlast]
      obtain rfl | ⟨hother, hbetween'⟩ := hbetween.next hne hslot hnext
      · refine ⟨fun hkeep => absurd hkeep.2.1 ((hserved id).2 rfl), ?_⟩
        by_contra hsome
        exact hne ((hserved a).1 hsome)
      · refine ⟨fun hkeep => ⟨hbetween', hkeep.2.2⟩, ?_⟩
        by_contra hsome
        exact hother ((hserved a).1 hsome).symm

/-- **No channel starves.** In every run, after a pop has reported a gap on a channel with a
    frame behind it, the next pop of that channel delivers this frame; and between two pops
    of one channel every other channel that has something to deliver throughout is popped. -/
theorem serves_without_starvation (L : Layout) (ops : List Op) :
    ∃ q calls, (machine L).run (machine L).init ops = some (q, calls) ∧
      (∀ past gap mid next later id n f rest event,
        calls = past ++ gap :: (mid ++ next :: later) →
        delivered id gap = some (.streamGap id n) → (gap.after.view id).frames = f :: rest →
        (∀ c ∈ mid, delivered id c = none ∧ c.input ≠ .clear id) →
        delivered id next = some event → event = f.event) ∧
      ∀ past first mid second later a b,
        calls = past ++ first :: (mid ++ second :: later) →
        delivered a first ≠ none → delivered a second ≠ none →
        (∀ c ∈ mid, delivered a c = none) → a ≠ b →
        (∀ c ∈ first :: mid, (c.after.view b).frames ≠ [] ∨ 0 < (c.after.view b).skipped) →
        ∃ c ∈ mid, delivered b c ≠ none := by
  obtain ⟨q, calls, hrun, -⟩ := run_good L ops
  refine ⟨q, calls, hrun, ?_, ?_⟩
  · intro past gap mid next later id n f rest event heq hgap hframes hspares hnext
    exact run_promise hrun id n f event past gap mid next later heq ⟨hgap, rest, hframes⟩ hspares
      hnext
  · intro past first mid second later a b heq hfirst hsecond hmid hne hwaiting
    by_contra hnever
    have hskipped : ∀ c ∈ mid, delivered b c = none := by
      intro c hc
      by_contra hsome
      exact hnever ⟨c, hc, hsome⟩
    refine hsecond (run_turn hrun hne past first mid second later heq
      ⟨hfirst, hwaiting first List.mem_cons_self⟩ fun c hc => ⟨hmid c hc, hskipped c hc, ?_⟩)
    exact hwaiting c (List.mem_cons_of_mem _ hc)

end StreamQueue
