import EzSdr.StreamQueue.Conservation

/-! # Where Gaps Stand

    On a channel that carries only audio, evictions take frames in push order
    right behind what has been announced, so the single loss count of the
    channel always stands for one contiguous hole. The delivered stream is
    therefore the pushed stream with holes replaced by gap notices. -/

namespace StreamQueue

/-! ## Section 1: Streams with holes -/

/-- `Replays id pushed outs rest`: `outs` is a prefix of the stream `pushed`
    in which non-empty runs of frames are replaced by gap notices that carry
    their number, and `rest` is what follows that prefix in `pushed`. -/
inductive Replays (id : ChannelId) :
    List ServerEvent → List ServerEvent → List ServerEvent → Prop where
  | done (rest : List ServerEvent) : Replays id rest [] rest
  | frame (event : ServerEvent) {pushed outs rest : List ServerEvent}
      (h : Replays id pushed outs rest) : Replays id (event :: pushed) (event :: outs) rest
  | gap (hole : List ServerEvent) {pushed outs rest : List ServerEvent} (hne : hole ≠ [])
      (h : Replays id pushed outs rest) :
      Replays id (hole ++ pushed) (.streamGap id (min hole.length (2 ^ 64 - 1)) :: outs) rest

namespace Replays

variable {id : ChannelId} {pushed outs rest : List ServerEvent}

/-- A pushed frame is still to come. -/
theorem push (h : Replays id pushed outs rest) (event : ServerEvent) :
    Replays id (pushed ++ [event]) outs (rest ++ [event]) := by
  induction h with
  | done rest => exact .done _
  | frame e _ ih => exact .frame e ih
  | gap hole hne _ ih => rw [List.append_assoc]; exact .gap hole hne ih

/-- The next frame is delivered. -/
theorem deliver {event : ServerEvent} (h : Replays id pushed outs (event :: rest)) :
    Replays id pushed (outs ++ [event]) rest := by
  generalize hr : event :: rest = r at h
  induction h with
  | done r => rw [← hr]; exact .frame event (.done rest)
  | frame e _ ih => exact .frame e (ih hr)
  | gap hole hne _ ih => exact .gap hole hne (ih hr)

/-- The next frames are reported as lost. -/
theorem report {hole : List ServerEvent} (hne : hole ≠ [])
    (h : Replays id pushed outs (hole ++ rest)) :
    Replays id pushed (outs ++ [.streamGap id (min hole.length (2 ^ 64 - 1))]) rest := by
  generalize hr : hole ++ rest = r at h
  induction h with
  | done r => rw [← hr]; exact .gap hole hne (.done rest)
  | frame e _ ih => exact .frame e (ih hr)
  | gap hole' hne' _ ih => exact .gap hole' hne' (ih hr)

end Replays

/-! ## Section 2: The hole of a channel -/

/-- What an audio channel still has to deliver: the announced front, then a
    hole of as many frames as the loss count says, then the queued frames. -/
structure Pending (v : View) (rest : List ServerEvent) : Prop where
  audio : ∀ f ∈ v.frames, ∃ frame, f.event = .audio frame
  front : v.protectedCount ≤ v.frames.length
  hole  : ∃ hole, v.skipped = min hole.length (2 ^ 64 - 1) ∧
    rest = (v.frames.take v.protectedCount).map Queued.event ++ hole ++
      (v.frames.drop v.protectedCount).map Queued.event

theorem pending_initialState (id : ChannelId) : Pending (initialState.view id) [] :=
  ⟨by simp, by simp [View.protectedCount], [], by simp [View.protectedCount]⟩

/-- One more lost frame. -/
theorem saturatingAdd_min (n : ℕ) :
    saturatingAdd (min n (2 ^ 64 - 1)) 1 = min (n + 1) (2 ^ 64 - 1) := by
  unfold saturatingAdd
  omega

/-- Audio frames are never critical, so a list of critical audio frames is empty. -/
theorem eq_nil_of_critical_audio {frames : List Queued}
    (haudio : ∀ f ∈ frames, ∃ frame, f.event = .audio frame)
    (hcrit : ∀ f ∈ frames, isCriticalTelemetry f.event = true) : frames = [] := by
  refine List.eq_nil_iff_forall_not_mem.2 fun f hf => ?_
  obtain ⟨frame, hframe⟩ := haudio f hf
  have := hcrit f hf
  simp [hframe, isCriticalTelemetry] at this

/-- An eviction takes the frame right behind the hole. -/
theorem ViewEvict.pending {v v' : View} {rest : List ServerEvent} (h : ViewEvict v v')
    (hv : Pending v rest) : Pending v' rest := by
  obtain ⟨pre, old, post, hsplit, hprot, -, hfirst, rfl⟩ := h
  obtain ⟨haudio, -, hole, hskipped, hrest⟩ := hv
  obtain ⟨frame, hframe⟩ := haudio old (by simp [hsplit])
  have hcrit : ∀ f ∈ pre.drop v.protectedCount, isCriticalTelemetry f.event = true := by
    simpa [hframe, isPreview] using hfirst
  have hnil : pre.drop v.protectedCount = [] :=
    eq_nil_of_critical_audio
      (fun f hf => haudio f (by rw [hsplit]; simp [List.mem_of_mem_drop hf])) hcrit
  have hlen : pre.length = v.protectedCount := by
    have := List.drop_eq_nil_iff.1 hnil
    omega
  have hpc : View.protectedCount ⟨pre ++ post, saturatingAdd v.skipped 1, v.protectFront⟩ =
      pre.length := hlen.symm
  refine ⟨fun f hf => haudio f ?_, by simp [hpc], hole ++ [old.event], ?_, ?_⟩
  · rw [hsplit]
    simp only [List.mem_append, List.mem_cons] at hf ⊢
    tauto
  · rw [hskipped, saturatingAdd_min]
    simp
  · rw [hrest, hsplit, hpc, ← hlen]
    simp

theorem ViewEvictions.pending {v v' : View} {rest : List ServerEvent} (h : ViewEvictions v v')
    (hv : Pending v rest) : Pending v' rest := by
  induction h with
  | refl => exact hv
  | tail _ hs ih => exact ViewEvict.pending hs ih

/-- A push adds its frame behind everything else, also when it is lost at once. -/
theorem PushView.pending {frame : AudioFrame} {v v' : View} {rest : List ServerEvent}
    (h : PushView (.audio frame) v v') (hv : Pending v rest) :
    Pending v' (rest ++ [.audio frame]) := by
  cases h with
  | skipped v₁ hcrit hev hall hv' =>
    subst hv'
    obtain ⟨haudio, hfront, hole, hskipped, hrest⟩ := hev.pending hv
    have hnil : v₁.frames.drop v₁.protectedCount = [] :=
      eq_nil_of_critical_audio (fun f hf => haudio f (List.mem_of_mem_drop hf)) hall
    refine ⟨haudio, hfront, hole ++ [.audio frame], ?_, ?_⟩
    · simp only [View.skip, hskipped, saturatingAdd_min, List.length_append, List.length_singleton]
    · rw [hrest, hnil]
      simp only [View.skip, List.map_nil, List.append_nil, List.append_assoc]
      rw [show View.protectedCount { v₁ with skipped := saturatingAdd v₁.skipped 1 } =
        v₁.protectedCount from rfl, hnil]
      simp
  | queued v₁ entry hentry hev hshrink =>
    obtain ⟨haudio, hfront, hole, hskipped, hrest⟩ := hev.pending hv
    refine hshrink.pending ⟨?_, ?_, hole, hskipped, ?_⟩
    · intro f hf
      rcases List.mem_append.1 hf with hf | hf
      · exact haudio f hf
      · exact ⟨frame, by rw [List.mem_singleton.1 hf, hentry]⟩
    · simp only [View.append, List.length_append]
      exact Nat.le_add_right_of_le hfront
    · rw [hrest]
      simp only [View.append]
      rw [show View.protectedCount { v₁ with frames := v₁.frames ++ [entry] } =
        v₁.protectedCount from rfl, List.take_append_of_le_length hfront,
        List.drop_append_of_le_length hfront]
      simp [hentry]

/-- A delivery passes on what comes next: the hole as one gap, or one frame. -/
theorem PopView.replays {id : ChannelId} {v v' : View} {event : ServerEvent}
    {pushed outs rest : List ServerEvent} (h : PopView id v v' event) (hv : Pending v rest)
    (hreplays : Replays id pushed outs rest) :
    ∃ rest', Pending v' rest' ∧ Replays id pushed (outs ++ [event]) rest' := by
  obtain ⟨haudio, -, hole, hskipped, hrest⟩ := hv
  cases h with
  | gap hpos hfront hv' =>
    subst hv'
    have hpc : v.protectedCount = 0 := by simp [View.protectedCount, hfront]
    have hne : hole ≠ [] := by
      rintro rfl
      simp [hskipped] at hpos
    rw [hpc] at hrest
    simp only [List.take_zero, List.map_nil, List.nil_append, List.drop_zero] at hrest
    refine ⟨v.frames.map Queued.event, ⟨haudio, ?_, [], rfl, ?_⟩, ?_⟩
    · cases hf : v.frames <;> simp [View.protectedCount]
    · rw [List.append_nil, ← List.map_append, List.take_append_drop]
    · rw [hskipped]
      exact (hrest ▸ hreplays).report hne
  | frame next tail hframes hgap hv' =>
    subst hv'
    refine ⟨hole ++ tail.map Queued.event, ⟨fun f hf => haudio f ?_, ?_, hole, hskipped, ?_⟩, ?_⟩
    · rw [hframes]
      exact List.mem_cons_of_mem _ hf
    · simp [View.protectedCount]
    · simp [View.protectedCount]
    · refine Replays.deliver ?_
      have hsplit : rest = next.event :: (hole ++ tail.map Queued.event) := by
        cases hp : v.protectFront with
        | true => rw [hrest, hframes]; simp [View.protectedCount, hp]
        | false =>
          have hnil : hole = [] := by
            rcases hgap with hgap | hgap
            · rw [hskipped] at hgap
              exact List.length_eq_zero_iff.1 (by omega)
            · rw [hp] at hgap
              cases hgap
          rw [hrest, hframes, hnil]
          simp [View.protectedCount, hp]
      exact hsplit ▸ hreplays

/-! ## Section 3: When two gaps can be adjacent -/

/-- Is the event a gap notice? -/
def isGap : ServerEvent → Bool
  | .streamGap _ _ => true
  | _ => false

/-- What a call delivers from channel `id`, with the number of frames that
    were queued on the channel. -/
def deliveredFrom (id : ChannelId) (c : Call) : Option (ServerEvent × ℕ) :=
  (delivered id c).map fun event => (event, (c.before.view id).frames.length)

/-- A gap notice that leaves frames queued is followed by a frame. -/
def FrameAfterGap (a b : ServerEvent × ℕ) : Prop :=
  isGap a.1 = true → 0 < a.2 → isGap b.1 = false

theorem ViewEvictions.protectFront {v v' : View} (h : ViewEvictions v v') :
    v'.protectFront = v.protectFront := by
  induction h with
  | refl => rfl
  | tail _ hs ih =>
    obtain ⟨pre, old, post, -, -, -, -, rfl⟩ := hs
    exact ih

theorem PushView.protectFront {event : ServerEvent} {v v' : View} (h : PushView event v v') :
    v'.protectFront = v.protectFront := by
  cases h with
  | skipped v₁ hcrit hev hall hv' => subst hv'; exact hev.protectFront
  | queued v₁ entry hentry hev hshrink => exact hshrink.protectFront.trans hev.protectFront

/-- The deliveries so far keep the rule, and the front is protected while a
    gap notice waits for the frame it announced. -/
structure Alternates (outs : List (ServerEvent × ℕ)) (v : View) : Prop where
  chain : outs.IsChain FrameAfterGap
  last  : ∀ a ∈ outs.getLast?, isGap a.1 = true → 0 < a.2 → v.protectFront = true

theorem Alternates.deliver {id : ChannelId} {outs : List (ServerEvent × ℕ)} {v v' : View}
    {event : ServerEvent} (h : Alternates outs v) (hpop : PopView id v v' event)
    (hstream : ∀ f ∈ v.frames, isGap f.event = false) :
    Alternates (outs ++ [(event, v.frames.length)]) v' := by
  refine ⟨List.isChain_append.2 ⟨h.chain, List.isChain_singleton _, ?_⟩, ?_⟩
  · intro a ha b hb hgap hpos
    obtain rfl : (event, v.frames.length) = b := by simpa using hb
    cases hpop with
    | gap hskipped hfront hv' => rw [h.last a ha hgap hpos] at hfront; cases hfront
    | frame next rest hframes hnext hv' => exact hstream next (by simp [hframes])
  · intro a ha hgap hpos
    obtain rfl : (event, v.frames.length) = a := by simpa using ha
    cases hpop with
    | gap hskipped hfront hv' =>
      rw [hv']
      simpa [List.isEmpty_iff, List.length_pos_iff] using hpos
    | frame next rest hframes hnext hv' =>
      rw [hstream next (by simp [hframes])] at hgap
      cases hgap

/-! ## Section 4: Runs -/

/-- Pushes to channel `id` are audio frames, no losses are reported to it, and
    no channel is cleared. -/
def AudioOnly (id : ChannelId) : Op → Prop
  | .push event _   => channelOf event = some id → ∃ frame, event = .audio frame
  | .noteGap j _ _  => j ≠ id
  | .pop            => True
  | .clear _        => False

/-- The history of an audio channel: where its gaps stand, and what is still
    to come. -/
structure Placed (id : ChannelId) (calls : List Call) (q : State) : Prop where
  stream     : ∃ rest, Replays id (taken id calls) (deliveries id calls) rest ∧
    Pending (q.view id) rest
  alternates : Alternates (calls.filterMap (deliveredFrom id)) (q.view id)

theorem noted_eq_zero_of_audioOnly {id : ChannelId} {c : Call} (h : AudioOnly id c.input) :
    noted id c = 0 := by
  obtain ⟨before, input, output, after⟩ := c
  cases input with
  | push event at' =>
    cases event with
    | streamGap j n =>
      have hj : j ≠ id := by
        rintro rfl
        obtain ⟨frame, hframe⟩ := h rfl
        cases hframe
      rcases output with (_ | _) | _ | _ <;> simp [noted, hj]
    | _ => rfl
  | noteGap j n at' =>
    have hj : j ≠ id := h
    rcases output with (_ | _) | _ | _ <;> simp [noted, hj]
  | _ => rfl

theorem audio_of_taken {id : ChannelId} {c : Call} {event : ServerEvent}
    (h : AudioOnly id c.input) (htaken : takenIn id c = some event) :
    ∃ frame, event = .audio frame := by
  obtain ⟨before, input, output, after⟩ := c
  cases input with
  | push e at' =>
    simp only [takenIn] at htaken
    split_ifs at htaken with hc
    obtain rfl := Option.some.inj htaken
    obtain ⟨p, hp, hid⟩ := Option.map_eq_some_iff.1 hc.1
    exact h (by rw [channelOf_of_target (show target e = some (p.1, p.2) from hp), hid])
  | _ => cases htaken

/-- A call that delivers nothing from the channel. -/
theorem Placed.quiet {id : ChannelId} {calls : List Call} {c : Call} {rest : List ServerEvent}
    (hreplays : Replays id (taken id (calls ++ [c])) (deliveries id calls) rest)
    (hpending : Pending (c.after.view id) rest)
    (halt : Alternates (calls.filterMap (deliveredFrom id)) (c.before.view id))
    (hfront : (c.after.view id).protectFront = (c.before.view id).protectFront)
    (hdelivered : delivered id c = none) : Placed id (calls ++ [c]) c.after := by
  have hdel : (calls ++ [c]).filterMap (deliveredFrom id) =
      calls.filterMap (deliveredFrom id) := by
    simp [deliveredFrom, hdelivered]
  refine ⟨⟨rest, ?_, hpending⟩, ?_⟩
  · rw [deliveries_append, hdelivered]
    simpa using hreplays
  · rw [hdel]
    exact ⟨halt.chain, fun a ha hg hp => by rw [hfront]; exact halt.last a ha hg hp⟩

/-- One call keeps the gaps in place. -/
theorem Placed.move {id : ChannelId} {calls : List Call} {c : Call}
    (h : Placed id calls c.before) (haudio : AudioOnly id c.input) (hmove : Move id c) :
    Placed id (calls ++ [c]) c.after := by
  obtain ⟨⟨rest, hreplays, hpending⟩, halt⟩ := h
  cases hmove with
  | taken event htaken hnoted hdelivered hview =>
    obtain ⟨frame, rfl⟩ := audio_of_taken haudio htaken
    refine .quiet ?_ (hview.pending hpending) halt hview.protectFront hdelivered
    rw [taken_append, htaken]
    exact hreplays.push (.audio frame)
  | noted n hpos htaken hnoted hdelivered hview =>
    rw [noted_eq_zero_of_audioOnly haudio] at hnoted
    omega
  | delivered event htaken hnoted hdelivered hview =>
    obtain ⟨rest', hpending', hreplays'⟩ := hview.replays hpending hreplays
    have hstream : ∀ f ∈ (c.before.view id).frames, isGap f.event = false := fun f hf => by
      obtain ⟨frame, hframe⟩ := hpending.audio f hf
      rw [hframe]
      rfl
    refine ⟨⟨rest', ?_, hpending'⟩, ?_⟩
    · rw [taken_append, deliveries_append, htaken, hdelivered]
      simpa using hreplays'
    · have hdel : (calls ++ [c]).filterMap (deliveredFrom id) =
          calls.filterMap (deliveredFrom id) ++ [(event, (c.before.view id).frames.length)] := by
        simp [deliveredFrom, hdelivered]
      rw [hdel]
      exact halt.deliver hview hstream
  | other htaken hnoted hdelivered hview =>
    refine .quiet ?_ (hview.pending hpending) halt hview.protectFront hdelivered
    rw [taken_append, htaken]
    simpa using hreplays

/-- Gap placement: on a channel that carries only audio frames, the delivered
    stream is the pushed stream, in order, with runs of missing frames replaced
    by gap notices of their length at their place; what has not been delivered
    is the hole counted so far and the queued frames. Two gap notices are
    adjacent only if the first one left no frame queued on the channel. -/
theorem run_placed (L : Layout) (id : ChannelId) (ops : List Op)
    (hops : ∀ op ∈ ops, AudioOnly id op) :
    ∃ q calls, (machine L).run (machine L).init ops = some (q, calls) ∧
      (∃ rest, Replays id (taken id calls) (deliveries id calls) rest ∧
        Pending (q.view id) rest) ∧
      (calls.filterMap (deliveredFrom id)).IsChain FrameAfterGap ∧ Answered id calls := by
  obtain ⟨q, calls, hrun, hplaced, hanswered⟩ := run_moves L
    (P := fun calls q => Placed id calls q ∧ Answered id calls) (I := AudioOnly id)
    (fun op hop i heq => by rw [heq] at hop; exact hop)
    ⟨⟨⟨[], .done [], pending_initialState id⟩, .nil, by simp⟩, by simp [Answered]⟩
    (fun _ _ _ hop hstep hmoves hP => ⟨hP.1.move hop (hmoves id), hP.2.append hstep⟩) ops hops
  exact ⟨q, calls, hrun, hplaced.stream, hplaced.alternates.chain, hanswered⟩

/-- Nine frames of which the queue holds eight. -/
def nineFrames : List Op :=
  (List.range 9).map fun i => .push (.audio ⟨i, 5, 48000, 1, []⟩) i

/-- Placement of a gap: the first of nine frames is evicted, and the notice of it comes first. -/
theorem run_placed_gap :
    ∃ q calls, (machine ⟨112, 160⟩).run initialState (nineFrames ++ [.pop, .pop]) =
        some (q, calls) ∧
      deliveries 5 calls = [.streamGap 5 1, .audio ⟨1, 5, 48000, 1, []⟩] ∧
      (∃ rest, Replays 5 (taken 5 calls) (deliveries 5 calls) rest ∧ Pending (q.view 5) rest) ∧
      (calls.filterMap (deliveredFrom 5)).IsChain FrameAfterGap := by
  have honly : ∀ op ∈ nineFrames ++ [.pop, .pop], AudioOnly 5 op := by
    intro op hop
    rcases List.mem_append.1 hop with hpush | hpop
    · obtain ⟨i, -, rfl⟩ := List.mem_map.1 hpush
      exact fun _ => ⟨_, rfl⟩
    · obtain rfl : op = .pop := by simpa using hpop
      trivial
  obtain ⟨q, calls, hrun, hstream, hchain, -⟩ := run_placed ⟨112, 160⟩ 5 _ honly
  refine ⟨q, calls, hrun, ?_, hstream, hchain⟩
  cases hrun
  rfl

/-! ## Section 5: One run of losses reported twice -/

/-- A queue that holds one critical frame, on channel 9. -/
def holding (L : Layout) (frame : TelemetryFrame) (last : Option ChannelId) (skipped : ℕ) : State :=
  ⟨BTreeMap.empty.insert 9
      ⟨[⟨.telemetry frame, 0, weight L (.telemetry frame)⟩], 0, some 0, false⟩,
    last, weight L (.telemetry frame), skipped⟩

/-- `holding` after the loss of a frame of channel 5. -/
def losing (L : Layout) (frame : TelemetryFrame) (at' : Instant) (last : Option ChannelId)
    (skipped : ℕ) : State :=
  { holding L frame last skipped with
    channels := (holding L frame last skipped).channels.insert 5 ⟨[], 1, some at', false⟩ }

theorem push_holding (L : Layout) {frame : TelemetryFrame} (hframe : frame.channelId = 9)
    (hfinal : frame.finalProduct = true)
    (hfit : weight L (.telemetry frame) ≤ STREAM_BYTE_CAPACITY) :
    initialState.push L (.telemetry frame) 0 = some (true, holding L frame none 0) := by
  simp [holding, State.push, target, State.enqueue, State.setSlot, hfinal, isCriticalTelemetry,
    State.coalescePreview, State.makeRoom, State.append, State.shrinkToBudget, hfit,
    initialState, TELEMETRY_FINAL_CAPACITY, Inhabited.default, STREAM_CHANNEL_CAPACITY, hframe,
    BTreeMap.insert, BTreeMap.alter, BTreeMap.alterEntries, BTreeMap.entryFor, BTreeMap.empty,
    BTreeMap.get?, BTreeMap.lookupEntries, BTreeMap.contains, BTreeMap.size]

/-- `holding` with one frame queued on channel 5. -/
def crowded (L : Layout) (frame : TelemetryFrame) (a : AudioFrame) (at' : Instant)
    (last : Option ChannelId) (skipped : ℕ) : State :=
  ⟨(holding L frame last skipped).channels.insert 5
      ⟨[⟨.audio a, at', weight L (.audio a)⟩], 0, some at', false⟩,
    last, weight L (.telemetry frame) + weight L (.audio a), skipped⟩

theorem shrink_crowded (L : Layout) {frame : TelemetryFrame} (a : AudioFrame)
    (hfinal : frame.finalProduct = true)
    (hfit : weight L (.telemetry frame) ≤ STREAM_BYTE_CAPACITY)
    (hover : STREAM_BYTE_CAPACITY < weight L (.telemetry frame) + weight L (.audio a))
    (at' : Instant) (last : Option ChannelId) {skipped : ℕ} (hs : skipped < 2) (fuel : ℕ) :
    (crowded L frame a at' last skipped).shrinkToBudget (fuel + 2) =
      some (true, losing L frame at' last (skipped + 1)) := by
  have hvictim : (crowded L frame a at' last skipped).oldestVictim = some 5 := by
    simp [crowded, holding, State.oldestVictim, Slot.evictionVictim, Slot.protectedCount,
      List.minOn?, BTreeMap.insert, BTreeMap.alter, BTreeMap.alterEntries, BTreeMap.entryFor,
      BTreeMap.empty, isCriticalTelemetry, hfinal]
  have hslot : (crowded L frame a at' last skipped).channels.get? 5 =
      some ⟨[⟨.audio a, at', weight L (.audio a)⟩], 0, some at', false⟩ :=
    BTreeMap.get?_insert_self _ _ _
  have hevict : (crowded L frame a at' last skipped).evict 5 0 =
      some (losing L frame at' last (skipped + 1)) := by
    simp only [State.evict, hslot, checkedSub]
    simp [crowded, losing, holding, State.setSlot, Slot.skip, saturatingAdd,
      BTreeMap.insert, BTreeMap.alter, BTreeMap.alterEntries, BTreeMap.entryFor, BTreeMap.empty]
    omega
  have hbytes : ¬ (crowded L frame a at' last skipped).bytes ≤ STREAM_BYTE_CAPACITY :=
    Nat.not_le.2 hover
  have hfit' : (losing L frame at' last (skipped + 1)).bytes ≤ STREAM_BYTE_CAPACITY := hfit
  rw [State.shrinkToBudget, if_neg hbytes]
  simp only [hvictim, hslot, Option.bind_eq_bind, Option.bind_some]
  simp only [Slot.evictionVictim, Slot.protectedCount, isCriticalTelemetry, List.zipIdx_cons,
    List.zipIdx_nil, List.drop_zero, Bool.false_eq_true, if_false, Bool.not_false,
    List.find?_cons_of_pos, Option.bind_some, hevict]
  rw [State.shrinkToBudget, if_pos hfit']

theorem push_losing (L : Layout) {frame : TelemetryFrame} {a : AudioFrame}
    (hfinal : frame.finalProduct = true) (ha : a.channelId = 5)
    (hfit : weight L (.telemetry frame) ≤ STREAM_BYTE_CAPACITY)
    (hover : STREAM_BYTE_CAPACITY < weight L (.telemetry frame) + weight L (.audio a))
    (at' : Instant) (last : Option ChannelId) {skipped : ℕ} (hs : skipped < 2) :
    (holding L frame last skipped).push L (.audio a) at' =
      some (true, losing L frame at' last (skipped + 1)) := by
  have hnew : (holding L frame last skipped).channels.get? 5 = none := by
    rw [holding, BTreeMap.get?_insert_ne _ (by decide), BTreeMap.get?_empty]
  have hsize : (holding L frame last skipped).channels.size = 1 := rfl
  have hlim : ¬ 1 ≥ STREAM_CHANNEL_CAPACITY := by decide
  have happend : ((holding L frame last skipped).setSlot 5 ⟨[], 0, some at', false⟩).append 5
      ⟨.audio a, at', weight L (.audio a)⟩ = some (crowded L frame a at' last skipped) := by
    simp [State.append, State.setSlot, crowded, holding, BTreeMap.insert, BTreeMap.alter,
      BTreeMap.alterEntries, BTreeMap.entryFor, BTreeMap.empty, BTreeMap.get?,
      BTreeMap.lookupEntries]
  have hslot : ((holding L frame last skipped).setSlot 5 ⟨[], 0, some at', false⟩).channels.get? 5 =
      some ⟨[], 0, some at', false⟩ := BTreeMap.get?_insert_self _ _ _
  have hframes : (crowded L frame a at' last skipped).queuedFrames = 2 := rfl
  simp only [State.push, target, ha, BTreeMap.contains, hnew, hsize, hlim, Option.isSome_none,
    Bool.not_false, Bool.true_and, decide_false, Bool.false_eq_true, if_false, Option.getD_none,
    Inhabited.default]
  simp [State.enqueue, hslot, isCriticalTelemetry, State.coalescePreview, State.makeRoom,
    STREAM_AUDIO_CAPACITY, happend, hframes, shrink_crowded L a hfinal hfit hover at' last hs 1]

theorem pop_losing (L : Layout) (frame : TelemetryFrame) (at' : Instant) {last : Option ChannelId}
    (hlast : last = none ∨ last = some 9) (skipped : ℕ) :
    (losing L frame at' last skipped).pop =
      some (some (.streamGap 5 1, at'), holding L frame (some 5) skipped) := by
  rcases hlast with rfl | rfl <;>
  simp [losing, holding, State.pop, State.nextChannel, BTreeMap.keys, State.settle, Slot.isIdle,
    BTreeMap.insert, BTreeMap.alter, BTreeMap.alterEntries, BTreeMap.entryFor, BTreeMap.empty,
    BTreeMap.get?, BTreeMap.lookupEntries, BTreeMap.erase]

theorem pop_held (L : Layout) (frame : TelemetryFrame) (at' : Instant) (skipped : ℕ) :
    ∃ q, (losing L frame at' (some 5) skipped).pop = some (some (.telemetry frame, 0), q) ∧
      q.pop = some (some (.streamGap 5 1, at'), ⟨BTreeMap.empty, some 5, 0, skipped⟩) := by
  refine ⟨⟨BTreeMap.empty.insert 5 ⟨[], 1, some at', false⟩, some 9, 0, skipped⟩, ?_, ?_⟩
  all_goals
    simp [losing, holding, State.pop, State.nextChannel, BTreeMap.keys, State.settle, Slot.isIdle,
      checkedSub, BTreeMap.insert, BTreeMap.alter, BTreeMap.alterEntries, BTreeMap.entryFor,
      BTreeMap.empty, BTreeMap.get?, BTreeMap.lookupEntries, BTreeMap.erase]
/-- A frame lost after a gap was delivered to an empty channel is reported by a
    second gap, so one run of two missing frames becomes two gap notices. -/
theorem losses_reported_twice (L : Layout) {frame : TelemetryFrame} {a b : AudioFrame}
    (hframe : frame.channelId = 9) (hfinal : frame.finalProduct = true)
    (ha : a.channelId = 5) (hb : b.channelId = 5)
    (hfit : weight L (.telemetry frame) ≤ STREAM_BYTE_CAPACITY)
    (hovera : STREAM_BYTE_CAPACITY < weight L (.telemetry frame) + weight L (.audio a))
    (hoverb : STREAM_BYTE_CAPACITY < weight L (.telemetry frame) + weight L (.audio b)) :
    ∃ q calls, (machine L).run initialState
        [.push (.telemetry frame) 0, .push (.audio a) 1, .pop, .push (.audio b) 2, .pop, .pop] =
          some (q, calls) ∧
      taken 5 calls = [.audio a, .audio b] ∧
      deliveries 5 calls = [.streamGap 5 1, .streamGap 5 1] := by
  obtain ⟨q₅, hpop₅, hpop₆⟩ := pop_held L frame 2 2
  -- one step after the other; only the weights of the frames are not known
  have h₁ : step L initialState (.push (.telemetry frame) 0) =
      some (holding L frame none 0, .accepted true) := by
    simp [step, push_holding L hframe hfinal hfit]
  have h₂ : step L (holding L frame none 0) (.push (.audio a) 1) =
      some (losing L frame 1 none 1, .accepted true) := by
    simp [step, push_losing L hfinal ha hfit hovera 1 none Nat.zero_lt_two]
  have h₃ : step L (losing L frame 1 none 1) .pop =
      some (holding L frame (some 5) 1, .popped (some (.streamGap 5 1, 1))) := by
    simp [step, pop_losing L frame 1 (.inl rfl) 1]
  have h₄ : step L (holding L frame (some 5) 1) (.push (.audio b) 2) =
      some (losing L frame 2 (some 5) 2, .accepted true) := by
    simp [step, push_losing L hfinal hb hfit hoverb 2 (some 5) Nat.one_lt_two]
  have h₅ : step L (losing L frame 2 (some 5) 2) .pop =
      some (q₅, .popped (some (.telemetry frame, 0))) := by
    simp [step, hpop₅]
  have h₆ : step L q₅ .pop =
      some (⟨BTreeMap.empty, some 5, 0, 2⟩, .popped (some (.streamGap 5 1, 2))) := by
    simp [step, hpop₆]
  have htarget₁ : target (.audio a) = some (5, STREAM_AUDIO_CAPACITY) := by rw [target, ha]
  have htarget₂ : target (.audio b) = some (5, STREAM_AUDIO_CAPACITY) := by rw [target, hb]
  have htaken₁ := (step_taken h₂ rfl htarget₁).1 rfl
  have htaken₂ := (step_taken h₄ rfl htarget₂).1 rfl
  refine ⟨_, _, Machine.run_cons_eq_some _ |>.2 ⟨_, _, _, h₁,
    Machine.run_cons_eq_some _ |>.2 ⟨_, _, _, h₂,
    Machine.run_cons_eq_some _ |>.2 ⟨_, _, _, h₃,
    Machine.run_cons_eq_some _ |>.2 ⟨_, _, _, h₄,
    Machine.run_cons_eq_some _ |>.2 ⟨_, _, _, h₅,
    Machine.run_cons_eq_some _ |>.2 ⟨_, _, _, h₆, rfl, rfl⟩, rfl⟩, rfl⟩, rfl⟩, rfl⟩, rfl⟩, ?_, ?_⟩
  · have hnone : takenIn 5 ⟨initialState, .push (.telemetry frame) 0, .accepted true,
        holding L frame none 0⟩ = none := by
      simp [takenIn, target, hframe]
    simp only [taken, List.filterMap_cons, hnone, htaken₁, htaken₂]
    rfl
  · simp [deliveries, List.filterMap_cons, delivered, channelOf, hframe]

/-- An audio frame of `n` silent samples for channel 5. -/
def silence (sequence n : ℕ) : AudioFrame := ⟨sequence, 5, 48000, 1, List.replicate n 0⟩

@[simp] theorem weight_silence (L : Layout) (sequence n : ℕ) :
    weight L (.audio (silence sequence n)) = L.serverEvent + n * 4 := by
  simp [weight, silence]

/-- One maximal run of two missing frames is not replaced by one gap of two. -/
theorem losses_reported_twice_audio :
    ∃ q calls, (machine ⟨112, 160⟩).run initialState
        [.push (.telemetry (finalProductOf 9 106997)) 0, .push (.audio (silence 1 480)) 1, .pop,
          .push (.audio (silence 2 480)) 2, .pop, .pop] = some (q, calls) ∧
      taken 5 calls = [.audio (silence 1 480), .audio (silence 2 480)] ∧
      deliveries 5 calls = [.streamGap 5 1, .streamGap 5 1] :=
  losses_reported_twice ⟨112, 160⟩ rfl rfl rfl rfl (by simp [STREAM_BYTE_CAPACITY])
    (by simp [STREAM_BYTE_CAPACITY]) (by simp [STREAM_BYTE_CAPACITY])

end StreamQueue
