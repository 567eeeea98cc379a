import EzSdr.StreamQueue.Channel

/-! # Conservation of Frames

    Every frame a channel takes in, and every loss reported to it, leaves the
    queue exactly once: as a delivered frame or inside the number of a gap
    notice. What has not left yet is queued or in the pending count. -/

namespace StreamQueue

/-! ## Section 1: What a channel holds -/

/-- Frames queued or counted as skipped. -/
def View.held (v : View) : ℕ := v.frames.length + v.skipped

@[simp] theorem held_initialState (id : ChannelId) : (initialState.view id).held = 0 := rfl

/-- A frame leaves the queue as one frame, a gap notice as the losses it reports. -/
def leaving : ServerEvent → ℕ
  | .streamGap _ dropped => dropped
  | _ => 1

theorem leaving_of_target {event : ServerEvent} {p : ChannelId × ℕ} (h : target event = some p) :
    leaving event = 1 := by
  cases event <;> first | rfl | simp [target] at h

theorem saturatingAdd_eq {a b : ℕ} (h : a + b < 2 ^ 64) : saturatingAdd a b = a + b := by
  unfold saturatingAdd
  omega

/-- An eviction moves one frame from the queue into the count. -/
theorem ViewEvictions.held {v v' : View} (h : ViewEvictions v v') (hv : v.held < 2 ^ 64) :
    v'.held = v.held := by
  induction h with
  | refl => rfl
  | tail _ hs ih =>
    obtain ⟨pre, old, post, hsplit, -, -, -, rfl⟩ := hs
    rw [← ih]
    simp only [View.held, hsplit, List.length_append, List.length_cons] at ih hv ⊢
    rw [saturatingAdd_eq (by omega)]
    omega

/-- A push that is taken in adds one frame, queued or counted. -/
theorem PushView.held {event : ServerEvent} {v v' : View} (h : PushView event v v')
    (hv : v.held + 1 < 2 ^ 64) : v'.held = v.held + 1 := by
  cases h with
  | skipped v₁ hcrit hev hall hv' =>
    have h₁ := hev.held (by omega)
    subst hv'
    simp only [View.held, View.skip] at h₁ hv ⊢
    rw [saturatingAdd_eq (by omega)]
    omega
  | queued v₁ entry hentry hev hshrink =>
    have h₁ := hev.held (by omega)
    have h₂ : (v₁.append entry).held = v.held + 1 := by
      simp only [View.held, View.append, List.length_append, List.length_singleton] at h₁ ⊢
      omega
    rw [hshrink.held (by omega), h₂]

/-- A delivery takes out what it delivers. -/
theorem PopView.held {id : ChannelId} {v v' : View} {event : ServerEvent}
    (h : PopView id v v' event) (hstream : ∀ f ∈ v.frames, leaving f.event = 1) :
    v'.held + leaving event = v.held := by
  cases h with
  | gap hskipped hfront hv' => simp [hv', View.held, leaving]
  | frame next rest hframes hgap hv' =>
    rw [hstream next (by simp [hframes])]
    simp only [hv', View.held, hframes, List.length_cons]
    omega

/-! ## Section 2: Counting over a run -/

/-- The stream frames channel `id` has taken in. -/
def taken (id : ChannelId) (calls : List Call) : List ServerEvent :=
  calls.filterMap (takenIn id)

/-- The losses reported to the queue for channel `id`. -/
def notedTotal (id : ChannelId) (calls : List Call) : ℕ := (calls.map (noted id)).sum

/-- The frames and gap notices channel `id` has delivered. -/
def deliveries (id : ChannelId) (calls : List Call) : List ServerEvent :=
  calls.filterMap (delivered id)

/-- Frames delivered plus losses reported in delivered gap notices. -/
def left (id : ChannelId) (calls : List Call) : ℕ := ((deliveries id calls).map leaving).sum

theorem taken_append (id : ChannelId) (calls : List Call) (c : Call) :
    taken id (calls ++ [c]) = taken id calls ++ (takenIn id c).toList := by
  cases h : takenIn id c <;> simp [taken, h]

theorem deliveries_append (id : ChannelId) (calls : List Call) (c : Call) :
    deliveries id (calls ++ [c]) = deliveries id calls ++ (delivered id c).toList := by
  cases h : delivered id c <;> simp [deliveries, h]

theorem notedTotal_append (id : ChannelId) (calls : List Call) (c : Call) :
    notedTotal id (calls ++ [c]) = notedTotal id calls + noted id c := by
  simp [notedTotal]

theorem left_append (id : ChannelId) (calls : List Call) (c : Call) :
    left id (calls ++ [c]) = left id calls + ((delivered id c).map leaving).getD 0 := by
  rw [left, deliveries_append]
  cases delivered id c <;> simp [left]

/-- Conservation on channel `id`, as long as no count can have saturated. -/
def Conserved (id : ChannelId) (calls : List Call) (q : State) : Prop :=
  (taken id calls).length + notedTotal id calls < 2 ^ 64 →
    (taken id calls).length + notedTotal id calls = left id calls + (q.view id).held

/-- One call conserves the frames of every channel. -/
theorem Conserved.move {id : ChannelId} {calls : List Call} {c : Call}
    (h : Conserved id calls c.before) (hfiled : c.before.Filed) (hmove : Move id c) :
    Conserved id (calls ++ [c]) c.after := by
  intro hsat
  rw [taken_append, notedTotal_append] at hsat ⊢
  rw [left_append]
  cases hmove with
  | taken event htaken hnoted hdelivered hview =>
    simp only [htaken, hnoted, hdelivered, Option.toList_some, List.length_append,
      List.length_singleton, Option.map_none, Option.getD_none] at hsat ⊢
    have hbefore := h (by omega)
    rw [hview.held (by omega)]
    omega
  | noted n hpos htaken hnoted hdelivered hview =>
    simp only [htaken, hnoted, hdelivered, Option.toList_none, List.append_nil,
      Option.map_none, Option.getD_none] at hsat ⊢
    have hbefore := h (by omega)
    simp only [hview, View.held] at hbefore ⊢
    rw [saturatingAdd_eq (by omega)]
    omega
  | delivered event htaken hnoted hdelivered hview =>
    simp only [htaken, hnoted, hdelivered, Option.toList_none, List.append_nil,
      Option.map_some, Option.getD_some] at hsat ⊢
    have hbefore := h (by omega)
    have hheld := hview.held fun f hf => by
      obtain ⟨capacity, htarget⟩ := hfiled id f hf
      exact leaving_of_target htarget
    omega
  | other htaken hnoted hdelivered hview =>
    simp only [htaken, hnoted, hdelivered, Option.toList_none, List.append_nil,
      Option.map_none, Option.getD_none] at hsat ⊢
    have hbefore := h (by omega)
    rw [hview.held (by omega)]
    omega

/-! ## Section 3: The conservation law -/

/-- Conservation: after every run without `clear`, the frames channel `id` has
    taken in plus the losses reported for it are the frames delivered, plus the
    losses delivered gap notices report, plus what is queued and pending, unless
    that number is beyond the range of the 64-bit counters. -/
theorem run_conserved (L : Layout) (ops : List Op) (hops : ∀ op ∈ ops, ∀ i, op ≠ .clear i)
    (id : ChannelId) :
    ∃ q calls, (machine L).run (machine L).init ops = some (q, calls) ∧
      ((taken id calls).length + notedTotal id calls < 2 ^ 64 →
        (taken id calls).length + notedTotal id calls =
          ((deliveries id calls).map leaving).sum + (q.view id).frames.length +
            (q.view id).skipped) ∧
      Answered id calls := by
  obtain ⟨q, calls, hrun, hcons, hanswered⟩ := run_moves L
    (P := fun calls q => Conserved id calls q ∧ Answered id calls)
    (I := fun op => ∀ i, op ≠ .clear i) (fun _ h => h)
    ⟨fun _ => (held_initialState id).symm, by simp [Answered]⟩
    (fun calls c hgood _ hstep hmoves hP =>
      ⟨hP.1.move hgood.filed (hmoves id), hP.2.append hstep⟩)
    ops hops
  refine ⟨q, calls, hrun, fun hsat => ?_, hanswered⟩
  have h := hcons hsat
  simp only [left, View.held] at h
  omega

/-- The law at a snapshot that a newer one evicts: the gap notice reports it. -/
theorem run_conserved_evicted :
    ∃ q calls, (machine ⟨112, 160⟩).run initialState
        [.push (.spectrum ⟨5, 0, 0, [1], 0, none⟩) 0, .push (.spectrum ⟨5, 0, 0, [2], 1, none⟩) 1,
          .push (.streamGap 5 3) 2, .pop] = some (q, calls) ∧
      (taken 5 calls).length = 2 ∧ notedTotal 5 calls = 3 ∧
      (deliveries 5 calls).map leaving = [4] ∧
      (taken 5 calls).length + notedTotal 5 calls =
        ((deliveries 5 calls).map leaving).sum + (q.view 5).frames.length +
          (q.view 5).skipped := by
  obtain ⟨q, calls, hrun, hcons, -⟩ := run_conserved ⟨112, 160⟩
    [.push (.spectrum ⟨5, 0, 0, [1], 0, none⟩) 0, .push (.spectrum ⟨5, 0, 0, [2], 1, none⟩) 1,
      .push (.streamGap 5 3) 2, .pop] (by simp) 5
  have hvalues : (taken 5 calls).length = 2 ∧ notedTotal 5 calls = 3 ∧
      (deliveries 5 calls).map leaving = [4] := by
    cases hrun
    exact ⟨rfl, rfl, rfl⟩
  obtain ⟨htaken, hnoted, hdelivered⟩ := hvalues
  exact ⟨q, calls, hrun, htaken, hnoted, hdelivered, hcons (by rw [htaken, hnoted]; decide)⟩

/-! ## Section 4: A frame queued by a failed push -/

/-- Stream frames of channel `id` whose push answered `true`. -/
def succeeded (id : ChannelId) (c : Call) : Option ServerEvent :=
  match c.input, c.output with
  | .push event _, .accepted true =>
    if (target event).map Prod.fst = some id then some event else none
  | _, _ => none

/-- A final product of `rows` scanlines. -/
def finalProductOf (channelId : ChannelId) (rows : ℕ) : TelemetryFrame where
  productId            := 1
  channelId            := channelId
  apid                 := 64
  width                := 1568
  height               := rows
  pixels               := List.replicate (1568 * rows) 0
  lineTimesUnixSeconds := []
  finalProduct         := true
  productComplete      := false

@[simp] theorem weight_finalProductOf (L : Layout) (id : ChannelId) (rows : ℕ) :
    weight L (.telemetry (finalProductOf id rows)) = L.serverEvent + 1568 * rows := by
  simp [weight, finalProductOf]

/-- The budget cannot be met, as a final product is never evicted: the push
    fails and leaves the frame queued. -/
theorem push_over_budget (L : Layout) (frame : TelemetryFrame) (hfinal : frame.finalProduct = true)
    (hbig : STREAM_BYTE_CAPACITY < weight L (.telemetry frame)) :
    ∃ q, initialState.push L (.telemetry frame) 0 = some (false, q) ∧
      (q.view frame.channelId).frames.length + (q.view frame.channelId).skipped = 1 := by
  refine ⟨⟨BTreeMap.empty.insert frame.channelId
      ⟨[⟨.telemetry frame, 0, weight L (.telemetry frame)⟩], 0, some 0, false⟩,
    none, weight L (.telemetry frame), 0⟩, ?_, by simp [State.view, Slot.view]⟩
  simp [State.push, target, State.enqueue, State.setSlot, hfinal, isCriticalTelemetry,
    State.coalescePreview, State.makeRoom, State.append, State.shrinkToBudget, Nat.not_le.2 hbig,
    initialState, TELEMETRY_FINAL_CAPACITY, Inhabited.default, STREAM_CHANNEL_CAPACITY,
    State.oldestVictim, Slot.evictionVictim, Slot.protectedCount, List.minOn?,
    BTreeMap.insert, BTreeMap.alter, BTreeMap.alterEntries, BTreeMap.entryFor, BTreeMap.empty,
    BTreeMap.get?, BTreeMap.lookupEntries, BTreeMap.contains, BTreeMap.size]

/-- A push that fails at the byte budget leaves a frame nobody counts. -/
theorem failed_push_queued (L : Layout) (id : ChannelId) {rows : ℕ}
    (hbig : STREAM_BYTE_CAPACITY < weight L (.telemetry (finalProductOf id rows))) :
    ∃ q calls, (machine L).run initialState [.push (.telemetry (finalProductOf id rows)) 0] =
        some (q, calls) ∧
      (calls.filterMap (succeeded id)).length + notedTotal id calls = 0 ∧
      ((deliveries id calls).map leaving).sum + (q.view id).frames.length +
        (q.view id).skipped = 1 := by
  obtain ⟨q, hpush, hheld⟩ := push_over_budget L (finalProductOf id rows) rfl hbig
  have hstep : step L initialState (.push (.telemetry (finalProductOf id rows)) 0) =
      some (q, .accepted false) := by
    simp [step, hpush]
  refine ⟨q, _, ((machine L).run_cons_eq_some).2 ⟨q, _, [], hstep, rfl, rfl⟩, rfl, ?_⟩
  show 0 + (q.view id).frames.length + (q.view id).skipped = 1
  rw [Nat.zero_add]
  exact hheld

/-- Counting only successful pushes, frames are not conserved. -/
theorem succeeded_not_conserved :
    ∃ q calls, (machine ⟨112, 160⟩).run initialState
        [.push (.telemetry (finalProductOf 5 107001)) 0] = some (q, calls) ∧
      (calls.filterMap (succeeded 5)).length + notedTotal 5 calls = 0 ∧
      ((deliveries 5 calls).map leaving).sum + (q.view 5).frames.length +
        (q.view 5).skipped = 1 :=
  failed_push_queued ⟨112, 160⟩ 5 (by rw [weight_finalProductOf]; decide)

end StreamQueue
