import EzSdr.StreamQueue.Conservation

/-! # Retention of Critical Telemetry

    Evictions never take a critical frame. So the critical frames a channel
    has taken in are, in order, those it has delivered followed by those it
    still holds. -/

namespace StreamQueue

/-- The critical frames among a list of events. -/
def critical (events : List ServerEvent) : List ServerEvent := events.filter isCriticalTelemetry

/-- The events queued on a channel, front first. -/
def View.events (v : View) : List ServerEvent := v.frames.map Queued.event

@[simp] theorem critical_append (a b : List ServerEvent) :
    critical (a ++ b) = critical a ++ critical b := List.filter_append ..

theorem critical_singleton_of_not {event : ServerEvent} (h : isCriticalTelemetry event = false) :
    critical [event] = [] := by simp [critical, h]

/-- Gap notices are not critical. -/
@[simp] theorem critical_streamGap (id : ChannelId) (n : ℕ) : critical [.streamGap id n] = [] := rfl

/-- Evictions leave the critical frames alone. -/
theorem ViewEvictions.critical {v v' : View} (h : ViewEvictions v v') :
    critical v'.events = critical v.events := by
  induction h with
  | refl => rfl
  | tail _ hs ih =>
    obtain ⟨pre, old, post, hsplit, -, hcrit, -, rfl⟩ := hs
    rw [← ih]
    simp [View.events, StreamQueue.critical, hsplit, hcrit]

/-- A push that is taken in adds its frame when that is critical. -/
theorem PushView.critical {event : ServerEvent} {v v' : View} (h : PushView event v v') :
    critical v'.events = critical v.events ++ critical [event] := by
  cases h with
  | skipped v₁ hcrit hev hall hv' =>
    subst hv'
    rw [critical_singleton_of_not hcrit, List.append_nil]
    exact hev.critical
  | queued v₁ entry hentry hev hshrink =>
    have happend : (v₁.append entry).events = v₁.events ++ [event] := by
      simp [View.events, View.append, hentry]
    rw [hshrink.critical, happend, critical_append, hev.critical]

/-- A delivery takes the first critical frame or leaves the critical frames alone. -/
theorem PopView.critical {id : ChannelId} {v v' : View} {event : ServerEvent}
    (h : PopView id v v' event) :
    critical v.events = critical [event] ++ critical v'.events := by
  cases h with
  | gap hskipped hfront hv' => simp [hv', View.events]
  | frame next rest hframes hgap hv' =>
    rw [← critical_append]
    simp [hv', View.events, hframes]

/-- The critical frames taken in on channel `id` are delivered or queued, in order. -/
def Retained (id : ChannelId) (calls : List Call) (q : State) : Prop :=
  critical (taken id calls) =
    critical (deliveries id calls) ++ critical (q.view id).events

/-- One call retains the critical frames of every channel. -/
theorem Retained.move {id : ChannelId} {calls : List Call} {c : Call}
    (h : Retained id calls c.before) (hmove : Move id c) : Retained id (calls ++ [c]) c.after := by
  unfold Retained at h ⊢
  rw [taken_append, deliveries_append, critical_append, critical_append, h]
  cases hmove with
  | taken event htaken hnoted hdelivered hview =>
    rw [htaken, hdelivered, hview.critical]
    simp [critical]
  | noted n hpos htaken hnoted hdelivered hview =>
    rw [htaken, hdelivered, hview]
    simp [critical, View.events]
  | delivered event htaken hnoted hdelivered hview =>
    rw [htaken, hdelivered, hview.critical]
    simp [critical]
  | other htaken hnoted hdelivered hview =>
    rw [htaken, hdelivered, hview.critical]
    simp [critical]

/-- Critical telemetry is never lost: in every state reached without `clear`,
    the critical frames channel `id` has taken in are exactly the critical
    frames it has delivered followed by those still queued, in push order, and
    every push that answered `true` was taken in. -/
theorem run_retained (L : Layout) (ops : List Op) (hops : ∀ op ∈ ops, ∀ i, op ≠ .clear i)
    (id : ChannelId) :
    ∃ q calls, (machine L).run (machine L).init ops = some (q, calls) ∧
      critical (taken id calls) =
        critical (deliveries id calls) ++ critical (q.view id).events ∧
      Answered id calls :=
  run_moves L
    (P := fun calls q => Retained id calls q ∧ Answered id calls)
    (I := fun op => ∀ i, op ≠ .clear i) (fun _ h => h) ⟨rfl, by simp [Answered]⟩
    (fun _ _ _ _ hstep hmoves hP => ⟨hP.1.move (hmoves id), hP.2.append hstep⟩) ops hops

/-- Retention of a final product between two previews, of which the later one evicts the other. -/
theorem run_retained_evicted :
    ∃ q calls, (machine ⟨112, 160⟩).run initialState
        [.push (.telemetry ⟨1, 5, 64, 1, 1, [0], [], false, false⟩) 0,
          .push (.telemetry ⟨1, 5, 64, 0, 0, [], [], true, false⟩) 1,
          .push (.telemetry ⟨2, 5, 64, 1, 1, [1], [], false, false⟩) 2, .pop, .pop] =
            some (q, calls) ∧
      (deliveries 5 calls).map leaving = [1, 1] ∧ (critical (deliveries 5 calls)).length = 1 ∧
      critical (taken 5 calls) =
        critical (deliveries 5 calls) ++ critical (q.view 5).events := by
  obtain ⟨q, calls, hrun, hret, -⟩ := run_retained ⟨112, 160⟩
    [.push (.telemetry ⟨1, 5, 64, 1, 1, [0], [], false, false⟩) 0,
      .push (.telemetry ⟨1, 5, 64, 0, 0, [], [], true, false⟩) 1,
      .push (.telemetry ⟨2, 5, 64, 1, 1, [1], [], false, false⟩) 2, .pop, .pop] (by simp) 5
  have hvalues : (deliveries 5 calls).map leaving = [1, 1] ∧
      (critical (deliveries 5 calls)).length = 1 := by
    cases hrun
    exact ⟨rfl, rfl⟩
  exact ⟨q, calls, hrun, hvalues.1, hvalues.2, hret⟩

end StreamQueue
