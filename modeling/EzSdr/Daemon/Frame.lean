import EzSdr.Daemon.State

/-! # What the Geometry Operations Leave Alone

    Settling the wideband geometry writes the pending change, the wideband
    centre and, in an empty registry, the wideband rate. It writes nothing
    else. So whatever relation these three writes respect, every operation that
    is made of them respects, however it ends. -/

namespace Daemon

open Fallible

/-- A preorder of states that the writes of the wideband geometry respect. -/
structure Framed (R : State → State → Prop) : Prop where
  preorder : IsPreorder State R
  pending  : ∀ s change, R s { s with pending := change }
  center   : ∀ s hz, R s { s with channelizer := s.channelizer.retune hz }
  rate     : ∀ s hz, s.channelizer.channels = [] →
    R s { s with channelizer := { s.channelizer with widebandRateHz := hz } }

/-- An operation of the channelizer leaves the rest of the state alone. -/
theorem onChannelizer_spec {α : Type} {x : Fails Channelizer α} {s₀ : State}
    {Q : α → Channelizer → Prop}
    (h : Triple (fun c => c = s₀.channelizer) x Q (fun c => c = s₀.channelizer)) :
    Triple (fun s => s = s₀) (onChannelizer x)
      (fun a s => ∃ c, Q a c ∧ s = { s₀ with channelizer := c }) (fun s => s = s₀) := by
  rintro s rfl
  have hx := h s.channelizer rfl
  unfold onChannelizer
  rcases hxs : x s.channelizer with ⟨e | a, c⟩
  · rw [hxs] at hx
    simp [show c = s.channelizer from hx]
  · rw [hxs] at hx
    exact ⟨c, hx, rfl⟩

variable {R : State → State → Prop}

theorem Framed.setWidebandRateHz (h : Framed R) (hz : ℕ) :
    Moves R (onChannelizer (Channelizer.setWidebandRateHz hz)) := by
  have := h.preorder
  intro s₀
  apply (onChannelizer_spec (Channelizer.setWidebandRateHz_spec s₀.channelizer hz)).strengthen
  · intro _ s hs
    obtain ⟨c, ⟨hempty, rfl⟩, rfl⟩ := hs
    exact h.rate s₀ hz hempty
  · intro s hs
    rw [hs]
    exact refl_of R s₀

theorem Framed.publishChange (h : Framed R) (change : PendingGeometryChange)
    (status : Ingest.HardwareStatus) : Moves R (publishChange change status) := by
  cases change with
  | frequency => exact moves_modify fun s => h.center s _
  | sampleRate => exact h.setWidebandRateHz _

theorem Framed.reconcile (h : Framed R) (r : Readings) :
    Moves R (reconcilePendingGeometryChange r) := by
  have := h.preorder
  unfold reconcilePendingGeometryChange
  apply moves_get.bind
  intro s
  cases s.pending with
  | none => exact moves_pure ()
  | some change =>
    apply (moves_orFail _ _).bind
    intro outcome
    apply (moves_ensure _ _).bind
    intro _
    apply (moves_ensure _ _).bind
    intro _
    apply Moves.bind
    · exact moves_modify fun s => h.pending s none
    intro _
    apply (h.publishChange change r.reconciled).bind
    intro _
    cases outcome with
    | ok _ => exact moves_pure ()
    | error e => exact moves_ensure _ _

theorem Framed.prepare (h : Framed R) (r : Readings) : Moves R (prepareGeometryOperation r) := by
  have := h.preorder
  unfold prepareGeometryOperation
  apply (h.reconcile r).bind
  intro _
  apply (moves_ensure _ _).bind
  intro _
  exact moves_ensure _ _

theorem Framed.setFrequency (h : Framed R) (hz : ℕ) (c : CommandReadings) :
    Moves R (setFrequency hz c) := by
  have := h.preorder
  have hretune : ∀ hz, Moves R (retuneWideband hz) := fun hz => moves_modify fun s => h.center s hz
  unfold Daemon.setFrequency
  apply (h.prepare c.readings).bind
  intro _
  unfold finishSetFrequency
  cases c.result with
  | accepted =>
    apply (hretune _).bind
    intro _
    exact moves_ensure _ _
  | pending =>
    apply Moves.bind
    · exact moves_modify fun s => h.pending s _
    intro _
    exact moves_fail _
  | rejected e =>
    apply (hretune _).bind
    intro _
    apply (moves_ensure _ _).bind
    intro _
    exact moves_fail _

theorem Framed.setSampleRate (h : Framed R) (hz : ℕ) (c : CommandReadings) :
    Moves R (setSampleRate hz c) := by
  have := h.preorder
  unfold Daemon.setSampleRate
  apply (h.prepare c.readings).bind
  intro _
  apply (moves_ensure _ _).bind
  intro _
  apply moves_get.bind
  intro s
  apply (moves_ensure _ _).bind
  intro _
  unfold finishSetSampleRate
  cases c.result with
  | accepted =>
    apply (moves_ensure _ _).bind
    intro _
    apply (h.setWidebandRateHz _).bind
    intro _
    exact moves_ensure _ _
  | pending =>
    apply Moves.bind
    · exact moves_modify fun s => h.pending s _
    intro _
    exact moves_fail _
  | rejected e =>
    have hadopt : ∀ old after, Moves R (adoptRate old after) := by
      intro old after
      unfold adoptRate
      split
      · exact h.setWidebandRateHz _
      · exact moves_pure ()
    apply (hadopt _ _).bind
    intro _
    apply moves_get.bind
    intro _
    apply (moves_ensure _ _).bind
    intro _
    exact moves_fail _

/-- Starting a recording writes the recordings at its channel only. -/
theorem startRecording_moves [IsPreorder State R] {id : ChannelId}
    (hrecordings : ∀ s (recordings : BTreeMap ChannelId Recording),
      (∀ j, j ≠ id → recordings.get? j = s.recordings.get? j) →
        R s { s with recordings := recordings })
    (format : RecordingFormat) (io : Except String String) :
    Moves R (startRecording id format io) := by
  unfold startRecording
  apply moves_get.bind
  intro s
  apply (moves_orFail _ _).bind
  intro active
  apply (moves_lift _).bind
  intro centerFreqHz
  apply (moves_ensure _ _).bind
  intro _
  apply Moves.bind
  · exact moves_modify fun s => hrecordings s _ fun j hj => BTreeMap.get?_erase_ne _ hj
  intro _
  apply (moves_lift io).bind
  intro path
  apply Moves.bind
  · exact moves_modify fun s => hrecordings s _ fun j hj => BTreeMap.get?_insert_ne _ hj _
  intro _
  exact moves_pure _

/-- Stopping one likewise. -/
theorem stopRecording_moves [IsPreorder State R] {id : ChannelId}
    (hrecordings : ∀ s (recordings : BTreeMap ChannelId Recording),
      (∀ j, j ≠ id → recordings.get? j = s.recordings.get? j) →
        R s { s with recordings := recordings })
    (error : Option String) : Moves R (stopRecording id error) := by
  unfold stopRecording
  apply moves_get.bind
  intro s
  apply (moves_orFail _ _).bind
  intro recording
  cases error with
  | none => exact moves_modify fun s => hrecordings s _ fun j hj => BTreeMap.get?_erase_ne _ hj
  | some e =>
    apply Moves.bind
    · exact moves_modify fun s => hrecordings s _ fun j hj => BTreeMap.get?_insert_ne _ hj _
    intro _
    exact moves_fail _

end Daemon
