import EzSdr.Daemon.Frame

/-! # Geometry of Virtual Channels

    The frequency of a virtual channel is stored twice: as an offset in the
    channel table, and as an absolute centre in its tap. Two kinds of step
    update only one side. When the wideband centre moves, the taps keep their
    centres and the table keeps its offsets; and a centre below zero, or above
    the range of `i64`, is clamped in the tap only. In every run without such
    steps the two sides agree, and every channel lies inside the captured span. -/

namespace Daemon

open Ingest (HardwareStatus)

/-- The channel table. -/
abbrev ChannelTable : Type := BTreeMap ChannelId ActiveChannel

/-- One executed step of the daemon. -/
abbrev Ev := Machine.Event State Input (Except String Reply)

/-! ## Section 1: The law, and the steps that can break it -/

/-- The tap of every virtual channel is centred where the table says, and the
    channel lies inside the captured span. -/
def GeometryLaw (s : State) : Prop :=
  ∀ id active internalId, s.channels.get? id = some active →
    active.internalChannelId = some internalId →
    ∃ tap, s.channelizer.find internalId = some tap ∧
      (tap.centerFreqHz : ℤ) = s.channelizer.widebandCenterHz + active.spec.centerOffsetHz ∧
      active.spec.InSpan s.channelizer.widebandRateHz

/-- The frequency in the metadata of a recording is the one its channel is tuned to. -/
def RecordedAt (s : State) (id : ChannelId) (hz : ℕ) : Prop :=
  ∃ active, s.channels.get? id = some active ∧
    match active.internalChannelId with
    | some internalId => s.channelizer.channelCenterHz internalId = some hz
    | none => hz = s.channelizer.widebandCenterHz

/-- The centre of a channel can be computed without clamping. -/
def Representable (widebandCenterHz : ℕ) (centerOffsetHz : ℤ) : Prop :=
  widebandCenterHz < 2 ^ 63 ∧ 0 ≤ widebandCenterHz + centerOffsetHz ∧
    widebandCenterHz + centerOffsetHz < 2 ^ 63

instance (widebandCenterHz : ℕ) (centerOffsetHz : ℤ) :
    Decidable (Representable widebandCenterHz centerOffsetHz) :=
  inferInstanceAs (Decidable (_ ∧ _ ∧ _))

/-- The wideband centre may be set to `hz`: it stays, or no channel is virtual. -/
def MayRetune (hz : ℕ) (s : State) : Prop :=
  hz = s.channelizer.widebandCenterHz ∨ s.anyVirtual = false

/-- The reconciliation does not move the centre under a virtual channel. -/
def ReconcileOk (r : Readings) (s : State) : Prop :=
  s.pending = some .frequency → r.receipt.isSome = true → r.reconciled.sampleRateHz ≠ 0 →
    MayRetune r.reconciled.frequencyHz s

/-- A valid virtual channel has a representable centre. -/
def CreateOk (spec : ChannelSpec) (s : State) : Prop :=
  spec.kind ≠ .spectrum → spec.validate s.channelizer.widebandRateHz = .ok () →
    Representable s.channelizer.widebandCenterHz spec.centerOffsetHz

/-- A valid retune of a virtual channel has a representable centre. -/
def RetuneOk (id : ChannelId) (centerOffsetHz : ℤ) (channelSampleRateHz : ℕ)
    (audio : Option AudioConfiguration) (s : State) : Prop :=
  ∀ active internalId, s.channels.get? id = some active →
    active.internalChannelId = some internalId →
    (active.spec.retuned centerOffsetHz channelSampleRateHz audio).validate
      s.channelizer.widebandRateHz = .ok () →
    Representable s.channelizer.widebandCenterHz centerOffsetHz

/-- The answer of the hardware does not move the centre under a virtual channel. -/
def SetFrequencyOk (result : CommandResult) (hz : ℕ) (s : State) : Prop :=
  match result with
  | .pending => True
  | _ => MayRetune hz s

/-- What an operation asks of the state it begins in, and then of the state in
    which the geometry is settled. -/
def AfterPrepare (r : Readings) (S : State → Prop) (s : State) : Prop :=
  ReconcileOk r s ∧ ∀ u s', prepareGeometryOperation r s = (.ok u, s') → S s'

/-- The step updates both sides of every virtual channel. -/
def StepOk (s : State) : Input → Prop
  | .subscribe spec r => s.channels.get? spec.id = none → AfterPrepare r (CreateOk spec) s
  | .retune id offset rate audio r => AfterPrepare r (RetuneOk id offset rate audio) s
  | .configureAudio _ _ _ r => ReconcileOk r s
  | .setFrequency _ c => AfterPrepare c.readings (SetFrequencyOk c.result c.after.frequencyHz) s
  | .setSampleRate _ c => ReconcileOk c.readings s
  | .reconcile r => ReconcileOk r s
  | _ => True

theorem virtualCenter_eq {widebandCenterHz : ℕ} {centerOffsetHz : ℤ}
    (h : Representable widebandCenterHz centerOffsetHz) :
    (virtualCenter widebandCenterHz centerOffsetHz : ℤ) = widebandCenterHz + centerOffsetHz := by
  obtain ⟨hsmall, hlow, hhigh⟩ := h
  unfold virtualCenter saturatingAddI64 asI64
  rw [if_pos hsmall]
  omega

/-! ## Section 2: The invariant -/

/-- A channel of the table is where its specification says. -/
structure Placed (c : Channelizer) (spec : ChannelSpec) (internalId : ℕ) : Prop where
  tapped : ∃ tap, c.find internalId = some tap ∧
    (tap.centerFreqHz : ℤ) = c.widebandCenterHz + spec.centerOffsetHz
  representable : Representable c.widebandCenterHz spec.centerOffsetHz
  inSpan : spec.InSpan c.widebandRateHz

/-- The pipeline of a telemetry channel has the profile of its specification. -/
def Profiled (active : ActiveChannel) : Prop :=
  ∀ profile rate center, active.pipeline = .lrptTelemetry profile rate center →
    active.spec.kind = .lrptTelemetry ∧ active.spec.meteorProfile = some profile

/-- What every step keeps of the channelizer and the channel table. -/
structure Good (c : Channelizer) (channels : ChannelTable) : Prop where
  /-- Ids are handed out in order. -/
  ids_lt : ∀ tap ∈ c.channels, tap.id < c.nextId
  placed : ∀ id active internalId, channels.get? id = some active →
    active.internalChannelId = some internalId → Placed c active.spec internalId
  /-- No two channels share a tap. -/
  distinct : ∀ i j a b internalId, channels.get? i = some a → channels.get? j = some b →
    a.internalChannelId = some internalId → b.internalChannelId = some internalId → i = j
  profiled : ∀ id active, channels.get? id = some active → Profiled active

/-- The invariant of a state. -/
def State.Good (s : State) : Prop := Daemon.Good s.channelizer s.channels

theorem State.Good.law {s : State} (h : s.Good) : GeometryLaw s := by
  intro id active internalId hget hinternal
  obtain ⟨⟨tap, hfind, hcenter⟩, -, hspan⟩ := h.placed id active internalId hget hinternal
  exact ⟨tap, hfind, hcenter, hspan⟩

/-- Where no channel is virtual, nothing has to be placed. -/
theorem anyVirtual_eq_false {s : State} (h : s.anyVirtual = false) {id : ChannelId}
    {active : ActiveChannel} {internalId : ℕ} (hget : s.channels.get? id = some active) :
    active.internalChannelId ≠ some internalId := by
  intro hinternal
  have hmem := (s.channels.mem_entries).2 hget
  unfold State.anyVirtual at h
  rw [List.any_eq_false] at h
  exact h _ hmem (by simp [hinternal])

theorem new_good (center rate : ℕ) : (State.new center rate).Good := by
  refine ⟨?_, ?_, ?_, ?_⟩
  · intro tap htap
    cases htap
  · intro id active internalId hget
    cases hget
  · intro i j a b internalId hget
    cases hget
  · intro id active hget
    cases hget

/-- Moving the wideband centre, when that is allowed. -/
theorem good_retune {s : State} {hz : ℕ} (h : s.Good) (hmay : MayRetune hz s) :
    Good (s.channelizer.retune hz) s.channels := by
  rcases hmay with rfl | hnone
  · exact h
  · refine ⟨h.ids_lt, ?_, h.distinct, h.profiled⟩
    intro id active internalId hget hinternal
    exact absurd hinternal (anyVirtual_eq_false hnone hget)

theorem find_lt {c : Channelizer} (hids : ∀ tap ∈ c.channels, tap.id < c.nextId) {id : ℕ}
    {tap : VirtualChannel} (h : c.find id = some tap) : id < c.nextId := by
  have hid : tap.id = id := by simpa using List.find?_some h
  have := hids tap (List.mem_of_find?_eq_some h)
  omega

/-- Changing what only placed channels depend on keeps the rest of the invariant. -/
theorem Good.of_placed {c c' : Channelizer} {channels : ChannelTable} (h : Good c channels)
    (hids : ∀ tap ∈ c'.channels, tap.id < c'.nextId)
    (hplaced : ∀ id active internalId, channels.get? id = some active →
      active.internalChannelId = some internalId → Placed c' active.spec internalId) :
    Good c' channels :=
  ⟨hids, hplaced, h.distinct, h.profiled⟩

/-- A placed channel stays placed when its own tap and the geometry stay. -/
theorem Placed.of_find {c c' : Channelizer} {spec : ChannelSpec} {internalId : ℕ}
    (h : Placed c spec internalId) (hfind : c'.find internalId = c.find internalId)
    (hcenter : c'.widebandCenterHz = c.widebandCenterHz)
    (hrate : c'.widebandRateHz = c.widebandRateHz) : Placed c' spec internalId := by
  obtain ⟨htap, hrep, hspan⟩ := h
  rw [← hcenter] at htap hrep
  rw [← hrate] at hspan
  rw [← hfind] at htap
  exact ⟨htap, hrep, hspan⟩

/-! ## Section 3: Reconciliation and wideband geometry -/

/-- The invariant as pre- and postcondition of a whole operation. -/
def Keeps {α : Type} (P : State → Prop) (x : Fails State α) : Prop :=
  Fallible.Triple (fun s => s.Good ∧ P s) x (fun _ s => s.Good) State.Good

open Fallible

theorem retuneWideband_good (hz : ℕ) : Keeps (MayRetune hz) (retuneWideband hz) :=
  Triple.modify fun _ hs => good_retune hs.1 hs.2

/-- The rate changes only when there is no tap, and then no virtual channel. -/
theorem setWidebandRateHz_good (hz : ℕ) :
    Keeps (fun _ => True) (onChannelizer (Channelizer.setWidebandRateHz hz)) := by
  apply Triple.of_eq
  rintro s₀ ⟨hgood, -⟩
  apply (onChannelizer_spec (Channelizer.setWidebandRateHz_spec s₀.channelizer hz)).strengthen
  · rintro _ s ⟨c, ⟨hempty, rfl⟩, rfl⟩
    refine Good.of_placed hgood hgood.ids_lt ?_
    intro id active internalId hget hinternal
    obtain ⟨tap, hfind, -⟩ := (hgood.placed id active internalId hget hinternal).tapped
    simp [Channelizer.find, hempty] at hfind
  · rintro s rfl
    exact hgood

theorem reconcile_good (r : Readings) : Keeps (ReconcileOk r) (reconcilePendingGeometryChange r) := by
  apply Triple.of_eq
  rintro s₀ ⟨hgood, hok⟩
  unfold reconcilePendingGeometryChange
  apply Triple.bind (Q := fun s₁ s => s₁ = s₀ ∧ s = s₀)
  · exact Triple.get fun s hs => ⟨hs, hs⟩
  intro s₁
  cases hpending : s₁.pending with
  | none =>
    apply Triple.ret
    rintro s ⟨-, rfl⟩
    exact hgood
  | some change =>
    apply Triple.bind (Q := fun _ s => s₁ = s₀ ∧ s = s₀ ∧ r.receipt.isSome = true)
    · exact Triple.orFail (fun a ha s hs => ⟨hs.1, hs.2, by simp [ha]⟩)
        (fun s hs => by rw [hs.2]; exact hgood)
    intro outcome
    apply Triple.bind (Q := fun _ s => s₁ = s₀ ∧ s = s₀ ∧ r.receipt.isSome = true)
    · exact Triple.ensure (fun _ _ hs => hs) (fun s hs => by rw [hs.2.1]; exact hgood)
    intro _
    -- from here on only the reconciled centre matters, and that it may be taken
    apply Triple.bind (Q := fun _ s => s.Good ∧
      (change = .frequency → MayRetune r.reconciled.frequencyHz s))
    · apply Triple.ensure
      · rintro hrate s ⟨rfl, rfl, hreceipt⟩
        refine ⟨hgood, ?_⟩
        rintro rfl
        exact hok hpending hreceipt hrate
      · rintro s ⟨-, rfl, -⟩
        exact hgood
    intro _
    apply Triple.bind (Q := fun _ s => s.Good ∧
      (change = .frequency → MayRetune r.reconciled.frequencyHz s))
    · exact Triple.modify fun s hs => hs
    intro _
    apply Triple.bind (Q := fun _ s => s.Good)
    · cases change with
      | frequency => exact (retuneWideband_good _).weaken fun s hs => ⟨hs.1, hs.2 rfl⟩
      | sampleRate => exact (setWidebandRateHz_good _).weaken fun s hs => ⟨hs.1, trivial⟩
    intro _
    cases outcome with
    | ok => exact Triple.ret fun _ hs => hs
    | error e => exact Triple.ensure (fun _ _ hs => hs) (fun _ hs => hs)

theorem prepare_good (r : Readings) : Keeps (ReconcileOk r) (prepareGeometryOperation r) := by
  unfold prepareGeometryOperation
  apply Triple.bind (reconcile_good r)
  intro _
  apply Triple.bind (Q := fun _ s => s.Good)
  · exact Triple.ensure (fun _ _ hs => hs) (fun _ hs => hs)
  intro _
  exact Triple.ensure (fun _ _ hs => hs) (fun _ hs => hs)

/-- An operation that settles the geometry before it does anything else. -/
theorem afterPrepare_good {α : Type} (r : Readings) {S : State → Prop} {f : Unit → Fails State α}
    (hf : ∀ u, Keeps S (f u)) :
    Keeps (AfterPrepare r S) (prepareGeometryOperation r >>= f) := by
  apply (Triple.seq (prepare_good r) hf).weaken
  rintro s ⟨hgood, hreconcile, hrest⟩
  exact ⟨⟨hgood, hreconcile⟩, hrest⟩

theorem setFrequency_good (hz : ℕ) (c : CommandReadings) :
    Keeps (AfterPrepare c.readings (SetFrequencyOk c.result c.after.frequencyHz))
      (setFrequency hz c) := by
  unfold setFrequency
  apply afterPrepare_good
  intro _
  unfold finishSetFrequency
  cases c.result with
  | accepted =>
    apply Triple.bind (retuneWideband_good _)
    intro _
    exact Triple.ensure (fun _ _ hs => hs) (fun _ hs => hs)
  | pending =>
    apply Triple.bind (Q := fun _ s => s.Good)
    · exact Triple.modify fun s hs => hs.1
    intro _
    exact Triple.fail fun _ hs => hs
  | rejected e =>
    apply Triple.bind (retuneWideband_good _)
    intro _
    apply Triple.bind (Q := fun _ s => s.Good)
    · exact Triple.ensure (fun _ _ hs => hs) (fun _ hs => hs)
    intro _
    exact Triple.fail fun _ hs => hs

theorem setSampleRate_good (hz : ℕ) (c : CommandReadings) :
    Keeps (ReconcileOk c.readings) (setSampleRate hz c) := by
  unfold setSampleRate
  apply Triple.bind (prepare_good c.readings)
  intro _
  apply Triple.bind (Q := fun _ s => s.Good)
  · exact Triple.ensure (fun _ _ hs => hs) (fun _ hs => hs)
  intro _
  apply Triple.bind (Q := fun _ s => s.Good)
  · exact Triple.get fun _ hs => hs
  intro s₁
  apply Triple.bind (Q := fun _ s => s.Good)
  · exact Triple.ensure (fun _ _ hs => hs) (fun _ hs => hs)
  intro _
  unfold finishSetSampleRate
  have hset : ∀ rate, Triple State.Good (onChannelizer (Channelizer.setWidebandRateHz rate))
      (fun _ s => s.Good) State.Good :=
    fun rate => (setWidebandRateHz_good rate).weaken fun s hs => ⟨hs, trivial⟩
  cases c.result with
  | accepted =>
    apply Triple.bind (Q := fun _ s => s.Good)
    · exact Triple.ensure (fun _ _ hs => hs) (fun _ hs => hs)
    intro _
    apply Triple.bind (hset _)
    intro _
    exact Triple.ensure (fun _ _ hs => hs) (fun _ hs => hs)
  | pending =>
    apply Triple.bind (Q := fun _ s => s.Good)
    · exact Triple.modify fun s hs => hs
    intro _
    exact Triple.fail fun _ hs => hs
  | rejected e =>
    apply Triple.bind (Q := fun _ s => s.Good)
    · unfold adoptRate
      split
      · exact hset _
      · exact Triple.ret fun _ hs => hs
    intro _
    apply Triple.bind (Q := fun _ s => s.Good)
    · exact Triple.get fun _ hs => hs
    intro s₂
    apply Triple.bind (Q := fun _ s => s.Good)
    · exact Triple.ensure (fun _ _ hs => hs) (fun _ hs => hs)
    intro _
    exact Triple.fail fun _ hs => hs

/-! ## Section 4: Creating channels -/

/-- A tap no channel of the table uses yet, placed for `spec`. -/
def NewTap (spec : ChannelSpec) (internalId : ℕ) (s : State) : Prop :=
  s.Good ∧ Placed s.channelizer spec internalId ∧
    ∀ id active, s.channels.get? id = some active → active.internalChannelId ≠ some internalId

/-- A new tap leaves the placed channels alone, and none of them uses it. -/
theorem addTap_good {s : State} {spec : ChannelSpec} (hgood : s.Good)
    (hrep : Representable s.channelizer.widebandCenterHz spec.centerOffsetHz)
    (hspan : spec.InSpan s.channelizer.widebandRateHz) :
    NewTap spec s.channelizer.nextId { s with channelizer :=
      { s.channelizer with
        channels := s.channelizer.channels ++ [s.channelizer.tap s.channelizer.nextId
          (virtualCenter s.channelizer.widebandCenterHz spec.centerOffsetHz)
          spec.channelSampleRateHz],
        nextId := s.channelizer.nextId + 1 } } := by
  set tap := s.channelizer.tap s.channelizer.nextId
    (virtualCenter s.channelizer.widebandCenterHz spec.centerOffsetHz) spec.channelSampleRateHz
    with htap
  -- every id in use is below the new one
  have hused : ∀ id active internalId, s.channels.get? id = some active →
      active.internalChannelId = some internalId → internalId < s.channelizer.nextId := by
    intro id active internalId hget hinternal
    obtain ⟨t, hfind, -⟩ := (hgood.placed id active internalId hget hinternal).tapped
    exact find_lt hgood.ids_lt hfind
  have hfresh : s.channelizer.find s.channelizer.nextId = none := by
    cases h : s.channelizer.find s.channelizer.nextId with
    | none => rfl
    | some t => exact absurd (find_lt hgood.ids_lt h) (lt_irrefl _)
  refine ⟨?_, ⟨⟨tap, ?_, ?_⟩, hrep, hspan⟩, ?_⟩
  · apply Good.of_placed hgood
    · intro t ht
      rcases List.mem_append.1 ht with ht | ht
      · exact lt_trans (hgood.ids_lt t ht) (Nat.lt_succ_self _)
      · rw [List.mem_singleton] at ht
        rw [ht]
        exact Nat.lt_succ_self _
    · intro id active internalId hget hinternal
      have hplaced := hgood.placed id active internalId hget hinternal
      refine Placed.of_find hplaced ?_ rfl rfl
      obtain ⟨t, hfind, -⟩ := hplaced.tapped
      rw [Channelizer.find_append, hfind]
      rfl
  · rw [Channelizer.find_append, hfresh]
    simp [htap, Channelizer.tap]
  · exact virtualCenter_eq hrep
  · intro id active hget hinternal
    exact lt_irrefl _ (hused id active _ hget hinternal)

/-- What `add_virtual_channel` needs: the channel fits, and its centre can be computed. -/
def Fits (spec : ChannelSpec) (s : State) : Prop :=
  Representable s.channelizer.widebandCenterHz spec.centerOffsetHz ∧
    spec.InSpan s.channelizer.widebandRateHz

theorem addVirtualChannel_good (spec : ChannelSpec) :
    Triple (fun s => s.Good ∧ Fits spec s) (addVirtualChannel spec)
      (fun id s => NewTap spec id s) State.Good := by
  apply Triple.of_eq
  rintro s₀ ⟨hgood, hrep, hspan⟩
  unfold addVirtualChannel
  apply Triple.bind (Q := fun s₁ s => s₁ = s₀ ∧ s = s₀)
  · exact Triple.get fun s hs => ⟨hs, hs⟩
  intro s₁
  apply Triple.of_eq
  rintro s ⟨rfl, rfl⟩
  apply (onChannelizer_spec (Channelizer.addChannel_spec _ _ _)).strengthen
  · rintro id s ⟨c, ⟨rfl, rfl⟩, rfl⟩
    exact addTap_good hgood hrep hspan
  · rintro s rfl
    exact hgood

/-- Removing a tap that no channel uses. -/
theorem removeTap_good (id : ℕ) :
    Keeps (fun s => ∀ i active, s.channels.get? i = some active →
      active.internalChannelId ≠ some id) (removeTap id) := by
  apply Triple.modify
  rintro s ⟨hgood, hunused⟩
  apply Good.of_placed hgood
  · intro tap htap
    exact hgood.ids_lt tap (List.mem_of_mem_filter htap)
  · intro i active internalId hget hinternal
    refine Placed.of_find (hgood.placed i active internalId hget hinternal) ?_ rfl rfl
    apply Channelizer.find_removeChannel_ne
    rintro rfl
    exact hunused i active hget hinternal

/-- A channel that is built but not yet in the table. -/
def Built (spec : ChannelSpec) (active : ActiveChannel) (s : State) : Prop :=
  s.Good ∧ active.spec = spec ∧ Profiled active ∧
    ∀ internalId, active.internalChannelId = some internalId → NewTap spec internalId s

theorem createChannel_good (spec : ChannelSpec) :
    Triple (fun s => s.Good ∧ (spec.kind ≠ .spectrum → Fits spec s)) (createChannel spec)
      (fun active s => Built spec active s) State.Good := by
  unfold createChannel
  cases hkind : spec.kind with
  | spectrum =>
    apply Triple.ret
    rintro s ⟨hgood, -⟩
    refine ⟨hgood, rfl, ?_, ?_⟩
    · intro profile rate center h
      cases h
    · intro internalId h
      cases h
  | audio =>
    apply Triple.bind (Q := fun id s => NewTap spec id s)
    · exact (addVirtualChannel_good spec).weaken fun s hs => ⟨hs.1, hs.2 (by simp)⟩
    intro id
    apply Triple.ret
    intro s hs
    refine ⟨hs.1, rfl, ?_, ?_⟩
    · intro profile rate center h
      cases h
    · rintro internalId ⟨⟩
      exact hs
  | adsbPackets =>
    apply Triple.bind (Q := fun id s => NewTap spec id s)
    · exact (addVirtualChannel_good spec).weaken fun s hs => ⟨hs.1, hs.2 (by simp)⟩
    intro id
    split
    · apply Triple.bind (Q := fun _ s => s.Good)
      · exact (removeTap_good id).weaken fun s hs => ⟨hs.1, hs.2.2⟩
      intro _
      exact Triple.fail fun _ hs => hs
    · apply Triple.ret
      intro s hs
      refine ⟨hs.1, rfl, ?_, ?_⟩
      · intro profile rate center h
        cases h
      · rintro internalId ⟨⟩
        exact hs
  | lrptTelemetry =>
    apply Triple.bind (Q := fun id s => NewTap spec id s)
    · exact (addVirtualChannel_good spec).weaken fun s hs => ⟨hs.1, hs.2 (by simp)⟩
    intro id
    -- the profile and the centre are read before the decoder is made; each may be missing
    apply Triple.bind (Q := fun _ s => NewTap spec id s)
    · exact Triple.get fun _ hs => hs
    intro s₁
    apply Triple.bind (Q := fun profile s => NewTap spec id s ∧ spec.meteorProfile = some profile)
    · exact Triple.orFail (fun a ha s hs => ⟨hs, ha⟩) (fun s hs => hs.1)
    intro profile
    apply Triple.bind (Q := fun _ s => NewTap spec id s ∧ spec.meteorProfile = some profile)
    · exact Triple.orFail (fun a ha s hs => hs) (fun s hs => hs.1.1)
    intro center
    split
    · apply Triple.bind (Q := fun _ s => s.Good)
      · exact (removeTap_good id).weaken fun s hs => ⟨hs.1.1, hs.1.2.2⟩
      intro _
      exact Triple.fail fun _ hs => hs
    · apply Triple.ret
      rintro s ⟨hs, hprofile⟩
      refine ⟨hs.1, rfl, ?_, ?_⟩
      · rintro profile' rate center ⟨⟩
        exact ⟨hkind, hprofile⟩
      · rintro internalId ⟨⟩
        exact hs

/-- A channel that is not kept takes its tap with it. -/
theorem discard_built (spec : ChannelSpec) (active : ActiveChannel) :
    Triple (fun s => Built spec active s) (discard active) (fun _ s => s.Good) State.Good := by
  unfold discard
  cases hinternal : active.internalChannelId with
  | none => exact Triple.ret fun s hs => hs.1
  | some id => exact (removeTap_good id).weaken fun s hs => ⟨hs.1, (hs.2.2.2 id hinternal).2.2⟩

/-- Putting a built channel under a free id. -/
theorem insert_good {s : State} {spec : ChannelSpec} {active : ActiveChannel}
    (h : Built spec active s) (hfree : s.channels.get? active.spec.id = none) :
    Good s.channelizer (s.channels.insert active.spec.id active) := by
  obtain ⟨hgood, hspec, hprofiled, htap⟩ := h
  -- the entries of the new table
  have hcases : ∀ id a, (s.channels.insert active.spec.id active).get? id = some a →
      (id = active.spec.id ∧ a = active) ∨ (id ≠ active.spec.id ∧ s.channels.get? id = some a) := by
    intro id a hget
    by_cases hid : id = active.spec.id
    · rw [hid, BTreeMap.get?_insert_self] at hget
      exact Or.inl ⟨hid, (Option.some.inj hget).symm⟩
    · rw [BTreeMap.get?_insert_ne _ hid] at hget
      exact Or.inr ⟨hid, hget⟩
  refine ⟨hgood.ids_lt, ?_, ?_, ?_⟩
  · intro id a internalId hget hinternal
    rcases hcases id a hget with ⟨-, rfl⟩ | ⟨-, hget⟩
    · rw [hspec]
      exact (htap internalId hinternal).2.1
    · exact hgood.placed id a internalId hget hinternal
  · intro i j a b internalId hi hj ha hb
    rcases hcases i a hi with ⟨hi', ha'⟩ | ⟨-, hi'⟩ <;>
      rcases hcases j b hj with ⟨hj', hb'⟩ | ⟨-, hj'⟩
    · rw [hi', hj']
    · exact absurd hb ((htap internalId (ha' ▸ ha)).2.2 j b hj')
    · exact absurd ha ((htap internalId (hb' ▸ hb)).2.2 i a hi')
    · exact hgood.distinct i j a b internalId hi' hj' ha hb
  · intro id a hget
    rcases hcases id a hget with ⟨-, rfl⟩ | ⟨-, hget⟩
    · exact hprofiled
    · exact hgood.profiled id a hget

theorem installChannel_good (spec : ChannelSpec) (active : ActiveChannel) :
    Triple (fun s => Built spec active s) (installChannel active) (fun _ s => s.Good)
      State.Good := by
  unfold installChannel
  apply Triple.bind (Q := fun s₁ s => Built spec active s ∧ s = s₁)
  · exact Triple.get fun s hs => ⟨hs, rfl⟩
  intro s₁
  cases hfree : s₁.channels.get? active.spec.id with
  | some existing =>
    apply Triple.bind (Q := fun _ s => s.Good)
    · exact (discard_built spec active).weaken fun s hs => hs.1
    intro _
    apply Triple.bind (Q := fun _ s => s.Good)
    · exact Triple.ensure (fun _ _ hs => hs) (fun _ hs => hs)
    intro _
    exact Triple.ret fun _ hs => hs
  | none =>
    dsimp only
    split
    · apply Triple.bind (Q := fun _ s => s.Good)
      · exact (discard_built spec active).weaken fun s hs => hs.1
      intro _
      exact Triple.fail fun _ hs => hs
    · apply Triple.bind (Q := fun _ s => s.Good)
      · apply Triple.modify
        rintro s ⟨hbuilt, rfl⟩
        exact insert_good hbuilt hfree
      intro _
      exact Triple.ret fun _ hs => hs

theorem resolved_kind (spec : ChannelSpec) : spec.resolved.kind = spec.kind := by
  unfold ChannelSpec.resolved
  split <;> rfl

theorem resolved_fits {spec : ChannelSpec} {s : State} (h : Fits spec s) :
    Fits spec.resolved s := by
  unfold ChannelSpec.resolved
  split <;> exact h

theorem createAndInstall_good (spec : ChannelSpec) :
    Keeps (CreateOk spec) (createAndInstall spec) := by
  unfold createAndInstall
  apply Triple.bind (Q := fun s₁ s => s.Good ∧ CreateOk spec s ∧ s = s₁)
  · exact Triple.get fun s hs => ⟨hs.1, hs.2, rfl⟩
  intro s₁
  apply Triple.bind (Q := fun _ s => s.Good ∧ (spec.kind ≠ .spectrum → Fits spec s))
  · apply Triple.lift
    · rintro ⟨⟩ hvalid s ⟨hgood, hok, rfl⟩
      exact ⟨hgood, fun hkind => ⟨hok hkind hvalid, ChannelSpec.validate_inSpan hvalid⟩⟩
    · exact fun s hs => hs.1
  intro _
  apply Triple.bind (Q := fun active s => Built spec.resolved active s)
  · apply (createChannel_good spec.resolved).weaken
    rintro s ⟨hgood, hfits⟩
    refine ⟨hgood, fun hkind => resolved_fits (hfits ?_)⟩
    rwa [resolved_kind] at hkind
  intro active
  exact installChannel_good _ active

/-- The search for an existing channel changes nothing. -/
theorem findExisting_spec (spec : ChannelSpec) (s₀ : State) :
    Triple (fun s => s = s₀) (findExisting spec)
      (fun found s => s = s₀ ∧ (found = false → s₀.channels.get? spec.id = none))
      (fun s => s = s₀) := by
  unfold findExisting
  apply Triple.bind (Q := fun s₁ s => s₁ = s₀ ∧ s = s₀)
  · exact Triple.get fun s hs => ⟨hs, hs⟩
  intro s₁
  cases hget : s₁.channels.get? spec.id with
  | some existing =>
    apply Triple.bind (Q := fun _ s => s = s₀)
    · exact Triple.ensure (fun _ _ hs => hs.2) (fun _ hs => hs.2)
    intro _
    exact Triple.ret fun s hs => ⟨hs, fun h => by cases h⟩
  | none =>
    apply Triple.bind (Q := fun _ s => s₁ = s₀ ∧ s = s₀)
    · exact Triple.ensure (fun _ _ hs => hs) (fun _ hs => hs.2)
    intro _
    exact Triple.ret fun s hs => ⟨hs.2, fun _ => by rw [← hs.1]; exact hget⟩

theorem subscribe_good (spec : ChannelSpec) (r : Readings) :
    Keeps (fun s => s.channels.get? spec.id = none → AfterPrepare r (CreateOk spec) s)
      (subscribe spec r) := by
  apply Triple.of_eq
  rintro s₀ ⟨hgood, hok⟩
  unfold subscribe
  apply Triple.bind ((findExisting_spec spec s₀).strengthen (fun _ _ h => h)
    (fun s hs => by rw [hs]; exact hgood))
  intro found
  cases found with
  | true => exact Triple.ret fun s hs => by rw [hs.1]; exact hgood
  | false =>
    rw [if_neg (by simp)]
    apply Triple.weaken (P := fun s => s.Good ∧ AfterPrepare r (CreateOk spec) s)
    · apply afterPrepare_good
      intro _
      -- the second search, on the state the reconciliation left
      apply Triple.bind (Q := fun _ s => s.Good ∧ CreateOk spec s)
      · apply Triple.of_eq
        intro s₁ hs₁
        apply (findExisting_spec spec s₁).strengthen
        · rintro _ s ⟨rfl, -⟩
          exact hs₁
        · rintro s rfl
          exact hs₁.1
      intro found
      split
      · exact Triple.ret fun s hs => hs.1
      · exact createAndInstall_good spec
    · rintro s ⟨rfl, hfree⟩
      exact ⟨hgood, hok (hfree rfl)⟩

/-! ## Section 5: Changing and removing channels -/

/-- Replacing the specification of a channel, once its tap is in place in `c`. -/
theorem setChannel_good {s : State} {c : Channelizer} {id : ChannelId}
    {active active' : ActiveChannel} (hgood : s.Good)
    (hget : s.channels.get? id = some active)
    (hids : ∀ tap ∈ c.channels, tap.id < c.nextId)
    (hothers : ∀ j a internalId, j ≠ id → s.channels.get? j = some a →
      a.internalChannelId = some internalId → Placed c a.spec internalId)
    (hinternal : active'.internalChannelId = active.internalChannelId)
    (hplaced : ∀ internalId, active.internalChannelId = some internalId →
      Placed c active'.spec internalId)
    (hprofiled : Profiled active') : Good c (s.channels.insert id active') := by
  have hcases : ∀ j a, (s.channels.insert id active').get? j = some a →
      (j = id ∧ a = active') ∨ (j ≠ id ∧ s.channels.get? j = some a) := by
    intro j a hj
    by_cases hid : j = id
    · rw [hid, BTreeMap.get?_insert_self] at hj
      exact Or.inl ⟨hid, (Option.some.inj hj).symm⟩
    · rw [BTreeMap.get?_insert_ne _ hid] at hj
      exact Or.inr ⟨hid, hj⟩
  -- every entry has the tap it had
  have hold : ∀ j a, (s.channels.insert id active').get? j = some a →
      ∃ a', s.channels.get? j = some a' ∧ a'.internalChannelId = a.internalChannelId := by
    intro j a hj
    rcases hcases j a hj with ⟨rfl, rfl⟩ | ⟨-, hj⟩
    · exact ⟨active, hget, hinternal.symm⟩
    · exact ⟨a, hj, rfl⟩
  refine ⟨hids, ?_, ?_, ?_⟩
  · intro j a internalId hj ha
    rcases hcases j a hj with ⟨-, rfl⟩ | ⟨hne, hj⟩
    · exact hplaced internalId (hinternal ▸ ha)
    · exact hothers j a internalId hne hj ha
  · intro i j a b internalId hi hj ha hb
    obtain ⟨a', hi', ha'⟩ := hold i a hi
    obtain ⟨b', hj', hb'⟩ := hold j b hj
    exact hgood.distinct i j a' b' internalId hi' hj' (ha'.trans ha) (hb'.trans hb)
  · intro j a hj
    rcases hcases j a hj with ⟨-, rfl⟩ | ⟨-, hj⟩
    · exact hprofiled
    · exact hgood.profiled j a hj

/-- A new audio configuration leaves the place of the channel as it is. -/
theorem applyAudio_good (id : ChannelId) (mode : DemodMode)
    (parameters : Option AudioParameters) :
    Keeps (fun _ => True) (applyAudio id mode parameters) := by
  unfold applyAudio
  apply Triple.bind (Q := fun s₁ s => s.Good ∧ s = s₁)
  · exact Triple.get fun s hs => ⟨hs.1, rfl⟩
  intro s₁
  apply Triple.bind (Q := fun active s => s.Good ∧ s = s₁ ∧ s₁.channels.get? id = some active)
  · exact Triple.orFail (fun a ha s hs => ⟨hs.1, hs.2, ha⟩) (fun s hs => hs.1)
  intro active
  cases hpipeline : active.pipeline with
  | audio mode' parameters' =>
    apply Triple.bind (Q := fun _ s => s.Good ∧ s = s₁ ∧ s₁.channels.get? id = some active)
    · exact Triple.lift (fun _ _ s hs => hs) (fun s hs => hs.1)
    intro _
    apply Triple.modify
    rintro s ⟨hgood, rfl, hget⟩
    apply setChannel_good hgood hget hgood.ids_lt
    · exact fun j a internalId _ hj ha => hgood.placed j a internalId hj ha
    · rfl
    · intro internalId hinternal
      have hplaced := hgood.placed id active internalId hget hinternal
      exact ⟨hplaced.tapped, hplaced.representable, hplaced.inSpan⟩
    · intro profile rate center h
      cases h
  | spectrum => exact Triple.fail fun s hs => hs.1
  | adsbPackets => exact Triple.fail fun s hs => hs.1
  | lrptTelemetry profile rate center => exact Triple.fail fun s hs => hs.1

theorem configureAudio_good (id : ChannelId) (mode : DemodMode)
    (parameters : Option AudioParameters) (r : Readings) :
    Keeps (ReconcileOk r) (configureAudio id mode parameters r) := by
  unfold configureAudio
  apply Triple.bind (prepare_good r)
  intro _
  exact (applyAudio_good id mode parameters).weaken fun s hs => ⟨hs, trivial⟩

/-- The tap of a specification. -/
def tapFor (c : Channelizer) (internalId : ℕ) (spec : ChannelSpec) : VirtualChannel :=
  c.tap internalId (virtualCenter c.widebandCenterHz spec.centerOffsetHz)
    spec.channelSampleRateHz

/-- The channelizer after the tap of a channel has moved. -/
def moved (c : Channelizer) (internalId : ℕ) (spec : ChannelSpec) : Channelizer :=
  { c with
    channels := Channelizer.replaceTap internalId (tapFor c internalId spec) c.channels }

theorem mem_replaceTap {id : ℕ} {tap t : VirtualChannel} {l : List VirtualChannel}
    (h : t ∈ Channelizer.replaceTap id tap l) : t = tap ∨ t ∈ l := by
  induction l with
  | nil => cases h
  | cons channel rest ih =>
    unfold Channelizer.replaceTap at h
    split at h
    · rcases List.mem_cons.1 h with rfl | h
      · exact Or.inl rfl
      · exact Or.inr (List.mem_cons_of_mem _ h)
    · rcases List.mem_cons.1 h with rfl | h
      · exact Or.inr List.mem_cons_self
      · exact (ih h).imp_right (List.mem_cons_of_mem _)

theorem moved_find_self {c : Channelizer} {internalId : ℕ} {spec : ChannelSpec}
    (h : (c.find internalId).isSome = true) :
    (moved c internalId spec).find internalId = some (tapFor c internalId spec) :=
  Channelizer.find_replaceTap_self (show (tapFor c internalId spec).id = internalId from rfl) h

/-- A retuned channel is in place, and the others were not touched. -/
theorem moved_good {s : State} {spec : ChannelSpec} {id : ChannelId}
    {active active' : ActiveChannel} {internalId : ℕ} (hgood : s.Good)
    (hget : s.channels.get? id = some active)
    (hinternal : active.internalChannelId = some internalId) (hfits : Fits spec s)
    (hspec : active'.spec = spec) (hinternal' : active'.internalChannelId = some internalId)
    (hprofiled : Profiled active') :
    Good (moved s.channelizer internalId spec) (s.channels.insert id active') := by
  obtain ⟨t, hfind, -⟩ := (hgood.placed id active internalId hget hinternal).tapped
  apply setChannel_good hgood hget
  · intro tap htap
    rcases mem_replaceTap htap with rfl | htap
    · exact find_lt hgood.ids_lt hfind
    · exact hgood.ids_lt tap htap
  · intro j a k hne hj ha
    refine Placed.of_find (hgood.placed j a k hj ha) ?_ rfl rfl
    apply Channelizer.find_replaceTap_ne
      (show (tapFor s.channelizer internalId spec).id = internalId from rfl)
    rintro rfl
    exact hne (hgood.distinct j id a active k hj hget ha hinternal)
  · rw [hinternal', hinternal]
  · intro k hk
    rw [hinternal, Option.some.injEq] at hk
    subst hk
    rw [hspec]
    refine ⟨⟨_, moved_find_self (by rw [hfind]; rfl), ?_⟩, hfits.1, hfits.2⟩
    exact virtualCenter_eq hfits.1
  · exact hprofiled

/-- A telemetry pipeline accepts the output rate of a validated channel. -/
theorem retuneTelemetry_ok {pipeline : ActivePipeline} {spec : ChannelSpec} {rate : ℕ}
    (center : ℕ)
    (hprofiled : ∀ profile r c, pipeline = .lrptTelemetry profile r c →
      spec.kind = .lrptTelemetry ∧ spec.meteorProfile = some profile)
    (hvalid : spec.validate rate = .ok ()) :
    ∃ pipeline', retuneTelemetry pipeline
        (rate / max (rate / spec.channelSampleRateHz) 1) center = .ok pipeline' ∧
      ∀ profile r c, pipeline' = .lrptTelemetry profile r c →
        spec.kind = .lrptTelemetry ∧ spec.meteorProfile = some profile := by
  cases pipeline with
  | lrptTelemetry profile r c =>
    obtain ⟨hkind, hprofile⟩ := hprofiled profile r c rfl
    obtain ⟨profile', hprofile', hsampling⟩ := ChannelSpec.validate_sampling hkind hvalid
    rw [hprofile, Option.some.injEq] at hprofile'
    subst hprofile'
    refine ⟨.lrptTelemetry profile (rate / max (rate / spec.channelSampleRateHz) 1) center,
      by simp only [retuneTelemetry, hsampling], ?_⟩
    rintro _ _ _ ⟨⟩
    exact ⟨hkind, hprofile⟩
  | spectrum => exact ⟨_, rfl, fun _ _ _ h => by cases h⟩
  | adsbPackets => exact ⟨_, rfl, fun _ _ _ h => by cases h⟩
  | audio mode parameters => exact ⟨_, rfl, fun _ _ _ h => by cases h⟩

/-- The tap of a channel moves, and the telemetry that accepts its rate follows. -/
theorem retuneTap_spec {s₀ : State} {internalId : ℕ} {spec : ChannelSpec}
    {pipeline pipeline' : ActivePipeline}
    (haccepts : retuneTelemetry pipeline (tapFor s₀.channelizer internalId spec).outputRateHz
      (tapFor s₀.channelizer internalId spec).centerFreqHz = .ok pipeline') :
    Triple (fun s => s = s₀) (retuneTap internalId spec pipeline)
      (fun p s => p = pipeline' ∧ (s₀.channelizer.find internalId).isSome = true ∧
        s = { s₀ with channelizer := moved s₀.channelizer internalId spec })
      (fun s => s = s₀) := by
  unfold retuneTap
  apply Triple.bind (Q := fun s₁ s => s₁ = s₀ ∧ s = s₀)
  · exact Triple.get fun s hs => ⟨hs, hs⟩
  intro s₁
  apply Triple.of_eq
  rintro s ⟨rfl, rfl⟩
  apply Triple.bind (Q := fun _ t => (s.channelizer.find internalId).isSome = true ∧
    t = { s with channelizer := moved s.channelizer internalId spec })
  · apply (onChannelizer_spec (Channelizer.retuneChannel_spec _ _ _ _)).strengthen
    · rintro _ t ⟨c, ⟨hsome, rfl⟩, rfl⟩
      exact ⟨hsome, rfl⟩
    · exact fun t ht => ht
  intro _
  apply Triple.of_eq
  rintro t ⟨hsome, rfl⟩
  -- the tap is there, with the rate the telemetry accepts
  intro t ht
  subst ht
  have hrate : (moved s.channelizer internalId spec).channelOutputRateHz internalId =
      some (tapFor s.channelizer internalId spec).outputRateHz := by
    unfold Channelizer.channelOutputRateHz
    rw [moved_find_self hsome]
    rfl
  have haccepts' : retuneTelemetry pipeline (tapFor s.channelizer internalId spec).outputRateHz
      (virtualCenter s.channelizer.widebandCenterHz spec.centerOffsetHz) = .ok pipeline' := haccepts
  simp only [bind_apply, get_apply, hrate, orFail, lift_apply, Fallible.ret, haccepts']
  exact ⟨trivial, hsome, trivial⟩

/-- The tap of a channel moves, or nothing happens. -/
theorem retunePipeline_spec {s₀ : State} {spec : ChannelSpec} {active : ActiveChannel}
    (hprofiled : ∀ profile r c, active.pipeline = .lrptTelemetry profile r c →
      spec.kind = .lrptTelemetry ∧ spec.meteorProfile = some profile)
    (hvalid : spec.validate s₀.channelizer.widebandRateHz = .ok ()) :
    Triple (fun s => s = s₀) (retunePipeline active spec)
      (fun pipeline s =>
        (∀ profile r c, pipeline = .lrptTelemetry profile r c →
          spec.kind = .lrptTelemetry ∧ spec.meteorProfile = some profile) ∧
        match active.internalChannelId with
        | some internalId =>
          s = { s₀ with channelizer := moved s₀.channelizer internalId spec }
        | none => s = s₀)
      (fun s => s = s₀) := by
  unfold retunePipeline
  cases active.internalChannelId with
  | none => exact Triple.ret fun s hs => ⟨hprofiled, hs⟩
  | some internalId =>
    obtain ⟨pipeline', hok, hprofiled'⟩ := retuneTelemetry_ok
      (virtualCenter s₀.channelizer.widebandCenterHz spec.centerOffsetHz) hprofiled hvalid
    apply Triple.strengthen (retuneTap_spec hok)
    · rintro _ s ⟨rfl, -, hs⟩
      exact ⟨hprofiled', hs⟩
    · exact fun s hs => hs

/-- The pipeline keeps its profile when it takes a new configuration. -/
theorem reconfigured_profiled {pipeline : ActivePipeline} {spec : ChannelSpec}
    (h : ∀ profile r c, pipeline = .lrptTelemetry profile r c →
      spec.kind = .lrptTelemetry ∧ spec.meteorProfile = some profile) :
    ∀ profile r c, pipeline.reconfigured spec = .lrptTelemetry profile r c →
      spec.kind = .lrptTelemetry ∧ spec.meteorProfile = some profile := by
  cases pipeline with
  | audio mode parameters => exact fun _ _ _ h => by cases h
  | spectrum => exact h
  | adsbPackets => exact h
  | lrptTelemetry profile r c => exact h

theorem retuned_kind (spec : ChannelSpec) (offset : ℤ) (rate : ℕ)
    (audio : Option AudioConfiguration) :
    (spec.retuned offset rate audio).kind = spec.kind ∧
      (spec.retuned offset rate audio).meteorProfile = spec.meteorProfile ∧
      (spec.retuned offset rate audio).centerOffsetHz = offset := by
  unfold ChannelSpec.retuned
  cases audio <;> exact ⟨rfl, rfl, rfl⟩

theorem applyRetune_good (id : ChannelId) (offset : ℤ) (rate : ℕ)
    (audio : Option AudioConfiguration) :
    Keeps (RetuneOk id offset rate audio) (applyRetune id offset rate audio) := by
  apply Triple.of_eq
  rintro s₀ ⟨hgood, hok⟩
  unfold applyRetune
  apply Triple.bind (Q := fun s₁ s => s₁ = s₀ ∧ s = s₀)
  · exact Triple.get fun s hs => ⟨hs, hs⟩
  intro s₁
  apply Triple.bind (Q := fun active s => s₁ = s₀ ∧ s = s₀ ∧ s₀.channels.get? id = some active)
  · exact Triple.orFail (fun a ha s hs => ⟨hs.1, hs.2, by rw [← hs.1]; exact ha⟩)
      (fun s hs => by rw [hs.2]; exact hgood)
  intro active
  apply Triple.of_eq
  rintro s ⟨rfl, rfl, hget⟩
  obtain ⟨hkind, hprofile, hoffset⟩ := retuned_kind active.spec offset rate audio
  apply Triple.bind (Q := fun _ t => t = s)
  · exact Triple.ensure (fun _ _ hs => hs) (fun t ht => by rw [ht]; exact hgood)
  intro _
  apply Triple.bind (Q := fun _ t => t = s ∧
    (active.spec.retuned offset rate audio).validate s.channelizer.widebandRateHz = .ok ())
  · exact Triple.lift (fun _ hvalid t ht => ⟨ht, hvalid⟩) (fun t ht => by rw [ht]; exact hgood)
  intro _
  apply Triple.of_eq
  rintro t ⟨rfl, hvalid⟩
  -- the retuned channel keeps its kind, and with it the pipeline that is built for it
  have hprofiled : ∀ profile r c, active.pipeline = .lrptTelemetry profile r c →
      (active.spec.retuned offset rate audio).kind = .lrptTelemetry ∧
        (active.spec.retuned offset rate audio).meteorProfile = some profile := by
    intro profile r c h
    rw [hkind, hprofile]
    exact hgood.profiled id active hget profile r c h
  apply Triple.bind ((retunePipeline_spec hprofiled hvalid).strengthen (fun _ _ h => h)
    (fun t ht => by rw [ht]; exact hgood))
  intro pipeline
  apply Triple.modify
  rintro t' ⟨hpipeline, hs⟩
  have hprofiled' := reconfigured_profiled hpipeline
  show Good t'.channelizer (t'.channels.insert id _)
  -- only a channel with a tap moves one
  cases hinternal : active.internalChannelId with
  | some internalId =>
    rw [hinternal] at hs
    subst hs
    refine moved_good hgood hget hinternal ⟨?_, ChannelSpec.validate_inSpan hvalid⟩ rfl rfl
      hprofiled'
    rw [hoffset]
    exact hok active internalId hget hinternal hvalid
  | none =>
    rw [hinternal] at hs
    subst hs
    apply setChannel_good hgood hget hgood.ids_lt
    · exact fun j a internalId _ hj ha => hgood.placed j a internalId hj ha
    · exact hinternal.symm
    · intro internalId h
      rw [hinternal] at h
      cases h
    · exact hprofiled'

theorem retuneConfigured_good (id : ChannelId) (offset : ℤ) (rate : ℕ)
    (audio : Option AudioConfiguration) (r : Readings) :
    Keeps (AfterPrepare r (RetuneOk id offset rate audio))
      (retuneConfigured id offset rate audio r) := by
  unfold retuneConfigured
  apply afterPrepare_good
  intro _
  exact applyRetune_good id offset rate audio

/-- Removing an entry of the table keeps the invariant of the others. -/
theorem erase_good {c : Channelizer} {channels : ChannelTable} (h : Good c channels)
    (id : ChannelId) : Good c (channels.erase id) := by
  have hold : ∀ j a, (channels.erase id).get? j = some a → j ≠ id ∧ channels.get? j = some a := by
    intro j a hj
    by_cases hid : j = id
    · rw [hid, BTreeMap.get?_erase_self] at hj
      cases hj
    · rw [BTreeMap.get?_erase_ne _ hid] at hj
      exact ⟨hid, hj⟩
  refine ⟨h.ids_lt, ?_, ?_, ?_⟩
  · intro j a internalId hj ha
    exact h.placed j a internalId (hold j a hj).2 ha
  · intro i j a b internalId hi hj ha hb
    exact h.distinct i j a b internalId (hold i a hi).2 (hold j b hj).2 ha hb
  · intro j a hj
    exact h.profiled j a (hold j a hj).2

theorem removeChannel_good (id : ChannelId) : Keeps (fun _ => True) (removeChannel id) := by
  unfold removeChannel
  apply Triple.bind (Q := fun s₁ s => s.Good ∧ s = s₁)
  · exact Triple.get fun s hs => ⟨hs.1, rfl⟩
  intro s₁
  apply Triple.bind (Q := fun _ s => s.Good ∧ s = s₁)
  · exact Triple.ensure (fun _ _ hs => hs) (fun _ hs => hs.1)
  intro _
  apply Triple.bind (Q := fun active s => s.Good ∧ s.channels.get? id = some active)
  · apply Triple.orFail
    · rintro active hget s ⟨hgood, rfl⟩
      exact ⟨hgood, hget⟩
    · exact fun s hs => hs.1
  intro active
  -- no other channel uses the tap of the removed one
  apply Triple.bind (Q := fun _ s => s.Good ∧ ∀ internalId,
    active.internalChannelId = some internalId →
      ∀ i a, s.channels.get? i = some a → a.internalChannelId ≠ some internalId)
  · apply Triple.modify
    rintro s ⟨hgood, hget⟩
    refine ⟨erase_good hgood id, ?_⟩
    intro internalId hinternal i a hi ha
    by_cases hid : i = id
    · rw [hid, BTreeMap.get?_erase_self] at hi
      cases hi
    · rw [BTreeMap.get?_erase_ne _ hid] at hi
      exact hid (hgood.distinct i id a active internalId hi hget ha hinternal)
  intro _
  unfold discard
  cases active.internalChannelId with
  | none => exact Triple.ret fun s hs => hs.1
  | some internalId =>
    exact (removeTap_good internalId).weaken fun s hs => ⟨hs.1, hs.2 internalId rfl⟩

/-! ## Section 6: Recordings -/

theorem recordingCenter_spec {s : State} {id : ChannelId} {active : ActiveChannel} {hz : ℕ}
    (hgood : s.Good) (hget : s.channels.get? id = some active)
    (h : recordingCenter s id active = .ok hz) : RecordedAt s id hz := by
  refine ⟨active, hget, ?_⟩
  unfold recordingCenter at h
  cases hinternal : active.internalChannelId with
  | none =>
    rw [hinternal] at h
    cases h
    rfl
  | some internalId =>
    rw [hinternal] at h
    obtain ⟨⟨tap, hfind, hcenter⟩, hrep, -⟩ := hgood.placed id active internalId hget hinternal
    simp only [hfind, Option.isSome_some, if_true] at h
    cases h
    -- the tap and the metadata are both the unclamped centre
    show (s.channelizer.find internalId).map VirtualChannel.centerFreqHz = _
    rw [hfind, Option.map_some, Option.some.injEq]
    have := virtualCenter_eq hrep
    omega

theorem startRecording_good (id : ChannelId) (format : RecordingFormat)
    (io : Except String String) :
    Triple (fun s => s.Good) (startRecording id format io)
      (fun hz s => s.Good ∧ RecordedAt s id hz) State.Good := by
  unfold startRecording
  apply Triple.bind (Q := fun s₁ s => s.Good ∧ s = s₁)
  · exact Triple.get fun s hs => ⟨hs, rfl⟩
  intro s₁
  apply Triple.bind (Q := fun active s => s.Good ∧ s = s₁ ∧ s.channels.get? id = some active)
  · apply Triple.orFail
    · rintro active hget s ⟨hgood, rfl⟩
      exact ⟨hgood, rfl, hget⟩
    · exact fun s hs => hs.1
  intro active
  apply Triple.bind (Q := fun hz s => s.Good ∧ RecordedAt s id hz)
  · apply Triple.lift
    · rintro hz hcenter s ⟨hgood, rfl, hget⟩
      exact ⟨hgood, recordingCenter_spec hgood hget hcenter⟩
    · exact fun s hs => hs.1
  intro hz
  apply Triple.bind (Q := fun _ s => s.Good ∧ RecordedAt s id hz)
  · exact Triple.ensure (fun _ _ hs => hs) (fun _ hs => hs.1)
  intro _
  apply Triple.bind (Q := fun _ s => s.Good ∧ RecordedAt s id hz)
  · exact Triple.modify fun s hs => hs
  intro _
  apply Triple.bind (Q := fun _ s => s.Good ∧ RecordedAt s id hz)
  · exact Triple.lift (fun _ _ s hs => hs) (fun s hs => hs.1)
  intro _
  apply Triple.bind (Q := fun _ s => s.Good ∧ RecordedAt s id hz)
  · exact Triple.modify fun s hs => hs
  intro _
  exact Triple.ret fun s hs => hs

theorem stopRecording_good (id : ChannelId) (error : Option String) :
    Keeps (fun _ => True) (stopRecording id error) := by
  unfold stopRecording
  apply Triple.bind (Q := fun _ s => s.Good)
  · exact Triple.get fun s hs => hs.1
  intro s₁
  apply Triple.bind (Q := fun _ s => s.Good)
  · exact Triple.orFail (fun _ _ s hs => hs) (fun s hs => hs)
  intro recording
  cases error with
  | none => exact Triple.modify fun s hs => hs
  | some e =>
    apply Triple.bind (Q := fun _ s => s.Good)
    · exact Triple.modify fun s hs => hs
    intro _
    exact Triple.fail fun s hs => hs

/-! ## Section 7: Every run -/

/-- A reply that names the frequency of a recording names the right one. -/
def RepliesRight (input : Input) (reply : Reply) (s : State) : Prop :=
  match input, reply with
  | .startRecording id _ _, .recording hz => RecordedAt s id hz
  | _, _ => True

/-- An operation that answers nothing about recordings. -/
theorem operation_of_keeps {α : Type} {P : State → Prop} {x : Fails State α} {f : α → Reply}
    {input : Input} (hx : Keeps P x) (hinput : ∀ id format io, input ≠ .startRecording id format io) :
    Triple (fun s => s.Good ∧ P s) (x >>= fun a => pure (f a))
      (fun reply s => s.Good ∧ RepliesRight input reply s) State.Good := by
  apply Triple.bind hx
  intro a
  apply Triple.ret
  intro s hs
  refine ⟨hs, ?_⟩
  cases input with
  | startRecording id format io => exact absurd rfl (hinput id format io)
  | _ => trivial

/-- Every operation keeps the invariant, when its step updates both sides. -/
theorem operation_good (input : Input) :
    Triple (fun s => s.Good ∧ StepOk s input) input.operation
      (fun reply s => s.Good ∧ RepliesRight input reply s) State.Good := by
  cases input with
  | subscribe spec r => exact operation_of_keeps (subscribe_good spec r) (by simp)
  | unsubscribe id => exact Triple.ret fun s hs => ⟨hs.1, trivial⟩
  | removeChannel id => exact operation_of_keeps (removeChannel_good id) (by simp)
  | retune id offset rate audio r =>
    exact operation_of_keeps (retuneConfigured_good id offset rate audio r) (by simp)
  | configureAudio id mode parameters r =>
    exact operation_of_keeps (configureAudio_good id mode parameters r) (by simp)
  | setFrequency hz c => exact operation_of_keeps (setFrequency_good hz c) (by simp)
  | setSampleRate hz c => exact operation_of_keeps (setSampleRate_good hz c) (by simp)
  | reconcile r => exact operation_of_keeps (prepare_good r) (by simp)
  | startRecording id format io =>
    apply Triple.bind ((startRecording_good id format io).weaken fun s hs => hs.1)
    intro hz
    exact Triple.ret fun s hs => hs
  | stopRecording id error => exact operation_of_keeps (stopRecording_good id error) (by simp)
  | recordingEnds id =>
    apply operation_of_keeps (P := fun _ => True) _ (by simp)
    exact Triple.modify fun s hs => hs.1

/-- What a run keeps: the law holds after every step, and recordings are named right. -/
structure RunLaw (h : List Ev) (s : State) : Prop where
  good : s.Good
  law : ∀ e ∈ h, GeometryLaw e.after
  recorded : ∀ e ∈ h, ∀ id format io hz, e.input = .startRecording id format io →
    e.output = .ok (.recording hz) → RecordedAt e.after id hz

/-- The step lemma. -/
theorem step_runLaw {h : List Ev} {s s' : State} {input : Input} {reply : Except String Reply}
    {center rate : ℕ} (hlaw : RunLaw h s) (hok : StepOk s input)
    (hstep : (machine center rate).step s input = some (s', reply)) :
    RunLaw (h ++ [⟨s, input, reply, s'⟩]) s' := by
  have hrun : input.operation s = (reply, s') := by
    simpa [machine, Prod.ext_iff, and_comm] using hstep
  have hgood : s'.Good ∧ ∀ r, reply = .ok r → RepliesRight input r s' := by
    have h := operation_good input s ⟨hlaw.good, hok⟩
    rw [hrun] at h
    cases reply with
    | error e => exact ⟨h, fun r hr => by cases hr⟩
    | ok r =>
      refine ⟨h.1, ?_⟩
      rintro r' ⟨⟩
      exact h.2
  refine ⟨hgood.1, ?_, ?_⟩
  · intro e he
    rcases List.mem_append.1 he with he | he
    · exact hlaw.law e he
    · rw [List.mem_singleton] at he
      subst he
      exact hgood.1.law
  · intro e he id format io hz hinput houtput
    rcases List.mem_append.1 he with he | he
    · exact hlaw.recorded e he id format io hz hinput houtput
    · rw [List.mem_singleton] at he
      subst he
      have := hgood.2 _ houtput
      rw [show input = .startRecording id format io from hinput] at this
      exact this

/-- In every run whose steps update both sides of the virtual channels, the
    geometry law holds after every step, and every recording is named after the
    frequency its channel is tuned to. -/
theorem run_geometry {center rate : ℕ} {inputs : List Input} {h : List Ev} {t : State}
    (hrun : (machine center rate).run (State.new center rate) inputs = some (t, h))
    (hok : ∀ e ∈ h, StepOk e.before e.input) :
    GeometryLaw t ∧ (∀ e ∈ h, GeometryLaw e.after) ∧
      ∀ e ∈ h, ∀ id format io hz, e.input = .startRecording id format io →
        e.output = .ok (.recording hz) → RecordedAt e.after id hz := by
  -- induction on the run: the condition is needed for the steps made so far only
  have hlaw : (∀ e ∈ h, StepOk e.before e.input) → RunLaw h t := by
    refine (machine center rate).run_inv (I := fun _ => True)
      (P := fun h s => (∀ e ∈ h, StepOk e.before e.input) → RunLaw h s) ?_ ?_
      (fun _ _ => trivial) hrun
    · intro _
      exact ⟨new_good center rate, by simp, by simp⟩
    · intro h s i s' o ih _ hstep hok
      have hok' : StepOk s i := hok ⟨s, i, o, s'⟩ (by simp)
      apply step_runLaw _ hok' hstep
      exact ih fun e he => hok e (List.mem_append_left _ he)
  obtain ⟨hgood, hafter, hrecorded⟩ := hlaw hok
  exact ⟨hgood.law, hafter, hrecorded⟩

/-- A connected receiver at 4.8 MHz. -/
def receiverAt (hz : ℕ) : HardwareStatus where
  connected := true
  sourceKind := "rtlsdr"
  frequencyHz := hz
  sampleRateHz := 4800000
  gainDb := 0
  requestedGainDb := none
  gainMode := none
  error := none

/-- What an operation reads when no command is pending. -/
def readingsAt (hz : ℕ) : Readings := ⟨none, receiverAt hz, receiverAt hz⟩

/-- An ADS-B channel 100 kHz above the wideband centre. -/
def adsbSpec : ChannelSpec := ⟨1, .adsbPackets, 100000, 2400000, none, none, none⟩

/-- The recording of a channel that was retuned after its creation. -/
theorem run_geometry_recording :
    ∃ h t, (machine 100000000 4800000).run (State.new 100000000 4800000)
      [.subscribe adsbSpec (readingsAt 100000000),
       .retune 1 (-200000) 2400000 none (readingsAt 100000000),
       .startRecording 1 .cf32 (.ok "ch1")] = some (t, h) ∧
      GeometryLaw t ∧ RecordedAt t 1 99800000 := by
  refine ⟨_, _, rfl, ?_⟩
  have hlaw := @run_geometry 100000000 4800000
    [.subscribe adsbSpec (readingsAt 100000000),
      .retune 1 (-200000) 2400000 none (readingsAt 100000000),
      .startRecording 1 .cf32 (.ok "ch1")] _ _ rfl ?_
  · obtain ⟨hend, -, hrecorded⟩ := hlaw
    refine ⟨hend, ?_⟩
    exact hrecorded _ (List.mem_of_getLast? rfl) 1 .cf32 (.ok "ch1") 99800000 rfl rfl
  · -- the centre never moves, and both centres are far from the ends of `i64`
    intro e he
    simp only [List.mem_cons, List.not_mem_nil, or_false] at he
    rcases he with rfl | rfl | rfl
    · intro _
      refine ⟨nofun, ?_⟩
      intro u s' hprepare _ _
      cases hprepare
      decide
    · refine ⟨nofun, ?_⟩
      intro u s' hprepare active internalId _ _ _
      cases hprepare
      decide
    · trivial

/-- The daemon is tuned 1 MHz up. The tap stays where it was, the table still gives its offset from
    the old centre. -/
theorem setFrequency_leaves_tap :
    ∃ h t, (machine 100000000 4800000).run (State.new 100000000 4800000)
      [.subscribe adsbSpec (readingsAt 100000000),
       .setFrequency 101000000 ⟨readingsAt 100000000, .accepted, receiverAt 101000000⟩] =
        some (t, h) ∧ ¬ GeometryLaw t := by
  refine ⟨_, _, rfl, ?_⟩
  intro hlaw
  obtain ⟨tap, hfind, hcenter, -⟩ := hlaw 1 ⟨adsbSpec, some 0, .adsbPackets⟩ 0 rfl rfl
  cases hfind
  revert hcenter
  decide

end Daemon
