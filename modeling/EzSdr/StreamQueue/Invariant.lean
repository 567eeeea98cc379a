import EzSdr.StreamQueue.Steps

/-! # Structural Invariant of the Stream Queue

    The byte counter is the sum of the weights of all queued frames, every
    slot has something to deliver, a protected front exists, and the number
    of channels is bounded. A queue that satisfies the invariant never
    crashes, so every sequence of calls runs to its end. -/

namespace StreamQueue

/-! ## Section 1: The invariant -/

/-- What holds of a slot on its own. -/
structure Slot.Ok (slot : Slot) : Prop where
  /-- A protected front is there. -/
  front    : slot.protectFront = true → slot.frames ≠ []
  /-- An opened slot knows when it was last touched. -/
  observed : slot.observedAt ≠ none

/-- What holds of the queue also between the primitive changes of one call. -/
structure State.Sound (q : State) : Prop where
  /-- The byte counter is exact. -/
  bytes_eq    : q.bytes = q.channels.total (fun _ slot => slot.bytes)
  /-- The number of channels is bounded. -/
  channels_le : q.channels.size ≤ STREAM_CHANNEL_CAPACITY
  /-- All slots are well formed. -/
  slots       : ∀ id slot, q.channels.get? id = some slot → slot.Ok

/-- Every slot other than that of `id` has something to deliver. -/
def State.LiveBut (q : State) (id : Option ChannelId) : Prop :=
  ∀ j slot, some j ≠ id → q.channels.get? j = some slot → slot.isIdle = false

/-- The invariant of the queue between calls. -/
structure State.Inv (q : State) : Prop extends q.Sound where
  live : q.LiveBut none

/-- No channel has a frame or a loss to deliver. -/
def State.NothingPending (q : State) : Prop :=
  ∀ id slot, q.channels.get? id = some slot → slot.frames = [] ∧ slot.skipped = 0

theorem inv_initialState : initialState.Inv where
  bytes_eq    := rfl
  channels_le := by decide
  slots       := by intro id slot h; cases h
  live        := by intro id slot _ h; cases h

/-! ## Section 2: Primitive changes -/

@[simp] theorem saturatingAdd_pos (a : ℕ) {b : ℕ} (hb : 0 < b) : 0 < saturatingAdd a b := by
  unfold saturatingAdd; omega

theorem isIdle_eq_false_of_skipped {slot : Slot} (h : 0 < slot.skipped) :
    slot.isIdle = false := by
  simp [Slot.isIdle, Nat.ne_of_gt h]

theorem isIdle_eq_false_of_frames {slot : Slot} (h : slot.frames ≠ []) :
    slot.isIdle = false := by
  simp [Slot.isIdle, h]

/-- Replacing the slot of an open channel keeps the queue sound when the
    byte counter moves with the slot. -/
theorem State.Sound.replace {q : State} (hq : q.Sound) {id : ChannelId} {slot slot' : Slot}
    {bytes skipped : ℕ} {last : Option ChannelId} (hslot : q.channels.get? id = some slot)
    (hok : slot'.Ok) (hbytes : bytes + slot.bytes = q.bytes + slot'.bytes) :
    State.Sound ⟨q.channels.insert id slot', last, bytes, skipped⟩ where
  bytes_eq := by
    have htot := q.channels.total_insert (fun _ s => s.bytes) id slot'
    rw [hslot, BTreeMap.share_some, ← hq.bytes_eq] at htot
    simp only
    omega
  channels_le := by
    simpa [q.channels.size_insert_of_mem hslot] using hq.channels_le
  slots := by
    intro j s hj
    by_cases h : j = id
    · subst h
      simp only [BTreeMap.get?_insert_self, Option.some.injEq] at hj
      exact hj ▸ hok
    · rw [BTreeMap.get?_insert_ne _ h] at hj
      exact hq.slots j s hj

/-- Opening a new channel below the limit keeps the queue sound. -/
theorem State.Sound.create {q : State} (hq : q.Sound) {id : ChannelId} {slot' : Slot}
    {skipped : ℕ} {last : Option ChannelId} (hslot : q.channels.get? id = none)
    (hsize : q.channels.size < STREAM_CHANNEL_CAPACITY) (hok : slot'.Ok)
    (hframes : slot'.frames = []) :
    State.Sound ⟨q.channels.insert id slot', last, q.bytes, skipped⟩ where
  bytes_eq := by
    have htot := q.channels.total_insert (fun _ s => s.bytes) id slot'
    rw [hslot, BTreeMap.share_none, ← hq.bytes_eq] at htot
    have hzero : slot'.bytes = 0 := by simp [Slot.bytes, hframes]
    simp only
    omega
  channels_le := by
    rw [q.channels.size_insert_of_not_mem hslot]
    omega
  slots := by
    intro j s hj
    by_cases h : j = id
    · subst h
      simp only [BTreeMap.get?_insert_self, Option.some.injEq] at hj
      exact hj ▸ hok
    · rw [BTreeMap.get?_insert_ne _ h] at hj
      exact hq.slots j s hj

/-- Removing a channel keeps the queue sound when its bytes are uncharged. -/
theorem State.Sound.remove {q : State} (hq : q.Sound) {id : ChannelId} {slot : Slot}
    {bytes skipped : ℕ} {last : Option ChannelId} (hslot : q.channels.get? id = some slot)
    (hbytes : bytes + slot.bytes = q.bytes) :
    State.Sound ⟨q.channels.erase id, last, bytes, skipped⟩ where
  bytes_eq := by
    have htot := q.channels.total_erase (fun _ s => s.bytes) id
    rw [hslot, BTreeMap.share_some, ← hq.bytes_eq] at htot
    simp only
    omega
  channels_le := (q.channels.size_erase_le id).trans hq.channels_le
  slots := by
    intro j s hj
    by_cases h : j = id
    · subst h; simp at hj
    · rw [BTreeMap.get?_erase_ne _ h] at hj
      exact hq.slots j s hj

/-- A changed slot that has something to deliver leaves no idle slot behind. -/
theorem State.LiveBut.replace {q : State} {id : ChannelId} (hq : q.LiveBut (some id))
    {slot' : Slot} {bytes skipped : ℕ} {last : Option ChannelId} (hlive : slot'.isIdle = false) :
    State.LiveBut ⟨q.channels.insert id slot', last, bytes, skipped⟩ none := by
  intro j s _ hj
  by_cases h : j = id
  · subst h
    simp only [BTreeMap.get?_insert_self, Option.some.injEq] at hj
    exact hj ▸ hlive
  · rw [BTreeMap.get?_insert_ne _ h] at hj
    exact hq j s (by simpa using h) hj

theorem State.LiveBut.weaken {q : State} (hq : q.LiveBut none) (id : Option ChannelId) :
    q.LiveBut id :=
  fun j slot _ hj => hq j slot (by simp) hj

/-! ## Section 3: Evictions -/

theorem Slot.bytes_split {slot : Slot} {pre post : List Queued} {old : Queued}
    (h : slot.frames = pre ++ old :: post) :
    slot.bytes = ((pre ++ post).map Queued.weight).sum + old.weight := by
  simp [Slot.bytes, h]; omega

theorem Slot.Ok.evicted {slot : Slot} (hok : slot.Ok) {pre post : List Queued}
    (hprot : slot.protectedCount ≤ pre.length) :
    Slot.Ok { slot.skip with frames := pre ++ post } where
  front := by
    intro hp hnil
    have hp' : slot.protectFront = true := hp
    have hpre : 1 ≤ pre.length := by simpa [Slot.protectedCount, hp'] using hprot
    simp only [List.append_eq_nil_iff] at hnil
    simp [hnil.1] at hpre
  observed := hok.observed

theorem EvictStep.sound {id : ChannelId} {q q' : State} (h : EvictStep id q q')
    (hq : q.Sound) : q'.Sound := by
  obtain ⟨slot, pre, old, post, hslot, hsplit, hprot, -, -, hle, rfl⟩ := h
  refine hq.replace hslot ((hq.slots _ _ hslot).evicted hprot) ?_
  rw [slot.bytes_split hsplit]
  simp only [Slot.bytes]
  omega

theorem EvictStep.live {id : ChannelId} {q q' : State} {but : Option ChannelId}
    (h : EvictStep id q q') (hq : q.LiveBut but) : q'.LiveBut but := by
  obtain ⟨slot, pre, old, post, hslot, -, -, -, -, -, rfl⟩ := h
  intro j s hne hj
  by_cases hid : j = id
  · subst hid
    simp only [State.evicted, State.setSlot, BTreeMap.get?_insert_self, Option.some.injEq] at hj
    subst hj
    exact isIdle_eq_false_of_skipped (saturatingAdd_pos _ one_pos)
  · simp only [State.evicted, State.setSlot, BTreeMap.get?_insert_ne _ hid] at hj
    exact hq j s hne hj

theorem Evictions.sound {q q' : State} (h : Evictions q q') (hq : q.Sound) : q'.Sound := by
  induction h with
  | refl => exact hq
  | tail _ hs ih => obtain ⟨id, hs⟩ := hs; exact hs.sound ih

theorem Evictions.live {q q' : State} {but : Option ChannelId} (h : Evictions q q')
    (hq : q.LiveBut but) : q'.LiveBut but := by
  induction h with
  | refl => exact hq
  | tail _ hs ih => obtain ⟨id, hs⟩ := hs; exact hs.live ih

/-- Evictions never raise the byte counter. -/
theorem Evictions.bytes_le {q q' : State} (h : Evictions q q') : q'.bytes ≤ q.bytes := by
  induction h with
  | refl => exact le_rfl
  | tail _ hs ih =>
    obtain ⟨id, slot, pre, old, post, -, -, -, -, -, -, rfl⟩ := hs
    simp only [State.evicted, State.setSlot]
    omega

/-! ## Section 4: Calls keep the invariant -/

/-- The slot a push or a gap note opens is well formed. -/
theorem slot_ok_of_open {q : State} (hq : q.Sound) (id : ChannelId) (k : ℕ) (at' : Instant) :
    Slot.Ok { (q.channels.get? id).getD default with skipped := k, observedAt := some at' } where
  front := by
    cases hslot : q.channels.get? id with
    | none => intro h; cases h
    | some slot => exact (hq.slots id slot hslot).front
  observed := by simp

theorem size_lt_of_not_atLimit {q : State} {id : ChannelId} (h : q.atLimit id = false)
    (hslot : q.channels.get? id = none) : q.channels.size < STREAM_CHANNEL_CAPACITY := by
  simpa [State.atLimit, BTreeMap.contains, hslot] using h

/-- Storing a freshly opened slot of `id`, with any skipped count. -/
theorem State.Sound.open {q : State} (hq : q.Sound) {id : ChannelId}
    (hlimit : q.atLimit id = false) (k skipped : ℕ) (at' : Instant) :
    State.Sound ⟨q.channels.insert id
      { (q.channels.get? id).getD default with skipped := k, observedAt := some at' },
      q.lastChannel, q.bytes, skipped⟩ := by
  have hok := slot_ok_of_open hq id k at'
  cases hslot : q.channels.get? id with
  | none =>
    rw [hslot] at hok
    exact hq.create hslot (size_lt_of_not_atLimit hlimit hslot) hok rfl
  | some slot =>
    rw [hslot] at hok
    exact hq.replace hslot hok (by simp [Slot.bytes])

theorem opened_sound {q : State} (hq : q.Sound) {id : ChannelId} (hlimit : q.atLimit id = false)
    (at' : Instant) : (q.opened id at').Sound :=
  hq.open hlimit _ q.skipped at'

theorem opened_live {q : State} (hq : q.LiveBut none) (id : ChannelId) (at' : Instant) :
    (q.opened id at').LiveBut (some id) := by
  intro j s hne hj
  have hid : j ≠ id := by simpa using hne
  simp only [State.opened, State.setSlot, BTreeMap.get?_insert_ne _ hid] at hj
  exact hq j s (by simp) hj

theorem Slot.Ok.append {slot : Slot} (hok : slot.Ok) (entry : Queued) :
    Slot.Ok { slot with frames := slot.frames ++ [entry] } :=
  ⟨fun _ => by simp, hok.observed⟩

theorem appended_sound {q : State} (hq : q.Sound) {id : ChannelId} {slot : Slot}
    (hslot : q.channels.get? id = some slot) (entry : Queued) :
    (q.appended id slot entry).Sound := by
  refine hq.replace hslot ((hq.slots _ _ hslot).append entry) ?_
  simp [Slot.bytes]
  omega

theorem PushCase.inv {L : Layout} {q q' : State} {id : ChannelId} {capacity : ℕ}
    {event : ServerEvent} {at' : Instant} {ok : Bool}
    (h : PushCase L q id capacity event at' ok q') (hcap : 0 < capacity) (hq : q.Inv) :
    q'.Inv := by
  cases h with
  | refused _ =>
    exact ⟨⟨hq.bytes_eq, hq.channels_le, hq.slots⟩, hq.live⟩
  | full slot hlimit hcrit hslot hlen =>
    refine ⟨opened_sound hq.toSound hlimit at', ?_⟩
    intro j s _ hj
    by_cases hid : j = id
    · subst hid
      obtain rfl : slot = s := Option.some.inj (hslot.symm.trans hj)
      exact isIdle_eq_false_of_frames (List.ne_nil_of_length_pos (by omega))
    · exact opened_live hq.live id at' j s (by simpa using hid) hj
  | skipped q₁ slot hlimit hcrit hev hslot hall =>
    have hs := hev.toEvictions.sound (opened_sound hq.toSound hlimit at')
    have hl := hev.toEvictions.live (opened_live hq.live id at')
    refine ⟨hs.replace hslot ⟨(hs.slots _ _ hslot).front, (hs.slots _ _ hslot).observed⟩ ?_,
      hl.replace (isIdle_eq_false_of_skipped (saturatingAdd_pos _ one_pos))⟩
    simp [Slot.bytes, Slot.skip, State.setSlot]
  | queued q₁ slot q' ok hlimit hcrit hev hslot hshrink hok =>
    have hs := hev.toEvictions.sound (opened_sound hq.toSound hlimit at')
    have hl := hev.toEvictions.live (opened_live hq.live id at')
    refine ⟨hshrink.sound (appended_sound hs hslot _), hshrink.live (hl.replace ?_)⟩
    exact isIdle_eq_false_of_frames (by simp)

theorem noteGap_inv {q : State} (hq : q.Inv) (id : ChannelId) (frames : ℕ) (at' : Instant) :
    (q.noteGap id frames at').2.Inv := by
  rcases noteGap_cases q id frames at' with ⟨-, h⟩ | ⟨-, -, h⟩ | ⟨hpos, hlimit, h⟩
  · rw [h]; exact hq
  · rw [h]; exact hq
  · rw [h]
    refine ⟨hq.toSound.open hlimit _ _ at', ?_⟩
    exact (hq.live.weaken (some id)).replace (isIdle_eq_false_of_skipped (saturatingAdd_pos _ hpos))

/-- Settling a well-formed slot after a pop. -/
theorem settle_inv {q : State} (hq : q.Inv) {id : ChannelId} {slot slot' : Slot} {bytes : ℕ}
    {last : Option ChannelId} (hslot : q.channels.get? id = some slot) (hok : slot'.Ok)
    (hbytes : bytes + slot.bytes = q.bytes + slot'.bytes) :
    (State.settle ⟨q.channels, last, bytes, q.skipped⟩ id slot').Inv := by
  unfold State.settle
  split_ifs with hidle
  · have hzero : slot'.bytes = 0 := by
      simp only [Slot.isIdle, Bool.and_eq_true, List.isEmpty_iff] at hidle
      simp [Slot.bytes, hidle.1]
    refine ⟨hq.toSound.remove hslot (by simpa [hzero] using hbytes), ?_⟩
    intro j s _ hj
    by_cases hid : j = id
    · subst hid; simp at hj
    · rw [BTreeMap.get?_erase_ne _ hid] at hj
      exact hq.live j s (by simp) hj
  · exact ⟨hq.toSound.replace hslot hok hbytes,
      (hq.live.weaken (some id)).replace (by simpa using hidle)⟩

theorem PopCase.inv {q q' : State} {item : Option (ServerEvent × Instant)}
    (h : PopCase q item q') (hq : q.Inv) : q'.Inv := by
  cases h with
  | nothing _ => exact hq
  | gap id slot observedAt hslot hskipped hfront hobserved =>
    refine settle_inv hq hslot ⟨?_, (hq.slots _ _ hslot).observed⟩ (by simp [Slot.bytes])
    intro hp hnil
    simp only at hnil
    simp [hnil] at hp
  | frame id slot next rest hslot hframes hgap hweight =>
    refine settle_inv hq hslot ⟨by simp, (hq.slots _ _ hslot).observed⟩ ?_
    simp [Slot.bytes, hframes]
    omega
  | idle id slot hslot hframes hgap =>
    exact settle_inv hq hslot (hq.slots _ _ hslot) rfl

theorem clear_inv {q q' : State} {id : ChannelId} (h : q.clear id = some q') (hq : q.Inv) :
    q'.Inv := by
  rcases clear_cases h with ⟨-, rfl⟩ | ⟨slot, hslot, hle, rfl⟩
  · exact hq
  · refine ⟨hq.toSound.remove hslot (by omega), ?_⟩
    intro j s _ hj
    by_cases hid : j = id
    · subst hid; simp at hj
    · rw [BTreeMap.get?_erase_ne _ hid] at hj
      exact hq.live j s (by simp) hj

/-! ## Section 5: No call crashes -/

/-- A queued frame is charged in the byte counter. -/
theorem State.Sound.weight_le {q : State} (hq : q.Sound) {id : ChannelId} {slot : Slot}
    (hslot : q.channels.get? id = some slot) {entry : Queued} (hentry : entry ∈ slot.frames) :
    entry.weight ≤ q.bytes := by
  have hslot_le : slot.bytes ≤ q.bytes := by
    rw [hq.bytes_eq]
    simpa [hslot] using q.channels.share_le_total (fun _ s => s.bytes) id
  have hle : entry.weight ≤ slot.bytes :=
    List.le_sum_of_mem (List.mem_map_of_mem hentry)
  omega

theorem evict_isSome {q : State} (hq : q.Sound) {id : ChannelId} {slot : Slot} {v : Queued}
    {i : ℕ} (hslot : q.channels.get? id = some slot) (hv : slot.frames[i]? = some v) :
    ∃ q', q.evict id i = some q' := by
  have hle := hq.weight_le hslot (List.mem_of_getElem? hv)
  simp [State.evict, hslot, hv, checkedSub, hle]

theorem victim_getElem? {slot : Slot} {v : Queued} {i : ℕ}
    (h : slot.evictionVictim = some (v, i)) : slot.frames[i]? = some v :=
  (find?_zipIdx_drop h).2.1

theorem preview_getElem? {slot : Slot} {v : Queued} {i : ℕ}
    (h : slot.previewVictim = some (v, i)) : slot.frames[i]? = some v := by
  have hmem := List.mem_of_mem_drop (List.mem_of_mem_filter (List.mem_of_getLast? h))
  exact List.mk_mem_zipIdx_iff_getElem?.1 hmem

/-- The slot of an open channel stays open while frames are evicted, and an
    eviction removes one of its frames. -/
theorem EvictStep.slot {id : ChannelId} {q q' : State} (h : EvictStep id q q') :
    ∃ slot slot', q.channels.get? id = some slot ∧ q'.channels.get? id = some slot' ∧
      slot'.frames.length + 1 = slot.frames.length := by
  obtain ⟨slot, pre, old, post, hslot, hsplit, -, -, -, -, rfl⟩ := h
  refine ⟨slot, { slot.skip with frames := pre ++ post }, hslot,
    by simp [State.evicted, State.setSlot], ?_⟩
  simp only [hsplit, List.length_append, List.length_cons]
  omega

theorem EvictionsOn.slot {id : ChannelId} {q q' : State} (h : EvictionsOn id q q')
    {slot : Slot} (hslot : q.channels.get? id = some slot) :
    ∃ slot', q'.channels.get? id = some slot' ∧ slot'.frames.length ≤ slot.frames.length := by
  induction h with
  | refl => exact ⟨slot, hslot, le_rfl⟩
  | tail _ hs ih =>
    obtain ⟨s₁, hs₁, hle⟩ := ih
    obtain ⟨s, s', hget, hget', hlen⟩ := hs.slot
    obtain rfl : s₁ = s := Option.some.inj (hs₁.symm.trans hget)
    exact ⟨s', hget', by omega⟩

theorem coalescePreview_isSome {q : State} (hq : q.Sound) {id : ChannelId} {slot : Slot}
    (hslot : q.channels.get? id = some slot) (event : ServerEvent) :
    ∃ q', q.coalescePreview id event = some q' := by
  unfold State.coalescePreview
  split
  · split
    · simp only [hslot, Option.bind_eq_bind, Option.bind_some]
      split
      · exact ⟨q, rfl⟩
      · next v index hv => exact evict_isSome hq hslot (preview_getElem? hv)
    · exact ⟨q, rfl⟩
  · exact ⟨q, rfl⟩

/-- Each turn of `makeRoom` removes a frame, so the fuel is enough. -/
theorem makeRoom_isSome {id : ChannelId} (capacity : ℕ) (final : Bool) {fuel : ℕ} {q : State}
    (hq : q.Sound) {slot : Slot} (hslot : q.channels.get? id = some slot)
    (hfuel : slot.frames.length < fuel) :
    ∃ r, State.makeRoom id capacity final fuel q = some r := by
  induction fuel generalizing q slot with
  | zero => omega
  | succ fuel ih =>
    simp only [State.makeRoom, hslot, Option.bind_eq_bind, Option.bind_some]
    split
    · exact ⟨_, rfl⟩
    · split
      · split
        · exact ⟨_, rfl⟩
        · exact ⟨_, rfl⟩
      · next v index hv =>
        obtain ⟨q', hq'⟩ := evict_isSome hq hslot (victim_getElem? hv)
        have hstep := evictStep_of_victim hslot hv hq'
        obtain ⟨s, s', hget, hget', hlen⟩ := hstep.slot
        obtain rfl : slot = s := Option.some.inj (hslot.symm.trans hget)
        obtain ⟨r, hr⟩ := ih (hstep.sound hq) hget' (by omega)
        exact ⟨r, by simp [hq', hr]⟩

/-- The channel `oldestVictim` names has a victim. -/
theorem oldestVictim_spec {q : State} {id : ChannelId} (h : q.oldestVictim = some id) :
    ∃ slot v i, q.channels.get? id = some slot ∧ slot.evictionVictim = some (v, i) := by
  obtain ⟨entry, hmin, rfl⟩ := Option.map_eq_some_iff.1 h
  obtain ⟨⟨id, slot⟩, hmem, hmap⟩ := List.mem_filterMap.1 (List.minOn?_mem hmin)
  obtain ⟨⟨v, i⟩, hv, rfl⟩ := Option.map_eq_some_iff.1 hmap
  exact ⟨slot, v, i, (q.channels.mem_entries).1 hmem, hv⟩

theorem EvictStep.queuedFrames {id : ChannelId} {q q' : State} (h : EvictStep id q q') :
    q'.queuedFrames + 1 = q.queuedFrames := by
  obtain ⟨slot, pre, old, post, hslot, hsplit, -, -, -, -, rfl⟩ := h
  have htot := q.channels.total_insert (fun _ s => s.frames.length) id
    { slot.skip with frames := pre ++ post }
  rw [hslot, BTreeMap.share_some, hsplit] at htot
  simp only [State.queuedFrames, State.evicted, State.setSlot, List.length_append,
    List.length_cons] at htot ⊢
  omega

/-- Each turn of `shrinkToBudget` removes a frame, so the fuel is enough. -/
theorem shrinkToBudget_isSome {fuel : ℕ} {q : State} (hq : q.Sound)
    (hfuel : q.queuedFrames < fuel) :
    ∃ r, State.shrinkToBudget fuel q = some r := by
  induction fuel generalizing q with
  | zero => omega
  | succ fuel ih =>
    simp only [State.shrinkToBudget]
    split
    · exact ⟨_, rfl⟩
    · split
      · exact ⟨_, rfl⟩
      · next id hid =>
        obtain ⟨slot, v, i, hslot, hv⟩ := oldestVictim_spec hid
        obtain ⟨q', hq'⟩ := evict_isSome hq hslot (victim_getElem? hv)
        have hstep := evictStep_of_victim hslot hv hq'
        have hcount := hstep.queuedFrames
        obtain ⟨r, hr⟩ := ih (hstep.sound hq) (by omega)
        exact ⟨r, by simp [hslot, hv, hq', hr]⟩

theorem enqueue_isSome (L : Layout) {q : State} (hq : q.Sound) {id : ChannelId} {slot : Slot}
    (hslot : q.channels.get? id = some slot) (capacity : ℕ) (event : ServerEvent)
    (at' : Instant) : ∃ r, q.enqueue L id capacity event at' = some r := by
  simp only [State.enqueue, hslot, Option.bind_eq_bind, Option.bind_some]
  split
  · exact ⟨_, rfl⟩
  · obtain ⟨q₁, hq₁⟩ := coalescePreview_isSome hq hslot event
    have hev₁ := coalescePreview_evictions hq₁
    have hs₁ := hev₁.toEvictions.sound hq
    obtain ⟨slot₁, hslot₁, hlen₁⟩ := hev₁.slot hslot
    obtain ⟨room, hroom⟩ := makeRoom_isSome
      (capacity + if capacity == 1 && slot.protectFront then 1 else 0)
      (isCriticalTelemetry event) hs₁ hslot₁ (Nat.lt_succ_of_le hlen₁)
    obtain ⟨q₂, slot₂, hev₂, hslot₂, hcase⟩ := makeRoom_cases hroom
    have hs₂ := hev₂.toEvictions.sound hs₁
    simp only [hq₁, hroom, Option.bind_some]
    rcases hcase with ⟨rfl, -⟩ | ⟨-, -, -, rfl⟩ | ⟨-, -, rfl⟩
    · obtain ⟨r, hr⟩ := shrinkToBudget_isSome
        (appended_sound hs₂ hslot₂ ⟨event, at', weight L event⟩) (Nat.lt_succ_self _)
      refine ⟨r, ?_⟩
      simpa [State.append, hslot₂, State.appended] using hr
    · exact ⟨_, rfl⟩
    · exact ⟨_, rfl⟩

theorem push_isSome (L : Layout) {q : State} (hq : q.Inv) (event : ServerEvent) (at' : Instant) :
    ∃ r, q.push L event at' = some r := by
  unfold State.push
  split
  · exact ⟨_, rfl⟩
  · split
    · exact ⟨_, rfl⟩
    · next id capacity _ =>
      split_ifs with hlimit
      · exact ⟨_, rfl⟩
      · have hnot : q.atLimit id = false := by simpa [State.atLimit] using hlimit
        have hopen := opened_sound hq.toSound hnot at'
        exact enqueue_isSome L hopen (BTreeMap.get?_insert_self _ _ _) capacity event at'

theorem pop_isSome {q : State} (hq : q.Inv) : ∃ r, q.pop = some r := by
  unfold State.pop
  split
  · exact ⟨_, rfl⟩
  · next id hid =>
    obtain ⟨slot, hslot⟩ := nextChannel_mem hid
    obtain ⟨at', hat⟩ := Option.ne_none_iff_exists'.1 (hq.slots id slot hslot).observed
    simp only [hslot, Option.bind_eq_bind, Option.bind_some, hat]
    split
    · exact ⟨_, rfl⟩
    · split
      · exact ⟨_, rfl⟩
      · next next rest hframes =>
        have hmem : next ∈ slot.frames := by simp [hframes]
        have hle := hq.toSound.weight_le hslot hmem
        simp [checkedSub, hle]

theorem clear_isSome {q : State} (hq : q.Inv) (id : ChannelId) : ∃ q', q.clear id = some q' := by
  unfold State.clear
  split
  · exact ⟨_, rfl⟩
  · next slot hslot =>
    have hle : slot.bytes ≤ q.bytes := by
      rw [hq.bytes_eq]
      simpa [hslot] using q.channels.share_le_total (fun _ s => s.bytes) id
    simp [checkedSub, hle]

/-! ## Section 6: Runs -/

theorem target_capacity_pos {event : ServerEvent} {id : ChannelId} {capacity : ℕ}
    (h : target event = some (id, capacity)) : 0 < capacity := by
  cases event <;> simp [target] at h <;> obtain ⟨-, rfl⟩ := h <;> decide

/-- A push keeps the invariant, whatever the event. -/
theorem push_inv {L : Layout} {q q' : State} {event : ServerEvent} {at' : Instant} {ok : Bool}
    (h : q.push L event at' = some (ok, q')) (hq : q.Inv) : q'.Inv := by
  cases htarget : target event with
  | some p =>
    obtain ⟨id, capacity⟩ := p
    exact (push_cases htarget h).inv (target_capacity_pos htarget) hq
  | none =>
    cases event with
    | streamGap id dropped =>
      simp only [State.push, Option.some.injEq] at h
      have := noteGap_inv hq id dropped at'
      rwa [h] at this
    | control => simp only [State.push, target, Option.some.injEq, Prod.mk.injEq] at h; exact h.2 ▸ hq
    | _ => simp [target] at htarget

/-- Every call from a state that satisfies the invariant succeeds and keeps it. -/
theorem step_inv (L : Layout) {q : State} (hq : q.Inv) (op : Op) :
    ∃ q' r, step L q op = some (q', r) ∧ q'.Inv := by
  cases op with
  | push event at' =>
    obtain ⟨⟨ok, q'⟩, h⟩ := push_isSome L hq event at'
    exact ⟨q', .accepted ok, by simp [step, h], push_inv h hq⟩
  | noteGap id frames at' =>
    exact ⟨_, _, rfl, noteGap_inv hq id frames at'⟩
  | pop =>
    obtain ⟨⟨item, q'⟩, h⟩ := pop_isSome hq
    exact ⟨q', .popped item, by simp [step, h], (pop_cases h).inv hq⟩
  | clear id =>
    obtain ⟨q', h⟩ := clear_isSome hq id
    exact ⟨q', .cleared, by simp [step, h], clear_inv h hq⟩

/-- A push that succeeds restores the byte budget, or does not charge anything. -/
theorem push_bytes_le {L : Layout} {q q' : State} {event : ServerEvent} {at' : Instant}
    (h : q.push L event at' = some (true, q')) (hq : q.bytes ≤ STREAM_BYTE_CAPACITY) :
    q'.bytes ≤ STREAM_BYTE_CAPACITY := by
  cases htarget : target event with
  | some p =>
    obtain ⟨id, capacity⟩ := p
    cases push_cases htarget h with
    | skipped q₁ slot hlimit hcrit hev hslot hall =>
      exact hev.toEvictions.bytes_le.trans hq
    | queued q₁ slot q' ok hlimit hcrit hev hslot hshrink hok => exact hok.1 rfl
  | none =>
    cases event with
    | streamGap id dropped =>
      simp only [State.push, Option.some.injEq] at h
      rcases noteGap_cases q id dropped at' with ⟨-, hg⟩ | ⟨-, -, hg⟩ | ⟨-, -, hg⟩ <;>
        rw [hg] at h <;> cases h <;> exact hq
    | control => simp [State.push, target] at h
    | _ => simp [target] at htarget

theorem pop_bytes_le {q q' : State} {item : Option (ServerEvent × Instant)}
    (h : q.pop = some (item, q')) : q'.bytes ≤ q.bytes := by
  cases pop_cases h with
  | nothing _ => exact le_rfl
  | gap id slot observedAt _ _ _ _ => unfold State.settle; split <;> exact le_rfl
  | frame id slot next rest _ _ _ _ => unfold State.settle; split <;> exact Nat.sub_le _ _
  | idle id slot _ _ _ => unfold State.settle; split <;> exact le_rfl

/-- Did every push of the calls return `true`? -/
def AllPushed (calls : List Call) : Prop :=
  ∀ c ∈ calls, ∀ event at', c.input = .push event at' → c.output = .accepted true

/-- One call keeps the byte budget as long as every push succeeds. -/
theorem step_bytes_le {L : Layout} {q q' : State} {op : Op} {r : Reply}
    (h : step L q op = some (q', r))
    (hpush : ∀ event at', op = .push event at' → r = .accepted true)
    (hq : q.bytes ≤ STREAM_BYTE_CAPACITY) : q'.bytes ≤ STREAM_BYTE_CAPACITY := by
  cases op with
  | push event at' =>
    obtain ⟨⟨ok, q₁⟩, hp, hr⟩ := Option.map_eq_some_iff.1 h
    cases hr
    obtain rfl : ok = true := by simpa using hpush event at' rfl
    exact push_bytes_le hp hq
  | noteGap id frames at' =>
    cases h
    rcases noteGap_cases q id frames at' with ⟨-, hg⟩ | ⟨-, -, hg⟩ | ⟨-, -, hg⟩ <;>
      rw [hg] <;> exact hq
  | pop =>
    obtain ⟨⟨item, q₁⟩, hp, hr⟩ := Option.map_eq_some_iff.1 h
    cases hr
    exact (pop_bytes_le hp).trans hq
  | clear id =>
    obtain ⟨q₁, hc, hr⟩ := Option.map_eq_some_iff.1 h
    cases hr
    rcases clear_cases hc with ⟨-, rfl⟩ | ⟨slot, -, -, rfl⟩
    · exact hq
    · exact (Nat.sub_le _ _).trans hq

/-- A pop of a live queue delivers something unless nothing is pending. -/
theorem pop_eq_none_iff {q q' : State} {item : Option (ServerEvent × Instant)} (hq : q.Inv)
    (h : q.pop = some (item, q')) : item = none ↔ q.NothingPending := by
  have hlive : ∀ id slot, q.channels.get? id = some slot →
      ¬ (slot.frames = [] ∧ slot.skipped = 0) := by
    intro id slot hslot hpend
    have := hq.live id slot (by simp) hslot
    simp [Slot.isIdle, hpend.1, hpend.2] at this
  cases pop_cases h with
  | nothing hkeys =>
    simp only [true_iff]
    intro id slot hslot
    have hmem : id ∈ q.channels.keys := (q.channels.mem_keys).2 ⟨slot, hslot⟩
    simp [hkeys] at hmem
  | gap id slot observedAt hslot _ _ _ =>
    simpa using fun hpend : q.NothingPending => hlive id slot hslot (hpend id slot hslot)
  | frame id slot next rest hslot _ _ _ =>
    simpa using fun hpend : q.NothingPending => hlive id slot hslot (hpend id slot hslot)
  | idle id slot hslot hframes hgap =>
    refine absurd ⟨hframes, ?_⟩ (hlive id slot hslot)
    rcases hgap with hgap | hgap
    · exact hgap
    · exact absurd hframes ((hq.slots id slot hslot).front hgap)

/-- **Structural invariant.** Every sequence of calls on an empty queue runs
    to its end without a crash, and in the state it reaches: the byte counter
    is the sum of the weights of all queued frames; every slot has a frame or
    a loss to report; a protected front exists; the channel limit is kept; the
    byte budget is kept as long as every push returned `true`; and the next
    pop does not crash and returns `none` exactly when nothing is pending. -/
theorem reachable_inv (L : Layout) (ops : List Op) :
    ∃ q calls, (machine L).run initialState ops = some (q, calls) ∧
      q.bytes = q.channels.total (fun _ slot => (slot.frames.map Queued.weight).sum) ∧
      (∀ id slot, q.channels.get? id = some slot →
        (slot.frames ≠ [] ∨ 0 < slot.skipped) ∧
        (slot.protectFront = true → slot.frames ≠ [])) ∧
      q.channels.size ≤ STREAM_CHANNEL_CAPACITY ∧
      (AllPushed calls → q.bytes ≤ STREAM_BYTE_CAPACITY) ∧
      ∃ item q', q.pop = some (item, q') ∧ (item = none ↔ q.NothingPending) := by
  obtain ⟨q, calls, hrun, hinv, hbudget⟩ := (machine L).run_safe
    (P := fun calls q => q.Inv ∧ (AllPushed calls → q.bytes ≤ STREAM_BYTE_CAPACITY))
    (I := fun _ => True) ⟨inv_initialState, fun _ => Nat.zero_le _⟩
    (fun calls q op hP _ => by
      obtain ⟨q', r, hstep, hinv'⟩ := step_inv L hP.1 op
      refine ⟨q', r, hstep, hinv', fun hall => step_bytes_le hstep ?_ (hP.2 ?_)⟩
      · intro event at' hop
        exact hall ⟨q, op, r, q'⟩ (by simp) event at' hop
      · intro c hc
        exact hall c (by simp [hc]))
    ops (by simp)
  refine ⟨q, calls, hrun, hinv.bytes_eq, ?_, hinv.channels_le, hbudget, ?_⟩
  · intro id slot hslot
    refine ⟨?_, (hinv.slots id slot hslot).front⟩
    have hidle := hinv.live id slot (by simp) hslot
    by_contra hno
    push Not at hno
    simp [Slot.isIdle, hno.1, Nat.le_zero.1 hno.2] at hidle
  · obtain ⟨⟨item, q'⟩, hpop⟩ := pop_isSome hinv
    exact ⟨item, q', hpop, pop_eq_none_iff hinv hpop⟩

end StreamQueue
