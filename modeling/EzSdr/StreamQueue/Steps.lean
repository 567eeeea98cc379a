import EzSdr.StreamQueue.Model

/-! # What One Call Can Do

    Every call on the queue is a short sequence of primitive changes: a slot
    is opened, frames are evicted, one frame is appended or skipped. The
    inversion lemmas `push_cases`, `pop_cases` and `clear_cases` say this once;
    all invariants are derived from them and never unfold the calls. -/

namespace StreamQueue

/-! ## Section 1: Victims -/

/-- A victim found by `find?` over the indexed frames stands at its index. -/
theorem find?_zipIdx_drop {frames : List Queued} {k i : ℕ} {p : Queued × ℕ → Bool} {v : Queued}
    (h : (frames.zipIdx.drop k).find? p = some (v, i)) :
    k ≤ i ∧ frames[i]? = some v ∧ p (v, i) = true ∧
      ∀ j f, k ≤ j → j < i → frames[j]? = some f → p (f, j) = false := by
  obtain ⟨hp, n, hn, hget, hbefore⟩ := List.find?_eq_some_iff_getElem.1 h
  simp only [List.getElem_drop, List.getElem_zipIdx, Prod.mk.injEq, Nat.zero_add] at hget
  obtain ⟨hv, hi⟩ := hget
  have hlen : k + n < frames.length := by
    simp at hn; omega
  refine ⟨by omega, ?_, hp, ?_⟩
  · rw [← hi, ← hv]; exact List.getElem?_eq_getElem hlen
  · intro j f hkj hji hf
    have hb := hbefore (j - k) (by omega)
    have hjl : j < frames.length := by omega
    have hfj : frames[j] = f := by
      rw [List.getElem?_eq_getElem hjl] at hf; exact Option.some.inj hf
    simpa [Nat.add_sub_cancel' hkj, hfj] using hb

/-- Splitting a list at an index that holds a value. -/
theorem split_at {α : Type*} {l : List α} {i : ℕ} {x : α} (h : l[i]? = some x) :
    ∃ pre post, l = pre ++ x :: post ∧ pre.length = i ∧ l.eraseIdx i = pre ++ post := by
  obtain ⟨hi, hx⟩ := List.getElem?_eq_some_iff.1 h
  refine ⟨l.take i, l.drop (i + 1), ?_, by simp; omega, List.eraseIdx_eq_take_drop_succ l i⟩
  rw [← hx, ← List.drop_eq_getElem_cons hi, List.take_append_drop]

theorem isCriticalTelemetry_of_isPreview {event : ServerEvent} (h : isPreview event = true) :
    isCriticalTelemetry event = false := by
  cases event with
  | telemetry frame =>
    simp only [isPreview, Bool.and_eq_true, Bool.not_eq_true', Bool.or_eq_true, bne_iff_ne] at h
    obtain ⟨⟨hf, hc⟩, hne⟩ := h
    simp only [isCriticalTelemetry, hf, hc, Bool.false_or, Bool.and_eq_false_iff, beq_eq_false_iff_ne]
    rcases hne with (hw | hh) | hp
    · exact .inl (.inl hw)
    · exact .inl (.inr hh)
    · exact .inr hp
  | _ => simp [isPreview] at h

/-! ## Section 2: One eviction -/

/-- The state after the frame between `pre` and `post` of channel `id` is dropped. -/
def State.evicted (q : State) (id : ChannelId) (slot : Slot) (pre post : List Queued)
    (old : Queued) : State :=
  { q.setSlot id { slot.skip with frames := pre ++ post } with
    bytes   := q.bytes - old.weight
    skipped := saturatingAdd q.skipped 1 }

/-- One frame of channel `id` is dropped: not a critical one, not the
    protected front, and the first such frame unless it is a preview. -/
def EvictStep (id : ChannelId) (q q' : State) : Prop :=
  ∃ slot pre old post,
    q.channels.get? id = some slot ∧
    slot.frames = pre ++ old :: post ∧
    slot.protectedCount ≤ pre.length ∧
    isCriticalTelemetry old.event = false ∧
    (isPreview old.event = true ∨
      ∀ f ∈ pre.drop slot.protectedCount, isCriticalTelemetry f.event = true) ∧
    old.weight ≤ q.bytes ∧
    q' = q.evicted id slot pre post old

/-- Any number of evictions, on any channels. -/
def Evictions : State → State → Prop :=
  Relation.ReflTransGen (fun q q' => ∃ id, EvictStep id q q')

/-- Any number of evictions, all on channel `id`. -/
def EvictionsOn (id : ChannelId) : State → State → Prop :=
  Relation.ReflTransGen (EvictStep id)

theorem EvictionsOn.toEvictions {id : ChannelId} {q q' : State} (h : EvictionsOn id q q') :
    Evictions q q' := by
  induction h with
  | refl => exact .refl
  | tail _ hs ih => exact ih.tail ⟨id, hs⟩

theorem evict_eq_some {q q' : State} {id : ChannelId} {index : ℕ}
    (h : q.evict id index = some q') :
    ∃ slot pre old post, q.channels.get? id = some slot ∧ slot.frames = pre ++ old :: post ∧
      pre.length = index ∧ old.weight ≤ q.bytes ∧ q' = q.evicted id slot pre post old := by
  simp only [State.evict, checkedSub, Option.bind_eq_bind, Option.bind_eq_some_iff] at h
  obtain ⟨slot, hslot, old, hold, bytes, hbytes, hq'⟩ := h
  obtain ⟨pre, post, hsplit, hlen, herase⟩ := split_at hold
  split at hbytes
  · next hle =>
    cases hbytes
    refine ⟨slot, pre, old, post, hslot, hsplit, hlen, hle, ?_⟩
    rw [← Option.some.inj hq', State.evicted, herase]
  · cases hbytes

/-- Evicting the victim `evictionVictim` found is an `EvictStep`. -/
theorem evictStep_of_victim {q q' : State} {id : ChannelId} {slot : Slot} {v : Queued} {i : ℕ}
    (hslot : q.channels.get? id = some slot) (hv : slot.evictionVictim = some (v, i))
    (h : q.evict id i = some q') : EvictStep id q q' := by
  obtain ⟨hk, hget, hcrit, hbefore⟩ := find?_zipIdx_drop hv
  obtain ⟨slot', pre, old, post, hslot', hsplit, hlen, hw, hq'⟩ := evict_eq_some h
  obtain rfl : slot = slot' := Option.some.inj (hslot.symm.trans hslot')
  have hold : v = old := by
    rw [hsplit, ← hlen] at hget
    simpa using hget.symm
  subst hold
  refine ⟨slot, pre, v, post, hslot, hsplit, by omega, by simpa using hcrit, .inr ?_, hw, hq'⟩
  intro f hf
  obtain ⟨n, hn, rfl⟩ := List.mem_iff_getElem.1 hf
  rw [List.getElem_drop]
  have hlt : slot.protectedCount + n < pre.length := by
    simp at hn; omega
  have := hbefore (slot.protectedCount + n) pre[slot.protectedCount + n] (by omega) (by omega)
    (by rw [hsplit, List.getElem?_append_left hlt, List.getElem?_eq_getElem hlt])
  simpa using this

/-- Evicting the preview `previewVictim` found is an `EvictStep`. -/
theorem evictStep_of_preview {q q' : State} {id : ChannelId} {slot : Slot} {v : Queued} {i : ℕ}
    (hslot : q.channels.get? id = some slot) (hv : slot.previewVictim = some (v, i))
    (h : q.evict id i = some q') : EvictStep id q q' := by
  have hmem := List.mem_of_getLast? hv
  obtain ⟨hdrop, hprev⟩ := List.mem_filter.1 hmem
  obtain ⟨n, hn, hget⟩ := List.mem_iff_getElem.1 hdrop
  simp only [List.getElem_drop, List.getElem_zipIdx, Prod.mk.injEq, Nat.zero_add] at hget
  obtain ⟨hvn, hi⟩ := hget
  obtain ⟨slot', pre, old, post, hslot', hsplit, hlen, hw, hq'⟩ := evict_eq_some h
  obtain rfl : slot = slot' := Option.some.inj (hslot.symm.trans hslot')
  have hold : v = old := by
    have hget : slot.frames[i]? = some v := by
      rw [← hvn, ← hi]
      exact List.getElem?_eq_getElem _
    rw [hsplit, ← hlen] at hget
    simpa using hget.symm
  subst hold
  exact ⟨slot, pre, v, post, hslot, hsplit, by omega,
    isCriticalTelemetry_of_isPreview (by simpa using hprev), .inl (by simpa using hprev), hw, hq'⟩

/-! ## Section 3: Loops -/

theorem coalescePreview_evictions {q q' : State} {id : ChannelId} {event : ServerEvent}
    (h : q.coalescePreview id event = some q') : EvictionsOn id q q' := by
  unfold State.coalescePreview at h
  split at h
  · split at h
    · simp only [Option.bind_eq_bind, Option.bind_eq_some_iff] at h
      obtain ⟨slot, hslot, h⟩ := h
      split at h
      · cases h; exact .refl
      · next v index hv => exact .single (evictStep_of_preview hslot hv h)
    · cases h; exact .refl
  · cases h; exact .refl

/-- A slot without a victim holds critical frames only, its protected front apart. -/
theorem critical_of_no_victim {slot : Slot} (h : slot.evictionVictim = none) :
    ∀ f ∈ slot.frames.drop slot.protectedCount, isCriticalTelemetry f.event = true := by
  intro f hf
  obtain ⟨n, hn, rfl⟩ := List.mem_iff_getElem.1 hf
  have hall := List.find?_eq_none.1 h
  have hlt : slot.protectedCount + n < slot.frames.length := by
    rw [List.length_drop] at hn
    omega
  have hmem : (slot.frames[slot.protectedCount + n], slot.protectedCount + n) ∈
      slot.frames.zipIdx.drop slot.protectedCount :=
    List.mem_iff_getElem.2 ⟨n, by simpa using hn, by simp⟩
  simpa using hall _ hmem

/-- The state after a frame is refused for want of a victim. -/
def State.skippedOn (q : State) (id : ChannelId) (slot : Slot) : State :=
  { q.setSlot id slot.skip with skipped := saturatingAdd q.skipped 1 }

/-- `makeRoom` evicts, and then finds room or settles the push. -/
theorem makeRoom_cases {id : ChannelId} {capacity : ℕ} {final : Bool} {fuel : ℕ} {q : State}
    {r : Room} (h : State.makeRoom id capacity final fuel q = some r) :
    ∃ q₁ slot, EvictionsOn id q q₁ ∧ q₁.channels.get? id = some slot ∧
      ((r = .ready q₁ ∧ slot.frames.length < capacity) ∨
       (capacity ≤ slot.frames.length ∧ final = false ∧
          (∀ f ∈ slot.frames.drop slot.protectedCount, isCriticalTelemetry f.event = true) ∧
          r = .settled true (q₁.skippedOn id slot)) ∨
       (capacity ≤ slot.frames.length ∧ final = true ∧ r = .settled false q₁)) := by
  induction fuel generalizing q with
  | zero => cases h
  | succ fuel ih =>
    simp only [State.makeRoom, Option.bind_eq_bind, Option.bind_eq_some_iff] at h
    obtain ⟨slot, hslot, h⟩ := h
    split at h
    · next hroom => exact ⟨q, slot, .refl, hslot, .inl ⟨(Option.some.inj h).symm, hroom⟩⟩
    · next hfull =>
      split at h
      · next hnone =>
        split at h
        · next hfinal =>
          exact ⟨q, slot, .refl, hslot, .inr (.inl ⟨by omega, by simpa using hfinal,
            critical_of_no_victim hnone, (Option.some.inj h).symm⟩)⟩
        · next hfinal =>
          exact ⟨q, slot, .refl, hslot, .inr (.inr ⟨by omega, by simpa using hfinal,
            (Option.some.inj h).symm⟩)⟩
      · next v index hv =>
        obtain ⟨q', hq', h⟩ := Option.bind_eq_some_iff.1 h
        obtain ⟨q₁, slot₁, hev, hrest⟩ := ih h
        exact ⟨q₁, slot₁, .head (evictStep_of_victim hslot hv hq') hev, hrest⟩

/-- `shrinkToBudget` only evicts; it answers whether the budget is met. -/
theorem shrinkToBudget_cases {fuel : ℕ} {q q' : State} {ok : Bool}
    (h : State.shrinkToBudget fuel q = some (ok, q')) :
    Evictions q q' ∧ (ok = true ↔ q'.bytes ≤ STREAM_BYTE_CAPACITY) := by
  induction fuel generalizing q with
  | zero => cases h
  | succ fuel ih =>
    simp only [State.shrinkToBudget] at h
    split at h
    · next hle => cases h; exact ⟨.refl, by simp [hle]⟩
    · next hgt =>
      split at h
      · cases h; exact ⟨.refl, by simp [hgt]⟩
      · next id hid =>
        simp only [Option.bind_eq_bind, Option.bind_eq_some_iff] at h
        obtain ⟨slot, hslot, ⟨v, index⟩, hv, q₁, hq₁, h⟩ := h
        obtain ⟨hev, hok⟩ := ih h
        exact ⟨.head ⟨id, evictStep_of_victim hslot hv hq₁⟩ hev, hok⟩

/-! ## Section 4: Calls -/

/-- The queue with the slot of `id` opened for a push. -/
def State.opened (q : State) (id : ChannelId) (observedAt : Instant) : State :=
  q.setSlot id { (q.channels.get? id).getD default with observedAt := some observedAt }

/-- Is a push on channel `id` refused because of the channel limit? -/
def State.atLimit (q : State) (id : ChannelId) : Bool :=
  !q.channels.contains id && q.channels.size ≥ STREAM_CHANNEL_CAPACITY

/-- The state after `entry` is queued behind `slot`. -/
def State.appended (q : State) (id : ChannelId) (slot : Slot) (entry : Queued) : State :=
  { q.setSlot id { slot with frames := slot.frames ++ [entry] } with
    bytes := q.bytes + entry.weight }

/-- What a push of a stream frame with target `(id, capacity)` does. -/
inductive PushCase (L : Layout) (q : State) (id : ChannelId) (capacity : ℕ)
    (event : ServerEvent) (observedAt : Instant) : Bool → State → Prop where
  /-- The channel limit is reached. -/
  | refused (hlimit : q.atLimit id = true) :
      PushCase L q id capacity event observedAt false
        { q with skipped := saturatingAdd q.skipped 1 }
  /-- A critical frame meets a full channel. -/
  | full (slot : Slot) (hlimit : q.atLimit id = false)
      (hcrit : isCriticalTelemetry event = true)
      (hslot : (q.opened id observedAt).channels.get? id = some slot)
      (hlen : capacity ≤ slot.frames.length) :
      PushCase L q id capacity event observedAt false (q.opened id observedAt)
  /-- No victim is left on the channel: the new frame is the skipped one. -/
  | skipped (q₁ : State) (slot : Slot) (hlimit : q.atLimit id = false)
      (hcrit : isCriticalTelemetry event = false)
      (hev : EvictionsOn id (q.opened id observedAt) q₁)
      (hslot : q₁.channels.get? id = some slot)
      (hall : ∀ f ∈ slot.frames.drop slot.protectedCount, isCriticalTelemetry f.event = true) :
      PushCase L q id capacity event observedAt true (q₁.skippedOn id slot)
  /-- The frame is queued and the byte budget restored as far as possible. -/
  | queued (q₁ : State) (slot : Slot) (q' : State) (ok : Bool) (hlimit : q.atLimit id = false)
      (hcrit : ∀ slot', (q.opened id observedAt).channels.get? id = some slot' →
        isCriticalTelemetry event = true → slot'.frames.length < capacity)
      (hev : EvictionsOn id (q.opened id observedAt) q₁)
      (hslot : q₁.channels.get? id = some slot)
      (hshrink : Evictions (q₁.appended id slot ⟨event, observedAt, weight L event⟩) q')
      (hok : ok = true ↔ q'.bytes ≤ STREAM_BYTE_CAPACITY) :
      PushCase L q id capacity event observedAt ok q'

theorem EvictionsOn.length_le {id : ChannelId} {q q' : State} {slot slot' : Slot}
    (h : EvictionsOn id q q') (hs : q.channels.get? id = some slot)
    (hs' : q'.channels.get? id = some slot') : slot'.frames.length ≤ slot.frames.length := by
  induction h generalizing slot' with
  | refl => rw [hs] at hs'; cases hs'; exact le_rfl
  | tail _ hstep ih =>
    obtain ⟨s, pre, old, post, hget, hsplit, -, -, -, -, rfl⟩ := hstep
    have hle := ih hget
    simp only [State.evicted, State.setSlot, BTreeMap.get?_insert_self, Option.some.injEq] at hs'
    subst hs'
    simp only [hsplit, List.length_append, List.length_cons] at hle ⊢
    omega

theorem enqueue_cases {L : Layout} {q q' : State} {id : ChannelId} {capacity : ℕ}
    {event : ServerEvent} {observedAt : Instant} {ok : Bool} (hlimit : q.atLimit id = false)
    (h : (q.opened id observedAt).enqueue L id capacity event observedAt = some (ok, q')) :
    PushCase L q id capacity event observedAt ok q' := by
  simp only [State.enqueue, Option.bind_eq_bind, Option.bind_eq_some_iff] at h
  obtain ⟨slot₀, hslot₀, h⟩ := h
  split at h
  · next hfull =>
    simp only [Bool.and_eq_true, decide_eq_true_eq] at hfull
    cases h
    exact .full slot₀ hlimit hfull.1 hslot₀ hfull.2
  · next hfull =>
    have hcrit : isCriticalTelemetry event = true → slot₀.frames.length < capacity := by
      intro hc
      simpa [hc] using hfull
    obtain ⟨q₁, hq₁, h⟩ := Option.bind_eq_some_iff.1 h
    obtain ⟨room, hroom, h⟩ := Option.bind_eq_some_iff.1 h
    have hev₀ := coalescePreview_evictions hq₁
    obtain ⟨q₂, slot₂, hev₁, hslot₂, hcase⟩ := makeRoom_cases hroom
    have hev : EvictionsOn id (q.opened id observedAt) q₂ := hev₀.trans hev₁
    rcases hcase with ⟨rfl, -⟩ | ⟨-, hf, hall, rfl⟩ | ⟨hlen, hf, rfl⟩
    · simp only [State.append, Option.bind_eq_bind, Option.bind_eq_some_iff] at h
      obtain ⟨q₃, ⟨slot, hslot, hq₃⟩, h⟩ := h
      obtain rfl : slot₂ = slot := Option.some.inj (hslot₂.symm.trans hslot)
      obtain ⟨hshrink, hok⟩ := shrinkToBudget_cases h
      rw [← Option.some.inj hq₃] at hshrink
      refine .queued q₂ slot₂ q' ok hlimit ?_ hev hslot₂ hshrink hok
      intro slot' hslot' hc
      obtain rfl : slot₀ = slot' := Option.some.inj (hslot₀.symm.trans hslot')
      exact hcrit hc
    · cases h
      exact .skipped q₂ slot₂ hlimit hf hev hslot₂ hall
    · -- A critical frame found room before the loop, so the loop cannot fail for it.
      have := hev.length_le hslot₀ hslot₂
      have := hcrit hf
      omega

theorem push_cases {L : Layout} {q q' : State} {id : ChannelId} {capacity : ℕ}
    {event : ServerEvent} {observedAt : Instant} {ok : Bool}
    (htarget : target event = some (id, capacity))
    (h : q.push L event observedAt = some (ok, q')) :
    PushCase L q id capacity event observedAt ok q' := by
  have hpush : q.push L event observedAt =
      if q.atLimit id then some (false, { q with skipped := saturatingAdd q.skipped 1 })
      else (q.opened id observedAt).enqueue L id capacity event observedAt := by
    cases event <;> simp [target] at htarget <;>
      simp [State.push, target, htarget, State.atLimit, State.opened]
  rw [hpush] at h
  split at h
  · next hlimit => cases h; exact .refused hlimit
  · next hlimit => exact enqueue_cases (by simpa using hlimit) h

/-- What a pop does. -/
inductive PopCase (q : State) : Option (ServerEvent × Instant) → State → Prop where
  /-- No channel has anything pending. -/
  | nothing (hkeys : q.channels.keys = []) : PopCase q none q
  /-- The losses of a channel are reported ahead of its retained frames. -/
  | gap (id : ChannelId) (slot : Slot) (observedAt : Instant)
      (hslot : q.channels.get? id = some slot)
      (hskipped : 0 < slot.skipped) (hfront : slot.protectFront = false)
      (hobserved : slot.observedAt = some observedAt) :
      PopCase q (some (.streamGap id slot.skipped, observedAt))
        ({ q with lastChannel := some id }.settle id
          { slot with skipped := 0, protectFront := !slot.frames.isEmpty })
  /-- The front frame of a channel is delivered. -/
  | frame (id : ChannelId) (slot : Slot) (next : Queued) (rest : List Queued)
      (hslot : q.channels.get? id = some slot)
      (hframes : slot.frames = next :: rest)
      (hgap : slot.skipped = 0 ∨ slot.protectFront = true)
      (hweight : next.weight ≤ q.bytes) :
      PopCase q (some (next.event, next.observedAt))
        ({ q with lastChannel := some id, bytes := q.bytes - next.weight }.settle id
          { slot with frames := rest, protectFront := false })
  /-- A slot without frames and without a gap to report is removed. -/
  | idle (id : ChannelId) (slot : Slot) (hslot : q.channels.get? id = some slot)
      (hframes : slot.frames = []) (hgap : slot.skipped = 0 ∨ slot.protectFront = true) :
      PopCase q none ({ q with lastChannel := some id }.settle id slot)

theorem nextChannel_eq_none {q : State} (h : q.nextChannel = none) : q.channels.keys = [] := by
  have := (Option.or_eq_none_iff.1 h).2
  simpa using this

theorem nextChannel_mem {q : State} {id : ChannelId} (h : q.nextChannel = some id) :
    ∃ slot, q.channels.get? id = some slot := by
  apply (q.channels.mem_keys).1
  rcases Option.or_eq_some_iff.1 h with h | ⟨-, h⟩
  · exact List.mem_of_find?_eq_some h
  · exact List.mem_of_head? h

theorem pop_cases {q q' : State} {item : Option (ServerEvent × Instant)}
    (h : q.pop = some (item, q')) : PopCase q item q' := by
  simp only [State.pop] at h
  split at h
  · next hnone => cases h; exact .nothing (nextChannel_eq_none hnone)
  · next id hid =>
    simp only [Option.bind_eq_bind, Option.bind_eq_some_iff] at h
    obtain ⟨slot, hslot, h⟩ := h
    split at h
    · next hgap =>
      simp only [gt_iff_lt, Bool.and_eq_true, decide_eq_true_eq, Bool.not_eq_true'] at hgap
      obtain ⟨observedAt, hat, h⟩ := Option.bind_eq_some_iff.1 h
      cases h
      exact .gap id slot observedAt hslot hgap.1 hgap.2 hat
    · next hgap =>
      have hgap' : slot.skipped = 0 ∨ slot.protectFront = true := by
        by_cases hs : slot.skipped = 0
        · exact .inl hs
        · right; simpa [Nat.pos_of_ne_zero hs] using hgap
      split at h
      · next hframes => cases h; exact .idle id slot hslot hframes hgap'
      · next next rest hframes =>
        simp only [checkedSub, Option.bind_eq_some_iff] at h
        obtain ⟨bytes, hbytes, h⟩ := h
        split at hbytes
        · next hle =>
          cases hbytes; cases h
          exact .frame id slot next rest hslot hframes hgap' hle
        · cases hbytes

/-- A clear forgets the slot and uncharges its bytes. -/
theorem clear_cases {q q' : State} {id : ChannelId} (h : q.clear id = some q') :
    (q.channels.get? id = none ∧ q' = q) ∨
    ∃ slot, q.channels.get? id = some slot ∧ slot.bytes ≤ q.bytes ∧
      q' = { q with channels := q.channels.erase id, bytes := q.bytes - slot.bytes } := by
  simp only [State.clear] at h
  split at h
  · next hnone => cases h; exact .inl ⟨hnone, rfl⟩
  · next slot hslot =>
    simp only [checkedSub, Option.bind_eq_bind, Option.bind_eq_some_iff] at h
    obtain ⟨bytes, hbytes, h⟩ := h
    split at hbytes
    · next hle => cases hbytes; cases h; exact .inr ⟨slot, hslot, hle, rfl⟩
    · cases hbytes

/-- What `noteGap` does: nothing, a refusal, or one count. -/
theorem noteGap_cases (q : State) (id : ChannelId) (frames : ℕ) (observedAt : Instant) :
    (frames = 0 ∧ q.noteGap id frames observedAt = (true, q)) ∨
    (0 < frames ∧ q.atLimit id = true ∧ q.noteGap id frames observedAt = (false, q)) ∨
    (0 < frames ∧ q.atLimit id = false ∧
      q.noteGap id frames observedAt =
        (true, { q.setSlot id { (q.channels.get? id).getD default with
            skipped := saturatingAdd ((q.channels.get? id).getD default).skipped frames
            observedAt := some observedAt } with
          skipped := saturatingAdd q.skipped frames })) := by
  by_cases hf : frames = 0
  · exact .inl ⟨hf, by simp [State.noteGap, hf]⟩
  · right
    by_cases hl : q.atLimit id = true
    · refine .inl ⟨by omega, hl, ?_⟩
      unfold State.atLimit at hl
      simp only [State.noteGap, if_neg hf, hl, if_true]
    · have hl' : q.atLimit id = false := by simpa using hl
      refine .inr ⟨by omega, hl', ?_⟩
      unfold State.atLimit at hl'
      simp [State.noteGap, if_neg hf, hl']

end StreamQueue
