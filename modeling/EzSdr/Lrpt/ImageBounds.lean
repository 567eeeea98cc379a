import EzSdr.Lrpt.ImageOrder

/-! # Bounds, Duplicates and Previews of the Images

    A packet is passed over, dropped, or entered at a free cell of its
    channel, given by the group, the column and the channel's identifier.
    `push_cases` says so, and everything else follows from it:

    * **`image_bounds`**: whatever arrives, the images have one height of at
      most 16384 rows;
    * **`redelivery`**: a segment with a full time that was entered once is
      passed over ever after;
    * **`previews_sample`**: the previews are samples of the images. -/

namespace Lrpt

/-! ## Section 1: What a packet does -/

/-- A packet as the demultiplexer hands it over. -/
structure ImagePacket where
  apid     : ℕ
  sequence : ℕ
  payload  : List UInt8

/-- The packet holds a segment for this column of an instrument channel. -/
structure ImagePacket.Holds {π : Type} (n : Numerics π) (p : ImagePacket) (column : Fin 14)
    (pixels : List UInt8) : Prop where
  apid     : p.apid ∈ IMAGE_APIDS
  decoded  : n.decodeSegment p.payload = some ⟨14 * column, pixels⟩
  sequence : (p.sequence : ℤ) < 16384

namespace ImageBuilder

variable {π : Type} {n : Numerics π} {b b' : ImageBuilder π} {p q : ImagePacket}

def push (n : Numerics π) (b : ImageBuilder π) (p : ImagePacket) : ImageBuilder π :=
  b.pushPacket n p.apid p.sequence p.payload

/-- The builder after some more packets. -/
def receive (n : Numerics π) (b : ImageBuilder π) (packets : List ImagePacket) : ImageBuilder π :=
  packets.foldl (push n) b

/-- The segment in a column of a group. -/
def cell (b : ImageBuilder π) (apid : ℕ) (group : ℤ) (column : Fin 14) : Option (List UInt8) :=
  ((b.channels.get? apid).bind fun c => c.groups.get? group).bind fun g => g.segments column

/-- The number that the packet's counter is unwrapped to. -/
def absolute (n : Numerics π) (b : ImageBuilder π) (p : ImagePacket) : ℤ :=
  b.clock.locate n p.sequence (b.clock.timestamp p.payload)

/-- The group of a line that begins at `base`, counted in cycles. -/
def candidate (b : ImageBuilder π) (apid : ℕ) (base : ℤ) : ℤ :=
  base / 43 - if base % 43 < b.firstPhaseWith apid (base % 43) then 1 else 0

/-- The channel has the phase of the line, and the images would not be too
    high with it. -/
structure Fits (b : ImageBuilder π) (apid : ℕ) (base : ℤ) : Prop where
  phase : ∀ c, b.channels.get? apid = some c → c.phase = base % 43
  span  : (b.spanWith (b.firstPhaseWith apid (base % 43)) (b.candidate apid base)).2 -
    (b.spanWith (b.firstPhaseWith apid (base % 43)) (b.candidate apid base)).1 + 1 ≤ 2048

/-- The pixels are entered at a free cell, and nothing else of the images. -/
structure Enters (b : ImageBuilder π) (apid : ℕ) (absolute : ℤ) (time : Option ℤ)
    (column : Fin 14) (pixels : List UInt8) (b' : ImageBuilder π) : Prop where
  fits    : b.Fits apid (absolute - (column : ℕ))
  free    : b.cell apid ((absolute - (column : ℕ)) / 43) column = none
  channel : ∃ (c : ChannelImage) (e : ScanGroup), b'.channels = b.channels.insert apid c ∧
    c.phase = (absolute - (column : ℕ)) % 43 ∧
    c.groups = (((b.channels.get? apid).map ChannelImage.groups).getD .empty).insert
      ((absolute - (column : ℕ)) / 43) e ∧
    ∀ other, e.segments other =
      if other = column then some pixels
      else b.cell apid ((absolute - (column : ℕ)) / 43) other
  anchors : b'.clock.timedAnchors = match time with
    | none => b.clock.timedAnchors
    | some t => b.clock.timedAnchors.alter t fun old => some (old.getD absolute)
  dropped : b'.droppedSegments = b.droppedSegments

theorem height_exceeds {span : ℤ × ℤ} :
    ((span.2 - span.1 + 1).toNat * SEGMENT_HEIGHT > MAX_CHANNEL_HEIGHT ∨
      (span.2 - span.1 + 1).toNat * SEGMENT_HEIGHT * IMAGE_WIDTH > MAX_CHANNEL_PIXELS) ↔
    ¬ span.2 - span.1 + 1 ≤ 2048 := by
  have hrows : SEGMENT_HEIGHT = 8 := rfl
  have hmax : MAX_CHANNEL_HEIGHT = 16384 := rfl
  have hwidth : IMAGE_WIDTH = 1568 := rfl
  have hpixels : MAX_CHANNEL_PIXELS = 25690112 := rfl
  rw [hrows, hmax, hwidth, hpixels]
  omega

theorem phase_differs {b : ImageBuilder π} {apid : ℕ} {phase : ℤ} :
    ((b.channels.get? apid).any fun channel => channel.phase != phase) = true ↔
      ¬ ∀ c, b.channels.get? apid = some c → c.phase = phase := by
  cases b.channels.get? apid with
  | none => simp
  | some c => simp

/-- The estimate of the cycle changes no image and no anchor. -/
theorem observe_phase (n : Numerics π) (c : ChannelImage) (clock : SequenceClock π) (base : ℤ)
    (time : Option ℤ) : (c.observe n clock base time).1.phase = c.phase := by
  unfold ChannelImage.observe
  repeat' split
  all_goals rfl

theorem observe_groups (n : Numerics π) (c : ChannelImage) (clock : SequenceClock π) (base : ℤ)
    (time : Option ℤ) : (c.observe n clock base time).1.groups = c.groups := by
  unfold ChannelImage.observe
  repeat' split
  all_goals rfl

theorem observe_anchors (n : Numerics π) (c : ChannelImage) (clock : SequenceClock π) (base : ℤ)
    (time : Option ℤ) (absolute : ℤ) :
    ((c.observe n clock base time).2.accept absolute time).timedAnchors = match time with
      | none => clock.timedAnchors
      | some t => clock.timedAnchors.alter t fun old => some (old.getD absolute) := by
  cases time with
  | none => rfl
  | some t =>
    cases hlatest : c.latestTimedBase with
    | none =>
      unfold ChannelImage.observe
      rw [hlatest]
      rfl
    | some latest =>
      unfold ChannelImage.observe
      rw [hlatest]
      rfl

/-- The cell that `place` looks up. -/
theorem cell_eq (b : ImageBuilder π) (apid : ℕ) (phase group : ℤ) (column : Fin 14) :
    ((((b.channels.get? apid).getD ⟨.empty, phase, none⟩).groups.get? group).getD
      .default).segments column = b.cell apid group column := by
  unfold cell
  cases b.channels.get? apid with
  | none => rfl
  | some c =>
    rw [Option.getD_some, Option.bind_some]
    cases c.groups.get? group with
    | none => rfl
    | some e => rfl

/-- `place` after its checks. -/
def enter (n : Numerics π) (b : ImageBuilder π) (apid : ℕ) (absolute : ℤ) (time : Option ℤ)
    (column : Fin 14) (pixels : List UInt8) : ImageBuilder π :=
  let base := absolute - (column : ℕ)
  let channel := (b.channels.get? apid).getD ⟨.empty, base % 43, none⟩
  let group := (channel.groups.get? (base / 43)).getD .default
  if (group.segments column).isSome then
    let channel := { channel with groups := channel.groups.insert (base / 43) group }
    { b with channels := b.channels.insert apid channel }
  else
    let group : ScanGroup := ⟨Function.update group.segments column (some pixels)⟩
    let channel := { channel with groups := channel.groups.insert (base / 43) group }
    let observed := channel.observe n b.clock base time
    { b with
      channels := b.channels.insert apid observed.1
      clock := observed.2.accept absolute time }

theorem place_eq (n : Numerics π) (b : ImageBuilder π) (apid sequence : ℕ) (time : Option ℤ)
    (column : Fin 14) (pixels : List UInt8) :
    b.place n apid sequence time column pixels =
      let absolute := b.clock.locate n sequence time
      let base := absolute - (column : ℕ)
      let span := b.spanWith (b.firstPhaseWith apid (base % 43)) (b.candidate apid base)
      if (b.channels.get? apid).any fun channel => channel.phase != base % 43 then b.drop
      else if (span.2 - span.1 + 1).toNat * SEGMENT_HEIGHT > MAX_CHANNEL_HEIGHT ∨
        (span.2 - span.1 + 1).toNat * SEGMENT_HEIGHT * IMAGE_WIDTH > MAX_CHANNEL_PIXELS then b.drop
      else b.enter n apid absolute time column pixels := rfl

theorem place_not_fits {apid sequence : ℕ} {time : Option ℤ} {column : Fin 14} {pixels : List UInt8}
    (h : ¬ b.Fits apid (b.clock.locate n sequence time - (column : ℕ))) :
    b.place n apid sequence time column pixels = b.drop := by
  rw [place_eq]
  dsimp only
  split
  · rfl
  · next hphase =>
    rw [if_pos]
    rw [height_exceeds]
    intro hspan
    exact h ⟨not_not.1 (mt phase_differs.2 hphase), hspan⟩

theorem place_fits {apid sequence : ℕ} {time : Option ℤ} {column : Fin 14} {pixels : List UInt8}
    (h : b.Fits apid (b.clock.locate n sequence time - (column : ℕ))) :
    b.place n apid sequence time column pixels =
      b.enter n apid (b.clock.locate n sequence time) time column pixels := by
  rw [place_eq]
  dsimp only
  rw [if_neg (mt phase_differs.1 (not_not.2 h.phase)),
    if_neg (mt height_exceeds.1 (not_not.2 h.span))]

/-- Both entries of a filled cell are there already. -/
theorem enter_filled {apid : ℕ} {absolute : ℤ} {time : Option ℤ} {column : Fin 14}
    {pixels : List UInt8} (h : (b.cell apid ((absolute - (column : ℕ)) / 43) column).isSome) :
    b.enter n apid absolute time column pixels = b := by
  unfold enter
  dsimp only
  rw [cell_eq, if_pos h]
  obtain ⟨old, hcell⟩ := Option.isSome_iff_exists.1 h
  obtain ⟨e, he, hold⟩ := Option.bind_eq_some_iff.1 hcell
  obtain ⟨c, hc, hg⟩ := Option.bind_eq_some_iff.1 he
  rw [hc, Option.getD_some, hg, Option.getD_some, BTreeMap.insert_of_get? hg,
    BTreeMap.insert_of_get? hc]

theorem enter_free {apid : ℕ} {absolute : ℤ} {time : Option ℤ} {column : Fin 14}
    {pixels : List UInt8} (hfits : b.Fits apid (absolute - (column : ℕ)))
    (h : b.cell apid ((absolute - (column : ℕ)) / 43) column = none) :
    b.Enters apid absolute time column pixels (b.enter n apid absolute time column pixels) := by
  have hsegments := cell_eq b apid ((absolute - (column : ℕ)) % 43) ((absolute - (column : ℕ)) / 43)
  unfold enter
  dsimp only
  rw [hsegments, h, if_neg (by simp)]
  obtain ⟨channel, hchannel⟩ : ∃ channel, channel = (b.channels.get? apid).getD
    ⟨.empty, (absolute - (column : ℕ)) % 43, none⟩ := ⟨_, rfl⟩
  obtain ⟨group, hgroup⟩ : ∃ group, group =
    (channel.groups.get? ((absolute - (column : ℕ)) / 43)).getD .default := ⟨_, rfl⟩
  rw [← hchannel, ← hgroup]
  rw [← hchannel, ← hgroup] at hsegments
  refine ⟨hfits, h, ⟨_, ⟨Function.update group.segments column (some pixels)⟩, rfl,
    (observe_phase ..).trans ?_, (observe_groups ..).trans ?_, ?_⟩, observe_anchors .., rfl⟩
  · show channel.phase = _
    rw [hchannel]
    cases hc : b.channels.get? apid with
    | none => rfl
    | some c => exact hfits.phase c hc
  · rw [hchannel]
    cases b.channels.get? apid with
    | none => rfl
    | some c => rfl
  · intro other
    rw [← hsegments]
    exact Function.update_apply ..

/-- The base of the line that the packet's segment belongs to. -/
def base (n : Numerics π) (b : ImageBuilder π) (p : ImagePacket) (column : Fin 14) : ℤ :=
  b.absolute n p - (column : ℕ)

theorem push_of_holds {column : Fin 14} {pixels : List UInt8} (h : p.Holds n column pixels) :
    b.push n p = b.place n p.apid p.sequence (b.clock.timestamp p.payload) column pixels := by
  have hcolumn : 14 * (column : ℕ) / BLOCKS_PER_SEGMENT = column :=
    Nat.mul_div_cancel_left _ (by decide)
  have hlt : 14 * (column : ℕ) / BLOCKS_PER_SEGMENT < SEGMENTS_PER_LINE :=
    hcolumn.trans_lt column.isLt
  have hvalid : ¬ ((p.sequence : ℤ) ≥ SEQUENCE_MODULUS ∨
      14 * (column : ℕ) % BLOCKS_PER_SEGMENT ≠ 0) :=
    not_or.2 ⟨not_le.2 h.sequence, not_not.2 (Nat.mul_mod_right ..)⟩
  unfold push pushPacket
  rw [if_neg (not_not.2 h.apid), h.decoded]
  dsimp only
  rw [dif_pos hlt, if_neg hvalid]
  exact congrArg (b.place n p.apid p.sequence (b.clock.timestamp p.payload) · pixels)
    (Fin.ext hcolumn)

/-- Any other packet is passed over, or dropped. -/
theorem push_of_not_holds (h : ¬ ∃ column pixels, p.Holds n column pixels) :
    (p.apid ∉ IMAGE_APIDS ∧ b.push n p = b) ∨ b.push n p = b.drop := by
  unfold push pushPacket
  by_cases hapid : p.apid ∈ IMAGE_APIDS
  · rw [if_neg (not_not.2 hapid)]
    right
    cases hdecoded : n.decodeSegment p.payload with
    | none => rfl
    | some segment =>
      dsimp only
      split
      · next hcolumn =>
        rw [if_pos]
        by_contra hvalid
        obtain ⟨hsequence, hwhole⟩ := not_or.1 hvalid
        refine h ⟨⟨_, hcolumn⟩, segment.pixels, hapid, ?_, not_le.1 hsequence⟩
        rw [hdecoded]
        have hmcu : 14 * (segment.mcuNumber / 14) = segment.mcuNumber :=
          Nat.mul_div_cancel' (Nat.dvd_of_mod_eq_zero (not_not.1 hwhole))
        exact congrArg some (congrArg (DecodedSegment.mk · segment.pixels) hmcu.symm)
      · rfl
  · rw [if_pos hapid]
    exact .inl ⟨hapid, rfl⟩

/-- **What a packet does**: it is passed over, dropped, or entered at a free
    cell. -/
theorem push_cases (n : Numerics π) (b : ImageBuilder π) (p : ImagePacket) :
    (b.push n p = b ∧ (p.apid ∉ IMAGE_APIDS ∨ ∃ column pixels, p.Holds n column pixels ∧
      (b.cell p.apid (b.base n p column / 43) column).isSome)) ∨
    b.push n p = b.drop ∨
    ∃ column pixels, p.Holds n column pixels ∧ b.Enters p.apid (b.absolute n p)
      (b.clock.timestamp p.payload) column pixels (b.push n p) := by
  by_cases hholds : ∃ column pixels, p.Holds n column pixels
  · obtain ⟨column, pixels, hp⟩ := hholds
    rw [push_of_holds hp]
    by_cases hfits : b.Fits p.apid (b.base n p column)
    · rw [place_fits hfits]
      cases hcell : b.cell p.apid (b.base n p column / 43) column with
      | some old =>
        have hfilled := Option.isSome_iff_exists.2 ⟨old, hcell⟩
        exact .inl ⟨enter_filled hfilled, .inr ⟨column, pixels, hp, hfilled⟩⟩
      | none => exact .inr (.inr ⟨column, pixels, hp, enter_free hfits hcell⟩)
    · exact .inr (.inl (place_not_fits hfits))
  · obtain ⟨hapid, heq⟩ | hdrop := push_of_not_holds (b := b) hholds
    · exact .inl ⟨heq, .inl hapid⟩
    · exact .inr (.inl hdrop)

namespace Enters

variable {apid : ℕ} {absolute : ℤ} {time : Option ℤ} {column : Fin 14} {pixels : List UInt8}

/-- The other channels stay, and so do the other groups of this one. -/
theorem get? (h : b.Enters apid absolute time column pixels b') {other : ℕ} {c : ChannelImage}
    (hc : b'.channels.get? other = some c) :
    (other ≠ apid ∧ b.channels.get? other = some c) ∨
    (other = apid ∧ c.phase = (absolute - (column : ℕ)) % 43 ∧
      (∃ e, c.groups.get? ((absolute - (column : ℕ)) / 43) = some e) ∧
      ∀ g e, g ≠ (absolute - (column : ℕ)) / 43 → c.groups.get? g = some e →
        ∃ old, b.channels.get? apid = some old ∧ old.groups.get? g = some e) := by
  obtain ⟨entered, e, hchannels, hphase, hgroups, -⟩ := h.channel
  rw [hchannels] at hc
  by_cases hother : other = apid
  · rw [hother, BTreeMap.get?_insert_self] at hc
    obtain rfl := Option.some.inj hc
    refine .inr ⟨hother, hphase, ⟨e, by rw [hgroups, BTreeMap.get?_insert_self]⟩, ?_⟩
    intro g e' hg he'
    rw [hgroups, BTreeMap.get?_insert_ne _ hg] at he'
    cases hold : b.channels.get? apid with
    | none =>
      rw [hold] at he'
      cases he'
    | some old =>
      rw [hold] at he'
      exact ⟨old, rfl, he'⟩
  · rw [BTreeMap.get?_insert_ne _ hother] at hc
    exact .inl ⟨hother, hc⟩

/-- The channel's phase is that of the line, before and after. -/
theorem phase (h : b.Enters apid absolute time column pixels b') {c : ChannelImage}
    (hc : b'.channels.get? apid = some c) : c.phase = (absolute - (column : ℕ)) % 43 := by
  obtain ⟨hne, -⟩ | ⟨-, hphase, -⟩ := h.get? hc
  · exact absurd rfl hne
  · exact hphase

theorem cell (h : b.Enters apid absolute time column pixels b') (other : ℕ) (g : ℤ)
    (i : Fin 14) : b'.cell other g i =
      if other = apid ∧ g = (absolute - (column : ℕ)) / 43 ∧ i = column then some pixels
      else b.cell other g i := by
  obtain ⟨entered, e, hchannels, -, hgroups, hsegments⟩ := h.channel
  unfold ImageBuilder.cell
  rw [hchannels]
  by_cases hother : other = apid
  · rw [hother, BTreeMap.get?_insert_self, Option.bind_some, hgroups]
    by_cases hg : g = (absolute - (column : ℕ)) / 43
    · rw [hg, BTreeMap.get?_insert_self, Option.bind_some, hsegments]
      by_cases hi : i = column
      · rw [if_pos hi, if_pos ⟨rfl, rfl, hi⟩]
      · rw [if_neg hi, if_neg fun hall => hi hall.2.2]
        rfl
    · rw [BTreeMap.get?_insert_ne _ hg, if_neg fun hall => hg hall.2.1]
      cases b.channels.get? apid with
      | none => rfl
      | some old => rfl
  · rw [BTreeMap.get?_insert_ne _ hother, if_neg fun hall => hother hall.1]

end Enters

/-! ## Section 2: The extent -/

/-- Every channel has a group, and the groups of all channels, counted in
    cycles, are at most 2048. -/
structure Extent (b : ImageBuilder π) : Prop where
  groups : ∀ apid c, b.channels.get? apid = some c → ∃ g e, c.groups.get? g = some e
  within : ∀ apid first, b.channels.first? = some (apid, first) →
    ∃ low high, high - low + 1 ≤ 2048 ∧ ∀ c ∈ b.values, ∀ g e, c.groups.get? g = some e →
      low ≤ g - c.shift first.phase ∧ g - c.shift first.phase ≤ high

theorem extent_new (n : Numerics π) : (new n).Extent where
  groups := fun apid c hc => by cases hc
  within := fun apid first hfirst => by cases hfirst

theorem Extent.of_channels {b b' : ImageBuilder π} (h : b.Extent) (heq : b'.channels = b.channels) :
    b'.Extent := by
  have hvalues : b'.values = b.values := by
    unfold values
    rw [heq]
  constructor
  · rw [heq]
    exact h.groups
  · rw [heq, hvalues]
    exact h.within

/-- A range of groups with those of one more channel. -/
def widen (firstPhase : ℤ) (range : ℤ × ℤ) (channel : ChannelImage) : ℤ × ℤ :=
  ((match channel.groups.first? with
    | some (group, _) => min range.1 (group - channel.shift firstPhase)
    | none => range.1),
   (match channel.groups.last? with
    | some (group, _) => max range.2 (group - channel.shift firstPhase)
    | none => range.2))

theorem spanWith_eq (b : ImageBuilder π) (firstPhase candidate : ℤ) :
    b.spanWith firstPhase candidate = b.values.foldl (widen firstPhase) (candidate, candidate) :=
  rfl

theorem widen_grows (firstPhase : ℤ) (range : ℤ × ℤ) (c : ChannelImage) :
    (widen firstPhase range c).1 ≤ range.1 ∧ range.2 ≤ (widen firstPhase range c).2 := by
  unfold widen
  constructor
  · dsimp only
    split
    · exact min_le_left _ _
    · exact le_rfl
  · dsimp only
    split
    · exact le_max_left _ _
    · exact le_rfl

theorem widen_covers (firstPhase : ℤ) (range : ℤ × ℤ) {c : ChannelImage} {g : ℤ} {e : ScanGroup}
    (hg : c.groups.get? g = some e) :
    (widen firstPhase range c).1 ≤ g - c.shift firstPhase ∧
      g - c.shift firstPhase ≤ (widen firstPhase range c).2 := by
  obtain ⟨j, w, hj⟩ := BTreeMap.first?_isSome hg
  obtain ⟨k, x, hk⟩ := BTreeMap.last?_isSome hg
  have hjle := (BTreeMap.first?_eq_some hj).2 g e hg
  have hkge := (BTreeMap.last?_eq_some hk).2 g e hg
  unfold widen
  rw [hj, hk]
  constructor
  · exact (min_le_right _ _).trans (Int.sub_le_sub_right hjle _)
  · exact (Int.sub_le_sub_right hkge _).trans (le_max_right _ _)

/-- The span covers the candidate and all groups. -/
theorem spanWith_covers (b : ImageBuilder π) (firstPhase candidate : ℤ) :
    (b.spanWith firstPhase candidate).1 ≤ candidate ∧
      candidate ≤ (b.spanWith firstPhase candidate).2 ∧
      ∀ c ∈ b.values, ∀ g e, c.groups.get? g = some e →
        (b.spanWith firstPhase candidate).1 ≤ g - c.shift firstPhase ∧
        g - c.shift firstPhase ≤ (b.spanWith firstPhase candidate).2 := by
  rw [spanWith_eq]
  -- from any range on, it only grows
  suffices hgrow : ∀ (channels : List ChannelImage) (range : ℤ × ℤ),
      (channels.foldl (widen firstPhase) range).1 ≤ range.1 ∧
        range.2 ≤ (channels.foldl (widen firstPhase) range).2 ∧
        ∀ c ∈ channels, ∀ g e, c.groups.get? g = some e →
          (channels.foldl (widen firstPhase) range).1 ≤ g - c.shift firstPhase ∧
          g - c.shift firstPhase ≤ (channels.foldl (widen firstPhase) range).2 from
    hgrow b.values (candidate, candidate)
  intro channels
  induction channels with
  | nil => exact fun range => ⟨le_rfl, le_rfl, fun c hc => absurd hc List.not_mem_nil⟩
  | cons d channels ih =>
    intro range
    obtain ⟨hfirst, hlast, hrest⟩ := ih (widen firstPhase range d)
    obtain ⟨hwider, hwider'⟩ := widen_grows firstPhase range d
    refine ⟨hfirst.trans hwider, hwider'.trans hlast, ?_⟩
    intro c hc g e hg
    obtain rfl | hmem := List.mem_cons.1 hc
    · obtain ⟨hlow, hhigh⟩ := widen_covers firstPhase range hg
      exact ⟨hfirst.trans hlow, hhigh.trans hlast⟩
    · exact hrest c hmem g e hg

/-- The channel that begins the cycle after a segment has been entered. -/
theorem Enters.first {apid : ℕ} {absolute : ℤ} {time : Option ℤ} {column : Fin 14}
    {pixels : List UInt8} (h : b.Enters apid absolute time column pixels b') {a : ℕ}
    {first : ChannelImage} (hfirst : b'.channels.first? = some (a, first)) :
    first.phase = b.firstPhaseWith apid ((absolute - (column : ℕ)) % 43) := by
  obtain ⟨hget, hleast⟩ := BTreeMap.first?_eq_some hfirst
  obtain ⟨entered, e, hchannels, hphase, -⟩ := h.channel
  have hentered : b'.channels.get? apid = some entered := by
    rw [hchannels, BTreeMap.get?_insert_self]
  have hle : a ≤ apid := hleast apid entered hentered
  unfold firstPhaseWith
  cases hold : b.channels.first? with
  | none =>
    -- it is the only channel
    obtain ⟨-, hmem⟩ | ⟨-, hnew, -⟩ := h.get? hget
    · obtain ⟨j, w, hj⟩ := BTreeMap.first?_isSome hmem
      rw [hold] at hj
      cases hj
    · exact hnew
  | some old =>
    obtain ⟨f, c⟩ := old
    obtain ⟨hf, hfleast⟩ := BTreeMap.first?_eq_some hold
    dsimp only
    split
    · next hlt =>
      have hf' : b'.channels.get? f = some c := by
        rw [hchannels, BTreeMap.get?_insert_ne _ hlt.ne]
        exact hf
      have haf := hleast f c hf'
      obtain ⟨-, hmem⟩ | ⟨rfl, -⟩ := h.get? hget
      · obtain rfl : a = f := le_antisymm haf (hfleast a first hmem)
        rw [hf] at hmem
        rw [Option.some.inj hmem]
      · exact absurd hlt (not_lt.2 haf)
    · next hge =>
      obtain ⟨hne, hmem⟩ | ⟨-, hnew, -⟩ := h.get? hget
      · have hfa := hfleast a first hmem
        exact absurd (le_antisymm hle ((not_lt.1 hge).trans hfa)) hne
      · exact hnew

theorem Extent.enters {apid : ℕ} {absolute : ℤ} {time : Option ℤ} {column : Fin 14}
    {pixels : List UInt8} (hb : b.Extent) (h : b.Enters apid absolute time column pixels b') :
    b'.Extent := by
  constructor
  · intro other c hc
    obtain ⟨-, hmem⟩ | ⟨-, -, ⟨e, he⟩, -⟩ := h.get? hc
    · exact hb.groups other c hmem
    · exact ⟨_, e, he⟩
  · intro a first hfirst
    rw [h.first hfirst]
    obtain ⟨hlow, hhigh, hcovers⟩ := spanWith_covers b
      (b.firstPhaseWith apid ((absolute - (column : ℕ)) % 43))
      (b.candidate apid (absolute - (column : ℕ)))
    refine ⟨_, _, h.fits.span, ?_⟩
    intro c hc g e hg
    obtain ⟨other, hget⟩ := mem_values hc
    obtain ⟨-, hmem⟩ | ⟨-, hphase, -, hrest⟩ := h.get? hget
    · exact hcovers c (mem_values_of_get? hmem) g e hg
    · by_cases hnew : g = (absolute - (column : ℕ)) / 43
      · have hcandidate : g - c.shift (b.firstPhaseWith apid ((absolute - (column : ℕ)) % 43)) =
            b.candidate apid (absolute - (column : ℕ)) := by
          unfold ChannelImage.shift candidate
          rw [hphase, hnew]
        rw [hcandidate]
        exact ⟨hlow, hhigh⟩
      · -- the channel was there, and had this phase
        obtain ⟨old, hold, hgold⟩ := hrest g e hnew hg
        have hsame : old.shift (b.firstPhaseWith apid ((absolute - (column : ℕ)) % 43)) =
            c.shift (b.firstPhaseWith apid ((absolute - (column : ℕ)) % 43)) := by
          unfold ChannelImage.shift
          rw [hphase, h.fits.phase old hold]
        rw [← hsame]
        exact hcovers old (mem_values_of_get? hold) g e hgold

theorem Extent.push (h : b.Extent) (p : ImagePacket) : (b.push n p).Extent := by
  obtain ⟨heq, -⟩ | hdrop | ⟨column, pixels, -, henters⟩ := push_cases n b p
  · rw [heq]
    exact h
  · rw [hdrop]
    exact h.of_channels rfl
  · exact h.enters henters

theorem Extent.receive (h : b.Extent) (packets : List ImagePacket) :
    (b.receive n packets).Extent := by
  induction packets generalizing b with
  | nil => exact h
  | cons p packets ih => exact ih (h.push p)

/-- The range of groups that the images show. -/
theorem Extent.bounds (h : b.Extent) {apid : ℕ} {c : ChannelImage}
    (hc : b.channels.get? apid = some c) :
    ∃ first last firstPhase, b.bounds = some (first, last, firstPhase) ∧
      last - first + 1 ≤ 2048 := by
  obtain ⟨a, first, hfirst⟩ := BTreeMap.first?_isSome hc
  obtain ⟨low, high, hspan, hwithin⟩ := h.within a first hfirst
  obtain ⟨lower, upper, hbounds, ⟨d, hd, g, e, hg, rfl⟩, ⟨d', hd', g', e', hg', rfl⟩, -⟩ :=
    bounds_spec h.groups hfirst
  have hlow := (hwithin d hd g e hg).1
  have hhigh := (hwithin d' hd' g' e' hg').2
  exact ⟨_, _, _, hbounds, by omega⟩

/-- An image is drawn of a channel, over the range of groups. -/
theorem render_eq_some {apid : ℕ} {image : GrayImage} (h : b.render apid = some image) :
    ∃ c, b.channels.get? apid = some c ∧ ∃ first last firstPhase,
      b.bounds = some (first, last, firstPhase) ∧
      image = GrayImage.fromFn IMAGE_WIDTH ((last - first + 1).toNat * SEGMENT_HEIGHT) fun x y =>
        c.pixel (first + (y / SEGMENT_HEIGHT : ℕ) + c.shift firstPhase) x (y % SEGMENT_HEIGHT) := by
  unfold render at h
  split at h
  · next c first last firstPhase hc hbounds =>
    exact ⟨c, hc, first, last, firstPhase, hbounds, (Option.some.inj h).symm⟩
  · cases h

/-- **Whatever arrives, the images stay within their bounds.** They have one
    height, which is at most 16384 rows; every channel has an image and a
    group of segments; and a packet that is not entered changes at most the
    counter of dropped segments. -/
theorem image_bounds (n : Numerics π) (packets : List ImagePacket) :
    let b := (new n).receive n packets
    (∃ height ≤ 16384, ∀ apid image, b.render apid = some image →
      image.width = 1568 ∧ image.height = height ∧ image.rows.length = height) ∧
    (∀ apid c, b.channels.get? apid = some c →
      (∃ g e, c.groups.get? g = some e) ∧ ∃ image, b.render apid = some image) ∧
    ∀ p, (b.push n p = b ∧ (p.apid ∉ IMAGE_APIDS ∨ ∃ column pixels, p.Holds n column pixels ∧
        (b.cell p.apid (b.base n p column / 43) column).isSome)) ∨
      b.push n p = b.drop ∨
      ∃ column pixels, p.Holds n column pixels ∧
        b.cell p.apid (b.base n p column / 43) column = none ∧
        (b.push n p).droppedSegments = b.droppedSegments ∧
        ∀ apid g i, (b.push n p).cell apid g i =
          if apid = p.apid ∧ g = b.base n p column / 43 ∧ i = column then some pixels
          else b.cell apid g i := by
  intro b
  have hextent : b.Extent := (extent_new n).receive packets
  refine ⟨?_, ?_, ?_⟩
  · by_cases hempty : ∃ apid c, b.channels.get? apid = some c
    · obtain ⟨apid₀, c₀, hc₀⟩ := hempty
      obtain ⟨first, last, firstPhase, hbounds, hspan⟩ := hextent.bounds hc₀
      have hrows : SEGMENT_HEIGHT = 8 := rfl
      refine ⟨(last - first + 1).toNat * SEGMENT_HEIGHT, by rw [hrows]; omega, ?_⟩
      intro apid image himage
      obtain ⟨c, -, first', last', firstPhase', hbounds', rfl⟩ := render_eq_some himage
      rw [hbounds] at hbounds'
      cases hbounds'
      refine ⟨rfl, rfl, ?_⟩
      show (List.map _ (List.range _)).length = _
      rw [List.length_map, List.length_range]
    · -- nothing to render
      refine ⟨0, Nat.zero_le _, ?_⟩
      intro apid image himage
      obtain ⟨c, hc, -⟩ := render_eq_some himage
      exact absurd ⟨apid, c, hc⟩ hempty
  · intro apid c hc
    obtain ⟨first, last, firstPhase, hbounds, -⟩ := hextent.bounds hc
    refine ⟨hextent.groups apid c hc, ?_⟩
    unfold render
    rw [hc, hbounds]
    exact ⟨_, rfl⟩
  · intro p
    obtain hsame | hdrop | ⟨column, pixels, hholds, henters⟩ := push_cases n b p
    · exact .inl hsame
    · exact .inr (.inl hdrop)
    · exact .inr (.inr ⟨column, pixels, hholds, henters.free, henters.dropped, henters.cell⟩)

/-! ## Section 3: Duplicates -/

/-- The full time of a packet: a day and a time of day. -/
def dayTime (payload : List UInt8) : Option ℤ :=
  let days := fromBytes (payload.take 2)
  let millis := fromBytes ((payload.drop 2).take 4)
  let micros := fromBytes ((payload.drop 6).take 2)
  if days = 0 ∨ millis ≥ 86400000 ∨ micros ≥ 1000 then none
  else some (days * DAY_US + millis * 1000 + micros)

/-- The packet is entered: it is neither passed over nor dropped. -/
def Accepts (n : Numerics π) (b : ImageBuilder π) (p : ImagePacket) : Prop :=
  b.push n p ≠ b ∧ b.push n p ≠ b.drop

/-- A full time does not depend on what has arrived before. -/
theorem timestamp_of_dayTime {payload : List UInt8} {t : ℤ} (h : dayTime payload = some t)
    (clock : SequenceClock π) : clock.timestamp payload = some t := by
  unfold dayTime at h
  dsimp only at h
  split at h
  · cases h
  · next hvalid =>
    obtain ⟨hdays, hmillis, hmicros⟩ := not_or.1 hvalid |>.imp_right not_or.1
    unfold SequenceClock.timestamp
    dsimp only
    rw [if_neg (by tauto)]
    cases clock.latestTime with
    | none => exact h
    | some latest =>
      dsimp only
      rw [if_neg hdays]
      exact h

/-- Unwrapping gives a number with the counter's fourteen bits. -/
theorem nearestSequence_mod (sequence : ℕ) (reference : ℤ) :
    (nearestSequence sequence reference - sequence) % 16384 = 0 := by
  have hmodulus : SEQUENCE_MODULUS = 16384 := rfl
  unfold nearestSequence
  rw [hmodulus]
  omega

/-- Around such a number it gives the number itself. -/
theorem nearestSequence_self {sequence : ℕ} {reference : ℤ}
    (h : (reference - sequence) % 16384 = 0) : nearestSequence sequence reference = reference := by
  have hmodulus : SEQUENCE_MODULUS = 16384 := rfl
  unfold nearestSequence
  rw [hmodulus]
  omega

theorem locate_mod (n : Numerics π) (clock : SequenceClock π) (sequence : ℕ) (time : Option ℤ) :
    (clock.locate n sequence time - sequence) % 16384 = 0 := by
  unfold SequenceClock.locate
  dsimp only
  cases time with
  | none => exact nearestSequence_mod ..
  | some t =>
    rw [Option.bind_some]
    cases clock.timedAnchors.lastUpTo? t <|> clock.timedAnchors.firstFrom? t with
    | none => exact nearestSequence_mod ..
    | some anchor => exact nearestSequence_mod ..

/-- At the time of an anchor a packet is located by that anchor. -/
theorem locate_anchored {clock : SequenceClock π} {sequence : ℕ} {t anchor : ℤ}
    (hzero : ∀ period, n.elapsedGroups period 0 = 0)
    (h : clock.timedAnchors.get? t = some anchor) :
    clock.locate n sequence (some t) = nearestSequence sequence anchor := by
  unfold SequenceClock.locate
  rw [Option.bind_some, BTreeMap.lastUpTo?_of_get? h]
  show nearestSequence sequence (anchor + n.elapsedGroups clock.groupPeriod (t - t) * _) = _
  rw [Int.sub_self, hzero, Int.zero_mul, Int.add_zero]

/-- The packet's time is anchored so that it is located at its own cell, which
    is filled. -/
structure Kept (p : ImagePacket) (t : ℤ) (column : Fin 14) (anchor : ℤ) (b : ImageBuilder π) :
    Prop where
  anchored : b.clock.timedAnchors.get? t = some anchor
  phase    : ∀ c, b.channels.get? p.apid = some c →
    c.phase = (nearestSequence p.sequence anchor - (column : ℕ)) % 43
  filled   : (b.cell p.apid ((nearestSequence p.sequence anchor - (column : ℕ)) / 43)
    column).isSome

/-- What an entered packet leaves behind. -/
theorem Enters.kept {t : ℤ} {column : Fin 14} {pixels : List UInt8}
    (hzero : ∀ period, n.elapsedGroups period 0 = 0)
    (ht : b.clock.timestamp p.payload = some t)
    (h : b.Enters p.apid (b.absolute n p) (some t) column pixels b') :
    ∃ anchor, Kept p t column anchor b' := by
  have hself : nearestSequence p.sequence
      ((b.clock.timedAnchors.get? t).getD (b.absolute n p)) = b.absolute n p := by
    cases hanchor : b.clock.timedAnchors.get? t with
    | none => exact nearestSequence_self (locate_mod ..)
    | some anchor =>
      unfold absolute
      rw [ht, locate_anchored hzero hanchor]
      rfl
  refine ⟨(b.clock.timedAnchors.get? t).getD (b.absolute n p), ?_, ?_, ?_⟩
  · rw [h.anchors]
    exact BTreeMap.get?_alter_self ..
  · intro c hc
    rw [hself]
    exact h.phase hc
  · rw [hself, h.cell, if_pos ⟨rfl, rfl, rfl⟩]
    rfl

/-- No packet takes it away. -/
theorem Kept.push {t anchor : ℤ} {column : Fin 14} (h : Kept p t column anchor b)
    (q : ImagePacket) : Kept p t column anchor (b.push n q) := by
  obtain ⟨heq, -⟩ | hdrop | ⟨i, pixels, -, henters⟩ := push_cases n b q
  · rw [heq]
    exact h
  · rw [hdrop]
    exact ⟨h.anchored, h.phase, h.filled⟩
  · refine ⟨?_, ?_, ?_⟩
    · rw [henters.anchors]
      -- an anchor stays with the packet that came first
      cases b.clock.timestamp q.payload with
      | none => exact h.anchored
      | some t' =>
        dsimp only
        by_cases hsame : t = t'
        · rw [← hsame, BTreeMap.get?_alter_self, h.anchored]
          rfl
        · rw [BTreeMap.get?_alter_ne _ hsame]
          exact h.anchored
    · intro c hc
      obtain ⟨-, hmem⟩ | ⟨hapid, hphase, -⟩ := henters.get? hc
      · exact h.phase c hmem
      · -- the channel is there with a phase, which the segment has too
        obtain ⟨old, hold⟩ : ∃ old, b.channels.get? p.apid = some old := by
          obtain ⟨filled, hfilled⟩ := Option.isSome_iff_exists.1 h.filled
          obtain ⟨e, he, -⟩ := Option.bind_eq_some_iff.1 hfilled
          obtain ⟨old, hold, -⟩ := Option.bind_eq_some_iff.1 he
          exact ⟨old, hold⟩
        rw [← h.phase old hold, hphase]
        rw [hapid] at hold
        exact (henters.fits.phase old hold).symm
    · rw [henters.cell]
      split
      · rfl
      · exact h.filled

theorem Kept.receive {t anchor : ℤ} {column : Fin 14} (h : Kept p t column anchor b)
    (packets : List ImagePacket) : Kept p t column anchor (b.receive n packets) := by
  induction packets generalizing b with
  | nil => exact h
  | cons q packets ih => exact ih (h.push q)

/-- A segment whose cell is filled still fits. -/
theorem Extent.fits (hb : b.Extent) {apid : ℕ} {base : ℤ} {c : ChannelImage}
    (hc : b.channels.get? apid = some c) (hphase : c.phase = base % 43) {e : ScanGroup}
    (he : c.groups.get? (base / 43) = some e) : b.Fits apid base := by
  obtain ⟨a, first, hfirst⟩ := BTreeMap.first?_isSome hc
  obtain ⟨hget, hleast⟩ := BTreeMap.first?_eq_some hfirst
  obtain ⟨low, high, hspan, hwithin⟩ := hb.within a first hfirst
  have hphases : b.firstPhaseWith apid (base % 43) = first.phase := by
    unfold firstPhaseWith
    rw [hfirst]
    dsimp only
    split
    · rfl
    · next hge =>
      obtain rfl : a = apid := le_antisymm (hleast apid c hc) (not_lt.1 hge)
      rw [hc] at hget
      rw [← hphase, Option.some.inj hget]
  constructor
  · intro d hd
    rw [hc] at hd
    rw [← Option.some.inj hd]
    exact hphase
  · have hcandidate : b.candidate apid base = base / 43 - c.shift first.phase := by
      unfold candidate ChannelImage.shift
      rw [hphases, hphase]
    have hends := @spanWith_spec π b (fun v => low ≤ v ∧ v ≤ high) first.phase
      (b.candidate apid base) (by
        rw [hcandidate]
        exact hwithin c (mem_values_of_get? hc) _ e he) hwithin
    rw [hphases]
    omega

/-- **A segment that was entered with a full time is harmless ever after**:
    delivered again, it leaves the builder as it is, and so its images and its
    counters. -/
theorem redelivery (n : Numerics π) (hzero : ∀ period, n.elapsedGroups period 0 = 0)
    (before later : List ImagePacket) (p : ImagePacket) (hday : (dayTime p.payload).isSome)
    (haccepted : ((new n).receive n before).Accepts n p) :
    let b := (((new n).receive n before).push n p).receive n later
    b.push n p = b := by
  intro b
  obtain ⟨t, ht⟩ := Option.isSome_iff_exists.1 hday
  obtain ⟨hsame, -⟩ | hdrop | ⟨column, pixels, hholds, henters⟩ :=
    push_cases n ((new n).receive n before) p
  · exact absurd hsame haccepted.1
  · exact absurd hdrop haccepted.2
  rw [timestamp_of_dayTime ht] at henters
  obtain ⟨anchor, hkept⟩ := henters.kept hzero (timestamp_of_dayTime ht _)
  have hnow : Kept p t column anchor b := hkept.receive later
  have hextent : b.Extent := (((extent_new n).receive before).push p).receive later
  have habsolute : b.clock.locate n p.sequence (some t) = nearestSequence p.sequence anchor :=
    locate_anchored hzero hnow.anchored
  obtain ⟨filled, hfilled⟩ := Option.isSome_iff_exists.1 hnow.filled
  obtain ⟨e, he, -⟩ := Option.bind_eq_some_iff.1 hfilled
  obtain ⟨c, hc, hg⟩ := Option.bind_eq_some_iff.1 he
  have hfits := hextent.fits hc (hnow.phase c hc) hg
  rw [← habsolute] at hfits
  rw [push_of_holds hholds, timestamp_of_dayTime ht, place_fits hfits]
  apply enter_filled
  rw [habsolute]
  exact hnow.filled

/-- Numerics that decode uniform grey with any time, for whole periods. -/
def timedNumerics : Numerics ℕ where
  decodeSegment payload := greyNumerics.decodeSegment (List.replicate 8 0 ++ payload.drop 8)
  groupPeriod := 1231142
  elapsedGroups period time := (2 * time + period) / (2 * period)
  observedPeriod time cycles := (greyNumerics.observedPeriod time cycles).map Int.toNat

/-- A grey segment of the second day, so many milliseconds after midnight. -/
def timedPacket (apid sequence : ℕ) (millis mcu : UInt8) : ImagePacket :=
  ⟨apid, sequence, [0, 1, 0, 0, 0, millis, 0, 0] ++ (greyPayload mcu).drop 8⟩

/-- A segment comes again after the clock has gone on by other segments. -/
theorem redelivery_timed :
    let b := ((new timedNumerics).push timedNumerics (timedPacket 64 100 5 0)).receive timedNumerics
      [timedPacket 65 114 5 0, ⟨66, 8200, greyPayload 14⟩, timedPacket 64 101 6 14]
    b.push timedNumerics (timedPacket 64 100 5 0) = b := by
  have hzero : ∀ period, timedNumerics.elapsedGroups period 0 = 0 := by
    intro period
    show (2 * 0 + (period : ℤ)) / (2 * period) = 0
    by_cases hpositive : (period : ℤ) = 0
    · rw [hpositive]
      rfl
    · exact Int.ediv_eq_zero_of_lt (by omega) (by omega)
  refine redelivery timedNumerics hzero [] _ _ (by decide) ⟨?_, ?_⟩
  · intro hsame
    exact absurd (congrArg totalSegmentCount hsame) (by decide)
  · intro hdrop
    exact absurd (congrArg droppedSegments hdrop) (by decide)

/-! ## Section 4: Previews -/

theorem getPixel_fromFn {width height x y : ℕ} (f : ℕ → ℕ → UInt8) (hx : x < width)
    (hy : y < height) : (GrayImage.fromFn width height f).getPixel x y = some (f x y) := by
  unfold GrayImage.getPixel GrayImage.fromFn
  dsimp only
  rw [List.getElem?_map, List.getElem?_range hy, Option.map_some, Option.bind_some,
    List.getElem?_map, List.getElem?_range hx, Option.map_some]

theorem mul_lt_of_lt_ceilDiv {side step x : ℕ} (hstep : 0 < step) (hx : x < side ⌈/⌉ step) :
    x * step < side := by
  by_contra hover
  have hle : side ⌈/⌉ step ≤ x := (ceilDiv_le_iff_le_mul hstep).2 (by
    rw [Nat.mul_comm]
    exact not_lt.1 hover)
  exact absurd hx (not_lt.2 hle)

theorem previewStep_pos (fullHeight maxSide : ℕ) : 0 < previewStep fullHeight maxSide := by
  have hcover := le_smul_ceilDiv (b := max IMAGE_WIDTH fullHeight)
    (show 0 < max maxSide 1 from lt_max_of_lt_right Nat.one_pos)
  have hwidth : 0 < max IMAGE_WIDTH fullHeight := lt_max_of_lt_left (by decide)
  exact Nat.pos_of_mul_pos_left (hwidth.trans_le hcover)

/-- A side of the image is divided into at most as many steps as asked for. -/
theorem ceilDiv_previewStep_le {side fullHeight : ℕ} (maxSide : ℕ)
    (hside : side ≤ max IMAGE_WIDTH fullHeight) :
    side ⌈/⌉ previewStep fullHeight maxSide ≤ max 1 maxSide := by
  rw [ceilDiv_le_iff_le_mul (previewStep_pos ..), Nat.mul_comm, max_comm 1]
  exact hside.trans (le_smul_ceilDiv (lt_max_of_lt_right Nat.one_pos))

/-- Every preview samples the image of its channel. -/
theorem mem_renderPreviews {maxSide apid : ℕ} {preview : GrayImage}
    (h : (apid, preview) ∈ b.renderPreviews maxSide) :
    ∃ full, b.render apid = some full ∧
      preview.width = full.width ⌈/⌉ previewStep full.height maxSide ∧
      preview.height = full.height ⌈/⌉ previewStep full.height maxSide ∧
      preview.width ≤ max 1 maxSide ∧ preview.height ≤ max 1 maxSide ∧
      ∀ x < preview.width, ∀ y < preview.height, ∃ value,
        preview.getPixel x y = some value ∧
        full.getPixel (x * previewStep full.height maxSide)
          (y * previewStep full.height maxSide) = some value := by
  unfold renderPreviews at h
  split at h
  · cases h
  · next first last firstPhase hbounds =>
    obtain ⟨⟨apid', c⟩, hmem, heq⟩ := List.mem_map.1 h
    obtain ⟨rfl, rfl⟩ := Prod.mk.inj heq
    have hrender : b.render apid' = some (GrayImage.fromFn IMAGE_WIDTH
        ((last - first + 1).toNat * SEGMENT_HEIGHT) fun x y =>
          c.pixel (first + (y / SEGMENT_HEIGHT : ℕ) + c.shift firstPhase) x
            (y % SEGMENT_HEIGHT)) := by
      unfold render
      rw [b.channels.mem_entries.1 hmem, hbounds]
    refine ⟨_, hrender, rfl, rfl, ceilDiv_previewStep_le _ (le_max_left _ _),
      ceilDiv_previewStep_le _ (le_max_right _ _), ?_⟩
    intro x hx y hy
    refine ⟨_, getPixel_fromFn _ hx hy, ?_⟩
    -- both pixels are read at the same place of the channel
    have hstep := previewStep_pos ((last - first + 1).toNat * SEGMENT_HEIGHT) maxSide
    exact getPixel_fromFn _ (mul_lt_of_lt_ceilDiv hstep hx) (mul_lt_of_lt_ceilDiv hstep hy)

/-- **The previews are samples of the images**: every channel has one, within
    the side that is asked for, and its pixels are those of the image at the
    multiples of the step. -/
theorem previews_sample (n : Numerics π) (packets : List ImagePacket) (maxSide : ℕ) :
    let b := (new n).receive n packets
    (b.renderPreviews maxSide).map Prod.fst = b.channels.keys ∧
    ∀ apid preview, (apid, preview) ∈ b.renderPreviews maxSide →
      ∃ full, b.render apid = some full ∧
        preview.width = full.width ⌈/⌉ previewStep full.height maxSide ∧
        preview.height = full.height ⌈/⌉ previewStep full.height maxSide ∧
        preview.width ≤ max 1 maxSide ∧ preview.height ≤ max 1 maxSide ∧
        ∀ x < preview.width, ∀ y < preview.height, ∃ value,
          preview.getPixel x y = some value ∧
          full.getPixel (x * previewStep full.height maxSide)
            (y * previewStep full.height maxSide) = some value := by
  intro b
  have hextent : b.Extent := (extent_new n).receive packets
  refine ⟨?_, fun apid preview => mem_renderPreviews⟩
  unfold renderPreviews
  cases hbounds : b.bounds with
  | some range => rw [List.map_map]; rfl
  | none =>
    -- without a channel there are no bounds
    cases hkeys : b.channels.keys with
    | nil => rfl
    | cons apid rest =>
      obtain ⟨c, hc⟩ := b.channels.mem_keys.1 (hkeys ▸ List.mem_cons_self)
      obtain ⟨first, last, firstPhase, hsome, -⟩ := hextent.bounds hc
      rw [hbounds] at hsome
      cases hsome

end ImageBuilder

end Lrpt
