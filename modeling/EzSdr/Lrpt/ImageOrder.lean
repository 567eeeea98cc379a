import EzSdr.Lrpt.ImageBuilder

/-! # Arrival Order of Image Segments

    Segments that carry no time are placed by their packet counters alone. As
    long as the true counters span less than half of the 14-bit range, the
    order in which the segments arrive does not matter: the images are those
    of `expectedImage`, which reads row and column off the true counters.

    The builder's numbers differ from the true ones by a multiple of the
    counter's modulus that the first arrival fixes. `Tracks` states what the
    builder holds in terms of that offset; the images do not depend on it.
-/

namespace Lrpt

/-! ## Segments and their place -/

/-- A segment as it was sent, with its true packet counter. -/
structure Segment where
  apid : Nat
  counter : Int
  column : Fin 14
  pixels : List UInt8
  payload : List UInt8

namespace Segment

/-- The counter of the first packet of the segment's line. -/
def base (s : Segment) : Int := s.counter - s.column

/-- The 14 bits of the counter that are transmitted. -/
def sequence (s : Segment) : Nat := (s.counter % 16384).toNat

/-- The packet of the segment is for an image channel, decodes to it and
    carries no valid time. -/
structure Valid {π : Type} (n : Numerics π) (s : Segment) : Prop where
  apid : s.apid ∈ IMAGE_APIDS
  decoded : n.decodeSegment s.payload = some ⟨14 * s.column, s.pixels⟩
  untimed : ∀ clock : SequenceClock π, clock.timestamp s.payload = none

end Segment

/-- Distinct valid segments of a pass: those of one channel have the same
    phase in the packet cycle, and all counters lie within 8192. -/
structure Pass {π : Type} (n : Numerics π) (S : List Segment) : Prop where
  valid : ∀ s ∈ S, s.Valid n
  distinct : S.Pairwise fun s t => ¬ (s.apid = t.apid ∧ s.counter = t.counter)
  phase : ∀ s ∈ S, ∀ t ∈ S, s.apid = t.apid → s.base % 43 = t.base % 43
  span : ∀ s ∈ S, ∀ t ∈ S, s.counter - t.counter < 8192

/-- The phase at which a cycle begins: that of the lowest channel. -/
def cyclePhase (S : List Segment) : Int :=
  match S.find? fun s => (S.map Segment.apid).min? = some s.apid with
  | none => 0
  | some s => s.base % 43

/-- The packet cycle that the segment's line belongs to. -/
def cycleOf (S : List Segment) (s : Segment) : Int :=
  (s.base - cyclePhase S) / 43

/-- The first and last cycle with a segment. -/
def firstCycle (S : List Segment) : Int := ((S.map (cycleOf S)).min?).getD 0
def lastCycle (S : List Segment) : Int := ((S.map (cycleOf S)).max?).getD 0

/-- The segment whose place is at this pixel, by its counter. -/
def segmentAt (S : List Segment) (apid x y : Nat) : Option Segment :=
  S.find? fun s => decide (s.apid = apid ∧ cycleOf S s - firstCycle S = (y / 8 : Nat) ∧
    (s.column : Nat) = x / 112)

/-- The image of a channel: every segment at the row of its cycle and at its
    column, and black elsewhere. -/
def expectedImage (S : List Segment) (apid : Nat) : Option GrayImage :=
  if S.any fun s => decide (s.apid = apid) then
    some (GrayImage.fromFn 1568 ((lastCycle S - firstCycle S + 1).toNat * 8) fun x y =>
      match segmentAt S apid x y with
      | none => 0
      | some s => s.pixels.getD (y % 8 * 112 + x % 112) 0)
  else none

/-- The builder after the segments have arrived in this order. -/
def assemble {π : Type} (n : Numerics π) (arrivals : List Segment) : ImageBuilder π :=
  arrivals.foldl (fun b s => b.pushPacket n s.apid s.sequence s.payload) (ImageBuilder.new n)

/-! ## What the builder holds -/

/-- A channel holds the segments of `done` with its APID, at their unwrapped
    groups. -/
structure ChannelImage.Holds (o : Int) (done : List Segment) (apid : Nat) (c : ChannelImage) :
    Prop where
  present : ∃ s ∈ done, s.apid = apid
  phase : ∀ s ∈ done, s.apid = apid → c.phase = (s.base + o) % 43
  group : ∀ g, (∃ e, c.groups.get? g = some e) →
    ∃ s ∈ done, s.apid = apid ∧ (s.base + o) / 43 = g
  stored : ∀ s ∈ done, s.apid = apid → ∃ e, c.groups.get? ((s.base + o) / 43) = some e ∧
    e.segments s.column = some s.pixels
  origin : ∀ g e column p, c.groups.get? g = some e → e.segments column = some p →
    ∃ s ∈ done, s.apid = apid ∧ (s.base + o) / 43 = g ∧ s.column = column ∧ s.pixels = p

/-- What the builder knows after the segments `done`, when its numbers are the
    true ones plus `o`. -/
structure Tracks {π : Type} (o : Int) (done : List Segment) (b : ImageBuilder π) : Prop where
  wraps : o % 16384 = 0
  unseen : done = [] → b.clock.highest = none
  highest : ∀ h, b.clock.highest = some h → ∃ s ∈ done, h = s.counter + o
  seen : done ≠ [] → ∃ h, b.clock.highest = some h
  channel : ∀ apid c, b.channels.get? apid = some c → c.Holds o done apid
  covered : ∀ s ∈ done, ∃ c, b.channels.get? s.apid = some c

theorem tracks_new {π : Type} (n : Numerics π) {o : Int} (ho : o % 16384 = 0) :
    Tracks o [] (ImageBuilder.new n) where
  wraps := ho
  unseen := fun _ => rfl
  highest := by intro h hh; cases hh
  seen := by intro h; exact absurd rfl h
  channel := by intro apid c hc; cases hc
  covered := by intro s hs; cases hs

/-! ## Unwrapping -/

/-- A counter less than half a turn away is unwrapped to its true value. -/
theorem nearestSequence_eq {s : Segment} {o reference : Int} (ho : o % 16384 = 0)
    (hlow : s.counter + o - reference < 8192) (hhigh : reference - (s.counter + o) < 8192) :
    nearestSequence s.sequence reference = s.counter + o := by
  have hsequence : (s.sequence : Int) = s.counter % 16384 := by
    unfold Segment.sequence
    omega
  unfold nearestSequence
  rw [hsequence]
  show reference + (s.counter % 16384 - reference + 16384 / 2) % 16384 - 16384 / 2 = _
  omega

theorem locate_eq {π : Type} {n : Numerics π} {S done : List Segment} (hS : Pass n S) {o : Int}
    {b : ImageBuilder π} (h : Tracks o done b) (hdone : ∀ t ∈ done, t ∈ S) {s : Segment}
    (hs : s ∈ S) (hfirst : done = [] → s.counter + o = s.sequence) :
    b.clock.locate n s.sequence none = s.counter + o := by
  show nearestSequence s.sequence (b.clock.highest.getD s.sequence) = _
  match hhighest : b.clock.highest with
  | none =>
    have hnil : done = [] := by
      by_contra hne
      obtain ⟨x, hx⟩ := h.seen hne
      rw [hhighest] at hx
      cases hx
    have heq := hfirst hnil
    exact nearestSequence_eq h.wraps (by rw [Option.getD_none]; omega)
      (by rw [Option.getD_none]; omega)
  | some x =>
    obtain ⟨t, ht, rfl⟩ := h.highest x hhighest
    have h1 := hS.span s hs t (hdone t ht)
    have h2 := hS.span t (hdone t ht) s hs
    exact nearestSequence_eq h.wraps (by rw [Option.getD_some]; omega)
      (by rw [Option.getD_some]; omega)

/-! ## The range of groups -/

/-- A group relative to the cycle that begins at `firstPhase`. -/
theorem group_sub_shift {x firstPhase : Int} (h0 : 0 ≤ firstPhase) (h43 : firstPhase < 43) :
    x / 43 - (if x % 43 < firstPhase then 1 else 0) = (x - firstPhase) / 43 := by
  split <;> omega

/-- The groups of a channel, shifted, are cycles of segments it holds. -/
theorem ChannelImage.Holds.shifted {o : Int} {done : List Segment} {apid : Nat} {c : ChannelImage}
    (h : c.Holds o done apid) {firstPhase : Int} (h0 : 0 ≤ firstPhase) (h43 : firstPhase < 43)
    {g : Int} {e : ScanGroup} (hg : c.groups.get? g = some e) :
    ∃ s ∈ done, s.apid = apid ∧ g - c.shift firstPhase = (s.base + o - firstPhase) / 43 := by
  obtain ⟨s, hs, hapid, hgroup⟩ := h.group g ⟨e, hg⟩
  refine ⟨s, hs, hapid, ?_⟩
  rw [← group_sub_shift h0 h43, hgroup]
  unfold ChannelImage.shift
  rw [h.phase s hs hapid]

namespace ImageBuilder

variable {π : Type}

theorem mem_values {b : ImageBuilder π} {c : ChannelImage} (h : c ∈ b.values) :
    ∃ apid, b.channels.get? apid = some c := by
  obtain ⟨⟨apid, c'⟩, hmem, rfl⟩ := List.mem_map.mp h
  exact ⟨apid, b.channels.mem_entries.mp hmem⟩

theorem mem_values_of_get? {b : ImageBuilder π} {apid : Nat} {c : ChannelImage}
    (h : b.channels.get? apid = some c) : c ∈ b.values :=
  List.mem_map.mpr ⟨(apid, c), b.channels.mem_entries.mpr h, rfl⟩

/-- Both ends of the range are the candidate or a group of a channel. -/
theorem spanWith_spec {b : ImageBuilder π} {P : Int → Prop} {firstPhase candidate : Int}
    (hcandidate : P candidate)
    (hchannels : ∀ c ∈ b.values, ∀ g e, c.groups.get? g = some e → P (g - c.shift firstPhase)) :
    P (b.spanWith firstPhase candidate).1 ∧ P (b.spanWith firstPhase candidate).2 := by
  unfold spanWith
  generalize b.values = channels at hchannels
  have hstart : P (candidate, candidate).1 ∧ P (candidate, candidate).2 :=
    ⟨hcandidate, hcandidate⟩
  generalize (candidate, candidate) = range at hstart
  induction channels generalizing range with
  | nil => exact hstart
  | cons c channels ih =>
    rw [List.foldl_cons]
    apply ih fun c' hc' => hchannels c' (List.mem_cons_of_mem _ hc')
    obtain ⟨first, last⟩ := range
    obtain ⟨hfirst, hlast⟩ := hstart
    constructor
    · dsimp only
      split
      · next g e hg =>
        have hnew := hchannels c List.mem_cons_self g e (BTreeMap.first?_eq_some hg).1
        obtain hmin | hmin := min_choice first (g - c.shift firstPhase)
        · rw [hmin]; exact hfirst
        · rw [hmin]; exact hnew
      · exact hfirst
    · dsimp only
      split
      · next g e hg =>
        have hnew := hchannels c List.mem_cons_self g e (BTreeMap.last?_eq_some hg).1
        obtain hmax | hmax := max_choice last (g - c.shift firstPhase)
        · rw [hmax]; exact hlast
        · rw [hmax]; exact hnew
      · exact hlast

end ImageBuilder


/-! ## One arrival -/

namespace Tracks

variable {π : Type} {n : Numerics π} {S done : List Segment} {o : Int} {b : ImageBuilder π}

/-- The bases of a pass are close together. -/
theorem base_span (hS : Pass n S) {s t : Segment} (hs : s ∈ S) (ht : t ∈ S) :
    s.base - t.base < 8205 := by
  have hspan := hS.span s hs t ht
  have hcolumn := t.column.isLt
  unfold Segment.base
  omega

/-- Segments of one channel and group with one column are the same. -/
theorem counter_eq {s t : Segment} (hmod : s.base % 43 = t.base % 43)
    (hgroup : (s.base + o) / 43 = (t.base + o) / 43) (hcolumn : s.column = t.column) :
    s.counter = t.counter := by
  have hbase : s.base = t.base := by omega
  unfold Segment.base at hbase
  rw [hcolumn] at hbase
  omega

/-- The channel's place for a segment that has not arrived yet is free. -/
theorem free (h : Tracks o done b) (hS : Pass n S) (hdone : ∀ t ∈ done, t ∈ S) {s : Segment}
    (hs : s ∈ S) (hnew : ∀ t ∈ done, ¬ (t.apid = s.apid ∧ t.counter = s.counter)) :
    (((((b.channels.get? s.apid).getD ⟨BTreeMap.empty, (s.base + o) % 43, none⟩).groups.get?
      ((s.base + o) / 43)).getD .default).segments s.column) = none := by
  match hc : b.channels.get? s.apid with
  | none => rfl
  | some c =>
    rw [Option.getD_some]
    match hg : c.groups.get? ((s.base + o) / 43) with
    | none => rfl
    | some e =>
      rw [Option.getD_some]
      match hp : e.segments s.column with
      | none => rfl
      | some p =>
        obtain ⟨t, ht, hapid, hgroup, hcolumn, _⟩ :=
          (h.channel s.apid c hc).origin _ e s.column p hg hp
        have hmod := hS.phase t (hdone t ht) s hs hapid
        exact absurd ⟨hapid, counter_eq hmod hgroup hcolumn⟩ (hnew t ht)

/-- The phase that a channel has already is that of the segment. -/
theorem phase_eq (h : Tracks o done b) (hS : Pass n S) (hdone : ∀ t ∈ done, t ∈ S) {s : Segment}
    (hs : s ∈ S) {c : ChannelImage} (hc : b.channels.get? s.apid = some c) :
    c.phase = (s.base + o) % 43 := by
  obtain ⟨t, ht, hapid⟩ := (h.channel s.apid c hc).present
  have hmod := hS.phase t (hdone t ht) s hs hapid
  rw [(h.channel s.apid c hc).phase t ht hapid]
  omega

/-- The phase that begins the cycle is a phase. -/
theorem firstPhaseWith_range (h : Tracks o done b) (apid : Nat) (x : Int) :
    0 ≤ b.firstPhaseWith apid (x % 43) ∧ b.firstPhaseWith apid (x % 43) < 43 := by
  unfold ImageBuilder.firstPhaseWith
  split
  · next firstApid c hfirst =>
    split
    · obtain ⟨t, ht, hapid⟩ := (h.channel firstApid c (BTreeMap.first?_eq_some hfirst).1).present
      rw [(h.channel firstApid c (BTreeMap.first?_eq_some hfirst).1).phase t ht hapid]
      omega
    · omega
  · omega

/-- A pass is too short to reach the limit of the image height. -/
theorem span_fits (h : Tracks o done b) (hS : Pass n S) (hdone : ∀ t ∈ done, t ∈ S) {s : Segment}
    (hs : s ∈ S) {firstPhase : Int} (h0 : 0 ≤ firstPhase) (h43 : firstPhase < 43)
    {candidate : Int} (hcandidate : candidate = (s.base + o - firstPhase) / 43) :
    (b.spanWith firstPhase candidate).2 - (b.spanWith firstPhase candidate).1 + 1 ≤ 2048 := by
  have hspec := @ImageBuilder.spanWith_spec π b
    (fun v => ∃ t ∈ S, v = (t.base + o - firstPhase) / 43) firstPhase candidate
    ⟨s, hs, hcandidate⟩
    (by
      intro c hc g e hg
      obtain ⟨apid, hget⟩ := ImageBuilder.mem_values hc
      obtain ⟨t, ht, _, heq⟩ := (h.channel apid c hget).shifted h0 h43 hg
      exact ⟨t, hdone t ht, heq⟩)
  obtain ⟨⟨t, ht, hfirst⟩, u, hu, hlast⟩ := hspec
  have hnear := base_span hS hu ht
  rw [hfirst, hlast]
  omega

/-- **What an arrival does**: nothing is dropped, and the segment is entered at
    its unwrapped group. -/
theorem push_eq (h : Tracks o done b) (hS : Pass n S) (hdone : ∀ t ∈ done, t ∈ S) {s : Segment}
    (hs : s ∈ S) (hnew : ∀ t ∈ done, ¬ (t.apid = s.apid ∧ t.counter = s.counter))
    (hfirst : done = [] → s.counter + o = s.sequence) :
    b.pushPacket n s.apid s.sequence s.payload =
      let channel := (b.channels.get? s.apid).getD ⟨BTreeMap.empty, (s.base + o) % 43, none⟩
      let group := (channel.groups.get? ((s.base + o) / 43)).getD .default
      { b with
        channels := b.channels.insert s.apid { channel with
          groups := channel.groups.insert ((s.base + o) / 43)
            ⟨Function.update group.segments s.column (some s.pixels)⟩ }
        clock := b.clock.accept (s.counter + o) none } := by
  have hvalid := hS.valid s hs
  have hcolumn : 14 * (s.column : Nat) / 14 = s.column := Nat.mul_div_cancel_left _ (by decide)
  have hlimits : ¬ ((s.sequence : Int) ≥ SEQUENCE_MODULUS ∨
      14 * (s.column : Nat) % BLOCKS_PER_SEGMENT ≠ 0) := by
    have hmodulus : SEQUENCE_MODULUS = 16384 := rfl
    have hblocks : BLOCKS_PER_SEGMENT = 14 := rfl
    have hsequence : (s.sequence : Int) < 16384 := by
      unfold Segment.sequence
      omega
    rw [hmodulus, hblocks]
    omega
  -- the checks of the packet come first, all of them passed
  have hplace : b.pushPacket n s.apid s.sequence s.payload =
      b.place n s.apid s.sequence none s.column s.pixels := by
    have hlt : 14 * (s.column : Nat) / BLOCKS_PER_SEGMENT < SEGMENTS_PER_LINE :=
      hcolumn.trans_lt s.column.isLt
    unfold ImageBuilder.pushPacket
    rw [if_neg (not_not.mpr hvalid.apid), hvalid.decoded]
    dsimp only
    rw [dif_pos hlt, if_neg hlimits, hvalid.untimed]
    exact congrArg (b.place n s.apid s.sequence none · s.pixels) (Fin.ext hcolumn)
  have hlocate := locate_eq hS h hdone hs hfirst
  have hbase : s.counter + o - ((s.column : Nat) : Int) = s.base + o := by
    unfold Segment.base
    omega
  -- a channel that is there already has the phase of the pass
  have hphase : ((b.channels.get? s.apid).any fun channel =>
      channel.phase != (s.base + o) % 43) = false := by
    match hc : b.channels.get? s.apid with
    | none => rfl
    | some c =>
      have := h.phase_eq hS hdone hs hc
      rw [Option.any_some, this]
      exact bne_self_eq_false _
  obtain ⟨h0, h43⟩ := h.firstPhaseWith_range s.apid (s.base + o)
  have hfits := h.span_fits hS hdone hs h0 h43 (group_sub_shift h0 h43)
  have hfree := h.free hS hdone hs hnew
  have hgroups : PACKETS_PER_GROUP = 43 := rfl
  rw [hplace]
  unfold ImageBuilder.place
  rw [hlocate]
  dsimp only
  rw [hbase, hgroups, hphase, if_neg Bool.false_ne_true]
  generalize b.spanWith _ _ = span at hfits
  -- the span of all channels fits into the image
  have hheight : ¬ ((span.2 - span.1 + 1).toNat * SEGMENT_HEIGHT > MAX_CHANNEL_HEIGHT ∨
      (span.2 - span.1 + 1).toNat * SEGMENT_HEIGHT * IMAGE_WIDTH > MAX_CHANNEL_PIXELS) := by
    have hrows : SEGMENT_HEIGHT = 8 := rfl
    have hmax : MAX_CHANNEL_HEIGHT = 16384 := rfl
    have hwidth : IMAGE_WIDTH = 1568 := rfl
    have hpixels : MAX_CHANNEL_PIXELS = 25690112 := rfl
    rw [hrows, hmax, hwidth, hpixels]
    omega
  rw [if_neg hheight, hfree]
  rfl

/-- The channel of the segment after its arrival. -/
theorem channel_push (h : Tracks o done b) (hS : Pass n S) (hdone : ∀ t ∈ done, t ∈ S)
    {s : Segment} (hs : s ∈ S) (hnew : ∀ t ∈ done, ¬ (t.apid = s.apid ∧ t.counter = s.counter))
    {channel : ChannelImage} (hchannel : (b.channels.get? s.apid).getD
      ⟨BTreeMap.empty, (s.base + o) % 43, none⟩ = channel)
    {group : ScanGroup} (hgroup : (channel.groups.get? ((s.base + o) / 43)).getD .default = group) :
    ChannelImage.Holds o (done ++ [s]) s.apid { channel with
      groups := channel.groups.insert ((s.base + o) / 43)
        ⟨Function.update group.segments s.column (some s.pixels)⟩ } := by
  have hlast : s ∈ done ++ [s] := List.mem_append_right _ (List.mem_singleton.mpr rfl)
  -- what the channel held before, if it was there
  have hphase : channel.phase = (s.base + o) % 43 := by
    match hc : b.channels.get? s.apid with
    | none => rw [← hchannel, hc]; rfl
    | some c => rw [← hchannel, hc]; exact h.phase_eq hS hdone hs hc
  have hold : ∀ g e, channel.groups.get? g = some e →
      b.channels.get? s.apid = some channel ∧ channel.Holds o done s.apid := by
    intro g e hg
    match hc : b.channels.get? s.apid with
    | none =>
      rw [← hchannel, hc] at hg
      cases hg
    | some c =>
      have hsame : c = channel := by rw [← hchannel, hc]; rfl
      rw [hsame] at hc ⊢
      exact ⟨rfl, h.channel s.apid channel hc⟩
  refine ⟨⟨s, hlast, rfl⟩, ?_, ?_, ?_, ?_⟩
  · intro t ht hapid
    have htS : t ∈ S := by
      obtain hmem | hmem := List.mem_append.mp ht
      · exact hdone t hmem
      · rw [List.mem_singleton.mp hmem]; exact hs
    have hmod := hS.phase t htS s hs hapid
    show channel.phase = _
    rw [hphase]
    omega
  · intro g he
    by_cases hg : g = (s.base + o) / 43
    · exact ⟨s, hlast, rfl, hg.symm⟩
    · obtain ⟨e, he⟩ := he
      rw [BTreeMap.get?_insert_ne _ hg] at he
      obtain ⟨t, ht, hapid, heq⟩ := (hold g e he).2.group g ⟨e, he⟩
      exact ⟨t, List.mem_append_left _ ht, hapid, heq⟩
  · intro t ht hapid
    obtain hmem | hmem := List.mem_append.mp ht
    · obtain ⟨c, hc⟩ := h.covered t hmem
      rw [hapid] at hc
      have hsame : c = channel := by rw [← hchannel, hc]; rfl
      rw [hsame] at hc
      obtain ⟨e, he, hpixels⟩ := (h.channel s.apid channel hc).stored t hmem hapid
      by_cases hg : (t.base + o) / 43 = (s.base + o) / 43
      · rw [hg] at he ⊢
        rw [he, Option.getD_some] at hgroup
        refine ⟨_, BTreeMap.get?_insert_self _ _ _, ?_⟩
        have hcolumn : t.column ≠ s.column := by
          intro hcolumn
          have hmod := hS.phase t (hdone t hmem) s hs hapid
          exact hnew t hmem ⟨hapid, counter_eq hmod hg hcolumn⟩
        show Function.update group.segments s.column (some s.pixels) t.column = _
        rw [Function.update_of_ne hcolumn, ← hgroup]
        exact hpixels
      · exact ⟨e, by rw [BTreeMap.get?_insert_ne _ hg]; exact he, hpixels⟩
    · rw [List.mem_singleton.mp hmem]
      refine ⟨_, BTreeMap.get?_insert_self _ _ _, ?_⟩
      exact Function.update_self _ _ _
  · intro g e column p he hp
    have hearlier : ∀ e', channel.groups.get? g = some e' → e'.segments column = some p →
        ∃ t ∈ done ++ [s], t.apid = s.apid ∧ (t.base + o) / 43 = g ∧ t.column = column ∧
          t.pixels = p := by
      intro e' he' hp'
      obtain ⟨t, ht, hrest⟩ := (hold g e' he').2.origin g e' column p he' hp'
      exact ⟨t, List.mem_append_left _ ht, hrest⟩
    by_cases hg : g = (s.base + o) / 43
    · subst hg
      rw [BTreeMap.get?_insert_self] at he
      cases he
      by_cases hcolumn : column = s.column
      · subst hcolumn
        have hp' : Function.update group.segments s.column (some s.pixels) s.column = some p := hp
        rw [Function.update_self] at hp'
        exact ⟨s, hlast, rfl, rfl, rfl, Option.some.inj hp'⟩
      · have hp' : Function.update group.segments s.column (some s.pixels) column = some p := hp
        rw [Function.update_of_ne hcolumn, ← hgroup] at hp'
        match he' : channel.groups.get? ((s.base + o) / 43) with
        | none =>
          rw [he'] at hp'
          cases hp'
        | some e' =>
          rw [he', Option.getD_some] at hp'
          exact hearlier e' he' hp'
    · rw [BTreeMap.get?_insert_ne _ hg] at he
      exact hearlier e he hp

/-- A segment of another channel changes nothing for this one. -/
theorem holds_other {apid : Nat} {c : ChannelImage} (h : c.Holds o done apid) {s : Segment}
    (hs : s.apid ≠ apid) : c.Holds o (done ++ [s]) apid := by
  have hmem : ∀ t ∈ done ++ [s], t.apid = apid → t ∈ done := by
    intro t ht hapid
    obtain hold | hlast := List.mem_append.mp ht
    · exact hold
    · rw [List.mem_singleton.mp hlast] at hapid
      exact absurd hapid hs
  have hleft : ∀ t ∈ done, t ∈ done ++ [s] := fun t ht => List.mem_append_left _ ht
  refine ⟨?_, ?_, ?_, ?_, ?_⟩
  · obtain ⟨t, ht, hapid⟩ := h.present
    exact ⟨t, hleft t ht, hapid⟩
  · intro t ht hapid
    exact h.phase t (hmem t ht hapid) hapid
  · intro g hg
    obtain ⟨t, ht, hrest⟩ := h.group g hg
    exact ⟨t, hleft t ht, hrest⟩
  · intro t ht hapid
    exact h.stored t (hmem t ht hapid) hapid
  · intro g e column p he hp
    obtain ⟨t, ht, hrest⟩ := h.origin g e column p he hp
    exact ⟨t, hleft t ht, hrest⟩

/-- **One arrival** keeps track. -/
theorem push (h : Tracks o done b) (hS : Pass n S) (hdone : ∀ t ∈ done, t ∈ S) {s : Segment}
    (hs : s ∈ S) (hnew : ∀ t ∈ done, ¬ (t.apid = s.apid ∧ t.counter = s.counter))
    (hfirst : done = [] → s.counter + o = s.sequence) :
    Tracks o (done ++ [s]) (b.pushPacket n s.apid s.sequence s.payload) := by
  have hlast : s ∈ done ++ [s] := List.mem_append_right _ (List.mem_singleton.mpr rfl)
  rw [h.push_eq hS hdone hs hnew hfirst]
  refine ⟨h.wraps, ?_, ?_, ?_, ?_, ?_⟩
  · intro hnil
    exact absurd hnil (List.append_ne_nil_of_right_ne_nil _ (List.cons_ne_nil s []))
  · intro x hx
    rcases hhighest : b.clock.highest with _ | old
    · have hx' : s.counter + o = x := by simpa [SequenceClock.accept, hhighest] using hx
      exact ⟨s, hlast, hx'.symm⟩
    · have hx' : max old (s.counter + o) = x := by simpa [SequenceClock.accept, hhighest] using hx
      obtain ⟨t, ht, hold⟩ := h.highest old hhighest
      obtain hmax | hmax := max_choice old (s.counter + o)
      · exact ⟨t, List.mem_append_left _ ht, by rw [← hx', ← hold]; exact hmax⟩
      · exact ⟨s, hlast, by rw [← hx']; exact hmax⟩
  · intro _
    exact ⟨_, rfl⟩
  · intro apid c hc
    by_cases hapid : apid = s.apid
    · subst hapid
      rw [BTreeMap.get?_insert_self] at hc
      cases hc
      exact h.channel_push hS hdone hs hnew rfl rfl
    · rw [BTreeMap.get?_insert_ne _ hapid] at hc
      exact holds_other (h.channel apid c hc) (Ne.symm hapid)
  · intro t ht
    by_cases hapid : t.apid = s.apid
    · rw [hapid]
      exact ⟨_, BTreeMap.get?_insert_self _ _ _⟩
    · obtain hmem | hmem := List.mem_append.mp ht
      · obtain ⟨c, hc⟩ := h.covered t hmem
        exact ⟨c, by rw [← hc]; exact BTreeMap.get?_insert_ne _ hapid _⟩
      · rw [List.mem_singleton.mp hmem] at hapid
        exact absurd rfl hapid

end Tracks

/-- After all segments of a pass, in any order, the builder tracks them. -/
theorem assemble_tracks {π : Type} {n : Numerics π} {S : List Segment} (hS : Pass n S)
    {arrivals : List Segment} (harrivals : arrivals.Perm S) :
    ∃ o, Tracks o arrivals (assemble n arrivals) := by
  have hmem : ∀ s ∈ arrivals, s ∈ S := fun s hs => harrivals.mem_iff.mp hs
  have hdistinct : arrivals.Pairwise fun s t => ¬ (s.apid = t.apid ∧ s.counter = t.counter) := by
    refine harrivals.symm.pairwise hS.distinct ?_
    intro s t hne ⟨hapid, hcounter⟩
    exact hne ⟨hapid.symm, hcounter.symm⟩
  clear harrivals
  -- the first arrival fixes the offset
  obtain ⟨o, ho, hstart⟩ : ∃ o : Int, o % 16384 = 0 ∧
      ∀ s, arrivals.head? = some s → s.counter + o = s.sequence := by
    match arrivals with
    | [] => exact ⟨0, rfl, nofun⟩
    | s :: rest =>
      refine ⟨s.sequence - s.counter, ?_, ?_⟩
      · unfold Segment.sequence
        omega
      · intro t ht
        cases ht
        omega
  refine ⟨o, ?_⟩
  unfold assemble
  have hrun : ∀ (rest done : List Segment) (b : ImageBuilder π), done ++ rest = arrivals →
      Tracks o done b → Tracks o arrivals
        (rest.foldl (fun b s => b.pushPacket n s.apid s.sequence s.payload) b) := by
    intro rest
    induction rest with
    | nil =>
      intro done b hsplit h
      rw [List.append_nil] at hsplit
      rw [← hsplit]
      exact h
    | cons s rest ih =>
      intro done b hsplit h
      apply ih (done ++ [s]) _ (by rw [← hsplit, List.append_assoc]; rfl)
      rw [← hsplit] at hmem hdistinct hstart
      refine h.push hS (fun t ht => hmem t (List.mem_append_left _ ht))
        (hmem s (List.mem_append_right _ List.mem_cons_self)) ?_ ?_
      · intro t ht
        exact (List.pairwise_append.mp hdistinct).2.2 t ht s List.mem_cons_self
      · intro hnil
        subst hnil
        exact hstart s rfl
  exact hrun arrivals [] _ rfl (tracks_new n ho)

/-! ## The image -/

theorem mapM_eq_some {α β : Type*} {f : α → Option β} :
    ∀ {l : List α}, (∀ a ∈ l, ∃ v, f a = some v) →
      ∃ vs, l.mapM f = some vs ∧ ∀ v, v ∈ vs ↔ ∃ a ∈ l, f a = some v := by
  intro l
  induction l with
  | nil =>
    intro _
    exact ⟨[], rfl, by simp⟩
  | cons a l ih =>
    intro h
    obtain ⟨v, hv⟩ := h a List.mem_cons_self
    obtain ⟨vs, hvs, hmem⟩ := ih fun b hb => h b (List.mem_cons_of_mem _ hb)
    refine ⟨v :: vs, ?_, ?_⟩
    · rw [List.mapM_cons, hv, hvs]
      rfl
    · intro w
      rw [List.mem_cons, hmem]
      simp [hv, eq_comm]

theorem min?_spec {α : Type*} [LinearOrder α] {l : List α} (h : l ≠ []) :
    ∃ m, l.min? = some m ∧ m ∈ l ∧ ∀ x ∈ l, m ≤ x := by
  match hmin : l.min? with
  | none => exact absurd (List.min?_eq_none_iff.mp hmin) h
  | some m => exact ⟨m, rfl, List.min?_eq_some_iff.mp hmin⟩

theorem max?_spec {α : Type*} [LinearOrder α] {l : List α} (h : l ≠ []) :
    ∃ m, l.max? = some m ∧ m ∈ l ∧ ∀ x ∈ l, x ≤ m := by
  match hmax : l.max? with
  | none => exact absurd (List.max?_eq_none_iff.mp hmax) h
  | some m => exact ⟨m, rfl, List.max?_eq_some_iff.mp hmax⟩

/-- The range of groups of a builder whose channels all have a group. -/
theorem ImageBuilder.bounds_spec {π : Type} {b : ImageBuilder π}
    (hgroups : ∀ apid c, b.channels.get? apid = some c → ∃ g e, c.groups.get? g = some e)
    {apid : Nat} {c₀ : ChannelImage} (hfirst : b.channels.first? = some (apid, c₀)) :
    ∃ first last, b.bounds = some (first, last, c₀.phase) ∧
      (∃ c ∈ b.values, ∃ g e, c.groups.get? g = some e ∧ first = g - c.shift c₀.phase) ∧
      (∃ c ∈ b.values, ∃ g e, c.groups.get? g = some e ∧ last = g - c.shift c₀.phase) ∧
      ∀ c ∈ b.values, ∀ g e, c.groups.get? g = some e →
        first ≤ g - c.shift c₀.phase ∧ g - c.shift c₀.phase ≤ last := by
  -- every channel has a first and a last group
  have hends : ∀ d ∈ b.values, ∃ j e k e', d.groups.first? = some (j, e) ∧
      d.groups.last? = some (k, e') := by
    intro d hd
    obtain ⟨apid, hget⟩ := mem_values hd
    obtain ⟨g, e, he⟩ := hgroups apid d hget
    obtain ⟨j, w, hj⟩ := BTreeMap.first?_isSome he
    obtain ⟨k, x, hk⟩ := BTreeMap.last?_isSome he
    exact ⟨j, w, k, x, hj, hk⟩
  obtain ⟨firsts, hfirsts, hfirstmem⟩ := @mapM_eq_some ChannelImage Int
    (fun d => d.groups.first?.map fun e => e.1 - d.shift c₀.phase) b.values fun d hd => by
      obtain ⟨j, e, k, e', hj, hk⟩ := hends d hd
      exact ⟨_, by rw [hj]; rfl⟩
  obtain ⟨lasts, hlasts, hlastmem⟩ := @mapM_eq_some ChannelImage Int
    (fun d => d.groups.last?.map fun e => e.1 - d.shift c₀.phase) b.values fun d hd => by
      obtain ⟨j, e, k, e', hj, hk⟩ := hends d hd
      exact ⟨_, by rw [hk]; rfl⟩
  have hvalue : c₀ ∈ b.values := mem_values_of_get? (BTreeMap.first?_eq_some hfirst).1
  have hfirstsne : firsts ≠ [] := by
    obtain ⟨j, e, k, e', hj, hk⟩ := hends c₀ hvalue
    exact List.ne_nil_of_mem ((hfirstmem _).mpr ⟨c₀, hvalue, by rw [hj]; rfl⟩)
  have hlastsne : lasts ≠ [] := by
    obtain ⟨j, e, k, e', hj, hk⟩ := hends c₀ hvalue
    exact List.ne_nil_of_mem ((hlastmem _).mpr ⟨c₀, hvalue, by rw [hk]; rfl⟩)
  obtain ⟨first, hmin, hminmem, hminle⟩ := min?_spec hfirstsne
  obtain ⟨last, hmax, hmaxmem, hmaxle⟩ := max?_spec hlastsne
  refine ⟨first, last, ?_, ?_, ?_, ?_⟩
  · unfold bounds
    rw [hfirst]
    dsimp only
    rw [hfirsts, hlasts]
    dsimp only
    rw [hmin, hmax]
  · obtain ⟨d, hd, hfound⟩ := (hfirstmem first).mp hminmem
    obtain ⟨⟨g, e⟩, hg, heq⟩ := Option.map_eq_some_iff.mp hfound
    exact ⟨d, hd, g, e, (BTreeMap.first?_eq_some hg).1, heq.symm⟩
  · obtain ⟨d, hd, hfound⟩ := (hlastmem last).mp hmaxmem
    obtain ⟨⟨g, e⟩, hg, heq⟩ := Option.map_eq_some_iff.mp hfound
    exact ⟨d, hd, g, e, (BTreeMap.last?_eq_some hg).1, heq.symm⟩
  · intro d hd g e hg
    obtain ⟨j, w, k, x, hj, hk⟩ := hends d hd
    have hjle := (BTreeMap.first?_eq_some hj).2 g e hg
    have hkge := (BTreeMap.last?_eq_some hk).2 g e hg
    have hfirstle := hminle _ ((hfirstmem _).mpr ⟨d, hd, by rw [hj]; rfl⟩)
    have hlastle := hmaxle _ ((hlastmem _).mpr ⟨d, hd, by rw [hk]; rfl⟩)
    constructor
    · exact hfirstle.trans (Int.sub_le_sub_right hjle _)
    · exact (Int.sub_le_sub_right hkge _).trans hlastle

/-- The cycle begins at the phase of a segment of the lowest channel. -/
theorem cyclePhase_spec {S : List Segment} (h : S ≠ []) :
    ∃ s ∈ S, (∀ t ∈ S, s.apid ≤ t.apid) ∧ cyclePhase S = s.base % 43 := by
  obtain ⟨a, hmin, hmem, hleast⟩ := min?_spec (l := S.map Segment.apid) (by simpa using h)
  obtain ⟨s₀, hs₀, hapid₀⟩ := List.mem_map.mp hmem
  unfold cyclePhase
  rw [hmin]
  match hfind : S.find? fun s => decide (some a = some s.apid) with
  | some s =>
    have hapid : a = s.apid := by simpa using List.find?_some hfind
    refine ⟨s, List.mem_of_find?_eq_some hfind, ?_, by rw [hfind]⟩
    intro t ht
    rw [← hapid]
    exact hleast _ (List.mem_map_of_mem ht)
  | none =>
    have hnot := List.find?_eq_none.mp hfind s₀ hs₀
    rw [hapid₀] at hnot
    simp at hnot

theorem segmentAt_some {S : List Segment} {apid x y : Nat} {s : Segment}
    (h : segmentAt S apid x y = some s) : s ∈ S ∧ s.apid = apid ∧
      cycleOf S s - firstCycle S = (y / 8 : Nat) ∧ (s.column : Nat) = x / 112 :=
  ⟨List.mem_of_find?_eq_some h, by simpa using List.find?_some h⟩

theorem segmentAt_none {S : List Segment} {apid x y : Nat} (h : segmentAt S apid x y = none)
    {s : Segment} (hs : s ∈ S) : ¬ (s.apid = apid ∧
      cycleOf S s - firstCycle S = (y / 8 : Nat) ∧ (s.column : Nat) = x / 112) := by
  simpa using List.find?_eq_none.mp h s hs

theorem cycle_ends {S : List Segment} (h : S ≠ []) :
    (∃ s ∈ S, firstCycle S = cycleOf S s) ∧ (∀ s ∈ S, firstCycle S ≤ cycleOf S s) ∧
      (∃ s ∈ S, lastCycle S = cycleOf S s) ∧ ∀ s ∈ S, cycleOf S s ≤ lastCycle S := by
  have hne : S.map (cycleOf S) ≠ [] := by simpa using h
  obtain ⟨first, hfirst, hfirstmem, hleast⟩ := min?_spec hne
  obtain ⟨last, hlast, hlastmem, hgreatest⟩ := max?_spec hne
  obtain ⟨s, hs, hseq⟩ := List.mem_map.mp hfirstmem
  obtain ⟨t, ht, hteq⟩ := List.mem_map.mp hlastmem
  unfold firstCycle lastCycle
  rw [hfirst, hlast]
  exact ⟨⟨s, hs, hseq.symm⟩, fun u hu => hleast _ (List.mem_map_of_mem hu),
    ⟨t, ht, hteq.symm⟩, fun u hu => hgreatest _ (List.mem_map_of_mem hu)⟩

namespace Tracks

variable {π : Type} {n : Numerics π} {done : List Segment} {o : Int} {b : ImageBuilder π}

/-- The builder's range of groups: it begins the cycle at the phase of a
    segment of the lowest channel and covers the cycles of all segments. -/
theorem bounds_spec (h : Tracks o done b) (hne : done ≠ []) :
    ∃ first last firstPhase, b.bounds = some (first, last, firstPhase) ∧
      (∃ s ∈ done, (∀ t ∈ done, s.apid ≤ t.apid) ∧ firstPhase = (s.base + o) % 43) ∧
      (∃ s ∈ done, first = (s.base + o - firstPhase) / 43) ∧
      (∀ s ∈ done, first ≤ (s.base + o - firstPhase) / 43) ∧
      (∃ s ∈ done, last = (s.base + o - firstPhase) / 43) ∧
      ∀ s ∈ done, (s.base + o - firstPhase) / 43 ≤ last := by
  obtain ⟨s₀, hs₀⟩ := List.exists_mem_of_ne_nil done hne
  obtain ⟨c₀, hc₀⟩ := h.covered s₀ hs₀
  obtain ⟨a, c, hfirst⟩ := BTreeMap.first?_isSome hc₀
  obtain ⟨hc, hleast⟩ := BTreeMap.first?_eq_some hfirst
  have hholds := h.channel a c hc
  obtain ⟨s, hs, hapid⟩ := hholds.present
  have hphase : c.phase = (s.base + o) % 43 := hholds.phase s hs hapid
  have h0 : 0 ≤ c.phase := by omega
  have h43 : c.phase < 43 := by omega
  have hgroups : ∀ apid d, b.channels.get? apid = some d → ∃ g e, d.groups.get? g = some e := by
    intro apid d hget
    obtain ⟨t, ht, htapid⟩ := (h.channel apid d hget).present
    obtain ⟨e, he, _⟩ := (h.channel apid d hget).stored t ht htapid
    exact ⟨_, e, he⟩
  obtain ⟨first, last, hbounds, hfirstof, hlastof, hwithin⟩ :=
    ImageBuilder.bounds_spec hgroups hfirst
  -- the group of a segment is one of its channel's
  have hcycle : ∀ t ∈ done, first ≤ (t.base + o - c.phase) / 43 ∧
      (t.base + o - c.phase) / 43 ≤ last := by
    intro t ht
    obtain ⟨d, hd⟩ := h.covered t ht
    obtain ⟨e, he, _⟩ := (h.channel t.apid d hd).stored t ht rfl
    have hends := hwithin d (ImageBuilder.mem_values_of_get? hd) _ e he
    unfold ChannelImage.shift at hends
    rw [(h.channel t.apid d hd).phase t ht rfl, group_sub_shift h0 h43] at hends
    exact hends
  have hsegment : ∀ v : Int, (∃ d ∈ b.values, ∃ g e, d.groups.get? g = some e ∧
      v = g - d.shift c.phase) → ∃ t ∈ done, v = (t.base + o - c.phase) / 43 := by
    intro v hv
    obtain ⟨d, hd, g, e, hg, rfl⟩ := hv
    obtain ⟨apid, hget⟩ := ImageBuilder.mem_values hd
    obtain ⟨t, ht, _, heq⟩ := (h.channel apid d hget).shifted h0 h43 hg
    exact ⟨t, ht, heq⟩
  refine ⟨first, last, c.phase, hbounds, ⟨s, hs, ?_, hphase⟩, hsegment first hfirstof,
    fun t ht => (hcycle t ht).1, hsegment last hlastof, fun t ht => (hcycle t ht).2⟩
  intro t ht
  obtain ⟨d, hd⟩ := h.covered t ht
  rw [hapid]
  exact hleast t.apid d hd

end Tracks

theorem GrayImage.fromFn_congr {width height : Nat} {f g : Nat → Nat → UInt8}
    (h : ∀ x y, x < width → f x y = g x y) :
    GrayImage.fromFn width height f = GrayImage.fromFn width height g := by
  unfold GrayImage.fromFn
  congr 1
  apply List.map_congr_left
  intro y _
  apply List.map_congr_left
  intro x hx
  exact h x y (List.mem_range.mp hx)

/-- **The images do not depend on the offset**, so not on the order of arrival:
    what the builder draws is read off the true counters. -/
theorem Tracks.render_eq {π : Type} {n : Numerics π} {S done : List Segment} {o : Int}
    {b : ImageBuilder π} (h : Tracks o done b) (hS : Pass n S) (hmem : ∀ s, s ∈ done ↔ s ∈ S)
    (apid : Nat) : b.render apid = expectedImage S apid := by
  unfold expectedImage
  by_cases hany : (S.any fun s => decide (s.apid = apid)) = true
  · rw [if_pos hany]
    obtain ⟨u, hu, huapid⟩ := List.any_eq_true.mp hany
    have huapid' : u.apid = apid := of_decide_eq_true huapid
    have hSne : S ≠ [] := List.ne_nil_of_mem hu
    have hne : done ≠ [] := List.ne_nil_of_mem ((hmem u).mpr hu)
    obtain ⟨c, hc⟩ := h.covered u ((hmem u).mpr hu)
    rw [huapid'] at hc
    have hholds := h.channel apid c hc
    obtain ⟨first, last, firstPhase, hbounds, ⟨s, hs, hlow, hphase⟩, ⟨f, hf, hfirst⟩, hfirstle,
      ⟨l, hl, hlast⟩, hlastle⟩ := h.bounds_spec hne
    obtain ⟨t, ht, htlow, htphase⟩ := cyclePhase_spec hSne
    obtain ⟨⟨f', hf', hfirst'⟩, hfirstle', ⟨l', hl', hlast'⟩, hlastle'⟩ := cycle_ends hSne
    -- the lowest channel is the same one, so the cycles differ by a constant
    have hsame : s.base % 43 = t.base % 43 := by
      apply hS.phase s ((hmem s).mp hs) t ht
      exact le_antisymm (hlow t ((hmem t).mpr ht)) (htlow s ((hmem s).mp hs))
    have hcycle : ∀ v : Segment, (v.base + o - firstPhase) / 43 =
        cycleOf S v + (cyclePhase S + o) / 43 := by
      intro v
      unfold cycleOf
      omega
    have hfirsteq : first = firstCycle S + (cyclePhase S + o) / 43 := by
      have h1 := hfirstle f' ((hmem f').mpr hf')
      have h2 := hfirstle' f ((hmem f).mp hf)
      rw [hcycle] at h1 hfirst
      omega
    have hlasteq : last = lastCycle S + (cyclePhase S + o) / 43 := by
      have h1 := hlastle l' ((hmem l').mpr hl')
      have h2 := hlastle' l ((hmem l).mp hl)
      rw [hcycle] at h1 hlast
      omega
    have h0 : 0 ≤ firstPhase := by omega
    have h43 : firstPhase < 43 := by omega
    unfold ImageBuilder.render
    rw [hc, hbounds]
    have hheight : last - first + 1 = lastCycle S - firstCycle S + 1 := by omega
    dsimp only
    rw [hheight]
    refine congrArg some (GrayImage.fromFn_congr ?_)
    intro x y hx
    have hx' : x < 1568 := hx
    have hcolumn : x / 112 < 14 := by omega
    -- a segment of the channel is at this row exactly if its cycle is
    have hplace : ∀ v ∈ done, v.apid = apid →
        ((v.base + o) / 43 = first + (y / SEGMENT_HEIGHT : Nat) + c.shift firstPhase ↔
          cycleOf S v - firstCycle S = (y / 8 : Nat)) := by
      intro v hv hvapid
      have hshift := group_sub_shift (x := v.base + o) h0 h43
      rw [hcycle v] at hshift
      unfold ChannelImage.shift
      rw [hholds.phase v hv hvapid]
      show _ = first + ((y / 8 : Nat) : Int) + _ ↔ _
      constructor
      · intro heq
        omega
      · intro heq
        omega
    show c.pixel _ x (y % 8) = _
    unfold ChannelImage.pixel
    match hfind : segmentAt S apid x y with
    | some v =>
      obtain ⟨hvS, hvapid, hvcycle, hvcolumn⟩ := segmentAt_some hfind
      have hv := (hmem v).mpr hvS
      obtain ⟨e, he, hpixels⟩ := hholds.stored v hv hvapid
      rw [(hplace v hv hvapid).mpr hvcycle] at he
      have hcol : ChannelImage.columnOf x = v.column := by
        apply Fin.ext
        show x / 112 % 14 = v.column
        rw [Nat.mod_eq_of_lt hcolumn, hvcolumn]
      rw [he, Option.bind_some, hcol, hpixels]
      rfl
    | none =>
      -- what is stored here would be a segment of the pass
      match hstored : (c.groups.get? (first + (y / SEGMENT_HEIGHT : Nat) + c.shift firstPhase)).bind
          fun g => g.segments (ChannelImage.columnOf x) with
      | none => rfl
      | some p =>
        obtain ⟨e, he, hp⟩ := Option.bind_eq_some_iff.mp hstored
        obtain ⟨v, hv, hvapid, hvgroup, hvcolumn, _⟩ := hholds.origin _ e _ p he hp
        refine absurd ⟨hvapid, (hplace v hv hvapid).mp hvgroup, ?_⟩
          (segmentAt_none hfind ((hmem v).mp hv))
        rw [hvcolumn]
        exact Nat.mod_eq_of_lt hcolumn
  · rw [if_neg hany]
    have hnone : b.channels.get? apid = none := by
      match hc : b.channels.get? apid with
      | none => rfl
      | some c =>
        obtain ⟨v, hv, hvapid⟩ := (h.channel apid c hc).present
        exact absurd (List.any_eq_true.mpr ⟨v, (hmem v).mp hv, decide_eq_true hvapid⟩) hany
    unfold ImageBuilder.render
    rw [hnone]

/-- The channels with an image are those of the pass, in order. -/
theorem Tracks.keys_eq {π : Type} {n : Numerics π} {S done : List Segment} {o : Int}
    {b : ImageBuilder π} (h : Tracks o done b) (hS : Pass n S) (hmem : ∀ s, s ∈ done ↔ s ∈ S) :
    b.channels.keys = IMAGE_APIDS.filter fun apid => S.any fun s => decide (s.apid = apid) := by
  have hsorted : b.channels.keys.Pairwise (· < ·) := List.pairwise_map.mpr b.channels.sorted
  have hsorted' : (IMAGE_APIDS.filter fun apid =>
      S.any fun s => decide (s.apid = apid)).Pairwise (· < ·) := by
    have hall : IMAGE_APIDS.Pairwise (· < ·) := by decide
    exact hall.filter _
  refine List.Perm.eq_of_pairwise (fun a b _ _ hab hba => absurd hab (lt_asymm hba))
    hsorted hsorted' ?_
  rw [List.perm_ext_iff_of_nodup (hsorted.imp ne_of_lt) (hsorted'.imp ne_of_lt)]
  intro apid
  rw [BTreeMap.mem_keys, List.mem_filter]
  constructor
  · intro ⟨c, hc⟩
    obtain ⟨s, hs, hapid⟩ := (h.channel apid c hc).present
    have hsS := (hmem s).mp hs
    refine ⟨hapid ▸ (hS.valid s hsS).apid, ?_⟩
    exact List.any_eq_true.mpr ⟨s, hsS, decide_eq_true hapid⟩
  · intro ⟨_, hany⟩
    obtain ⟨s, hs, hapid⟩ := List.any_eq_true.mp hany
    obtain ⟨c, hc⟩ := h.covered s ((hmem s).mpr hs)
    rw [of_decide_eq_true hapid] at hc
    exact ⟨c, hc⟩

theorem Tracks.renderAll_eq {π : Type} {n : Numerics π} {S done : List Segment} {o : Int}
    {b : ImageBuilder π} (h : Tracks o done b) (hS : Pass n S) (hmem : ∀ s, s ∈ done ↔ s ∈ S) :
    b.renderAll = IMAGE_APIDS.filterMap fun apid => (expectedImage S apid).map (apid, ·) := by
  unfold ImageBuilder.renderAll
  rw [h.keys_eq hS hmem, List.filterMap_filter]
  apply List.filterMap_congr
  intro apid _
  rw [h.render_eq hS hmem apid]
  split
  · rfl
  · next hany =>
    unfold expectedImage
    rw [if_neg hany]
    rfl

/-- **Arrival order does not matter.** For every set of distinct untimed
    segments of a pass and every order in which they arrive, the image of
    every channel is the one that the true counters determine. -/
theorem assemble_render {π : Type} (n : Numerics π) (S arrivals : List Segment) (hS : Pass n S)
    (harrivals : arrivals.Perm S) :
    (∀ apid, (assemble n arrivals).render apid = expectedImage S apid) ∧
      (assemble n arrivals).renderAll =
        IMAGE_APIDS.filterMap fun apid => (expectedImage S apid).map (apid, ·) := by
  obtain ⟨o, h⟩ := assemble_tracks hS harrivals
  have hmem : ∀ s, s ∈ arrivals ↔ s ∈ S := fun s => harrivals.mem_iff
  exact ⟨h.render_eq hS hmem, h.renderAll_eq hS hmem⟩

/-! A segment of uniform grey, as the instrument sends it: every one of its
    fourteen blocks is coded as a zero difference and an end of block. -/

def greyPayload (mcu : UInt8) : List UInt8 :=
  [0, 0, 0, 0, 0, 0, 0, 0, mcu, 0, 0, 0xFF, 0xF0, 50,
    0x28, 0xA2, 0x8A, 0x28, 0xA2, 0x8A, 0x28, 0xA2, 0x8A, 0x28, 0xA0]

/-- Numerics that decode uniform grey and take a group for 1.231142 seconds. -/
def greyNumerics : Numerics Int where
  decodeSegment payload :=
    if payload = greyPayload (payload.getD 8 0) then
      some ⟨(payload.getD 8 0).toNat, List.replicate 896 128⟩
    else none
  groupPeriod := 1231142
  elapsedGroups period time := (2 * time + period) / (2 * period)
  observedPeriod time cycles :=
    if 1000000 * cycles ≤ time ∧ time < 1500000 * cycles then some (time / cycles) else none

def greySegment (apid : Nat) (counter : Int) (column : Fin 14) : Segment :=
  ⟨apid, counter, column, List.replicate 896 128, greyPayload (UInt8.ofNat (14 * column))⟩

theorem greySegment_valid {apid : Nat} (h : apid ∈ IMAGE_APIDS) (counter : Int)
    (column : Fin 14) : (greySegment apid counter column).Valid greyNumerics where
  apid := h
  decoded := by
    have hmcu : ∀ c : Fin 14, (UInt8.ofNat (14 * c)).toNat = 14 * c := by decide
    show (if greyPayload (UInt8.ofNat (14 * column)) = greyPayload (UInt8.ofNat (14 * column)) then
      some (DecodedSegment.mk (UInt8.ofNat (14 * column)).toNat (List.replicate 896 128))
      else none) = _
    rw [if_pos rfl, hmcu]
    rfl
  untimed := fun _ => rfl

/-- Two segments of channel 64 and one of channel 65, across the wrap of the
    counter. -/
def greyPass : List Segment :=
  [greySegment 64 16380 ⟨0, by decide⟩, greySegment 64 16383 ⟨3, by decide⟩, greySegment 65 16394 ⟨0, by decide⟩]

theorem greyPass_pass : Pass greyNumerics greyPass where
  valid := by
    intro s hs
    simp only [greyPass, List.mem_cons, List.not_mem_nil, or_false] at hs
    obtain rfl | rfl | rfl := hs
    · exact greySegment_valid (by decide) _ _
    · exact greySegment_valid (by decide) _ _
    · exact greySegment_valid (by decide) _ _
  distinct := by decide
  phase := by decide
  span := by decide

theorem assemble_render_grey :
    (∀ apid, (assemble greyNumerics greyPass.reverse).render apid = expectedImage greyPass apid) ∧
      (assemble greyNumerics greyPass.reverse).renderAll =
        IMAGE_APIDS.filterMap fun apid => (expectedImage greyPass apid).map (apid, ·) :=
  assemble_render greyNumerics greyPass greyPass.reverse greyPass_pass (List.reverse_perm _)

end Lrpt
