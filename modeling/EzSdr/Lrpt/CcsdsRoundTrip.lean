import EzSdr.Lrpt.CcsdsSound

/-! # The Round Trip of the Demultiplexer

    A sender cuts the packets of every virtual channel into zones at any byte
    boundaries, with the right first header pointers, puts in idle zones where
    it likes, counts the frames of a channel modulo `2 ^ 24` and interleaves
    the channels in any way. The demultiplexer gives back exactly the packets.

    The two halves meet at `Holding`: the bytes pending on a channel are those
    of its current packet that have been sent.
-/

namespace Lrpt

/-! ## The sender -/

/-- A zone and its pointer, as the sender makes them. -/
structure Mpdu where
  payload : List UInt8
  firstHeaderPointer : UInt16
deriving DecidableEq, Repr

/-- Where packets start in the byte stream of a channel, from offset `a`. -/
def packetStarts : List (List UInt8) → Nat → List Nat
  | [], _ => []
  | q :: qs, a => a :: packetStarts qs (a + q.length)

/-- The first packet start in the `length` bytes from offset `a`. -/
def firstStart (packets : List (List UInt8)) (a length : Nat) : Option Nat :=
  (packetStarts packets 0).find? fun s => decide (a ≤ s ∧ s < a + length)

/-- The pointer of the zone at offset `a` is right: it is the offset of the
    first packet header in the zone, or the value that says there is none. -/
def PointsTo (packets : List (List UInt8)) (a : Nat) (m : Mpdu) : Prop :=
  match firstStart packets a m.payload.length with
  | none => m.firstHeaderPointer = NO_PACKET_START
  | some s => m.firstHeaderPointer.toNat = s - a ∧
      m.firstHeaderPointer ≠ NO_PACKET_START ∧ m.firstHeaderPointer ≠ IDLE_ONLY

instance (packets : List (List UInt8)) (a : Nat) (m : Mpdu) : Decidable (PointsTo packets a m) := by
  unfold PointsTo
  split <;> infer_instance

/-- The zones `ms` carry the byte stream of the packets from offset `a` to its
    end, in consecutive pieces. -/
inductive Carries (packets : List (List UInt8)) : Nat → List Mpdu → Prop
  | done : Carries packets packets.flatten.length []
  | idle {a : Nat} {ms : List Mpdu} (filler : List UInt8) :
      Carries packets a ms → Carries packets a (⟨filler, IDLE_ONLY⟩ :: ms)
  | data {a : Nat} {ms : List Mpdu} (m : Mpdu) :
      m.payload <+: packets.flatten.drop a → PointsTo packets a m →
      Carries packets (a + m.payload.length) ms → Carries packets a (m :: ms)

/-- The frames of a channel, numbered from `first` modulo `2 ^ 24`. -/
def numbered (v first : Nat) (ms : List Mpdu) : List Frame :=
  (ms.zipIdx first).map fun (m, i) =>
    ⟨m.payload, m.firstHeaderPointer, v, UInt32.ofNat (i % 2 ^ 24)⟩

/-- What a sender puts on one virtual channel. -/
structure Channel where
  packets : List (List UInt8)
  mpdus : List Mpdu
  first : Nat

/-- The calls deliver the frames of all channels, each channel's in order. -/
structure Sent (channels : Nat → Channel) (calls : List Call) : Prop where
  packets : ∀ v, ∀ q ∈ (channels v).packets, (SpacePacket.ofBytes q).isSome
  carried : ∀ v, Carries (channels v).packets 0 (channels v).mpdus
  frames : ∀ v, framesOf v calls = numbered v (channels v).first (channels v).mpdus
  ids : ∀ v, MAX_VIRTUAL_CHANNELS ≤ v → (channels v).packets = []

/-! ## Appending the bytes of a packet -/

theorem SpacePacket.ofBytes_length {q : List UInt8} {p : SpacePacket}
    (h : SpacePacket.ofBytes q = some p) : SPACE_PACKET_HEADER_LEN < q.length := by
  obtain ⟨header, _, _, hlength, _⟩ := SpacePacket.ofBytes_eq_some h
  rw [hlength]
  unfold SpacePacketHeader.totalLen
  omega

namespace PacketBuffer

/-- Two packets of which one begins with the other are equal. -/
theorem ofBytes_unique {q q' rest : List UInt8} {p p' : SpacePacket}
    (hq : SpacePacket.ofBytes q = some p) (hq' : SpacePacket.ofBytes q' = some p')
    (h : q' ++ rest = q ∨ ∃ more, q' ++ rest = q ++ more) : q' = q ∧ p' = p := by
  obtain ⟨header, hparse, _, hlength, _⟩ := SpacePacket.ofBytes_eq_some hq
  obtain ⟨header', hparse', _, hlength', _⟩ := SpacePacket.ofBytes_eq_some hq'
  have hsame : header' = header := by
    have hfirst := parse_append rest (parse_length hparse')
    rw [hparse'] at hfirst
    obtain heq | ⟨more, heq⟩ := h
    · rw [heq, hparse] at hfirst
      exact (Option.some.inj hfirst).symm
    · rw [heq, parse_append more (parse_length hparse), hparse] at hfirst
      exact (Option.some.inj hfirst).symm
  rw [hsame, ← hlength] at hlength'
  have heq : q' = q := by
    obtain heq | ⟨more, heq⟩ := h
    · have hrest : rest = [] := by
        have := congrArg List.length heq
        rw [List.length_append] at this
        exact List.eq_nil_of_length_eq_zero (by omega)
      rw [hrest, List.append_nil] at heq
      exact heq
    · exact (List.append_inj heq hlength').1
  refine ⟨heq, ?_⟩
  rw [heq, hq] at hq'
  exact (Option.some.inj hq').symm

/-- The rest of a packet completes it, and nothing after it is touched. -/
theorem append_whole {b : PacketBuffer} (hb : b.Ok) {bytes q rest : List UInt8} {p : SpacePacket}
    (hq : SpacePacket.ofBytes q = some p) (h : b.bytes ++ bytes = q ++ rest) :
    ∃ r, b.append bytes = some r ∧ r.packet = some p ∧ bytes.drop r.consumed = rest := by
  obtain ⟨header, hparse, _, hlength, _⟩ := SpacePacket.ofBytes_eq_some hq
  obtain ⟨r, hr⟩ := append_isSome hq (.inl h)
  have htook := append_took hb hr
  refine ⟨r, hr, ?_⟩
  match hpacket : r.packet with
  | none =>
    -- a buffer with the whole packet in it is not unfinished
    obtain ⟨hall, hok⟩ := htook.unfinished hpacket
    have hheld : r.buffer.bytes = q ++ rest := by
      rw [htook.held, hall, List.take_length, h]
    match hheader : r.buffer.header with
    | none =>
      have hshort := hok.short hheader
      have hlong := SpacePacket.ofBytes_length hq
      rw [hheld, List.length_append] at hshort
      omega
    | some header' =>
      obtain ⟨hparse', _, hshort⟩ := hok.known header' hheader
      rw [hheld, parse_append rest (parse_length hparse), hparse] at hparse'
      cases hparse'
      rw [hheld, List.length_append] at hshort
      omega
  | some p' =>
    have hp' := htook.finished p' hpacket
    have hsplit : r.buffer.bytes ++ bytes.drop r.consumed = q ++ rest := by
      rw [htook.held, List.append_assoc, List.take_append_drop, h]
    obtain ⟨heq, hpeq⟩ := ofBytes_unique hq hp' (.inr ⟨rest, hsplit⟩)
    rw [heq] at hsplit
    exact ⟨by rw [hpeq], List.append_cancel_left hsplit⟩

/-- Less than the rest of a packet stays in the buffer. -/
theorem append_part {b : PacketBuffer} (hb : b.Ok) {bytes q rest : List UInt8} {p : SpacePacket}
    (hq : SpacePacket.ofBytes q = some p) (h : b.bytes ++ bytes ++ rest = q) (hrest : rest ≠ []) :
    ∃ r, b.append bytes = some r ∧ r.packet = none ∧ r.buffer.Ok ∧
      r.buffer.bytes = b.bytes ++ bytes := by
  obtain ⟨r, hr⟩ := append_isSome hq (.inr h)
  have htook := append_took hb hr
  refine ⟨r, hr, ?_⟩
  match hpacket : r.packet with
  | none =>
    obtain ⟨hall, hok⟩ := htook.unfinished hpacket
    refine ⟨rfl, hok, ?_⟩
    rw [htook.held, hall, List.take_length]
  | some p' =>
    have hp' := htook.finished p' hpacket
    have hsplit : r.buffer.bytes ++ (bytes.drop r.consumed ++ rest) = q := by
      rw [htook.held, ← h, List.append_assoc, List.append_assoc, ← List.append_assoc (bytes.take _),
        List.take_append_drop]
    obtain ⟨heq, _⟩ := ofBytes_unique hq hp' (.inl hsplit)
    rw [heq] at hsplit
    have hnil := List.append_right_eq_self.mp hsplit
    exact absurd (List.append_eq_nil_iff.mp hnil).2 hrest

end PacketBuffer

/-! ## What a channel holds -/

/-- A channel holds the bytes of its current packet that have been sent;
    `rest` are those still to come. -/
inductive Holding : Option PacketBuffer → List UInt8 → List (List UInt8) → Prop
  | nothing : Holding none [] []
  | packet {b : PacketBuffer} {rest q : List UInt8} : b.Ok → b.bytes ≠ [] → rest ≠ [] →
      b.bytes ++ rest = q → (SpacePacket.ofBytes q).isSome → Holding (some b) rest [q]

/-- The rest of the current packet completes it. -/
theorem Holding.finish {pending : Option PacketBuffer} {rest : List UInt8}
    {current : List (List UInt8)} (h : Holding pending rest current) :
    continuePending pending rest = (none, current.filterMap SpacePacket.ofBytes) := by
  match h with
  | .nothing => rfl
  | .packet (b := b) (q := q) hok _ _ hq hsome =>
    obtain ⟨p, hp⟩ := Option.isSome_iff_exists.mp hsome
    have hwhole := hq.trans (List.append_nil q).symm
    obtain ⟨r, hr, hpacket, _⟩ := PacketBuffer.append_whole hok hp hwhole
    simp only [continuePending]
    rw [hr]
    dsimp only
    rw [hpacket, List.filterMap_cons_some hp]
    rfl

/-- Less than the rest of the current packet is held with what there was. -/
theorem Holding.extend {pending : Option PacketBuffer} {zone rest : List UInt8}
    {current : List (List UInt8)} (h : Holding pending (zone ++ rest) current) (hrest : rest ≠ []) :
    ∃ pending', continuePending pending zone = (pending', []) ∧ Holding pending' rest current := by
  generalize htotal : zone ++ rest = total at h
  match h with
  | .nothing => exact absurd (List.append_eq_nil_iff.mp htotal).2 hrest
  | .packet (b := b) (q := q) hok hne _ hq hsome =>
    obtain ⟨p, hp⟩ := Option.isSome_iff_exists.mp hsome
    rw [← htotal, ← List.append_assoc] at hq
    obtain ⟨r, hr, hpacket, hok', hheld⟩ := PacketBuffer.append_part hok hp hq hrest
    refine ⟨some r.buffer, ?_, .packet hok' ?_ hrest (by rw [hheld]; exact hq) hsome⟩
    · simp only [continuePending]
      rw [hr]
      dsimp only
      rw [hpacket]
    · rw [hheld]
      intro hnil
      exact hne (List.append_eq_nil_iff.mp hnil).1

/-- The packets that start in a zone: those it contains are read, and the last
    one is held if the zone ends inside it. -/
theorem readPackets_holding (packets : List (List UInt8)) :
    ∀ {zone : List UInt8}, (∀ q ∈ packets, (SpacePacket.ofBytes q).isSome) →
      zone <+: packets.flatten →
      ∃ pending done current next rest, packets = done ++ current ++ next ∧
        readPackets zone = (pending, done.filterMap SpacePacket.ofBytes) ∧
        Holding pending rest current ∧ zone ++ rest = (done ++ current).flatten := by
  induction packets with
  | nil =>
    intro zone _ hzone
    have hnil : zone = [] := List.prefix_nil.mp hzone
    subst hnil
    exact ⟨none, [], [], [], [], rfl, by rw [readPackets]; rfl, .nothing, rfl⟩
  | cons q packets ih =>
    intro zone hvalid hzone
    rcases zone with _ | ⟨byte, bytes⟩
    · exact ⟨none, [], [], q :: packets, [], rfl, by rw [readPackets]; rfl, .nothing, rfl⟩
    generalize hz : byte :: bytes = zone at hzone
    have hne : ¬ zone.length = 0 := by
      rw [← hz]
      simp
    have hsome := hvalid q List.mem_cons_self
    obtain ⟨p, hp⟩ := Option.isSome_iff_exists.mp hsome
    rw [List.flatten_cons] at hzone
    by_cases hshort : zone.length < q.length
    · -- the zone ends inside its first packet
      obtain ⟨rest, hrest⟩ := List.prefix_of_prefix_length_le hzone (List.prefix_append q _) hshort.le
      have hrestne : rest ≠ [] := by
        intro hnil
        rw [hnil, List.append_nil] at hrest
        rw [hrest] at hshort
        exact lt_irrefl _ hshort
      obtain ⟨r, hr, hpacket, hok, hheld⟩ := PacketBuffer.append_part PacketBuffer.ok_empty hp
        hrest hrestne
      have hheld' : r.buffer.bytes = zone := hheld
      refine ⟨some r.buffer, [], [q], packets, rest, rfl, ?_, ?_, ?_⟩
      · rw [readPackets, if_neg hne]
        split
        · next hnone => rw [hr] at hnone; cases hnone
        · next r' hr' =>
          rw [hr] at hr'
          cases hr'
          split
          · rfl
          · next packet hp' => rw [hpacket] at hp'; cases hp'
      · refine .packet hok ?_ hrestne (by rw [hheld']; exact hrest) hsome
        rw [hheld', ← hz]
        exact List.cons_ne_nil _ _
      · rw [hrest]
        simp
    · -- its first packet is whole
      obtain ⟨bytes', hbytes'⟩ := List.prefix_of_prefix_length_le (List.prefix_append q _) hzone
        (Nat.not_lt.mp hshort)
      obtain ⟨r, hr, hpacket, hdrop⟩ := PacketBuffer.append_whole PacketBuffer.ok_empty hp
        hbytes'.symm
      have htail : bytes' <+: packets.flatten := by
        rw [← hbytes'] at hzone
        exact (List.prefix_append_right_inj q).mp hzone
      obtain ⟨pending, done, current, next, rest, hsplit, hread, hholding, hflat⟩ :=
        ih (fun q' hq' => hvalid q' (List.mem_cons_of_mem _ hq')) htail
      refine ⟨pending, q :: done, current, next, rest, ?_, ?_, hholding, ?_⟩
      · rw [hsplit]
        rfl
      · rw [readPackets, if_neg hne]
        split
        · next hnone => rw [hr] at hnone; cases hnone
        · next r' hr' =>
          rw [hr] at hr'
          cases hr'
          split
          · next hnone => rw [hpacket] at hnone; cases hnone
          · next packet hp' =>
            rw [hpacket] at hp'
            cases hp'
            rw [hdrop, hread, List.filterMap_cons_some hp]
      · rw [← hbytes', List.append_assoc, hflat]
        rfl

/-! ## Where a channel stands -/

/-- `sent` is the part of the byte stream already received: the packets `done`
    and what is held of the current one. -/
structure At (packets done : List (List UInt8)) (sent : List UInt8)
    (pending : Option PacketBuffer) (rest : List UInt8) (current next : List (List UInt8)) :
    Prop where
  packets : packets = done ++ current ++ next
  holding : Holding pending rest current
  sent : sent ++ rest = (done ++ current).flatten

theorem packetStarts_append (xs ys : List (List UInt8)) (o : Nat) :
    packetStarts (xs ++ ys) o = packetStarts xs o ++ packetStarts ys (o + xs.flatten.length) := by
  induction xs generalizing o with
  | nil => rfl
  | cons q xs ih =>
    rw [List.cons_append, packetStarts, ih, packetStarts, List.cons_append, List.flatten_cons,
      List.length_append, Nat.add_assoc]

theorem le_of_mem_packetStarts {xs : List (List UInt8)} {o s : Nat} (h : s ∈ packetStarts xs o) :
    o ≤ s := by
  induction xs generalizing o with
  | nil => cases h
  | cons q xs ih =>
    obtain hfirst | hlater := List.mem_cons.mp h
    · exact hfirst.ge
    · exact (Nat.le_add_right _ _).trans (ih hlater)

theorem lt_of_mem_packetStarts {xs : List (List UInt8)} {o s : Nat}
    (hne : ∀ q ∈ xs, q ≠ []) (h : s ∈ packetStarts xs o) : s < o + xs.flatten.length := by
  induction xs generalizing o with
  | nil => cases h
  | cons q xs ih =>
    have hq := List.length_pos_of_ne_nil (hne q List.mem_cons_self)
    rw [List.flatten_cons, List.length_append]
    obtain hfirst | hlater := List.mem_cons.mp h
    · omega
    · have := ih (fun q' hq' => hne q' (List.mem_cons_of_mem _ hq')) hlater
      omega

theorem ne_nil_of_valid {q : List UInt8} (h : (SpacePacket.ofBytes q).isSome) : q ≠ [] := by
  intro hnil
  rw [hnil] at h
  cases h

/-- The first packet start in the next zone is after the rest of the current
    packet, if there are packets to come and the zone is long enough. -/
theorem At.firstStart {packets done current next : List (List UInt8)} {sent rest : List UInt8}
    {pending : Option PacketBuffer} (h : At packets done sent pending rest current next)
    (hvalid : ∀ q ∈ packets, (SpacePacket.ofBytes q).isSome) (length : Nat) :
    firstStart packets sent.length length =
      if next ≠ [] ∧ rest.length < length then some (sent.length + rest.length) else none := by
  have hflat := congrArg List.length h.sent
  rw [List.length_append] at hflat
  -- the packets that have started began before this zone
  have hbefore : (packetStarts (done ++ current) 0).find?
      (fun s => decide (sent.length ≤ s ∧ s < sent.length + length)) = none := by
    rw [List.find?_eq_none]
    intro s hs
    rw [decide_eq_true_eq]
    intro ⟨hge, _⟩
    rw [packetStarts_append] at hs
    have hdone : ∀ q ∈ done, q ≠ [] := by
      intro q hq
      apply ne_nil_of_valid (hvalid q _)
      rw [h.packets]
      exact List.mem_append_left _ (List.mem_append_left _ hq)
    match h.holding with
    | .nothing =>
      have hlt : s < 0 + done.flatten.length := by
        rw [packetStarts, List.append_nil] at hs
        exact lt_of_mem_packetStarts hdone hs
      rw [List.append_nil, List.length_nil] at hflat
      omega
    | .packet (b := b) (q := q) _ hne _ hq _ =>
      have hheld := List.length_pos_of_ne_nil hne
      have hlength := congrArg List.length hq
      rw [List.length_append] at hlength
      rw [List.flatten_append, List.flatten_singleton, List.length_append] at hflat
      obtain hold | hcurrent := List.mem_append.mp hs
      · have hlt := lt_of_mem_packetStarts hdone hold
        omega
      · rw [packetStarts, packetStarts, List.mem_singleton] at hcurrent
        omega
  unfold Lrpt.firstStart
  rw [h.packets, packetStarts_append, List.find?_append, hbefore, Option.none_or, Nat.zero_add,
    ← hflat]
  match next with
  | [] =>
    rw [if_neg (by simp)]
    rfl
  | q :: qs =>
    by_cases hlong : rest.length < length
    · rw [if_pos ⟨List.cons_ne_nil q qs, hlong⟩, packetStarts, List.find?_cons_of_pos]
      rw [decide_eq_true_eq]
      omega
    · rw [if_neg fun hand => hlong hand.2, List.find?_eq_none]
      intro s hs
      rw [decide_eq_true_eq]
      have := le_of_mem_packetStarts hs
      omega

/-- The bytes of the stream that are still to be sent. -/
theorem At.remaining {packets done current next : List (List UInt8)} {sent rest : List UInt8}
    {pending : Option PacketBuffer} (h : At packets done sent pending rest current next) :
    packets.flatten.drop sent.length = rest ++ next.flatten := by
  rw [h.packets, List.flatten_append, ← h.sent, List.append_assoc, List.drop_left]

/-- When everything has been sent, everything is done. -/
theorem At.finished {packets done current next : List (List UInt8)} {sent rest : List UInt8}
    {pending : Option PacketBuffer} (h : At packets done sent pending rest current next)
    (hvalid : ∀ q ∈ packets, (SpacePacket.ofBytes q).isSome)
    (hlength : sent.length = packets.flatten.length) : done = packets := by
  have hremaining := h.remaining
  rw [hlength, List.drop_length] at hremaining
  obtain ⟨hrest, hnext⟩ := List.append_eq_nil_iff.mp hremaining.symm
  have hnext' : next = [] := by
    match hn : next with
    | [] => rfl
    | q :: qs =>
      rw [List.flatten_cons, List.append_eq_nil_iff] at hnext
      have hq : (SpacePacket.ofBytes q).isSome := by
        apply hvalid
        rw [h.packets]
        exact List.mem_append_right _ List.mem_cons_self
      exact absurd hnext.1 (ne_nil_of_valid hq)
  have hcurrent : current = [] := by
    match h.holding with
    | .nothing => rfl
    | .packet _ _ hne _ _ => exact absurd hrest hne
  rw [h.packets, hnext', hcurrent, List.append_nil, List.append_nil]

/-! ## One frame -/

/-- The counter a channel is waiting for, if it waits for one, is number `i`. -/
def Expects (c : VcidContext) (i : Nat) : Prop :=
  ∀ e, c.expectedFrameCounter = some e → e = UInt32.ofNat (i % 2 ^ 24)

theorem Expects.check {c : VcidContext} {i : Nat} (h : Expects c i) :
    c.expectedFrameCounter.any (· != UInt32.ofNat (i % 2 ^ 24)) = false := by
  match he : c.expectedFrameCounter with
  | none => rfl
  | some e =>
    rw [h e he]
    simp

theorem counter_succ (i : Nat) :
    (UInt32.ofNat (i % 2 ^ 24) + 1) &&& 0xFFFFFF = UInt32.ofNat ((i + 1) % 2 ^ 24) := by
  apply UInt32.toNat_inj.mp
  rw [counter_next, UInt32.toNat_ofNat', UInt32.toNat_ofNat']
  omega

theorem receive_expected (c : VcidContext) (m : Mpdu) (counter : UInt32) :
    (c.receive m.payload m.firstHeaderPointer counter).1.expectedFrameCounter =
      some ((counter + 1) &&& 0xFFFFFF) := by
  unfold VcidContext.receive
  dsimp only
  split
  · rfl
  split
  · rfl
  split
  · rfl
  · rfl

theorem expects_next (c : VcidContext) (m : Mpdu) (i : Nat) :
    Expects (c.receive m.payload m.firstHeaderPointer (UInt32.ofNat (i % 2 ^ 24))).1 (i + 1) := by
  intro e he
  rw [receive_expected, counter_succ] at he
  exact (Option.some.inj he).symm

/-- An idle zone leaves the channel where it is. -/
theorem receive_idle {c : VcidContext} {i : Nat} (h : Expects c i) (filler : List UInt8) :
    (c.receive filler IDLE_ONLY (UInt32.ofNat (i % 2 ^ 24))).1.pending = c.pending ∧
      (c.receive filler IDLE_ONLY (UInt32.ofNat (i % 2 ^ 24))).2 = [] := by
  unfold VcidContext.receive
  rw [h.check]
  exact ⟨rfl, rfl⟩

/-- A zone completes the packets that end in it. -/
theorem At.receive {packets done current next : List (List UInt8)} {sent rest : List UInt8}
    {c : VcidContext} (h : At packets done sent c.pending rest current next)
    (hvalid : ∀ q ∈ packets, (SpacePacket.ofBytes q).isSome) {i : Nat} (hi : Expects c i) {m : Mpdu}
    (hzone : m.payload <+: packets.flatten.drop sent.length)
    (hpointer : PointsTo packets sent.length m) :
    ∃ done' current' next' rest',
      At packets done' (sent ++ m.payload)
        (c.receive m.payload m.firstHeaderPointer (UInt32.ofNat (i % 2 ^ 24))).1.pending
        rest' current' next' ∧
      done.filterMap SpacePacket.ofBytes ++
        (c.receive m.payload m.firstHeaderPointer (UInt32.ofNat (i % 2 ^ 24))).2 =
        done'.filterMap SpacePacket.ofBytes := by
  have hcheck := hi.check
  unfold PointsTo at hpointer
  rw [h.firstStart hvalid] at hpointer
  rw [h.remaining] at hzone
  unfold VcidContext.receive
  rw [hcheck]
  by_cases hstart : next ≠ [] ∧ rest.length < m.payload.length
  · -- a packet starts in the zone, right after the rest of the current one
    rw [if_pos hstart] at hpointer
    obtain ⟨hoffset, hnone, hidle⟩ := hpointer
    rw [Nat.add_sub_cancel_left] at hoffset
    obtain ⟨body, hbody⟩ := List.prefix_of_prefix_length_le (List.prefix_append rest _) hzone
      hstart.2.le
    have hnext : body <+: next.flatten := by
      rw [← hbody] at hzone
      exact (List.prefix_append_right_inj rest).mp hzone
    have hnextvalid : ∀ q ∈ next, (SpacePacket.ofBytes q).isSome := by
      intro q hq
      apply hvalid
      rw [h.packets]
      exact List.mem_append_right _ hq
    obtain ⟨pending', done', current', next', rest', hsplit, hread, hholding, hflat⟩ :=
      readPackets_holding next hnextvalid hnext
    have htake : m.payload.take m.firstHeaderPointer.toNat = rest := by
      rw [hoffset, ← hbody, List.take_left]
    have hdrop : m.payload.drop m.firstHeaderPointer.toNat = body := by
      rw [hoffset, ← hbody, List.drop_left]
    have hfits : ¬ m.payload.length < m.firstHeaderPointer.toNat := by omega
    dsimp only
    rw [if_neg hidle, if_neg hnone, if_neg hfits, htake, hdrop]
    simp only [Bool.false_eq_true, if_false]
    rw [h.holding.finish, hread]
    refine ⟨done ++ current ++ done', current', next', rest', ⟨?_, hholding, ?_⟩, ?_⟩
    · rw [h.packets, hsplit]
      simp only [List.append_assoc]
    · rw [← hbody, List.append_assoc, List.append_assoc, hflat, ← List.append_assoc, h.sent,
        ← List.flatten_append]
      simp only [List.append_assoc]
    · simp only [List.filterMap_append, List.append_assoc]
  · -- the whole zone belongs to the current packet
    rw [if_neg hstart] at hpointer
    have hinside : m.payload <+: rest := by
      by_cases hnext : next = []
      · rw [hnext, List.flatten_nil, List.append_nil] at hzone
        exact hzone
      · have hlength : m.payload.length ≤ rest.length :=
          Nat.not_lt.mp fun hlt => hstart ⟨hnext, hlt⟩
        exact List.prefix_of_prefix_length_le hzone (List.prefix_append rest _) hlength
    obtain ⟨rest', hrest'⟩ := hinside
    have hnot : m.firstHeaderPointer ≠ IDLE_ONLY := by
      rw [hpointer]
      decide
    dsimp only
    rw [if_neg hnot, if_pos hpointer]
    simp only [Bool.false_eq_true, if_false]
    have hholding := h.holding
    by_cases hend : rest' = []
    · rw [hend, List.append_nil] at hrest'
      rw [hrest', hholding.finish]
      refine ⟨done ++ current, [], next, [], ⟨?_, .nothing, ?_⟩, ?_⟩
      · rw [h.packets, List.append_nil]
      · rw [List.append_nil, List.append_nil, h.sent]
      · rw [List.filterMap_append]
    · rw [← hrest'] at hholding
      obtain ⟨pending', hcontinue, hholding'⟩ := hholding.extend hend
      rw [hcontinue]
      refine ⟨done, current, next, rest', ⟨h.packets, hholding', ?_⟩, ?_⟩
      · rw [List.append_assoc, hrest', h.sent]
      · exact List.append_nil _

/-! ## One channel -/

/-- The packets a channel completes while it receives frames. -/
def VcidContext.receiveAll (c : VcidContext) : List Frame → List SpacePacket
  | [] => []
  | f :: fs =>
    (c.receive f.payload f.firstHeaderPointer f.frameCounter).2 ++
      receiveAll (c.receive f.payload f.firstHeaderPointer f.frameCounter).1 fs

/-- **A channel gives back its packets**, by induction on the zones. -/
theorem receiveAll_carries {packets : List (List UInt8)}
    (hvalid : ∀ q ∈ packets, (SpacePacket.ofBytes q).isSome) {a v : Nat} {ms : List Mpdu}
    (hcarries : Carries packets a ms) :
    ∀ {c : VcidContext} {i : Nat} {done current next : List (List UInt8)} {sent rest : List UInt8},
      At packets done sent c.pending rest current next → sent.length = a → Expects c i →
      done.filterMap SpacePacket.ofBytes ++ c.receiveAll (numbered v i ms) =
        packets.filterMap SpacePacket.ofBytes := by
  induction hcarries with
  | done =>
    intro c i done current next sent rest hat hsent _
    rw [hat.finished hvalid hsent]
    exact List.append_nil _
  | @idle a ms filler _ ih =>
    intro c i done current next sent rest hat hsent hi
    obtain ⟨hpending, hnone⟩ := receive_idle hi filler
    rw [← hpending] at hat
    have hrest := ih hat hsent (expects_next c ⟨filler, IDLE_ONLY⟩ i)
    show _ ++ (_ ++ _) = _
    rw [hnone, List.nil_append]
    exact hrest
  | @data a ms m hzone hpointer _ ih =>
    intro c i done current next sent rest hat hsent hi
    subst hsent
    obtain ⟨done', current', next', rest', hat', hout⟩ := hat.receive hvalid hi hzone hpointer
    have hrest := ih hat' List.length_append (expects_next c m i)
    show _ ++ (_ ++ _) = _
    rw [← List.append_assoc, hout]
    exact hrest

/-! ## All channels -/

namespace PacketReassembler

/-- What a run emits for a channel is what the channel completes, without the
    idle packets. -/
theorem emissions_receiveAll {v : Nat} (hv : v < MAX_VIRTUAL_CHANNELS) (calls : List Call) :
    ∀ {s : PacketReassembler}, ((s.emissions calls).filter (fun e => e.1 = v)).map Prod.snd =
      ((s.context v).receiveAll (framesOf v calls)).filter fun p => p.apid ≠ IDLE_APID := by
  induction calls with
  | nil =>
    intro s
    rfl
  | cons call calls ih =>
    intro s
    match call with
    | .drain => exact ih
    | .push f =>
      have hcontext := context_push s f v
      show (((s.emitted f).map (f.vcid, ·) ++ (s.pushMpduPayload f).emissions calls).filter _).map _ = _
      rw [List.filter_append, List.map_append, ih, hcontext]
      -- a frame of the channel is received by its context, any other leaves it alone
      by_cases hf : f.vcid = v
      · have hframes : framesOf v (.push f :: calls) = f :: framesOf v calls :=
          List.filterMap_cons_some (if_pos hf)
        have hsmall : ¬ f.vcid ≥ MAX_VIRTUAL_CHANNELS := by omega
        have hemitted : s.emitted f = ((s.context v).receive f.payload f.firstHeaderPointer
            f.frameCounter).2.filter fun p => p.apid ≠ IDLE_APID := by
          unfold emitted
          rw [if_neg hsmall, hf]
        have hall : ((s.emitted f).map (f.vcid, ·)).filter (fun e => e.1 = v) =
            (s.emitted f).map (f.vcid, ·) := by
          rw [List.filter_eq_self]
          intro e he
          obtain ⟨p, -, rfl⟩ := List.mem_map.mp he
          exact decide_eq_true hf
        have hsnd : (Prod.snd ∘ fun p : SpacePacket => (f.vcid, p)) = id := rfl
        rw [if_pos ⟨hf, hv⟩, hframes, VcidContext.receiveAll, List.filter_append, ← hemitted,
          hall, List.map_map, hsnd, List.map_id]
      · have hframes : framesOf v (.push f :: calls) = framesOf v calls :=
          List.filterMap_cons_none (if_neg hf)
        have hnone : ((s.emitted f).map (f.vcid, ·)).filter (fun e => e.1 = v) = [] := by
          rw [List.filter_eq_nil_iff]
          intro e he
          obtain ⟨p, -, rfl⟩ := List.mem_map.mp he
          simpa using hf
        rw [if_neg fun h => hf h.1, hframes, hnone]
        rfl

theorem lt_of_mem_emissions (calls : List Call) :
    ∀ {s : PacketReassembler}, ∀ e ∈ s.emissions calls, e.1 < MAX_VIRTUAL_CHANNELS := by
  induction calls with
  | nil =>
    intro s e he
    cases he
  | cons call calls ih =>
    intro s e he
    match call with
    | .drain => exact ih e he
    | .push f =>
      obtain hnow | hlater := List.mem_append.mp he
      · obtain ⟨p, hp, rfl⟩ := List.mem_map.mp hnow
        unfold emitted at hp
        split at hp
        · cases hp
        · next hsmall => exact Nat.not_le.mp hsmall
      · exact ih e hlater

/-- A run whose queue never reaches its limit loses nothing: what was drained
    and what is left is what was emitted. -/
theorem run_output (calls : List Call) :
    ∀ {s : PacketReassembler}, s.completed.length ≤ MAX_COMPLETED_PACKETS →
      (∀ early, early <+: calls → (s.run early).1.completed.length < MAX_COMPLETED_PACKETS) →
      (s.run calls).2 ++ (s.run calls).1.completed =
        s.completed ++ (s.emissions calls).map Prod.snd := by
  induction calls with
  | nil =>
    intro s _ _
    exact (List.append_nil _).symm
  | cons call calls ih =>
    intro s hs hroom
    match call with
    | .drain =>
      have hrest := ih (s := s.drainCompleted.1) (Nat.zero_le _) fun early hearly =>
        hroom (.drain :: early) ((List.prefix_append_right_inj [Call.drain]).mpr hearly)
      show (s.completed ++ (s.drainCompleted.1.run calls).2) ++
        (s.drainCompleted.1.run calls).1.completed = _
      rw [List.append_assoc, hrest]
      rfl
    | .push f =>
      have hpush := completed_push hs f
      have hshort : (s.pushMpduPayload f).completed.length < MAX_COMPLETED_PACKETS :=
        hroom [.push f] ⟨calls, rfl⟩
      -- nothing is dropped by this frame
      have hkept : (s.pushMpduPayload f).completed = s.completed ++ s.emitted f := by
        rw [hpush, List.rtake, List.length_drop] at hshort
        rw [hpush, List.rtake, Nat.sub_eq_zero_of_le (by omega), List.drop_zero]
      have hrest := ih (s := s.pushMpduPayload f) (completed_length_push hs f) fun early hearly =>
        hroom (.push f :: early) ((List.prefix_append_right_inj [Call.push f]).mpr hearly)
      have hsnd : (Prod.snd ∘ fun p : SpacePacket => (f.vcid, p)) = id := rfl
      show ((s.pushMpduPayload f).run calls).2 ++ ((s.pushMpduPayload f).run calls).1.completed =
        s.completed ++ ((s.emitted f).map (f.vcid, ·) ++ (s.pushMpduPayload f).emissions calls).map _
      rw [hrest, hkept, List.map_append, List.map_map, hsnd, List.map_id, List.append_assoc]

end PacketReassembler

/-- **The round trip.** Whatever the channels, their packets, the cuts into
    zones, the idle zones and the interleaving are, and as long as the queue
    stays below its limit, the packets that come out (drained or still in the
    queue) can be attributed to the channels such that every channel gets
    exactly the packets sent on it that are not idle, in order. -/
theorem demultiplexer_roundTrip (channels : Nat → Channel) (calls : List Call)
    (hsent : Sent channels calls)
    (hroom : ∀ early, early <+: calls →
      (PacketReassembler.new.run early).1.completed.length < MAX_COMPLETED_PACKETS) :
    ∃ attributed : List (Nat × SpacePacket),
      attributed.map Prod.snd =
        (PacketReassembler.new.run calls).2 ++ (PacketReassembler.new.run calls).1.completed ∧
      ∀ v, (attributed.filter (fun e => e.1 = v)).map Prod.snd =
        ((channels v).packets.filterMap SpacePacket.ofBytes).filter fun p => p.apid ≠ IDLE_APID := by
  refine ⟨PacketReassembler.new.emissions calls, ?_, ?_⟩
  · exact (PacketReassembler.run_output calls (Nat.zero_le _) hroom).symm
  intro v
  by_cases hv : v < MAX_VIRTUAL_CHANNELS
  · rw [PacketReassembler.emissions_receiveAll hv, hsent.frames v]
    have hstart : At (channels v).packets [] [] VcidContext.new.pending [] [] (channels v).packets :=
      ⟨rfl, .nothing, rfl⟩
    have hall := receiveAll_carries (v := v) (i := (channels v).first) (hsent.packets v)
      (hsent.carried v) hstart rfl nofun
    rw [← hall]
    rfl
  · -- there are no such channels
    have hnone : (PacketReassembler.new.emissions calls).filter (fun e => e.1 = v) = [] := by
      rw [List.filter_eq_nil_iff]
      intro e he
      have := PacketReassembler.lt_of_mem_emissions calls e he
      rw [decide_eq_true_eq]
      omega
    rw [hsent.ids v (Nat.not_lt.mp hv), hnone]
    rfl

/-- A packet of APID 64 with one byte of data. -/
def shortPacket (b : UInt8) : List UInt8 := [0, 64, 0xC0, 1, 0, 0, b]

/-- One packet on channel 1, cut after three bytes with an idle zone between
    and its counter wrapping, and two packets in one zone on channel 2. -/
def exampleChannels (v : Nat) : Channel :=
  if v = 1 then ⟨[shortPacket 7],
    [⟨[0, 64, 0xC0], 0⟩, ⟨[0xFF], IDLE_ONLY⟩, ⟨[1, 0, 0, 7], NO_PACKET_START⟩], 2 ^ 24 - 2⟩
  else if v = 2 then ⟨[shortPacket 8, shortPacket 9], [⟨shortPacket 8 ++ shortPacket 9, 0⟩], 5⟩
  else ⟨[], [], 0⟩

def exampleCalls : List Call :=
  [.push ⟨[0, 64, 0xC0], 0, 1, 0xFFFFFE⟩, .push ⟨shortPacket 8 ++ shortPacket 9, 0, 2, 5⟩,
    .push ⟨[0xFF], IDLE_ONLY, 1, 0xFFFFFF⟩, .drain, .push ⟨[1, 0, 0, 7], NO_PACKET_START, 1, 0⟩]

theorem exampleSent : Sent exampleChannels exampleCalls where
  packets := by
    intro v
    unfold exampleChannels
    split
    · decide
    split
    · decide
    · nofun
  carried := by
    intro v
    unfold exampleChannels
    split
    · exact .data _ (by decide) (by decide) (.idle [0xFF] (.data _ (by decide) (by decide) .done))
    split
    · exact .data _ (by decide) (by decide) .done
    · exact .done
  frames := by
    intro v
    unfold exampleChannels
    split
    · next h => subst h; decide
    split
    · next h => subst h; decide
    · next h1 h2 => simp [exampleCalls, framesOf, numbered, Ne.symm h1, Ne.symm h2]
  ids := by
    intro v hv
    have hlarge : 64 ≤ v := hv
    unfold exampleChannels
    rw [if_neg (by omega), if_neg (by omega)]

theorem exampleRoom : ∀ early, early <+: exampleCalls →
    (PacketReassembler.new.run early).1.completed.length < MAX_COMPLETED_PACKETS := by
  intro early hearly
  have hmem : early ∈ exampleCalls.inits := (List.mem_inits early exampleCalls).mpr hearly
  have hall : ∀ calls ∈ exampleCalls.inits,
      (PacketReassembler.new.run calls).1.completed.length < MAX_COMPLETED_PACKETS := by
    decide +kernel
  exact hall early hmem

theorem demultiplexer_roundTrip_example :
    ∃ attributed : List (Nat × SpacePacket),
      attributed.map Prod.snd =
        (PacketReassembler.new.run exampleCalls).2 ++
          (PacketReassembler.new.run exampleCalls).1.completed ∧
      ∀ v, (attributed.filter (fun e => e.1 = v)).map Prod.snd =
        ((exampleChannels v).packets.filterMap SpacePacket.ofBytes).filter
          fun p => p.apid ≠ IDLE_APID :=
  demultiplexer_roundTrip exampleChannels exampleCalls exampleSent exampleRoom

end Lrpt
