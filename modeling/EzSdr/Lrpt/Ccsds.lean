import EzSdr.Framework.BTreeMap

/-! # The CCSDS Demultiplexer

    A transport frame carries one packet zone of a virtual channel. The zone
    is a piece of the channel's byte stream; its first header pointer says
    where the first packet header in it starts, or that there is none, or
    that the whole zone is idle. `PacketReassembler` cuts the zones of every
    channel back into space packets.

    The part of `push_mpdu_payload` that works on the context of one channel
    is `VcidContext.receive`; it returns the packets that the code hands to
    `complete`.
-/

namespace Lrpt

/-! ## Headers -/

def NO_PACKET_START : UInt16 := 0x7FF
def IDLE_ONLY : UInt16 := 0x7FE
def SPACE_PACKET_HEADER_LEN : Nat := 6
def MAX_VIRTUAL_CHANNELS : Nat := 64
def MAX_COMPLETED_PACKETS : Nat := 4096
/-- The APID of idle packets. -/
def IDLE_APID : UInt16 := 0x7FF

structure SpacePacketHeader where
  version : UInt8
  packetType : UInt8
  secondaryHeaderFlag : Bool
  apid : UInt16
  sequenceFlags : UInt8
  sequenceCount : UInt16
  packetDataLength : UInt16
deriving DecidableEq, Repr

def SpacePacketHeader.totalLen (h : SpacePacketHeader) : Nat :=
  SPACE_PACKET_HEADER_LEN + h.packetDataLength.toNat + 1

/-- A big-endian word. -/
def word (hi lo : UInt8) : UInt16 :=
  (hi.toUInt16 <<< 8) ||| lo.toUInt16

def parseSpacePacketHeader : List UInt8 → Option SpacePacketHeader
  | b0 :: b1 :: b2 :: b3 :: b4 :: b5 :: _ =>
    let word0 := word b0 b1
    let word1 := word b2 b3
    some {
      version := ((word0 >>> 13) &&& 0b111).toUInt8
      packetType := ((word0 >>> 12) &&& 0b1).toUInt8
      secondaryHeaderFlag := (word0 >>> 11) &&& 0b1 != 0
      apid := word0 &&& 0x07FF
      sequenceFlags := ((word1 >>> 14) &&& 0b11).toUInt8
      sequenceCount := word1 &&& 0x3FFF
      packetDataLength := word b4 b5 }
  | _ => none

/-- A reassembled packet; `data` is everything after the primary header. -/
structure SpacePacket where
  apid : UInt16
  header : SpacePacketHeader
  data : List UInt8
deriving DecidableEq, Repr

/-! ## One packet in progress -/

structure PacketBuffer where
  bytes : List UInt8
  header : Option SpacePacketHeader
deriving DecidableEq, Repr

/-- What `append` did: the buffer after it, the bytes consumed and the packet
    it completed. -/
structure Appended where
  buffer : PacketBuffer
  consumed : Nat
  packet : Option SpacePacket

namespace PacketBuffer

def empty : PacketBuffer := ⟨[], none⟩

/-- Add bytes to a buffer whose header is known. -/
def appendBody (header : SpacePacketHeader) (held : List UInt8) (bytes : List UInt8)
    (consumed : Nat) : Appended :=
  let take := min (header.totalLen - held.length) (bytes.length - consumed)
  let held' := held ++ (bytes.drop consumed).take take
  ⟨⟨held', some header⟩, consumed + take,
    if held'.length = header.totalLen then
      some ⟨header.apid, header, held'.drop SPACE_PACKET_HEADER_LEN⟩
    else none⟩

/-- Consume the rest of this packet only; `none` gives the packet up. -/
def append (b : PacketBuffer) (bytes : List UInt8) : Option Appended :=
  match b.header with
  | some header => some (appendBody header b.bytes bytes 0)
  | none =>
    let consumed := min bytes.length (SPACE_PACKET_HEADER_LEN - b.bytes.length)
    let held := b.bytes ++ bytes.take consumed
    if held.length < SPACE_PACKET_HEADER_LEN then some ⟨⟨held, none⟩, consumed, none⟩
    else
      match parseSpacePacketHeader held with
      | none => none
      | some header =>
        if header.version ≠ 0 then none
        else some (appendBody header held bytes consumed)

/-- A packet completed from an empty buffer has used up some bytes. -/
theorem append_empty_consumed {bytes : List UInt8} {r : Appended} {p : SpacePacket}
    (h : empty.append bytes = some r) (hp : r.packet = some p) :
    0 < r.consumed ∧ bytes ≠ [] := by
  have hheader : SPACE_PACKET_HEADER_LEN = 6 := rfl
  match bytes with
  | [] =>
    have hr : r = ⟨⟨[], none⟩, 0, none⟩ := (Option.some.inj h).symm
    rw [hr] at hp
    cases hp
  | b :: rest =>
    refine ⟨?_, List.cons_ne_nil b rest⟩
    unfold append empty at h
    dsimp only at h
    have hpos : 0 < min (b :: rest).length (SPACE_PACKET_HEADER_LEN - ([] : List UInt8).length) := by
      rw [List.length_cons, List.length_nil, hheader]
      omega
    split at h
    · cases h
      exact hpos
    · split at h
      · cases h
      · split at h
        · cases h
        · cases h
          exact Nat.lt_of_lt_of_le hpos (Nat.le_add_right _ _)

end PacketBuffer

/-! ## What `append` does -/

/-- The packet that a string of bytes is, if it is one of version 0. -/
def SpacePacket.ofBytes (bytes : List UInt8) : Option SpacePacket :=
  match parseSpacePacketHeader bytes with
  | none => none
  | some header =>
    if header.version = 0 ∧ bytes.length = header.totalLen then
      some ⟨header.apid, header, bytes.drop SPACE_PACKET_HEADER_LEN⟩
    else none

/-- A header is read from the first six bytes. -/
theorem parse_append {held : List UInt8} (more : List UInt8)
    (h : SPACE_PACKET_HEADER_LEN ≤ held.length) :
    parseSpacePacketHeader (held ++ more) = parseSpacePacketHeader held := by
  match held, h with
  | b0 :: b1 :: b2 :: b3 :: b4 :: b5 :: rest, _ => rfl

theorem parse_length {held : List UInt8} {header : SpacePacketHeader}
    (h : parseSpacePacketHeader held = some header) : SPACE_PACKET_HEADER_LEN ≤ held.length := by
  match held, h with
  | b0 :: b1 :: b2 :: b3 :: b4 :: b5 :: rest, _ => simp [SPACE_PACKET_HEADER_LEN]

theorem SpacePacket.ofBytes_eq_some {bytes : List UInt8} {p : SpacePacket}
    (h : SpacePacket.ofBytes bytes = some p) : ∃ header,
      parseSpacePacketHeader bytes = some header ∧ header.version = 0 ∧
      bytes.length = header.totalLen ∧
      p = ⟨header.apid, header, bytes.drop SPACE_PACKET_HEADER_LEN⟩ := by
  unfold SpacePacket.ofBytes at h
  split at h
  · cases h
  · next header hparse =>
    split at h
    · next hgood => exact ⟨header, hparse, hgood.1, hgood.2, (Option.some.inj h).symm⟩
    · cases h

namespace PacketBuffer

/-- A buffer holds an unfinished packet: less than a header, or a header and
    less than the packet it announces. -/
structure Ok (b : PacketBuffer) : Prop where
  short : b.header = none → b.bytes.length < SPACE_PACKET_HEADER_LEN
  known : ∀ header, b.header = some header → parseSpacePacketHeader b.bytes = some header ∧
    header.version = 0 ∧ b.bytes.length < header.totalLen

theorem ok_empty : empty.Ok where
  short := fun _ => by decide
  known := by intro header h; cases h

/-- The bytes of an unfinished packet go on into the buffer; the buffer takes
    all there is unless the packet is complete. -/
structure Took (b : PacketBuffer) (bytes : List UInt8) (r : Appended) : Prop where
  consumed : r.consumed ≤ bytes.length
  held : r.buffer.bytes = b.bytes ++ bytes.take r.consumed
  unfinished : r.packet = none → r.consumed = bytes.length ∧ r.buffer.Ok
  finished : ∀ p, r.packet = some p → SpacePacket.ofBytes r.buffer.bytes = some p

theorem appendBody_took {b : PacketBuffer} {header : SpacePacketHeader} {bytes : List UInt8}
    {consumed : Nat} (hconsumed : consumed ≤ bytes.length)
    (hparse : parseSpacePacketHeader (b.bytes ++ bytes.take consumed) = some header)
    (hversion : header.version = 0)
    (hshort : (b.bytes ++ bytes.take consumed).length < header.totalLen) :
    b.Took bytes (appendBody header (b.bytes ++ bytes.take consumed) bytes consumed) := by
  generalize hheld : b.bytes ++ bytes.take consumed = held at hparse hshort
  generalize htake : min (header.totalLen - held.length) (bytes.length - consumed) = take
  have hle : consumed + take ≤ bytes.length := by omega
  -- the header is complete, so more bytes do not change it
  have hparse' := parse_append ((bytes.drop consumed).take take) (parse_length hparse)
  have hlength : (held ++ (bytes.drop consumed).take take).length = held.length + take := by
    rw [List.length_append, List.length_take, List.length_drop]
    omega
  have hbody : appendBody header held bytes consumed =
      ⟨⟨held ++ (bytes.drop consumed).take take, some header⟩, consumed + take,
        if (held ++ (bytes.drop consumed).take take).length = header.totalLen then
          some ⟨header.apid, header,
            (held ++ (bytes.drop consumed).take take).drop SPACE_PACKET_HEADER_LEN⟩
        else none⟩ := by
    unfold appendBody
    rw [htake]
  rw [hbody]
  refine ⟨hle, ?_, ?_, ?_⟩
  · show held ++ (bytes.drop consumed).take take = b.bytes ++ bytes.take (consumed + take)
    rw [← hheld, List.append_assoc, ← List.take_add]
  · intro hnone
    have hunfinished : (held ++ (bytes.drop consumed).take take).length ≠ header.totalLen := by
      intro heq
      rw [if_pos heq] at hnone
      cases hnone
    refine ⟨by show consumed + take = bytes.length; omega, ?_, ?_⟩
    · intro hcontra
      cases hcontra
    · intro header' heq
      cases heq
      have hstrict : (held ++ (bytes.drop consumed).take take).length < header.totalLen := by omega
      exact ⟨hparse'.trans hparse, hversion, hstrict⟩
  · intro p hp
    dsimp only at hp ⊢
    split at hp
    · next hfull =>
      unfold SpacePacket.ofBytes
      rw [hparse', hparse]
      dsimp only
      rw [if_pos ⟨hversion, hfull⟩]
      exact hp
    · cases hp

/-- **Spec of `append`.** -/
theorem append_took {b : PacketBuffer} (hb : b.Ok) {bytes : List UInt8} {r : Appended}
    (h : b.append bytes = some r) : b.Took bytes r := by
  have hlen : SPACE_PACKET_HEADER_LEN = 6 := rfl
  unfold append at h
  split at h
  · next header hheader =>
    obtain ⟨hparse, hversion, hshort⟩ := hb.known header hheader
    rw [← Option.some.inj h]
    have htook := @appendBody_took b header bytes 0 (Nat.zero_le _)
      (by rw [List.take_zero, List.append_nil]; exact hparse) hversion
      (by rw [List.take_zero, List.append_nil]; exact hshort)
    rw [List.take_zero, List.append_nil] at htook
    exact htook
  · next hheader =>
    have hheld := hb.short hheader
    dsimp only at h
    generalize hconsumed : min bytes.length (SPACE_PACKET_HEADER_LEN - b.bytes.length) = consumed at h
    have htake : (b.bytes ++ bytes.take consumed).length = b.bytes.length + consumed := by
      rw [List.length_append, List.length_take]
      omega
    split at h
    · next hpartial =>
      rw [← Option.some.inj h]
      refine ⟨by show consumed ≤ _; omega, rfl, ?_, ?_⟩
      · intro _
        exact ⟨by show consumed = _; omega, fun _ => hpartial, by intro _ hcontra; cases hcontra⟩
      · intro p hp
        cases hp
    · next hwhole =>
      split at h
      · cases h
      · next header hparse =>
        split at h
        · cases h
        · next hversion =>
          rw [← Option.some.inj h]
          refine appendBody_took (by omega) hparse (not_not.mp hversion) ?_
          unfold SpacePacketHeader.totalLen
          omega

/-- A packet of version 0 is never given up. -/
theorem append_isSome {b : PacketBuffer} {bytes q rest : List UInt8} {p : SpacePacket}
    (hq : SpacePacket.ofBytes q = some p)
    (hfront : b.bytes ++ bytes = q ++ rest ∨ b.bytes ++ bytes ++ rest = q) :
    ∃ r, b.append bytes = some r := by
  have hlen : SPACE_PACKET_HEADER_LEN = 6 := rfl
  obtain ⟨header, hparse, hversion, _, _⟩ := SpacePacket.ofBytes_eq_some hq
  have hparse' : ∀ held more, held ++ more = b.bytes ++ bytes →
      SPACE_PACKET_HEADER_LEN ≤ held.length → parseSpacePacketHeader held = some header := by
    intro held more hheld hlong
    rw [← parse_append more hlong, hheld]
    obtain hlonger | hshorter := hfront
    · rw [hlonger, parse_append rest (parse_length hparse), hparse]
    · have hlong' : SPACE_PACKET_HEADER_LEN ≤ (b.bytes ++ bytes).length := by
        rw [← hheld, List.length_append]
        omega
      rw [← parse_append rest hlong', hshorter, hparse]
  unfold append
  split
  · exact ⟨_, rfl⟩
  · dsimp only
    split
    · exact ⟨_, rfl⟩
    · next hwhole =>
      have hheader := hparse' (b.bytes ++ bytes.take
        (min bytes.length (SPACE_PACKET_HEADER_LEN - b.bytes.length))) _
        (by rw [List.append_assoc, List.take_append_drop]) (Nat.not_lt.mp hwhole)
      rw [hheader]
      dsimp only
      rw [if_neg (not_not.mpr hversion)]
      exact ⟨_, rfl⟩

end PacketBuffer

/-! ## One virtual channel -/

structure VcidContext where
  expectedFrameCounter : Option UInt32
  pending : Option PacketBuffer
deriving DecidableEq, Repr

def VcidContext.new : VcidContext := ⟨none, none⟩

/-- What the loop over the packets after the first header pointer does: the
    packet left pending and the packets completed. -/
def readPackets (bytes : List UInt8) : Option PacketBuffer × List SpacePacket :=
  if bytes.length = 0 then (none, [])
  else
    match _h : PacketBuffer.empty.append bytes with
    | none => (none, [])
    | some r =>
      match _hp : r.packet with
      | none => (some r.buffer, [])
      | some packet =>
        let (pending, packets) := readPackets (bytes.drop r.consumed)
        (pending, packet :: packets)
termination_by bytes.length
decreasing_by
  have := PacketBuffer.append_empty_consumed ‹_› ‹_›
  have hne := List.length_pos_of_ne_nil this.2
  rw [List.length_drop]
  omega

/-- Continue the pending packet with bytes before any new header. -/
def continuePending : Option PacketBuffer → List UInt8 → Option PacketBuffer × List SpacePacket
  | none, _ => (none, [])
  | some pending, bytes =>
    match pending.append bytes with
    | none => (none, [])
    | some r =>
      match r.packet with
      | some packet => (none, [packet])
      | none => (some r.buffer, [])

/-- The part of `push_mpdu_payload` on the context of the frame's channel. -/
def VcidContext.receive (context : VcidContext) (payload : List UInt8)
    (firstHeaderPointer : UInt16) (frameCounter : UInt32) : VcidContext × List SpacePacket :=
  let pending := if context.expectedFrameCounter.any (· != frameCounter) then none
    else context.pending
  let expected := some ((frameCounter + 1) &&& 0xFFFFFF)
  let pointer := firstHeaderPointer.toNat
  if firstHeaderPointer = IDLE_ONLY then (⟨expected, pending⟩, [])
  else if firstHeaderPointer = NO_PACKET_START then
    let (pending, packets) := continuePending pending payload
    (⟨expected, pending⟩, packets)
  else if payload.length < pointer then (⟨expected, none⟩, [])
  else
    -- a known header boundary supersedes any unfinished packet
    let (_, finished) := continuePending pending (payload.take pointer)
    let (pending, packets) := readPackets (payload.drop pointer)
    (⟨expected, pending⟩, finished ++ packets)

/-! ## The reassembler -/

structure PacketReassembler where
  vcidContexts : BTreeMap Nat VcidContext
  completed : List SpacePacket

/-- The arguments of one call of `push_mpdu_payload`. -/
structure Frame where
  payload : List UInt8
  firstHeaderPointer : UInt16
  vcid : Nat
  frameCounter : UInt32
deriving DecidableEq, Repr

namespace PacketReassembler

def new : PacketReassembler := ⟨BTreeMap.empty, []⟩

/-- Idle packets are dropped, and at its limit the queue drops its oldest. -/
def complete (completed : List SpacePacket) (packet : SpacePacket) : List SpacePacket :=
  if packet.apid = IDLE_APID then completed
  else if completed.length ≥ MAX_COMPLETED_PACKETS then completed.tail ++ [packet]
  else completed ++ [packet]

/-- The context of a channel, a new one at its first frame. -/
def context (s : PacketReassembler) (vcid : Nat) : VcidContext :=
  (s.vcidContexts.get? vcid).getD .new

def pushMpduPayload (s : PacketReassembler) (f : Frame) : PacketReassembler :=
  if f.vcid ≥ MAX_VIRTUAL_CHANNELS then s
  else
    let (context, packets) :=
      (s.context f.vcid).receive f.payload f.firstHeaderPointer f.frameCounter
    ⟨s.vcidContexts.insert f.vcid context, packets.foldl complete s.completed⟩

def drainCompleted (s : PacketReassembler) : PacketReassembler × List SpacePacket :=
  ({ s with completed := [] }, s.completed)

end PacketReassembler

/-! ## Runs -/

/-- What a user of the reassembler calls. -/
inductive Call
  | push (frame : Frame)
  | drain

namespace PacketReassembler

/-- Make calls in order; the state after them and everything drained. -/
def run (s : PacketReassembler) : List Call → PacketReassembler × List SpacePacket
  | [] => (s, [])
  | .push frame :: calls => run (s.pushMpduPayload frame) calls
  | .drain :: calls =>
    let (s', drained) := s.drainCompleted
    let (last, later) := run s' calls
    (last, drained ++ later)

/-- What a frame gets out of the reassembler: the packets it completes that
    are not idle. -/
def emitted (s : PacketReassembler) (f : Frame) : List SpacePacket :=
  if f.vcid ≥ MAX_VIRTUAL_CHANNELS then []
  else ((s.context f.vcid).receive f.payload f.firstHeaderPointer f.frameCounter).2.filter
    fun p => p.apid ≠ IDLE_APID

/-- The packets emitted in a run, each with the channel it came from. -/
def emissions (s : PacketReassembler) : List Call → List (Nat × SpacePacket)
  | [] => []
  | .push frame :: calls =>
    (s.emitted frame).map (frame.vcid, ·) ++ emissions (s.pushMpduPayload frame) calls
  | .drain :: calls => emissions s.drainCompleted.1 calls

@[simp] theorem context_new (v : Nat) : new.context v = .new := rfl

@[simp] theorem context_drain (s : PacketReassembler) (v : Nat) :
    s.drainCompleted.1.context v = s.context v := rfl

/-- A frame moves the context of its own channel only. -/
theorem context_push (s : PacketReassembler) (f : Frame) (v : Nat) :
    (s.pushMpduPayload f).context v =
      if f.vcid = v ∧ v < MAX_VIRTUAL_CHANNELS then
        ((s.context v).receive f.payload f.firstHeaderPointer f.frameCounter).1
      else s.context v := by
  unfold pushMpduPayload
  by_cases hlarge : f.vcid ≥ MAX_VIRTUAL_CHANNELS
  · have hnot : ¬ (f.vcid = v ∧ v < MAX_VIRTUAL_CHANNELS) := by
      intro ⟨hv, hsmall⟩
      omega
    rw [if_pos hlarge, if_neg hnot]
  · rw [if_neg hlarge]
    by_cases hv : f.vcid = v
    · subst hv
      rw [if_pos ⟨rfl, Nat.not_le.mp hlarge⟩]
      show ((s.vcidContexts.insert f.vcid _).get? f.vcid).getD .new = _
      rw [BTreeMap.get?_insert_self]
      rfl
    · have hnot : ¬ (f.vcid = v ∧ v < MAX_VIRTUAL_CHANNELS) := fun h => hv h.1
      rw [if_neg hnot]
      show ((s.vcidContexts.insert f.vcid _).get? v).getD .new = _
      rw [BTreeMap.get?_insert_ne _ (Ne.symm hv)]
      rfl

/-- What the queue keeps of a list of packets: those not idle, and of these
    the last ones up to its limit. -/
theorem foldl_complete {completed : List SpacePacket}
    (h : completed.length ≤ MAX_COMPLETED_PACKETS) (packets : List SpacePacket) :
    packets.foldl complete completed =
      (completed ++ packets.filter fun p => p.apid ≠ IDLE_APID).rtake MAX_COMPLETED_PACKETS := by
  induction packets using List.reverseRecOn with
  | nil =>
    rw [List.filter_nil, List.append_nil, List.foldl_nil, List.rtake, Nat.sub_eq_zero_of_le h,
      List.drop_zero]
  | append_singleton packets p ih =>
    rw [List.foldl_append, ih, List.foldl_cons, List.foldl_nil, List.filter_append,
      ← List.append_assoc]
    generalize completed ++ packets.filter _ = kept
    unfold complete
    by_cases hidle : p.apid = IDLE_APID
    · rw [if_pos hidle, List.filter_cons_of_neg (by simpa using hidle), List.filter_nil,
        List.append_nil]
    · rw [if_neg hidle, List.filter_cons_of_pos (by simpa using hidle), List.filter_nil]
      have hpos : 0 < MAX_COMPLETED_PACKETS := by decide
      generalize MAX_COMPLETED_PACKETS = limit at hpos
      unfold List.rtake
      by_cases hfull : kept.length ≥ limit
      · have hlength : (kept.drop (kept.length - limit)).length ≥ limit := by
          rw [List.length_drop]
          omega
        have hnext : (kept ++ [p]).length - limit = kept.length - limit + 1 := by
          rw [List.length_append, List.length_singleton]
          omega
        rw [if_pos hlength, List.tail_drop, hnext, List.drop_append_of_le_length (by omega)]
      · have hzero : kept.length - limit = 0 := by omega
        have hnext : (kept ++ [p]).length - limit = 0 := by
          rw [List.length_append, List.length_singleton]
          omega
        have hroom : ¬ (kept.drop 0).length ≥ limit := hfull
        rw [hzero, hnext, if_neg hroom, List.drop_zero, List.drop_zero]

/-- What a frame does to the queue. -/
theorem completed_push {s : PacketReassembler} (h : s.completed.length ≤ MAX_COMPLETED_PACKETS)
    (f : Frame) : (s.pushMpduPayload f).completed =
      (s.completed ++ s.emitted f).rtake MAX_COMPLETED_PACKETS := by
  unfold pushMpduPayload emitted
  by_cases hlarge : f.vcid ≥ MAX_VIRTUAL_CHANNELS
  · rw [if_pos hlarge, if_pos hlarge, List.append_nil, List.rtake, Nat.sub_eq_zero_of_le h,
      List.drop_zero]
  · rw [if_neg hlarge, if_neg hlarge]
    exact foldl_complete h _

theorem completed_length_push {s : PacketReassembler}
    (h : s.completed.length ≤ MAX_COMPLETED_PACKETS) (f : Frame) :
    (s.pushMpduPayload f).completed.length ≤ MAX_COMPLETED_PACKETS := by
  rw [completed_push h, List.rtake, List.length_drop]
  omega

theorem run_completed_length (calls : List Call) :
    ∀ {s : PacketReassembler}, s.completed.length ≤ MAX_COMPLETED_PACKETS →
      (s.run calls).1.completed.length ≤ MAX_COMPLETED_PACKETS := by
  induction calls with
  | nil =>
    intro s h
    exact h
  | cons call calls ih =>
    intro s h
    match call with
    | .push f => exact ih (completed_length_push h f)
    | .drain => exact ih (Nat.zero_le _)

end PacketReassembler

end Lrpt
