import EzSdr.Framework.Watermark
import EzSdr.Lrpt.Ccsds
import EzSdr.Lrpt.ImageBuilder
import EzSdr.Lrpt.Lane

/-! # The LRPT Decoder

    Sixteen lanes decode the same symbols under as many hypotheses. The decoder
    merges their frames by position, drops those that cover a symbol without
    energy, takes at most one for a position, and hands the packets of the
    frames taken to the image builder.

    `scanned` is what a lane without a deinterleaver finds in a whole stream.
    **`accepts_once`** says that the decoder takes exactly one frame for every
    position at which some lane has a good one, although it works batch by batch,
    forgets old symbols and prefers the lane it took the last frame from.
    **`takes_gated`** is what is left of that with deinterleavers, whose delays
    are not the same in all lanes.
    **`sent_received`** starts at the encoder: payloads that are sent reach the
    images in their order. -/

namespace Lrpt

open Daemon (MeteorProfile)
open Viterbi (ViterbiDecoder)
open Checked (Returns returns_mapM)

/-! ## Section 1: Headers -/

def VCDU_HEADER_LEN : ℕ := 6
def VCDU_INSERT_ZONE_LEN : ℕ := 2
def MPDU_HEADER_LEN : ℕ := 2
def MPDU_HEADER_OFFSET : ℕ := VCDU_HEADER_LEN + VCDU_INSERT_ZONE_LEN

structure VcduHeader where
  version          : UInt8
  spacecraftId     : UInt16
  virtualChannelId : UInt8
  frameCounter     : UInt32
deriving DecidableEq, Repr

def parseVcduHeader : List UInt8 → Option VcduHeader
  | b0 :: b1 :: b2 :: b3 :: b4 :: _ :: _ => some {
      version := (b0 >>> 6) &&& 0b11
      spacecraftId := ((b0 &&& 0x3F).toUInt16 <<< 2) ||| (b1 >>> 6).toUInt16
      virtualChannelId := b1 &&& 0x3F
      frameCounter := (b2.toUInt32 <<< 16) ||| (b3.toUInt32 <<< 8) ||| b4.toUInt32 }
  | _ => none

structure MpduHeader where
  firstHeaderPointer : UInt16
deriving DecidableEq, Repr

def parseMpduHeader : List UInt8 → Option MpduHeader
  | b0 :: b1 :: _ => some ⟨word b0 b1 &&& 0x07FF⟩
  | _ => none

/-! ## Section 2: Model -/

/-- The demodulator and the progress messages are left out. -/
structure LrptDecoder (π : Type) where
  profile           : Option MeteorProfile
  lanes             : List DecodeLane
  selectedLane      : Option ℕ
  symbolsReceived   : ℕ
  lastValidFrameEnd : Option ℕ
  /-- The positions of weak symbols, for each of the two pairings. -/
  lowEnergySymbols  : Fin 2 → List ℕ
  reassembler       : PacketReassembler
  images            : ImageBuilder π
  everLocked        : Bool
  rsOk              : ℕ
  rsFailed          : ℕ

def FRAME_LOCK_MAX_AGE : ℕ := 2 * CADU_BITS

/-- The pairing that a hypothesis reads. -/
def pairing (hypothesis : ℕ) : Fin 2 := Fin.ofNat 2 (hypothesis / 8)

/-- `pairings`: the value and the alternate value of a symbol. -/
def RecoveredSymbol.paired (symbol : RecoveredSymbol) (p : Fin 2) : Observed :=
  if p = 0 then symbol.value else symbol.alternateValue.getD symbol.value

/-- The positions of the symbols without energy, in one pairing. -/
def weakSymbols (p : Fin 2) (received : ℕ) (symbols : List RecoveredSymbol) : List ℕ :=
  symbols.zipIdx.filterMap fun (symbol, offset) =>
    if (symbol.paired p).energy then none else some (received + offset)

/-- The chunks of `push_recovered_symbols`. -/
def batches (symbols : List RecoveredSymbol) : List (List RecoveredSymbol) :=
  if symbols = [] then [] else symbols.take 1024 :: batches (symbols.drop 1024)
termination_by symbols.length
decreasing_by
  rw [List.length_drop]
  have hpos := List.length_pos_of_ne_nil ‹_›
  omega

namespace LrptDecoder

variable {π : Type}

def interleaved (d : LrptDecoder π) : Bool := d.profile.any (·.interleaved)

def new (n : Numerics π) : LrptDecoder π where
  profile := none
  lanes := List.replicate 16 DecodeLane.new
  selectedLane := none
  symbolsReceived := 0
  lastValidFrameEnd := none
  lowEnergySymbols := fun _ => []
  reassembler := PacketReassembler.new
  images := ImageBuilder.new n
  everLocked := false
  rsOk := 0
  rsFailed := 0

/-- Images and counts remain. -/
def resetStream (d : LrptDecoder π) : LrptDecoder π :=
  { d with
    lanes := List.replicate 16 (DecodeLane.forProfile d.profile)
    selectedLane := none
    symbolsReceived := 0
    lastValidFrameEnd := none
    lowEnergySymbols := fun _ => []
    reassembler := PacketReassembler.new }

def forMission (n : Numerics π) (profile : MeteorProfile) : LrptDecoder π :=
  { new n with profile := some profile }.resetStream

end LrptDecoder

variable {π : Type}

/-- The packets of image channels go to the builder. -/
def pushPackets (n : Numerics π) (images : ImageBuilder π) (packets : List SpacePacket) :
    ImageBuilder π :=
  packets.foldl (fun images packet =>
    if packet.apid.toNat ∈ IMAGE_APIDS then
      images.pushPacket n packet.apid.toNat packet.header.sequenceCount.toNat packet.data
    else images) images

/-- The packet zone of a payload, with what its headers say. -/
def packetZone (payload : List UInt8) : Option Frame :=
  if payload.length < MPDU_HEADER_OFFSET + MPDU_HEADER_LEN then none
  else do
    let vcdu ← parseVcduHeader payload
    let mpdu ← parseMpduHeader ((payload.drop MPDU_HEADER_OFFSET).take MPDU_HEADER_LEN)
    some ⟨payload.drop (MPDU_HEADER_OFFSET + MPDU_HEADER_LEN), mpdu.firstHeaderPointer,
      vcdu.virtualChannelId.toNat, vcdu.frameCounter⟩

/-- The reassembler and the images after a packet zone. -/
def pushZone (n : Numerics π) (products : PacketReassembler × ImageBuilder π) (zone : Frame) :
    PacketReassembler × ImageBuilder π :=
  let (reassembler, packets) := (products.1.pushMpduPayload zone).drainCompleted
  (reassembler, pushPackets n products.2 packets)

namespace LrptDecoder

/-- Whether the frame has been taken, and the decoder after it. -/
def processCaduFrame (n : Numerics π) (d : LrptDecoder π) (cadu : List UInt8) :
    LrptDecoder π × Bool :=
  if cadu.length < 4 + INTERLEAVED_FRAME_LEN then (d, false)
  else
    let transport := (cadu.drop 4).take INTERLEAVED_FRAME_LEN
    let result := decodeInterleaved (derandomize transport)
    let d := { d with
      rsOk := d.rsOk + result.codewordsOk, rsFailed := d.rsFailed + result.codewordsFailed }
    -- one bad code word spoils every fourth byte of the payload
    if result.codewordsFailed > 0 ∨ result.codewordsOk = 0 then (d, false)
    else
      let d := { d with everLocked := true }
      match packetZone result.data with
      | none => (d, false)
      | some zone =>
        let (reassembler, images) := pushZone n (d.reassembler, d.images) zone
        ({ d with reassembler := reassembler, images := images }, true)

/-- The body of the loop over the frames of a batch. -/
def offer (n : Numerics π) (d : LrptDecoder π) (candidate : ℕ × LocatedFrame) : LrptDecoder π :=
  let (hypothesis, frame) := candidate
  -- with a deinterleaver the lane has dropped the frames with erasures itself
  if !d.interleaved && frame.touchedBy (d.lowEnergySymbols (pairing hypothesis)) then d
  else
    -- two deinterleavers that are locked may disagree by one symbol
    let tolerance := d.interleaved.toNat
    if d.lastValidFrameEnd.any fun last => frame.endBit ≤ last + tolerance then d
    else
      let (d, taken) := d.processCaduFrame n frame.bytes
      if taken then
        { d with lastValidFrameEnd := some frame.endBit, selectedLane := some hypothesis }
      else d

/-- The order of the frames of a batch: by position, then the selected lane first. -/
def precedes (selectedLane : Option ℕ) (a b : ℕ × LocatedFrame) : Bool :=
  a.2.endBit < b.2.endBit ||
    (a.2.endBit == b.2.endBit && (some a.1 == selectedLane || some b.1 != selectedLane))

/-- The weak symbols of a batch are remembered, and every lane is kept current, whatever lane is
    selected. -/
def observe (d : LrptDecoder π) (symbols : List RecoveredSymbol) : LrptDecoder π :=
  { d with
    lowEnergySymbols := fun p =>
      d.lowEnergySymbols p ++ weakSymbols p d.symbolsReceived symbols
    symbolsReceived := d.symbolsReceived + symbols.length
    lanes := d.lanes.mapIdx fun hypothesis lane => (lane.pushSymbols symbols hypothesis).1 }

/-- The frames of all lanes with their hypotheses. -/
def laneFrames (d : LrptDecoder π) (symbols : List RecoveredSymbol) : List (ℕ × LocatedFrame) :=
  (d.lanes.mapIdx fun hypothesis lane =>
    (lane.pushSymbols symbols hypothesis).2.map (hypothesis, ·)).flatten

def recoveredEnd (d : LrptDecoder π) : ℕ :=
  if d.interleaved then d.symbolsReceived else d.symbolsReceived - VITERBI_OUTPUT_DELAY

/-- Weak symbols that no later frame can cover are forgotten. -/
def forget (d : LrptDecoder π) : LrptDecoder π :=
  { d with lowEnergySymbols := fun p =>
      (d.lowEnergySymbols p).dropWhile fun position => position < d.recoveredEnd - CADU_BITS }

def maxFrameAge (d : LrptDecoder π) : ℕ :=
  -- 8 marker bits per 72 data bits, rounded up
  if d.interleaved then (FRAME_LOCK_MAX_AGE * 10 + 8) / 9 else FRAME_LOCK_MAX_AGE

/-- Without a frame for some time no lane is selected. -/
def checkFrameAge (d : LrptDecoder π) : LrptDecoder π :=
  if d.lastValidFrameEnd.all fun last => d.maxFrameAge ≤ d.recoveredEnd - last then
    { d with selectedLane := none }
  else d

def pushSymbolBatch (n : Numerics π) (d : LrptDecoder π) (symbols : List RecoveredSymbol) :
    LrptDecoder π :=
  let frames := (d.laneFrames symbols).mergeSort (precedes d.selectedLane)
  (frames.foldl (offer n) (d.observe symbols)).forget.checkFrameAge

def pushRecoveredSymbols (n : Numerics π) (d : LrptDecoder π) (symbols : List RecoveredSymbol) :
    LrptDecoder π :=
  (batches symbols).foldl (pushSymbolBatch n) d

/-- Several calls. -/
def pushAll (n : Numerics π) (d : LrptDecoder π) (calls : List (List RecoveredSymbol)) :
    LrptDecoder π :=
  calls.foldl (pushRecoveredSymbols n) d

end LrptDecoder

/-! ## Section 3: One frame -/

/-- The packet zone of a valid frame. -/
def caduZone (cadu : List UInt8) : Option Frame :=
  if validateCadu cadu then packetZone (decodeInterleaved (derandomize (cadu.drop 4))).data
  else none

theorem packetZone_isSome {payload : List UInt8}
    (h : MPDU_HEADER_OFFSET + MPDU_HEADER_LEN ≤ payload.length) : (packetZone payload).isSome := by
  have hshort : ¬ payload.length < MPDU_HEADER_OFFSET + MPDU_HEADER_LEN := Nat.not_lt.2 h
  unfold packetZone
  rw [if_neg hshort]
  match payload, h with
  | _ :: _ :: _ :: _ :: _ :: _ :: _ :: _ :: _ :: _ :: _, _ => rfl

/-- Every code word is accepted or failed. -/
theorem codewords_total (frame : List UInt8) : (decodeInterleaved frame).codewordsOk +
    (decodeInterleaved frame).codewordsFailed = INTERLEAVE := by
  have hlength : ((deinterleave frame).map fun codeword =>
      (correctCodeword codeword).toOption).length = INTERLEAVE := by
    unfold deinterleave
    rw [List.length_map, List.length_map, List.length_range]
  -- a word is counted as failed when it is not counted as accepted
  have hsplit := @List.length_eq_countP_add_countP _ Option.isSome
    ((deinterleave frame).map fun codeword => (correctCodeword codeword).toOption)
  unfold decodeInterleaved
  dsimp only
  rw [← hlength, hsplit]
  congr 1
  apply List.countP_congr
  intro word _
  cases word with
  | none => simp
  | some word => simp

theorem length_data (frame : List UInt8) :
    (decodeInterleaved frame).data.length = RS_DATA_LEN * INTERLEAVE := by
  unfold decodeInterleaved
  dsimp only
  rw [length_interleave]

/-- A valid frame has a packet zone. -/
theorem caduZone_isSome (cadu : List UInt8) : (caduZone cadu).isSome = validateCadu cadu := by
  unfold caduZone
  split
  · next h =>
    rw [h]
    apply packetZone_isSome
    rw [length_data]
    decide
  · next h =>
    rw [Option.isSome_none, Bool.eq_false_iff.2 h]

namespace LrptDecoder

variable {n : Numerics π} {d d' : LrptDecoder π}

/-- The products after some packet zones. -/
def pushZones (n : Numerics π) (products : PacketReassembler × ImageBuilder π)
    (taken : List (ℕ × LocatedFrame)) : PacketReassembler × ImageBuilder π :=
  (taken.filterMap fun c => caduZone c.2.bytes).foldl (pushZone n) products

theorem pushZones_append (n : Numerics π) (products : PacketReassembler × ImageBuilder π)
    (taken fresh : List (ℕ × LocatedFrame)) : pushZones n products (taken ++ fresh) =
      pushZones n (pushZones n products taken) fresh := by
  unfold pushZones
  rw [List.filterMap_append, List.foldl_append]

theorem pushZones_singleton (n : Numerics π) (products : PacketReassembler × ImageBuilder π)
    (c : ℕ × LocatedFrame) :
    pushZones n products [c] = (caduZone c.2.bytes).toList.foldl (pushZone n) products := by
  unfold pushZones
  rw [List.filterMap_eq_flatMap_toList, List.flatMap_singleton]

/-- What the frames of a batch leave alone. -/
structure Steady (d d' : LrptDecoder π) : Prop where
  profile  : d'.profile = d.profile
  lanes    : d'.lanes = d.lanes
  received : d'.symbolsReceived = d.symbolsReceived
  weak     : d'.lowEnergySymbols = d.lowEnergySymbols

theorem Steady.refl (d : LrptDecoder π) : d.Steady d := ⟨rfl, rfl, rfl, rfl⟩

theorem Steady.trans {d'' : LrptDecoder π} (h : d.Steady d') (h' : d'.Steady d'') :
    d.Steady d'' where
  profile := h'.profile.trans h.profile
  lanes := h'.lanes.trans h.lanes
  received := h'.received.trans h.received
  weak := h'.weak.trans h.weak

/-- What `processCaduFrame` makes of the result of the Reed-Solomon decoder. -/
theorem processCaduFrame_long (n : Numerics π) (d : LrptDecoder π) {cadu : List UInt8}
    (h : ¬ cadu.length < 4 + INTERLEAVED_FRAME_LEN) {result : RsDecodeResult}
    (hresult : decodeInterleaved (derandomize ((cadu.drop 4).take INTERLEAVED_FRAME_LEN)) = result) :
    d.processCaduFrame n cadu =
      let d := { d with
        rsOk := d.rsOk + result.codewordsOk, rsFailed := d.rsFailed + result.codewordsFailed }
      if result.codewordsFailed > 0 ∨ result.codewordsOk = 0 then (d, false)
      else
        let d := { d with everLocked := true }
        match packetZone result.data with
        | none => (d, false)
        | some zone =>
          let (reassembler, images) := pushZone n (d.reassembler, d.images) zone
          ({ d with reassembler := reassembler, images := images }, true) := by
  subst hresult
  exact if_neg h

/-- The framer and the decoder agree on which frames are valid. -/
theorem processCaduFrame_spec (n : Numerics π) (d : LrptDecoder π) {cadu : List UInt8}
    (h : cadu.length = CADU_LEN_BYTES) :
    d.Steady (d.processCaduFrame n cadu).1 ∧
      (d.processCaduFrame n cadu).1.lastValidFrameEnd = d.lastValidFrameEnd ∧
      (d.processCaduFrame n cadu).2 = validateCadu cadu ∧
      ((d.processCaduFrame n cadu).1.reassembler, (d.processCaduFrame n cadu).1.images) =
        (caduZone cadu).toList.foldl (pushZone n) (d.reassembler, d.images) := by
  have hlong : ¬ cadu.length < 4 + INTERLEAVED_FRAME_LEN := by
    rw [h]
    decide
  have htake : (cadu.drop 4).take INTERLEAVED_FRAME_LEN = cadu.drop 4 := by
    apply List.take_of_length_le
    rw [List.length_drop, h]
    decide
  have htotal := codewords_total (derandomize (cadu.drop 4))
  have hinterleave : INTERLEAVE = 4 := rfl
  have hsome := caduZone_isSome cadu
  have hvalid : validateCadu cadu =
      ((decodeInterleaved (derandomize (cadu.drop 4))).codewordsFailed == 0 &&
        (decodeInterleaved (derandomize (cadu.drop 4))).codewordsOk == 4) := by
    unfold validateCadu
    rfl
  have hzone : caduZone cadu = if validateCadu cadu then
      packetZone (decodeInterleaved (derandomize (cadu.drop 4))).data else none := by
    unfold caduZone
    rfl
  -- both tests read the same two counts, which are four together
  obtain ⟨result, hresult⟩ : ∃ result, decodeInterleaved (derandomize (cadu.drop 4)) = result :=
    ⟨_, rfl⟩
  rw [hresult] at htotal hvalid hzone
  rw [processCaduFrame_long n d hlong (by rw [htake, hresult])]
  dsimp only
  generalize caduZone cadu = zone, validateCadu cadu = valid at hsome hvalid hzone ⊢
  cases valid with
  | true =>
    have hcounts := hvalid.symm
    rw [Bool.and_eq_true, beq_iff_eq, beq_iff_eq] at hcounts
    rw [if_neg (by omega)]
    obtain ⟨zone, rfl⟩ := Option.isSome_iff_exists.1 hsome
    rw [← (hzone.trans (if_pos rfl) : some zone = packetZone result.data)]
    exact ⟨⟨rfl, rfl, rfl, rfl⟩, rfl, rfl, rfl⟩
  | false =>
    have hcounts := Bool.eq_false_iff.1 hvalid.symm
    rw [ne_eq, Bool.and_eq_true, beq_iff_eq, beq_iff_eq] at hcounts
    rw [if_pos (by omega), hzone, if_neg Bool.false_ne_true]
    exact ⟨⟨rfl, rfl, rfl, rfl⟩, rfl, rfl, rfl⟩

/-! ## Section 4: The frames of a batch -/

/-- Where a candidate ends. -/
def endOf (c : ℕ × LocatedFrame) : ℕ := c.2.endBit

/-- The frames the decoder may take. -/
def good (d : LrptDecoder π) (c : ℕ × LocatedFrame) : Bool :=
  (d.interleaved || !c.2.touchedBy (d.lowEnergySymbols (pairing c.1))) && validateCadu c.2.bytes

theorem Steady.good (h : d.Steady d') : d'.good = d.good := by
  funext c
  unfold LrptDecoder.good interleaved
  rw [h.profile, h.weak]

theorem Steady.interleaved (h : d.Steady d') : d'.interleaved = d.interleaved := by
  unfold LrptDecoder.interleaved
  rw [h.profile]

/-- A frame that is good and past the mark is taken, any other one changes no product. -/
theorem offer_spec (n : Numerics π) (d : LrptDecoder π) {c : ℕ × LocatedFrame}
    (h : c.2.bytes.length = CADU_LEN_BYTES) :
    d.Steady (d.offer n c) ∧
      if Watermark.Past d.interleaved.toNat d.lastValidFrameEnd (endOf c) ∧ d.good c = true then
        (d.offer n c).lastValidFrameEnd = some (endOf c) ∧
          ((d.offer n c).reassembler, (d.offer n c).images) =
            pushZones n (d.reassembler, d.images) [c]
      else (d.offer n c).lastValidFrameEnd = d.lastValidFrameEnd ∧
        ((d.offer n c).reassembler, (d.offer n c).images) = (d.reassembler, d.images) := by
  obtain ⟨hypothesis, frame⟩ := c
  have hframe : frame.bytes.length = CADU_LEN_BYTES := h
  obtain ⟨hsteady, hmark, hvalid, hproducts⟩ := processCaduFrame_spec n d hframe
  have hpast : Watermark.Past d.interleaved.toNat d.lastValidFrameEnd frame.endBit ↔
      ¬ d.lastValidFrameEnd.any (fun last => frame.endBit ≤ last + d.interleaved.toNat) = true := by
    unfold Watermark.Past
    cases d.lastValidFrameEnd with
    | none => simp
    | some last => simp
  unfold offer
  dsimp only
  -- first gate: a symbol without energy in the frame
  by_cases htouched : (!d.interleaved &&
      frame.touchedBy (d.lowEnergySymbols (pairing hypothesis))) = true
  · rw [if_pos htouched, if_neg]
    · exact ⟨Steady.refl d, rfl, rfl⟩
    · rintro ⟨-, hgood⟩
      rw [Bool.and_eq_true, Bool.not_eq_true'] at htouched
      unfold LrptDecoder.good at hgood
      rw [htouched.1, htouched.2] at hgood
      exact Bool.false_ne_true hgood
  rw [if_neg htouched]
  -- second gate: the mark
  by_cases hbehind : d.lastValidFrameEnd.any
      (fun last => frame.endBit ≤ last + d.interleaved.toNat) = true
  · rw [if_pos hbehind, if_neg fun hgood => hpast.1 hgood.1 hbehind]
    exact ⟨Steady.refl d, rfl, rfl⟩
  rw [if_neg hbehind]
  have hgood : d.good (hypothesis, frame) = validateCadu frame.bytes := by
    unfold LrptDecoder.good
    have huntouched : (d.interleaved ||
        !frame.touchedBy (d.lowEnergySymbols (pairing hypothesis))) = true := by
      rw [Bool.not_eq_true, Bool.and_eq_false_imp] at htouched
      cases hinterleaved : d.interleaved with
      | true => rfl
      | false =>
        rw [htouched (by rw [hinterleaved]; rfl)]
        rfl
    rw [huntouched, Bool.true_and]
  obtain ⟨next, taken, hnext⟩ : ∃ next taken, d.processCaduFrame n frame.bytes = (next, taken) :=
    ⟨_, _, rfl⟩
  rw [hnext] at hsteady hmark hvalid hproducts
  rw [hnext, hgood]
  dsimp only at hsteady hmark hvalid hproducts ⊢
  obtain rfl := hvalid
  -- what is left to decide is the Reed-Solomon code
  by_cases hvalid : validateCadu frame.bytes = true
  · rw [if_pos hvalid, if_pos ⟨hpast.2 hbehind, hvalid⟩]
    refine ⟨⟨hsteady.profile, hsteady.lanes, hsteady.received, hsteady.weak⟩, rfl, ?_⟩
    show (next.reassembler, next.images) = _
    rw [hproducts, pushZones_singleton]
  · have hzone : caduZone frame.bytes = none := if_neg hvalid
    rw [if_neg hvalid, if_neg fun hgood => hvalid hgood.2]
    rw [hzone] at hproducts
    exact ⟨hsteady, hmark, hproducts⟩

/-- What a batch does with its candidates. -/
structure Merged (n : Numerics π) (d : LrptDecoder π) (taken : List (ℕ × LocatedFrame))
    (d' : LrptDecoder π) : Prop where
  steady   : d.Steady d'
  mark     : d'.lastValidFrameEnd =
    Watermark.markAfter endOf d.lastValidFrameEnd taken
  products : (d'.reassembler, d'.images) = pushZones n (d.reassembler, d.images) taken

theorem foldl_offer (n : Numerics π) (d : LrptDecoder π) {cs : List (ℕ × LocatedFrame)}
    (h : ∀ c ∈ cs, c.2.bytes.length = CADU_LEN_BYTES) :
    d.Merged n (Watermark.sift endOf d.good d.interleaved.toNat d.lastValidFrameEnd cs)
      (cs.foldl (offer n) d) := by
  induction cs generalizing d with
  | nil => exact ⟨Steady.refl d, Watermark.markAfter_nil.symm, rfl⟩
  | cons c cs ih =>
    obtain ⟨hsteady, hoffer⟩ := offer_spec n d (h c List.mem_cons_self)
    obtain ⟨hrest, hmark, hproducts⟩ := ih (d.offer n c) fun c hc =>
      h c (List.mem_cons_of_mem _ hc)
    -- the test does not change while the batch is merged
    rw [hsteady.good, hsteady.interleaved] at hmark hproducts
    rw [List.foldl_cons]
    by_cases htaken : Watermark.Past d.interleaved.toNat d.lastValidFrameEnd (endOf c) ∧
        d.good c = true
    · rw [if_pos htaken] at hoffer
      rw [hoffer.1] at hmark hproducts
      rw [Watermark.sift_take htaken.1 htaken.2]
      refine ⟨hsteady.trans hrest, ?_, ?_⟩
      · rw [hmark, Watermark.markAfter_cons]
      · rw [hproducts, hoffer.2, ← pushZones_append, List.singleton_append]
    · rw [if_neg htaken] at hoffer
      rw [hoffer.1] at hmark hproducts
      rw [Watermark.sift_pass htaken]
      exact ⟨hsteady.trans hrest, hmark, hproducts.trans (by rw [hoffer.2])⟩

end LrptDecoder

/-! ## Section 5: A lane without a deinterleaver -/

/-- The coded bits of a whole stream. -/
def codedBits (hypothesis : ℕ) (symbols : List RecoveredSymbol) : List UInt8 :=
  symbols.flatMap (·.coded hypothesis)

/-- The frames that one scan finds in a whole stream, in the clock of the information bits. -/
def scanned (profile : Option MeteorProfile) (hypothesis : ℕ) (symbols : List RecoveredSymbol) :
    List LocatedFrame :=
  let coded := codedBits hypothesis symbols
  (if profile = none then greedy validateCadu 0 (recovered coded) else []) ++
    (greedy validateCadu 0 (information coded)).map LocatedFrame.late

theorem length_coded (symbol : RecoveredSymbol) (hypothesis : ℕ) :
    (symbol.coded hypothesis).length = 2 := by
  unfold RecoveredSymbol.coded
  split <;> rfl

theorem length_codedBits (hypothesis : ℕ) (symbols : List RecoveredSymbol) :
    (codedBits hypothesis symbols).length = 2 * symbols.length := by
  unfold codedBits
  induction symbols with
  | nil => rfl
  | cons symbol symbols ih =>
    rw [List.flatMap_cons, List.length_append, length_coded, ih, List.length_cons]
    omega

theorem codedBits_append (hypothesis : ℕ) (xs ys : List RecoveredSymbol) :
    codedBits hypothesis (xs ++ ys) = codedBits hypothesis xs ++ codedBits hypothesis ys :=
  List.flatMap_append

theorem length_bytes (validate : List UInt8 → Bool) (position : ℕ) (stream : List UInt8) :
    ∀ frame ∈ greedy validate position stream, frame.bytes.length = CADU_LEN_BYTES := by
  induction hn : stream.length using Nat.strong_induction_on generalizing position stream with
  | _ n ih =>
  match hfirst : firstMarker stream with
  | none =>
    rw [greedy_none hfirst]
    exact nofun
  | some k =>
    by_cases hshort : stream.length < k + 8192
    · rw [greedy_incomplete hfirst hshort]
      exact nofun
    -- a frame that fails is left after one bit, one that passes after all of its bits
    rw [greedy_frame hfirst (by omega)]
    intro frame hframe
    rcases List.mem_cons.1 hframe with rfl | hlater
    · unfold bitsToBytesMsb
      rw [List.length_map, List.length_range, List.length_take, List.length_drop,
        Nat.min_eq_left (by omega)]
      rfl
    · refine ih _ ?_ _ _ rfl frame hlater
      rw [List.length_drop]
      split <;> omega

/-- Where the frames of a scan end, and how long they are. -/
theorem scanned_ends (profile : Option MeteorProfile) (hypothesis : ℕ)
    (symbols : List RecoveredSymbol) : ∀ frame ∈ scanned profile hypothesis symbols,
      CADU_BITS ≤ frame.endBit ∧ frame.endBit ≤ symbols.length - VITERBI_OUTPUT_DELAY ∧
        frame.bytes.length = CADU_LEN_BYTES := by
  have hdelay : VITERBI_OUTPUT_DELAY = 63 := rfl
  have hcadu : CADU_BITS = 8192 := rfl
  have hlength := length_codedBits hypothesis symbols
  intro frame hframe
  rcases List.mem_append.1 hframe with hplain | hnrzm
  · split at hplain
    · have hends := (greedy_ends validateCadu 0 _).2 frame hplain
      have hbytes := length_bytes validateCadu 0 _ frame hplain
      rw [length_recovered hlength] at hends
      omega
    · cases hplain
  · obtain ⟨early, hearly, rfl⟩ := List.mem_map.1 hnrzm
    have hends := (greedy_ends validateCadu 0 _).2 early hearly
    have hbytes := length_bytes validateCadu 0 _ early hearly
    rw [length_information hlength] at hends
    refine ⟨?_, ?_, hbytes⟩
    · show CADU_BITS ≤ early.endBit + 1
      omega
    · show early.endBit + 1 ≤ _
      omega

namespace DecodeLane

variable {lane : DecodeLane} {profile : Option MeteorProfile} {hypothesis : ℕ}
  {symbols more : List RecoveredSymbol}

/-- A lane without a deinterleaver that has been given some symbols. -/
structure Tracks (lane : DecodeLane) (profile : Option MeteorProfile) (hypothesis : ℕ)
    (symbols : List RecoveredSymbol) : Prop where
  profile     : lane.profile = profile
  interleaver : lane.interleaver = none
  decoded     : ∃ plain, lane.Decoded (codedBits hypothesis symbols) plain
    (greedy validateCadu 0 (information (codedBits hypothesis symbols)))

theorem tracks_start (h : profile.any (·.interleaved) = false) (hypothesis : ℕ) :
    (forProfile profile).Tracks profile hypothesis [] where
  profile := rfl
  interleaver := by
    cases profile with
    | none => rfl
    | some mission =>
      cases mission with
      | oqpsk72 => rfl
      | oqpsk80Interleaved => cases h
  decoded := by
    have hnone : greedy validateCadu 0 (information []) = [] := greedy_none rfl
    refine ⟨[], ?_⟩
    show (forProfile profile).Decoded [] [] (greedy validateCadu 0 (information []))
    rw [hnone]
    exact decoded_forProfile profile

/-- A call finds the frames that the scan gains with its symbols. -/
theorem Tracks.push (h : lane.Tracks profile hypothesis symbols) (more : List RecoveredSymbol) :
    (lane.pushSymbols more hypothesis).1.Tracks profile hypothesis (symbols ++ more) ∧
      (∀ frame, frame ∈ scanned profile hypothesis (symbols ++ more) ↔
        frame ∈ scanned profile hypothesis symbols ∨
          frame ∈ (lane.pushSymbols more hypothesis).2) ∧
      ∀ frame ∈ (lane.pushSymbols more hypothesis).2,
        symbols.length - VITERBI_OUTPUT_DELAY < frame.endBit := by
  have hdelay : VITERBI_OUTPUT_DELAY = 63 := rfl
  obtain ⟨plain, hdecoded⟩ := h.decoded
  have hpush : lane.pushSymbols more hypothesis =
      lane.pushCodedBits (codedBits hypothesis more) := by
    unfold pushSymbols codedBits
    rw [h.interleaver]
  obtain ⟨newPlain, newNrzm, hpushed, hout, hmission⟩ :=
    hdecoded.push (codedBits hypothesis more)
  rw [← hpush] at hpushed hout
  have hdecoded' := hpushed.decoded
  have hplainEnds := hpushed.plainEnds
  have hnrzmEnds := hpushed.nrzmEnds
  rw [← codedBits_append] at hdecoded' hplainEnds hnrzmEnds
  rw [length_recovered (length_codedBits hypothesis symbols)] at hplainEnds
  rw [length_information (length_codedBits hypothesis symbols)] at hnrzmEnds
  have hnrzm := hdecoded'.nrzm.greedy
  refine ⟨⟨hpushed.profile.trans h.profile, hpushed.interleaver.trans h.interleaver,
    plain ++ newPlain, by rwa [← hnrzm]⟩, ?_, ?_⟩
  · intro frame
    rw [hout]
    unfold scanned
    dsimp only
    rw [← hnrzm, List.map_append]
    -- plain bits are framed only when no mission is set
    by_cases hprofile : profile = none
    · have hnone := h.profile.trans hprofile
      rw [if_pos hprofile, if_pos hprofile, ← (hdecoded.plain hnone).greedy,
        ← (hdecoded'.plain (hpushed.profile.trans hnone)).greedy]
      simp only [List.mem_append]
      tauto
    · have hsome : lane.profile.isSome := by
        rw [h.profile]
        exact Option.isSome_iff_ne_none.2 hprofile
      rw [if_neg hprofile, if_neg hprofile, hmission hsome]
      simp only [List.mem_append, List.nil_append]
  · intro frame hframe
    rw [hout] at hframe
    rcases List.mem_append.1 hframe with hnew | hnew
    · exact (hplainEnds frame hnew).1
    · obtain ⟨early, hearly, rfl⟩ := List.mem_map.1 hnew
      have hlow := (hnrzmEnds early hearly).1
      show symbols.length - VITERBI_OUTPUT_DELAY < early.endBit + 1
      omega

end DecodeLane

/-! ## Section 6: A batch -/

namespace LrptDecoder

variable {n : Numerics π} {d d' : LrptDecoder π} {symbols : List RecoveredSymbol}

/-- What a batch does: its candidates in order, and those that are taken. -/
structure Batch (n : Numerics π) (d : LrptDecoder π) (symbols : List RecoveredSymbol)
    (cs : List (ℕ × LocatedFrame)) (d' : LrptDecoder π) : Prop where
  sorted     : cs.Pairwise fun a b => endOf a ≤ endOf b
  candidates : ∀ c, c ∈ cs ↔ ∃ lane, d.lanes[c.1]? = some lane ∧
    c.2 ∈ (lane.pushSymbols symbols c.1).2
  profile    : d'.profile = d.profile
  lanes      : d'.lanes = (d.observe symbols).lanes
  received   : d'.symbolsReceived = d.symbolsReceived + symbols.length
  weak       : ∀ p, d'.lowEnergySymbols p = ((d.observe symbols).lowEnergySymbols p).dropWhile
    fun position => position < (d.observe symbols).recoveredEnd - CADU_BITS
  mark       : d'.lastValidFrameEnd = Watermark.markAfter endOf d.lastValidFrameEnd
    (Watermark.sift endOf (d.observe symbols).good d.interleaved.toNat d.lastValidFrameEnd cs)
  products   : (d'.reassembler, d'.images) = pushZones n (d.reassembler, d.images)
    (Watermark.sift endOf (d.observe symbols).good d.interleaved.toNat d.lastValidFrameEnd cs)

theorem precedes_trans (selectedLane : Option ℕ) (a b c : ℕ × LocatedFrame)
    (hab : precedes selectedLane a b = true) (hbc : precedes selectedLane b c = true) :
    precedes selectedLane a c = true := by
  simp only [precedes, Bool.or_eq_true, Bool.and_eq_true, decide_eq_true_eq, beq_iff_eq,
    bne_iff_ne, ne_eq] at hab hbc ⊢
  by_cases hlt : a.2.endBit < c.2.endBit
  · exact .inl hlt
  · refine .inr ⟨by omega, ?_⟩
    have hab := (hab.resolve_left (by omega)).2
    have hbc := (hbc.resolve_left (by omega)).2
    tauto

theorem precedes_total (selectedLane : Option ℕ) (a b : ℕ × LocatedFrame) :
    (precedes selectedLane a b || precedes selectedLane b a) = true := by
  simp only [precedes, Bool.or_eq_true, Bool.and_eq_true, decide_eq_true_eq, beq_iff_eq,
    bne_iff_ne, ne_eq]
  by_cases hselected : some a.1 = selectedLane
  · rcases Nat.lt_trichotomy a.2.endBit b.2.endBit with hlt | heq | hgt
    · exact .inl (.inl hlt)
    · exact .inl (.inr ⟨heq, .inl hselected⟩)
    · exact .inr (.inl hgt)
  · rcases Nat.lt_trichotomy a.2.endBit b.2.endBit with hlt | heq | hgt
    · exact .inl (.inl hlt)
    · exact .inr (.inr ⟨heq.symm, .inr hselected⟩)
    · exact .inr (.inl hgt)

theorem le_of_precedes {selectedLane : Option ℕ} {a b : ℕ × LocatedFrame}
    (h : precedes selectedLane a b = true) : endOf a ≤ endOf b := by
  simp only [precedes, Bool.or_eq_true, Bool.and_eq_true, decide_eq_true_eq, beq_iff_eq] at h
  unfold endOf
  omega

theorem mem_laneFrames (d : LrptDecoder π) (symbols : List RecoveredSymbol)
    (c : ℕ × LocatedFrame) : c ∈ d.laneFrames symbols ↔
      ∃ lane, d.lanes[c.1]? = some lane ∧ c.2 ∈ (lane.pushSymbols symbols c.1).2 := by
  unfold laneFrames
  rw [List.mem_flatten]
  constructor
  · rintro ⟨frames, hframes, hc⟩
    obtain ⟨h, hh, rfl⟩ := List.mem_mapIdx.1 hframes
    obtain ⟨frame, hframe, rfl⟩ := List.mem_map.1 hc
    exact ⟨d.lanes[h], List.getElem?_eq_getElem hh, hframe⟩
  · rintro ⟨lane, hlane, hframe⟩
    obtain ⟨hh, rfl⟩ := List.getElem?_eq_some_iff.1 hlane
    exact ⟨_, List.mem_mapIdx.2 ⟨c.1, hh, rfl⟩, List.mem_map.2 ⟨c.2, hframe, rfl⟩⟩

theorem length_lanes_observe (d : LrptDecoder π) (symbols : List RecoveredSymbol) :
    (d.observe symbols).lanes.length = d.lanes.length :=
  List.length_mapIdx

theorem lanes_observe {h : ℕ} {lane : DecodeLane}
    (hlane : (d.observe symbols).lanes[h]? = some lane) :
    ∃ before, d.lanes[h]? = some before ∧ (before.pushSymbols symbols h).1 = lane := by
  unfold observe at hlane
  dsimp only at hlane
  rw [List.getElem?_mapIdx] at hlane
  exact Option.map_eq_some_iff.1 hlane

theorem checkFrameAge_eq (d : LrptDecoder π) :
    ∃ selected, d.checkFrameAge = { d with selectedLane := selected } := by
  unfold checkFrameAge
  split
  · exact ⟨none, rfl⟩
  · exact ⟨d.selectedLane, rfl⟩

theorem pushSymbolBatch_spec (n : Numerics π) (d : LrptDecoder π) (symbols : List RecoveredSymbol)
    (h : ∀ c ∈ d.laneFrames symbols, c.2.bytes.length = CADU_LEN_BYTES) :
    d.Batch n symbols ((d.laneFrames symbols).mergeSort (precedes d.selectedLane))
      (d.pushSymbolBatch n symbols) := by
  have hmem (c : ℕ × LocatedFrame) :
      c ∈ (d.laneFrames symbols).mergeSort (precedes d.selectedLane) ↔ c ∈ d.laneFrames symbols :=
    (List.mergeSort_perm ..).mem_iff
  have hsorted := List.pairwise_mergeSort (precedes_trans d.selectedLane)
    (precedes_total d.selectedLane) (d.laneFrames symbols)
  obtain ⟨hsteady, hmark, hproducts⟩ := foldl_offer n (d.observe symbols)
    fun c hc => h c ((hmem c).1 hc)
  unfold pushSymbolBatch
  dsimp only
  generalize ((d.laneFrames symbols).mergeSort (precedes d.selectedLane)).foldl (offer n)
    (d.observe symbols) = offered at hsteady hmark hproducts ⊢
  obtain ⟨selected, hchecked⟩ := checkFrameAge_eq offered.forget
  rw [hchecked]
  -- the merging moves neither the clock nor the weak symbols
  have hrecovered : offered.recoveredEnd = (d.observe symbols).recoveredEnd := by
    unfold recoveredEnd
    rw [hsteady.interleaved, hsteady.received]
  refine ⟨hsorted.imp le_of_precedes, fun c => (hmem c).trans (mem_laneFrames d symbols c),
    hsteady.profile, hsteady.lanes, hsteady.received, fun p => ?_, hmark, hproducts⟩
  show (offered.lowEnergySymbols p).dropWhile _ = _
  rw [hsteady.weak, hrecovered]

end LrptDecoder

/-! ## Section 7: Weak symbols -/

theorem weakSymbols_append (p : Fin 2) (received : ℕ) (xs ys : List RecoveredSymbol) :
    weakSymbols p received (xs ++ ys) =
      weakSymbols p received xs ++ weakSymbols p (received + xs.length) ys := by
  unfold weakSymbols
  rw [List.zipIdx_append, List.filterMap_append, Nat.zero_add,
    @List.zipIdx_eq_map_add _ ys xs.length, List.filterMap_map]
  congr 1
  apply List.filterMap_congr
  intro x _
  simp only [Function.comp_apply, Nat.add_assoc, Nat.add_comm xs.length]

theorem le_of_mem_weakSymbols {p : Fin 2} {received position : ℕ} {symbols : List RecoveredSymbol}
    (h : position ∈ weakSymbols p received symbols) : received ≤ position := by
  unfold weakSymbols at h
  obtain ⟨⟨symbol, offset⟩, -, hposition⟩ := List.mem_filterMap.1 h
  dsimp only at hposition
  split at hposition
  · cases hposition
  · obtain rfl := Option.some.inj hposition
    exact Nat.le_add_right ..

/-- A frame that a receiver of the whole stream would take: a lane finds it, it is valid, and
    it covers no weak symbol. -/
structure Acceptable (profile : Option MeteorProfile) (symbols : List RecoveredSymbol)
    (c : ℕ × LocatedFrame) : Prop where
  lane    : c.1 < 16
  found   : c.2 ∈ scanned profile c.1 symbols
  valid   : validateCadu c.2.bytes = true
  covered : c.2.touchedBy (weakSymbols (pairing c.1) 0 symbols) = false

/-- Later symbols are past a frame that has been found. -/
theorem touchedBy_later {profile : Option MeteorProfile} {hypothesis : ℕ} {frame : LocatedFrame}
    {symbols : List RecoveredSymbol} (h : frame ∈ scanned profile hypothesis symbols) (p : Fin 2)
    (more : List RecoveredSymbol) : frame.touchedBy (weakSymbols p 0 (symbols ++ more)) =
      frame.touchedBy (weakSymbols p 0 symbols) := by
  have hends := scanned_ends _ _ _ frame h
  apply LocatedFrame.touchedBy_congr
  intro position _ hhigh
  rw [weakSymbols_append, List.mem_append, or_iff_left]
  -- the new positions start where the old stream ends, and the frame has ended by then
  intro hposition
  have hle := le_of_mem_weakSymbols hposition
  omega

/-! ## Section 8: Runs -/

namespace LrptDecoder

variable {n : Numerics π} {start d : LrptDecoder π} {past : List RecoveredSymbol}
  {taken : List (ℕ × LocatedFrame)}

/-- A decoder without deinterleavers that has read some symbols since a reset, and the frames it
    has taken. -/
structure Following (n : Numerics π) (start : LrptDecoder π) (past : List RecoveredSymbol)
    (taken : List (ℕ × LocatedFrame)) (d : LrptDecoder π) : Prop where
  profile    : d.profile = start.profile
  received   : d.symbolsReceived = past.length
  count      : d.lanes.length = 16
  lanes      : ∀ (h : ℕ) (lane : DecodeLane), d.lanes[h]? = some lane →
    lane.Tracks start.profile h past
  known      : ∀ p, ∀ position ∈ d.lowEnergySymbols p, position ∈ weakSymbols p 0 past
  kept       : ∀ p, ∀ position ∈ weakSymbols p 0 past,
    past.length - VITERBI_OUTPUT_DELAY - CADU_BITS ≤ position → position ∈ d.lowEnergySymbols p
  mark       : ∀ last ∈ d.lastValidFrameEnd, last ≤ past.length - VITERBI_OUTPUT_DELAY
  products   : (d.reassembler, d.images) = pushZones n (PacketReassembler.new, start.images) taken
  increasing : taken.Pairwise fun a b => endOf a < endOf b
  sound      : ∀ a ∈ taken, Acceptable start.profile past a
  complete   : ∀ c, Acceptable start.profile past c → ∃ a ∈ taken, endOf a = endOf c

theorem following_reset (n : Numerics π) (h : start.interleaved = false) :
    Following n start [] [] start.resetStream where
  profile := rfl
  received := rfl
  count := List.length_replicate
  lanes := by
    intro hypothesis lane hlane
    obtain rfl := List.eq_of_mem_replicate (List.mem_of_getElem? hlane)
    exact DecodeLane.tracks_start h hypothesis
  known := fun p => nofun
  kept := fun p => nofun
  mark := nofun
  products := rfl
  increasing := .nil
  sound := nofun
  complete := by
    intro c hc
    have hends := scanned_ends _ _ _ c.2 hc.found
    have hcadu : CADU_BITS = 8192 := rfl
    rw [List.length_nil] at hends
    omega

theorem Following.known_push (h : Following n start past taken d) (more : List RecoveredSymbol)
    {p : Fin 2} {position : ℕ} (hposition : position ∈ (d.observe more).lowEnergySymbols p) :
    position ∈ weakSymbols p 0 (past ++ more) := by
  rw [weakSymbols_append, List.mem_append, Nat.zero_add, ← h.received]
  rcases List.mem_append.1 hposition with hearlier | hfresh
  · exact .inl (h.known p position hearlier)
  · exact .inr hfresh

/-- What has been forgotten is older than any frame to come. -/
theorem Following.kept_push (h : Following n start past taken d) (more : List RecoveredSymbol)
    {p : Fin 2} {position : ℕ} (hposition : position ∈ weakSymbols p 0 (past ++ more))
    (hlate : past.length - VITERBI_OUTPUT_DELAY - CADU_BITS ≤ position) :
    position ∈ (d.observe more).lowEnergySymbols p := by
  rw [weakSymbols_append, List.mem_append, Nat.zero_add, ← h.received] at hposition
  rcases hposition with hearlier | hfresh
  · exact List.mem_append_left _ (h.kept p position hearlier hlate)
  · exact List.mem_append_right _ hfresh

/-- A new candidate is judged by the weak symbols that are remembered. -/
theorem Following.touchedBy_new (h : Following n start past taken d) {frame : LocatedFrame}
    (hframe : past.length - VITERBI_OUTPUT_DELAY < frame.endBit) (p : Fin 2)
    (more : List RecoveredSymbol) :
    frame.touchedBy ((d.observe more).lowEnergySymbols p) =
      frame.touchedBy (weakSymbols p 0 (past ++ more)) := by
  have hcadu : CADU_BITS = 8192 := rfl
  apply LocatedFrame.touchedBy_congr
  -- a frame that ends after the clock starts at most `CADU_BITS` before it
  intro position hlow _
  exact ⟨h.known_push more, fun hposition => h.kept_push more hposition (by omega)⟩

/-- One batch. -/
theorem Following.push (h : Following n start past taken d) (hplain : start.interleaved = false)
    (more : List RecoveredSymbol) :
    ∃ fresh, Following n start (past ++ more) (taken ++ fresh) (d.pushSymbolBatch n more) := by
  have hinterleaved : d.interleaved = false := by
    unfold interleaved
    rw [h.profile]
    exact hplain
  have htolerance : d.interleaved.toNat = 0 := by
    rw [hinterleaved]
    rfl
  -- what is new in a lane
  have hnew (c : ℕ × LocatedFrame) (lane : DecodeLane) (hlane : d.lanes[c.1]? = some lane) :=
    (h.lanes c.1 lane hlane).push more
  have hscanned (c : ℕ × LocatedFrame) (hc : c ∈ d.laneFrames more) : c.1 < 16 ∧
      c.2 ∈ scanned start.profile c.1 (past ++ more) ∧
        past.length - VITERBI_OUTPUT_DELAY < endOf c := by
    obtain ⟨lane, hlane, hframe⟩ := (mem_laneFrames d more c).1 hc
    obtain ⟨-, hfound, hends⟩ := hnew c lane hlane
    have hlt := (List.getElem?_eq_some_iff.1 hlane).1
    rw [h.count] at hlt
    exact ⟨hlt, (hfound c.2).2 (.inr hframe), hends c.2 hframe⟩
  obtain ⟨hsorted, hcandidates, hprofile, hlanes, hreceived, hweak, hmark, hproducts⟩ :=
    pushSymbolBatch_spec n d more fun c hc => (scanned_ends _ _ _ c.2 (hscanned c hc).2.1).2.2
  generalize (d.laneFrames more).mergeSort (precedes d.selectedLane) = cs at *
  rw [htolerance] at hmark hproducts
  have hmem (c : ℕ × LocatedFrame) (hc : c ∈ cs) :=
    hscanned c ((mem_laneFrames d more c).2 ((hcandidates c).1 hc))
  -- the test of a new candidate is the one of the whole stream
  have hgood (c : ℕ × LocatedFrame) (hc : c ∈ cs) : (d.observe more).good c = true ↔
      Acceptable start.profile (past ++ more) c := by
    obtain ⟨hlt, hfound, hend⟩ := hmem c hc
    unfold good
    rw [show (d.observe more).interleaved = false from hinterleaved, Bool.false_or,
      h.touchedBy_new hend, Bool.and_eq_true, Bool.not_eq_true']
    exact ⟨fun hgood => ⟨hlt, hfound, hgood.2, hgood.1⟩, fun hc => ⟨hc.covered, hc.valid⟩⟩
  have hpast (p : ℕ) (hp : past.length - VITERBI_OUTPUT_DELAY < p) :
      Watermark.Past 0 d.lastValidFrameEnd p := by
    intro last hlast
    have hle := h.mark last hlast
    omega
  have hold (a : ℕ × LocatedFrame) (ha : a ∈ taken) :
      endOf a ≤ past.length - VITERBI_OUTPUT_DELAY :=
    (scanned_ends _ _ _ a.2 (h.sound a ha).found).2.1
  have hsift := @Watermark.sift_increasing _ endOf (d.observe more).good 0 d.lastValidFrameEnd cs
  have hsifted := @Watermark.mem_sift _ endOf (d.observe more).good 0 d.lastValidFrameEnd
  refine ⟨Watermark.sift endOf (d.observe more).good 0 d.lastValidFrameEnd cs,
    hprofile.trans h.profile, ?_, ?_, ?_, ?_, ?_, ?_, ?_, ?_, ?_, ?_⟩
  · rw [hreceived, h.received, List.length_append]
  · rw [hlanes, length_lanes_observe, h.count]
  · intro hypothesis lane hlane
    rw [hlanes] at hlane
    obtain ⟨before, hbefore, rfl⟩ := lanes_observe hlane
    exact ((h.lanes hypothesis before hbefore).push more).1
  · intro p position hposition
    rw [hweak] at hposition
    exact h.known_push more (List.dropWhile_subset _ hposition)
  · intro p position hposition hlate
    rw [List.length_append] at hlate
    have hend : (d.observe more).recoveredEnd =
        d.symbolsReceived + more.length - VITERBI_OUTPUT_DELAY := by
      unfold recoveredEnd
      rw [show (d.observe more).interleaved = false from hinterleaved]
      rfl
    rw [hweak]
    apply DecodeLane.mem_dropWhile (h.kept_push more hposition (by omega))
    rw [decide_eq_false_iff_not, hend, h.received]
    omega
  · intro last hlast
    rw [hmark] at hlast
    rw [List.length_append]
    rcases Watermark.mem_markAfter hlast with hearlier | ⟨a, ha, rfl⟩
    · have hle := h.mark last hearlier
      omega
    · have hends := (scanned_ends _ _ _ a.2 (hmem a (hsifted ha).1).2.1).2.1
      rwa [List.length_append] at hends
  · rw [hproducts, h.products, ← pushZones_append]
  · refine List.pairwise_append.2 ⟨h.increasing, hsift.2, fun a ha b hb => ?_⟩
    have hlow := hold a ha
    have hhigh := (hmem b (hsifted hb).1).2.2
    omega
  · intro a ha
    rcases List.mem_append.1 ha with hearlier | hfresh
    · have hsound := h.sound a hearlier
      have hlt := hsound.lane
      obtain ⟨lane, hlane⟩ : ∃ lane, d.lanes[a.1]? = some lane :=
        ⟨_, List.getElem?_eq_getElem (h.count ▸ hlt)⟩
      exact ⟨hlt, ((hnew a lane hlane).2.1 a.2).2 (.inl hsound.found), hsound.valid,
        (touchedBy_later hsound.found _ more).trans hsound.covered⟩
    · obtain ⟨hc, hgoodA⟩ := hsifted hfresh
      exact (hgood a hc).1 hgoodA
  · intro c hc
    obtain ⟨lane, hlane⟩ : ∃ lane, d.lanes[c.1]? = some lane :=
      ⟨_, List.getElem?_eq_getElem (h.count ▸ hc.lane)⟩
    -- a frame of the old stream has been answered; one of the new symbols is a candidate
    rcases ((hnew c lane hlane).2.1 c.2).1 hc.found with hearlier | hfresh
    · obtain ⟨a, ha, hend⟩ := h.complete c ⟨hc.lane, hearlier, hc.valid,
        (touchedBy_later hearlier _ more).symm.trans hc.covered⟩
      exact ⟨a, List.mem_append_left _ ha, hend⟩
    · have hmemC := (hcandidates c).2 ⟨lane, hlane, hfresh⟩
      obtain ⟨a, ha, hend⟩ := Watermark.sift_complete hsorted hmemC ((hgood c hmemC).2 hc)
        (hpast _ (hmem c hmemC).2.2)
      exact ⟨a, List.mem_append_right _ ha, hend⟩

theorem flatten_batches (symbols : List RecoveredSymbol) : (batches symbols).flatten = symbols := by
  induction hn : symbols.length using Nat.strong_induction_on generalizing symbols with
  | _ n ih =>
  unfold batches
  split
  · next h => exact h.symm
  · next h =>
    have hpos := List.length_pos_of_ne_nil h
    rw [List.flatten_cons, ih (symbols.drop 1024).length (by rw [List.length_drop]; omega) _ rfl,
      List.take_append_drop]

theorem pushAll_eq (n : Numerics π) (d : LrptDecoder π) (calls : List (List RecoveredSymbol)) :
    d.pushAll n calls = (calls.flatMap batches).foldl (pushSymbolBatch n) d := by
  induction calls generalizing d with
  | nil => rfl
  | cons symbols calls ih =>
    rw [List.flatMap_cons, List.foldl_append, ← pushRecoveredSymbols, ← ih]
    rfl

theorem flatten_flatMap_batches (calls : List (List RecoveredSymbol)) :
    (calls.flatMap batches).flatten = calls.flatten := by
  induction calls with
  | nil => rfl
  | cons symbols calls ih =>
    rw [List.flatMap_cons, List.flatten_append, flatten_batches, ih, List.flatten_cons]

theorem following_batches (hplain : start.interleaved = false)
    (pieces : List (List RecoveredSymbol)) : ∃ taken, Following n start pieces.flatten taken
      (pieces.foldl (pushSymbolBatch n) start.resetStream) := by
  induction pieces using List.reverseRecOn with
  | nil => exact ⟨[], following_reset n hplain⟩
  | append_singleton pieces symbols ih =>
    obtain ⟨taken, hfollowing⟩ := ih
    obtain ⟨fresh, hnext⟩ := hfollowing.push hplain symbols
    rw [List.flatten_append, List.flatten_singleton, List.foldl_append]
    exact ⟨_, hnext⟩

/-- **Each position once.** Whatever symbols a decoder without deinterleavers is given after a
    reset, and however they are cut: the frames it takes end at increasing positions, each one is
    found in its lane by a scan of the whole stream, is valid and covers no weak symbol, and at
    every position where some lane has such a frame one is taken. The packets that reach the images
    are those of the frames taken, in order. -/
theorem accepts_once (n : Numerics π) (d : LrptDecoder π) (h : d.interleaved = false)
    (calls : List (List RecoveredSymbol)) : ∃ taken : List (ℕ × LocatedFrame),
      (taken.Pairwise fun a b => endOf a < endOf b) ∧
      (∀ a ∈ taken, Acceptable d.profile calls.flatten a) ∧
      (∀ c, Acceptable d.profile calls.flatten c → ∃ a ∈ taken, endOf a = endOf c) ∧
      ((d.resetStream.pushAll n calls).reassembler, (d.resetStream.pushAll n calls).images) =
        pushZones n (PacketReassembler.new, d.images) taken := by
  obtain ⟨taken, hfollowing⟩ := @following_batches _ n d h (calls.flatMap batches)
  rw [flatten_flatMap_batches, ← pushAll_eq] at hfollowing
  exact ⟨taken, hfollowing.increasing, hfollowing.sound, hfollowing.complete, hfollowing.products⟩

/-! ## Section 9: With deinterleavers -/

theorem pushAll_concat (lane : DecodeLane) (hypothesis : ℕ) (pieces : List (List RecoveredSymbol))
    (symbols : List RecoveredSymbol) : lane.pushAll hypothesis (pieces ++ [symbols]) =
      (((lane.pushAll hypothesis pieces).1.pushSymbols symbols hypothesis).1,
        (lane.pushAll hypothesis pieces).2 ++
          ((lane.pushAll hypothesis pieces).1.pushSymbols symbols hypothesis).2) := by
  induction pieces generalizing lane with
  | nil => simp [DecodeLane.pushAll]
  | cons piece pieces ih =>
    rw [List.cons_append]
    simp only [DecodeLane.pushAll]
    rw [ih, List.append_assoc]

/-- A frame that some lock of the deinterleaver of its lane brings, without erasures. -/
def Gated (pieces : List (List RecoveredSymbol)) (c : ℕ × LocatedFrame) : Prop :=
  ∃ locks : List Lock,
    MeteorDeinterleaver.new.pushAll
        (pieces.map fun symbols => symbols.flatMap (·.channelBits c.1)) =
      transport (pieces.flatten.flatMap (·.channelBits c.1)) locks ∧
    ∃ l ∈ locks, c.2 ∈ gated l.firstWireBit
      (l.bits (pieces.flatten.flatMap (·.channelBits c.1)))

theorem gated_of_mem {pieces : List (List RecoveredSymbol)} {c : ℕ × LocatedFrame}
    (h : c.2 ∈ ((DecodeLane.forProfile (some .oqpsk80Interleaved)).pushAll c.1 pieces).2) :
    Gated pieces c := by
  obtain ⟨locks, htransport, -⟩ := DecodeLane.pushAll_locks
    (pieces.map fun symbols => symbols.flatMap (·.channelBits c.1))
  rw [DecodeLane.flatten_channelBits] at htransport
  rw [DecodeLane.pushAll_transport htransport] at h
  exact ⟨locks, htransport, List.mem_flatMap.1 h⟩

theorem mem_of_gated {pieces : List (List RecoveredSymbol)} {c : ℕ × LocatedFrame}
    (h : Gated pieces c) :
    c.2 ∈ ((DecodeLane.forProfile (some .oqpsk80Interleaved)).pushAll c.1 pieces).2 := by
  obtain ⟨locks, htransport, hlock⟩ := h
  rw [DecodeLane.pushAll_transport htransport]
  exact List.mem_flatMap.2 hlock

/-- Every frame of a lane is a whole one. -/
theorem length_of_gated {pieces : List (List RecoveredSymbol)} {c : ℕ × LocatedFrame}
    (h : Gated pieces c) : c.2.bytes.length = CADU_LEN_BYTES := by
  obtain ⟨locks, -, l, -, hframe⟩ := h
  unfold gated at hframe
  dsimp only at hframe
  obtain ⟨late, hlate, hobserved⟩ := List.mem_map.1 hframe
  obtain ⟨early, hearly, rfl⟩ := List.mem_map.1 (List.mem_filter.1 hlate).1
  rw [← hobserved]
  exact length_bytes validateCadu 0 _ early hearly

/-- A decoder of the 80k profile that has read some batches since a reset. -/
structure Merging (n : Numerics π) (start : LrptDecoder π) (pieces : List (List RecoveredSymbol))
    (taken : List (ℕ × LocatedFrame)) (d : LrptDecoder π) : Prop where
  profile    : d.profile = some .oqpsk80Interleaved
  count      : d.lanes.length = 16
  lanes      : ∀ (h : ℕ) (lane : DecodeLane), d.lanes[h]? = some lane →
    lane = ((DecodeLane.forProfile (some .oqpsk80Interleaved)).pushAll h pieces).1
  mark       : d.lastValidFrameEnd = Watermark.markAfter endOf none taken
  products   : (d.reassembler, d.images) = pushZones n (PacketReassembler.new, start.images) taken
  increasing : taken.Pairwise fun a b => endOf a + 1 < endOf b
  sound      : ∀ a ∈ taken, a.1 < 16 ∧ validateCadu a.2.bytes = true ∧
    a.2 ∈ ((DecodeLane.forProfile (some .oqpsk80Interleaved)).pushAll a.1 pieces).2
  complete   : ∀ c : ℕ × LocatedFrame, c.1 < 16 → validateCadu c.2.bytes = true →
    c.2 ∈ ((DecodeLane.forProfile (some .oqpsk80Interleaved)).pushAll c.1 pieces).2 →
    ∃ a ∈ taken, endOf c ≤ endOf a + 1

theorem merging_reset (n : Numerics π) (h : start.profile = some .oqpsk80Interleaved) :
    Merging n start [] [] start.resetStream where
  profile := h
  count := List.length_replicate
  lanes := by
    intro hypothesis lane hlane
    obtain rfl := List.eq_of_mem_replicate (List.mem_of_getElem? hlane)
    rw [h]
    rfl
  mark := rfl
  products := rfl
  increasing := .nil
  sound := nofun
  complete := fun _ _ _ hframe => nomatch hframe

/-- One batch. -/
theorem Merging.push {pieces : List (List RecoveredSymbol)} (h : Merging n start pieces taken d)
    (symbols : List RecoveredSymbol) : ∃ fresh,
      Merging n start (pieces ++ [symbols]) (taken ++ fresh) (d.pushSymbolBatch n symbols) := by
  have hinterleaved : d.interleaved = true := by
    unfold interleaved
    rw [h.profile]
    rfl
  have htolerance : d.interleaved.toNat = 1 := congrArg Bool.toNat hinterleaved
  have hgrown (c : ℕ × LocatedFrame) (hc : c ∈ d.laneFrames symbols) : c.1 < 16 ∧
      c.2 ∈ ((DecodeLane.forProfile (some .oqpsk80Interleaved)).pushAll c.1
        (pieces ++ [symbols])).2 := by
    obtain ⟨lane, hlane, hframe⟩ := (mem_laneFrames d symbols c).1 hc
    obtain rfl := h.lanes c.1 lane hlane
    have hlt := (List.getElem?_eq_some_iff.1 hlane).1
    rw [h.count] at hlt
    rw [pushAll_concat]
    exact ⟨hlt, List.mem_append_right _ hframe⟩
  obtain ⟨-, hcandidates, hprofile, hlanes, -, -, hmark, hproducts⟩ :=
    pushSymbolBatch_spec n d symbols fun c hc => length_of_gated (gated_of_mem (hgrown c hc).2)
  generalize (d.laneFrames symbols).mergeSort (precedes d.selectedLane) = cs at *
  rw [htolerance] at hmark hproducts
  have hsift := @Watermark.sift_increasing _ endOf (d.observe symbols).good 1 d.lastValidFrameEnd cs
  have hsifted := @Watermark.mem_sift _ endOf (d.observe symbols).good 1 d.lastValidFrameEnd
  refine ⟨Watermark.sift endOf (d.observe symbols).good 1 d.lastValidFrameEnd cs,
    hprofile.trans h.profile, ?_, ?_, ?_, ?_, ?_, ?_, ?_⟩
  · rw [hlanes, length_lanes_observe, h.count]
  · intro hypothesis lane hlane
    rw [hlanes] at hlane
    obtain ⟨before, hbefore, rfl⟩ := lanes_observe hlane
    rw [pushAll_concat, ← h.lanes hypothesis before hbefore]
  · rw [hmark, h.mark, Watermark.markAfter_append]
  · rw [hproducts, h.products, ← pushZones_append]
  · refine List.pairwise_append.2 ⟨h.increasing, hsift.2, fun a ha b hb => ?_⟩
    -- the mark is the last end, so it bounds them all
    have hordered : taken.Pairwise fun a b => endOf a ≤ endOf b :=
      h.increasing.imp fun hlt => by omega
    obtain ⟨last, hlast, hle⟩ := @Watermark.le_markAfter _ endOf none _ _ hordered ha
    rw [← h.mark] at hlast
    have hpast := hsift.1 b hb last hlast
    omega
  · intro a ha
    rcases List.mem_append.1 ha with hearlier | hfresh
    · obtain ⟨hlt, hvalid, hframe⟩ := h.sound a hearlier
      rw [pushAll_concat]
      exact ⟨hlt, hvalid, List.mem_append_left _ hframe⟩
    · obtain ⟨hc, hgood⟩ := hsifted hfresh
      obtain ⟨hlt, hframe⟩ := hgrown a ((mem_laneFrames d symbols a).2 ((hcandidates a).1 hc))
      unfold good at hgood
      rw [Bool.and_eq_true] at hgood
      exact ⟨hlt, hgood.2, hframe⟩
  · intro c hlt hvalid hframe
    rw [pushAll_concat] at hframe
    rcases List.mem_append.1 hframe with hearlier | hfresh
    · obtain ⟨a, ha, hle⟩ := h.complete c hlt hvalid hearlier
      exact ⟨a, List.mem_append_left _ ha, hle⟩
    · obtain ⟨lane, hlane⟩ : ∃ lane, d.lanes[c.1]? = some lane :=
        ⟨_, List.getElem?_eq_getElem (h.count ▸ hlt)⟩
      rw [← h.lanes c.1 lane hlane] at hfresh
      have hc := (hcandidates c).2 ⟨lane, hlane, hfresh⟩
      have hgood : (d.observe symbols).good c = true := by
        unfold good
        rw [show (d.observe symbols).interleaved = true from hinterleaved, hvalid]
        rfl
      -- what is not taken lies at the mark or before it, which some frame has set
      rcases @Watermark.sift_near _ endOf (d.observe symbols).good 1 d.lastValidFrameEnd c cs hc
        hgood with ⟨m, hm, hle⟩ | ⟨a, ha, hle⟩
      · rw [h.mark] at hm
        rcases Watermark.mem_markAfter hm with hnone | ⟨a, ha, rfl⟩
        · cases hnone
        · exact ⟨a, List.mem_append_left _ ha, hle⟩
      · exact ⟨a, List.mem_append_right _ ha, hle⟩

theorem merging_batches (h : start.profile = some .oqpsk80Interleaved)
    (pieces : List (List RecoveredSymbol)) : ∃ taken,
      Merging n start pieces taken (pieces.foldl (pushSymbolBatch n) start.resetStream) := by
  induction pieces using List.reverseRecOn with
  | nil => exact ⟨[], merging_reset n h⟩
  | append_singleton pieces symbols ih =>
    obtain ⟨taken, hmerging⟩ := ih
    obtain ⟨fresh, hnext⟩ := hmerging.push symbols
    rw [List.foldl_append]
    exact ⟨_, hnext⟩

/-- **Nothing twice, nothing erased.** With deinterleavers: the frames taken after a reset end more
    than one symbol apart, and each one is valid and is brought by a lock of the deinterleaver of
    its lane with no erased bit in it, whatever lanes lock and at whatever delays. Every valid frame
    that is brought so is taken, unless one is taken that ends later or at most one symbol
    earlier. -/
theorem takes_gated (n : Numerics π) (d : LrptDecoder π) (h : d.profile = some .oqpsk80Interleaved)
    (calls : List (List RecoveredSymbol)) : ∃ taken : List (ℕ × LocatedFrame),
      (taken.Pairwise fun a b => endOf a + 1 < endOf b) ∧
      (∀ a ∈ taken, a.1 < 16 ∧ validateCadu a.2.bytes = true ∧ Gated (calls.flatMap batches) a) ∧
      (∀ c : ℕ × LocatedFrame, c.1 < 16 → validateCadu c.2.bytes = true →
        Gated (calls.flatMap batches) c → ∃ a ∈ taken, endOf c ≤ endOf a + 1) ∧
      ((d.resetStream.pushAll n calls).reassembler, (d.resetStream.pushAll n calls).images) =
        pushZones n (PacketReassembler.new, d.images) taken := by
  obtain ⟨taken, hmerging⟩ := @merging_batches _ n d h (calls.flatMap batches)
  rw [← pushAll_eq] at hmerging
  refine ⟨taken, hmerging.increasing, fun a ha => ?_, fun c hlt hvalid hgated => ?_,
    hmerging.products⟩
  · obtain ⟨hlt, hvalid, hframe⟩ := hmerging.sound a ha
    exact ⟨hlt, hvalid, gated_of_mem hframe⟩
  · exact hmerging.complete c hlt hvalid (mem_of_gated hgated)

/-! ## Section 10: From the encoder -/

/-- A frame as it is sent: the marker, then the randomized bytes. -/
def sentCadu (frame : List UInt8) : List UInt8 :=
  [(SYNC_MARKER >>> 24).toUInt8, (SYNC_MARKER >>> 16).toUInt8, (SYNC_MARKER >>> 8).toUInt8,
    SYNC_MARKER.toUInt8] ++ derandomize frame

theorem length_sentCadu {frame : List UInt8} (h : frame.length = INTERLEAVED_FRAME_LEN) :
    (sentCadu frame).length = CADU_LEN_BYTES := by
  unfold sentCadu
  rw [List.length_append, length_derandomize, h]
  rfl

/-- What the encoder makes of a payload. -/
structure Sent (payload frame : List UInt8) : Prop where
  length : (sentCadu frame).length = CADU_LEN_BYTES
  valid  : validateCadu (sentCadu frame) = true
  zone   : caduZone (sentCadu frame) = packetZone payload

theorem returns_sent {payload : List UInt8} (h : payload.length = RS_DATA_LEN * INTERLEAVE) :
    Returns (encodeInterleaved payload) (Sent payload) := by
  refine (decode_encodeInterleaved h).imp fun frame ⟨hlength, hdecode⟩ => ?_
  have hdrop : derandomize ((sentCadu frame).drop 4) = frame := derandomize_derandomize frame
  have hvalid : validateCadu (sentCadu frame) = true := by
    unfold validateCadu
    rw [hdrop, hdecode]
    rfl
  refine ⟨length_sentCadu hlength, hvalid, ?_⟩
  unfold caduZone
  rw [if_pos hvalid, hdrop, hdecode]

/-- Several frames in a row. -/
def processAll (n : Numerics π) (d : LrptDecoder π) (cadus : List (List UInt8)) : LrptDecoder π :=
  cadus.foldl (fun d cadu => (d.processCaduFrame n cadu).1) d

/-- Invalid frames leave no trace in the products. -/
theorem processAll_products (n : Numerics π) (d : LrptDecoder π) {cadus : List (List UInt8)}
    (h : ∀ cadu ∈ cadus, cadu.length = CADU_LEN_BYTES) :
    ((d.processAll n cadus).reassembler, (d.processAll n cadus).images) =
      ((cadus.filter validateCadu).filterMap caduZone).foldl (pushZone n)
        (d.reassembler, d.images) := by
  induction cadus generalizing d with
  | nil => rfl
  | cons cadu cadus ih =>
    obtain ⟨-, -, -, hproducts⟩ := processCaduFrame_spec n d (h cadu List.mem_cons_self)
    have hrest := ih (d.processCaduFrame n cadu).1 fun cadu hcadu =>
      h cadu (List.mem_cons_of_mem _ hcadu)
    rw [hproducts] at hrest
    refine Eq.trans hrest ?_
    -- an invalid frame has no packet zone
    by_cases hvalid : validateCadu cadu = true
    · rw [List.filter_cons_of_pos hvalid, List.filterMap_cons]
      cases caduZone cadu with
      | none => rfl
      | some zone => rfl
    · have hzone : caduZone cadu = none := if_neg hvalid
      rw [List.filter_cons_of_neg hvalid, hzone]
      rfl

theorem zones_sent {payloads frames : List (List UInt8)} (h : List.Forall₂ Sent payloads frames) :
    (frames.map sentCadu).filterMap caduZone = payloads.filterMap packetZone := by
  induction h with
  | nil => rw [List.map_nil, List.filterMap_nil, List.filterMap_nil]
  | cons hone _ ih => rw [List.map_cons, List.filterMap_cons, List.filterMap_cons, hone.zone, ih]

/-- **Sent is received.** Every list of payloads is encoded into frames that the decoder accepts,
    and however many invalid frames come between them, the packets that reach the images are those
    of the payloads, in the order in which they were sent. -/
theorem sent_received (n : Numerics π) (d : LrptDecoder π) {payloads : List (List UInt8)}
    (h : ∀ payload ∈ payloads, payload.length = RS_DATA_LEN * INTERLEAVE) :
    Returns (payloads.mapM encodeInterleaved) fun frames =>
      (∀ frame ∈ frames, (sentCadu frame).length = CADU_LEN_BYTES ∧
        validateCadu (sentCadu frame) = true) ∧
      ∀ received : List (List UInt8), (∀ cadu ∈ received, cadu.length = CADU_LEN_BYTES) →
        received.filter validateCadu = frames.map sentCadu →
        ((d.processAll n received).reassembler, (d.processAll n received).images) =
          (payloads.filterMap packetZone).foldl (pushZone n) (d.reassembler, d.images) := by
  refine (returns_mapM fun payload hpayload => returns_sent (h payload hpayload)).imp
    fun frames hsent => ⟨fun frame hframe => ?_, fun received hlength hvalid => ?_⟩
  · obtain ⟨i, hi, rfl⟩ := List.getElem_of_mem hframe
    have hone := hsent.get (hsent.length_eq ▸ hi) hi
    exact ⟨hone.length, hone.valid⟩
  · rw [processAll_products n d hlength, hvalid, zones_sent hsent]

/-- Image packets without a segment in them. -/
def blank : Numerics Unit where
  decodeSegment := fun _ => none
  groupPeriod := ()
  elapsedGroups := fun _ _ => 0
  observedPeriod := fun _ _ => none

/-- Two payloads with nothing between them. -/
theorem sent_received_two :
    let payloads := [(0 : UInt8), 255].map (List.replicate (RS_DATA_LEN * INTERLEAVE))
    let d := forMission blank .oqpsk72
    Returns (payloads.mapM encodeInterleaved) fun frames =>
      ((d.processAll blank (frames.map sentCadu)).reassembler,
          (d.processAll blank (frames.map sentCadu)).images) =
        (payloads.filterMap packetZone).foldl (pushZone blank) (d.reassembler, d.images) := by
  intro payloads d
  have hlength : ∀ payload ∈ payloads, payload.length = RS_DATA_LEN * INTERLEAVE :=
    List.forall_mem_map.2 fun _ _ => List.length_replicate
  refine (sent_received blank d hlength).imp fun frames ⟨hframes, hreceived⟩ => ?_
  apply hreceived
  · exact List.forall_mem_map.2 fun frame hframe => (hframes frame hframe).1
  · exact List.filter_eq_self.2 (List.forall_mem_map.2 fun frame hframe => (hframes frame hframe).2)

end LrptDecoder

end Lrpt
