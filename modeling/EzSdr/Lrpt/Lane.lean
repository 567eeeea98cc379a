import EzSdr.Lrpt.CodeBlock
import EzSdr.Lrpt.FrameSync
import EzSdr.Lrpt.Interleaver
import EzSdr.Lrpt.ViterbiDecode
import EzSdr.Daemon.Spec

/-! # Decoding Lanes

    A lane decodes the stream under one hypothesis about the phase of the carrier:
    the Viterbi decoder, for missions the undoing of NRZ-M, and a framer whose
    candidates are checked with the Reed-Solomon decoder. For the 80k profile the
    deinterleaver comes first, and its erasures withhold the frames they touch.

    `gated` is what a lane with a deinterleaver is for: a scan over all that a lock
    decodes, less the frames with an erasure. **`pushAll_gated`** says that the lane
    delivers exactly these, although it decodes block by block and forgets old
    erasures. -/

namespace Daemon.MeteorProfile

def nrzm : MeteorProfile → Bool
  | oqpsk72 | oqpsk80Interleaved => true

def interleaved : MeteorProfile → Bool
  | oqpsk72 => false
  | oqpsk80Interleaved => true

end Daemon.MeteorProfile

namespace Lrpt

open Daemon (MeteorProfile)
open Viterbi (ViterbiDecoder)

/-! ## Section 1: Model -/

def VITERBI_OUTPUT_DELAY : ℕ := 63

/-- The decisions on one complex value; `energy` is that it is finite and not close to zero. -/
structure Observed where
  reNegative : Bool
  imNegative : Bool
  energy     : Bool
deriving DecidableEq, Repr

structure RecoveredSymbol where
  value          : Observed
  alternateValue : Option Observed
deriving DecidableEq, Repr

structure DecodeLane where
  viterbi               : ViterbiDecoder
  plainFramer           : FrameSync
  nrzmFramer            : FrameSync
  nrzmPrevious          : Option UInt8
  profile               : Option MeteorProfile
  interleaver           : Option MeteorDeinterleaver
  transportGeneration   : ℕ
  transportBitsReceived : ℕ
  /-- The oldest erasure first. -/
  transportErasures     : List ℕ

/-- The value a hypothesis reads of a symbol: its bit 3 takes the other pairing. -/
def RecoveredSymbol.observed (symbol : RecoveredSymbol) (hypothesis : ℕ) : Observed :=
  if hypothesis &&& 8 ≠ 0 then symbol.alternateValue.getD symbol.value else symbol.value

/-- The two coded bits of a symbol: bit 2 of the hypothesis exchanges the axes, bits 0 and 1
    invert them. -/
def RecoveredSymbol.coded (symbol : RecoveredSymbol) (hypothesis : ℕ) : List UInt8 :=
  let value := symbol.observed hypothesis
  let first := value.reNegative.toUInt8
  let second := value.imNegative.toUInt8
  let (first, second) := if hypothesis &&& 4 ≠ 0 then (second, first) else (first, second)
  [first ^^^ (hypothesis &&& 1 ≠ 0 : Bool).toUInt8, second ^^^ (hypothesis &&& 2 ≠ 0 : Bool).toUInt8]

/-- The coded bits with their validity. -/
def RecoveredSymbol.channelBits (symbol : RecoveredSymbol) (hypothesis : ℕ) : List ChannelBit :=
  (symbol.coded hypothesis).map fun value => ⟨value, (symbol.observed hypothesis).energy⟩

/-- The closure `validate` of `push_coded_bits`. -/
def validateCadu (cadu : List UInt8) : Bool :=
  let result := decodeInterleaved (derandomize (cadu.drop 4))
  result.codewordsFailed == 0 && result.codewordsOk == 4

/-- The loop that undoes NRZ-M: the first bit only sets the level. -/
def undoNrzm : Option UInt8 → List UInt8 → Option UInt8 × List UInt8
  | previous, [] => (previous, [])
  | previous, bit :: bits =>
    let (last, nrzm) := undoNrzm (some bit) bits
    (last, (previous.map (· ^^^ bit)).toList ++ nrzm)

/-- The NRZ-M framer's clock is one bit late. -/
def LocatedFrame.late (frame : LocatedFrame) : LocatedFrame :=
  { frame with endBit := frame.endBit + 1 }

namespace DecodeLane

def new : DecodeLane where
  viterbi := ViterbiDecoder.new
  plainFramer := FrameSync.new
  nrzmFramer := FrameSync.new
  nrzmPrevious := none
  profile := none
  interleaver := none
  transportGeneration := 0
  transportBitsReceived := 0
  transportErasures := []

def forProfile (profile : Option MeteorProfile) : DecodeLane :=
  { new with
    profile := profile
    interleaver := (profile.filter (·.interleaved)).map fun _ => MeteorDeinterleaver.new }

def pushCodedBits (lane : DecodeLane) (coded : List UInt8) : DecodeLane × List LocatedFrame :=
  let (viterbi, recovered) := lane.viterbi.pushBits coded
  let lane := { lane with viterbi := viterbi }
  let (lane, frames) :=
    if lane.profile.all (!·.nrzm) then
      let (framer, frames) := lane.plainFramer.pushBitsLocated validateCadu recovered
      ({ lane with plainFramer := framer }, frames)
    else (lane, [])
  if lane.profile.any (!·.nrzm) then (lane, frames)
  else
    let (previous, nrzm) := undoNrzm lane.nrzmPrevious recovered
    let (framer, nrzmFrames) := lane.nrzmFramer.pushBitsLocated validateCadu nrzm
    ({ lane with nrzmPrevious := previous, nrzmFramer := framer },
      frames ++ nrzmFrames.map LocatedFrame.late)

end DecodeLane

/-- `observed_symbol_end`: where a decoded bit ends among the symbols received. -/
def observedSymbolEnd (firstWireBit informationEnd : ℕ) : ℕ :=
  let lastData := informationEnd * 2 - 1
  let lastWire := firstWireBit + lastData / DATA_BITS * WIRE_BITS + lastData % DATA_BITS
  (lastWire + 1 + 1) / 2

/-- The frame with its end in the symbol clock. -/
def LocatedFrame.observedFrom (frame : LocatedFrame) (firstWireBit : ℕ) : LocatedFrame :=
  { frame with endBit := observedSymbolEnd firstWireBit (frame.endBit + VITERBI_OUTPUT_DELAY) }

/-- An erasure lies in the frame. -/
def LocatedFrame.touchedBy (frame : LocatedFrame) (erasures : List ℕ) : Bool :=
  erasures.any fun index => frame.endBit - CADU_BITS ≤ index && index < frame.endBit

namespace DecodeLane

/-- Everything but the profile, the deinterleaver and the generation starts again. -/
def startGeneration (lane : DecodeLane) (generation : ℕ) : DecodeLane :=
  { new with
    profile := lane.profile, interleaver := lane.interleaver, transportGeneration := generation }

/-- The erasures of a block, in decoded bits. -/
def erasuresOf (received : ℕ) (bits : List ChannelBit) : List ℕ :=
  bits.zipIdx.filterMap fun (bit, index) =>
    if bit.valid then none else some ((received + index) / 2)

/-- The body of the loop of `push_transport_blocks`. -/
def pushTransportBlock (lane : DecodeLane) (block : TransportBlock) :
    DecodeLane × List LocatedFrame :=
  let lane := if block.generation ≠ lane.transportGeneration then
    lane.startGeneration block.generation else lane
  let erasures := lane.transportErasures ++ erasuresOf lane.transportBitsReceived block.bits
  let received := lane.transportBitsReceived + block.bits.length
  let (lane, recovered) := lane.pushCodedBits (block.bits.map (·.value))
  let frames := recovered.filter fun frame => !frame.touchedBy erasures
  let oldest := received / 2 - (VITERBI_OUTPUT_DELAY + CADU_BITS)
  ({ lane with
      transportBitsReceived := received
      transportErasures := erasures.dropWhile fun index => index < oldest },
    frames.map (·.observedFrom block.firstWireBit))

def pushTransportBlocks (lane : DecodeLane) : List TransportBlock → DecodeLane × List LocatedFrame
  | [] => (lane, [])
  | block :: blocks =>
    let (next, frames) := lane.pushTransportBlock block
    let (last, more) := next.pushTransportBlocks blocks
    (last, frames ++ more)

def pushSymbols (lane : DecodeLane) (symbols : List RecoveredSymbol) (hypothesis : ℕ) :
    DecodeLane × List LocatedFrame :=
  match lane.interleaver with
  | some stage =>
    let (stage, blocks) := stage.pushBits (symbols.flatMap (·.channelBits hypothesis))
    { lane with interleaver := some stage }.pushTransportBlocks blocks
  | none => lane.pushCodedBits (symbols.flatMap (·.coded hypothesis))

/-- Symbols in several calls. -/
def pushAll (lane : DecodeLane) (hypothesis : ℕ) :
    List (List RecoveredSymbol) → DecodeLane × List LocatedFrame
  | [] => (lane, [])
  | symbols :: calls =>
    let (next, frames) := lane.pushSymbols symbols hypothesis
    let (last, more) := next.pushAll hypothesis calls
    (last, frames ++ more)

end DecodeLane

/-! ## Section 2: The Viterbi decoder's latency -/

/-- The bits decoded from a coded stream. -/
def recovered (coded : List UInt8) : List UInt8 := (ViterbiDecoder.new.pushBits coded).2

theorem length_recovered {coded : List UInt8} {n : ℕ} (h : coded.length = 2 * n) :
    (recovered coded).length = n - 63 := by
  have hdepth : ViterbiDecoder.new.decisions.length = 0 := rfl
  have hlength := @Viterbi.stepAll_length ViterbiDecoder.new (hdepth ▸ Nat.zero_le 63) (Viterbi.symbolsOf coded)
  rw [hdepth, Viterbi.symbolsOf_length h, Nat.zero_add] at hlength
  unfold recovered
  rw [Viterbi.pushBits_none rfl, Viterbi.steps_eq_stepAll _ h, hlength]

/-! ## Section 3: NRZ-M -/

theorem undoNrzm_append (previous : Option UInt8) (xs ys : List UInt8) :
    undoNrzm previous (xs ++ ys) =
      ((undoNrzm (undoNrzm previous xs).1 ys).1,
        (undoNrzm previous xs).2 ++ (undoNrzm (undoNrzm previous xs).1 ys).2) := by
  induction xs generalizing previous with
  | nil => rfl
  | cons bit xs ih =>
    rw [List.cons_append]
    simp only [undoNrzm]
    rw [ih, List.append_assoc]

theorem length_undoNrzm (previous : Option UInt8) (bits : List UInt8) :
    (undoNrzm previous bits).2.length = previous.toList.length + bits.length - 1 := by
  induction bits generalizing previous with
  | nil =>
    cases previous with
    | none => rfl
    | some bit => rfl
  | cons bit bits ih =>
    simp only [undoNrzm, List.length_append, List.length_cons]
    rw [ih]
    cases previous with
    | none => simp
    | some level => simp [Nat.add_comm]

/-- The information bits of a coded stream with NRZ-M. -/
def information (coded : List UInt8) : List UInt8 := (undoNrzm none (recovered coded)).2

theorem length_information {coded : List UInt8} {n : ℕ} (h : coded.length = 2 * n) :
    (information coded).length = n - 64 := by
  unfold information
  rw [length_undoNrzm, length_recovered h, Option.toList_none, List.length_nil]
  omega

/-! ## Section 4: Where frames end -/

/-- Frames end in order, past a whole frame and within the stream. -/
theorem greedy_ends (validate : List UInt8 → Bool) (position : ℕ) (stream : List UInt8) :
    (greedy validate position stream).Pairwise (·.endBit < ·.endBit) ∧
      ∀ frame ∈ greedy validate position stream,
        position + CADU_BITS ≤ frame.endBit ∧ frame.endBit ≤ position + stream.length := by
  have hcadu : CADU_BITS = 8192 := rfl
  induction hn : stream.length using Nat.strong_induction_on generalizing position stream with
  | _ n ih =>
  match hfirst : firstMarker stream with
  | none =>
    rw [greedy_none hfirst]
    exact ⟨.nil, nofun⟩
  | some k =>
    by_cases hshort : stream.length < k + 8192
    · rw [greedy_incomplete hfirst hshort]
      exact ⟨.nil, nofun⟩
    rw [greedy_frame hfirst (by omega)]
    generalize hskip : (if validate (bitsToBytesMsb ((stream.drop k).take 8192)) then 8192 else 1) =
      skip
    have hskip : 1 ≤ skip ∧ skip ≤ 8192 := by
      rw [← hskip]
      split
      · omega
      · omega
    obtain ⟨hpairwise, hends⟩ := ih (stream.drop (k + skip)).length
      (by rw [List.length_drop]; omega) (position + k + skip) _ rfl
    rw [List.length_drop] at hends
    refine ⟨List.pairwise_cons.2 ⟨fun frame hframe => ?_, hpairwise⟩, fun frame hframe => ?_⟩
    · have hlater := (hends frame hframe).1
      show position + k + 8192 < frame.endBit
      omega
    · rcases List.mem_cons.1 hframe with rfl | hlater
      · show position + CADU_BITS ≤ position + k + 8192 ∧ position + k + 8192 ≤ _
        omega
      · have hlater := hends frame hlater
        omega

/-- A framer that has been given some bits, and the frames it has put out. -/
def FrameSync.After (s : FrameSync) (bits : List UInt8) (frames : List LocatedFrame) : Prop :=
  ∃ pieces : List (List UInt8), pieces.flatten = bits ∧
    FrameSync.new.pushAll validateCadu pieces = (s, frames)

namespace FrameSync

theorem pushAll_concat (validate : List UInt8 → Bool) (s : FrameSync) (pieces : List (List UInt8))
    (bits : List UInt8) : s.pushAll validate (pieces ++ [bits]) =
      (((s.pushAll validate pieces).1.pushBitsLocated validate bits).1,
        (s.pushAll validate pieces).2 ++
          ((s.pushAll validate pieces).1.pushBitsLocated validate bits).2) := by
  induction pieces generalizing s with
  | nil => simp [pushAll]
  | cons piece pieces ih =>
    rw [List.cons_append]
    simp only [pushAll]
    rw [ih, List.append_assoc]

variable {s : FrameSync} {bits : List UInt8} {frames : List LocatedFrame}

theorem after_new : new.After [] [] := ⟨[], rfl, rfl⟩

/-- The frames are those of a scan over all bits. -/
theorem After.greedy (h : s.After bits frames) : frames = greedy validateCadu 0 bits := by
  obtain ⟨pieces, rfl, hpieces⟩ := h
  have hstart : Between validateCadu new := between_new
  have hrest : (Search.scanner validateCadu).scan new.search new.bitBuffer = none := hstart.rest
  have hout := (hstart.pushAll pieces).1
  rw [hpieces, (Search.scanner validateCadu).feed_eq_drain pieces hrest,
    Search.drain_greedy] at hout
  exact hout

theorem After.push (h : s.After bits frames) (more : List UInt8) :
    (s.pushBitsLocated validateCadu more).1.After (bits ++ more)
      (frames ++ (s.pushBitsLocated validateCadu more).2) := by
  obtain ⟨pieces, rfl, hpieces⟩ := h
  refine ⟨pieces ++ [more], ?_, ?_⟩
  · rw [List.flatten_append, List.flatten_singleton]
  · rw [pushAll_concat, hpieces]

theorem After.between (h : s.After bits frames) :
    Between validateCadu s ∧ s.bitsReceived = bits.length := by
  obtain ⟨pieces, rfl, hpieces⟩ := h
  induction pieces using List.reverseRecOn generalizing s frames with
  | nil =>
    obtain rfl := (Prod.mk.inj hpieces).1
    exact ⟨between_new, rfl⟩
  | append_singleton pieces more ih =>
    rw [pushAll_concat] at hpieces
    obtain rfl := (Prod.mk.inj hpieces).1
    obtain ⟨hbetween, hreceived⟩ := ih rfl
    obtain ⟨-, hbuffer, hsearch, hnext⟩ := hbetween.push more
    refine ⟨hnext, ?_⟩
    have hposition := congrArg Search.position hsearch
    have hend := @Search.drain_position validateCadu
      (FrameSync.new.pushAll validateCadu pieces).1.search
      ((FrameSync.new.pushAll validateCadu pieces).1.bitBuffer ++ more)
    have hkept := hbetween.received
    have hkept' := hnext.received
    rw [← hbuffer, ← hposition, List.length_append] at hend
    simp only [search] at hend
    rw [List.flatten_append, List.flatten_singleton, List.length_append]
    omega

/-- A frame is put out by the call that completes it. -/
theorem After.push_ends (h : s.After bits frames) (more : List UInt8) :
    ∀ frame ∈ (s.pushBitsLocated validateCadu more).2,
      bits.length < frame.endBit ∧ frame.endBit ≤ bits.length + more.length := by
  obtain ⟨hbetween, hreceived⟩ := h.between
  have hshort := hbetween.length_lt
  have hkept := hbetween.received
  have hends := (greedy_ends validateCadu s.search.position (s.bitBuffer ++ more)).2
  intro frame hframe
  rw [(hbetween.push more).1, Search.drain_greedy] at hframe
  obtain ⟨hlow, hhigh⟩ := hends frame hframe
  have hcadu : CADU_BITS = 8192 := rfl
  rw [List.length_append] at hhigh
  simp only [search] at hlow hhigh
  omega

end FrameSync

/-! ## Section 5: The decoder of a lane -/

namespace DecodeLane

variable {lane : DecodeLane} {coded more : List UInt8}

/-- A lane that has been given some coded bits, and the frames of its two framers. -/
structure Decoded (lane : DecodeLane) (coded : List UInt8) (plain nrzm : List LocatedFrame) :
    Prop where
  viterbi  : lane.viterbi = (ViterbiDecoder.new.pushBits coded).1
  previous : lane.nrzmPrevious = (undoNrzm none (recovered coded)).1
  nrzm     : lane.nrzmFramer.After (information coded) nrzm
  plain    : lane.profile = none → lane.plainFramer.After (recovered coded) plain

variable {plain nrzm : List LocatedFrame}

theorem recovered_append (coded more : List UInt8) : recovered (coded ++ more) =
    recovered coded ++ ((ViterbiDecoder.new.pushBits coded).1.pushBits more).2 := by
  unfold recovered
  rw [Viterbi.pushBits_append]

theorem information_append (coded more : List UInt8) : information (coded ++ more) =
    information coded ++ (undoNrzm (undoNrzm none (recovered coded)).1
      ((ViterbiDecoder.new.pushBits coded).1.pushBits more).2).2 := by
  unfold information
  rw [recovered_append, undoNrzm_append]

/-- What is put out by a call: frames that it has completed. -/
structure Pushed (lane : DecodeLane) (coded more : List UInt8) (plain nrzm : List LocatedFrame)
    (lane' : DecodeLane) (newPlain newNrzm : List LocatedFrame) : Prop where
  decoded     : lane'.Decoded (coded ++ more) (plain ++ newPlain) (nrzm ++ newNrzm)
  plainEnds   : ∀ frame ∈ newPlain, (recovered coded).length < frame.endBit ∧
    frame.endBit ≤ (recovered (coded ++ more)).length
  nrzmEnds    : ∀ frame ∈ newNrzm, (information coded).length < frame.endBit ∧
    frame.endBit ≤ (information (coded ++ more)).length
  profile     : lane'.profile = lane.profile
  interleaver : lane'.interleaver = lane.interleaver
  generation  : lane'.transportGeneration = lane.transportGeneration

/-- Without a profile both framers are in use. -/
theorem pushCodedBits_none (h : lane.profile = none) (more : List UInt8) :
    lane.pushCodedBits more =
      ({ lane with
          viterbi := (lane.viterbi.pushBits more).1
          plainFramer :=
            (lane.plainFramer.pushBitsLocated validateCadu (lane.viterbi.pushBits more).2).1
          nrzmPrevious := (undoNrzm lane.nrzmPrevious (lane.viterbi.pushBits more).2).1
          nrzmFramer := (lane.nrzmFramer.pushBitsLocated validateCadu
            (undoNrzm lane.nrzmPrevious (lane.viterbi.pushBits more).2).2).1 },
        (lane.plainFramer.pushBitsLocated validateCadu (lane.viterbi.pushBits more).2).2 ++
          (lane.nrzmFramer.pushBitsLocated validateCadu
            (undoNrzm lane.nrzmPrevious (lane.viterbi.pushBits more).2).2).2.map
              LocatedFrame.late) := by
  obtain ⟨viterbi, plainFramer, nrzmFramer, nrzmPrevious, profile, interleaver⟩ := lane
  obtain rfl : profile = none := h
  rfl

theorem pushCodedBits_some {mission : MeteorProfile} (h : lane.profile = some mission)
    (more : List UInt8) : lane.pushCodedBits more =
      ({ lane with
          viterbi := (lane.viterbi.pushBits more).1
          nrzmPrevious := (undoNrzm lane.nrzmPrevious (lane.viterbi.pushBits more).2).1
          nrzmFramer := (lane.nrzmFramer.pushBitsLocated validateCadu
            (undoNrzm lane.nrzmPrevious (lane.viterbi.pushBits more).2).2).1 },
        (lane.nrzmFramer.pushBitsLocated validateCadu
          (undoNrzm lane.nrzmPrevious (lane.viterbi.pushBits more).2).2).2.map
            LocatedFrame.late) := by
  obtain ⟨viterbi, plainFramer, nrzmFramer, nrzmPrevious, profile, interleaver⟩ := lane
  obtain rfl : profile = some mission := h
  cases mission with
  | oqpsk72 => rfl
  | oqpsk80Interleaved => rfl

theorem Decoded.push (h : lane.Decoded coded plain nrzm) (more : List UInt8) :
    ∃ newPlain newNrzm,
      lane.Pushed coded more plain nrzm (lane.pushCodedBits more).1 newPlain newNrzm ∧
      (lane.pushCodedBits more).2 = newPlain ++ newNrzm.map LocatedFrame.late ∧
      (lane.profile.isSome → newPlain = []) := by
  have hinformation := information_append coded more
  have hrecovered := recovered_append coded more
  have hviterbi : (ViterbiDecoder.new.pushBits (coded ++ more)).1 =
      (lane.viterbi.pushBits more).1 := by
    rw [Viterbi.pushBits_append, h.viterbi]
  rw [← h.viterbi, ← h.previous] at hinformation
  rw [← h.viterbi] at hrecovered
  have hprevious : (undoNrzm none (recovered (coded ++ more))).1 =
      (undoNrzm lane.nrzmPrevious (lane.viterbi.pushBits more).2).1 := by
    rw [hrecovered, undoNrzm_append, h.previous]
  have hnrzm := h.nrzm.push (undoNrzm lane.nrzmPrevious (lane.viterbi.pushBits more).2).2
  have hends := h.nrzm.push_ends (undoNrzm lane.nrzmPrevious (lane.viterbi.pushBits more).2).2
  rw [← hinformation] at hnrzm
  rw [← List.length_append, ← hinformation] at hends
  match hprofile : lane.profile with
  | none =>
    have hplain := (h.plain hprofile).push (lane.viterbi.pushBits more).2
    have hplainEnds := (h.plain hprofile).push_ends (lane.viterbi.pushBits more).2
    rw [← hrecovered] at hplain
    rw [← List.length_append, ← hrecovered] at hplainEnds
    rw [pushCodedBits_none hprofile]
    refine ⟨_, _, ⟨⟨hviterbi.symm, hprevious.symm, hnrzm, fun _ => hplain⟩, hplainEnds, hends,
      rfl, rfl, rfl⟩, rfl, fun h => absurd h (by rw [Option.isSome_none]; exact Bool.false_ne_true)⟩
  | some mission =>
    have hnone : lane.profile ≠ none := by
      rw [hprofile]
      exact Option.some_ne_none mission
    rw [pushCodedBits_some hprofile]
    refine ⟨[], _, ⟨⟨hviterbi.symm, hprevious.symm, hnrzm, fun h => absurd h hnone⟩, nofun, hends,
      rfl, rfl, rfl⟩, rfl, fun _ => rfl⟩

theorem decoded_forProfile (profile : Option MeteorProfile) :
    (forProfile profile).Decoded [] [] [] where
  viterbi := rfl
  previous := rfl
  nrzm := FrameSync.after_new
  plain := fun _ => FrameSync.after_new

end DecodeLane

/-! ## Section 6: Erasures -/

/-- The frames of a whole lock that no erasure touches, in the symbol clock. -/
def gated (firstWireBit : ℕ) (bits : List ChannelBit) : List LocatedFrame :=
  let frames := (greedy validateCadu 0 (information (bits.map (·.value)))).map LocatedFrame.late
  (frames.filter fun frame => !frame.touchedBy (DecodeLane.erasuresOf 0 bits)).map
    (·.observedFrom firstWireBit)

theorem LocatedFrame.touchedBy_iff {frame : LocatedFrame} {erasures : List ℕ} :
    frame.touchedBy erasures = true ↔
      ∃ index ∈ erasures, frame.endBit - CADU_BITS ≤ index ∧ index < frame.endBit := by
  unfold touchedBy
  rw [List.any_eq_true]
  simp only [Bool.and_eq_true, decide_eq_true_eq]

/-- Two lists of erasures that agree within a frame. -/
theorem LocatedFrame.touchedBy_congr {frame : LocatedFrame} {xs ys : List ℕ}
    (h : ∀ index, frame.endBit - CADU_BITS ≤ index → index < frame.endBit →
      (index ∈ xs ↔ index ∈ ys)) : frame.touchedBy xs = frame.touchedBy ys := by
  rw [Bool.eq_iff_iff, touchedBy_iff, touchedBy_iff]
  constructor
  · rintro ⟨index, hmem, hlow, hhigh⟩
    exact ⟨index, (h index hlow hhigh).1 hmem, hlow, hhigh⟩
  · rintro ⟨index, hmem, hlow, hhigh⟩
    exact ⟨index, (h index hlow hhigh).2 hmem, hlow, hhigh⟩

namespace DecodeLane

theorem erasuresOf_append (received : ℕ) (xs ys : List ChannelBit) :
    erasuresOf received (xs ++ ys) =
      erasuresOf received xs ++ erasuresOf (received + xs.length) ys := by
  unfold erasuresOf
  rw [List.zipIdx_append, List.filterMap_append, Nat.zero_add,
    @List.zipIdx_eq_map_add _ ys xs.length, List.filterMap_map]
  congr 1
  apply List.filterMap_congr
  intro x _
  simp only [Function.comp_apply, Nat.add_assoc, Nat.add_comm xs.length]

/-- Erasures come no earlier than the bits they are found in. -/
theorem le_of_mem_erasuresOf {received index : ℕ} {bits : List ChannelBit}
    (h : index ∈ erasuresOf received bits) : received / 2 ≤ index := by
  unfold erasuresOf at h
  obtain ⟨⟨bit, i⟩, -, hindex⟩ := List.mem_filterMap.1 h
  dsimp only at hindex
  split at hindex
  · cases hindex
  · obtain rfl := Option.some.inj hindex
    exact Nat.div_le_div_right (Nat.le_add_right received i)

/-- The state within a lock: all its bits have been decoded, and no erasure has been forgotten
    that a frame still to come can cover. -/
structure Gating (lane : DecodeLane) (bits : List ChannelBit) : Prop where
  mission  : lane.profile.isSome
  decoded  : ∃ plain, lane.Decoded (bits.map (·.value)) plain
    (greedy validateCadu 0 (information (bits.map (·.value))))
  received : lane.transportBitsReceived = bits.length
  known    : ∀ index ∈ lane.transportErasures, index ∈ erasuresOf 0 bits
  kept     : ∀ index ∈ erasuresOf 0 bits,
    bits.length / 2 - (VITERBI_OUTPUT_DELAY + CADU_BITS) ≤ index → index ∈ lane.transportErasures

theorem mem_dropWhile {α : Type*} {p : α → Bool} {a : α} {l : List α} (ha : a ∈ l)
    (hp : p a = false) : a ∈ l.dropWhile p := by
  rw [← List.takeWhile_append_dropWhile (p := p) (l := l)] at ha
  rcases List.mem_append.1 ha with htaken | hdropped
  · rw [List.mem_takeWhile_imp htaken] at hp
    cases hp
  · exact hdropped

/-- The state in which the next block of a generation is read. -/
def enter (lane : DecodeLane) (generation : ℕ) : DecodeLane :=
  if generation ≠ lane.transportGeneration then lane.startGeneration generation else lane

theorem enter_same {lane : DecodeLane} {generation : ℕ}
    (h : lane.transportGeneration = generation) : lane.enter generation = lane :=
  if_neg fun hne => hne h.symm

theorem generation_enter (lane : DecodeLane) (generation : ℕ) :
    (lane.enter generation).transportGeneration = generation := by
  unfold enter
  split
  · rfl
  · next h => exact (not_not.1 h).symm

theorem pushTransportBlock_enter (lane : DecodeLane) (block : TransportBlock) :
    lane.pushTransportBlock block =
      (lane.enter block.generation).pushTransportBlock block := by
  have hsame : (lane.enter block.generation).enter block.generation =
      lane.enter block.generation := enter_same (generation_enter lane block.generation)
  unfold enter at hsame ⊢
  unfold pushTransportBlock
  rw [hsame]

variable {lane : DecodeLane} {bits : List ChannelBit}

theorem gating_start (h : lane.profile.isSome) (generation : ℕ) :
    (lane.startGeneration generation).Gating [] where
  mission := h
  decoded := by
    have hnone : greedy validateCadu 0 (information []) = [] := greedy_none rfl
    refine ⟨[], rfl, rfl, ?_, fun _ => FrameSync.after_new⟩
    rw [List.map_nil, hnone]
    exact FrameSync.after_new
  received := rfl
  known := nofun
  kept := nofun

/-- A block of the generation that is being read. -/
theorem pushTransportBlock_same {block : TransportBlock}
    (hgeneration : block.generation = lane.transportGeneration) {recovered : List LocatedFrame}
    {next : DecodeLane} (hnext : lane.pushCodedBits (block.bits.map (·.value)) = (next, recovered)) :
    lane.pushTransportBlock block =
      ({ next with
          transportBitsReceived := lane.transportBitsReceived + block.bits.length
          transportErasures := (lane.transportErasures ++
            erasuresOf lane.transportBitsReceived block.bits).dropWhile fun index =>
              index < (lane.transportBitsReceived + block.bits.length) / 2 -
                (VITERBI_OUTPUT_DELAY + CADU_BITS) },
        ((recovered.filter fun frame => !frame.touchedBy (lane.transportErasures ++
          erasuresOf lane.transportBitsReceived block.bits)).map
            (·.observedFrom block.firstWireBit))) := by
  unfold pushTransportBlock
  rw [if_neg fun hne => hne hgeneration]
  dsimp only
  rw [hnext]

/-- A block's erasures lie after the frames of the blocks before it. -/
theorem touchedBy_past {frame : LocatedFrame} {n : ℕ} (hbits : bits.length = 2 * n)
    (hframe : frame ∈ greedy validateCadu 0 (information (bits.map (·.value))))
    (more : List ChannelBit) :
    frame.late.touchedBy (erasuresOf 0 (bits ++ more)) =
      frame.late.touchedBy (erasuresOf 0 bits) := by
  have hlength : (bits.map (·.value)).length = 2 * n := by rw [List.length_map, hbits]
  have hend := (greedy_ends validateCadu 0 (information (bits.map (·.value)))).2 frame hframe
  rw [length_information hlength] at hend
  have hcadu : CADU_BITS = 8192 := rfl
  apply LocatedFrame.touchedBy_congr
  intro index hlow hhigh
  have hhigh : index < frame.endBit + 1 := hhigh
  rw [erasuresOf_append, List.mem_append, or_iff_left]
  intro hindex
  have hle := le_of_mem_erasuresOf hindex
  rw [hbits] at hle
  omega

/-- A new frame begins after what has been forgotten. -/
theorem Gating.touchedBy_fresh (h : lane.Gating bits) {frame : LocatedFrame} {n : ℕ}
    (hbits : bits.length = 2 * n) (hframe : n - 64 < frame.endBit) (more : List ChannelBit) :
    frame.late.touchedBy (erasuresOf 0 (bits ++ more)) = frame.late.touchedBy
      (lane.transportErasures ++ erasuresOf lane.transportBitsReceived more) := by
  have hcadu : CADU_BITS = 8192 := rfl
  have hdelay : VITERBI_OUTPUT_DELAY = 63 := rfl
  apply LocatedFrame.touchedBy_congr
  intro index hlow hhigh
  have hlow : frame.endBit + 1 - CADU_BITS ≤ index := hlow
  rw [erasuresOf_append, Nat.zero_add, h.received, List.mem_append, List.mem_append]
  exact or_congr_left ⟨fun hindex => h.kept index hindex (by omega), h.known index⟩

/-- One block: its frames are those that the gated scan gains with it. -/
theorem Gating.push (h : lane.Gating bits) {n : ℕ} (hbits : bits.length = 2 * n)
    {block : TransportBlock} (hgeneration : block.generation = lane.transportGeneration) :
    (lane.pushTransportBlock block).1.Gating (bits ++ block.bits) ∧
      gated block.firstWireBit (bits ++ block.bits) =
        gated block.firstWireBit bits ++ (lane.pushTransportBlock block).2 ∧
      (lane.pushTransportBlock block).1.transportGeneration = lane.transportGeneration := by
  obtain ⟨plain, hdecoded⟩ := h.decoded
  obtain ⟨newPlain, newNrzm, hpushed, hout, hmission⟩ := hdecoded.push (block.bits.map (·.value))
  -- only the scan of the differentially decoded bits runs for a mission
  obtain rfl : newPlain = [] := hmission h.mission
  obtain ⟨next, recovered, hnext⟩ : ∃ next recovered,
    lane.pushCodedBits (block.bits.map (·.value)) = (next, recovered) := ⟨_, _, rfl⟩
  rw [hnext] at hpushed hout
  obtain rfl : recovered = _ := hout
  have hdecoded' := hpushed.decoded
  have hends := hpushed.nrzmEnds
  rw [← List.map_append] at hdecoded' hends
  have hframes := hdecoded'.nrzm.greedy
  have hlength : (bits.map (·.value)).length = 2 * n := by rw [List.length_map, hbits]
  rw [length_information hlength] at hends
  rw [pushTransportBlock_same hgeneration hnext]
  refine ⟨⟨?_, ⟨plain ++ [], ?_⟩, ?_, ?_, ?_⟩, ?_, hpushed.generation⟩
  · show next.profile.isSome
    rw [hpushed.profile]
    exact h.mission
  · rw [← hframes]
    exact ⟨hdecoded'.viterbi, hdecoded'.previous, hdecoded'.nrzm, hdecoded'.plain⟩
  · show lane.transportBitsReceived + block.bits.length = _
    rw [h.received, List.length_append]
  · intro index hindex
    have hindex := (List.dropWhile_sublist _).subset hindex
    rw [erasuresOf_append, List.mem_append, Nat.zero_add, ← h.received]
    rcases List.mem_append.1 hindex with hold | hfresh
    · exact .inl (h.known index hold)
    · exact .inr hfresh
  · intro index hindex hold
    rw [erasuresOf_append, List.mem_append, Nat.zero_add, ← h.received] at hindex
    rw [List.length_append] at hold
    apply mem_dropWhile
    · rw [List.mem_append]
      rcases hindex with hearlier | hfresh
      · exact .inl (h.kept index hearlier (by omega))
      · exact .inr hfresh
    · rw [decide_eq_false_iff_not, h.received]
      omega
  · unfold gated
    dsimp only
    rw [← hframes, List.map_append, List.filter_append, List.map_append, List.nil_append]
    -- the frames before the block keep their verdict, those of the block are judged now
    congr 2
    · apply List.filter_congr
      intro late hlate
      obtain ⟨frame, hframe, rfl⟩ := List.mem_map.1 hlate
      rw [touchedBy_past hbits hframe]
    · apply List.filter_congr
      intro late hlate
      obtain ⟨frame, hframe, rfl⟩ := List.mem_map.1 hlate
      rw [h.touchedBy_fresh hbits (hends frame hframe).1]

/-- The same for the first block of a generation. -/
theorem Gating.push_block {block : TransportBlock} (h : (lane.enter block.generation).Gating bits)
    {n : ℕ} (hbits : bits.length = 2 * n) :
    ((lane.pushTransportBlock block).1.enter block.generation).Gating (bits ++ block.bits) ∧
      gated block.firstWireBit (bits ++ block.bits) =
        gated block.firstWireBit bits ++ (lane.pushTransportBlock block).2 ∧
      (lane.pushTransportBlock block).1.profile.isSome ∧
      (lane.pushTransportBlock block).1.transportGeneration = block.generation := by
  have hentered := generation_enter lane block.generation
  obtain ⟨hnext, hgated, hsame⟩ := h.push hbits hentered.symm
  rw [pushTransportBlock_enter, enter_same (hsame.trans hentered)]
  exact ⟨hnext, hgated, hnext.mission, hsame.trans hentered⟩

theorem pushTransportBlocks_append (lane : DecodeLane) (xs ys : List TransportBlock) :
    lane.pushTransportBlocks (xs ++ ys) =
      (((lane.pushTransportBlocks xs).1.pushTransportBlocks ys).1,
        (lane.pushTransportBlocks xs).2 ++
          ((lane.pushTransportBlocks xs).1.pushTransportBlocks ys).2) := by
  induction xs generalizing lane with
  | nil => rfl
  | cons block xs ih =>
    rw [List.cons_append]
    simp only [pushTransportBlocks]
    rw [ih, List.append_assoc]

end DecodeLane

/-- The bits put out under a lock. -/
def Lock.bits (l : Lock) (wire : List ChannelBit) : List ChannelBit :=
  (List.range (DATA_BITS * l.blocks)).map (l.output wire)

theorem Lock.length_bits (l : Lock) (wire : List ChannelBit) :
    (l.bits wire).length = 2 * (36 * l.blocks) := by
  unfold Lock.bits DATA_BITS
  rw [List.length_map, List.length_range]
  omega

namespace DecodeLane

/-- All blocks of a lock. -/
theorem push_lock {lane : DecodeLane} (hmission : lane.profile.isSome) {generation : ℕ}
    (hgeneration : lane.transportGeneration < generation) (l : Lock) (wire : List ChannelBit) :
    (lane.pushTransportBlocks ((List.range l.blocks).map (l.block wire generation))).2 =
        gated l.firstWireBit (l.bits wire) ∧
      (lane.pushTransportBlocks ((List.range l.blocks).map
        (l.block wire generation))).1.profile.isSome ∧
      (lane.pushTransportBlocks ((List.range l.blocks).map
        (l.block wire generation))).1.transportGeneration ≤ generation := by
  -- the induction is on the blocks, after the lane has entered the generation
  have hrun (n : ℕ) :
      ((lane.pushTransportBlocks ((List.range n).map (l.block wire generation))).1.enter
          generation).Gating (Lock.bits ⟨l.firstWireBit, n⟩ wire) ∧
        (lane.pushTransportBlocks ((List.range n).map (l.block wire generation))).2 =
          gated l.firstWireBit (Lock.bits ⟨l.firstWireBit, n⟩ wire) ∧
        (lane.pushTransportBlocks ((List.range n).map
          (l.block wire generation))).1.profile.isSome ∧
        (lane.pushTransportBlocks ((List.range n).map
          (l.block wire generation))).1.transportGeneration ≤ generation := by
    induction n with
    | zero =>
      refine ⟨?_, ?_, hmission, hgeneration.le⟩
      · show (lane.enter generation).Gating []
        unfold enter
        rw [if_pos hgeneration.ne']
        exact gating_start hmission generation
      · show [] = gated l.firstWireBit []
        have hnone : greedy validateCadu 0 (information []) = [] := greedy_none rfl
        unfold gated
        dsimp only
        rw [List.map_nil, hnone]
        rfl
    | succ n ih =>
      obtain ⟨hgating, hout, -, -⟩ := ih
      have hbits : Lock.bits ⟨l.firstWireBit, n + 1⟩ wire =
          Lock.bits ⟨l.firstWireBit, n⟩ wire ++ (l.block wire generation n).bits := by
        unfold Lock.bits
        rw [Nat.mul_succ, List.range_add, List.map_append, List.map_map]
        rfl
      rw [List.range_succ, List.map_append, List.map_singleton, pushTransportBlocks_append]
      simp only [pushTransportBlocks, List.append_nil]
      obtain ⟨hnext, hgated, hmission, hsame⟩ := @Gating.push_block _ _ (l.block wire generation n)
        hgating _ (Lock.length_bits ⟨l.firstWireBit, n⟩ wire)
      rw [hbits]
      refine ⟨hnext, ?_, hmission, hsame.le⟩
      rw [hout]
      exact hgated.symm
  exact ⟨(hrun l.blocks).2.1, (hrun l.blocks).2.2⟩

theorem push_transport {lane : DecodeLane} (hmission : lane.profile.isSome) {generation : ℕ}
    (hgeneration : lane.transportGeneration < generation) (wire : List ChannelBit)
    (locks : List Lock) :
    (lane.pushTransportBlocks ((locks.zipIdx generation).flatMap fun (l, generation) =>
      (List.range l.blocks).map (l.block wire generation))).2 =
        locks.flatMap fun l => gated l.firstWireBit (l.bits wire) := by
  induction locks generalizing lane generation with
  | nil => rfl
  | cons l locks ih =>
    obtain ⟨hout, hnext, hle⟩ := push_lock hmission hgeneration l wire
    rw [List.zipIdx_cons, List.flatMap_cons, pushTransportBlocks_append, List.flatMap_cons, hout,
      ih hnext (Nat.lt_succ_of_le hle)]

/-- The lane with another deinterleaver. -/
def withInterleaver (lane : DecodeLane) (stage : Option MeteorDeinterleaver) : DecodeLane :=
  { lane with interleaver := stage }

theorem pushCodedBits_withInterleaver (lane : DecodeLane) (stage : Option MeteorDeinterleaver)
    (coded : List UInt8) : (lane.withInterleaver stage).pushCodedBits coded =
      ((lane.pushCodedBits coded).1.withInterleaver stage, (lane.pushCodedBits coded).2) := by
  match hprofile : lane.profile with
  | none => rw [pushCodedBits_none hprofile, @pushCodedBits_none (lane.withInterleaver stage) hprofile]; rfl
  | some mission =>
    rw [pushCodedBits_some hprofile, @pushCodedBits_some (lane.withInterleaver stage) _ hprofile]
    rfl

/-- The deinterleaver has no part in what the blocks do. -/
theorem pushTransportBlock_withInterleaver (lane : DecodeLane) (stage : Option MeteorDeinterleaver)
    (block : TransportBlock) : (lane.withInterleaver stage).pushTransportBlock block =
      ((lane.pushTransportBlock block).1.withInterleaver stage,
        (lane.pushTransportBlock block).2) := by
  have henter : (lane.withInterleaver stage).enter block.generation =
      (lane.enter block.generation).withInterleaver stage := by
    unfold enter
    by_cases hgeneration : block.generation ≠ lane.transportGeneration
    · rw [if_pos hgeneration, if_pos (show block.generation ≠
        (lane.withInterleaver stage).transportGeneration from hgeneration)]
      rfl
    · rw [if_neg hgeneration, if_neg (show ¬ block.generation ≠
        (lane.withInterleaver stage).transportGeneration from hgeneration)]
  unfold enter at henter
  unfold pushTransportBlock
  rw [henter]
  dsimp only
  rw [pushCodedBits_withInterleaver]
  rfl

theorem pushTransportBlocks_withInterleaver (lane : DecodeLane)
    (stage : Option MeteorDeinterleaver) (blocks : List TransportBlock) :
    (lane.withInterleaver stage).pushTransportBlocks blocks =
      ((lane.pushTransportBlocks blocks).1.withInterleaver stage,
        (lane.pushTransportBlocks blocks).2) := by
  induction blocks generalizing lane with
  | nil => rfl
  | cons block blocks ih =>
    simp only [pushTransportBlocks]
    rw [pushTransportBlock_withInterleaver, ih]

/-- The calls of a lane with a deinterleaver read its blocks one after the other. -/
theorem pushAll_interleaved {lane : DecodeLane} {stage : MeteorDeinterleaver}
    (h : lane.interleaver = some stage) (hypothesis : ℕ) (calls : List (List RecoveredSymbol)) :
    (lane.pushAll hypothesis calls).2 = (lane.pushTransportBlocks (stage.pushAll
      (calls.map fun symbols => symbols.flatMap (·.channelBits hypothesis)))).2 := by
  induction calls generalizing lane stage with
  | nil => rfl
  | cons symbols calls ih =>
    have hpush : lane.pushSymbols symbols hypothesis =
        (lane.withInterleaver (some (stage.pushBits
          (symbols.flatMap (·.channelBits hypothesis))).1)).pushTransportBlocks
            (stage.pushBits (symbols.flatMap (·.channelBits hypothesis))).2 := by
      unfold pushSymbols
      rw [h]
      rfl
    rw [pushTransportBlocks_withInterleaver] at hpush
    simp only [pushAll, List.map_cons, MeteorDeinterleaver.pushAll]
    rw [hpush, pushTransportBlocks_append]
    dsimp only
    rw [ih rfl, pushTransportBlocks_withInterleaver]

/-- What the deinterleaver puts out is described by its locks. -/
theorem pushAll_locks (chunks : List (List ChannelBit)) : ∃ locks : List Lock,
    MeteorDeinterleaver.new.pushAll chunks = transport chunks.flatten locks ∧
      locks.Pairwise fun a b => a.wireEnd ≤ b.firstWireBit := by
  rw [MeteorDeinterleaver.pushAll_eq_pushBits]
  obtain ⟨used, hused, locks, hhistory⟩ := @Scanner.drain_induct _ _ _ Receiver.scanner
    (fun s wire out => ∃ locks, Receiver.History s wire out locks)
    (fun ⟨_, h⟩ hr => h.scan hr) MeteorDeinterleaver.new.receiver chunks.flatten [] []
    ⟨[], Receiver.history_new⟩
  rw [List.nil_append, List.nil_append] at hhistory
  refine ⟨locks, ?_, hhistory.ordered⟩
  rw [hused, transport_stable _ hhistory.within, ← hused]
  exact hhistory.emitted

/-- Under whatever locks, the lane gates what is decoded under each. -/
theorem pushAll_transport {hypothesis : ℕ} {calls : List (List RecoveredSymbol)}
    {locks : List Lock} (h : MeteorDeinterleaver.new.pushAll
      (calls.map fun symbols => symbols.flatMap (·.channelBits hypothesis)) =
        transport (calls.flatten.flatMap (·.channelBits hypothesis)) locks) :
    ((forProfile (some .oqpsk80Interleaved)).pushAll hypothesis calls).2 =
      locks.flatMap fun l => gated l.firstWireBit
        (l.bits (calls.flatten.flatMap (·.channelBits hypothesis))) := by
  rw [pushAll_interleaved rfl, h]
  exact push_transport rfl Nat.one_pos _ locks

theorem flatten_channelBits (hypothesis : ℕ) (calls : List (List RecoveredSymbol)) :
    (calls.map fun symbols => symbols.flatMap (·.channelBits hypothesis)).flatten =
      calls.flatten.flatMap (·.channelBits hypothesis) := by
  rw [← List.flatMap_def, List.flatten_eq_flatMap, List.flatMap_assoc]
  rfl

/-- **Erasures gate frames.** Whatever symbols a lane of the 80k profile is given, and however they
    are cut into calls, it delivers for each lock of its deinterleaver the frames that a scan finds
    in all that is decoded under the lock, less exactly those that an erased bit falls into: no
    erasure is forgotten too early, and no whole frame is withheld. -/
theorem pushAll_gated (hypothesis : ℕ) (calls : List (List RecoveredSymbol)) :
    ∃ locks : List Lock,
      MeteorDeinterleaver.new.pushAll
          (calls.map fun symbols => symbols.flatMap (·.channelBits hypothesis)) =
        transport (calls.flatten.flatMap (·.channelBits hypothesis)) locks ∧
      (locks.Pairwise fun a b => a.wireEnd ≤ b.firstWireBit) ∧
      ((forProfile (some .oqpsk80Interleaved)).pushAll hypothesis calls).2 =
        locks.flatMap fun l => gated l.firstWireBit
          (l.bits (calls.flatten.flatMap (·.channelBits hypothesis))) := by
  obtain ⟨locks, htransport, hordered⟩ := pushAll_locks
    (calls.map fun symbols => symbols.flatMap (·.channelBits hypothesis))
  rw [flatten_channelBits] at htransport
  exact ⟨locks, htransport, hordered, pushAll_transport htransport⟩

end DecodeLane

end Lrpt
