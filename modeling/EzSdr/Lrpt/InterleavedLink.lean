import EzSdr.Lrpt.Link
import EzSdr.Lrpt.ViterbiLock

/-! # The Interleaved LRPT Link

    On the 80k profile the coded bits go through an interleaver, and a marker is put in front of
    every 72 of them. The delay lines of the receiver give out erasures until they are full, so the
    transmitter sends zeros for as long.

    **`gated_sent`**: when every marker is in place there is one lock, and it brings every CADU that
    was sent behind the zeros. **`interleaved_received`** says that the decoder takes a frame for
    it, or has taken a later one. -/

namespace Lrpt

open Checked (Returns returns_mapM)
open Daemon (MeteorProfile)
open Viterbi (encodeFrom onesState lockSymbols)

/-! ## Section 1: The interleaver -/

/-- The marker and the 72 data bits of wire block `block`. A data bit is sent as much earlier as
    its branch of the deinterleaver will hold it back. -/
def wireBlock (coded : List UInt8) (block : ℕ) : List UInt8 :=
  byteToBits MARKER ++ (List.range DATA_BITS).map fun i =>
    let k := DATA_BITS * block + i
    coded.getD (k + Lock.delay k) 0

/-- Coded bits as they leave the interleaver. -/
def interleaveBits (coded : List UInt8) : List UInt8 :=
  (List.range (coded.length / DATA_BITS)).flatMap (wireBlock coded)

/-- Bits that arrive without an erasure. -/
def arrived (bits : List UInt8) : List ChannelBit := bits.map fun value => ⟨value, true⟩

theorem arrived_append (xs ys : List UInt8) : arrived (xs ++ ys) = arrived xs ++ arrived ys :=
  List.map_append

theorem marked_wireBlock (coded : List UInt8) (block : ℕ) :
    Marked (arrived (wireBlock coded block)) := by
  have hmarker : (arrived (byteToBits MARKER)).length = 8 := by decide
  constructor
  · unfold wireBlock
    rw [arrived_append, List.length_append, hmarker]
    unfold arrived
    rw [List.length_map, List.length_map, List.length_range]
    rfl
  · unfold wireBlock
    rw [arrived_append, markerErrors_append _ hmarker.ge]
    decide

theorem arrived_interleaveBits (coded : List UInt8) : arrived (interleaveBits coded) =
    ((List.range (coded.length / DATA_BITS)).map fun j => arrived (wireBlock coded j)).flatten := by
  unfold arrived interleaveBits
  rw [List.map_flatMap, List.flatMap_def]

section Flatten

variable {α : Type*} {f : ℕ → List α} {width : ℕ}

theorem length_flatten_range (hwidth : ∀ j, (f j).length = width) (n : ℕ) :
    ((List.range n).map f).flatten.length = width * n := by
  have hlengths : (List.range n).map (List.length ∘ f) = (List.range n).map fun _ => width :=
    List.map_congr_left fun j _ => hwidth j
  rw [List.length_flatten, List.map_map, hlengths]
  simp [Nat.mul_comm]

theorem getD_flatten_range (hwidth : ∀ j, (f j).length = width) {n j i : ℕ} (hj : j < n)
    (hi : i < width) (default : α) :
    ((List.range n).map f).flatten.getD (width * j + i) default = (f j).getD i default := by
  induction n with
  | zero => cases hj
  | succ n ih =>
    have hnext : width * (j + 1) = width * j + width := Nat.mul_succ width j
    rw [List.range_succ, List.map_append, List.flatten_append, List.map_singleton,
      List.flatten_singleton]
    rcases Nat.lt_succ_iff_lt_or_eq.1 hj with hlt | rfl
    · have hle : width * (j + 1) ≤ width * n := Nat.mul_le_mul_left width hlt
      rw [List.getD_append _ _ _ _ (by rw [length_flatten_range hwidth]; omega), ih hlt]
    · rw [List.getD_append_right _ _ _ _ (by rw [length_flatten_range hwidth]; omega),
        length_flatten_range hwidth, Nat.add_sub_cancel_left]

end Flatten

/-- The lock under which all blocks are read. -/
def wholeLock (coded : List UInt8) : Lock := ⟨8, coded.length / DATA_BITS⟩

/-- What the deinterleaver puts out are the coded bits, but for the first ones of each branch. -/
theorem output_interleaved {coded : List UInt8} {k : ℕ}
    (hk : k < DATA_BITS * (coded.length / DATA_BITS)) :
    (wholeLock coded).output (arrived (interleaveBits coded)) k =
      if k < Lock.delay k then .ERASURE else ⟨coded.getD k 0, true⟩ := by
  unfold Lock.output
  by_cases hearly : k < Lock.delay k
  · rw [if_pos hearly, if_pos hearly]
  rw [if_neg hearly, if_neg hearly]
  have hdata : DATA_BITS = 72 := rfl
  have hwire : WIRE_BITS = 80 := rfl
  -- the bit was sent on its own branch
  obtain ⟨m, hm⟩ : ∃ m, m = k - Lock.delay k := ⟨_, rfl⟩
  have hback : m + Lock.delay m = k := by
    unfold Lock.delay at *
    omega
  have hblock : m / DATA_BITS < coded.length / DATA_BITS := by
    apply Nat.div_lt_of_lt_mul
    omega
  have hmod : m % DATA_BITS < 72 := Nat.mod_lt m (by decide)
  rw [← hm]
  unfold Lock.input Lock.wireBit wholeLock
  rw [arrived_interleaveBits, show 8 + m / DATA_BITS * WIRE_BITS + m % DATA_BITS =
      WIRE_BITS * (m / DATA_BITS) + (8 + m % DATA_BITS) by rw [Nat.mul_comm WIRE_BITS]; omega,
    getD_flatten_range (fun j => (marked_wireBlock coded j).length) hblock (by omega)]
  have hmarker : (arrived (byteToBits MARKER)).length = 8 := by decide
  unfold wireBlock
  rw [arrived_append, List.getD_append_right _ _ _ _ (by omega), hmarker, Nat.add_sub_cancel_left,
    List.getD_eq_getElem _ _ (by simp [arrived]; omega)]
  simp only [arrived, List.getElem_map, List.getElem_range]
  rw [Nat.div_add_mod, hback]

/-- How many data bits pass before no delay line gives out an erasure. -/
def fillBits : ℕ := 35 * 36 * 2048

theorem delay_le (k : ℕ) : Lock.delay k ≤ fillBits := by
  unfold Lock.delay fillBits
  omega

theorem bits_interleaved (coded : List UInt8) :
    (wholeLock coded).bits (arrived (interleaveBits coded)) =
      (List.range (DATA_BITS * (coded.length / DATA_BITS))).map fun k =>
        if k < Lock.delay k then .ERASURE else ⟨coded.getD k 0, true⟩ :=
  List.map_congr_left fun _ hk => output_interleaved (List.mem_range.1 hk)

/-- An erasure reads as a zero, so zeros go through undisturbed. -/
theorem values_interleaved {coded : List UInt8} (hzeros : ∀ k < fillBits, coded.getD k 0 = 0) :
    ((wholeLock coded).bits (arrived (interleaveBits coded))).map (·.value) =
      coded.take (DATA_BITS * (coded.length / DATA_BITS)) := by
  have hle : DATA_BITS * (coded.length / DATA_BITS) ≤ coded.length := Nat.mul_div_le _ _
  rw [bits_interleaved, List.map_map]
  apply List.ext_getElem
  · rw [List.length_map, List.length_range, List.length_take, Nat.min_eq_left hle]
  intro k hk _
  rw [List.length_map, List.length_range] at hk
  rw [List.getElem_map, List.getElem_range, List.getElem_take, ← List.getD_eq_getElem coded 0]
  show ChannelBit.value (if k < Lock.delay k then .ERASURE else ⟨coded.getD k 0, true⟩) = _
  by_cases hearly : k < Lock.delay k
  · rw [if_pos hearly, hzeros k (hearly.trans_le (delay_le k))]
    rfl
  · rw [if_neg hearly]

theorem erasures_interleaved {coded : List UInt8} {index : ℕ} (h : index ∈ DecodeLane.erasuresOf 0
    ((wholeLock coded).bits (arrived (interleaveBits coded)))) : index < fillBits / 2 := by
  rw [bits_interleaved] at h
  unfold DecodeLane.erasuresOf at h
  obtain ⟨⟨bit, k⟩, hmem, hindex⟩ := List.mem_filterMap.1 h
  obtain ⟨hk, hbit⟩ := List.mem_zipIdx' hmem
  rw [List.getElem_map, List.getElem_range] at hbit
  dsimp only at hindex
  by_cases hearly : k < Lock.delay k
  · have hfill := hearly.trans_le (delay_le k)
    split at hindex
    · cases hindex
    · obtain rfl := Option.some.inj hindex
      unfold fillBits at *
      omega
  · rw [if_neg hearly] at hbit
    rw [hbit] at hindex
    cases hindex

/-! ## Section 2: The transmitter -/

/-- The coded bits of some frames behind zeros, from a transmitter whose level has been one for some
    time: it sends zeros until the first frame. -/
def carried (lead tail : ℕ) (frames : List (List UInt8)) : List UInt8 :=
  encodeFrom onesState (nrzm 1 (linkBits lead tail frames))

theorem nrzm_zeros (lead : ℕ) (level : UInt8) (bits : List UInt8) :
    nrzm level (List.replicate lead 0 ++ bits) = List.replicate lead level ++ nrzm level bits := by
  induction lead with
  | zero => rfl
  | succ lead ih =>
    rw [List.replicate_succ, List.replicate_succ, List.cons_append, List.cons_append, nrzm,
      UInt8.xor_zero, ih]

theorem encodeFrom_ones (lead : ℕ) (bits : List UInt8) :
    encodeFrom onesState (List.replicate lead 1 ++ bits) =
      List.replicate (2 * lead) 0 ++ encodeFrom onesState bits := by
  have hsymbol : Viterbi.expected onesState 1 = (0, 0) := by decide
  have hstay : Viterbi.encoderNext onesState 1 = onesState := by decide
  induction lead with
  | zero => rfl
  | succ lead ih =>
    rw [List.replicate_succ, List.cons_append, encodeFrom, hstay, ih,
      show (1 : UInt8) &&& 1 = 1 from rfl, hsymbol, Nat.mul_succ, List.replicate_succ,
      List.replicate_succ]
    rfl

theorem take_encodeFrom (s : Fin Viterbi.STATES) (bits : List UInt8) (k : ℕ) :
    (encodeFrom s bits).take (2 * k) = encodeFrom s (bits.take k) := by
  induction bits generalizing s k with
  | nil => rw [List.take_nil, encodeFrom, List.take_nil]
  | cons bit bits ih =>
    cases k with
    | zero => rfl
    | succ k =>
      rw [Nat.mul_succ, encodeFrom, List.take_succ_cons, List.take_succ_cons, ih,
        List.take_succ_cons, encodeFrom]

theorem length_carried (lead tail : ℕ) (frames : List (List UInt8)) :
    (carried lead tail frames).length = 2 * (linkBits lead tail frames).length := by
  unfold carried
  rw [Viterbi.length_encodeFrom, length_nrzm]

/-- The coded bits up to the first frame. -/
theorem carried_zeros {lead tail : ℕ} {frames : List (List UInt8)} {k : ℕ} (hk : k < 2 * lead) :
    (carried lead tail frames).getD k 0 = 0 := by
  unfold carried linkBits
  rw [List.append_assoc, nrzm_zeros, encodeFrom_ones,
    List.getD_append _ _ _ _ (by rwa [List.length_replicate]), List.getD_replicate _ hk]

/-! ## Section 3: The lane -/

/-- The information bits of what is carried, less its last bits: nine unknown bits, and then what
    was sent. -/
theorem information_carried {lead tail m : ℕ} {frames : List (List UInt8)}
    (hm : (linkBits (lead + 10) tail frames).length + VITERBI_OUTPUT_DELAY ≤ m + tail)
    (hle : m ≤ (linkBits (lead + 10) tail frames).length) :
    ∃ early rest : List UInt8, early.length = 9 ∧
      information ((carried (lead + 10) tail frames).take (2 * m)) =
        early ++ (List.replicate lead 0 ++
          (frames.flatMap (fun frame => bytesToBits (LrptDecoder.sentCadu frame)) ++ rest)) := by
  have hsplit : linkBits (lead + 10) tail frames =
      List.replicate lockSymbols 0 ++ 0 :: linkBits lead tail frames := rfl
  have hlink : (linkBits (lead + 10) tail frames).length =
      (linkBits lead tail frames).length + 10 := by
    rw [hsplit, List.length_append, List.length_cons, List.length_replicate]
    exact Nat.add_comm 9 _
  have htail : tail ≤ (linkBits lead tail frames).length := by
    unfold linkBits
    rw [List.length_append, List.length_replicate]
    exact Nat.le_add_left _ _
  have hlock : lockSymbols = 9 := rfl
  have hdelay : VITERBI_OUTPUT_DELAY = 63 := rfl
  obtain ⟨k, rfl⟩ : ∃ k, m = lockSymbols + (k + 1 + 63) := ⟨m - 73, by omega⟩
  -- the transmitter codes a list of truth values
  have hbinary : Binary (0 :: linkBits lead tail frames) :=
    binary_linkBits (lead + 1) tail frames
  obtain ⟨info, hinfo⟩ := exists_info (binary_nrzm (.inr rfl) hbinary)
  have hcount : info.length = (linkBits lead tail frames).length + 1 := by
    rw [← List.length_map Bool.toUInt8, hinfo, length_nrzm, List.length_cons]
  have hcoded : (carried (lead + 10) tail frames).take (2 * (lockSymbols + (k + 1 + 63))) =
      encodeFrom onesState
        ((List.replicate lockSymbols true ++ info.take (k + 1 + 63)).map Bool.toUInt8) := by
    unfold carried
    rw [take_encodeFrom, hsplit, nrzm_zeros, ← hinfo, List.map_append, List.map_take,
      List.map_replicate, List.take_append, List.length_replicate, Nat.add_sub_cancel_left,
      List.take_of_length_le (by rw [List.length_replicate]; exact Nat.le_add_right _ _)]
    rfl
  -- the decoder loses the first ones, and the latency at the end
  have hlong : (info.take (k + 1 + 63)).length = k + 1 + 63 := by
    rw [List.length_take]
    omega
  obtain ⟨early, hearly, hout⟩ := @Viterbi.pushBits_locks (info.take (k + 1 + 63))
    (by rw [hlong]; exact Nat.le_add_left 63 _)
  have hrecovered : recovered ((carried (lead + 10) tail frames).take
      (2 * (lockSymbols + (k + 1 + 63)))) =
        (early ++ [1]) ++ nrzm 1 ((linkBits lead tail frames).take k) := by
    unfold recovered
    rw [hcoded, hout, hlong, List.take_take, List.map_take, hinfo, Viterbi.TRACEBACK,
      show min (k + 1 + 63 - (64 - 1)) (k + 1 + 63) = k + 1 by omega, take_nrzm,
      List.take_succ_cons, nrzm, UInt8.xor_zero, List.append_assoc]
    rfl
  have hlevel : (undoNrzm none (early ++ [1])).1 = some 1 := by
    rw [undoNrzm_append]
    rfl
  obtain ⟨rest, hrest⟩ := @take_linkBits lead tail k frames (by omega)
  refine ⟨(undoNrzm none (early ++ [1])).2, rest, ?_, ?_⟩
  · rw [length_undoNrzm, List.length_append, hearly]
    rfl
  · unfold information
    rw [hrecovered, undoNrzm_append, hlevel, undoNrzm_nrzm, hrest]

/-! ## Section 4: The scan -/

/-- Zeros in some places of the marker that hold ones. -/
theorem not_hasMarker_quiet {stream : List UInt8} (h : ∀ i ∈ [12, 13, 14], stream.getD i 0 = 0) :
    ¬ HasMarker stream := by
  have hones : ∀ i ∈ [12, 13, 14], markerBit i = 1 := by decide
  have hplaces : [12, 13, 14].Sublist (List.range 32) := by decide
  rintro ⟨-, herrors⟩
  have hall : [12, 13, 14].filter (fun i => stream.getD i 0 &&& 1 ≠ markerBit i) = [12, 13, 14] := by
    rw [List.filter_eq_self]
    intro i hi
    rw [h i hi, hones i hi]
    rfl
  have hthree := (hplaces.filter fun i => stream.getD i 0 &&& 1 ≠ markerBit i).length_le
  rw [hall] at hthree
  unfold bitErrors at herrors
  exact absurd (hthree.trans herrors) (by decide)

/-- A few bits before many zeros hold no marker. -/
theorem greedy_early {lead : ℕ} (hlead : 14 ≤ lead) (early rest : List UInt8)
    (hearly : early.length ≤ 12) (position : ℕ) :
    greedy validateCadu position (early ++ (List.replicate lead 0 ++ rest)) =
      greedy validateCadu (position + early.length) (List.replicate lead 0 ++ rest) := by
  induction early generalizing position with
  | nil => rfl
  | cons bit early ih =>
    rw [List.length_cons] at hearly ⊢
    rw [List.cons_append, greedy_next, ih (by omega), Nat.add_assoc, Nat.add_comm 1]
    apply not_hasMarker_quiet
    intro i hi
    have hlow : early.length + 1 ≤ i ∧ i < early.length + 1 + lead := by
      simp only [List.mem_cons, List.not_mem_nil, or_false] at hi
      omega
    rw [← List.cons_append, List.getD_append_right _ _ _ _ (by rw [List.length_cons]; exact hlow.1),
      List.getD_append _ _ _ _ (by rw [List.length_replicate, List.length_cons]; omega),
      List.getD_replicate _ (by rw [List.length_cons]; omega)]

/-! ## Section 5: The decoder -/

namespace LrptDecoder

variable {π : Type}

/-- Where the decoder sees CADU `i` end, in symbols. -/
def carriedEnd (lead i : ℕ) : ℕ :=
  observedSymbolEnd 8 (lead + CADU_BITS * (i + 1) + VITERBI_OUTPUT_DELAY)

/-- Every CADU that is sent behind enough zeros is brought without an erasure. -/
theorem gated_sent {payloads frames : List (List UInt8)} (hsent : List.Forall₂ Sent payloads frames)
    {lead tail : ℕ} (hlead : fillBits / 2 ≤ lead)
    (htail : VITERBI_OUTPUT_DELAY + DATA_BITS / 2 ≤ tail) {hypothesis : ℕ}
    {pieces : List (List RecoveredSymbol)}
    (hpieces : pieces.flatten.flatMap (·.channelBits hypothesis) =
      arrived (interleaveBits (carried lead tail frames)))
    {i : ℕ} {frame : List UInt8} (hframe : frames[i]? = some frame) :
    Gated pieces (hypothesis, ⟨carriedEnd lead i, sentCadu frame⟩) := by
  have hfill : fillBits = 2580480 := rfl
  have hdata : DATA_BITS = 72 := rfl
  have hdelay : VITERBI_OUTPUT_DELAY = 63 := rfl
  have hcadu : CADU_BITS = 8192 := rfl
  have hlink : lead + tail ≤ (linkBits lead tail frames).length := by
    unfold linkBits
    rw [List.length_append, List.length_append, List.length_replicate, List.length_replicate]
    omega
  have hlength := length_carried lead tail frames
  have hmany : 3 ≤ (carried lead tail frames).length / DATA_BITS := by
    rw [Nat.le_div_iff_mul_le (by decide), hlength]
    omega
  have hblocks := Nat.div_add_mod (carried lead tail frames).length DATA_BITS
  have hrest := Nat.mod_lt (carried lead tail frames).length (show 0 < DATA_BITS by decide)
  refine ⟨[wholeLock (carried lead tail frames)], ?_, _, List.mem_singleton_self _, ?_⟩
  · -- every block is marked
    have hmarked : ∀ block ∈ (List.range ((carried lead tail frames).length / DATA_BITS)).map
        fun j => arrived (wireBlock (carried lead tail frames) j), Marked block := by
      intro block hblock
      obtain ⟨j, -, rfl⟩ := List.mem_map.1 hblock
      exact marked_wireBlock _ j
    have hchunks : (pieces.map fun symbols => symbols.flatMap (·.channelBits hypothesis)).flatten =
        ((List.range ((carried lead tail frames).length / DATA_BITS)).map
          fun j => arrived (wireBlock (carried lead tail frames) j)).flatten := by
      rw [DecodeLane.flatten_channelBits, hpieces, arrived_interleaveBits]
    have hall := pushAll_marked hmarked (by rwa [List.length_map, List.length_range]) hchunks
    rw [DecodeLane.flatten_channelBits, List.length_map, List.length_range] at hall
    exact hall
  · rw [hpieces]
    obtain ⟨first, rfl⟩ : ∃ first, lead = first + 10 := ⟨lead - 10, by omega⟩
    obtain ⟨m, hm⟩ : ∃ m, DATA_BITS * ((carried (first + 10) tail frames).length / DATA_BITS) =
        2 * m := ⟨36 * ((carried (first + 10) tail frames).length / DATA_BITS), by
      rw [hdata, ← Nat.mul_assoc]⟩
    have hvalues := @values_interleaved (carried (first + 10) tail frames) fun k hk =>
      carried_zeros (by omega)
    obtain ⟨early, rest, hearly, hinformation⟩ := @information_carried first tail m frames
      (by omega) (by omega)
    have hfound := greedy_link hsent (0 + early.length) first rest hframe
    rw [← greedy_early (by omega) early _ (by omega), ← hinformation, ← hm, ← hvalues] at hfound
    unfold gated
    refine List.mem_map.2 ⟨_, List.mem_filter.2 ⟨List.mem_map.2 ⟨_, hfound, rfl⟩, ?_⟩, ?_⟩
    · -- the erasures are all before it
      rw [Bool.not_eq_true', Bool.eq_false_iff]
      intro htouched
      obtain ⟨index, hindex, hlow, -⟩ := LocatedFrame.touchedBy_iff.1 htouched
      have hbefore := erasures_interleaved hindex
      unfold LocatedFrame.late at hlow
      dsimp only at hlow
      omega
    · unfold LocatedFrame.observedFrom LocatedFrame.late carriedEnd
      dsimp only
      rw [hearly, hcadu, show 0 + 9 + first + 8192 * (i + 1) + 1 = first + 10 + 8192 * (i + 1) by
        omega]
      rfl

/-- **The interleaved link.** Payloads are encoded, and their CADUs are sent one after the other,
    behind zeros that fill the delay lines. When a lane of the decoder reads all that the
    interleaver gives out, however the symbols are cut, each CADU is brought to the decoder, which
    takes it or has taken a frame that ends later or at most one symbol earlier. -/
theorem interleaved_received (n : Numerics π) {d : LrptDecoder π}
    (h : d.profile = some .oqpsk80Interleaved) {hypothesis : ℕ} (hlane : hypothesis < 16)
    {lead tail : ℕ} (hlead : fillBits / 2 ≤ lead)
    (htail : VITERBI_OUTPUT_DELAY + DATA_BITS / 2 ≤ tail) {payloads : List (List UInt8)}
    (hpayloads : ∀ payload ∈ payloads, payload.length = RS_DATA_LEN * INTERLEAVE) :
    Returns (payloads.mapM encodeInterleaved) fun frames =>
      frames.length = payloads.length ∧
      ∀ calls : List (List RecoveredSymbol),
        calls.flatten.flatMap (·.channelBits hypothesis) =
          arrived (interleaveBits (carried lead tail frames)) →
        ∃ taken : List (ℕ × LocatedFrame),
          (taken.Pairwise fun a b => endOf a + 1 < endOf b) ∧
          (∀ (i : ℕ) (frame : List UInt8), frames[i]? = some frame →
            Gated (calls.flatMap batches) (hypothesis, ⟨carriedEnd lead i, sentCadu frame⟩) ∧
            ∃ a ∈ taken, carriedEnd lead i ≤ endOf a + 1) ∧
          ((d.resetStream.pushAll n calls).reassembler, (d.resetStream.pushAll n calls).images) =
            pushZones n (PacketReassembler.new, d.images) taken := by
  refine (returns_mapM fun payload hpayload => returns_sent (hpayloads payload hpayload)).imp
    fun frames hsent => ⟨hsent.length_eq.symm, fun calls hcalls => ?_⟩
  obtain ⟨taken, hmerging⟩ := @merging_batches _ n d h (calls.flatMap batches)
  rw [← pushAll_eq] at hmerging
  refine ⟨taken, hmerging.increasing, fun i frame hframe => ?_, hmerging.products⟩
  have hbits : (calls.flatMap batches).flatten.flatMap (·.channelBits hypothesis) =
      arrived (interleaveBits (carried lead tail frames)) := by
    rw [flatten_flatMap_batches, hcalls]
  have hgated := gated_sent hsent hlead htail hbits hframe
  have hvalid := valid_sent hsent hframe
  obtain ⟨a, ha, hle⟩ := hmerging.complete
    (hypothesis, ⟨carriedEnd lead i, sentCadu frame⟩) hlane hvalid (mem_of_gated hgated)
  exact ⟨hgated, a, ha, hle⟩

/-! ## Section 6: Symbols without noise -/

theorem binary_carried (lead tail : ℕ) (frames : List (List UInt8)) :
    Binary (carried lead tail frames) := by
  obtain ⟨info, hinfo⟩ := exists_info (binary_nrzm (.inr rfl) (binary_linkBits lead tail frames))
  unfold carried
  rw [← hinfo]
  generalize onesState = s
  clear hinfo
  induction info generalizing s with
  | nil => exact nofun
  | cons bit info ih =>
    have hbit (value : UInt8) (h : (value == 1).toUInt8 = value) : value = 0 ∨ value = 1 := by
      rw [← h]
      cases value == 1
      · exact .inl rfl
      · exact .inr rfl
    obtain ⟨hfirst, hsecond⟩ := emit_binary s bit
    rw [Viterbi.encodeFrom_cons]
    exact List.forall_mem_cons.2 ⟨hbit _ hfirst, List.forall_mem_cons.2 ⟨hbit _ hsecond, ih _⟩⟩

theorem binary_interleaveBits {coded : List UInt8} (h : Binary coded) :
    Binary (interleaveBits coded) := by
  intro bit hbit
  obtain ⟨block, -, hbit⟩ := List.mem_flatMap.1 hbit
  rcases List.mem_append.1 hbit with hmarker | hdata
  · exact binary_bytesToBits [MARKER] bit (by rwa [bytesToBits_cons, List.mem_append, or_iff_left (by
      exact List.not_mem_nil)])
  · obtain ⟨i, -, rfl⟩ := List.mem_map.1 hdata
    dsimp only
    rw [List.getD_eq_getElem?_getD]
    cases hget : coded[DATA_BITS * block + i + Lock.delay (DATA_BITS * block + i)]? with
    | none => exact .inl rfl
    | some value => exact h value (List.mem_of_getElem? hget)

theorem length_interleaveBits (coded : List UInt8) :
    (interleaveBits coded).length = 2 * (40 * (coded.length / DATA_BITS)) := by
  have hwire : WIRE_BITS = 80 := rfl
  have hlength : (arrived (interleaveBits coded)).length =
      WIRE_BITS * (coded.length / DATA_BITS) := by
    rw [arrived_interleaveBits,
      length_flatten_range fun j => (marked_wireBlock coded j).length]
  unfold arrived at hlength
  rw [List.length_map, hwire] at hlength
  omega

/-- Ideal symbols carry their bits without an erasure. -/
theorem channelBits_ideal : ∀ {bits : List UInt8} {n : ℕ}, Binary bits → bits.length = 2 * n →
    (idealSymbols bits).flatMap (·.channelBits 0) = arrived bits
  | [], _, _, _ => rfl
  | [_], _, _, h => by
    rw [List.length_singleton] at h
    omega
  | first :: second :: bits, n, hbinary, h => by
    obtain ⟨hfirst, hrest⟩ := List.forall_mem_cons.1 hbinary
    obtain ⟨hsecond, hbits⟩ := List.forall_mem_cons.1 hrest
    have hbit (value : UInt8) (h : value = 0 ∨ value = 1) : (value == 1).toUInt8 = value := by
      rcases h with rfl | rfl <;> rfl
    rw [List.length_cons, List.length_cons] at h
    rw [idealSymbols, List.flatMap_cons, @channelBits_ideal bits (n - 1) hbits (by omega)]
    unfold RecoveredSymbol.channelBits
    rw [coded_ideal, hbit first hfirst, hbit second hsecond]
    rfl

/-- Two payloads on the interleaved mission, received without noise and cut into two calls. The
    second CADU is brought, so a frame is taken that ends at most one symbol before it does. -/
theorem takes_gated_mission :
    let payloads := [(0 : UInt8), 255].map (List.replicate (RS_DATA_LEN * INTERLEAVE))
    let d := forMission blank .oqpsk80Interleaved
    Returns (payloads.mapM encodeInterleaved) fun frames =>
      let symbols := idealSymbols (interleaveBits (carried 1290240 100 frames))
      let calls := [symbols.take 1400000, symbols.drop 1400000]
      ∃ taken : List (ℕ × LocatedFrame),
        (taken.Pairwise fun a b => endOf a + 1 < endOf b) ∧
        (∀ a ∈ taken, a.1 < 16 ∧ validateCadu a.2.bytes = true ∧
          Gated (calls.flatMap batches) a) ∧
        (∃ a ∈ taken, 1451875 ≤ endOf a + 1) ∧
        ((d.resetStream.pushAll blank calls).reassembler,
            (d.resetStream.pushAll blank calls).images) =
          pushZones blank (PacketReassembler.new, d.images) taken := by
  intro payloads d
  have hpayloads : ∀ payload ∈ payloads, payload.length = RS_DATA_LEN * INTERLEAVE :=
    List.forall_mem_map.2 fun _ _ => List.length_replicate
  refine (returns_mapM fun payload hpayload => returns_sent (hpayloads payload hpayload)).imp
    fun frames hsent => ?_
  intro symbols calls
  have hbits : calls.flatten.flatMap (·.channelBits 0) =
      arrived (interleaveBits (carried 1290240 100 frames)) := by
    rw [List.flatten_cons, List.flatten_singleton, List.take_append_drop]
    exact channelBits_ideal (binary_interleaveBits (binary_carried _ _ _)) (length_interleaveBits _)
  have hcount : frames.length = 2 := hsent.length_eq.symm
  obtain ⟨second, hsecond⟩ : ∃ second, frames[1]? = some second :=
    ⟨_, List.getElem?_eq_getElem (by omega)⟩
  have hgated := gated_sent hsent (by decide : fillBits / 2 ≤ 1290240)
    (by decide : VITERBI_OUTPUT_DELAY + DATA_BITS / 2 ≤ 100)
    (by rw [flatten_flatMap_batches, hbits] : (calls.flatMap batches).flatten.flatMap _ = _) hsecond
  have hend : carriedEnd 1290240 1 = 1451875 := by decide
  rw [hend] at hgated
  obtain ⟨taken, hincreasing, hsound, hcomplete, hproducts⟩ := takes_gated blank d rfl calls
  obtain ⟨a, ha, hle⟩ := hcomplete (0, ⟨1451875, sentCadu second⟩) (Nat.succ_pos 15)
    (valid_sent hsent hsecond) hgated
  exact ⟨taken, hincreasing, hsound, ⟨a, ha, hle⟩, hproducts⟩

end LrptDecoder

end Lrpt
