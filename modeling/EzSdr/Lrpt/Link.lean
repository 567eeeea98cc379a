import EzSdr.Lrpt.Decoder

/-! # The LRPT Link

    What a transmitter sends for some payloads: zeros, the CADUs one after the
    other, zeros again, all of it in NRZ-M and then convolutionally coded.

    **`link_received`** says that a decoder without deinterleavers takes a frame
    where each of the CADUs ends, although up to four coded bits arrive wrong,
    whichever of its lanes reads the symbols as they were meant. -/

namespace Lrpt

open Checked (Returns returns_mapM)
open Daemon (MeteorProfile)
open Viterbi (differences encode encodeFrom)

/-! ## Section 1: The transmitter -/

/-- The top bit first. -/
def byteToBits (byte : UInt8) : List UInt8 :=
  (List.range 8).map fun i => (byte >>> (7 - i).toUInt8) &&& 1

def bytesToBits (bytes : List UInt8) : List UInt8 := bytes.flatMap byteToBits

/-- The level changes with every one. -/
def nrzm : UInt8 → List UInt8 → List UInt8
  | _, [] => []
  | level, bit :: bits => (level ^^^ bit) :: nrzm (level ^^^ bit) bits

/-- The information bits of some frames. -/
def linkBits (lead tail : ℕ) (frames : List (List UInt8)) : List UInt8 :=
  List.replicate lead 0 ++ frames.flatMap (fun frame => bytesToBits (LrptDecoder.sentCadu frame)) ++
    List.replicate tail 0

/-! ## Section 2: Bits -/

theorem length_byteToBits (byte : UInt8) : (byteToBits byte).length = 8 := by
  unfold byteToBits
  rw [List.length_map, List.length_range]

theorem bytesToBits_cons (byte : UInt8) (bytes : List UInt8) :
    bytesToBits (byte :: bytes) = byteToBits byte ++ bytesToBits bytes :=
  List.flatMap_cons

theorem length_bytesToBits (bytes : List UInt8) :
    (bytesToBits bytes).length = 8 * bytes.length := by
  induction bytes with
  | nil => rfl
  | cons byte bytes ih =>
    rw [bytesToBits_cons, List.length_append, ih, length_byteToBits, List.length_cons]
    omega

theorem packed_byteToBits (byte : UInt8) :
    (byteToBits byte).foldl (fun (packed b : UInt8) => (packed <<< 1) ||| (b &&& 1)) 0 = byte := by
  have hfin : ∀ b : Fin 256, (byteToBits (UInt8.ofNat b.val)).foldl
      (fun (packed b : UInt8) => (packed <<< 1) ||| (b &&& 1)) 0 = UInt8.ofNat b.val := by
    decide +kernel
  have hbyte := hfin ⟨byte.toNat, byte.toNat_lt⟩
  rwa [UInt8.ofNat_toNat] at hbyte

/-- Packing undoes unpacking. -/
theorem bitsToBytesMsb_bytesToBits (bytes : List UInt8) :
    bitsToBytesMsb (bytesToBits bytes) = bytes := by
  unfold bitsToBytesMsb
  rw [length_bytesToBits, Nat.mul_div_cancel_left _ (by decide)]
  induction bytes with
  | nil => rfl
  | cons byte bytes ih =>
    rw [List.length_cons, List.range_succ_eq_map, List.map_cons, List.map_map, bytesToBits_cons,
      Nat.mul_zero, List.drop_zero, List.take_left' (length_byteToBits byte), packed_byteToBits]
    refine congrArg (byte :: ·) (Eq.trans (List.map_congr_left fun k _ => ?_) ih)
    rw [Function.comp_apply, Nat.succ_eq_add_one, Nat.mul_add, Nat.mul_one, Nat.add_comm (8 * k),
      ← List.drop_drop, List.drop_left' (length_byteToBits byte)]

/-- A stream of zeros and ones. -/
def Binary (bits : List UInt8) : Prop := ∀ bit ∈ bits, bit = 0 ∨ bit = 1

theorem binary_append {xs ys : List UInt8} (hx : Binary xs) (hy : Binary ys) :
    Binary (xs ++ ys) :=
  List.forall_mem_append.2 ⟨hx, hy⟩

theorem binary_replicate (n : ℕ) : Binary (List.replicate n 0) := fun _ hbit =>
  .inl (List.eq_of_mem_replicate hbit)

theorem binary_bytesToBits (bytes : List UInt8) : Binary (bytesToBits bytes) := by
  intro bit hbit
  obtain ⟨byte, -, hbit⟩ := List.mem_flatMap.1 hbit
  obtain ⟨i, -, rfl⟩ := List.mem_map.1 hbit
  generalize byte >>> (7 - i).toUInt8 = shifted
  have hlast : (shifted &&& 1).toNat = shifted.toNat % 2 := by
    rw [UInt8.toNat_and]
    exact Nat.and_one_is_mod _
  rcases Nat.mod_two_eq_zero_or_one shifted.toNat with hzero | hone
  · exact .inl (UInt8.toNat_inj.1 (hlast.trans hzero))
  · exact .inr (UInt8.toNat_inj.1 (hlast.trans hone))

theorem binary_linkBits (lead tail : ℕ) (frames : List (List UInt8)) :
    Binary (linkBits lead tail frames) := by
  refine binary_append (binary_append (binary_replicate lead) ?_) (binary_replicate tail)
  intro bit hbit
  obtain ⟨frame, -, hbit⟩ := List.mem_flatMap.1 hbit
  exact binary_bytesToBits _ bit hbit

theorem binary_nrzm {level : UInt8} {bits : List UInt8} (hlevel : level = 0 ∨ level = 1)
    (h : Binary bits) : Binary (nrzm level bits) := by
  induction bits generalizing level with
  | nil => exact nofun
  | cons bit bits ih =>
    obtain ⟨hbit, hbits⟩ := List.forall_mem_cons.1 h
    have hnext : level ^^^ bit = 0 ∨ level ^^^ bit = 1 := by
      rcases hlevel with rfl | rfl <;> rcases hbit with rfl | rfl <;> decide
    exact List.forall_mem_cons.2 ⟨hnext, ih hnext hbits⟩

/-- A binary stream comes from truth values. -/
theorem exists_info {bits : List UInt8} (h : Binary bits) :
    ∃ info : List Bool, info.map Bool.toUInt8 = bits := by
  refine ⟨bits.map (· == 1), ?_⟩
  rw [List.map_map]
  refine (List.map_congr_left fun bit hbit => ?_).trans (List.map_id bits)
  rcases h bit hbit with rfl | rfl
  · rfl
  · rfl

/-! ## Section 3: NRZ-M and back -/

theorem length_nrzm (level : UInt8) (bits : List UInt8) :
    (nrzm level bits).length = bits.length := by
  induction bits generalizing level with
  | nil => rfl
  | cons bit bits ih => exact congrArg (· + 1) (ih _)

theorem take_nrzm (level : UInt8) (bits : List UInt8) (k : ℕ) :
    (nrzm level bits).take k = nrzm level (bits.take k) := by
  induction bits generalizing level k with
  | nil => rw [List.take_nil, nrzm, List.take_nil]
  | cons bit bits ih =>
    cases k with
    | zero => rfl
    | succ k => exact congrArg _ (ih _ k)

theorem undoNrzm_nrzm (level : UInt8) (bits : List UInt8) :
    (undoNrzm (some level) (nrzm level bits)).2 = bits := by
  induction bits generalizing level with
  | nil => rfl
  | cons bit bits ih =>
    have hbit : level ^^^ (level ^^^ bit) = bit := by
      rw [← UInt8.xor_assoc, UInt8.xor_self, UInt8.zero_xor]
    show (level ^^^ (level ^^^ bit)) :: (undoNrzm (some (level ^^^ bit)) _).2 = _
    rw [hbit, ih]

/-! ## Section 4: The scan -/

theorem bitErrors_congr (xs ys : List UInt8) (h : ∀ i < 32, xs.getD i 0 = ys.getD i 0) :
    bitErrors xs = bitErrors ys := by
  unfold bitErrors
  congr 1
  apply List.filter_congr
  intro i hi
  rw [h i (List.mem_range.1 hi)]

/-- The bits of the marker. -/
def markerBits : List UInt8 := bytesToBits [0x1A, 0xCF, 0xFC, 0x1D]

theorem bits_sentCadu (frame : List UInt8) : bytesToBits (LrptDecoder.sentCadu frame) =
    markerBits ++ bytesToBits (derandomize frame) :=
  List.flatMap_append

theorem hasMarker_markerBits (rest : List UInt8) : HasMarker (markerBits ++ rest) := by
  have hlength : markerBits.length = 32 := by decide
  have herrors : bitErrors markerBits = 0 := by decide
  refine ⟨by rw [List.length_append, hlength]; exact Nat.le_add_right .., ?_⟩
  rw [bitErrors_congr _ markerBits, herrors]
  · exact Nat.zero_le 2
  · intro i hi
    exact List.getD_append _ _ _ _ (hlength ▸ hi)

/-- Zeros before a marker are not taken for one. -/
theorem not_hasMarker_zeros (lead : ℕ) (rest : List UInt8) :
    ¬ HasMarker (List.replicate (lead + 1) 0 ++ (markerBits ++ rest)) := by
  have hlength : markerBits.length = 32 := by decide
  -- only the first 32 bits count: zeros and then some bits of the marker, or zeros alone
  have hzeros : ∀ k : Fin 32, 2 < bitErrors (List.replicate (k.val + 1) 0 ++ markerBits) := by
    decide
  rintro ⟨-, herrors⟩
  by_cases hlong : lead < 32
  · have hfew := hzeros ⟨lead, hlong⟩
    rw [bitErrors_congr _ (List.replicate (lead + 1) 0 ++ markerBits)] at herrors
    · exact absurd hfew (Nat.not_lt.2 herrors)
    · intro i hi
      rw [← List.append_assoc]
      apply List.getD_append
      rw [List.length_append, hlength]
      omega
  · have hfew := hzeros 31
    rw [bitErrors_congr _ (List.replicate 32 0 ++ markerBits)] at herrors
    · exact absurd hfew (Nat.not_lt.2 herrors)
    · intro i hi
      rw [List.getD_append _ _ _ _ (by rw [List.length_replicate]; omega),
        List.getD_append _ _ _ _ (by rw [List.length_replicate]; omega),
        List.getD_replicate _ (show i < lead + 1 by omega), List.getD_replicate _ hi]

/-- The scan finds every CADU of an uninterrupted sequence. -/
theorem greedy_cadus {payloads frames : List (List UInt8)}
    (h : List.Forall₂ LrptDecoder.Sent payloads frames) (position : ℕ) (rest : List UInt8)
    {i : ℕ} {frame : List UInt8} (hframe : frames[i]? = some frame) :
    ⟨position + 8192 * (i + 1), LrptDecoder.sentCadu frame⟩ ∈ greedy validateCadu position
      (frames.flatMap (fun frame => bytesToBits (LrptDecoder.sentCadu frame)) ++ rest) := by
  induction h generalizing position i with
  | nil => cases hframe
  | @cons payload first payloads frames hone _ ih =>
    have hbits : (bytesToBits (LrptDecoder.sentCadu first)).length = 8192 := by
      rw [length_bytesToBits, hone.length]
      rfl
    rw [List.flatMap_cons, List.append_assoc]
    have hmarker : HasMarker (bytesToBits (LrptDecoder.sentCadu first) ++
        (frames.flatMap (fun frame => bytesToBits (LrptDecoder.sentCadu frame)) ++ rest)) := by
      rw [bits_sentCadu, List.append_assoc]
      exact hasMarker_markerBits _
    -- a valid frame is skipped as a whole, so no marker inside it is looked at
    rw [greedy_frame (firstMarker_front hmarker) (by rw [List.length_append, hbits]; omega),
      List.drop_zero, List.take_left' hbits, bitsToBytesMsb_bytesToBits, if_pos hone.valid,
      Nat.zero_add, List.drop_left' hbits]
    cases i with
    | zero =>
      obtain rfl := Option.some.inj hframe
      exact List.mem_cons_self
    | succ i =>
      have hlater := ih (position + 0 + 8192) hframe
      rw [show position + 8192 * (i + 1 + 1) = position + 0 + 8192 + 8192 * (i + 1) by omega]
      exact List.mem_cons_of_mem _ hlater

/-- Zeros only move it. -/
theorem greedy_lead (lead position : ℕ) (rest : List UInt8) :
    greedy validateCadu position (List.replicate lead 0 ++ (markerBits ++ rest)) =
      greedy validateCadu (position + lead) (markerBits ++ rest) := by
  induction lead generalizing position with
  | zero => rfl
  | succ lead ih =>
    have hnone := not_hasMarker_zeros lead rest
    rw [List.replicate_succ, List.cons_append] at hnone ⊢
    rw [greedy_next hnone, ih, Nat.add_assoc, Nat.add_comm 1]

/-- So it finds them behind zeros. -/
theorem greedy_link {payloads frames : List (List UInt8)}
    (h : List.Forall₂ LrptDecoder.Sent payloads frames) (position lead : ℕ) (rest : List UInt8)
    {i : ℕ} {frame : List UInt8} (hframe : frames[i]? = some frame) :
    ⟨position + lead + 8192 * (i + 1), LrptDecoder.sentCadu frame⟩ ∈
      greedy validateCadu position (List.replicate lead 0 ++
        (frames.flatMap (fun frame => bytesToBits (LrptDecoder.sentCadu frame)) ++ rest)) := by
  have hfound := greedy_cadus h (position + lead) rest hframe
  have hne : frames ≠ [] := List.ne_nil_of_mem (List.mem_of_getElem? hframe)
  obtain ⟨first, others, rfl⟩ := List.exists_cons_of_ne_nil hne
  rw [List.flatMap_cons, bits_sentCadu, List.append_assoc, List.append_assoc] at hfound ⊢
  rwa [greedy_lead]

/-- Without its last bits the link only misses zeros. -/
theorem take_linkBits {lead tail m : ℕ} {frames : List (List UInt8)}
    (h : (linkBits lead tail frames).length ≤ m + tail) : ∃ rest,
      (linkBits lead tail frames).take m = List.replicate lead 0 ++
        (frames.flatMap (fun frame => bytesToBits (LrptDecoder.sentCadu frame)) ++ rest) := by
  unfold linkBits at h ⊢
  generalize hfront : List.replicate lead 0 ++
    frames.flatMap (fun frame => bytesToBits (LrptDecoder.sentCadu frame)) = front at h ⊢
  rw [List.length_append, List.length_replicate] at h
  rw [List.take_append, List.take_of_length_le (by omega), ← hfront, List.append_assoc]
  exact ⟨_, rfl⟩

/-! ## Section 5: The lane -/

theorem information_coded {bit : UInt8} {bits coded : List UInt8} (hbinary : Binary (bit :: bits))
    (hlength : coded.length = 2 * (bits.length + 1))
    (herrors : differences (encode (nrzm 0 (bit :: bits))) coded ≤ 4) :
    information coded = bits.take (bits.length - VITERBI_OUTPUT_DELAY) := by
  obtain ⟨info, hinfo⟩ := exists_info (binary_nrzm (.inl rfl) hbinary)
  have hcount : info.length = bits.length + 1 := by
    rw [← List.length_map, hinfo, length_nrzm, List.length_cons]
  rw [← hinfo] at herrors
  have hrecovered : recovered coded =
      (info.take (info.length - VITERBI_OUTPUT_DELAY)).map Bool.toUInt8 :=
    Viterbi.pushBits_decodes (hcount ▸ hlength) herrors
  rw [List.map_take, hinfo, hcount, take_nrzm] at hrecovered
  unfold information
  rw [hrecovered]
  -- the first bit only sets the level
  by_cases hshort : bits.length < VITERBI_OUTPUT_DELAY
  · rw [Nat.sub_eq_zero_of_le hshort, Nat.sub_eq_zero_of_le hshort.le]
    rfl
  · rw [Nat.succ_sub (Nat.not_lt.1 hshort), List.take_succ_cons]
    exact undoNrzm_nrzm _ _

/-- The lane that reads the symbols as they were meant finds every CADU. -/
theorem scanned_link {payloads frames : List (List UInt8)}
    (h : List.Forall₂ LrptDecoder.Sent payloads frames) (profile : Option MeteorProfile)
    {hypothesis lead tail : ℕ} (htail : VITERBI_OUTPUT_DELAY ≤ tail)
    {symbols : List RecoveredSymbol}
    (hlength : symbols.length = (linkBits (lead + 1) tail frames).length)
    (herrors : differences (encode (nrzm 0 (linkBits (lead + 1) tail frames)))
      (codedBits hypothesis symbols) ≤ 4)
    {i : ℕ} {frame : List UInt8} (hframe : frames[i]? = some frame) :
    ⟨lead + 1 + 8192 * (i + 1), LrptDecoder.sentCadu frame⟩ ∈
      scanned profile hypothesis symbols := by
  have hsplit : linkBits (lead + 1) tail frames = 0 :: linkBits lead tail frames := rfl
  have hcoded := length_codedBits hypothesis symbols
  have hbinary := binary_linkBits (lead + 1) tail frames
  rw [hsplit] at hlength herrors hbinary
  rw [hlength, List.length_cons] at hcoded
  have hinformation := information_coded hbinary hcoded herrors
  -- the delay of the decoder only eats zeros of the tail
  obtain ⟨rest, hrest⟩ := @take_linkBits lead tail
    ((linkBits lead tail frames).length - VITERBI_OUTPUT_DELAY) frames (by omega)
  have hfound := greedy_link h 0 lead rest hframe
  rw [← hrest, ← hinformation, Nat.zero_add] at hfound
  unfold scanned
  refine List.mem_append_right _ (List.mem_map.2 ⟨_, hfound, ?_⟩)
  unfold LocatedFrame.late
  rw [Nat.add_right_comm]

/-! ## Section 6: The decoder -/

namespace LrptDecoder

variable {π : Type}

/-- The coded bits of some frames, zeros before and after them. -/
def transmitted (lead tail : ℕ) (frames : List (List UInt8)) : List UInt8 :=
  encode (nrzm 0 (linkBits (lead + 1) tail frames))

/-- Every symbol has energy, in both pairings. -/
def Strong (symbols : List RecoveredSymbol) : Prop :=
  ∀ symbol ∈ symbols, ∀ p : Fin 2, (symbol.paired p).energy = true

theorem weakSymbols_strong {symbols : List RecoveredSymbol} (h : Strong symbols) (p : Fin 2)
    (received : ℕ) : weakSymbols p received symbols = [] := by
  unfold weakSymbols
  rw [List.filterMap_eq_nil_iff]
  rintro ⟨symbol, offset⟩ hmem
  exact if_pos (h symbol (List.fst_mem_of_mem_zipIdx hmem) p)

/-- The transmitter codes a list of truth values. -/
theorem exists_transmitted (lead tail : ℕ) (frames : List (List UInt8)) : ∃ info : List Bool,
    info.length = (linkBits (lead + 1) tail frames).length ∧
      transmitted lead tail frames = encodeFrom 0 (info.map Bool.toUInt8) := by
  obtain ⟨info, hinfo⟩ :=
    exists_info (binary_nrzm (.inl rfl) (binary_linkBits (lead + 1) tail frames))
  refine ⟨info, ?_, ?_⟩
  · rw [← List.length_map Bool.toUInt8, hinfo, length_nrzm]
  · rw [hinfo]
    rfl

theorem length_transmitted (lead tail : ℕ) (frames : List (List UInt8)) :
    (transmitted lead tail frames).length = 2 * (linkBits (lead + 1) tail frames).length := by
  obtain ⟨info, hinfo, hcoded⟩ := exists_transmitted lead tail frames
  rw [hcoded, Viterbi.length_encodeFrom, List.length_map, hinfo]

theorem valid_sent {payloads frames : List (List UInt8)} (hsent : List.Forall₂ Sent payloads frames)
    {i : ℕ} {frame : List UInt8} (hframe : frames[i]? = some frame) :
    validateCadu (sentCadu frame) = true := by
  obtain ⟨hi, rfl⟩ := List.getElem?_eq_some_iff.1 hframe
  exact (hsent.get (hsent.length_eq ▸ hi) hi).valid

/-- The CADU that is sent is acceptable on the lane that reads the symbols as they were meant. -/
theorem acceptable_sent {payloads frames : List (List UInt8)}
    (hsent : List.Forall₂ Sent payloads frames) (profile : Option MeteorProfile)
    {hypothesis : ℕ} (hlane : hypothesis < 16) {lead tail : ℕ}
    (htail : VITERBI_OUTPUT_DELAY ≤ tail) {symbols : List RecoveredSymbol}
    (hstrong : Strong symbols)
    (hlength : 2 * symbols.length = (transmitted lead tail frames).length)
    (herrors : differences (transmitted lead tail frames) (codedBits hypothesis symbols) ≤ 4)
    {i : ℕ} {frame : List UInt8} (hframe : frames[i]? = some frame) :
    Acceptable profile symbols (hypothesis, ⟨lead + 1 + 8192 * (i + 1), sentCadu frame⟩) := by
  have hcount : symbols.length = (linkBits (lead + 1) tail frames).length := by
    rw [length_transmitted] at hlength
    omega
  refine ⟨hlane, scanned_link hsent profile htail hcount herrors hframe, valid_sent hsent hframe, ?_⟩
  rw [weakSymbols_strong hstrong]
  rfl

/-- **The link.** Payloads are encoded, and their CADUs are sent one after the other behind some
    zeros. A decoder without deinterleavers that is given as many symbols after a reset, cut in
    whatever way, all with energy and with at most four wrong bits in the reading of one of its
    lanes, accepts each of the CADUs there and takes exactly one frame where it ends. -/
theorem link_received (n : Numerics π) {d : LrptDecoder π} (h : d.interleaved = false)
    {hypothesis : ℕ} (hlane : hypothesis < 16) (lead : ℕ) {tail : ℕ}
    (htail : VITERBI_OUTPUT_DELAY ≤ tail) {payloads : List (List UInt8)}
    (hpayloads : ∀ payload ∈ payloads, payload.length = RS_DATA_LEN * INTERLEAVE) :
    Returns (payloads.mapM encodeInterleaved) fun frames =>
      frames.length = payloads.length ∧
      ∀ calls : List (List RecoveredSymbol), Strong calls.flatten →
        2 * calls.flatten.length = (transmitted lead tail frames).length →
        differences (transmitted lead tail frames) (codedBits hypothesis calls.flatten) ≤ 4 →
        ∃ taken : List (ℕ × LocatedFrame),
          (taken.Pairwise fun a b => endOf a < endOf b) ∧
          (∀ (i : ℕ) (frame : List UInt8), frames[i]? = some frame →
            Acceptable d.profile calls.flatten
              (hypothesis, ⟨lead + 1 + 8192 * (i + 1), sentCadu frame⟩) ∧
            ∃ a ∈ taken, endOf a = lead + 1 + 8192 * (i + 1)) ∧
          ((d.resetStream.pushAll n calls).reassembler, (d.resetStream.pushAll n calls).images) =
            pushZones n (PacketReassembler.new, d.images) taken := by
  refine (returns_mapM fun payload hpayload => returns_sent (hpayloads payload hpayload)).imp
    fun frames hsent => ⟨hsent.length_eq.symm, fun calls hstrong hlength herrors => ?_⟩
  obtain ⟨taken, hfollowing⟩ := @following_batches _ n d h (calls.flatMap batches)
  rw [flatten_flatMap_batches, ← pushAll_eq] at hfollowing
  refine ⟨taken, hfollowing.increasing, fun i frame hframe => ?_, hfollowing.products⟩
  have hacceptable := acceptable_sent hsent d.profile hlane htail hstrong hlength herrors hframe
  exact ⟨hacceptable, hfollowing.complete _ hacceptable⟩

/-! ## Section 7: Symbols without noise -/

/-- The points that hypothesis 0 reads as some coded bits. -/
def idealSymbols : List UInt8 → List RecoveredSymbol
  | first :: second :: coded => ⟨⟨first == 1, second == 1, true⟩, none⟩ :: idealSymbols coded
  | _ => []

theorem strong_ideal : ∀ coded : List UInt8, Strong (idealSymbols coded)
  | first :: second :: coded => by
    unfold idealSymbols
    refine List.forall_mem_cons.2 ⟨fun p => ?_, strong_ideal coded⟩
    unfold RecoveredSymbol.paired
    split <;> rfl
  | [_] => nofun
  | [] => nofun

theorem differences_self (bits : List UInt8) : differences bits bits = 0 := by
  induction bits with
  | nil => rfl
  | cons bit bits ih => rw [Viterbi.differences_cons, ih, if_neg (not_not.2 rfl)]

theorem emit_binary : ∀ (s : Fin Viterbi.STATES) (bit : Bool),
    ((Viterbi.trellis.emit s bit).1 == 1).toUInt8 = (Viterbi.trellis.emit s bit).1 ∧
      ((Viterbi.trellis.emit s bit).2 == 1).toUInt8 = (Viterbi.trellis.emit s bit).2 := by
  decide

theorem coded_ideal (first second : UInt8) :
    (RecoveredSymbol.mk ⟨first == 1, second == 1, true⟩ none).coded 0 =
      [(first == 1).toUInt8, (second == 1).toUInt8] := by
  show [(first == 1).toUInt8 ^^^ 0, (second == 1).toUInt8 ^^^ 0] = _
  rw [UInt8.xor_zero, UInt8.xor_zero]

theorem codedBits_cons (hypothesis : ℕ) (symbol : RecoveredSymbol)
    (symbols : List RecoveredSymbol) : codedBits hypothesis (symbol :: symbols) =
      symbol.coded hypothesis ++ codedBits hypothesis symbols :=
  List.flatMap_cons

theorem codedBits_ideal (s : Fin Viterbi.STATES) (info : List Bool) :
    codedBits 0 (idealSymbols (encodeFrom s (info.map Bool.toUInt8))) =
      encodeFrom s (info.map Bool.toUInt8) := by
  induction info generalizing s with
  | nil => rfl
  | cons bit info ih =>
    obtain ⟨hfirst, hsecond⟩ := emit_binary s bit
    rw [Viterbi.encodeFrom_cons, idealSymbols, codedBits_cons, coded_ideal, ih, hfirst, hsecond]
    rfl

theorem codedBits_transmitted (lead tail : ℕ) (frames : List (List UInt8)) :
    codedBits 0 (idealSymbols (transmitted lead tail frames)) = transmitted lead tail frames := by
  obtain ⟨info, -, hcoded⟩ := exists_transmitted lead tail frames
  rw [hcoded]
  exact codedBits_ideal 0 info

/-- Two payloads on the mission without interleaving, received without noise. -/
theorem link_received_two :
    let payloads := [(0 : UInt8), 255].map (List.replicate (RS_DATA_LEN * INTERLEAVE))
    let d := forMission blank .oqpsk72
    Returns (payloads.mapM encodeInterleaved) fun frames =>
      ∃ taken : List (ℕ × LocatedFrame),
        (∃ a ∈ taken, endOf a = 256 + 8192) ∧ (∃ a ∈ taken, endOf a = 256 + 2 * 8192) ∧
        let received := d.resetStream.pushAll blank [idealSymbols (transmitted 255 256 frames)]
        (received.reassembler, received.images) =
          pushZones blank (PacketReassembler.new, d.images) taken := by
  intro payloads d
  have hpayloads : ∀ payload ∈ payloads, payload.length = RS_DATA_LEN * INTERLEAVE :=
    List.forall_mem_map.2 fun _ _ => List.length_replicate
  refine (link_received blank (rfl : d.interleaved = false) (Nat.succ_pos 15) 255
    (by decide : VITERBI_OUTPUT_DELAY ≤ 256) hpayloads).imp fun frames ⟨hcount, hreceived⟩ => ?_
  have hideal := codedBits_transmitted 255 256 frames
  obtain ⟨taken, -, hends, hproducts⟩ := hreceived [idealSymbols (transmitted 255 256 frames)]
    (by rw [List.flatten_singleton]; exact strong_ideal _)
    (by rw [List.flatten_singleton, ← length_codedBits 0, hideal])
    (by rw [List.flatten_singleton, hideal]; exact le_of_eq_of_le (differences_self _) (by decide))
  refine ⟨taken, ?_, ?_, hproducts⟩
  · exact (hends 0 _ (List.getElem?_eq_getElem (by rw [hcount]; decide))).2
  · exact (hends 1 _ (List.getElem?_eq_getElem (by rw [hcount]; decide))).2

/-- The two payloads again, cut into two calls inside the first CADU: a frame is taken where each
    of the CADUs ends. -/
theorem accepts_once_mission :
    let payloads := [(0 : UInt8), 255].map (List.replicate (RS_DATA_LEN * INTERLEAVE))
    let d := forMission blank .oqpsk72
    Returns (payloads.mapM encodeInterleaved) fun frames =>
      let symbols := idealSymbols (transmitted 255 256 frames)
      let calls := [symbols.take 5000, symbols.drop 5000]
      ∃ taken : List (ℕ × LocatedFrame),
        (taken.Pairwise fun a b => endOf a < endOf b) ∧
        (∀ a ∈ taken, Acceptable (some .oqpsk72) symbols a) ∧
        (∃ a ∈ taken, endOf a = 256 + 8192) ∧ (∃ a ∈ taken, endOf a = 256 + 2 * 8192) ∧
        ((d.resetStream.pushAll blank calls).reassembler,
            (d.resetStream.pushAll blank calls).images) =
          pushZones blank (PacketReassembler.new, d.images) taken := by
  intro payloads d
  have hpayloads : ∀ payload ∈ payloads, payload.length = RS_DATA_LEN * INTERLEAVE :=
    List.forall_mem_map.2 fun _ _ => List.length_replicate
  refine (returns_mapM fun payload hpayload => returns_sent (hpayloads payload hpayload)).imp
    fun frames hsent => ?_
  intro symbols calls
  have hflatten : calls.flatten = symbols := by
    rw [List.flatten_cons, List.flatten_singleton, List.take_append_drop]
  have hideal : codedBits 0 symbols = transmitted 255 256 frames :=
    codedBits_transmitted 255 256 frames
  obtain ⟨taken, hincreasing, hsound, hcomplete, hproducts⟩ :=
    accepts_once blank d (rfl : d.interleaved = false) calls
  rw [hflatten] at hsound hcomplete
  have hends (i : ℕ) (hi : i < frames.length) :
      ∃ a ∈ taken, endOf a = 255 + 1 + 8192 * (i + 1) :=
    hcomplete _ (acceptable_sent hsent d.profile (Nat.succ_pos 15)
      (by decide : VITERBI_OUTPUT_DELAY ≤ 256) (strong_ideal _)
      (by rw [← length_codedBits 0, hideal]) (by rw [hideal, differences_self]; decide)
      (List.getElem?_eq_getElem hi))
  have hcount : frames.length = 2 := hsent.length_eq.symm
  exact ⟨taken, hincreasing, hsound, hends 0 (by omega), hends 1 (by omega), hproducts⟩

end LrptDecoder

end Lrpt
