import EzSdr.ModeS.Crc

/-! # Error Correction of Mode S Messages

    A message is corrected by its syndrome: a single flipped bit, or a pair of
    them, whose syndrome is that of the message. The specifications below say
    what comes out in terms of the received bits: the corrected message
    satisfies its code and lies within the number of corrections of what was
    received. -/

namespace ModeS

def MODES_LONG_MSG_BITS : ℕ := 112
def MODES_SHORT_MSG_BITS : ℕ := 56

/-- A demodulated message buffer of 112 bits. -/
abbrev Message : Type := Bytes 14

/-- A 56-bit message. -/
abbrev ShortMessage : Type := Bytes 7

/-- The first seven bytes of a buffer. -/
def shortBytes (msg : Message) : ShortMessage := fun i => msg (i.castAdd 7)

/-- The downlink format field of a message. -/
def dfOf {n : ℕ} (msg : Bytes (n + 1)) : Byte := msg 0 >>> 3

@[simp] theorem dfOf_padded (msg : ShortMessage) : dfOf (padded msg) = dfOf msg := rfl

@[simp] theorem shortBytes_padded (msg : ShortMessage) : shortBytes (padded msg) = msg := by
  funext i
  exact Fin.append_left msg (fun _ : Fin 7 => 0#8) i

/-! ## Section 1: Bits of a message -/

/-- The byte a bit stands in. -/
def byteOf {n : ℕ} (bit : Fin (n * 8)) : Fin n :=
  ⟨bit.val / 8, Nat.div_lt_of_lt_mul (by have := bit.isLt; omega)⟩

/-- The mask of a bit within its byte. -/
def bitMask {n : ℕ} (bit : Fin (n * 8)) : Byte := 1#8 <<< (7 - bit.val % 8)

/-- Flip one bit. -/
def applyBitErrors {n : ℕ} (msg : Bytes n) (bit : Fin (n * 8)) : Bytes n :=
  Function.update msg (byteOf bit) (msg (byteOf bit) ^^^ bitMask bit)

/-- One bit of a message. -/
def bitAt {n : ℕ} (msg : Bytes n) (bit : Fin (n * 8)) : Bool :=
  (msg (byteOf bit)).getLsbD (7 - bit.val % 8)

/-- The bits in which two messages differ. -/
def diffBits {n : ℕ} (a b : Bytes n) : Finset (Fin (n * 8)) :=
  Finset.univ.filter fun bit => bitAt a bit ≠ bitAt b bit

/-- Number of bits in which two messages differ. -/
def bitDistance {n : ℕ} (a b : Bytes n) : ℕ := (diffBits a b).card

@[simp] theorem mem_diffBits {n : ℕ} {a b : Bytes n} {bit : Fin (n * 8)} :
    bit ∈ diffBits a b ↔ bitAt a bit ≠ bitAt b bit := by
  simp [diffBits]

theorem bitMask_getLsbD {n : ℕ} (bit : Fin (n * 8)) (j : ℕ) :
    (bitMask bit).getLsbD j = decide (j = 7 - bit.val % 8) := by
  have htwo : bitMask bit = BitVec.twoPow 8 (7 - bit.val % 8) := by
    rw [bitMask, BitVec.twoPow]
  rw [htwo, BitVec.getLsbD_twoPow]
  have hlt : 7 - bit.val % 8 < 8 := by omega
  simp [hlt, eq_comm]

/-- Bits are numbered by byte and position. -/
theorem bit_ext {n : ℕ} {a b : Fin (n * 8)} (hbyte : byteOf a = byteOf b)
    (hpos : 7 - a.val % 8 = 7 - b.val % 8) : a = b := by
  have hdiv : a.val / 8 = b.val / 8 := congrArg Fin.val hbyte
  apply Fin.ext
  omega

/-- Flipping a bit changes that bit and no other. -/
theorem bitAt_applyBitErrors {n : ℕ} (msg : Bytes n) (bit b : Fin (n * 8)) :
    bitAt (applyBitErrors msg bit) b = (bitAt msg b ^^ decide (b = bit)) := by
  unfold bitAt applyBitErrors
  by_cases hbyte : byteOf b = byteOf bit
  · rw [hbyte, Function.update_self, BitVec.getLsbD_xor, bitMask_getLsbD]
    congr 1
    by_cases hb : b = bit
    · simp [hb]
    · have hpos : ¬ 7 - b.val % 8 = 7 - bit.val % 8 := fun h => hb (bit_ext hbyte h)
      simp [hb, hpos]
  · have hb : b ≠ bit := fun h => hbyte (by rw [h])
    rw [Function.update_of_ne hbyte]
    simp [hb]

/-- Messages with the same bits are equal. -/
theorem ext_bitAt {n : ℕ} {a b : Bytes n} (h : ∀ bit, bitAt a bit = bitAt b bit) : a = b := by
  funext i
  apply BitVec.eq_of_getLsbD_eq
  intro j hj
  have hlt : i.val * 8 + (7 - j) < n * 8 := by
    have := i.isLt
    omega
  have hbit := h ⟨i.val * 8 + (7 - j), hlt⟩
  have hbyte : byteOf (⟨i.val * 8 + (7 - j), hlt⟩ : Fin (n * 8)) = i := by
    apply Fin.ext
    show (i.val * 8 + (7 - j)) / 8 = i.val
    omega
  have hpos : 7 - (i.val * 8 + (7 - j)) % 8 = j := by omega
  unfold bitAt at hbit
  rwa [hbyte, show 7 - (⟨i.val * 8 + (7 - j), hlt⟩ : Fin (n * 8)).val % 8 = j from hpos] at hbit

theorem bitDistance_eq_zero {n : ℕ} {a b : Bytes n} : bitDistance a b = 0 ↔ a = b := by
  constructor
  · intro h
    apply ext_bitAt
    intro bit
    by_contra hne
    have hmem : bit ∈ diffBits a b := by simpa using hne
    rw [Finset.card_eq_zero.1 h] at hmem
    simp at hmem
  · rintro rfl
    simp [bitDistance, diffBits]

/-- Flipping a bit that differs removes it from the difference. -/
theorem diffBits_applyBitErrors {n : ℕ} {a b : Bytes n} {bit : Fin (n * 8)}
    (h : bit ∈ diffBits a b) : diffBits (applyBitErrors a bit) b = (diffBits a b).erase bit := by
  ext c
  rw [mem_diffBits, Finset.mem_erase, mem_diffBits, bitAt_applyBitErrors]
  rw [mem_diffBits] at h
  by_cases hc : c = bit
  · subst hc
    revert h
    cases bitAt a c <;> cases bitAt b c <;> simp
  · simp [hc]

theorem bitDistance_applyBitErrors {n : ℕ} {a b : Bytes n} {bit : Fin (n * 8)}
    (h : bit ∈ diffBits a b) : bitDistance (applyBitErrors a bit) b + 1 = bitDistance a b := by
  unfold bitDistance
  rw [diffBits_applyBitErrors h]
  exact Finset.card_erase_add_one h

/-- Messages at distance `k + 1` are a flip and `k` apart. -/
theorem exists_flip {n k : ℕ} {a b : Bytes n} (h : bitDistance a b = k + 1) :
    ∃ bit, bit ∈ diffBits a b ∧ bitDistance (applyBitErrors a bit) b = k := by
  obtain ⟨bit, hbit⟩ := Finset.card_pos.1 (show 0 < (diffBits a b).card by unfold bitDistance at h; omega)
  refine ⟨bit, hbit, ?_⟩
  have := bitDistance_applyBitErrors hbit
  omega

theorem self_mem_diffBits {n : ℕ} (a : Bytes n) (bit : Fin (n * 8)) :
    bit ∈ diffBits a (applyBitErrors a bit) := by
  rw [mem_diffBits, bitAt_applyBitErrors]
  cases bitAt a bit <;> simp

/-- One flip is one bit of distance. -/
theorem bitDistance_flip {n : ℕ} (a : Bytes n) (bit : Fin (n * 8)) :
    bitDistance a (applyBitErrors a bit) = 1 := by
  have := bitDistance_applyBitErrors (self_mem_diffBits a bit)
  rw [bitDistance_eq_zero.2 rfl] at this
  omega

theorem bitDistance_triangle {n : ℕ} (a b c : Bytes n) :
    bitDistance a c ≤ bitDistance a b + bitDistance b c := by
  unfold bitDistance
  refine le_trans (Finset.card_le_card ?_) (Finset.card_union_le _ _)
  intro bit hbit
  rw [Finset.mem_union, mem_diffBits, mem_diffBits]
  rw [mem_diffBits] at hbit
  by_contra hnot
  push Not at hnot
  exact hbit (hnot.1.trans hnot.2)

/-- A flip changes the message by the message with only that bit set. -/
theorem applyBitErrors_eq_xor {n : ℕ} (msg : Bytes n) (bit : Fin (n * 8)) :
    applyBitErrors msg bit = xorBytes msg (applyBitErrors (fun _ => 0#8) bit) := by
  funext i
  unfold applyBitErrors xorBytes
  by_cases h : i = byteOf bit
  · subst h
    simp
  · simp [Function.update_of_ne h]

/-! ## Section 2: Correction -/

/-- Syndrome of a 112-bit message with exactly one bit set. -/
def singleBitSyndrome (bit : Fin (14 * 8)) : Word :=
  crc24Parity (Function.update (fun _ : Fin 14 => 0#8) (byteOf bit) (bitMask bit))

/-- Where the bits of a 56-bit message stand in the table of syndromes. -/
def shortMsgOffset (bit : Fin (7 * 8)) : Fin (14 * 8) := ⟨bit.val + 56, by omega⟩

/-- The syndrome bits that are protected. The parity of DF11 replies carries a
    seven-bit interrogator identifier. -/
def syndromeMask (df : Byte) : Word := if df = 11#8 then 0xFFFF80#32 else 0xFFFFFF#32

/-- Does flipping `bit` repair the first 56 bits? The flip must explain the
    syndrome, and the result must satisfy the parity rule of its own format. -/
def repairsShort (input : Message) (bit : Fin (7 * 8)) : Bool :=
  let short := shortBytes input
  let mask := syndromeMask (dfOf input)
  singleBitSyndrome (shortMsgOffset bit) &&& mask == crc24Parity short &&& mask &&
    crc24Parity (applyBitErrors short bit) &&&
      syndromeMask (dfOf (applyBitErrors short bit)) == 0#32

/-- Correct a 56-bit message, ignoring the trailing bytes of the buffer. -/
def correctShortMessage (input : Message) (maxErrors : ℕ) : ℤ × Message :=
  let short := shortBytes input
  if crc24Parity short &&& syndromeMask (dfOf input) = 0#32 then (0, padded short)
  else
    match if 1 ≤ maxErrors then (List.finRange (7 * 8)).find? (repairsShort input) else none with
    | some bit => (1, padded (applyBitErrors short bit))
    | none => (-1, input)

/-- All pairs of bits, lowest first bit first. -/
def bitPairs : List (Fin (14 * 8) × Fin (14 * 8)) :=
  (List.finRange (14 * 8)).flatMap fun b1 =>
    ((List.finRange (14 * 8)).filter (b1 < ·)).map fun b2 => (b1, b2)

/-- The first pair of bits with a given syndrome. -/
def twoBitSyndromeTable (syndrome : Word) : Option (Fin (14 * 8) × Fin (14 * 8)) :=
  bitPairs.find? fun pair => singleBitSyndrome pair.1 ^^^ singleBitSyndrome pair.2 == syndrome

/-- Correct a 112-bit message. -/
def correctLongMessage (input : Message) (maxErrors : ℕ) : ℤ × Message :=
  let longSyndrome := crc24Parity input
  if longSyndrome = 0#32 then (0, input)
  else
    match if 1 ≤ maxErrors then
        (List.finRange (14 * 8)).find? fun bit => singleBitSyndrome bit == longSyndrome
      else none with
    | some bit => (1, applyBitErrors input bit)
    | none =>
      match if 2 ≤ maxErrors then twoBitSyndromeTable longSyndrome else none with
      | some (b1, b2) => (2, applyBitErrors (applyBitErrors input b1) b2)
      | none => (-1, input)

/-- Message length in bits of a downlink format. -/
def modeSMessageLenByType (df : Byte) : ℕ :=
  if df &&& 0x10#8 ≠ 0#8 then MODES_LONG_MSG_BITS else MODES_SHORT_MSG_BITS

/-- Correct a message under the length its format field suggests, or else
    under the other length. -/
def correctMessage (input : Message) (maxErrors : ℕ) : ℤ × Message :=
  let suggestedShort := modeSMessageLenByType (dfOf input) == MODES_SHORT_MSG_BITS
  let first :=
    if suggestedShort then correctShortMessage input maxErrors
    else correctLongMessage input maxErrors
  if first.1 ≥ 0 then first
  else if suggestedShort then correctLongMessage input maxErrors
  else correctShortMessage input maxErrors

/-! ## Section 3: Syndromes of flipped bits -/

theorem singleBitSyndrome_eq (bit : Fin (14 * 8)) :
    singleBitSyndrome bit = crc24Parity (applyBitErrors (fun _ : Fin 14 => 0#8) bit) := by
  unfold singleBitSyndrome applyBitErrors
  rw [BitVec.zero_xor]

/-- A flip moves the syndrome by the syndrome of its bit. -/
theorem crc24Parity_flip (msg : Message) (bit : Fin (14 * 8)) :
    crc24Parity (applyBitErrors msg bit) = crc24Parity msg ^^^ singleBitSyndrome bit := by
  rw [applyBitErrors_eq_xor, crc24Parity_xor, singleBitSyndrome_eq]

/-- The table serves 56-bit messages at its upper half. -/
theorem singleBitSyndrome_short (bit : Fin (7 * 8)) :
    singleBitSyndrome (shortMsgOffset bit) =
      crc24Parity (applyBitErrors (fun _ : Fin 7 => 0#8) bit) := by
  revert bit
  decide +kernel

theorem crc24Parity_flip_short (msg : ShortMessage) (bit : Fin (7 * 8)) :
    crc24Parity (applyBitErrors msg bit) =
      crc24Parity msg ^^^ singleBitSyndrome (shortMsgOffset bit) := by
  rw [applyBitErrors_eq_xor, crc24Parity_xor, singleBitSyndrome_short]

/-- The syndromes of the bits of a 56-bit message are distinct. -/
theorem singleBitSyndrome_short_injective :
    Function.Injective fun bit => singleBitSyndrome (shortMsgOffset bit) := by
  decide +kernel

/-- No flipped bit of a 56-bit message goes unnoticed. -/
theorem singleBitSyndrome_short_ne_zero :
    ∀ bit, singleBitSyndrome (shortMsgOffset bit) ≠ 0#32 := by
  decide +kernel

/-! ## Section 4: What correction returns -/

/-- What the 112-bit correction returns: the nearest it may go to a message of
    the code, or a report that there is none within its reach. -/
inductive LongResult (input : Message) (maxErrors : ℕ) : ℤ × Message → Prop where
  | repaired (k : ℕ) (msg : Message) (hk : k ≤ min maxErrors 2)
      (hcrc : crc24Parity msg = 0#32) (hdist : bitDistance input msg ≤ k) :
      LongResult input maxErrors ((k : ℤ), msg)
  | failed (hfar : ∀ msg, crc24Parity msg = 0#32 → min maxErrors 2 < bitDistance input msg) :
      LongResult input maxErrors (-1, input)

theorem mem_bitPairs {b1 b2 : Fin (14 * 8)} : (b1, b2) ∈ bitPairs ↔ b1 < b2 := by
  simp [bitPairs]

/-- A message of the code two flips away is found through the table of pairs. -/
theorem twoBitSyndromeTable_isSome {input msg : Message} {b1 b2 : Fin (14 * 8)} (hne : b1 ≠ b2)
    (hmsg : applyBitErrors (applyBitErrors input b1) b2 = msg) (hcrc : crc24Parity msg = 0#32) :
    twoBitSyndromeTable (crc24Parity input) ≠ none := by
  intro hnone
  have hsyndrome : singleBitSyndrome b1 ^^^ singleBitSyndrome b2 = crc24Parity input := by
    rw [← hmsg, crc24Parity_flip, crc24Parity_flip, BitVec.xor_assoc] at hcrc
    exact (BitVec.xor_eq_zero_iff.1 hcrc).symm
  have hall := List.find?_eq_none.1 hnone
  rcases lt_or_gt_of_ne hne with hlt | hlt
  · have := hall (b1, b2) (mem_bitPairs.2 hlt)
    simp [hsyndrome] at this
  · have := hall (b2, b1) (mem_bitPairs.2 hlt)
    rw [BitVec.xor_comm] at hsyndrome
    simp [hsyndrome] at this

/-- When neither table has the syndrome, no message of the code is within reach. -/
theorem far_of_tables {input : Message} {maxErrors : ℕ} (hzero : crc24Parity input ≠ 0#32)
    (hone : 1 ≤ maxErrors → ∀ bit, singleBitSyndrome bit ≠ crc24Parity input)
    (htwo : 2 ≤ maxErrors → twoBitSyndromeTable (crc24Parity input) = none) :
    ∀ msg, crc24Parity msg = 0#32 → min maxErrors 2 < bitDistance input msg := by
  intro msg hcrc
  by_contra hnear
  have hcases : bitDistance input msg = 0 ∨ (1 ≤ maxErrors ∧ bitDistance input msg = 0 + 1) ∨
      (2 ≤ maxErrors ∧ bitDistance input msg = 1 + 1) := by
    omega
  rcases hcases with h0 | ⟨hmax, h1⟩ | ⟨hmax, h2⟩
  · rw [bitDistance_eq_zero] at h0
    exact hzero (by rw [h0, hcrc])
  · obtain ⟨bit, -, hflip⟩ := exists_flip h1
    rw [bitDistance_eq_zero] at hflip
    apply hone hmax bit
    rw [← hflip, crc24Parity_flip] at hcrc
    exact (BitVec.xor_eq_zero_iff.1 hcrc).symm
  · obtain ⟨b1, hb1, hflip⟩ := exists_flip h2
    obtain ⟨b2, hb2, hflip2⟩ := exists_flip (k := 0) hflip
    rw [bitDistance_eq_zero] at hflip2
    have hne : b1 ≠ b2 := by
      rintro rfl
      rw [diffBits_applyBitErrors hb1] at hb2
      exact absurd hb2 (Finset.notMem_erase b1 _)
    exact twoBitSyndromeTable_isSome hne hflip2 hcrc (htwo hmax)

theorem correctLongMessage_spec (input : Message) (maxErrors : ℕ) :
    LongResult input maxErrors (correctLongMessage input maxErrors) := by
  unfold correctLongMessage
  simp only
  split
  · next hzero => exact .repaired 0 input (Nat.zero_le _) hzero (bitDistance_eq_zero.2 rfl).le
  · next hzero =>
    split
    · next bit hfind =>
      split_ifs at hfind with hmax
      have hsyndrome : singleBitSyndrome bit = crc24Parity input := by
        simpa using List.find?_some hfind
      refine .repaired 1 _ (by omega) ?_ (bitDistance_flip input bit).le
      rw [crc24Parity_flip, hsyndrome, BitVec.xor_self]
    · next hfind =>
      have hone : 1 ≤ maxErrors → ∀ bit, singleBitSyndrome bit ≠ crc24Parity input := by
        intro hmax bit
        rw [if_pos hmax] at hfind
        have := List.find?_eq_none.1 hfind bit (List.mem_finRange bit)
        simpa using this
      split
      · next b1 b2 hpair =>
        split_ifs at hpair with hmax
        have hsyndrome : singleBitSyndrome b1 ^^^ singleBitSyndrome b2 = crc24Parity input := by
          simpa using List.find?_some hpair
        refine .repaired 2 _ (by omega) ?_ ?_
        · rw [crc24Parity_flip, crc24Parity_flip, BitVec.xor_assoc, hsyndrome, BitVec.xor_self]
        · have htri := bitDistance_triangle input (applyBitErrors input b1)
            (applyBitErrors (applyBitErrors input b1) b2)
          rw [bitDistance_flip, bitDistance_flip] at htri
          exact htri
      · next hpair =>
        refine .failed (far_of_tables hzero hone ?_)
        intro hmax
        rwa [if_pos hmax] at hpair

/-- What the 56-bit correction returns. -/
inductive ShortResult (input : Message) (maxErrors : ℕ) : ℤ × Message → Prop where
  | valid (hcrc : crc24Parity (shortBytes input) &&& syndromeMask (dfOf input) = 0#32) :
      ShortResult input maxErrors (0, padded (shortBytes input))
  | repaired (msg : ShortMessage) (hmax : 1 ≤ maxErrors)
      (hcrc : crc24Parity msg &&& syndromeMask (dfOf msg) = 0#32)
      (hdist : bitDistance (shortBytes input) msg = 1) :
      ShortResult input maxErrors (1, padded msg)
  | failed (hcrc : crc24Parity (shortBytes input) &&& syndromeMask (dfOf input) ≠ 0#32) :
      ShortResult input maxErrors (-1, input)

theorem correctShortMessage_spec (input : Message) (maxErrors : ℕ) :
    ShortResult input maxErrors (correctShortMessage input maxErrors) := by
  unfold correctShortMessage
  simp only
  split
  · next hcrc => exact .valid hcrc
  · next hcrc =>
    split
    · next bit hfind =>
      split_ifs at hfind with hmax
      have hrepairs := List.find?_some hfind
      simp only [repairsShort, Bool.and_eq_true, beq_iff_eq] at hrepairs
      exact .repaired _ hmax hrepairs.2 (bitDistance_flip _ bit)
    · exact .failed hcrc

/-! ## Section 5: When a 112-bit format comes out of the 56-bit code -/

/-- Does the downlink format name a 112-bit message? -/
def isLong (df : Byte) : Bool := df &&& 0x10#8 != 0#8

theorem modeSMessageLenByType_eq (df : Byte) :
    modeSMessageLenByType df = if isLong df then MODES_LONG_MSG_BITS else MODES_SHORT_MSG_BITS := by
  simp [modeSMessageLenByType, isLong]

/-- All syndrome bits of a 112-bit format are protected. -/
theorem syndromeMask_of_isLong {df : Byte} (h : isLong df = true) :
    syndromeMask df = 0xFFFFFF#32 := by
  unfold syndromeMask
  rw [if_neg]
  rintro rfl
  exact absurd h (by decide)

theorem crc24Parity_and_mask {n : ℕ} (msg : Bytes (n + 3)) :
    crc24Parity msg &&& 0xFFFFFF#32 = crc24Parity msg := by
  unfold crc24Parity
  rw [BitVec.and_assoc, BitVec.and_self]

/-- Only the first bit of a message moves it from a 56-bit to a 112-bit format. -/
theorem bit_eq_zero_of_isLong {msg : ShortMessage} {bit : Fin (7 * 8)}
    (hbefore : isLong (dfOf msg) = false) (hafter : isLong (dfOf (applyBitErrors msg bit)) = true) :
    bit = 0 := by
  have hbit : ∀ x : Byte, isLong (x >>> 3) = x.getLsbD 7 := by decide
  have h0 : byteOf (0 : Fin (7 * 8)) = 0 := rfl
  have hmsg : ∀ m : ShortMessage, isLong (dfOf m) = bitAt m 0 := by
    intro m
    exact hbit (m 0)
  rw [hmsg] at hbefore hafter
  rw [bitAt_applyBitErrors, hbefore] at hafter
  simpa [eq_comm] using hafter

/-- A bit that repairs, and before which none does, is the one found. -/
theorem correctShortMessage_of_repair {input : Message} {maxErrors : ℕ} {bit : Fin (7 * 8)}
    (hmax : 1 ≤ maxErrors)
    (hcrc : crc24Parity (shortBytes input) &&& syndromeMask (dfOf input) ≠ 0#32)
    (hfind : (List.finRange (7 * 8)).find? (repairsShort input) = some bit) :
    correctShortMessage input maxErrors =
      (1, padded (applyBitErrors (shortBytes input) bit)) := by
  unfold correctShortMessage
  simp only [if_neg hcrc, if_pos hmax, hfind]

theorem find?_finRange_of_unique {n : ℕ} {p : Fin n → Bool} {i : Fin n} (hi : p i = true)
    (huniq : ∀ j, p j = true → j = i) : (List.finRange n).find? p = some i := by
  cases hfind : (List.finRange n).find? p with
  | none => exact absurd hi (by simpa using List.find?_eq_none.1 hfind i (List.mem_finRange i))
  | some j => rw [huniq j (List.find?_some hfind)]

/-- A code word of a 112-bit format within reach is what the 56-bit correction
    returns: no other bit has the same syndrome, and the bit that turns a 56-bit
    format into a 112-bit one is the first bit tried. -/
theorem correctShortMessage_of_near {input : Message} {maxErrors : ℕ} {msg : ShortMessage}
    (hcrc : crc24Parity msg = 0#32) (hlong : isLong (dfOf msg) = true)
    (hnear : bitDistance (shortBytes input) msg ≤ min maxErrors 1) :
    correctShortMessage input maxErrors =
      ((bitDistance (shortBytes input) msg : ℤ), padded msg) := by
  rcases Nat.eq_zero_or_pos (bitDistance (shortBytes input) msg) with h0 | hpos
  · have heq := bitDistance_eq_zero.1 h0
    unfold correctShortMessage
    simp only
    rw [if_pos (by rw [heq, hcrc, BitVec.zero_and]), h0, heq]
    rfl
  · have h1 : bitDistance (shortBytes input) msg = 1 := by omega
    obtain ⟨bit, -, hflip⟩ := exists_flip (k := 0) h1
    rw [bitDistance_eq_zero] at hflip
    have hsyndrome : crc24Parity (shortBytes input) = singleBitSyndrome (shortMsgOffset bit) := by
      rw [← hflip, crc24Parity_flip_short] at hcrc
      exact BitVec.xor_eq_zero_iff.1 hcrc
    have hrepairs : repairsShort input bit = true := by
      simp [repairsShort, hsyndrome, hflip, hcrc]
    have hresult : correctShortMessage input maxErrors =
        (1, padded (applyBitErrors (shortBytes input) bit)) := by
      cases hin : isLong (dfOf input) with
      | true =>
        -- All syndrome bits count, so the flipped bit is the only candidate.
        apply correctShortMessage_of_repair (by omega)
        · rw [syndromeMask_of_isLong hin, crc24Parity_and_mask, hsyndrome]
          exact singleBitSyndrome_short_ne_zero bit
        · apply find?_finRange_of_unique hrepairs
          intro b hb
          simp only [repairsShort, Bool.and_eq_true, beq_iff_eq] at hb
          have heq := hb.1
          rw [syndromeMask_of_isLong hin, crc24Parity_and_mask, hsyndrome] at heq
          apply singleBitSyndrome_short_injective
          show singleBitSyndrome (shortMsgOffset b) = singleBitSyndrome (shortMsgOffset bit)
          rw [← heq]
          exact (crc24Parity_and_mask _).symm
      | false =>
        -- The flip has made the format a long one, so it is the first bit.
        have hbefore : isLong (dfOf (shortBytes input)) = false := hin
        have hbit : bit = 0 := bit_eq_zero_of_isLong hbefore (by rw [hflip]; exact hlong)
        subst hbit
        apply correctShortMessage_of_repair (by omega)
        · rw [hsyndrome]
          unfold syndromeMask
          split_ifs <;> decide +kernel
        · have hhead : List.finRange (7 * 8) = 0 :: (List.finRange (7 * 8)).tail := by decide
          rw [hhead, List.find?_cons_of_pos hrepairs]
    rw [hresult, h1, hflip, Nat.cast_one]

/-- A 112-bit format that comes out of the 56-bit correction is a code word of
    the 56-bit code within its reach. -/
theorem near_of_correctShortMessage {input : Message} {maxErrors : ℕ} {k : ℤ} {out : Message}
    (h : correctShortMessage input maxErrors = (k, out)) (hk : 0 ≤ k)
    (hlong : isLong (dfOf out) = true) :
    ∃ msg : ShortMessage, crc24Parity msg = 0#32 ∧ isLong (dfOf msg) = true ∧
      bitDistance (shortBytes input) msg ≤ min maxErrors 1 ∧
      k = (bitDistance (shortBytes input) msg : ℤ) ∧ out = padded msg := by
  have hspec := correctShortMessage_spec input maxErrors
  rw [h] at hspec
  cases hspec with
  | valid hcrc =>
    have hdf : isLong (dfOf (shortBytes input)) = true := hlong
    have hmask : syndromeMask (dfOf input) = 0xFFFFFF#32 := syndromeMask_of_isLong hdf
    rw [hmask, crc24Parity_and_mask] at hcrc
    refine ⟨shortBytes input, hcrc, hdf, ?_, ?_, rfl⟩
    · rw [bitDistance_eq_zero.2 rfl]
      exact Nat.zero_le _
    · rw [bitDistance_eq_zero.2 rfl]
      rfl
  | repaired msg hmax hcrc hdist =>
    have hdf : isLong (dfOf msg) = true := hlong
    rw [syndromeMask_of_isLong hdf, crc24Parity_and_mask] at hcrc
    refine ⟨msg, hcrc, hdf, by omega, ?_, rfl⟩
    rw [hdist]
    rfl
  | failed hcrc => omega

end ModeS
