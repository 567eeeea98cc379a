import EzSdr.ModeS.Score

/-! # Parity of Accepted Messages

    An accepted message should satisfy the parity rule of its own format. The
    fallback to the 56-bit code breaks this for 112-bit formats: seven bytes
    that satisfy the short code are accepted as an extended squitter, whatever
    the other seven received bytes say. -/

namespace ModeS

/-! ## Section 1: Results of correction -/

/-- Where the result of `correctMessage` comes from. -/
inductive Corrected (input : Message) (maxErrors : ℕ) : ℤ × Message → Prop where
  /-- A message of the 112-bit code. -/
  | long (k : ℕ) (msg : Message) (hk : k ≤ 2) (hcrc : crc24Parity msg = 0#32)
      (hdist : bitDistance input msg ≤ k) : Corrected input maxErrors ((k : ℤ), msg)
  /-- A message of the 56-bit code whose format is a 112-bit one. -/
  | misread (msg : ShortMessage)
      (hfar : isLong (dfOf input) = true →
        ∀ m, crc24Parity m = 0#32 → min maxErrors 2 < bitDistance input m)
      (hcrc : crc24Parity msg = 0#32) (hlong : isLong (dfOf msg) = true)
      (hnear : bitDistance (shortBytes input) msg ≤ min maxErrors 1) :
      Corrected input maxErrors ((bitDistance (shortBytes input) msg : ℤ), padded msg)
  /-- A message of the 56-bit code whose format is a 56-bit one. -/
  | short (k : ℕ) (msg : ShortMessage) (hlong : isLong (dfOf msg) = false)
      (hdist : bitDistance (shortBytes input) msg ≤ k) :
      Corrected input maxErrors ((k : ℤ), padded msg)
  /-- No correction. -/
  | failed : Corrected input maxErrors (-1, input)

theorem ShortResult.corrected {input : Message} {maxErrors : ℕ} {r : ℤ × Message}
    (h : correctShortMessage input maxErrors = r)
    (hfar : isLong (dfOf input) = true →
      ∀ m, crc24Parity m = 0#32 → min maxErrors 2 < bitDistance input m) :
    Corrected input maxErrors r := by
  obtain ⟨k, out⟩ := r
  by_cases hlong : 0 ≤ k ∧ isLong (dfOf out) = true
  · obtain ⟨msg, hcrc, hl, hnear, rfl, rfl⟩ :=
      near_of_correctShortMessage h hlong.1 hlong.2
    exact .misread msg hfar hcrc hl hnear
  · have hspec := correctShortMessage_spec input maxErrors
    rw [h] at hspec
    cases hspec with
    | valid hcrc =>
      have hl : isLong (dfOf (shortBytes input)) = false := by
        simpa using fun hl => hlong ⟨le_refl 0, hl⟩
      exact .short 0 _ hl (bitDistance_eq_zero.2 rfl).le
    | repaired msg hmax hcrc hdist =>
      have hl : isLong (dfOf msg) = false := by
        simpa using fun hl => hlong ⟨by decide, hl⟩
      exact .short 1 _ hl hdist.le
    | failed hcrc => exact .failed

theorem modeSMessageLenByType_short (df : Byte) :
    (modeSMessageLenByType df == MODES_SHORT_MSG_BITS) = !isLong df := by
  rw [modeSMessageLenByType_eq]
  cases isLong df <;> rfl

theorem LongResult.cases (input : Message) (maxErrors : ℕ) :
    (∃ (k : ℕ) (msg : Message), correctLongMessage input maxErrors = ((k : ℤ), msg) ∧
      k ≤ min maxErrors 2 ∧ crc24Parity msg = 0#32 ∧ bitDistance input msg ≤ k) ∨
    (correctLongMessage input maxErrors = (-1, input) ∧
      ∀ m, crc24Parity m = 0#32 → min maxErrors 2 < bitDistance input m) := by
  have hspec := correctLongMessage_spec input maxErrors
  generalize correctLongMessage input maxErrors = r at hspec
  cases hspec with
  | repaired k msg hk hcrc hdist => exact .inl ⟨k, msg, rfl, hk, hcrc, hdist⟩
  | failed hfar => exact .inr ⟨rfl, hfar⟩

theorem correctMessage_spec (input : Message) (maxErrors : ℕ) :
    Corrected input maxErrors (correctMessage input maxErrors) := by
  unfold correctMessage
  simp only [modeSMessageLenByType_short]
  cases hin : isLong (dfOf input) with
  | false =>
    -- The short code is tried first.
    simp only [Bool.not_false, if_true]
    split_ifs with hk
    · exact ShortResult.corrected rfl (by simp [hin])
    · rcases LongResult.cases input maxErrors with
        ⟨k, msg, hr, hk2, hcrc, hdist⟩ | ⟨hr, -⟩
      · rw [hr]; exact .long k msg (by omega) hcrc hdist
      · rw [hr]; exact .failed
  | true =>
    simp only [Bool.not_true, Bool.false_eq_true, if_false]
    rcases LongResult.cases input maxErrors with
      ⟨k, msg, hr, hk2, hcrc, hdist⟩ | ⟨hr, hfar⟩
    · rw [hr, if_pos (by simp)]
      exact .long k msg (by omega) hcrc hdist
    · rw [hr, if_neg (by simp)]
      exact ShortResult.corrected rfl (fun _ => hfar)

/-! ## Section 2: Acceptance -/

/-- What makes a message of a 112-bit format with a zero syndrome acceptable:
    an extended squitter, or an address/parity format when address zero has
    been seen. -/
def passesFormat (icaoFilter : IcaoFilter) (now : Instant) (enableDf24 : Bool) (msg : Message) :
    Prop :=
  (dfOf msg).toNat = 17 ∨
  ((dfOf msg).toNat = 18 ∧ (df18Identity msg).isSome) ∨
  (((dfOf msg).toNat = 16 ∨ (dfOf msg).toNat = 20 ∨ (dfOf msg).toNat = 21 ∨
      (24 ≤ (dfOf msg).toNat ∧ enableDf24 = true)) ∧
    icaoFilter.contains 0 now = true)

theorem dfOf_lt {n : ℕ} (msg : Bytes (n + 1)) : (dfOf msg).toNat < 32 := by
  have h : ∀ b : Byte, (b >>> 3).toNat < 32 := by decide
  exact h (msg 0)

theorem isLong_eq {n : ℕ} (msg : Bytes (n + 1)) :
    isLong (dfOf msg) = decide (16 ≤ (dfOf msg).toNat) := by
  have h : ∀ b : Byte, isLong (b >>> 3) = decide (16 ≤ (b >>> 3).toNat) := by decide
  exact h (msg 0)

/-- What an accepting score says about the corrected message. -/
structure Accepted (corrected : ℤ × Message) (icaoFilter : IcaoFilter) (now : Instant)
    (enableDf24 : Bool) : Prop where
  /-- Squitters have been corrected. -/
  squitter : (dfOf corrected.2).toNat = 17 ∨ (dfOf corrected.2).toNat = 18 → 0 ≤ corrected.1
  /-- The protected parity bits of an all-call reply are right. -/
  allCall  : (dfOf corrected.2).toNat = 11 →
    crc24Parity (shortBytes corrected.2) &&& 0xFFFF80#32 = 0#32
  /-- A 112-bit format with a zero syndrome is acceptable. -/
  format   : isLong (dfOf corrected.2) = true → crc24Parity corrected.2 = 0#32 →
    passesFormat icaoFilter now enableDf24 corrected.2

theorem scoreAddressParity_accepted {icaoFilter : IcaoFilter} {now : Instant} {syndrome : Word}
    (h : ¬ scoreAddressParity icaoFilter now syndrome < .acceptThreshold) :
    icaoFilter.contains (syndrome &&& 0xFFFFFF#32).toFin now = true := by
  unfold scoreAddressParity at h
  by_contra hc
  rw [if_neg hc] at h
  exact h (by decide)

theorem scoreDf11_accepted {icaoFilter : IcaoFilter} {now : Instant} {k : ℤ} {msg : Message}
    (h : ¬ scoreDf11 icaoFilter now k msg < .acceptThreshold) :
    crc24Parity (shortBytes msg) &&& 0xFFFF80#32 = 0#32 := by
  unfold scoreDf11 at h
  by_contra hc
  simp only [if_pos hc] at h
  exact h (by decide)

theorem scoreDf17_accepted {icaoFilter : IcaoFilter} {now : Instant} {k : ℤ} {msg : Message}
    (h : ¬ scoreDf17 icaoFilter now k msg < .acceptThreshold) : 0 ≤ k := by
  unfold scoreDf17 at h
  simp only at h
  split at h
  · decide
  · decide
  · decide
  · exact absurd (by decide) h

theorem scoreDf18_accepted {icaoFilter : IcaoFilter} {now : Instant} {k : ℤ} {msg : Message}
    (h : ¬ scoreDf18 icaoFilter now k msg < .acceptThreshold) :
    0 ≤ k ∧ (df18Identity msg).isSome = true := by
  unfold scoreDf18 at h
  by_cases hid : (df18Identity msg).isNone = true
  · rw [if_pos hid] at h
    exact absurd (by decide) h
  · rw [if_neg hid] at h
    refine ⟨?_, by simpa [Option.isSome_iff_ne_none] using hid⟩
    simp only at h
    split at h
    · decide
    · decide
    · decide
    · exact absurd (by decide) h

theorem accepted_of_score {corrected : ℤ × Message} {icaoFilter : IcaoFilter} {now : Instant}
    {enableDf24 : Bool}
    (h : ¬ scoreCorrected icaoFilter now enableDf24 corrected < .acceptThreshold) :
    Accepted corrected icaoFilter now enableDf24 := by
  obtain ⟨k, msg⟩ := corrected
  have hlt := dfOf_lt msg
  have hlong := isLong_eq msg
  unfold scoreCorrected at h
  dsimp only at h
  refine ⟨?_, ?_, ?_⟩
  · rintro (h17 | h18)
    · dsimp only at h17
      simp only [h17] at h
      exact scoreDf17_accepted h
    · dsimp only at h18
      simp only [h18] at h
      exact (scoreDf18_accepted h).1
  · intro h11
    dsimp only at h11
    simp only [h11] at h
    exact scoreDf11_accepted h
  -- without a remainder, a format that hides the address in it names the address zero
  · intro hl hcrc
    dsimp only at hl hcrc ⊢
    rw [hlong, decide_eq_true_eq] at hl
    rw [if_neg (by omega), hcrc] at h
    have hzero : (0#32 &&& 0xFFFFFF#32 : Word).toFin = 0 := by decide
    unfold passesFormat
    by_cases h16 : (dfOf msg).toNat = 16 ∨ (dfOf msg).toNat = 20 ∨ (dfOf msg).toNat = 21
    · rw [if_pos h16] at h
      have hc := scoreAddressParity_accepted h
      rw [hzero] at hc
      right; right
      exact ⟨by tauto, hc⟩
    · rw [if_neg h16] at h
      by_cases h24 : 24 ≤ (dfOf msg).toNat
      · rw [if_pos ⟨h24, by omega⟩] at h
        cases hen : enableDf24 with
        | false =>
          rw [hen, Bool.not_false, if_pos rfl] at h
          exact absurd (by decide) h
        | true =>
          rw [hen] at h
          have hc := scoreAddressParity_accepted h
          rw [hzero] at hc
          right; right
          exact ⟨by tauto, hc⟩
      · rw [if_neg (by omega), if_neg (by omega)] at h
        by_cases h17 : (dfOf msg).toNat = 17
        · exact .inl h17
        · rw [if_neg h17] at h
          by_cases h18 : (dfOf msg).toNat = 18
          · rw [if_pos h18] at h
            exact .inr (.inl ⟨h18, (scoreDf18_accepted h).2⟩)
          · rw [if_neg h18] at h
            exact absurd (by decide) h

/-- Conversely, a 112-bit format with a zero syndrome that is acceptable and
    has at most one correction is accepted. -/
theorem score_of_passesFormat {k : ℤ} {msg : Message} {icaoFilter : IcaoFilter} {now : Instant}
    {enableDf24 : Bool} (hk : k = 0 ∨ k = 1) (hcrc : crc24Parity msg = 0#32)
    (hpass : passesFormat icaoFilter now enableDf24 msg) :
    ¬ scoreCorrected icaoFilter now enableDf24 (k, msg) < .acceptThreshold := by
  have hzero : (0#32 &&& 0xFFFFFF#32 : Word).toFin = 0 := by decide
  have hap : icaoFilter.contains 0 now = true →
      ¬ scoreAddressParity icaoFilter now (crc24Parity msg) < .acceptThreshold := by
    intro hc
    rw [hcrc, scoreAddressParity, hzero, if_pos hc]
    decide
  have hlt := dfOf_lt msg
  unfold scoreCorrected
  dsimp only
  rcases hpass with h17 | ⟨h18, hid⟩ | ⟨hdf, hc⟩
  · simp only [h17]
    show ¬ scoreDf17 icaoFilter now k msg < .acceptThreshold
    unfold scoreDf17
    rcases hk with rfl | rfl <;> dsimp only <;> split_ifs <;> decide
  · simp only [h18]
    show ¬ scoreDf18 icaoFilter now k msg < .acceptThreshold
    unfold scoreDf18
    rw [if_neg (by simp [Option.isSome_iff_ne_none.1 hid])]
    rcases hk with rfl | rfl <;> dsimp only <;> split_ifs <;> decide
  · rw [if_neg (by omega)]
    by_cases h16 : (dfOf msg).toNat = 16 ∨ (dfOf msg).toNat = 20 ∨ (dfOf msg).toNat = 21
    · rw [if_pos h16]
      exact hap hc
    · have h24 : 24 ≤ (dfOf msg).toNat ∧ enableDf24 = true := by tauto
      rw [if_neg h16, if_pos ⟨h24.1, by omega⟩, h24.2]
      exact hap hc

/-! ## Section 3: Padding and distance -/

/-- A bit of the first seven bytes as a bit of the buffer. -/
def frontBit (bit : Fin (7 * 8)) : Fin (14 * 8) := ⟨bit.val, by omega⟩

theorem bitAt_frontBit (msg : Message) (bit : Fin (7 * 8)) :
    bitAt msg (frontBit bit) = bitAt (shortBytes msg) bit := rfl

theorem frontBit_injective : Function.Injective frontBit := by
  intro a b h
  exact Fin.ext (congrArg (fun bit : Fin (14 * 8) => bit.val) h)

/-- Are the seven bytes after the first seven all zero? -/
def zeroTail (msg : Message) : Prop := ∀ i : Fin 7, msg (i.natAdd 7) = 0#8

theorem eq_padded_of_zeroTail {msg : Message} (h : zeroTail msg) : msg = padded (shortBytes msg) := by
  have hbytes : ∀ i : Fin (7 + 7), msg i = padded (shortBytes msg) i := by
    intro i
    induction i using Fin.addCases with
    | left j => exact (Fin.append_left (shortBytes msg) (fun _ : Fin 7 => 0#8) j).symm
    | right j =>
      rw [h j]
      exact (Fin.append_right (shortBytes msg) (fun _ : Fin 7 => 0#8) j).symm
  exact funext hbytes

/-- Bits that differ in the first seven bytes differ in the buffer. -/
theorem image_frontBit_subset (a b : Message) :
    (diffBits (shortBytes a) (shortBytes b)).image frontBit ⊆ diffBits a b := by
  intro bit hbit
  obtain ⟨c, hc, rfl⟩ := Finset.mem_image.1 hbit
  rw [mem_diffBits] at hc ⊢
  rwa [bitAt_frontBit, bitAt_frontBit]

/-- Padding loses no distance. -/
theorem bitDistance_padded {a b : ShortMessage} :
    bitDistance (padded a) (padded b) = bitDistance a b := by
  have hsub := image_frontBit_subset (padded a) (padded b)
  rw [shortBytes_padded, shortBytes_padded] at hsub
  have heq : diffBits (padded a) (padded b) = (diffBits a b).image frontBit := by
    apply Finset.Subset.antisymm _ hsub
    intro bit hbit
    rw [mem_diffBits] at hbit
    by_cases hlt : bit.val < 56
    · refine Finset.mem_image.2 ⟨⟨bit.val, hlt⟩, ?_, rfl⟩
      rw [mem_diffBits]
      have hfront : frontBit ⟨bit.val, hlt⟩ = bit := rfl
      rwa [← hfront, bitAt_frontBit, bitAt_frontBit, shortBytes_padded, shortBytes_padded] at hbit
    · -- The tails are the same zeros.
      exfalso
      apply hbit
      have hbyte : byteOf bit = (⟨bit.val / 8 - 7, by omega⟩ : Fin 7).natAdd 7 := by
        apply Fin.ext
        show bit.val / 8 = 7 + (bit.val / 8 - 7)
        omega
      have htail : ∀ m : ShortMessage, padded m (byteOf bit) = 0#8 := by
        intro m
        rw [hbyte]
        exact Fin.append_right m (fun _ : Fin 7 => 0#8) _
      unfold bitAt
      rw [htail, htail]
  unfold bitDistance
  rw [heq, Finset.card_image_of_injective _ frontBit_injective]

/-- A tail that is not zero is farther than what the first seven bytes say. -/
theorem lt_bitDistance_of_tail {input : Message} (msg : ShortMessage) (h : ¬ zeroTail input) :
    bitDistance (shortBytes input) msg < bitDistance input (padded msg) := by
  have hsub := image_frontBit_subset input (padded msg)
  rw [shortBytes_padded] at hsub
  unfold bitDistance
  rw [← Finset.card_image_of_injective _ frontBit_injective]
  apply Finset.card_lt_card
  refine ⟨hsub, fun hback => h ?_⟩
  -- If all differences are in front, the tail is that of the padded message.
  intro i
  apply BitVec.eq_of_getLsbD_eq
  intro j hj
  have hlt : (7 + i.val) * 8 + (7 - j) < 14 * 8 := by
    have := i.isLt
    omega
  have hnot : (⟨(7 + i.val) * 8 + (7 - j), hlt⟩ : Fin (14 * 8)) ∉ diffBits input (padded msg) := by
    intro hmem
    obtain ⟨c, -, hc⟩ := Finset.mem_image.1 (hback hmem)
    have hval : c.val = (7 + i.val) * 8 + (7 - j) := congrArg Fin.val hc
    have := c.isLt
    omega
  rw [mem_diffBits, not_not] at hnot
  have hbyte : byteOf (⟨(7 + i.val) * 8 + (7 - j), hlt⟩ : Fin (14 * 8)) = i.natAdd 7 := by
    apply Fin.ext
    show ((7 + i.val) * 8 + (7 - j)) / 8 = 7 + i.val
    omega
  have hpos : 7 - ((7 + i.val) * 8 + (7 - j)) % 8 = j := by omega
  have htail : padded msg (i.natAdd 7) = 0#8 :=
    Fin.append_right msg (fun _ : Fin 7 => 0#8) i
  unfold bitAt at hnot
  rw [hbyte, htail] at hnot
  rwa [show 7 - (⟨(7 + i.val) * 8 + (7 - j), hlt⟩ : Fin (14 * 8)).val % 8 = j from hpos] at hnot

/-! ## Section 4: Accepted messages -/

theorem scoreAddressParity_ne_notSet (icaoFilter : IcaoFilter) (now : Instant) (syndrome : Word) :
    scoreAddressParity icaoFilter now syndrome ≠ .notSet := by
  unfold scoreAddressParity
  split_ifs <;> decide

theorem scoreDf11_ne_notSet (icaoFilter : IcaoFilter) (now : Instant) (k : ℤ) (msg : Message) :
    scoreDf11 icaoFilter now k msg ≠ .notSet := by
  unfold scoreDf11
  dsimp only
  split
  · decide
  · split
    · split_ifs <;> decide
    · split_ifs <;> decide
    · decide

theorem scoreDf17_ne_notSet (icaoFilter : IcaoFilter) (now : Instant) (k : ℤ) (msg : Message) :
    scoreDf17 icaoFilter now k msg ≠ .notSet := by
  unfold scoreDf17
  dsimp only
  split
  · split_ifs <;> decide
  · split_ifs <;> decide
  · split_ifs <;> decide
  · decide

theorem scoreDf18_ne_notSet (icaoFilter : IcaoFilter) (now : Instant) (k : ℤ) (msg : Message) :
    scoreDf18 icaoFilter now k msg ≠ .notSet := by
  unfold scoreDf18
  split
  · decide
  · dsimp only
    split
    · split_ifs <;> decide
    · split_ifs <;> decide
    · split_ifs <;> decide
    · decide

/-- Scoring always sets a score. -/
theorem scoreModeSMessage_ne_notSet (input : Message) (icaoFilter : IcaoFilter) (now : Instant)
    (enableDf24 : Bool) (maxErrors : ℕ) :
    scoreModeSMessage input icaoFilter now enableDf24 maxErrors ≠ .notSet := by
  unfold scoreModeSMessage
  split
  · decide
  · unfold scoreCorrected
    dsimp only
    split_ifs
    · exact scoreAddressParity_ne_notSet _ _ _
    · exact scoreAddressParity_ne_notSet _ _ _
    · decide
    · exact scoreAddressParity_ne_notSet _ _ _
    · exact scoreDf11_ne_notSet _ _ _ _
    · exact scoreDf17_ne_notSet _ _ _ _
    · exact scoreDf18_ne_notSet _ _ _ _
    · decide

/-- What an accepted candidate says about correction, score and fields. -/
theorem acceptCandidate_ok {input : Message} {icaoFilter after : IcaoFilter}
    {scoredAt decodedAt : Instant} {enableDf24 : Bool} {maxErrors : ℕ} {mm : ModesMessage}
    (h : acceptCandidate input icaoFilter scoredAt decodedAt enableDf24 maxErrors =
      (.ok mm, after)) :
    Accepted (correctMessage input maxErrors) icaoFilter scoredAt enableDf24 ∧
    mm.msg = (correctMessage input maxErrors).2 ∧
    mm.msgtype = dfOf mm.msg ∧
    mm.msgbits = modeSMessageLenByType (dfOf mm.msg) ∧
    mm.correctedbits = min (correctMessage input maxErrors).1.toNat 2 ∧
    decodeFields mm.msg mm.correctedbits (icaoFilter.maintain decodedAt) decodedAt =
      .ok (mm.addr, mm.crc, after) := by
  have hset := scoreModeSMessage_ne_notSet input icaoFilter scoredAt enableDf24 maxErrors
  unfold acceptCandidate decodeModeSMessage at h
  simp only [if_neg hset] at h
  split at h
  · cases h
  · split at h
    · cases h
    · next haccept =>
      split at h
      · cases h
      · next addr crc icaoFilter' hfields =>
        simp only [Prod.mk.injEq, Except.ok.injEq] at h
        obtain ⟨rfl, rfl⟩ := h
        refine ⟨?_, rfl, rfl, rfl, rfl, hfields⟩
        apply accepted_of_score
        unfold scoreModeSMessage at haccept
        split at haccept
        · exact absurd (by decide) haccept
        · exact haccept

/-- What the fields of an accepted message do to the filter: only all-call
    replies and squitters without corrections are learned. -/
theorem decodeFields_filter {msg : Message} {correctedbits : ℕ} {icaoFilter after : IcaoFilter}
    {now : Instant} {addr crc : Word}
    (h : decodeFields msg correctedbits icaoFilter now = .ok (addr, crc, after)) :
    after = icaoFilter ∨
    (correctedbits = 0 ∧ (((dfOf msg).toNat = 11 ∧ crc24Parity (shortBytes msg) = 0#32) ∨
      (dfOf msg).toNat = 17 ∨ (dfOf msg).toNat = 18)) := by
  unfold decodeFields at h
  dsimp only at h
  split at h
  · next h11 =>
    simp only [Except.ok.injEq, Prod.mk.injEq] at h
    by_cases hc : correctedbits = 0 ∧ crc24Parity (shortBytes msg) = 0#32
    · exact .inr ⟨hc.1, .inl ⟨h11, hc.2⟩⟩
    · rw [if_neg hc] at h
      exact .inl h.2.2.symm
  · split at h
    · next h17 =>
      simp only [Except.ok.injEq, Prod.mk.injEq] at h
      by_cases hc : correctedbits = 0
      · exact .inr ⟨hc, .inr (.inl h17)⟩
      · rw [if_neg hc] at h
        exact .inl h.2.2.symm
    · split at h
      · next h18 =>
        split at h
        · cases h
        · simp only [Except.ok.injEq, Prod.mk.injEq] at h
          by_cases hc : correctedbits = 0
          · exact .inr ⟨hc, .inr (.inr h18)⟩
          · rw [if_neg hc] at h
            exact .inl h.2.2.symm
      · simp only [Except.ok.injEq, Prod.mk.injEq] at h
        exact .inl h.2.2.symm

/-! ## Section 5: Parity of accepted messages -/

/-- An accepted message respects the parity rule of its format. -/
structure ParityRespected (input : Message) (maintained : IcaoFilter) (mm : ModesMessage)
    (after : IcaoFilter) : Prop where
  /-- DF17 and DF18 have a zero 112-bit syndrome. -/
  squitter : mm.msgtype.toNat = 17 ∨ mm.msgtype.toNat = 18 → crc24Parity mm.msg = 0#32
  /-- The 56-bit syndrome of DF11 is zero outside the interrogator identifier. -/
  allCall  : mm.msgtype.toNat = 11 → crc24Parity (shortBytes mm.msg) &&& 0xFFFF80#32 = 0#32
  /-- A 112-bit message is the received 112 bits with the reported corrections,
      not the first 56 of them alone. -/
  whole    : mm.msgbits = MODES_LONG_MSG_BITS → bitDistance input mm.msg ≤ mm.correctedbits
  /-- An address is learned only from a received message that passes its own parity. -/
  learned  : after = maintained ∨
    (mm.msgtype.toNat = 11 ∧ crc24Parity (shortBytes input) = 0#32) ∨
    ((mm.msgtype.toNat = 17 ∨ mm.msgtype.toNat = 18) ∧ crc24Parity input = 0#32)

/-- The first 56 received bits lie within reach of a message of the 56-bit code
    that names an acceptable 112-bit format, while the received 112 bits cannot
    be corrected as such, or name a 56-bit format, and do not end in zeros. -/
def MisreadShort (input : Message) (icaoFilter : IcaoFilter) (scoredAt : Instant)
    (enableDf24 : Bool) (maxErrors : ℕ) : Prop :=
  ¬ zeroTail input ∧
  (isLong (dfOf input) = true →
    ∀ msg, crc24Parity msg = 0#32 → min maxErrors 2 < bitDistance input msg) ∧
  ∃ msg : ShortMessage, crc24Parity msg = 0#32 ∧
    bitDistance (shortBytes input) msg ≤ min maxErrors 1 ∧
    passesFormat icaoFilter scoredAt enableDf24 (padded msg)

theorem msgbits_eq_long {df : Byte} :
    modeSMessageLenByType df = MODES_LONG_MSG_BITS ↔ isLong df = true := by
  rw [modeSMessageLenByType_eq]
  cases isLong df <;> decide

theorem isLong_of_passesFormat {icaoFilter : IcaoFilter} {now : Instant} {enableDf24 : Bool}
    {msg : ShortMessage} (h : passesFormat icaoFilter now enableDf24 (padded msg)) :
    isLong (dfOf msg) = true := by
  unfold passesFormat at h
  rw [dfOf_padded] at h
  rw [isLong_eq, decide_eq_true_eq]
  rcases h with h | ⟨h, -⟩ | ⟨h, -⟩ <;> omega

/-- Without a misreading, every accepted message respects its parity. -/
theorem parityRespected_of_not_misread {input : Message} {icaoFilter after : IcaoFilter}
    {scoredAt decodedAt : Instant} {enableDf24 : Bool} {maxErrors : ℕ} {mm : ModesMessage}
    (hnot : ¬ MisreadShort input icaoFilter scoredAt enableDf24 maxErrors)
    (h : acceptCandidate input icaoFilter scoredAt decodedAt enableDf24 maxErrors =
      (.ok mm, after)) :
    ParityRespected input (icaoFilter.maintain decodedAt) mm after := by
  obtain ⟨haccepted, hmsg, htype, hbits, hcorrected, hfields⟩ := acceptCandidate_ok h
  have hfilter := decodeFields_filter hfields
  have hspec := correctMessage_spec input maxErrors
  have hallCall := haccepted.allCall
  rw [← hmsg, ← htype] at hallCall
  generalize correctMessage input maxErrors = r at hspec haccepted hmsg hcorrected
  rw [htype] at hallCall
  cases hspec with
  | long k msg hk hcrc hdist =>
    dsimp only at hmsg hcorrected
    rw [hmsg] at htype hbits hfilter hallCall
    have hc : mm.correctedbits = k := by omega
    refine ⟨fun _ => by rw [hmsg, hcrc], ?_, fun _ => by rw [hmsg, hc]; exact hdist, ?_⟩
    · rw [htype, hmsg]
      exact hallCall
    · rw [htype]
      rcases hfilter with hsame | ⟨hzero, hlearn⟩
      · exact .inl hsame
      · -- Without corrections the message is the received one.
        have heq : input = msg := bitDistance_eq_zero.1 (by omega)
        rcases hlearn with h11 | h17
        · exact .inr (.inl (by rw [heq]; exact h11))
        · exact .inr (.inr ⟨h17, by rw [heq, hcrc]⟩)
  | misread msg hfar hcrc hlong hnear =>
    dsimp only at hmsg hcorrected
    rw [hmsg, dfOf_padded] at htype hbits hfilter hallCall
    have hpass := haccepted.format hlong (crc24Parity_padded hcrc)
    have htail : zeroTail input := by
      by_contra htail
      exact hnot ⟨htail, hfar, msg, hcrc, hnear, hpass⟩
    have hpadded := eq_padded_of_zeroTail htail
    have hc : mm.correctedbits = bitDistance (shortBytes input) msg := by omega
    refine ⟨fun _ => by rw [hmsg, crc24Parity_padded hcrc], ?_, fun _ => ?_, ?_⟩
    · rw [htype, hmsg, shortBytes_padded, hcrc, BitVec.zero_and]
      exact fun _ => rfl
    · rw [hmsg, hc, hpadded, bitDistance_padded, shortBytes_padded]
    · rcases hfilter with hsame | ⟨hzero, hlearn⟩
      · exact .inl hsame
      · have heq : shortBytes input = msg := bitDistance_eq_zero.1 (by omega)
        rw [htype]
        rcases hlearn with ⟨h11, -⟩ | h17
        · exact .inr (.inl ⟨h11, by rw [heq, hcrc]⟩)
        · exact .inr (.inr ⟨h17, by rw [hpadded, heq, crc24Parity_padded hcrc]⟩)
  | short k msg hlong hdist =>
    dsimp only at hmsg hcorrected
    rw [hmsg, dfOf_padded] at htype hbits hfilter hallCall
    have hshort := hlong
    rw [isLong_eq, decide_eq_false_iff_not] at hshort
    refine ⟨fun hdf => ?_, ?_, fun hl => ?_, ?_⟩
    · rw [htype] at hdf
      omega
    · rw [htype, hmsg]
      exact hallCall
    · rw [hbits, msgbits_eq_long, hlong] at hl
      cases hl
    · rcases hfilter with hsame | ⟨hzero, hlearn⟩
      · exact .inl hsame
      · rw [htype]
        rcases hlearn with ⟨h11, hcrc⟩ | h17
        · have heq : shortBytes input = msg := bitDistance_eq_zero.1 (by omega)
          rw [shortBytes_padded] at hcrc
          exact .inr (.inl ⟨h11, by rw [heq, hcrc]⟩)
        · omega
  | failed =>
    dsimp only at hmsg hcorrected
    rw [hmsg] at htype hbits hfilter hallCall
    have hnotSquitter : ¬ ((dfOf input).toNat = 17 ∨ (dfOf input).toNat = 18) := fun hdf =>
      absurd (haccepted.squitter hdf) (by simp)
    refine ⟨fun hdf => ?_, ?_, fun _ => ?_, ?_⟩
    · rw [htype] at hdf
      exact absurd hdf hnotSquitter
    · rw [htype, hmsg]
      exact hallCall
    · rw [hmsg, bitDistance_eq_zero.2 rfl]
      exact Nat.zero_le _
    · rcases hfilter with hsame | ⟨-, hlearn⟩
      · exact .inl hsame
      · rw [htype]
        rcases hlearn with h11 | h17
        · exact .inr (.inl h11)
        · exact absurd h17 hnotSquitter

/-- A code word of a long format is not near an empty candidate. -/
theorem shortBytes_ne_zero {input : Message} {msg : ShortMessage} (hcrc : crc24Parity msg = 0#32)
    (hlong : isLong (dfOf msg) = true) (hnear : bitDistance (shortBytes input) msg ≤ 1) :
    shortBytes input ≠ fun _ => 0#8 := by
  intro hzero
  rw [hzero] at hnear
  rcases Nat.le_one_iff_eq_zero_or_eq_one.1 hnear with h0 | h1
  · rw [bitDistance_eq_zero] at h0
    rw [← h0] at hlong
    exact absurd hlong (by decide)
  · obtain ⟨bit, -, hflip⟩ := exists_flip (k := 0) h1
    rw [bitDistance_eq_zero] at hflip
    rw [← hflip, ← singleBitSyndrome_short] at hcrc
    exact singleBitSyndrome_short_ne_zero bit hcrc

/-- The fields of an acceptable format decode. -/
theorem decodeFields_of_passesFormat {icaoFilter : IcaoFilter} (f : IcaoFilter)
    {scoredAt : Instant} (now : Instant) {enableDf24 : Bool} {msg : Message} (h : passesFormat icaoFilter scoredAt enableDf24 msg)
    (correctedbits : ℕ) :
    ∃ addr crc after, decodeFields msg correctedbits f now = .ok (addr, crc, after) := by
  unfold decodeFields
  dsimp only
  split
  · exact ⟨_, _, _, rfl⟩
  · split
    · exact ⟨_, _, _, rfl⟩
    · split
      · next h18 =>
        have hid : (df18Identity msg).isSome = true := by
          rcases h with h17 | ⟨-, hid⟩ | ⟨hdf, -⟩
          · omega
          · exact hid
          · omega
        obtain ⟨identity, hidentity⟩ := Option.isSome_iff_exists.1 hid
        rw [hidentity]
        exact ⟨_, _, _, rfl⟩
      · exact ⟨_, _, _, rfl⟩

/-- A misread candidate is corrected to its padded first 56 bits. -/
theorem correctMessage_of_misread {input : Message} {maxErrors : ℕ} {msg : ShortMessage}
    (hfar : isLong (dfOf input) = true →
      ∀ m, crc24Parity m = 0#32 → min maxErrors 2 < bitDistance input m)
    (hcrc : crc24Parity msg = 0#32) (hlong : isLong (dfOf msg) = true)
    (hnear : bitDistance (shortBytes input) msg ≤ min maxErrors 1) :
    correctMessage input maxErrors =
      ((bitDistance (shortBytes input) msg : ℤ), padded msg) := by
  have hshort := correctShortMessage_of_near hcrc hlong hnear
  unfold correctMessage
  simp only [modeSMessageLenByType_short]
  cases hin : isLong (dfOf input) with
  | false =>
    simp only [Bool.not_false, if_true]
    rw [hshort, if_pos (by simp)]
  | true =>
    simp only [Bool.not_true, Bool.false_eq_true, if_false]
    rcases LongResult.cases input maxErrors with ⟨k, m, -, hk, hm, hdist⟩ | ⟨hr, -⟩
    · have := hfar hin m hm
      omega
    · rw [hr, if_neg (by simp), hshort]

/-- A misread candidate is accepted. -/
theorem accepted_of_misread {input : Message} {icaoFilter : IcaoFilter} {scoredAt : Instant}
    (decodedAt : Instant) {enableDf24 : Bool} {maxErrors : ℕ} {msg : ShortMessage}
    (hfar : isLong (dfOf input) = true →
      ∀ m, crc24Parity m = 0#32 → min maxErrors 2 < bitDistance input m)
    (hcrc : crc24Parity msg = 0#32)
    (hnear : bitDistance (shortBytes input) msg ≤ min maxErrors 1)
    (hpass : passesFormat icaoFilter scoredAt enableDf24 (padded msg)) :
    ∃ mm after, acceptCandidate input icaoFilter scoredAt decodedAt enableDf24 maxErrors =
      (.ok mm, after) := by
  have hlong : isLong (dfOf msg) = true := isLong_of_passesFormat hpass
  have hcorrect := correctMessage_of_misread hfar hcrc hlong hnear
  have hscore : ¬ scoreModeSMessage input icaoFilter scoredAt enableDf24 maxErrors <
      .acceptThreshold := by
    unfold scoreModeSMessage
    rw [if_neg (shortBytes_ne_zero hcrc hlong (by omega)), hcorrect]
    exact score_of_passesFormat (by omega) (crc24Parity_padded hcrc) hpass
  have hset := scoreModeSMessage_ne_notSet input icaoFilter scoredAt enableDf24 maxErrors
  have hknown : ¬ scoreModeSMessage input icaoFilter scoredAt enableDf24 maxErrors <
      .unknownThreshold := by
    intro hlt
    have hthresholds : ScoreRank.unknownThreshold.ctorIdx < ScoreRank.acceptThreshold.ctorIdx := by
      decide
    exact hscore (Nat.lt_trans hlt hthresholds)
  obtain ⟨addr, crc, after, hfields⟩ :=
    decodeFields_of_passesFormat (icaoFilter.maintain decodedAt) decodedAt hpass
      (min (bitDistance (shortBytes input) msg : ℤ).toNat 2)
  unfold acceptCandidate decodeModeSMessage
  simp only [if_neg hset, if_neg hscore, if_neg hknown, hcorrect, hfields]
  exact ⟨_, _, rfl⟩

/-- Exactly the misread candidates break the parity rule: a candidate is
    handled as the claim says, whatever becomes of it, if and only if it is not
    the case that its first 56 bits alone make it acceptable. -/
theorem parityRespected_iff (input : Message) (icaoFilter : IcaoFilter)
    (scoredAt decodedAt : Instant) (enableDf24 : Bool) (maxErrors : ℕ) :
    (∀ mm after, acceptCandidate input icaoFilter scoredAt decodedAt enableDf24 maxErrors =
        (.ok mm, after) →
      ParityRespected input (icaoFilter.maintain decodedAt) mm after) ↔
    ¬ MisreadShort input icaoFilter scoredAt enableDf24 maxErrors := by
  constructor
  · rintro hall ⟨htail, hfar, msg, hcrc, hnear, hpass⟩
    obtain ⟨mm, after, haccept⟩ := accepted_of_misread decodedAt hfar hcrc hnear hpass
    have hrespect := hall mm after haccept
    obtain ⟨-, hmsg, -, hbits, hcorrected, -⟩ := acceptCandidate_ok haccept
    have hlong : isLong (dfOf msg) = true := isLong_of_passesFormat hpass
    rw [correctMessage_of_misread hfar hcrc hlong hnear] at hmsg hcorrected
    dsimp only at hmsg hcorrected
    -- The tail of the received message adds to the distance.
    have hwhole := hrespect.whole (by rw [hbits, hmsg, msgbits_eq_long]; exact hlong)
    have hlt := lt_bitDistance_of_tail msg htail
    rw [hmsg] at hwhole
    omega
  · intro hnot mm after haccept
    exact parityRespected_of_not_misread hnot haccept

/-- A received extended squitter whose first seven bytes satisfy the 56-bit code. -/
def misreadSquitter : Message :=
  ![0x8D#8, 0x48#8, 0x40#8, 0xD6#8, 0xB9#8, 0x00#8, 0xF4#8,
    0x01#8, 0x02#8, 0x03#8, 0x04#8, 0x05#8, 0x06#8, 0x07#8]

/-- The squitter is accepted as a 112-bit message without corrections. -/
theorem misreadSquitter_run :
    (match acceptCandidate misreadSquitter (IcaoFilter.new 0) 0 0 false 0 with
      | (.ok mm, after) =>
        decide (mm.msgtype = 17#8 ∧ mm.msgbits = MODES_LONG_MSG_BITS ∧ mm.correctedbits = 0 ∧
          after.contains 0x4840D6 0 = true)
      | _ => false) = true := by
  decide +kernel

/-- The squitter fails its 112-bit parity, is accepted all the same, and its
    address is learned. -/
theorem misreadSquitter_accepted :
    crc24Parity misreadSquitter ≠ 0#32 ∧
    ∃ mm after, acceptCandidate misreadSquitter (IcaoFilter.new 0) 0 0 false 0 = (.ok mm, after) ∧
      ¬ ParityRespected misreadSquitter ((IcaoFilter.new 0).maintain 0) mm after ∧
      mm.msgtype = 17#8 ∧ after.contains 0x4840D6 0 = true := by
  have hcrc : crc24Parity misreadSquitter ≠ 0#32 := by decide +kernel
  have hrun := misreadSquitter_run
  split at hrun
  · next mm after haccept =>
    obtain ⟨htype, hbits, hcorrected, hfilter⟩ := of_decide_eq_true hrun
    refine ⟨hcrc, mm, after, haccept, fun hrespect => hcrc ?_, htype, hfilter⟩
    have hwhole := hrespect.whole hbits
    rw [hcorrected, Nat.le_zero, bitDistance_eq_zero] at hwhole
    rw [hwhole]
    exact hrespect.squitter (.inl (by rw [htype]; rfl))
  · cases hrun

end ModeS
