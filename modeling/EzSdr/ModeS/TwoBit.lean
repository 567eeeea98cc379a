import EzSdr.Framework.ShiftCode
import EzSdr.ModeS.Correct

/-! # Repair of Extended Squitters

    The syndromes of the bits of a message are the words of a shift register,
    and no four of them cancel unless they do so in pairs. Two messages of the
    code that are both within two flips of what was received are therefore the
    same message.

    **`correctMessage_restores`**: up to two flipped bits of an extended
    squitter are repaired and counted, if the first bit is intact. -/

namespace ModeS

open ShiftCode

/-! ## Section 1: Syndromes as words -/

/-- One shift of the 24-bit remainder. -/
def syndromeShift (c : BitVec 24) : BitVec 24 := (crcShift (c.setWidth 32)).setWidth 24

/-- The syndromes of all bits before the last one, from the end of the message on. -/
def earlierSyndromes : List ℕ :=
  [0x2, 0x4, 0x8, 0x10, 0x20, 0x40, 0x80, 0x100, 0x200, 0x400, 0x800, 0x1000, 0x2000, 0x4000,
    0x8000, 0x10000, 0x20000, 0x40000, 0x80000, 0x100000, 0x200000, 0x400000, 0x800000, 0xfff409,
    0x1c1b, 0x3836, 0x706c, 0xe0d8, 0x1c1b0, 0x38360, 0x706c0, 0xe0d80, 0x1c1b00, 0x383600,
    0x706c00, 0xe0d800, 0x3e4409, 0x7c8812, 0xf91024, 0xdd441, 0x1ba882, 0x375104, 0x6ea208,
    0xdd4410, 0x457c29, 0x8af852, 0xea04ad, 0x2bfd53, 0x57faa6, 0xaff54c, 0xa01e91, 0xbfc92b,
    0x80665f, 0xff38b7, 0x18567, 0x30ace, 0x6159c, 0xc2b38, 0x185670, 0x30ace0, 0x6159c0,
    0xc2b380, 0x7a9309, 0xf52612, 0x15b82d, 0x2b705a, 0x56e0b4, 0xadc168, 0xa476d9, 0xb719bb,
    0x91c77f, 0xdc7af7, 0x4701e7, 0x8e03ce, 0xe3f395, 0x381323, 0x702646, 0xe04c8c, 0x3f6d11,
    0x7eda22, 0xfdb444, 0x49c81, 0x93902, 0x127204, 0x24e408, 0x49c810, 0x939020, 0xd8d449,
    0x4e5c9b, 0x9cb936, 0xc68665, 0x72f8c3, 0xe5f186, 0x341705, 0x682e0a, 0xd05c14, 0x5f4c21,
    0xbe9842, 0x82c48d, 0xfa7d13, 0xb0e2f, 0x161c5e, 0x2c38bc, 0x587178, 0xb0e2f0, 0x9e31e9,
    0xc397db, 0x78dbbf, 0xf1b77e, 0x1c9af5, 0x3935ea]

theorem syndromeShift_xor (a b : BitVec 24) :
    syndromeShift (a ^^^ b) = syndromeShift a ^^^ syndromeShift b := by
  unfold syndromeShift
  rw [BitVec.setWidth_xor, crcShift_xor, BitVec.setWidth_xor]

theorem syndromeShift_getLsbD (a : BitVec 24) (i : ℕ) (hi : i < 24) :
    (syndromeShift a).getLsbD i =
      ((decide (0 < i) && a.getLsbD (i - 1)) ^^ (a.getLsbD 23 && (0xFFF409#32).getLsbD i)) := by
  unfold syndromeShift
  rw [crcShift_eq, BitVec.getLsbD_setWidth, BitVec.getLsbD_xor, BitVec.getLsbD_shiftLeft,
    BitVec.getLsbD_setWidth, BitVec.getLsbD_setWidth]
  -- the bit that leaves at the top decides whether the generator is added
  rw [show decide (23 < 32) = true by decide, Bool.true_and]
  generalize a.getLsbD 23 = leaving
  cases leaving with
  | true =>
    cases i with
    | zero => simp [hi, MODES_GENERATOR_POLY]
    | succ i => simp [hi, show i + 1 < 32 by omega, show i < 32 by omega, MODES_GENERATOR_POLY]
  | false =>
    cases i with
    | zero => simp
    | succ i => simp [hi, show i + 1 < 32 by omega, show i < 32 by omega]

/-- Nothing is lost by a shift: what leaves at the top comes back at the bottom. -/
theorem syndromeShift_eq_zero {a : BitVec 24} (h : syndromeShift a = 0#24) : a = 0#24 := by
  have hbit (i : ℕ) (hi : i < 24) :
      ((decide (0 < i) && a.getLsbD (i - 1)) ^^ (a.getLsbD 23 && (0xFFF409#32).getLsbD i)) =
        false := by
    rw [← syndromeShift_getLsbD a i hi, h]
    exact BitVec.getLsbD_zero
  -- the generator has its lowest bit set
  have htop : a.getLsbD 23 = false := by
    have hlow := hbit 0 (by decide)
    simpa using hlow
  apply BitVec.eq_of_getLsbD_eq
  intro i hi
  rw [BitVec.getLsbD_zero]
  by_cases hlast : i = 23
  · rw [hlast, htop]
  · have hnext := hbit (i + 1) (by omega)
    rw [htop, Bool.false_and, Bool.xor_false] at hnext
    simpa using hnext

theorem syndromes_words : Words syndromeShift 1#24 earlierSyndromes where
  linear := syndromeShift_xor
  kernel := fun _ => syndromeShift_eq_zero
  unit := rfl
  listed := by decide

theorem syndromes_separated : Separated 68240 earlierSyndromes := by
  decide +kernel

/-- The syndrome of a bit is a word, by its distance from the end. -/
theorem singleBitSyndrome_word :
    ∀ bit : Fin (14 * 8), singleBitSyndrome bit = (syndromeShift^[111 - bit.val] 1#24).setWidth 32 := by
  decide +kernel

theorem earlierSyndromes_length : earlierSyndromes.length = 111 := rfl

theorem setWidth_injective {a b : BitVec 24} (h : a.setWidth 32 = b.setWidth 32) : a = b := by
  have hnat := congrArg BitVec.toNat h
  rw [BitVec.toNat_setWidth_of_le (by decide), BitVec.toNat_setWidth_of_le (by decide)] at hnat
  exact BitVec.eq_of_toNat_eq hnat

/-! ## Section 2: Up to four syndromes -/

/-- Four syndromes cancel only in pairs. -/
theorem four_syndromes {a b c e : Fin (14 * 8)}
    (h : singleBitSyndrome e ^^^ singleBitSyndrome a = singleBitSyndrome b ^^^ singleBitSyndrome c) :
    (a = e ∧ b = c) ∨ (b = e ∧ a = c) ∨ (c = e ∧ a = b) := by
  simp only [singleBitSyndrome_word, ← BitVec.setWidth_xor] at h
  have hle (bit : Fin (14 * 8)) : 111 - bit.val ≤ earlierSyndromes.length := by
    rw [earlierSyndromes_length]
    exact Nat.sub_le _ _
  have hcases := syndromes_words.four_terms syndromes_separated (hle a) (hle b) (hle c) (hle e)
    (setWidth_injective h)
  simp only [Fin.ext_iff]
  omega

/-- Three syndromes never cancel. -/
theorem three_syndromes (a b c : Fin (14 * 8)) :
    singleBitSyndrome a ^^^ singleBitSyndrome b ≠ singleBitSyndrome c := by
  intro h
  simp only [singleBitSyndrome_word, ← BitVec.setWidth_xor] at h
  have hle (bit : Fin (14 * 8)) : 111 - bit.val ≤ earlierSyndromes.length := by
    rw [earlierSyndromes_length]
    exact Nat.sub_le _ _
  exact syndromes_words.three_terms syndromes_separated (hle a) (hle b) (hle c)
    (setWidth_injective h)

theorem singleBitSyndrome_injective {a b : Fin (14 * 8)}
    (h : singleBitSyndrome a = singleBitSyndrome b) : a = b := by
  have hpair : singleBitSyndrome a ^^^ singleBitSyndrome b =
      singleBitSyndrome a ^^^ singleBitSyndrome a := by rw [h]
  obtain ⟨heq, -⟩ | ⟨-, heq⟩ | ⟨-, heq⟩ := four_syndromes hpair
  · exact heq.symm
  · exact heq.symm
  · exact heq.symm

theorem singleBitSyndrome_ne_zero (a : Fin (14 * 8)) : singleBitSyndrome a ≠ 0#32 := by
  intro h
  refine three_syndromes a a a ?_
  rw [BitVec.xor_self, h]

/-! ## Section 3: Repair -/

theorem applyBitErrors_comm {n : ℕ} (msg : Bytes n) (a b : Fin (n * 8)) :
    applyBitErrors (applyBitErrors msg a) b = applyBitErrors (applyBitErrors msg b) a := by
  apply ext_bitAt
  intro c
  simp only [bitAt_applyBitErrors]
  cases bitAt msg c <;> by_cases ha : c = a <;> by_cases hb : c = b <;> simp [ha, hb]

section

variable {input msg : Message}

/-- A flipped bit is the only one with the syndrome of the message. -/
theorem correctLongMessage_of_one (hcrc : crc24Parity msg = 0#32)
    (hone : bitDistance input msg = 1) : correctLongMessage input 2 = (1, msg) := by
  obtain ⟨bit, -, hflip⟩ := exists_flip (k := 0) hone
  rw [bitDistance_eq_zero] at hflip
  have hsyndrome : crc24Parity input = singleBitSyndrome bit := by
    rw [← hflip, crc24Parity_flip] at hcrc
    exact BitVec.xor_eq_zero_iff.1 hcrc
  have hfind : (List.finRange (14 * 8)).find? (fun b => singleBitSyndrome b == singleBitSyndrome bit)
      = some bit := by
    refine find?_finRange_of_unique (by simp) fun b hb => ?_
    exact singleBitSyndrome_injective (by simpa using hb)
  unfold correctLongMessage
  simp only [hsyndrome, singleBitSyndrome_ne_zero, if_false, show 1 ≤ 2 by decide, if_true, hfind,
    hflip]

/-- Two flipped bits are the only pair with the syndrome of the message. -/
theorem correctLongMessage_of_two (hcrc : crc24Parity msg = 0#32)
    (htwo : bitDistance input msg = 2) : correctLongMessage input 2 = (2, msg) := by
  obtain ⟨b1, hb1, hflip⟩ := exists_flip (k := 1) htwo
  obtain ⟨b2, hb2, hflip2⟩ := exists_flip (k := 0) hflip
  rw [bitDistance_eq_zero] at hflip2
  have hne : b1 ≠ b2 := by
    rintro rfl
    rw [diffBits_applyBitErrors hb1] at hb2
    exact absurd hb2 (Finset.notMem_erase b1 _)
  have hsyndrome : crc24Parity input = singleBitSyndrome b1 ^^^ singleBitSyndrome b2 := by
    rw [← hflip2, crc24Parity_flip, crc24Parity_flip, BitVec.xor_assoc] at hcrc
    exact BitVec.xor_eq_zero_iff.1 hcrc
  have hnonzero : singleBitSyndrome b1 ^^^ singleBitSyndrome b2 ≠ 0#32 := fun hzero =>
    hne (singleBitSyndrome_injective (BitVec.xor_eq_zero_iff.1 hzero))
  have hsingle : (List.finRange (14 * 8)).find? (fun b => singleBitSyndrome b ==
      (singleBitSyndrome b1 ^^^ singleBitSyndrome b2)) = none := by
    refine List.find?_eq_none.2 fun b _ => ?_
    simpa using (three_syndromes b1 b2 b).symm
  obtain ⟨⟨c1, c2⟩, hpair⟩ := Option.ne_none_iff_exists'.1
    (twoBitSyndromeTable_isSome hne hflip2 hcrc)
  have hpair' := hpair
  rw [hsyndrome] at hpair
  have hsame : singleBitSyndrome c1 ^^^ singleBitSyndrome c2 =
      singleBitSyndrome b1 ^^^ singleBitSyndrome b2 := by
    simpa using List.find?_some hpair
  have hlt : c1 < c2 := mem_bitPairs.1 (List.mem_of_find?_eq_some hpair)
  -- the pair that was found is the pair that was flipped
  have hresult : applyBitErrors (applyBitErrors input c1) c2 = msg := by
    obtain ⟨heq, -⟩ | ⟨rfl, rfl⟩ | ⟨rfl, rfl⟩ := four_syndromes hsame
    · exact absurd heq.symm hlt.ne
    · exact hflip2
    · rw [applyBitErrors_comm]
      exact hflip2
  unfold correctLongMessage
  simp only [hsyndrome, hnonzero, if_false, show 1 ≤ 2 by decide, if_true, hsingle,
    show 2 ≤ 2 by decide, hpair, hresult]

/-- The nearest message of the code is restored, and its distance is reported. -/
theorem correctLongMessage_restores (hcrc : crc24Parity msg = 0#32)
    (hnear : bitDistance input msg ≤ 2) :
    correctLongMessage input 2 = ((bitDistance input msg : ℤ), msg) := by
  have hcases : bitDistance input msg = 0 ∨ bitDistance input msg = 1 ∨
      bitDistance input msg = 2 := by omega
  obtain h | h | h := hcases
  · obtain rfl := bitDistance_eq_zero.1 h
    rw [h]
    unfold correctLongMessage
    simp only [hcrc, if_true]
    rfl
  · rw [h, correctLongMessage_of_one hcrc h]
    rfl
  · rw [h, correctLongMessage_of_two hcrc h]
    rfl

end

/-- The first bit tells the length. -/
theorem isLong_firstBit (msg : Message) : isLong (dfOf msg) = bitAt msg 0 := by
  have hbit : ∀ x : Byte, isLong (x >>> 3) = x.getLsbD 7 := by decide
  exact hbit (msg 0)

/-- **Extended squitters are repaired.** A message of DF17 or DF18 with zero syndrome, of which at
    most two bits are flipped, and not the first one, is restored with the number of flips. -/
theorem correctMessage_restores (msg received : Message)
    (hdf : dfOf msg = 17#8 ∨ dfOf msg = 18#8) (hcrc : crc24Parity msg = 0#32)
    (hflips : bitDistance received msg ≤ 2) (hfirst : bitAt received 0 = bitAt msg 0) :
    correctMessage received 2 = ((bitDistance received msg : ℤ), msg) := by
  have hlong : isLong (dfOf received) = true := by
    rw [isLong_firstBit, hfirst, ← isLong_firstBit]
    obtain h | h := hdf
    all_goals
      rw [h]
      decide
  have hshort : (MODES_LONG_MSG_BITS == MODES_SHORT_MSG_BITS) = false := by decide
  unfold correctMessage
  simp only [modeSMessageLenByType_eq, hlong, if_true, hshort, Bool.false_eq_true, if_false,
    correctLongMessage_restores hcrc hflips]
  rw [if_pos (Int.natCast_nonneg _)]

/-- An identification squitter, and what is left of it when two bits are flipped. -/
def squitter : Message :=
  ![0x8D#8, 0x48#8, 0x40#8, 0xD6#8, 0x20#8, 0x2C#8, 0xC3#8,
    0x71#8, 0xC3#8, 0x2C#8, 0xE0#8, 0x57#8, 0x60#8, 0x98#8]

def flippedSquitter : Message :=
  ![0x89#8, 0x48#8, 0x40#8, 0xD6#8, 0x20#8, 0x2C#8, 0xC3#8,
    0x71#8, 0xC3#8, 0x28#8, 0xE0#8, 0x57#8, 0x60#8, 0x98#8]

/-- Flips in the format field and in the data are undone. -/
theorem squitter_restored :
    correctMessage flippedSquitter 2 = ((bitDistance flippedSquitter squitter : ℤ), squitter) :=
  correctMessage_restores squitter flippedSquitter (.inl (by decide)) (by decide)
    (by decide) (by decide)

end ModeS
