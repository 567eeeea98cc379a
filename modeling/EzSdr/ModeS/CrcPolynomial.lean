import EzSdr.Framework.BinaryPolynomial
import EzSdr.ModeS.Correct

/-! # The Checksum as a Remainder

    A message is a polynomial over the field with two elements, its first bit
    being the highest coefficient. The table-driven checksum is the remainder
    of the message, with room for the parity field, by the generator
    polynomial. The syndrome is the remainder of the whole message, so a burst
    of errors that fits in the parity field never goes unnoticed.

    * **`crc24_spec`**: remainder, linearity, parity, bursts. -/

namespace ModeS

open Polynomial BinaryPolynomial

noncomputable section

/-! ## Section 1: The register -/

/-- The generator without its leading term. -/
def feedback : BitVec 24 := MODES_GENERATOR_POLY.setWidth 24

/-- The generator polynomial, `X ^ 24` included. -/
def crcGenerator : (ZMod 2)[X] := generator feedback

/-- The 24 bits that the code keeps after masking. -/
def low (c : Word) : BitVec 24 := c.setWidth 24

theorem low_getLsbD (c : Word) (i : ℕ) : (low c).getLsbD i = (decide (i < 24) && c.getLsbD i) := by
  unfold low
  rw [BitVec.getLsbD_setWidth]

theorem low_xor (a b : Word) : low (a ^^^ b) = low a ^^^ low b := BitVec.setWidth_xor

/-- The mask keeps the low bits. -/
theorem low_mask (c : Word) : low (c &&& 0x00FFFFFF#32) = low c := by
  apply BitVec.eq_of_getLsbD_eq
  intro i hi
  rw [low_getLsbD, low_getLsbD, BitVec.getLsbD_and]
  have hmask : ∀ i < 24, (0x00FFFFFF#32 : Word).getLsbD i = true := by decide
  rw [hmask i hi, Bool.and_true]

/-- One turn of the table loop is one shift of a 24-bit register. -/
theorem low_crcShift (c : Word) : low (crcShift c) = shiftRegister feedback (low c) := by
  have hmsb : (low c).msb = c.getLsbD 23 := by
    rw [BitVec.msb_eq_getLsbD_last, low_getLsbD]
    simp
  have hshift : low (c <<< 1) = low c <<< 1 := by
    apply BitVec.eq_of_getLsbD_eq
    intro i hi
    rw [low_getLsbD, BitVec.getLsbD_shiftLeft, BitVec.getLsbD_shiftLeft, low_getLsbD]
    have h32 : i < 32 := by omega
    have hprev : i - 1 < 24 := by omega
    simp [hi, h32, hprev]
  rw [crcShift_eq, low_xor, shiftRegister, hmsb, hshift]
  cases c.getLsbD 23 <;> rfl

theorem low_crcShift_iterate (c : Word) (n : ℕ) :
    low (crcShift^[n] c) = (shiftRegister feedback)^[n] (low c) := by
  induction n generalizing c with
  | zero => rfl
  | succ n ih => rw [Function.iterate_succ_apply, ih, low_crcShift, Function.iterate_succ_apply]

/-- An entry of the table: a byte eight shifts on. -/
theorem modulo_table (i : Byte) :
    modulo feedback (ofBits (low (CRC24_TABLE i))) = modulo feedback (ofBits i * X ^ 24) := by
  have hplace : ofBits (low (i.setWidth 32 <<< 16)) = ofBits i * X ^ 16 := by
    apply ofBits_mul_X_pow
    · intro j hj
      rw [low_getLsbD, BitVec.getLsbD_shiftLeft]
      simp [hj]
    · intro j
      rw [low_getLsbD, BitVec.getLsbD_shiftLeft, BitVec.getLsbD_setWidth]
      by_cases hj : j < 8
      · simp [show j + 16 < 24 by omega, show j + 16 < 32 by omega, show j < 32 by omega]
      · simp [BitVec.getLsbD_of_ge i j (by omega)]
  unfold CRC24_TABLE
  rw [low_mask, low_crcShift_iterate, shiftRegister_iterate, hplace, mul_assoc, ← pow_add]

/-- The upper byte of the register, which is looked up, and the rest of it. -/
theorem ofBits_register (rem : Word) :
    ofBits (low rem) * X ^ 8 = ofBits (low (rem <<< 8)) +
      ofBits (((rem &&& 0xFF0000#32) >>> 16).setWidth 8) * X ^ 24 := by
  have hmask : ∀ i < 32, (0xFF0000#32 : Word).getLsbD i = decide (16 ≤ i ∧ i < 24) := by decide
  ext i
  rw [coeff_add, coeff_mul_X_pow', coeff_mul_X_pow', coeff_ofBits, coeff_ofBits, coeff_ofBits,
    low_getLsbD, low_getLsbD, BitVec.getLsbD_shiftLeft, BitVec.getLsbD_setWidth,
    BitVec.getLsbD_ushiftRight, BitVec.getLsbD_and]
  obtain hlow | hmid | hhigh | hout : i < 8 ∨ (8 ≤ i ∧ i < 24) ∨ (24 ≤ i ∧ i < 32) ∨ 32 ≤ i := by
    omega
  · simp [hlow, show ¬ 8 ≤ i by omega, show ¬ 24 ≤ i by omega, bit]
  · simp [hmid.1, hmid.2, show ¬ i < 8 by omega, show ¬ 24 ≤ i by omega, show i < 32 by omega,
      show i - 8 < 24 by omega]
  · have heq : 16 + (i - 24) = i - 8 := by omega
    rw [heq, hmask (i - 8) (by omega)]
    simp [hhigh.1, show 8 ≤ i by omega, show ¬ i < 24 by omega, show i - 24 < 8 by omega,
      show i - 8 < 24 by omega, show 16 ≤ i - 8 by omega, bit]
  · simp [show 8 ≤ i by omega, show 24 ≤ i by omega, show ¬ i < 24 by omega,
      show ¬ i - 8 < 24 by omega, show ¬ i - 24 < 8 by omega, bit]

/-- Feeding one byte: the register moves up by eight places, and the byte comes in above it. -/
theorem modulo_crcByte (rem : Word) (b : Byte) :
    modulo feedback (ofBits (low (crcByte rem b))) =
      modulo feedback (ofBits (low rem) * X ^ 8 + ofBits b * X ^ 24) := by
  unfold crcByte
  rw [low_mask, low_xor, ofBits_xor, map_add, modulo_table, ofBits_xor, ← map_add, ofBits_register]
  refine congrArg (modulo feedback) ?_
  rw [add_mul, add_assoc, add_comm (ofBits b * X ^ 24)]

/-! ## Section 2: Messages -/

/-- The checksum modulo the generator. -/
theorem modulo_crc24 (data : List Byte) :
    modulo feedback (ofBits (low (crc24 data))) = modulo feedback (ofWords data * X ^ 24) := by
  induction data using List.reverseRecOn with
  | nil =>
    have hzero : low (crc24 []) = 0#24 := by decide
    rw [hzero, ofBits_zero]
    simp [ofWords]
  | append_singleton data b ih =>
    rw [show crc24 (data ++ [b]) = crcByte (crc24 data) b from List.foldl_concat ..,
      modulo_crcByte, ofWords_append_singleton, map_add, map_mul, ih, ← map_mul, ← map_add]
    refine congrArg (modulo feedback) ?_
    rw [add_mul, mul_assoc, mul_assoc, mul_comm (X ^ 24)]

/-- A word within 24 bits has the polynomial of its low bits. -/
theorem ofBits_low {c : Word} (h : c &&& 0x00FFFFFF#32 = c) : ofBits (low c) = ofBits c := by
  apply ofBits_congr
  intro i
  rw [low_getLsbD]
  by_cases hi : i < 24
  · simp [hi]
  · have hmask : ∀ i, 24 ≤ i → i < 32 → (0x00FFFFFF#32 : Word).getLsbD i = false := by decide
    have hout : c.getLsbD i = false := by
      by_cases h32 : i < 32
      · rw [← h, BitVec.getLsbD_and, hmask i (by omega) h32, Bool.and_false]
      · exact BitVec.getLsbD_of_ge c i (by omega)
    simp [hi, hout]

/-- **The checksum is the remainder** of the message with room for 24 more bits. -/
theorem ofBits_crc24 (data : List Byte) :
    ofBits (crc24 data) = (ofWords data * X ^ 24) %ₘ crcGenerator := by
  rw [← ofBits_low (crc24_mask data)]
  exact eq_modByMonic (modulo_crc24 data)

/-- The parity bytes as the end of a message. -/
theorem ofBits_parityWord (a b c : Byte) :
    ofBits (low (parityWord a b c)) =
      ofBits a * X ^ 16 + ofBits b * X ^ 8 + ofBits c := by
  have hplace (v : Byte) (n : ℕ) (hn : n ≤ 16) :
      ofBits (low (v.setWidth 32 <<< n)) = ofBits v * X ^ n := by
    apply ofBits_mul_X_pow
    · intro j hj
      rw [low_getLsbD, BitVec.getLsbD_shiftLeft]
      simp [hj]
    · intro j
      rw [low_getLsbD, BitVec.getLsbD_shiftLeft, BitVec.getLsbD_setWidth]
      by_cases hj : j < 8
      · simp [show j + n < 24 by omega, show j + n < 32 by omega, show j < 32 by omega]
      · simp [BitVec.getLsbD_of_ge v j (by omega)]
  have hlast : ofBits (low (c.setWidth 32)) = ofBits c := by
    have h := hplace c 0 (by omega)
    rwa [BitVec.shiftLeft_zero, pow_zero, mul_one] at h
  unfold parityWord
  rw [low_xor, low_xor, ofBits_xor, ofBits_xor, hplace a 16 le_rfl, hplace b 8 (by omega), hlast]

/-- A message is its payload and its parity field. -/
theorem ofWords_message {n : ℕ} (msg : Bytes (n + 3)) :
    ofWords (List.ofFn msg) = ofWords (List.ofFn fun i : Fin n => msg (i.castAdd 3)) * X ^ 24 +
      ofBits (low (parityWord (msg (Fin.natAdd n 0)) (msg (Fin.natAdd n 1))
        (msg (Fin.natAdd n 2)))) := by
  have hsplit : List.ofFn msg = List.ofFn (fun i : Fin n => msg (i.castAdd 3)) ++
      [msg (Fin.natAdd n 0)] ++ [msg (Fin.natAdd n 1)] ++ [msg (Fin.natAdd n 2)] := by
    rw [List.ofFn_add]
    simp [List.ofFn_succ]
    rfl
  rw [hsplit, ofWords_append_singleton, ofWords_append_singleton, ofWords_append_singleton,
    ofBits_parityWord]
  ring

/-- **The syndrome is the remainder** of the whole message. -/
theorem ofBits_crc24Parity {n : ℕ} (msg : Bytes (n + 3)) :
    ofBits (crc24Parity msg) = ofWords (List.ofFn msg) %ₘ crcGenerator := by
  have hmask : crc24Parity msg &&& 0x00FFFFFF#32 = crc24Parity msg := by
    unfold crc24Parity
    rw [BitVec.and_assoc, BitVec.and_self]
  rw [← ofBits_low hmask]
  refine eq_modByMonic ?_
  unfold crc24Parity
  rw [low_mask, low_xor, ofBits_xor, map_add, modulo_crc24, ofWords_message, map_add]

/-! ## Section 3: Parity and bursts -/

/-- The three bytes of a parity field. -/
def parityBytes (parity : Word) : Bytes 3 :=
  ![(parity >>> 16).setWidth 8, (parity >>> 8).setWidth 8, parity.setWidth 8]

/-- A payload with its parity field. -/
def withParity {n : ℕ} (data : Bytes n) : Bytes (n + 3) :=
  Fin.append data (parityBytes (crc24 (List.ofFn data)))

theorem parityWord_bytes {parity : Word} (h : parity &&& 0x00FFFFFF#32 = parity) :
    parityWord ((parity >>> 16).setWidth 8) ((parity >>> 8).setWidth 8) (parity.setWidth 8) =
      parity := by
  have hmask : ∀ i, 24 ≤ i → i < 32 → (0x00FFFFFF#32 : Word).getLsbD i = false := by decide
  apply BitVec.eq_of_getLsbD_eq
  intro i hi
  unfold parityWord
  rw [BitVec.getLsbD_xor, BitVec.getLsbD_xor, BitVec.getLsbD_shiftLeft, BitVec.getLsbD_shiftLeft]
  simp only [BitVec.getLsbD_setWidth, BitVec.getLsbD_ushiftRight]
  obtain hlow | hmid | hhigh | hout : i < 8 ∨ (8 ≤ i ∧ i < 16) ∨ (16 ≤ i ∧ i < 24) ∨ 24 ≤ i := by
    omega
  · simp [hi, hlow, show i < 16 by omega]
  · simp [hi, hmid.2, show ¬ i < 8 by omega, show i - 8 < 8 by omega, show i - 8 < 32 by omega,
      show 8 + (i - 8) = i by omega]
  · simp [hi, show ¬ i < 16 by omega, show ¬ i < 8 by omega, show i - 16 < 8 by omega,
      show i - 16 < 32 by omega, show ¬ i - 8 < 8 by omega, show 16 + (i - 16) = i by omega]
  · have hzero : parity.getLsbD i = false := by
      rw [← h, BitVec.getLsbD_and, hmask i hout hi, Bool.and_false]
    rw [hzero]
    simp [show ¬ i < 8 by omega, show ¬ i - 8 < 8 by omega, show ¬ i - 16 < 8 by omega]

/-- A message that ends with the checksum of its payload has no syndrome. -/
theorem crc24Parity_withParity {n : ℕ} (data : Bytes n) : crc24Parity (withParity data) = 0#32 := by
  rw [crc24Parity_eq_zero]
  unfold withParity
  simp only [Fin.append_left, Fin.append_right]
  exact (parityWord_bytes (crc24_mask _)).symm

/-- An error burst: some bits are wrong, and none outside of 24 bits in a row. -/
def IsErrorBurst {n : ℕ} (error : Bytes n) : Prop :=
  (∃ bit, bitAt error bit = true) ∧
    ∃ start, ∀ bit, bitAt error bit = true → start ≤ bit.val ∧ bit.val < start + 24

/-- The coefficients of a message are its bits, from the last to the first. -/
theorem coeff_message {n : ℕ} (msg : Bytes n) (j : ℕ) :
    (ofWords (List.ofFn msg)).coeff j =
      if h : j < n * 8 then bit (bitAt msg ⟨n * 8 - 1 - j, by omega⟩) else 0 := by
  induction n generalizing j with
  | zero => simp [ofWords]
  | succ n ih =>
    rw [List.ofFn_succ', List.concat_eq_append, ofWords_append_singleton, coeff_add,
      coeff_mul_X_pow', coeff_ofBits, ih]
    by_cases hlast : j < 8
    · -- a bit of the last byte
      have hbyte : byteOf (⟨(n + 1) * 8 - 1 - j, by omega⟩ : Fin ((n + 1) * 8)) = Fin.last n :=
        Fin.ext (show ((n + 1) * 8 - 1 - j) / 8 = n by omega)
      have hpos : 7 - ((n + 1) * 8 - 1 - j) % 8 = j := by omega
      rw [if_neg (by omega), zero_add, dif_pos (by omega)]
      unfold bitAt
      rw [hbyte, hpos]
    · rw [if_pos (by omega), BitVec.getLsbD_of_ge _ j (by omega)]
      by_cases hin : j < (n + 1) * 8
      · rw [dif_pos hin, dif_pos (by omega), show bit false = 0 from rfl, add_zero]
        refine congrArg bit ?_
        unfold bitAt
        have hpos : n * 8 - 1 - (j - 8) = (n + 1) * 8 - 1 - j := by omega
        simp only [hpos]
        rfl
      · rw [dif_neg hin, dif_neg (by omega)]
        rfl

/-- A burst of errors is a burst of coefficients. -/
theorem IsErrorBurst.coefficients {n : ℕ} {error : Bytes n} (h : IsErrorBurst error) :
    IsBurst 24 (ofWords (List.ofFn error)) := by
  obtain ⟨⟨b, hb⟩, start, hrange⟩ := h
  have hlt := b.isLt
  constructor
  · intro hzero
    have hcoeff := coeff_message error (n * 8 - 1 - b)
    have hback : (⟨n * 8 - 1 - (n * 8 - 1 - b), by omega⟩ : Fin (n * 8)) = b :=
      Fin.ext (show n * 8 - 1 - (n * 8 - 1 - b) = b.val by omega)
    rw [hzero, coeff_zero, dif_pos (by omega), hback, hb] at hcoeff
    exact absurd hcoeff (by decide)
  · refine ⟨n * 8 - start - 24, fun j hj => ?_⟩
    rw [coeff_message] at hj
    by_cases hin : j < n * 8
    · rw [dif_pos hin, Ne, bit_eq_zero, Bool.not_eq_false] at hj
      obtain ⟨hfirst, hafter⟩ := hrange _ hj
      dsimp only at hfirst hafter
      omega
    · rw [dif_neg hin] at hj
      exact absurd rfl hj

/-- **What the checksum is and what it finds**: it is the remainder by the generator polynomial
    and linear, the parity field makes the syndrome zero, and no error burst of at most 24 bits
    does. -/
theorem crc24_spec :
    (∀ data : List Byte, ofBits (crc24 data) = (ofWords data * X ^ 24) %ₘ crcGenerator) ∧
    (∀ {n : ℕ} (a b : Bytes n), crc24 (List.ofFn (xorBytes a b)) =
      crc24 (List.ofFn a) ^^^ crc24 (List.ofFn b)) ∧
    (∀ {n : ℕ} (data : Bytes n), crc24Parity (withParity data) = 0#32) ∧
    ∀ {n : ℕ} (error : Bytes (n + 3)), IsErrorBurst error → crc24Parity error ≠ 0#32 := by
  refine ⟨ofBits_crc24, fun a b => ?_, crc24Parity_withParity, fun error hburst hzero => ?_⟩
  · have hfold := foldl_crcByte_xor a b 0#32 0#32
    rwa [BitVec.xor_zero] at hfold
  · have hremainder := ofBits_crc24Parity error
    rw [hzero, ofBits_zero, eq_comm, crcGenerator,
      modByMonic_eq_zero_iff_dvd (generator_monic feedback)] at hremainder
    exact not_dvd_of_burst (by decide) (by decide) hburst.coefficients hremainder

/-- Errors in the first and the last bit of a parity field are 24 bits apart at most. -/
theorem crc24_spec_burst : crc24Parity (![0#8, 0x80#8, 0#8, 1#8] : Bytes (1 + 3)) ≠ 0#32 :=
  crc24_spec.2.2.2 _ ⟨⟨8, by decide⟩, 8, by decide⟩

end

end ModeS
