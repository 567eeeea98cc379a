import Mathlib

/-! # Mode S Checksum

    The table-driven 24-bit checksum of Mode S messages. The checksum is
    linear over exclusive or, which is what error correction rests on: a
    flipped bit changes the syndrome of a message by a value that depends on
    the bit alone. -/

namespace ModeS

abbrev Byte : Type := BitVec 8
abbrev Word : Type := BitVec 32

/-- A byte array of fixed length. -/
abbrev Bytes (n : ℕ) : Type := Fin n → Byte

/-- Generator polynomial for the Mode S CRC. -/
def MODES_GENERATOR_POLY : Word := 0xFFF409#32

/-- One turn of the loop that fills the table. -/
def crcShift (c : Word) : Word :=
  if c &&& 0x800000#32 ≠ 0#32 then (c <<< 1) ^^^ MODES_GENERATOR_POLY else c <<< 1

/-- Lookup table for all byte values. -/
def CRC24_TABLE (i : Byte) : Word := crcShift^[8] (i.setWidth 32 <<< 16) &&& 0x00FFFFFF#32

/-- Feed one byte into the remainder. -/
def crcByte (rem : Word) (byte : Byte) : Word :=
  let idx := byte ^^^ ((rem &&& 0xFF0000#32) >>> 16).setWidth 8
  ((rem <<< 8) ^^^ CRC24_TABLE idx) &&& 0x00FFFFFF#32

/-- Checksum over a data payload. -/
def crc24 (data : List Byte) : Word := data.foldl crcByte 0#32

/-- The three parity bytes as one number. -/
def parityWord (a b c : Byte) : Word :=
  a.setWidth 32 <<< 16 ^^^ b.setWidth 32 <<< 8 ^^^ c.setWidth 32

/-- Syndrome of a message with its trailing three-byte parity field. The code
    asserts that there are three bytes; here the length says so. -/
def crc24Parity {n : ℕ} (msg : Bytes (n + 3)) : Word :=
  (crc24 (List.ofFn fun i : Fin n => msg (i.castAdd 3)) ^^^
      parityWord (msg (Fin.natAdd n 0)) (msg (Fin.natAdd n 1)) (msg (Fin.natAdd n 2)))
    &&& 0x00FFFFFF#32

/-! ## Section 1: Linearity -/

/-- A map between bit vectors that respects exclusive or. -/
def XorLinear {u v : ℕ} (f : BitVec u → BitVec v) : Prop :=
  ∀ a b, f (a ^^^ b) = f a ^^^ f b

theorem XorLinear.iterate {u : ℕ} {f : BitVec u → BitVec u} (hf : XorLinear f) (n : ℕ) :
    XorLinear f^[n] := by
  induction n with
  | zero => intro a b; rfl
  | succ n ih =>
    intro a b
    rw [Function.iterate_succ_apply, Function.iterate_succ_apply, Function.iterate_succ_apply,
      hf a b, ih]

theorem xor_swap {u : ℕ} (a b c d : BitVec u) :
    (a ^^^ b) ^^^ (c ^^^ d) = (a ^^^ c) ^^^ (b ^^^ d) := by
  ac_rfl

theorem and_xor {u : ℕ} (a b m : BitVec u) : (a ^^^ b) &&& m = (a &&& m) ^^^ (b &&& m) := by
  apply BitVec.eq_of_getLsbD_eq
  intro i _
  simp only [BitVec.getLsbD_and, BitVec.getLsbD_xor]
  cases a.getLsbD i <;> cases b.getLsbD i <;> simp

/-- Testing bit 23 of the shift register. -/
theorem crcShift_eq (c : Word) :
    crcShift c = (c <<< 1) ^^^ (if c.getLsbD 23 then MODES_GENERATOR_POLY else 0#32) := by
  have htest : c &&& 0x800000#32 = if c.getLsbD 23 then 0x800000#32 else 0#32 := by
    have htwo : (0x800000#32 : Word) = BitVec.twoPow 32 23 := by decide
    rw [htwo, BitVec.and_twoPow]
  unfold crcShift
  rw [htest]
  cases c.getLsbD 23 <;> simp

theorem crcShift_xor : XorLinear crcShift := by
  intro a b
  simp only [crcShift_eq, BitVec.getLsbD_xor, BitVec.shiftLeft_xor_distrib]
  rw [xor_swap]
  cases a.getLsbD 23 <;> cases b.getLsbD 23 <;> simp

theorem CRC24_TABLE_xor : XorLinear CRC24_TABLE := by
  intro a b
  unfold CRC24_TABLE
  rw [BitVec.setWidth_xor, BitVec.shiftLeft_xor_distrib, crcShift_xor.iterate 8, and_xor]

theorem crcByte_xor (r s : Word) (x y : Byte) :
    crcByte (r ^^^ s) (x ^^^ y) = crcByte r x ^^^ crcByte s y := by
  simp only [crcByte]
  rw [and_xor r s, BitVec.ushiftRight_xor_distrib, BitVec.setWidth_xor, xor_swap,
    CRC24_TABLE_xor, BitVec.shiftLeft_xor_distrib, xor_swap, and_xor]

/-- Pointwise exclusive or of messages. -/
def xorBytes {n : ℕ} (a b : Bytes n) : Bytes n := fun i => a i ^^^ b i

theorem foldl_crcByte_xor {n : ℕ} (a b : Bytes n) (r s : Word) :
    (List.ofFn (xorBytes a b)).foldl crcByte (r ^^^ s) =
      (List.ofFn a).foldl crcByte r ^^^ (List.ofFn b).foldl crcByte s := by
  induction n generalizing r s with
  | zero => simp
  | succ n ih =>
    simp only [List.ofFn_succ, List.foldl_cons]
    rw [← ih (fun i => a i.succ) (fun i => b i.succ), ← crcByte_xor]
    rfl

theorem parityWord_xor (a b c a' b' c' : Byte) :
    parityWord (a ^^^ a') (b ^^^ b') (c ^^^ c') = parityWord a b c ^^^ parityWord a' b' c' := by
  simp only [parityWord, BitVec.setWidth_xor, BitVec.shiftLeft_xor_distrib]
  rw [xor_swap (a.setWidth 32 <<< 16), xor_swap]

/-- The syndrome is linear. -/
theorem crc24Parity_xor {n : ℕ} (a b : Bytes (n + 3)) :
    crc24Parity (xorBytes a b) = crc24Parity a ^^^ crc24Parity b := by
  have hfold := foldl_crcByte_xor (fun i : Fin n => a (i.castAdd 3))
    (fun i : Fin n => b (i.castAdd 3)) 0#32 0#32
  have hcrc : crc24 (List.ofFn fun i : Fin n => a (i.castAdd 3) ^^^ b (i.castAdd 3)) =
      crc24 (List.ofFn fun i : Fin n => a (i.castAdd 3)) ^^^
        crc24 (List.ofFn fun i : Fin n => b (i.castAdd 3)) := hfold
  unfold crc24Parity xorBytes
  rw [hcrc, parityWord_xor, xor_swap, and_xor]

/-! ## Section 2: Padding with zeros -/

/-- The parity bytes a remainder stands for shift it out of the register. -/
theorem crcByte_parityWord (a b c : Byte) : crcByte (parityWord a b c) a = parityWord b c 0#8 := by
  have ha : ∀ a : Byte, crcByte (parityWord a 0#8 0#8) a = 0#32 := by decide
  have hb : ∀ b : Byte, crcByte (parityWord 0#8 b 0#8) 0#8 = parityWord b 0#8 0#8 := by decide
  have hc : ∀ c : Byte, crcByte (parityWord 0#8 0#8 c) 0#8 = parityWord 0#8 c 0#8 := by decide
  have hsplit : parityWord a b c =
      parityWord a 0#8 0#8 ^^^ (parityWord 0#8 b 0#8 ^^^ parityWord 0#8 0#8 c) := by
    simp only [← parityWord_xor, BitVec.xor_zero, BitVec.zero_xor]
  have hlin := crcByte_xor (parityWord a 0#8 0#8) (parityWord 0#8 b 0#8 ^^^ parityWord 0#8 0#8 c)
    a 0#8
  have hlin' := crcByte_xor (parityWord 0#8 b 0#8) (parityWord 0#8 0#8 c) 0#8 0#8
  rw [BitVec.xor_zero] at hlin hlin'
  rw [hsplit, hlin, hlin', ha, hb, hc, BitVec.zero_xor, ← parityWord_xor]
  simp

/-- The remainder stays within 24 bits. -/
theorem crc24_mask (data : List Byte) : crc24 data &&& 0x00FFFFFF#32 = crc24 data := by
  rcases List.eq_nil_or_concat data with rfl | ⟨front, last, rfl⟩
  · rfl
  · simp only [crc24, List.concat_eq_append, List.foldl_append, List.foldl_cons,
      List.foldl_nil, crcByte]
    rw [BitVec.and_assoc, BitVec.and_self]

theorem parityWord_mask (a b c : Byte) :
    parityWord a b c &&& 0x00FFFFFF#32 = parityWord a b c := by
  have ha : ∀ a : Byte, parityWord a 0#8 0#8 &&& 0x00FFFFFF#32 = parityWord a 0#8 0#8 := by decide
  have hb : ∀ b : Byte, parityWord 0#8 b 0#8 &&& 0x00FFFFFF#32 = parityWord 0#8 b 0#8 := by decide
  have hc : ∀ c : Byte, parityWord 0#8 0#8 c &&& 0x00FFFFFF#32 = parityWord 0#8 0#8 c := by decide
  have hsplit : parityWord a b c =
      parityWord a 0#8 0#8 ^^^ (parityWord 0#8 b 0#8 ^^^ parityWord 0#8 0#8 c) := by
    simp only [← parityWord_xor, BitVec.xor_zero, BitVec.zero_xor]
  rw [hsplit, and_xor, and_xor, ha, hb, hc]

/-- The syndrome is zero exactly if the parity field is the checksum of the payload. -/
theorem crc24Parity_eq_zero {n : ℕ} (msg : Bytes (n + 3)) :
    crc24Parity msg = 0#32 ↔ crc24 (List.ofFn fun i : Fin n => msg (i.castAdd 3)) =
      parityWord (msg (Fin.natAdd n 0)) (msg (Fin.natAdd n 1)) (msg (Fin.natAdd n 2)) := by
  unfold crc24Parity
  rw [and_xor, crc24_mask, parityWord_mask]
  exact BitVec.xor_eq_zero_iff

/-- Seven bytes in a fourteen-byte buffer of zeros. -/
def padded (msg : Bytes 7) : Bytes 14 := Fin.append msg (fun _ : Fin 7 => 0#8)

/-- Seven bytes that satisfy the 56-bit code, followed by seven zeros, satisfy
    the 112-bit code. -/
theorem crc24Parity_padded {msg : Bytes 7} (h : crc24Parity msg = 0#32) :
    crc24Parity (padded msg) = 0#32 := by
  rw [crc24Parity_eq_zero] at h ⊢
  have hfeed : crc24 (List.ofFn fun i : Fin 11 => padded msg (i.castAdd 3)) =
      [msg 4, msg 5, msg 6, 0#8, 0#8, 0#8, 0#8].foldl crcByte
        (crc24 (List.ofFn fun i : Fin 4 => msg (i.castAdd 3))) := by
    rfl
  rw [hfeed, h]
  show [msg 4, msg 5, msg 6, 0#8, 0#8, 0#8, 0#8].foldl crcByte
    (parityWord (msg 4) (msg 5) (msg 6)) = parityWord 0#8 0#8 0#8
  -- The three parity bytes clear the register, and zeros keep it clear.
  simp only [List.foldl_cons, List.foldl_nil, crcByte_parityWord]

end ModeS
