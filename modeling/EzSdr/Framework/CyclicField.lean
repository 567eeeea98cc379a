import EzSdr.Framework.BinaryPolynomial

/-! # Fields from Registers of Full Period

    An additive register that runs through all nonzero elements of a group before
    it returns makes the group a field: multiplication adds logarithms, which is
    what tables of powers and logarithms compute. It distributes because the
    register is additive, and every nonzero element has an inverse because it is
    a power. No irreducible polynomial is needed.

    * **`FullRegister`**: the register, and `Element`, its field.
    * **`Element.instField`**.
    * **`XorWord`**: bit vectors under exclusive or, with the registers that shift. -/

/-- An additive register that reaches every nonzero element, and returns. -/
structure FullRegister (G : Type*) [AddCommGroup G] where
  next    : G →+ G
  one     : G
  nonzero : one ≠ 0
  reaches : ∀ g, g ≠ 0 → ∃ n, next^[n] one = g
  returns : ∃ n, next^[n + 1] one = one

namespace FullRegister

variable {G : Type*} [AddCommGroup G] (C : FullRegister G)

/-! ## Section 1: Powers -/

/-- The group as the field of the register. -/
@[ext] structure Element (C : FullRegister G) where
  val : G

theorem iterate_add (n : ℕ) (a b : G) : C.next^[n] (a + b) = C.next^[n] a + C.next^[n] b :=
  iterate_map_add C.next n a b

theorem iterate_zero (n : ℕ) : C.next^[n] 0 = 0 := iterate_map_zero C.next n

theorem iterate_ne_zero (n : ℕ) : C.next^[n] C.one ≠ 0 := by
  obtain ⟨k, hk⟩ := C.returns
  have hperiod : ∀ m, C.next^[(k + 1) * m] C.one = C.one := by
    intro m
    rw [Function.iterate_mul]
    exact Function.iterate_fixed hk m
  intro hzero
  -- after whole periods the register has returned, so it cannot have died
  have hlate : C.next^[k * n + n] C.one = 0 := by
    rw [Function.iterate_add_apply, hzero, iterate_zero]
  rw [show k * n + n = (k + 1) * n by ring, hperiod] at hlate
  exact C.nonzero hlate

/-- Two powers that are equal multiply alike. -/
theorem iterate_congr {n m : ℕ} (h : C.next^[n] C.one = C.next^[m] C.one) (g : G) :
    C.next^[n] g = C.next^[m] g := by
  by_cases hg : g = 0
  · rw [hg, iterate_zero, iterate_zero]
  · obtain ⟨k, rfl⟩ := C.reaches g hg
    rw [← Function.iterate_add_apply, ← Function.iterate_add_apply, add_comm n, add_comm m,
      Function.iterate_add_apply, Function.iterate_add_apply, h]

/-! ## Section 2: The field -/

namespace Element

variable {C}

instance : Zero C.Element := ⟨⟨0⟩⟩

instance : Add C.Element := ⟨fun a b => ⟨a.val + b.val⟩⟩

instance : Neg C.Element := ⟨fun a => ⟨-a.val⟩⟩

instance : AddCommGroup C.Element where
  add_assoc a b c := Element.ext (add_assoc a.val b.val c.val)
  zero_add a := Element.ext (zero_add a.val)
  add_zero a := Element.ext (add_zero a.val)
  neg_add_cancel a := Element.ext (neg_add_cancel a.val)
  add_comm a b := Element.ext (add_comm a.val b.val)
  nsmul := nsmulRec
  zsmul := zsmulRec

@[simp] theorem val_add (a b : C.Element) : (a + b).val = a.val + b.val := rfl

@[simp] theorem val_zero : (0 : C.Element).val = 0 := rfl

end Element

/-- The power `n` of the register. -/
def power (n : ℕ) : C.Element := ⟨C.next^[n] C.one⟩

theorem power_ne_zero (n : ℕ) : C.power n ≠ 0 :=
  fun h => C.iterate_ne_zero n (congrArg Element.val h)

theorem exists_power {a : C.Element} (h : a ≠ 0) : ∃ n, C.power n = a := by
  have hval : a.val ≠ 0 := fun hzero => h (Element.ext hzero)
  obtain ⟨n, hn⟩ := C.reaches a.val hval
  exact ⟨n, Element.ext hn⟩

namespace Element

variable {C}

open Classical in
/-- A product with zero is zero; otherwise the register runs once for each step of the
    logarithm. -/
noncomputable instance : Mul C.Element where
  mul a b := if h : a = 0 then 0 else ⟨C.next^[(C.exists_power h).choose] b.val⟩

instance : One C.Element where
  one := C.power 0

theorem zero_mul' (b : C.Element) : 0 * b = 0 := dif_pos rfl

theorem power_mul (n : ℕ) (b : C.Element) : C.power n * b = ⟨C.next^[n] b.val⟩ := by
  have hchosen := (C.exists_power (C.power_ne_zero n)).choose_spec
  refine (dif_neg (C.power_ne_zero n)).trans (Element.ext ?_)
  exact C.iterate_congr (congrArg Element.val hchosen) b.val

theorem power_mul_power (n m : ℕ) : C.power n * C.power m = C.power (n + m) := by
  rw [power_mul]
  exact Element.ext (Function.iterate_add_apply C.next n m C.one).symm

theorem mul_zero' (a : C.Element) : a * 0 = 0 := by
  by_cases ha : a = 0
  · rw [ha, zero_mul']
  · obtain ⟨n, rfl⟩ := C.exists_power ha
    rw [power_mul]
    exact Element.ext (C.iterate_zero n)

theorem mul_comm' (a b : C.Element) : a * b = b * a := by
  by_cases ha : a = 0
  · rw [ha, zero_mul', mul_zero']
  by_cases hb : b = 0
  · rw [hb, zero_mul', mul_zero']
  obtain ⟨n, rfl⟩ := C.exists_power ha
  obtain ⟨m, rfl⟩ := C.exists_power hb
  rw [power_mul_power, power_mul_power, add_comm]

theorem mul_assoc' (a b c : C.Element) : a * b * c = a * (b * c) := by
  by_cases ha : a = 0
  · rw [ha, zero_mul', zero_mul', zero_mul']
  by_cases hb : b = 0
  · rw [hb, zero_mul', mul_zero', zero_mul']
  obtain ⟨n, rfl⟩ := C.exists_power ha
  obtain ⟨m, rfl⟩ := C.exists_power hb
  rw [power_mul_power, power_mul, power_mul, power_mul]
  exact Element.ext (Function.iterate_add_apply C.next n m c.val)

theorem mul_add' (a b c : C.Element) : a * (b + c) = a * b + a * c := by
  by_cases ha : a = 0
  · rw [ha, zero_mul', zero_mul', zero_mul', add_zero]
  · obtain ⟨n, rfl⟩ := C.exists_power ha
    rw [power_mul, power_mul, power_mul]
    exact Element.ext (C.iterate_add n b.val c.val)

theorem one_mul' (a : C.Element) : 1 * a = a := power_mul 0 a

noncomputable instance : CommRing C.Element where
  mul := (· * ·)
  one := 1
  mul_assoc := mul_assoc'
  one_mul := one_mul'
  mul_one a := by rw [mul_comm', one_mul']
  zero_mul := zero_mul'
  mul_zero := mul_zero'
  left_distrib := mul_add'
  right_distrib a b c := by rw [mul_comm', mul_add', mul_comm' c, mul_comm' c]
  mul_comm := mul_comm'
  zsmul := zsmulRec
  neg_add_cancel := neg_add_cancel

/-- The inverse of a power is the rest of the way to the next return. -/
theorem isField : IsField C.Element where
  exists_pair_ne := ⟨1, 0, C.power_ne_zero 0⟩
  mul_comm := mul_comm
  mul_inv_cancel := by
    intro a ha
    obtain ⟨n, rfl⟩ := C.exists_power ha
    obtain ⟨k, hk⟩ := C.returns
    refine ⟨C.power (k * n), ?_⟩
    rw [power_mul_power, show n + k * n = (k + 1) * n by ring]
    apply Element.ext
    show C.next^[(k + 1) * n] C.one = C.one
    rw [Function.iterate_mul]
    exact Function.iterate_fixed hk n

noncomputable instance instField : Field C.Element := isField.toField

end Element

/-- The element that a step of the register multiplies with. -/
def generator : C.Element := C.power 1

theorem generator_pow (n : ℕ) : C.generator ^ n = C.power n := by
  induction n with
  | zero => rfl
  | succ n ih => rw [pow_succ, ih, generator, Element.power_mul_power]

theorem generator_ne_zero : C.generator ≠ 0 := C.power_ne_zero 1

end FullRegister

/-! ## Section 3: Words under exclusive or -/

/-- A bit vector that is added by exclusive or. -/
@[ext] structure XorWord (w : ℕ) where
  bits : BitVec w

namespace XorWord

variable {w : ℕ}

instance : Zero (XorWord w) := ⟨⟨0⟩⟩

instance : Add (XorWord w) := ⟨fun a b => ⟨a.bits ^^^ b.bits⟩⟩

instance : Neg (XorWord w) := ⟨id⟩

instance : AddCommGroup (XorWord w) where
  add_assoc a b c := XorWord.ext (BitVec.xor_assoc a.bits b.bits c.bits)
  zero_add a := XorWord.ext BitVec.zero_xor
  add_zero a := XorWord.ext BitVec.xor_zero
  neg_add_cancel a := XorWord.ext BitVec.xor_self
  add_comm a b := XorWord.ext (BitVec.xor_comm a.bits b.bits)
  nsmul := nsmulRec
  zsmul := zsmulRec

@[simp] theorem bits_add (a b : XorWord w) : (a + b).bits = a.bits ^^^ b.bits := rfl

@[simp] theorem bits_zero : (0 : XorWord w).bits = 0 := rfl

/-- One shift with feedback. -/
def shift (feedback : BitVec w) : XorWord w →+ XorWord w where
  toFun a := ⟨BinaryPolynomial.shiftRegister feedback a.bits⟩
  map_zero' := by
    apply XorWord.ext
    simp [BinaryPolynomial.shiftRegister]
  map_add' a b := by
    apply XorWord.ext
    show BinaryPolynomial.shiftRegister feedback (a.bits ^^^ b.bits) =
      BinaryPolynomial.shiftRegister feedback a.bits ^^^
        BinaryPolynomial.shiftRegister feedback b.bits
    unfold BinaryPolynomial.shiftRegister
    ext i hi
    cases ha : a.bits.msb <;> cases hb : b.bits.msb <;> simp [ha, hb, BitVec.msb_xor] <;> grind

theorem shift_apply (feedback : BitVec w) (a : XorWord w) :
    shift feedback a = ⟨BinaryPolynomial.shiftRegister feedback a.bits⟩ := rfl

end XorWord
