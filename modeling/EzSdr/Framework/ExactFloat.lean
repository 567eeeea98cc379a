import Mathlib

/-! # Floating-Point Values without Rounding

    A number is a rational or one of the values that are not finite. Comparison
    is that of floating point: `nan` is neither equal to nor less than anything.

    This module collects:

    * **`clamp`**, which fails on bounds in the wrong order, and its value on
      a finite number.
    * **`settled`**: the number itself inside the bounds, or a fallback when it
      is not finite; it lies in the bounds if the fallback does, and keeps what
      is already there. -/

inductive ExactFloat where
  | num (q : ℚ)
  | infinity
  | negInfinity
  | nan
  deriving DecidableEq

namespace ExactFloat

/-! ## Section 1: Operations -/

def isFinite : ExactFloat → Bool
  | num _ => true
  | _ => false

/-- Equality of values: not of `nan` with itself. -/
def eq : ExactFloat → ExactFloat → Bool
  | num p, num q => p = q
  | infinity, infinity => true
  | negInfinity, negInfinity => true
  | _, _ => false

def lt : ExactFloat → ExactFloat → Bool
  | num p, num q => p < q
  | num _, infinity => true
  | negInfinity, num _ => true
  | negInfinity, infinity => true
  | _, _ => false

def le (x y : ExactFloat) : Bool := x.lt y || x.eq y

def neg : ExactFloat → ExactFloat
  | num q => num (-q)
  | infinity => negInfinity
  | negInfinity => infinity
  | nan => nan

def add : ExactFloat → ExactFloat → ExactFloat
  | num p, num q => num (p + q)
  | nan, _ => nan
  | _, nan => nan
  | infinity, negInfinity => nan
  | negInfinity, infinity => nan
  | infinity, _ => infinity
  | _, infinity => infinity
  | negInfinity, _ => negInfinity
  | _, negInfinity => negInfinity

def sub (x y : ExactFloat) : ExactFloat := x.add y.neg

/-- Fails unless `lo ≤ hi`. -/
def clamp (x lo hi : ExactFloat) : Option ExactFloat :=
  if lo.le hi then
    let x := if x.lt lo then lo else x
    some (if hi.lt x then hi else x)
  else none

@[simp] theorem isFinite_num (q : ℚ) : (num q).isFinite = true := rfl

@[simp] theorem eq_num (p q : ℚ) : (num p).eq (num q) = decide (p = q) := rfl

@[simp] theorem lt_num (p q : ℚ) : (num p).lt (num q) = decide (p < q) := rfl

@[simp] theorem le_num (p q : ℚ) : (num p).le (num q) = decide (p ≤ q) := by
  simp [le, le_iff_lt_or_eq]

@[simp] theorem add_num (p q : ℚ) : (num p).add (num q) = num (p + q) := rfl

@[simp] theorem sub_num (p q : ℚ) : (num p).sub (num q) = num (p - q) := by
  simp [sub, neg, sub_eq_add_neg]

/-- A comparison with a number is one of values. -/
theorem eq_num_iff (x : ExactFloat) (q : ℚ) : x.eq (num q) = true ↔ x = num q := by
  cases x <;> simp [eq]

theorem eq_num_false_iff (x : ExactFloat) (q : ℚ) : x.eq (num q) = false ↔ ¬x = num q := by
  rw [← eq_num_iff, Bool.not_eq_true]

theorem exists_num_of_isFinite {x : ExactFloat} (h : x.isFinite = true) : ∃ q, x = num q := by
  cases x with
  | num q => exact ⟨q, rfl⟩
  | infinity => simp [isFinite] at h
  | negInfinity => simp [isFinite] at h
  | nan => simp [isFinite] at h

/-! ## Section 2: Clamping -/

/-- `q` inside the bounds. -/
def clip (q lo hi : ℚ) : ℚ := min (max q lo) hi

theorem le_clip {q lo hi : ℚ} (h : lo ≤ hi) : lo ≤ clip q lo hi :=
  le_min (le_max_right q lo) h

theorem clip_le (q lo hi : ℚ) : clip q lo hi ≤ hi := min_le_right _ _

theorem clip_of_mem {q lo hi : ℚ} (hlo : lo ≤ q) (hhi : q ≤ hi) : clip q lo hi = q := by
  unfold clip
  rw [max_eq_left hlo, min_eq_left hhi]

theorem clip_le_iff {q lo hi b : ℚ} (hlo : lo ≤ b) (hhi : b < hi) : clip q lo hi ≤ b ↔ q ≤ b := by
  unfold clip
  rw [min_le_iff, max_le_iff]
  constructor
  · rintro (h | h)
    · exact h.1
    · exact absurd hhi (not_lt.2 h)
  · intro h
    exact Or.inl ⟨h, hlo⟩

theorem raise_num (q lo : ℚ) :
    (if (num q).lt (num lo) then num lo else num q) = num (max q lo) := by
  rw [lt_num]
  by_cases h : q < lo
  · rw [if_pos (by simpa using h), max_eq_right h.le]
  · rw [if_neg (by simpa using h), max_eq_left (not_lt.1 h)]

theorem lower_num (q hi : ℚ) :
    (if (num hi).lt (num q) then num hi else num q) = num (min q hi) := by
  rw [lt_num]
  by_cases h : hi < q
  · rw [if_pos (by simpa using h), min_eq_right h.le]
  · rw [if_neg (by simpa using h), min_eq_left (not_lt.1 h)]

theorem clamp_num {q lo hi : ℚ} (h : lo ≤ hi) :
    (num q).clamp (num lo) (num hi) = some (num (clip q lo hi)) := by
  unfold clamp clip
  rw [if_pos (by simpa using h)]
  dsimp only
  rw [raise_num, lower_num]

/-! ## Section 3: Ranges with a fallback -/

/-- A number from `lo` to `hi`. -/
def Between (x : ExactFloat) (lo hi : ℚ) : Prop := ∃ q, x = num q ∧ lo ≤ q ∧ q ≤ hi

theorem between_num {q lo hi : ℚ} : Between (num q) lo hi ↔ lo ≤ q ∧ q ≤ hi := by
  constructor
  · rintro ⟨p, hp, h⟩
    cases hp
    exact h
  · intro h
    exact ⟨q, rfl, h⟩

theorem Between.isFinite {x : ExactFloat} {lo hi : ℚ} (h : Between x lo hi) : x.isFinite = true := by
  obtain ⟨q, rfl, -⟩ := h
  rfl

/-- `x` inside the bounds, or the fallback as it is. -/
def settled (x : ExactFloat) (fallback lo hi : ℚ) : ℚ :=
  match x with
  | num q => clip q lo hi
  | _ => fallback

@[simp] theorem settled_num (q fallback lo hi : ℚ) :
    settled (num q) fallback lo hi = clip q lo hi := rfl

theorem settled_of_not_isFinite {x : ExactFloat} (h : x.isFinite = false) (fallback lo hi : ℚ) :
    settled x fallback lo hi = fallback := by
  cases x with
  | num q => simp at h
  | infinity => rfl
  | negInfinity => rfl
  | nan => rfl

theorem settled_mem {fallback lo hi : ℚ} (hlo : lo ≤ fallback) (hhi : fallback ≤ hi)
    (x : ExactFloat) : lo ≤ settled x fallback lo hi ∧ settled x fallback lo hi ≤ hi := by
  by_cases h : x.isFinite = true
  · obtain ⟨q, rfl⟩ := exists_num_of_isFinite h
    exact ⟨le_clip (hlo.trans hhi), clip_le q lo hi⟩
  · rw [settled_of_not_isFinite (Bool.not_eq_true _ ▸ h)]
    exact ⟨hlo, hhi⟩

theorem between_settled {fallback lo hi : ℚ} (hlo : lo ≤ fallback) (hhi : fallback ≤ hi)
    (x : ExactFloat) : Between (num (settled x fallback lo hi)) lo hi :=
  between_num.2 (settled_mem hlo hhi x)

/-- What is in its range is kept. -/
theorem Between.settled_eq {x : ExactFloat} {lo hi : ℚ} (h : Between x lo hi) (fallback : ℚ) :
    num (settled x fallback lo hi) = x := by
  obtain ⟨q, rfl, hlo, hhi⟩ := h
  rw [settled_num, clip_of_mem hlo hhi]

end ExactFloat
