import Mathlib

/-!
IEEE 754 binary64 arithmetic on finite nonnegative values, as a `float64` conversion or quotient
computes it: the exact result rounded to 53 significant bits, to nearest with ties to even, and
below `2 ^ -1022` to a multiple of `2 ^ -1074`. A value is a significand and an exponent of two;
values compare as the rationals they denote, through integers, so that comparisons evaluate.
Results that overflow to infinity, and quotients by zero, are not modelled.
-/
namespace Binary64

/-- `significand * 2 ^ exponent`. -/
structure Value where
  significand : ℕ
  exponent : ℤ
  deriving DecidableEq, Repr

namespace Value

def toRat (v : Value) : ℚ := v.significand * 2 ^ v.exponent

/-- The two significands scaled to the smaller exponent. -/
def aligned (a b : Value) : ℕ × ℕ :=
  (a.significand * 2 ^ (a.exponent - min a.exponent b.exponent).toNat,
    b.significand * 2 ^ (b.exponent - min a.exponent b.exponent).toNat)

/-- The float comparison `a < b`. -/
def lt (a b : Value) : Bool := decide ((aligned a b).1 < (aligned a b).2)

/-- The float comparison `a == b`. -/
def beq (a b : Value) : Bool := (aligned a b).1 == (aligned a b).2

theorem toRat_eq_scaled (v : Value) {m : ℤ} (le : m ≤ v.exponent) :
    v.toRat = (v.significand * 2 ^ (v.exponent - m).toNat : ℕ) * (2 : ℚ) ^ m := by
  have split : (2 : ℚ) ^ v.exponent = 2 ^ (v.exponent - m).toNat * 2 ^ m := by
    rw [← zpow_natCast, ← zpow_add₀ two_ne_zero, Int.toNat_of_nonneg (by omega), sub_add_cancel]
  rw [toRat, split]
  push_cast
  ring

theorem toRat_aligned (a b : Value) :
    a.toRat = (aligned a b).1 * (2 : ℚ) ^ min a.exponent b.exponent ∧
      b.toRat = (aligned a b).2 * (2 : ℚ) ^ min a.exponent b.exponent :=
  ⟨toRat_eq_scaled a (min_le_left _ _), toRat_eq_scaled b (min_le_right _ _)⟩

theorem lt_iff (a b : Value) : lt a b = true ↔ a.toRat < b.toRat := by
  obtain ⟨aIs, bIs⟩ := toRat_aligned a b
  rw [aIs, bIs, mul_lt_mul_iff_of_pos_right (zpow_pos two_pos _), Nat.cast_lt, lt, decide_eq_true_iff]

theorem beq_iff (a b : Value) : beq a b = true ↔ a.toRat = b.toRat := by
  obtain ⟨aIs, bIs⟩ := toRat_aligned a b
  rw [aIs, bIs, mul_left_inj' (zpow_ne_zero _ two_ne_zero), Nat.cast_inj, beq, beq_iff_eq]

end Value

/-- `n / d` rounded to the nearest integer, ties to the even one. -/
def divRoundHalfEven (n d : ℕ) : ℕ :=
  if 2 * (n % d) < d then n / d
  else if d < 2 * (n % d) then n / d + 1
  else if n / d % 2 = 0 then n / d else n / d + 1

/-- `⌊log₂ (n * 2 ^ k / d)⌋` for positive `n` and `d`: the difference of the bit lengths, or one
    less when `n / d` falls below the power of two that difference gives. -/
def exponentOf (n d : ℕ) (k : ℤ) : ℤ :=
  if d * 2 ^ n.log2 ≤ n * 2 ^ d.log2 then n.log2 - d.log2 + k else n.log2 - d.log2 - 1 + k

/-- `n * 2 ^ k / d` rounded to binary64, for positive `d`: to 53 bits at the exponent of the
    value, and at `-1022` below it. -/
def roundScaled (n d : ℕ) (k : ℤ) : Value :=
  let u := max (exponentOf n d k) (-1022) - 52
  if u ≤ k then ⟨divRoundHalfEven (n * 2 ^ (k - u).toNat) d, u⟩
  else ⟨divRoundHalfEven n (d * 2 ^ (u - k).toNat), u⟩

/-- `float64(n)` for an unsigned integer `n`. -/
def ofNat (n : ℕ) : Value := roundScaled n 1 0

/-- The quotient `a / b`, for `b` nonzero. -/
def div (a b : Value) : Value := roundScaled a.significand b.significand (a.exponent - b.exponent)

example : ofNat (2 ^ 53 + 1) = ofNat (2 ^ 53) := by decide

example : ofNat (2 ^ 53 + 3) = ⟨2 ^ 52 + 2, 1⟩ := by decide

example : (div (ofNat 1) (ofNat 3)).lt (div (ofNat 2) (ofNat 6)) = false := by decide

end Binary64
