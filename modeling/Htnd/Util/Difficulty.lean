import Htnd.Lib.Bytes
import Mathlib.Data.Int.Basic
import Mathlib.Data.Nat.Bitwise

/-!
The compact form of difficulty targets (util/difficulty): a base-256 float in 32 bits, with an
8-bit exponent, a sign bit and a 23-bit mantissa. BigToCompact keeps the leading bytes of a
magnitude and CompactToBig puts them back in place. For a nonnegative number the round trip
zeroes every byte below the two or three leading bytes kept, and encoding the result again gives
the same compact form.

Go's big.Int is modelled by Int. Its Rsh is an arithmetic shift, rounding toward minus
infinity, as Int's shift is.
-/
namespace Difficulty
open Bytes

def compactToBig (compact : UInt32) : Int :=
  let mantissa := compact &&& 0x007fffff
  let isNegative := compact &&& 0x00800000 ≠ 0
  let exponent := (compact >>> 24).toNat
  let destination : Int :=
    if exponent ≤ 3 then ((mantissa >>> UInt32.ofNat (8 * (3 - exponent))).toNat : Int)
    else ((mantissa.toNat <<< (8 * (exponent - 3)) : Nat) : Int)
  if isNegative then -destination else destination

def leadingMantissa (n : Int) (exponent : Nat) : UInt32 :=
  if exponent ≤ 3 then UInt32.ofNat n.natAbs <<< UInt32.ofNat (8 * (3 - exponent))
  -- for a negative n the shift rounds toward minus infinity, so the magnitude rounds up
  else UInt32.ofNat (n >>> (8 * (exponent - 3))).natAbs

def bigToCompact (n : Int) : UInt32 :=
  if n = 0 then 0
  else
    let exponent := byteLength n.natAbs
    let mantissa := leadingMantissa n exponent
    -- a mantissa that would set the sign bit moves down a byte into the exponent
    let signBitSet := mantissa &&& 0x00800000 ≠ 0
    let mantissa := if signBitSet then mantissa >>> 8 else mantissa
    let exponent := if signBitSet then exponent + 1 else exponent
    let compact := UInt32.ofNat (exponent <<< 24) ||| mantissa
    if n < 0 then compact ||| 0x00800000 else compact

def keptBytes (m : Nat) : Nat := if 128 * 256 ^ (byteLength m - 1) ≤ m then 2 else 3

def droppedBytes (m : Nat) : Nat := byteLength m - keptBytes m

def compactMantissa (m : Nat) : Nat := m * 256 ^ keptBytes m / 256 ^ byteLength m

def compactExponent (m : Nat) : Nat := byteLength m + 3 - keptBytes m

theorem two_le_keptBytes (m : Nat) : 2 ≤ keptBytes m := by
  unfold keptBytes
  split <;> omega

theorem keptBytes_le_three (m : Nat) : keptBytes m ≤ 3 := by
  unfold keptBytes
  split <;> omega

theorem droppedBytes_lt_byteLength {m : Nat} (pos : 0 < m) : droppedBytes m < byteLength m := by
  have length := byteLength_pos (Nat.pos_iff_ne_zero.1 pos)
  have kept := two_le_keptBytes m
  unfold droppedBytes
  omega

/-! ## Bit fields of a 32-bit word -/

theorem and_signBit_eq_zero_iff (x : UInt32) :
    x &&& 0x00800000 = 0 ↔ x.toNat / 2 ^ 23 % 2 = 0 := by
  rw [← UInt32.toNat_inj, UInt32.toNat_and, show (0x00800000 : UInt32).toNat = 2 ^ 23 from rfl,
    Nat.and_two_pow, Nat.testBit_eq_decide_div_mod_eq]
  simp

theorem toNat_pack {e : Nat} {mantissa : UInt32} (exponent : e < 256)
    (below : mantissa.toNat < 2 ^ 23) :
    (UInt32.ofNat (e <<< 24) ||| mantissa).toNat = e * 2 ^ 24 + mantissa.toNat := by
  have shifted : (UInt32.ofNat (e <<< 24)).toNat = 2 ^ 24 * e := by
    rw [UInt32.toNat_ofNat', Nat.shiftLeft_eq, Nat.mod_eq_of_lt (by omega), Nat.mul_comm]
  rw [UInt32.toNat_or, shifted, ← Nat.two_pow_add_eq_or_of_lt (by omega), Nat.mul_comm]

/-! ## Decoding -/

theorem compactToBig_of_toNat {compact : UInt32} {e mant : Nat} (mantissa : mant < 2 ^ 23)
    (fields : compact.toNat = e * 2 ^ 24 + mant) :
    compactToBig compact = ((mant * 256 ^ e / 256 ^ 3 : Nat) : Int) := by
  have word := compact.toNat_lt
  have low : (compact &&& 0x007fffff).toNat = mant := by
    rw [UInt32.toNat_and, show (0x007fffff : UInt32).toNat = 2 ^ 23 - 1 from rfl,
      Nat.and_two_pow_sub_one_eq_mod, fields]
    omega
  have clear : compact &&& 0x00800000 = 0 := (and_signBit_eq_zero_iff compact).2 (by omega)
  have high : (compact >>> 24).toNat = e := by
    rw [UInt32.toNat_shiftRight, fields, Nat.shiftRight_eq_div_pow]
    simp only [show (24 : UInt32).toNat % 32 = 24 from rfl]
    omega
  simp only [compactToBig, clear, high, ne_eq, not_true_eq_false, if_false]
  split
  · rename_i small
    rw [UInt32.toNat_shiftRight, low, UInt32.toNat_ofNat', Nat.shiftRight_eq_div_pow,
      Nat.mod_eq_of_lt (by omega : 8 * (3 - e) < 2 ^ 32), Nat.mod_eq_of_lt (by omega),
      ← pow_eq_two_pow, mul_pow_div_pow_of_le mant small]
  · rename_i large
    rw [low, Nat.shiftLeft_eq, ← pow_eq_two_pow, mul_pow_div_pow_of_ge mant (by omega)]

/-! ## Encoding a positive number -/

theorem leadingBytes_lt (m : Nat) : m * 256 ^ 3 / 256 ^ byteLength m < 2 ^ 24 := by
  have high := Nat.mul_lt_mul_of_pos_right (lt_pow_byteLength m) (pow256_pos 3)
  rw [Nat.div_lt_iff_lt_mul (pow256_pos _)]
  calc m * 256 ^ 3 < 256 ^ byteLength m * 256 ^ 3 := high
    _ = 2 ^ 24 * 256 ^ byteLength m := by rw [Nat.mul_comm]; rfl

theorem leadingBytes_div (m l : Nat) : m * 256 ^ 3 / 256 ^ l / 256 = m * 256 ^ 2 / 256 ^ l := by
  rw [Nat.div_div_eq_div_mul, pow_succ 256 2, ← Nat.mul_assoc,
    Nat.mul_div_mul_right _ _ (by decide : 0 < 256)]

theorem le_leadingBytes_iff {m : Nat} (pos : 0 < m) :
    2 ^ 23 ≤ m * 256 ^ 3 / 256 ^ byteLength m ↔ keptBytes m = 2 := by
  have length := byteLength_pos (Nat.pos_iff_ne_zero.1 pos)
  have scale : 2 ^ 23 * 256 ^ byteLength m = 128 * 256 ^ (byteLength m - 1) * 256 ^ 3 := by
    obtain ⟨k, length⟩ : ∃ k, byteLength m = k + 1 := ⟨byteLength m - 1, by omega⟩
    rw [length, Nat.add_sub_cancel, pow_succ 256 k]
    omega
  rw [Nat.le_div_iff_mul_le (pow256_pos _), scale, Nat.mul_le_mul_right_iff (pow256_pos 3),
    keptBytes]
  split <;> simp_all

theorem toNat_leadingMantissa (m : Nat) :
    (leadingMantissa m (byteLength m)).toNat = m * 256 ^ 3 / 256 ^ byteLength m := by
  have fits := leadingBytes_lt m
  unfold leadingMantissa
  split
  · rename_i short
    have small : m < 2 ^ 32 := Nat.lt_of_lt_of_le (lt_pow_byteLength m)
      (Nat.le_trans (Nat.pow_le_pow_right (by decide) short) (by decide))
    rw [mul_pow_div_pow_of_ge m short] at fits ⊢
    rw [UInt32.toNat_shiftLeft, UInt32.toNat_ofNat', UInt32.toNat_ofNat', Int.natAbs_natCast,
      Nat.mod_eq_of_lt small,
      Nat.mod_eq_of_lt (by omega : 8 * (3 - byteLength m) < 2 ^ 32),
      Nat.mod_eq_of_lt (by omega : 8 * (3 - byteLength m) < 32), Nat.shiftLeft_eq,
      ← pow_eq_two_pow, Nat.mod_eq_of_lt (by omega)]
  · rename_i long
    have shifted : ((m : Int) >>> (8 * (byteLength m - 3))).natAbs = m / 256 ^ (byteLength m - 3) := by
      rw [show ((m : Int) >>> (8 * (byteLength m - 3))) = ((m >>> (8 * (byteLength m - 3)) : Nat) : Int)
        from rfl, Int.natAbs_natCast, Nat.shiftRight_eq_div_pow, pow_eq_two_pow]
    rw [mul_pow_div_pow_of_le m (by omega)] at fits ⊢
    rw [shifted, UInt32.toNat_ofNat', Nat.mod_eq_of_lt (by omega)]

theorem leadingMantissa_signBit_iff {m : Nat} (pos : 0 < m) :
    leadingMantissa m (byteLength m) &&& 0x00800000 ≠ 0 ↔ keptBytes m = 2 := by
  have fits := leadingBytes_lt m
  rw [ne_eq, and_signBit_eq_zero_iff, toNat_leadingMantissa m, ← le_leadingBytes_iff pos]
  generalize m * 256 ^ 3 / 256 ^ byteLength m = lead at fits ⊢
  omega

theorem compactMantissa_lt {m : Nat} (pos : 0 < m) : compactMantissa m < 2 ^ 23 := by
  have fits := leadingBytes_lt m
  have lead := le_leadingBytes_iff pos
  unfold compactMantissa
  by_cases two : keptBytes m = 2
  · rw [two, ← leadingBytes_div]
    generalize m * 256 ^ 3 / 256 ^ byteLength m = lead at fits ⊢
    omega
  · have three : keptBytes m = 3 := by have := keptBytes_le_three m; have := two_le_keptBytes m; omega
    rw [three]
    omega

theorem toNat_bigToCompact_of_pos {m : Nat} (pos : 0 < m) (short : byteLength m < 255) :
    (bigToCompact m).toNat = compactExponent m * 2 ^ 24 + compactMantissa m := by
  have lead := toNat_leadingMantissa m
  have below := compactMantissa_lt pos
  have kept := two_le_keptBytes m
  simp only [bigToCompact, Int.natCast_eq_zero, Nat.pos_iff_ne_zero.1 pos, if_false,
    Int.natAbs_natCast, Int.not_lt.2 (Int.natCast_nonneg m)]
  by_cases two : keptBytes m = 2
  · have set := (leadingMantissa_signBit_iff pos).2 two
    have moved : (leadingMantissa m (byteLength m) >>> 8).toNat = compactMantissa m := by
      rw [UInt32.toNat_shiftRight, lead, compactMantissa, two, Nat.shiftRight_eq_div_pow,
        show (8 : UInt32).toNat % 32 = 8 from rfl, leadingBytes_div]
    rw [if_pos set, if_pos set]
    rw [toNat_pack (by omega) (by omega), moved, compactExponent, two]
    omega
  · have clear : ¬leadingMantissa m (byteLength m) &&& 0x00800000 ≠ 0 :=
      fun set => two ((leadingMantissa_signBit_iff pos).1 set)
    have three : keptBytes m = 3 := by have := keptBytes_le_three m; omega
    have same : (leadingMantissa m (byteLength m)).toNat = compactMantissa m := by
      rw [lead, compactMantissa, three]
    rw [if_neg clear, if_neg clear]
    rw [toNat_pack (by omega) (by omega), same, compactExponent, three]
    omega

/-! ## The round trip -/

theorem mul_pow_div_pow_scale (m : Nat) {k l : Nat} (kept : k ≤ 3) :
    m * 256 ^ k / 256 ^ l * 256 ^ (l + 3 - k) / 256 ^ 3 = dropLowBytes m (l - k) := by
  by_cases le : k ≤ l
  · rw [mul_pow_div_pow_of_le m le, show l + 3 - k = l - k + 3 by omega, Nat.pow_add,
      ← Nat.mul_assoc, Nat.mul_div_cancel _ (pow256_pos 3)]
    rfl
  · rw [mul_pow_div_pow_of_ge m (by omega), Nat.mul_assoc, ← Nat.pow_add,
      show k - l + (l + 3 - k) = 3 by omega, Nat.mul_div_cancel _ (pow256_pos 3),
      show l - k = 0 by omega, dropLowBytes_zero]

theorem compactToBig_bigToCompact_of_pos {m : Nat} (pos : 0 < m) (short : byteLength m < 255) :
    compactToBig (bigToCompact m) = (dropLowBytes m (droppedBytes m) : Nat) := by
  rw [compactToBig_of_toNat (compactMantissa_lt pos) (toNat_bigToCompact_of_pos pos short),
    compactMantissa, compactExponent, mul_pow_div_pow_scale m (keptBytes_le_three m)]
  rfl

theorem keptBytes_dropLowBytes {m : Nat} (pos : 0 < m) :
    keptBytes (dropLowBytes m (droppedBytes m)) = keptBytes m := by
  have fewer := droppedBytes_lt_byteLength pos
  have kept := two_le_keptBytes m
  have dvd : 256 ^ droppedBytes m ∣ 128 * 256 ^ (byteLength m - 1) :=
    Dvd.dvd.mul_left (Nat.pow_dvd_pow 256 (by unfold droppedBytes; omega)) 128
  unfold keptBytes
  rw [byteLength_dropLowBytes (Nat.pos_iff_ne_zero.1 pos) fewer]
  simp only [le_dropLowBytes_iff dvd]

theorem compactMantissa_dropLowBytes {m : Nat} (pos : 0 < m) :
    compactMantissa (dropLowBytes m (droppedBytes m)) = compactMantissa m := by
  have fewer := droppedBytes_lt_byteLength pos
  unfold compactMantissa
  rw [keptBytes_dropLowBytes pos, byteLength_dropLowBytes (Nat.pos_iff_ne_zero.1 pos) fewer]
  by_cases le : keptBytes m ≤ byteLength m
  · rw [mul_pow_div_pow_of_le _ le, mul_pow_div_pow_of_le _ le]
    exact dropLowBytes_div m (droppedBytes m)
  · have none : droppedBytes m = 0 := by unfold droppedBytes; omega
    rw [none, dropLowBytes_zero]

theorem bigToCompact_dropLowBytes {m : Nat} (pos : 0 < m) (short : byteLength m < 255) :
    bigToCompact (dropLowBytes m (droppedBytes m) : Nat) = bigToCompact m := by
  have fewer := droppedBytes_lt_byteLength pos
  have same := byteLength_dropLowBytes (Nat.pos_iff_ne_zero.1 pos) fewer
  have leading := pow_pred_byteLength_le_dropLowBytes (Nat.pos_iff_ne_zero.1 pos) fewer
  have stillPos := Nat.lt_of_lt_of_le (pow256_pos _) leading
  apply UInt32.toNat_inj.1
  rw [toNat_bigToCompact_of_pos stillPos (by omega), toNat_bigToCompact_of_pos pos short,
    compactExponent, compactExponent, same, keptBytes_dropLowBytes pos,
    compactMantissa_dropLowBytes pos]

theorem byteLength_lt_of_lt {m : Nat} (small : (m : Int) < 256 ^ 253) : byteLength m < 255 := by
  have := byteLength_le_of_lt (m := m) (by exact_mod_cast small)
  omega

theorem compactToBig_bigToCompact_between {n : Int} (nonneg : 0 ≤ n) (small : n < 256 ^ 253) :
    0 ≤ compactToBig (bigToCompact n) ∧ compactToBig (bigToCompact n) ≤ n ∧
      (0 < n → 0 < compactToBig (bigToCompact n)) := by
  obtain ⟨m, rfl⟩ := Int.eq_ofNat_of_zero_le nonneg
  rcases Nat.eq_zero_or_pos m with zero | pos
  · subst zero
    decide
  have fewer := droppedBytes_lt_byteLength pos
  have leading := pow_pred_byteLength_le_dropLowBytes (Nat.pos_iff_ne_zero.1 pos) fewer
  rw [compactToBig_bigToCompact_of_pos pos (byteLength_lt_of_lt small)]
  refine ⟨Int.natCast_nonneg _, by exact_mod_cast dropLowBytes_le m _, fun _ => ?_⟩
  exact_mod_cast Nat.lt_of_lt_of_le (pow256_pos _) leading

theorem compactToBig_bigToCompact_keeps_leading_bytes (n : Int) (nonneg : 0 ≤ n)
    (small : n < 256 ^ 253) :
    compactToBig (bigToCompact n) = n / 256 ^ droppedBytes n.toNat * 256 ^ droppedBytes n.toNat ∧
    (0 < n → 0 < compactToBig (bigToCompact n)) ∧
    compactToBig (bigToCompact n) ≤ n ∧
    n - compactToBig (bigToCompact n) < 256 ^ droppedBytes n.toNat ∧
    bigToCompact (compactToBig (bigToCompact n)) = bigToCompact n := by
  obtain ⟨m, rfl⟩ := Int.eq_ofNat_of_zero_le nonneg
  rw [Int.toNat_natCast]
  rcases Nat.eq_zero_or_pos m with zero | pos
  · subst zero
    decide
  have short : byteLength m < 255 := by
    have := byteLength_le_of_lt (m := m) (by exact_mod_cast small)
    omega
  have fewer := droppedBytes_lt_byteLength pos
  have leading := pow_pred_byteLength_le_dropLowBytes (Nat.pos_iff_ne_zero.1 pos) fewer
  have below := dropLowBytes_le m (droppedBytes m)
  have lost := sub_dropLowBytes_lt m (droppedBytes m)
  rw [compactToBig_bigToCompact_of_pos pos short, bigToCompact_dropLowBytes pos short]
  refine ⟨?_, ?_, ?_, ?_, rfl⟩
  · simp [dropLowBytes]
  · intro
    exact_mod_cast Nat.lt_of_lt_of_le (pow256_pos _) leading
  · exact_mod_cast below
  · have lostInt : ((m - dropLowBytes m (droppedBytes m) : Nat) : Int) < 256 ^ droppedBytes m := by
      exact_mod_cast lost
    omega

/-- The number 0x800001 keeps two bytes: its round trip is 0x800000. -/
theorem compactToBig_bigToCompact_keeps_leading_bytes_sign_byte :
    (0 : Int) ≤ 8388609 ∧ (8388609 : Int) < 256 ^ 253 ∧ droppedBytes 8388609 = 1 ∧
      compactToBig (bigToCompact 8388609) = 8388608 :=
  ⟨by decide, by decide, by decide,
    (compactToBig_bigToCompact_keeps_leading_bytes 8388609 (by decide) (by decide)).1.trans
      (by decide)⟩

/-- Where the round trip loses more than the bytes below the three leading ones: 0x800001 loses
its third byte to the sign bit, the shift of a negative number rounds its magnitude up, and a
magnitude rounded up to 2^24 carries into the exponent and decodes to zero. -/
theorem compactToBig_bigToCompact_loses_bytes :
    byteLength 8388609 = 3 ∧ compactToBig (bigToCompact 8388609) = 8388608 ∧
    compactToBig (bigToCompact (-16777217)) = -16777472 ∧
    bigToCompact (-4294967041) = 0x05800000 ∧ compactToBig (bigToCompact (-4294967041)) = 0 ∧
    bigToCompact (compactToBig (bigToCompact (-4294967041))) = 0 := by
  decide

end Difficulty
