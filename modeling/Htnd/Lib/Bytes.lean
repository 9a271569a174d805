import Mathlib

/-!
Natural numbers as big-endian byte strings: how many bytes a number takes without leading zero
bytes, and the number with its low bytes zeroed. The powers of 256 bound both.
-/
namespace Bytes

def byteLength (m : Nat) : Nat := if m = 0 then 0 else m.log2 / 8 + 1

def dropLowBytes (m s : Nat) : Nat := m / 256 ^ s * 256 ^ s

theorem pow_eq_two_pow (k : Nat) : 256 ^ k = 2 ^ (8 * k) := by
  rw [Nat.pow_mul]

theorem pow256_pos (k : Nat) : 0 < 256 ^ k := Nat.pow_pos (by decide)

@[simp] theorem byteLength_zero : byteLength 0 = 0 := rfl

theorem byteLength_pos {m : Nat} (ne : m ≠ 0) : 0 < byteLength m := by
  simp [byteLength, ne]

theorem lt_pow_byteLength (m : Nat) : m < 256 ^ byteLength m := by
  unfold byteLength
  split
  · rename_i zero
    simp [zero]
  · rename_i ne
    rw [pow_eq_two_pow]
    exact (Nat.log2_lt ne).1 (by omega)

theorem pow_pred_byteLength_le {m : Nat} (ne : m ≠ 0) : 256 ^ (byteLength m - 1) ≤ m := by
  rw [byteLength, if_neg ne, Nat.add_sub_cancel, pow_eq_two_pow]
  exact (Nat.le_log2 ne).1 (by omega)

theorem byteLength_le_of_lt {m k : Nat} (high : m < 256 ^ k) : byteLength m ≤ k := by
  by_cases zero : m = 0
  · simp [zero]
  · rw [pow_eq_two_pow] at high
    have below := (Nat.log2_lt zero).2 high
    rw [byteLength, if_neg zero]
    omega

theorem byteLength_eq_of_le_of_lt {m k : Nat} (low : 256 ^ k ≤ m) (high : m < 256 ^ (k + 1)) :
    byteLength m = k + 1 := by
  have ne : m ≠ 0 := Nat.pos_iff_ne_zero.1 (Nat.lt_of_lt_of_le (pow256_pos k) low)
  rw [pow_eq_two_pow] at low high
  have above := (Nat.le_log2 ne).2 low
  have below := (Nat.log2_lt ne).2 high
  rw [byteLength, if_neg ne]
  omega

@[simp] theorem dropLowBytes_zero (m : Nat) : dropLowBytes m 0 = m := by
  simp [dropLowBytes]

theorem dropLowBytes_le (m s : Nat) : dropLowBytes m s ≤ m := Nat.div_mul_le_self m _

theorem sub_dropLowBytes_lt (m s : Nat) : m - dropLowBytes m s < 256 ^ s := by
  have split := Nat.div_add_mod m (256 ^ s)
  have rest := Nat.mod_lt m (pow256_pos s)
  unfold dropLowBytes
  rw [Nat.mul_comm]
  omega

theorem dropLowBytes_div (m s : Nat) : dropLowBytes m s / 256 ^ s = m / 256 ^ s :=
  Nat.mul_div_cancel _ (pow256_pos s)

theorem le_dropLowBytes_iff {a m s : Nat} (dvd : 256 ^ s ∣ a) :
    a ≤ dropLowBytes m s ↔ a ≤ m := by
  constructor
  · intro le
    exact Nat.le_trans le (dropLowBytes_le m s)
  · intro le
    obtain ⟨c, rfl⟩ := dvd
    have quotient : c ≤ m / 256 ^ s := (Nat.le_div_iff_mul_le (pow256_pos s)).2 (by
      rw [Nat.mul_comm]
      exact le)
    unfold dropLowBytes
    rw [Nat.mul_comm (256 ^ s)]
    exact Nat.mul_le_mul_right _ quotient

theorem pow_pred_byteLength_le_dropLowBytes {m s : Nat} (ne : m ≠ 0) (fewer : s < byteLength m) :
    256 ^ (byteLength m - 1) ≤ dropLowBytes m s := by
  have dvd : 256 ^ s ∣ 256 ^ (byteLength m - 1) := Nat.pow_dvd_pow 256 (by omega)
  exact (le_dropLowBytes_iff dvd).2 (pow_pred_byteLength_le ne)

theorem byteLength_dropLowBytes {m s : Nat} (ne : m ≠ 0) (fewer : s < byteLength m) :
    byteLength (dropLowBytes m s) = byteLength m := by
  have low := pow_pred_byteLength_le_dropLowBytes ne fewer
  have high := Nat.lt_of_le_of_lt (dropLowBytes_le m s) (lt_pow_byteLength m)
  have length := byteLength_pos ne
  rw [show byteLength m = byteLength m - 1 + 1 by omega] at high ⊢
  exact byteLength_eq_of_le_of_lt low high

theorem mul_pow_div_pow_of_le (m : Nat) {k l : Nat} (le : k ≤ l) :
    m * 256 ^ k / 256 ^ l = m / 256 ^ (l - k) := by
  rw [show l = l - k + k by omega, Nat.pow_add, Nat.mul_div_mul_right _ _ (pow256_pos k),
    Nat.add_sub_cancel]

theorem mul_pow_div_pow_of_ge (m : Nat) {k l : Nat} (ge : l ≤ k) :
    m * 256 ^ k / 256 ^ l = m * 256 ^ (k - l) := by
  rw [show k = k - l + l by omega, Nat.pow_add, ← Nat.mul_assoc,
    Nat.mul_div_cancel _ (pow256_pos l), Nat.add_sub_cancel]

end Bytes
