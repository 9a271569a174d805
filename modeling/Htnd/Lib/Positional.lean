import Mathlib.Data.List.Basic
import Mathlib.Data.Nat.Bitwise

/-!
Numbers written most significant digit first: the `w` low bits of a number as a list of bits, and
its `k` low digits in a base. Splitting a width splits the bits, the bits of a number below
`2 ^ w` determine it, and the digits read back, from the left, give the number.
-/
namespace Positional

def bitsOf : Nat → Nat → List Bool
  | 0, _ => []
  | w + 1, x => x.testBit w :: bitsOf w x

@[simp] theorem length_bitsOf (w x : Nat) : (bitsOf w x).length = w := by
  induction w with
  | zero => rfl
  | succ w ih => simp [bitsOf, ih]

@[simp] theorem length_flatMap_bitsOf {α : Type} (w : Nat) (f : α → Nat) (l : List α) :
    (l.flatMap fun a => bitsOf w (f a)).length = w * l.length := by
  induction l with
  | nil => rfl
  | cons a l ih => simp only [List.flatMap_cons, List.length_append, length_bitsOf, ih,
      List.length_cons, Nat.mul_succ, Nat.add_comm]

theorem bitsOf_zero_width (x : Nat) : bitsOf 0 x = [] := rfl

theorem bitsOf_add (a b x : Nat) : bitsOf (a + b) x = bitsOf a (x / 2 ^ b) ++ bitsOf b x := by
  induction a with
  | zero => simp [bitsOf]
  | succ a ih =>
    rw [Nat.add_right_comm, bitsOf, ih, bitsOf, Nat.testBit_div_two_pow]
    rfl

theorem bitsOf_mod (w x : Nat) : bitsOf w (x % 2 ^ w) = bitsOf w x := by
  induction w generalizing x with
  | zero => rfl
  | succ w ih =>
    have low : bitsOf w (x % 2 ^ (w + 1)) = bitsOf w x := by
      rw [← ih (x % 2 ^ (w + 1)), Nat.mod_mod_of_dvd _ (Nat.pow_dvd_pow 2 (Nat.le_succ w)), ih]
    simp only [bitsOf, low, Nat.testBit_mod_two_pow, Nat.lt_succ_self, decide_true,
      Bool.true_and]

theorem bitsOf_mul_add {k y : Nat} (small : y < 2 ^ k) (w x : Nat) :
    bitsOf (w + k) (x * 2 ^ k + y) = bitsOf w x ++ bitsOf k y := by
  have high : (x * 2 ^ k + y) / 2 ^ k = x := by
    rw [Nat.mul_comm, Nat.mul_add_div (Nat.two_pow_pos k), Nat.div_eq_of_lt small, Nat.add_zero]
  have low : (x * 2 ^ k + y) % 2 ^ k = y := by
    rw [Nat.mul_comm, Nat.mul_add_mod, Nat.mod_eq_of_lt small]
  rw [bitsOf_add, high, ← bitsOf_mod k, low]

theorem bitsOf_zero (w : Nat) : bitsOf w 0 = List.replicate w false := by
  induction w with
  | zero => rfl
  | succ w ih => simp [bitsOf, ih, List.replicate_succ]

theorem eq_of_bitsOf_eq : ∀ {w x y : Nat}, x < 2 ^ w → y < 2 ^ w → bitsOf w x = bitsOf w y → x = y
  | 0, x, y, xSmall, ySmall, _ => by
    simp only [Nat.pow_zero] at xSmall ySmall
    omega
  | w + 1, x, y, xSmall, ySmall, same => by
    obtain ⟨top, rest⟩ := List.cons.inj same
    have low : x % 2 ^ w = y % 2 ^ w :=
      eq_of_bitsOf_eq (Nat.mod_lt _ (Nat.two_pow_pos w)) (Nat.mod_lt _ (Nat.two_pow_pos w))
        (by rw [bitsOf_mod, bitsOf_mod]; exact rest)
    have high : x / 2 ^ w = y / 2 ^ w := by
      have xHigh : x / 2 ^ w < 2 := Nat.div_lt_of_lt_mul (by rw [← Nat.pow_succ]; exact xSmall)
      have yHigh : y / 2 ^ w < 2 := Nat.div_lt_of_lt_mul (by rw [← Nat.pow_succ]; exact ySmall)
      have bits : (x / 2 ^ w).testBit 0 = (y / 2 ^ w).testBit 0 := by
        rw [Nat.testBit_div_two_pow, Nat.testBit_div_two_pow, Nat.zero_add]
        exact top
      simp only [Nat.testBit_zero, decide_eq_decide] at bits
      generalize x / 2 ^ w = p at xHigh bits ⊢
      generalize y / 2 ^ w = q at yHigh bits ⊢
      omega
    rw [← Nat.div_add_mod x (2 ^ w), ← Nat.div_add_mod y (2 ^ w), high, low]

theorem eq_of_flatMap_bitsOf_eq {w : Nat} (positive : 0 < w) :
    ∀ {xs ys : List Nat}, (∀ x ∈ xs, x < 2 ^ w) → (∀ y ∈ ys, y < 2 ^ w) →
      xs.flatMap (bitsOf w) = ys.flatMap (bitsOf w) → xs = ys
  | [], [], _, _, _ => rfl
  | [], y :: ys, _, _, same => by
    have := congrArg List.length same
    simp at this
    omega
  | x :: xs, [], _, _, same => by
    have := congrArg List.length same
    simp at this
    omega
  | x :: xs, y :: ys, xSmall, ySmall, same => by
    rw [List.flatMap_cons, List.flatMap_cons] at same
    obtain ⟨first, rest⟩ := List.append_inj same (by simp)
    rw [eq_of_bitsOf_eq (xSmall x List.mem_cons_self) (ySmall y List.mem_cons_self) first,
      eq_of_flatMap_bitsOf_eq positive (fun x mem => xSmall x (List.mem_cons_of_mem _ mem))
        (fun y mem => ySmall y (List.mem_cons_of_mem _ mem)) rest]

theorem mul_two_pow_xor_eq_add {k v : Nat} (small : v < 2 ^ k) (a : Nat) :
    a * 2 ^ k ^^^ v = a * 2 ^ k + v := by
  apply Nat.eq_of_testBit_eq
  intro j
  rw [Nat.testBit_xor, Nat.mul_comm, Nat.testBit_two_pow_mul_add _ small, Nat.testBit_two_pow_mul]
  by_cases low : j < k
  · simp [low, Nat.not_le_of_lt low]
  · have high : v.testBit j = false :=
      Nat.testBit_lt_two_pow (lt_of_lt_of_le small (Nat.pow_le_pow_right (by decide) (by omega)))
    simp [low, high, Nat.le_of_not_lt low]

def digitsOf (w : Nat) : Nat → Nat → List Nat
  | 0, _ => []
  | k + 1, x => digitsOf w k (x >>> w) ++ [x &&& (2 ^ w - 1)]

@[simp] theorem length_digitsOf (w k x : Nat) : (digitsOf w k x).length = k := by
  induction k generalizing x with
  | zero => rfl
  | succ k ih => simp [digitsOf, ih]

theorem digitsOf_eq_map_range (w k x : Nat) :
    digitsOf w k x = (List.range k).map fun i => (x >>> (w * (k - 1 - i))) &&& (2 ^ w - 1) := by
  induction k generalizing x with
  | zero => rfl
  | succ k ih =>
    rw [digitsOf, ih, List.range_succ, List.map_append, List.map_singleton,
      Nat.add_sub_cancel, Nat.sub_self, Nat.mul_zero, Nat.shiftRight_zero]
    congr 1
    apply List.map_congr_left
    intro i mem
    have lt : i < k := List.mem_range.1 mem
    rw [← Nat.shiftRight_add, show w + w * (k - 1 - i) = w * (k - i) by
      rw [Nat.add_comm, ← Nat.mul_succ]; congr 1; omega]

theorem digitsOf_lt {w k x d : Nat} (mem : d ∈ digitsOf w k x) : d < 2 ^ w := by
  induction k generalizing x with
  | zero => simp [digitsOf] at mem
  | succ k ih =>
    rcases List.mem_append.1 mem with high | last
    · exact ih high
    · rw [List.mem_singleton.1 last, Nat.and_two_pow_sub_one_eq_mod]
      exact Nat.mod_lt _ (Nat.two_pow_pos w)

end Positional
