import Mathlib.Order.Basic

/-!
The loop of a lower-bound binary search over the indexes `[low, high)` of a sequence of length
`n`: look at the middle of the range, keep the left half when the test holds there and the right
half when it does not. The test may fail, and the search then fails with it. When the test does
not fail and holds from some index on, the search returns the first index where it holds.
-/
namespace BinarySearch

variable {ε : Type} {n : Nat}

def lowerBound (test : Fin n → Except ε Bool) (low high : Nat) (bound : high ≤ n) : Except ε Nat :=
  if lt : low < high then
    match test ⟨(low + high) / 2, by omega⟩ with
    | .error err => .error err
    | .ok true => lowerBound test low ((low + high) / 2) (by omega)
    | .ok false => lowerBound test ((low + high) / 2 + 1) high bound
  else .ok low
termination_by high - low

structure Inv (holds : Fin n → Bool) (low high : Nat) : Prop where
  le : low ≤ high
  le_length : high ≤ n
  before : ∀ i : Fin n, i.val < low → holds i = false
  after : ∀ i : Fin n, high ≤ i.val → holds i = true

def Monotone (holds : Fin n → Bool) : Prop := ∀ i j : Fin n, i ≤ j → holds i = true → holds j = true

variable {holds : Fin n → Bool}

theorem inv_start : Inv holds 0 n :=
  ⟨Nat.zero_le n, Nat.le_refl n, fun _ below => absurd below (Nat.not_lt_zero _),
    fun i after => absurd i.isLt (Nat.not_lt.2 after)⟩

theorem Inv.left {low high : Nat} (inv : Inv holds low high) (mono : Monotone holds) (middle : Fin n)
    (inside : low ≤ middle.val) (holdsMiddle : holds middle = true) : Inv holds low middle.val :=
  ⟨inside, by omega, inv.before, fun i after => mono middle i (Fin.le_def.2 after) holdsMiddle⟩

theorem Inv.right {low high : Nat} (inv : Inv holds low high) (mono : Monotone holds) (middle : Fin n)
    (inside : middle.val < high) (failsMiddle : holds middle = false) : Inv holds (middle.val + 1) high := by
  refine ⟨inside, inv.le_length, fun i below => ?_, inv.after⟩
  cases holdsI : holds i
  · rfl
  · have holdsMiddle := mono i middle (Fin.le_def.2 (by omega)) holdsI
    rw [failsMiddle] at holdsMiddle
    cases holdsMiddle

theorem Inv.holds_eq {k : Nat} (inv : Inv holds k k) (i : Fin n) : holds i = decide (k ≤ i.val) := by
  by_cases after : k ≤ i.val
  · rw [inv.after i after, decide_eq_true after]
  · rw [inv.before i (by omega), decide_eq_false after]

theorem lowerBound_eq_ok {test : Fin n → Except ε Bool} (answers : ∀ i, test i = .ok (holds i))
    (mono : Monotone holds) {low high : Nat} (bound : high ≤ n) (inv : Inv holds low high) :
    ∃ k, lowerBound test low high bound = .ok k ∧ Inv holds k k := by
  fun_induction lowerBound test low high bound with
  | case1 low high bound lt err failed =>
    rw [answers] at failed
    cases failed
  | case2 low high bound lt holdsMiddle ih =>
    rw [answers] at holdsMiddle
    exact ih (inv.left mono ⟨(low + high) / 2, by omega⟩ (by simp; omega)
      (Except.ok.inj holdsMiddle))
  | case3 low high bound lt failsMiddle ih =>
    rw [answers] at failsMiddle
    exact ih (inv.right mono ⟨(low + high) / 2, by omega⟩ (by simp; omega)
      (Except.ok.inj failsMiddle))
  | case4 low high bound notLt =>
    have same : high = low := by have := inv.le; omega
    subst same
    exact ⟨high, rfl, inv⟩

end BinarySearch
