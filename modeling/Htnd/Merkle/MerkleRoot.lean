import Mathlib
import Htnd.Lib.GoSemantics

/-!
The Merkle root of a list of hashes (utils/merkle/merkle.go). `merkleRoot` lays the whole
tree out in one slice: the leaves first, padded with nil slots to a power of two, then each
level after the one below it, filled by one loop with a moving write offset. The tree
definition builds the same root level by level; the slice is the levels one after another,
and its last slot is the root.

Hashes are of any type, with `hashMerkleBranches` the hash of two concatenated nodes and
`zeroHash` the all-zero hash; a nil pointer of the slice is `none`.
-/
namespace Merkle
open GoSemantics

variable {α : Type} (hashMerkleBranches : α → α → α) (zeroHash : α)

/-- `nextPowerOfTwo`; `uint(math.Log2(float64(n)))` is the floor of the binary logarithm. -/
def nextPowerOfTwo (n : Nat) : Nat :=
  if n &&& (n - 1) = 0 then n else 2 ^ (Nat.log2 n + 1)

def merkleParent (left right : Option α) : Option α :=
  match left, right with
  | none, _ => none
  | some left, none => some (hashMerkleBranches left zeroHash)
  | some left, some right => some (hashMerkleBranches left right)

/-- One turn of the loop of `merkleRoot` over the slice, the index `i` and the write offset. -/
def merkleTurn (arraySize : Nat) :
    List (Option α) × Nat × Nat →
      Option (Except Panic ((List (Option α) × Nat × Nat) ⊕ List (Option α)))
  | (merkles, i, offset) =>
    if i < arraySize - 1 then
      some do
        let left ← sliceIndex merkles i
        let right ← sliceIndex merkles (i + 1)
        let merkles ← sliceAssign merkles offset (merkleParent hashMerkleBranches zeroHash left right)
        pure (.inl (merkles, i + 2, offset + 1))
    else some (.ok (.inr merkles))

def merkleRoot (hashes : List α) : Option (Except Panic (Option α)) :=
  let nextPoT := nextPowerOfTwo hashes.length
  let arraySize := nextPoT * 2 - 1
  let merkles := copySlice (List.replicate arraySize none) 0 (hashes.map some)
  (loop (merkleTurn hashMerkleBranches zeroHash arraySize) (arraySize + 1) (merkles, 0, nextPoT)).map
    fun result => result.bind fun merkles => sliceIndex merkles ((merkles.length : Int) - 1)

/-! ### The tree, level by level -/

def combinePairs : List (Option α) → List (Option α)
  | left :: right :: rest =>
    merkleParent hashMerkleBranches zeroHash left right :: combinePairs rest
  | [left] => [merkleParent hashMerkleBranches zeroHash left none]
  | [] => []

def levelRoot : Nat → List (Option α) → Option α
  | 0, level => level.headD none
  | height + 1, level => levelRoot height (combinePairs hashMerkleBranches zeroHash level)

def treeRoot (hashes : List α) : Option α :=
  levelRoot hashMerkleBranches zeroHash (Nat.clog 2 hashes.length)
    (hashes.map some ++ List.replicate (2 ^ Nat.clog 2 hashes.length - hashes.length) none)

def levels : Nat → List (Option α) → List (Option α)
  | 0, level => level
  | height + 1, level => level ++ levels height (combinePairs hashMerkleBranches zeroHash level)

section Levels

variable {hashMerkleBranches zeroHash}

theorem length_combinePairs (level : List (Option α)) :
    (combinePairs hashMerkleBranches zeroHash level).length = (level.length + 1) / 2 := by
  fun_induction combinePairs hashMerkleBranches zeroHash level with
  | case1 left right rest ih =>
    simp only [List.length_cons, ih]
    omega
  | case2 left => simp
  | case3 => simp

theorem getD_combinePairs (level : List (Option α)) (t : Nat) (pair : 2 * t + 1 < level.length) :
    (combinePairs hashMerkleBranches zeroHash level).getD t none =
      merkleParent hashMerkleBranches zeroHash (level.getD (2 * t) none)
        (level.getD (2 * t + 1) none) := by
  fun_induction combinePairs hashMerkleBranches zeroHash level generalizing t with
  | case1 left right rest ih =>
    cases t with
    | zero => rfl
    | succ t =>
      simp only [List.length_cons] at pair
      have shifted := ih t (by omega)
      rw [List.getD_cons_succ, shifted]
      rfl
  | case2 left => simp at pair
  | case3 => simp at pair

theorem length_combinePairs_of_pow {height : Nat} {level : List (Option α)}
    (size : level.length = 2 ^ (height + 1)) :
    (combinePairs hashMerkleBranches zeroHash level).length = 2 ^ height := by
  rw [length_combinePairs, size, Nat.pow_succ]
  omega

theorem length_levels (height : Nat) (level : List (Option α)) (size : level.length = 2 ^ height) :
    (levels hashMerkleBranches zeroHash height level).length = 2 ^ (height + 1) - 1 := by
  induction height generalizing level with
  | zero => simp [levels, size]
  | succ height ih =>
    have half : (combinePairs hashMerkleBranches zeroHash level).length = 2 ^ height :=
      length_combinePairs_of_pow size
    simp only [levels, List.length_append, ih _ half, size, Nat.pow_succ]
    have := Nat.one_le_two_pow (n := height)
    omega

theorem getD_levels_of_lt (height : Nat) (level : List (Option α)) {i : Nat}
    (leaf : i < level.length) :
    (levels hashMerkleBranches zeroHash height level).getD i none = level.getD i none := by
  cases height with
  | zero => rfl
  | succ height => simp [levels, List.getD_eq_getElem?_getD, List.getElem?_append_left leaf]

theorem levels_parent (height : Nat) (level : List (Option α)) (size : level.length = 2 ^ height)
    (t : Nat) (inside : 2 ^ height + t + 1 < 2 ^ (height + 1)) :
    (levels hashMerkleBranches zeroHash height level).getD (2 ^ height + t) none =
      merkleParent hashMerkleBranches zeroHash
        ((levels hashMerkleBranches zeroHash height level).getD (2 * t) none)
        ((levels hashMerkleBranches zeroHash height level).getD (2 * t + 1) none) := by
  induction height generalizing level t with
  | zero =>
    simp only [Nat.pow_zero, Nat.zero_add] at inside
    omega
  | succ height ih =>
    have half : (combinePairs hashMerkleBranches zeroHash level).length = 2 ^ height :=
      length_combinePairs_of_pow size
    have twice : 2 ^ (height + 1) = 2 * 2 ^ height := by rw [Nat.pow_succ, Nat.mul_comm]
    simp only [levels]
    rw [List.getD_append_right _ _ _ _ (by omega)]
    rcases Nat.lt_or_ge t (2 ^ height) with firstLevel | later
    · rw [size, Nat.add_sub_cancel_left, getD_levels_of_lt _ _ (by omega),
        getD_combinePairs _ _ (by omega), List.getD_append _ _ _ _ (by omega),
        List.getD_append _ _ _ _ (by omega)]
    · obtain ⟨u, rfl⟩ := Nat.exists_eq_add_of_le later
      have recurse := ih _ half u (by rw [Nat.pow_succ] at inside ⊢; omega)
      rw [size, Nat.add_sub_cancel_left, recurse,
        List.getD_append_right _ _ _ _ (by omega), List.getD_append_right _ _ _ _ (by omega)]
      congr 2 <;> omega

theorem getD_levels_last (height : Nat) (level : List (Option α))
    (size : level.length = 2 ^ height) :
    (levels hashMerkleBranches zeroHash height level).getD (2 ^ (height + 1) - 2) none =
      levelRoot hashMerkleBranches zeroHash height level := by
  induction height generalizing level with
  | zero =>
    obtain ⟨leaf, rfl⟩ := List.length_eq_one_iff.1 size
    rfl
  | succ height ih =>
    have half : (combinePairs hashMerkleBranches zeroHash level).length = 2 ^ height :=
      length_combinePairs_of_pow size
    have twice : 2 ^ (height + 1) = 2 * 2 ^ height := by rw [Nat.pow_succ, Nat.mul_comm]
    have above : 2 ^ (height + 1 + 1) = 2 * 2 ^ (height + 1) := by rw [Nat.pow_succ, Nat.mul_comm]
    have positive := Nat.one_le_two_pow (n := height)
    simp only [levels, levelRoot]
    rw [List.getD_append_right _ _ _ _ (by omega), size, ← ih _ half]
    congr 1
    omega

theorem take_levels (height : Nat) (level : List (Option α)) :
    (levels hashMerkleBranches zeroHash height level).take level.length = level := by
  cases height with
  | zero => exact List.take_length
  | succ height => exact List.take_left

end Levels

/-! ### The loop fills the slice with the levels -/

section Loop

variable {hashMerkleBranches zeroHash}

theorem sliceIndex_take_append {A rest : List (Option α)} {filled i : Nat}
    (inside : filled ≤ A.length) (before : i < filled) :
    sliceIndex (A.take filled ++ rest) i = .ok (A.getD i none) := by
  apply sliceIndex_of_getElem?
  rw [List.getElem?_append_left (by rw [List.length_take]; omega), List.getElem?_take_of_lt before,
    List.getD_eq_getElem?_getD, List.getElem?_eq_getElem (by omega)]
  rfl

theorem set_take_append_replicate {A : List (Option α)} {filled rest : Nat}
    (inside : filled < A.length) :
    (A.take filled ++ List.replicate (rest + 1) none).set filled (A.getD filled none) =
      A.take (filled + 1) ++ List.replicate rest none := by
  rw [List.set_append_right _ _ (by rw [List.length_take]; omega), List.length_take,
    Nat.min_eq_left (by omega), Nat.sub_self, List.replicate_succ, List.set_cons_zero,
    List.take_succ_eq_append_getElem inside,
    List.getD_eq_getElem?_getD, List.getElem?_eq_getElem inside]
  simp only [Option.getD_some, List.append_assoc, List.singleton_append]

theorem merkleTurn_fill {A : List (Option α)} {nextPoT t : Nat} (size : A.length = nextPoT * 2 - 1)
    (more : t + 1 < nextPoT)
    (parent : A.getD (nextPoT + t) none =
      merkleParent hashMerkleBranches zeroHash (A.getD (2 * t) none) (A.getD (2 * t + 1) none)) :
    merkleTurn hashMerkleBranches zeroHash (nextPoT * 2 - 1)
        (A.take (nextPoT + t) ++ List.replicate (nextPoT - 1 - t) none, 2 * t, nextPoT + t) =
      some (.ok (.inl (A.take (nextPoT + (t + 1)) ++ List.replicate (nextPoT - 1 - (t + 1)) none,
        2 * (t + 1), nextPoT + (t + 1)))) := by
  have remaining : nextPoT - 1 - t = (nextPoT - 1 - (t + 1)) + 1 := by omega
  simp only [merkleTurn, if_pos (show 2 * t < nextPoT * 2 - 1 - 1 by omega)]
  have right : ((2 * t : Nat) : Int) + 1 = ((2 * t + 1 : Nat) : Int) := by omega
  rw [right, sliceIndex_take_append (by omega) (by omega),
    sliceIndex_take_append (by omega) (by omega)]
  simp only [bind, Except.bind]
  rw [← parent, sliceAssign_of_lt
      (by rw [List.length_append, List.length_take, List.length_replicate]; omega),
    remaining, set_take_append_replicate (by omega)]
  rfl

theorem merkleTurn_exit {A : List (Option α)} {nextPoT : Nat} (size : A.length = nextPoT * 2 - 1)
    (positive : 0 < nextPoT) :
    merkleTurn hashMerkleBranches zeroHash (nextPoT * 2 - 1)
        (A.take (nextPoT + (nextPoT - 1)) ++ List.replicate (nextPoT - 1 - (nextPoT - 1)) none,
          2 * (nextPoT - 1), nextPoT + (nextPoT - 1)) =
      some (.ok (.inr A)) := by
  have whole : nextPoT + (nextPoT - 1) = A.length := by omega
  simp only [merkleTurn, if_neg (show ¬ 2 * (nextPoT - 1) < nextPoT * 2 - 1 - 1 by omega), whole,
    List.take_length, Nat.sub_self, List.replicate_zero, List.append_nil]

theorem loop_merkleTurn {A : List (Option α)} {nextPoT : Nat} (size : A.length = nextPoT * 2 - 1)
    (positive : 0 < nextPoT)
    (parents : ∀ t, t + 1 < nextPoT → A.getD (nextPoT + t) none =
      merkleParent hashMerkleBranches zeroHash (A.getD (2 * t) none) (A.getD (2 * t + 1) none))
    (fuel : Nat) (enough : nextPoT ≤ fuel) :
    loop (merkleTurn hashMerkleBranches zeroHash (nextPoT * 2 - 1)) fuel
      (A.take nextPoT ++ List.replicate (nextPoT - 1) none, 0, nextPoT) = some (.ok A) := by
  -- after `t` turns the slice holds `A` up to the write offset `nextPoT + t`
  let filled := fun t => (A.take (nextPoT + t) ++ List.replicate (nextPoT - 1 - t) none, 2 * t,
    nextPoT + t)
  obtain ⟨result, ran, rfl⟩ := loop_eq_ok_of_bound
    (fun n s => ∃ t, t + 1 ≤ nextPoT ∧ nextPoT - t ≤ n ∧ s = filled t) (· = A)
    (fun s ⟨t, _, exhausted, _⟩ => by omega)
    (by
      rintro n s ⟨t, below, turns, rfl⟩
      rcases Nat.lt_or_ge (t + 1) nextPoT with more | last
      · exact .inr ⟨filled (t + 1), merkleTurn_fill size more (parents t more),
          t + 1, more, by omega, rfl⟩
      · obtain rfl : t = nextPoT - 1 := by omega
        exact .inl ⟨A, merkleTurn_exit size positive, rfl⟩)
    fuel (filled 0) ⟨0, by omega, by omega, rfl⟩
  simpa [filled] using ran

end Loop

theorem nextPowerOfTwo_eq {n : Nat} (positive : 0 < n) : nextPowerOfTwo n = 2 ^ Nat.clog 2 n := by
  have low : 2 ^ Nat.log 2 n ≤ n := Nat.pow_log_le_self 2 (by omega)
  have high : n < 2 ^ (Nat.log 2 n + 1) := Nat.lt_pow_succ_log_self (by decide) n
  unfold nextPowerOfTwo
  rcases Nat.eq_or_lt_of_le low with power | above
  · have test : n &&& (n - 1) = 0 := by
      rw [← power, Nat.and_two_pow_sub_one_eq_mod, Nat.mod_self]
    rw [if_pos test, ← power, Nat.clog_pow 2 _ (by decide)]
  · -- any other number has the bit of its logarithm set in `n - 1` as well
    have bitSet : ∀ x, 2 ^ Nat.log 2 n ≤ x → x < 2 ^ (Nat.log 2 n + 1) →
        x.testBit (Nat.log 2 n) = true := by
      intro x lo hi
      have split : x = 2 ^ Nat.log 2 n + (x - 2 ^ Nat.log 2 n) := by omega
      rw [split, Nat.testBit_two_pow_add_eq,
        Nat.testBit_lt_two_pow (by rw [Nat.pow_succ] at hi; omega)]
      rfl
    have test : n &&& (n - 1) ≠ 0 := by
      intro zero
      have bit := congrArg (Nat.testBit · (Nat.log 2 n)) zero
      simp only [Nat.testBit_and, bitSet n low high, bitSet (n - 1) (by omega) (by omega),
        Nat.zero_testBit, Bool.and_self, Bool.true_eq_false] at bit
    rw [if_neg test, Nat.log2_eq_log_two]
    congr 1
    apply le_antisymm
    · exact Nat.succ_le_of_lt ((Nat.lt_clog_iff_pow_lt (by decide)).2 above)
    · exact (Nat.clog_le_iff_le_pow (by decide)).2 high.le

end Merkle
