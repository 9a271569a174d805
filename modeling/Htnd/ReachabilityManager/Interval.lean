import Mathlib.Data.List.Forall2
import Mathlib.Data.UInt
import Mathlib.Tactic.Abel
import Htnd.ReachabilityManager.Tree

/-!
Splitting a reachability interval among the children of a block (interval.go). Ends, sizes and
their sums are uint64 and wrap around as in Go; a size is `End - Start + 1`. The bias of each
part comes from a rounded float product, which is clamped to the bias that remains, so that no
result below depends on the float arithmetic.
-/
namespace ReachabilityManager

def intervalSize (ri : ReachabilityInterval) : UInt64 := ri.end - ri.start + 1

def sizesSum (sizes : List UInt64) : UInt64 := sizes.foldl (· + ·) 0

def splitFrom : UInt64 → List UInt64 → List ReachabilityInterval
  | _, [] => []
  | start, size :: sizes => ⟨start, start + size - 1⟩ :: splitFrom (start + size) sizes

def intervalSplitExact (ri : ReachabilityInterval) (sizes : List UInt64) :
    Except String (List ReachabilityInterval) :=
  if sizesSum sizes ≠ intervalSize ri then .error "sum of sizes must be equal to the interval's size"
  else .ok (splitFrom ri.start sizes)

/-- `2^size / Σ 2^size'`, computed as `2^(size - max) / Σ 2^(size' - max)` in float64. -/
def exponentialFractions (sizes : List UInt64) : List Float :=
  let maxSize := sizes.foldl (fun maxSize size => if size > maxSize then size else maxSize) 0
  let fractions := sizes.map fun size => 1 / Float.pow 2 (maxSize - size).toFloat
  let fractionsSum := fractions.foldl (· + ·) 0
  fractions.map (· / fractionsSum)

def bias (totalBias remainingBias : UInt64) (fraction : Float) (last : Bool) : UInt64 :=
  if last then remainingBias
  else
    let bias := (Float.round (totalBias.toFloat * fraction)).toUInt64
    if bias > remainingBias then remainingBias else bias

def biasedSizes (totalBias : UInt64) : UInt64 → List (UInt64 × Float) → List UInt64
  | _, [] => []
  | remainingBias, (size, fraction) :: rest =>
    let bias := bias totalBias remainingBias fraction rest.isEmpty
    (size + bias) :: biasedSizes totalBias (remainingBias - bias) rest

def intervalSplitWithExponentialBias (ri : ReachabilityInterval) (sizes : List UInt64) :
    Except String (List ReachabilityInterval) :=
  let intervalSize := intervalSize ri
  let sizesSum := sizesSum sizes
  if sizesSum > intervalSize then
    .error "sum of sizes must be less than or equal to the interval's size"
  else if sizesSum = intervalSize then intervalSplitExact ri sizes
  else
    let totalBias := intervalSize - sizesSum
    intervalSplitExact ri (biasedSizes totalBias totalBias (sizes.zip (exponentialFractions sizes)))

structure SplitsInto (rel : UInt64 → UInt64 → Prop) (ri : ReachabilityInterval)
    (sizes : List UInt64) (intervals : List ReachabilityInterval) : Prop where
  sized : List.Forall₂ (fun size part => rel size (intervalSize part)) sizes intervals
  first_start : intervals.head?.map (·.start) = some ri.start
  last_end : intervals.getLast?.map (·.end) = some ri.end
  consecutive : intervals.IsChain fun part next => next.start = part.end + 1
  nonempty : List.Forall₂ (fun size part => 1 ≤ size → part.start ≤ part.end) sizes intervals

def natSum (sizes : List UInt64) : Nat := (sizes.map UInt64.toNat).sum

/-! ### Sums -/

theorem foldl_add_eq (sizes : List UInt64) (a : UInt64) :
    sizes.foldl (· + ·) a = a + sizes.foldl (· + ·) 0 := by
  induction sizes generalizing a with
  | nil => simp
  | cons size sizes ih =>
    rw [List.foldl_cons, List.foldl_cons, ih, ih (0 + size)]
    abel

theorem sizesSum_cons (size : UInt64) (sizes : List UInt64) :
    sizesSum (size :: sizes) = size + sizesSum sizes := by
  rw [sizesSum, List.foldl_cons, foldl_add_eq, zero_add]
  rfl

@[simp] theorem natSum_cons (size : UInt64) (sizes : List UInt64) :
    natSum (size :: sizes) = size.toNat + natSum sizes := by
  simp [natSum]

@[simp] theorem natSum_nil : natSum [] = 0 := rfl

theorem toNat_sizesSum (sizes : List UInt64) : (sizesSum sizes).toNat = natSum sizes % 2 ^ 64 := by
  induction sizes with
  | nil => rfl
  | cons size sizes ih =>
    rw [sizesSum_cons, UInt64.toNat_add, ih, natSum_cons, Nat.add_mod_mod]

theorem toNat_intervalSize {ri : ReachabilityInterval} (ordered : ri.start ≤ ri.end) :
    (intervalSize ri).toNat = (ri.end.toNat - ri.start.toNat + 1) % 2 ^ 64 := by
  have le := UInt64.le_iff_toNat_le.1 ordered
  rw [intervalSize, UInt64.toNat_add, UInt64.toNat_sub_of_le _ _ ordered]
  rfl

/-! ### The exact split -/

theorem splitFrom_sized (start : UInt64) (sizes : List UInt64) :
    List.Forall₂ (fun size part => size = intervalSize part) sizes (splitFrom start sizes) := by
  induction sizes generalizing start with
  | nil => exact List.Forall₂.nil
  | cons size sizes ih =>
    refine List.Forall₂.cons ?_ (ih (start + size))
    simp only [intervalSize]
    abel

theorem splitFrom_consecutive (start : UInt64) (sizes : List UInt64) :
    (splitFrom start sizes).IsChain fun part next => next.start = part.end + 1 := by
  induction sizes generalizing start with
  | nil => exact List.IsChain.nil
  | cons size sizes ih =>
    cases sizes with
    | nil => exact List.isChain_singleton _
    | cons next sizes =>
      refine List.IsChain.cons_cons ?_ (ih (start + size))
      show start + size = start + size - 1 + 1
      abel

theorem splitFrom_last_end (start : UInt64) {sizes : List UInt64} (nonempty : sizes ≠ []) :
    (splitFrom start sizes).getLast?.map (·.end) = some (start + sizesSum sizes - 1) := by
  induction sizes generalizing start with
  | nil => exact absurd rfl nonempty
  | cons size sizes ih =>
    cases sizes with
    | nil =>
      simp only [splitFrom, List.getLast?_singleton, Option.map_some, sizesSum_cons]
      rw [show sizesSum [] = 0 from rfl, add_zero]
    | cons next rest =>
      have later := ih (start + size) (List.cons_ne_nil next rest)
      obtain ⟨part, parts, split⟩ : ∃ part parts, splitFrom (start + size) (next :: rest) = part :: parts :=
        ⟨_, _, rfl⟩
      rw [splitFrom, split, List.getLast?_cons_cons, ← split, later, sizesSum_cons size,
        ← UInt64.add_assoc]

theorem splitFrom_nonempty (start : UInt64) (sizes : List UInt64)
    (fits : start.toNat + natSum sizes ≤ 2 ^ 64) :
    List.Forall₂ (fun size part => 1 ≤ size → part.start ≤ part.end) sizes (splitFrom start sizes) := by
  induction sizes generalizing start with
  | nil => exact List.Forall₂.nil
  | cons size sizes ih =>
    rw [natSum_cons] at fits
    have next : (start + size).toNat + natSum sizes ≤ 2 ^ 64 := by
      rw [UInt64.toNat_add]
      by_cases wraps : start.toNat + size.toNat < 2 ^ 64
      · rw [Nat.mod_eq_of_lt wraps]
        omega
      · have := Nat.mod_lt (start.toNat + size.toNat) (Nat.two_pow_pos 64)
        omega
    refine List.Forall₂.cons ?_ (ih (start + size) next)
    intro positive
    have sizePos : 1 ≤ size.toNat := UInt64.le_iff_toNat_le.1 positive
    have lastEq : (start + size - 1).toNat = start.toNat + (size.toNat - 1) := by
      rw [show start + size - 1 = start + (size - 1) by abel, UInt64.toNat_add,
        UInt64.toNat_sub_of_le _ _ positive, UInt64.toNat_one, Nat.mod_eq_of_lt (by omega)]
    show start ≤ start + size - 1
    rw [UInt64.le_iff_toNat_le, lastEq]
    omega

theorem splitFrom_splitsInto {ri : ReachabilityInterval} {sizes : List UInt64} (nonempty : sizes ≠ [])
    (fits : ri.start.toNat + natSum sizes ≤ 2 ^ 64) (ends : ri.start + sizesSum sizes - 1 = ri.end) :
    SplitsInto (· = ·) ri sizes (splitFrom ri.start sizes) where
  sized := splitFrom_sized ri.start sizes
  first_start := by
    obtain ⟨size, rest, rfl⟩ := List.exists_cons_of_ne_nil nonempty
    rfl
  last_end := by rw [splitFrom_last_end ri.start nonempty, ends]
  consecutive := splitFrom_consecutive ri.start sizes
  nonempty := splitFrom_nonempty ri.start sizes fits

theorem intervalSplitExact_eq_ok {ri : ReachabilityInterval} {sizes : List UInt64}
    (ordered : ri.start ≤ ri.end) (nonempty : sizes ≠ []) (exact : natSum sizes = (intervalSize ri).toNat) :
    intervalSplitExact ri sizes = .ok (splitFrom ri.start sizes) ∧
      SplitsInto (· = ·) ri sizes (splitFrom ri.start sizes) := by
  have le := UInt64.le_iff_toNat_le.1 ordered
  have size := toNat_intervalSize ordered
  have sumEq : sizesSum sizes = intervalSize ri := by
    apply UInt64.toNat_inj.1
    rw [toNat_sizesSum, exact, Nat.mod_eq_of_lt (UInt64.toNat_lt _)]
  constructor
  · rw [intervalSplitExact, if_neg (not_not.2 sumEq)]
  · apply splitFrom_splitsInto nonempty
    · have := Nat.mod_le (ri.end.toNat - ri.start.toNat + 1) (2 ^ 64)
      have := UInt64.toNat_lt ri.end
      omega
    · rw [sumEq, intervalSize]
      abel

/-! ### The biased split -/

theorem bias_le (totalBias remainingBias : UInt64) (fraction : Float) (last : Bool) :
    bias totalBias remainingBias fraction last ≤ remainingBias := by
  unfold bias
  split
  · exact UInt64.le_refl _
  · dsimp only
    split
    · exact UInt64.le_refl _
    · rename_i notAbove
      exact UInt64.not_lt.1 notAbove

theorem biasedSizes_spec (totalBias : UInt64) :
    ∀ (remainingBias : UInt64) {ps : List (UInt64 × Float)}, ps ≠ [] →
      natSum (ps.map (·.1)) + remainingBias.toNat < 2 ^ 64 →
      List.Forall₂ (fun size biased => size ≤ biased) (ps.map (·.1))
          (biasedSizes totalBias remainingBias ps) ∧
        natSum (biasedSizes totalBias remainingBias ps) =
          natSum (ps.map (·.1)) + remainingBias.toNat
  | _, [], nonempty, _ => absurd rfl nonempty
  | remainingBias, (size, fraction) :: rest, _, fits => by
    simp only [List.map_cons, natSum_cons] at fits ⊢
    rw [biasedSizes]
    cases rest with
    | nil =>
      have grown : (size + remainingBias).toNat = size.toNat + remainingBias.toNat := by
        rw [UInt64.toNat_add, Nat.mod_eq_of_lt (by simp at fits; omega)]
      simp only [List.isEmpty_nil, bias, if_true, biasedSizes, List.map_nil]
      refine ⟨List.Forall₂.cons ?_ List.Forall₂.nil, ?_⟩
      · rw [UInt64.le_iff_toNat_le, grown]
        omega
      · rw [natSum_cons, grown]
        simp
    | cons next rest =>
      have small := bias_le totalBias remainingBias fraction false
      simp only [List.isEmpty_cons]
      generalize bias totalBias remainingBias fraction false = b at small ⊢
      have bLe := UInt64.le_iff_toNat_le.1 small
      have grown : (size + b).toNat = size.toNat + b.toNat := by
        rw [UInt64.toNat_add, Nat.mod_eq_of_lt (by omega)]
      have remaining : (remainingBias - b).toNat = remainingBias.toNat - b.toNat :=
        UInt64.toNat_sub_of_le _ _ small
      obtain ⟨sized, sum⟩ := biasedSizes_spec totalBias (remainingBias - b)
        (List.cons_ne_nil next rest) (by omega)
      refine ⟨List.Forall₂.cons ?_ sized, ?_⟩
      · rw [UInt64.le_iff_toNat_le, grown]
        omega
      · rw [natSum_cons, grown, sum, remaining]
        omega

theorem length_exponentialFractions (sizes : List UInt64) :
    (exponentialFractions sizes).length = sizes.length := by
  simp [exponentialFractions]

theorem forall₂_comp {α β γ : Type} {R : α → β → Prop} {S : β → γ → Prop} {as : List α}
    {bs : List β} {cs : List γ} (first : List.Forall₂ R as bs) (second : List.Forall₂ S bs cs) :
    List.Forall₂ (fun a c => ∃ b, R a b ∧ S b c) as cs := by
  induction first generalizing cs with
  | nil =>
    cases second
    exact List.Forall₂.nil
  | cons related _ ih =>
    cases second with
    | cons related' rest => exact List.Forall₂.cons ⟨_, related, related'⟩ (ih rest)

theorem SplitsInto.weaken {ri : ReachabilityInterval} {sizes : List UInt64}
    {intervals : List ReachabilityInterval} (split : SplitsInto (· = ·) ri sizes intervals) :
    SplitsInto (· ≤ ·) ri sizes intervals :=
  { split with sized := split.sized.imp fun _ _ same => same ▸ UInt64.le_refl _ }

theorem SplitsInto.of_grown {ri : ReachabilityInterval} {sizes biased : List UInt64}
    {intervals : List ReachabilityInterval} (split : SplitsInto (· = ·) ri biased intervals)
    (grown : List.Forall₂ (fun size biased => size ≤ biased) sizes biased) :
    SplitsInto (· ≤ ·) ri sizes intervals where
  sized := (forall₂_comp grown split.sized).imp fun _ _ ⟨_, le, same⟩ => same ▸ le
  first_start := split.first_start
  last_end := split.last_end
  consecutive := split.consecutive
  nonempty := (forall₂_comp grown split.nonempty).imp
    fun _ _ ⟨_, le, nonempty⟩ positive => nonempty (UInt64.le_trans positive le)

theorem intervalSplitWithExponentialBias_eq_ok {ri : ReachabilityInterval} {sizes : List UInt64}
    (ordered : ri.start ≤ ri.end) (nonempty : sizes ≠ []) (fits : natSum sizes ≤ (intervalSize ri).toNat) :
    ∃ intervals, intervalSplitWithExponentialBias ri sizes = .ok intervals ∧
      SplitsInto (· ≤ ·) ri sizes intervals := by
  have sizeLt := UInt64.toNat_lt (intervalSize ri)
  have sumEq : (sizesSum sizes).toNat = natSum sizes := by
    rw [toNat_sizesSum, Nat.mod_eq_of_lt (by omega)]
  have notAbove : ¬ sizesSum sizes > intervalSize ri := by
    rw [gt_iff_lt, UInt64.lt_iff_toNat_lt, sumEq]
    omega
  by_cases exact : sizesSum sizes = intervalSize ri
  · have natExact : natSum sizes = (intervalSize ri).toNat := by rw [← sumEq, exact]
    obtain ⟨split, splits⟩ := intervalSplitExact_eq_ok ordered nonempty natExact
    refine ⟨_, ?_, splits.weaken⟩
    simp only [intervalSplitWithExponentialBias, if_neg notAbove, if_pos exact, split]
  · -- every size gets its bias, and the biases fill the rest of the interval
    have below : sizesSum sizes ≤ intervalSize ri := UInt64.not_lt.1 notAbove
    have biasEq : (intervalSize ri - sizesSum sizes).toNat = (intervalSize ri).toNat - natSum sizes := by
      rw [UInt64.toNat_sub_of_le _ _ below, sumEq]
    have firsts : (sizes.zip (exponentialFractions sizes)).map (·.1) = sizes :=
      List.map_fst_zip (by rw [length_exponentialFractions])
    have zipNonempty : sizes.zip (exponentialFractions sizes) ≠ [] := by
      intro empty
      rw [empty, List.map_nil] at firsts
      exact nonempty firsts.symm
    obtain ⟨grown, biasedSum⟩ := biasedSizes_spec (intervalSize ri - sizesSum sizes)
      (intervalSize ri - sizesSum sizes) zipNonempty (by rw [firsts, biasEq]; omega)
    rw [firsts] at grown biasedSum
    have biasedNonempty :
        biasedSizes (intervalSize ri - sizesSum sizes) (intervalSize ri - sizesSum sizes)
          (sizes.zip (exponentialFractions sizes)) ≠ [] := by
      intro empty
      rw [empty] at grown
      exact nonempty (List.forall₂_nil_right_iff.1 grown)
    obtain ⟨split, splits⟩ := intervalSplitExact_eq_ok ordered biasedNonempty
      (by rw [biasedSum, biasEq]; omega)
    refine ⟨_, ?_, splits.of_grown grown⟩
    simp only [intervalSplitWithExponentialBias, if_neg notAbove, if_neg exact]
    exact split

theorem interval_split_exponential_bias_partitions {ri : ReachabilityInterval} {sizes : List UInt64}
    (ordered : ri.start ≤ ri.end) (nonempty : sizes ≠ [])
    (fits : natSum sizes ≤ (intervalSize ri).toNat) :
    (∃ intervals, intervalSplitWithExponentialBias ri sizes = .ok intervals ∧
        SplitsInto (· ≤ ·) ri sizes intervals) ∧
      (natSum sizes = (intervalSize ri).toNat →
        ∃ intervals, intervalSplitExact ri sizes = .ok intervals ∧
          SplitsInto (· = ·) ri sizes intervals) := by
  constructor
  · exact intervalSplitWithExponentialBias_eq_ok ordered nonempty fits
  · intro exact
    exact ⟨_, intervalSplitExact_eq_ok ordered nonempty exact⟩

/-- Sizes 10 and 20 in `[1, 100]`. -/
theorem interval_split_exponential_bias_partitions_sizes :
    (1 : UInt64) ≤ 100 ∧ [(10 : UInt64), 20] ≠ [] ∧ natSum [10, 20] ≤ (intervalSize ⟨1, 100⟩).toNat ∧
      (∃ intervals, intervalSplitWithExponentialBias ⟨1, 100⟩ [10, 20] = .ok intervals ∧
          SplitsInto (· ≤ ·) ⟨1, 100⟩ [10, 20] intervals) ∧
        (natSum [10, 20] = (intervalSize ⟨1, 100⟩).toNat →
          ∃ intervals, intervalSplitExact ⟨1, 100⟩ [10, 20] = .ok intervals ∧
            SplitsInto (· = ·) ⟨1, 100⟩ [10, 20] intervals) := by
  have ordered : (1 : UInt64) ≤ 100 := by decide
  have nonempty : [(10 : UInt64), 20] ≠ [] := by decide
  have fits : natSum [10, 20] ≤ (intervalSize ⟨1, 100⟩).toNat := by decide
  exact ⟨ordered, nonempty, fits, interval_split_exponential_bias_partitions ordered nonempty fits⟩

theorem intervalSplitWithExponentialBias_nil {ri : ReachabilityInterval} (nonzero : intervalSize ri ≠ 0) :
    intervalSplitWithExponentialBias ri [] = .error "sum of sizes must be equal to the interval's size" := by
  have zero : sizesSum [] = 0 := rfl
  have notAbove : ¬ sizesSum [] > intervalSize ri := by
    rw [zero]
    exact UInt64.not_lt.2 UInt64.zero_le
  have notEqual : sizesSum [] ≠ intervalSize ri := by
    rw [zero]
    exact fun same => nonzero same.symm
  simp only [intervalSplitWithExponentialBias, if_neg notAbove, if_neg notEqual, List.zip_nil_left,
    biasedSizes, intervalSplitExact, if_pos notEqual]

theorem interval_split_exponential_bias_rejects_no_sizes :
    intervalSplitWithExponentialBias ⟨1, 10⟩ [] =
      .error "sum of sizes must be equal to the interval's size" :=
  intervalSplitWithExponentialBias_nil (by decide)


/-! ### Where the parts lie -/

theorem forall_mem_of_forall₂ {α β : Type} {R : α → β → Prop} {p : β → Prop} {as : List α}
    {bs : List β} (related : List.Forall₂ R as bs) (gives : ∀ a ∈ as, ∀ b, R a b → p b) :
    ∀ b ∈ bs, p b := by
  induction related with
  | nil => simp
  | @cons a b as bs first _ ih =>
    intro b' mem
    rcases List.mem_cons.1 mem with rfl | later
    · exact gives a List.mem_cons_self b' first
    · exact ih (fun a' mem' => gives a' (List.mem_cons_of_mem a mem')) b' later

theorem exists_of_forall₂ {α β : Type} {R : α → β → Prop} {as : List α} {bs : List β}
    (related : List.Forall₂ R as bs) : ∀ a ∈ as, ∃ b ∈ bs, R a b := by
  induction related with
  | nil => simp
  | @cons a b as bs first _ ih =>
    intro a' mem
    rcases List.mem_cons.1 mem with rfl | later
    · exact ⟨b, List.mem_cons_self, first⟩
    · obtain ⟨b', mem', rel⟩ := ih a' later
      exact ⟨b', List.mem_cons_of_mem b mem', rel⟩

theorem forall₂_mem_left {α β : Type} {R : α → β → Prop} {as : List α} {bs : List β}
    (related : List.Forall₂ R as bs) : List.Forall₂ (fun a b => a ∈ as ∧ R a b) as bs := by
  induction related with
  | nil => exact List.Forall₂.nil
  | cons first _ ih =>
    exact List.Forall₂.cons ⟨List.mem_cons_self, first⟩
      (ih.imp fun _ _ ⟨mem, rel⟩ => ⟨List.mem_cons_of_mem _ mem, rel⟩)

theorem toNat_le_of_le_intervalSize {part : ReachabilityInterval} {size : UInt64}
    (ordered : part.start ≤ part.end) (le : size ≤ intervalSize part) :
    size.toNat ≤ part.end.toNat - part.start.toNat + 1 := by
  have atMost := UInt64.le_iff_toNat_le.1 le
  rw [toNat_intervalSize ordered] at atMost
  exact Nat.le_trans atMost (Nat.mod_le _ _)

theorem splitFrom_inside (start : UInt64) {sizes : List UInt64} (positive : ∀ size ∈ sizes, 1 ≤ size)
    (fits : start.toNat + natSum sizes ≤ 2 ^ 64) :
    ∀ part ∈ splitFrom start sizes,
      start.toNat ≤ part.start.toNat ∧ part.end.toNat < start.toNat + natSum sizes := by
  induction sizes generalizing start with
  | nil => simp [splitFrom]
  | cons size sizes ih =>
    simp only [natSum_cons] at fits ⊢
    have sizePositive := positive size List.mem_cons_self
    have sizePos : 1 ≤ size.toNat := UInt64.le_iff_toNat_le.1 sizePositive
    intro part mem
    rw [splitFrom, List.mem_cons] at mem
    rcases mem with rfl | later
    · have lastEq : (start + size - 1).toNat = start.toNat + (size.toNat - 1) := by
        rw [show start + size - 1 = start + (size - 1) by abel, UInt64.toNat_add,
          UInt64.toNat_sub_of_le _ _ sizePositive, UInt64.toNat_one, Nat.mod_eq_of_lt (by omega)]
      show start.toNat ≤ start.toNat ∧ (start + size - 1).toNat < start.toNat + (size.toNat + natSum sizes)
      rw [lastEq]
      omega
    · cases sizes with
      | nil => simp [splitFrom] at later
      | cons next rest =>
        have nextPos : 1 ≤ next.toNat :=
          UInt64.le_iff_toNat_le.1 (positive next (List.mem_cons_of_mem size List.mem_cons_self))
        simp only [natSum_cons] at fits ⊢
        have noWrap : (start + size).toNat = start.toNat + size.toNat := by
          rw [UInt64.toNat_add, Nat.mod_eq_of_lt (by omega)]
        obtain ⟨lo, hi⟩ := ih (start + size) (fun s mem => positive s (List.mem_cons_of_mem size mem))
          (by rw [noWrap, natSum_cons]; omega) part later
        rw [noWrap, natSum_cons] at hi
        rw [noWrap] at lo
        omega

theorem intervalSplitWithExponentialBias_eq_splitFrom {ri : ReachabilityInterval} {sizes : List UInt64}
    (ordered : ri.start ≤ ri.end) (nonempty : sizes ≠ []) (fits : natSum sizes ≤ (intervalSize ri).toNat) :
    ∃ parts, intervalSplitWithExponentialBias ri sizes = .ok (splitFrom ri.start parts) ∧
      List.Forall₂ (· ≤ ·) sizes parts ∧ natSum parts = (intervalSize ri).toNat := by
  have sizeLt := UInt64.toNat_lt (intervalSize ri)
  have sumEq : (sizesSum sizes).toNat = natSum sizes := by
    rw [toNat_sizesSum, Nat.mod_eq_of_lt (by omega)]
  have notAbove : ¬ sizesSum sizes > intervalSize ri := by
    rw [gt_iff_lt, UInt64.lt_iff_toNat_lt, sumEq]
    omega
  by_cases exact : sizesSum sizes = intervalSize ri
  · have natExact : natSum sizes = (intervalSize ri).toNat := by rw [← sumEq, exact]
    refine ⟨sizes, ?_, List.forall₂_same.2 fun _ _ => UInt64.le_refl _, natExact⟩
    simp only [intervalSplitWithExponentialBias, if_neg notAbove, if_pos exact,
      (intervalSplitExact_eq_ok ordered nonempty natExact).1]
  · -- the biased sizes fill the interval
    have below : sizesSum sizes ≤ intervalSize ri := UInt64.not_lt.1 notAbove
    have biasEq : (intervalSize ri - sizesSum sizes).toNat = (intervalSize ri).toNat - natSum sizes := by
      rw [UInt64.toNat_sub_of_le _ _ below, sumEq]
    have firsts : (sizes.zip (exponentialFractions sizes)).map (·.1) = sizes :=
      List.map_fst_zip (by rw [length_exponentialFractions])
    have zipNonempty : sizes.zip (exponentialFractions sizes) ≠ [] := by
      intro empty
      rw [empty, List.map_nil] at firsts
      exact nonempty firsts.symm
    obtain ⟨grown, biasedSum⟩ := biasedSizes_spec (intervalSize ri - sizesSum sizes)
      (intervalSize ri - sizesSum sizes) zipNonempty (by rw [firsts, biasEq]; omega)
    rw [firsts] at grown biasedSum
    have biasedNonempty :
        biasedSizes (intervalSize ri - sizesSum sizes) (intervalSize ri - sizesSum sizes)
          (sizes.zip (exponentialFractions sizes)) ≠ [] := by
      intro empty
      rw [empty] at grown
      exact nonempty (List.forall₂_nil_right_iff.1 grown)
    have filled : natSum (biasedSizes (intervalSize ri - sizesSum sizes) (intervalSize ri - sizesSum sizes)
        (sizes.zip (exponentialFractions sizes))) = (intervalSize ri).toNat := by
      rw [biasedSum, biasEq]
      omega
    refine ⟨_, ?_, grown, filled⟩
    simp only [intervalSplitWithExponentialBias, if_neg notAbove, if_neg exact]
    exact (intervalSplitExact_eq_ok ordered biasedNonempty filled).1

theorem intervalSplitWithExponentialBias_inside {ri : ReachabilityInterval} {sizes : List UInt64}
    (ordered : ri.start ≤ ri.end) (positive : ∀ size ∈ sizes, 1 ≤ size) (nonempty : sizes ≠ [])
    (fits : natSum sizes ≤ (intervalSize ri).toNat) :
    ∃ intervals, intervalSplitWithExponentialBias ri sizes = .ok intervals ∧
      SplitsInto (· ≤ ·) ri sizes intervals ∧
      ∀ part ∈ intervals, ri.start ≤ part.start ∧ part.end ≤ ri.end := by
  obtain ⟨parts, split, grown, filled⟩ := intervalSplitWithExponentialBias_eq_splitFrom ordered nonempty fits
  have partsNonempty : parts ≠ [] := by
    rintro rfl
    exact nonempty (List.forall₂_nil_right_iff.1 grown)
  have partsPositive : ∀ part ∈ parts, 1 ≤ part :=
    forall_mem_of_forall₂ grown fun size mem _ le => UInt64.le_trans (positive size mem) le
  obtain ⟨-, splits⟩ := intervalSplitExact_eq_ok ordered partsNonempty filled
  have sizeLe : (intervalSize ri).toNat ≤ ri.end.toNat - ri.start.toNat + 1 := by
    rw [toNat_intervalSize ordered]
    exact Nat.mod_le _ _
  have le := UInt64.le_iff_toNat_le.1 ordered
  have endLt := UInt64.toNat_lt ri.end
  refine ⟨_, split, splits.of_grown grown, fun part mem => ?_⟩
  obtain ⟨lo, hi⟩ := splitFrom_inside ri.start partsPositive (by omega) part mem
  exact ⟨UInt64.le_iff_toNat_le.2 lo, UInt64.le_iff_toNat_le.2 (by omega)⟩

/-! ### Moving and cutting intervals

The helpers reindexing moves intervals with; each end wraps around as in Go. -/

def intervalIncrease (ri : ReachabilityInterval) (offset : UInt64) : ReachabilityInterval :=
  ⟨ri.start + offset, ri.end + offset⟩

def intervalDecrease (ri : ReachabilityInterval) (offset : UInt64) : ReachabilityInterval :=
  ⟨ri.start - offset, ri.end - offset⟩

def intervalIncreaseStart (ri : ReachabilityInterval) (offset : UInt64) : ReachabilityInterval :=
  ⟨ri.start + offset, ri.end⟩

def intervalDecreaseStart (ri : ReachabilityInterval) (offset : UInt64) : ReachabilityInterval :=
  ⟨ri.start - offset, ri.end⟩

def intervalIncreaseEnd (ri : ReachabilityInterval) (offset : UInt64) : ReachabilityInterval :=
  ⟨ri.start, ri.end + offset⟩

def intervalDecreaseEnd (ri : ReachabilityInterval) (offset : UInt64) : ReachabilityInterval :=
  ⟨ri.start, ri.end - offset⟩

/-- The left part takes the fraction of the size, rounded up by a float ceiling. -/
def intervalSplitFraction (ri : ReachabilityInterval) (fraction : Float) :
    Except String (ReachabilityInterval × ReachabilityInterval) :=
  if fraction < 0 || fraction > 1 then .error "fraction must be between 0 and 1"
  else if intervalSize ri = 0 then .error "cannot split an empty interval"
  else
    let allocationSize := (Float.ceil ((intervalSize ri).toFloat * fraction)).toUInt64
    .ok (⟨ri.start, ri.start + allocationSize - 1⟩, ⟨ri.start + allocationSize, ri.end⟩)

def intervalSplitInHalf (ri : ReachabilityInterval) : Except String (ReachabilityInterval × ReachabilityInterval) :=
  intervalSplitFraction ri 0.5

end ReachabilityManager
