import Mathlib.Data.Finset.Card
import Mathlib.Data.List.Sort

/-!
The `n` greatest elements of a finite set by a key into a linear order, and how they change as the
set grows. While fewer than `n` are kept, all of the set is kept and a new element joins them;
once `n` are kept, a new element above the least of them takes its place, and elements below all
of them change nothing. A set kept that way is the set of elements that fewer than `n` others
stand above. A heap that keeps them is read as a list in order of the key, which an insertion in
that order keeps.
-/
namespace TopK

variable {α κ : Type} [LinearOrder κ] (key : α → κ)

structure IsTop (n : Nat) (S W : Finset α) : Prop where
  subset : W ⊆ S
  card_eq : W.card = min n S.card
  above : ∀ x ∈ W, ∀ y ∈ S, y ∉ W → key y < key x

def greatest (n : Nat) (S : Finset α) : Finset α :=
  S.filter fun x => (S.filter fun y => key x < key y).card < n

variable {key} {n : Nat} {S W : Finset α}

theorem mem_greatest {x : α} :
    x ∈ greatest key n S ↔ x ∈ S ∧ (S.filter fun y => key x < key y).card < n := by
  simp [greatest]

theorem isTop_empty (n : Nat) : IsTop key n ∅ ∅ :=
  ⟨Finset.Subset.refl _, by simp, fun _ mem => absurd mem (Finset.notMem_empty _)⟩

theorem isTop_zero (S : Finset α) : IsTop key 0 S ∅ :=
  ⟨Finset.empty_subset _, by simp, fun _ mem => absurd mem (Finset.notMem_empty _)⟩

namespace IsTop

theorem card_le (top : IsTop key n S W) : W.card ≤ n := by
  have := top.card_eq
  omega

theorem eq_of_card_lt (top : IsTop key n S W) (room : W.card < n) : W = S := by
  have same : W.card = S.card := by
    have := top.card_eq
    omega
  exact Finset.eq_of_subset_of_card_le top.subset same.ge

theorem le_card (top : IsTop key n S W) (full : W.card = n) : n ≤ S.card := by
  have := top.card_eq
  omega

variable [DecidableEq α]

theorem insert_of_card_lt (top : IsTop key n S W) (room : W.card < n) {x : α} (fresh : x ∉ S) :
    IsTop key n (insert x S) (insert x W) := by
  obtain rfl := top.eq_of_card_lt room
  refine ⟨Finset.Subset.refl _, ?_, fun _ _ y mem outside => absurd mem outside⟩
  rw [Finset.card_insert_of_notMem fresh]
  omega

theorem insert_replace (top : IsTop key n S W) (full : W.card = n) {m : α} (kept : m ∈ W)
    (least : ∀ y ∈ W, y ≠ m → key m < key y) {x : α} (fresh : x ∉ S) (greater : key m < key x) :
    IsTop key n (insert x S) (insert x (W.erase m)) := by
  have outside : x ∉ W.erase m := fun mem => fresh (top.subset (Finset.mem_of_mem_erase mem))
  refine ⟨Finset.insert_subset_insert x ((Finset.erase_subset m W).trans top.subset), ?_, ?_⟩
  · have grown : n ≤ (insert x S).card := (top.le_card full).trans (Finset.card_le_card
      (Finset.subset_insert x S))
    rw [Finset.card_insert_of_notMem outside, Finset.card_erase_of_mem kept, full]
    have positive : 0 < n := full ▸ Finset.card_pos.2 ⟨m, kept⟩
    omega
  · intro a aKept y yIn yOut
    have yNew : y ≠ x := fun same => yOut (by rw [same]; exact Finset.mem_insert_self x _)
    have yOld : y ∈ S := (Finset.mem_insert.1 yIn).resolve_left yNew
    have yGone : y = m ∨ y ∉ W := by
      by_cases same : y = m
      · exact .inl same
      · exact .inr fun mem => yOut (Finset.mem_insert_of_mem (Finset.mem_erase.2 ⟨same, mem⟩))
    rcases Finset.mem_insert.1 aKept with rfl | aOld
    · rcases yGone with rfl | yOutside
      · exact greater
      · exact (top.above m kept y yOld yOutside).trans greater
    · obtain ⟨aNe, aIn⟩ := Finset.mem_erase.1 aOld
      rcases yGone with rfl | yOutside
      · exact least a aIn aNe
      · exact top.above a aIn y yOld yOutside

theorem union_of_lt (top : IsTop key n S W) (full : W.card = n) {R : Finset α}
    (below : ∀ y ∈ R, ∀ w ∈ W, key y < key w) : IsTop key n (S ∪ R) W := by
  refine ⟨top.subset.trans Finset.subset_union_left, ?_, ?_⟩
  · have grown : n ≤ (S ∪ R).card :=
      (top.le_card full).trans (Finset.card_le_card Finset.subset_union_left)
    omega
  · intro x kept y yIn yOut
    rcases Finset.mem_union.1 yIn with old | new
    · exact top.above x kept y old yOut
    · exact below y new x kept

theorem insert_of_lt (top : IsTop key n S W) (full : W.card = n) {x : α}
    (below : ∀ w ∈ W, key x < key w) : IsTop key n (insert x S) W := by
  rw [Finset.insert_eq, Finset.union_comm]
  exact top.union_of_lt full fun y mem => Finset.mem_singleton.1 mem ▸ below

theorem eq_greatest (top : IsTop key n S W) : W = greatest key n S := by
  ext x
  rw [mem_greatest]
  constructor
  · intro kept
    refine ⟨top.subset kept, ?_⟩
    have aboveKept : (S.filter fun y => key x < key y) ⊆ W.erase x := by
      intro y mem
      obtain ⟨yIn, higher⟩ := Finset.mem_filter.1 mem
      have yKept : y ∈ W := by
        by_contra yOut
        exact absurd (top.above x kept y yIn yOut) (not_lt.2 higher.le)
      exact Finset.mem_erase.2 ⟨fun same => lt_irrefl (key x) (same ▸ higher), yKept⟩
    have count := Finset.card_le_card aboveKept
    rw [Finset.card_erase_of_mem kept] at count
    have positive : 0 < W.card := Finset.card_pos.2 ⟨x, kept⟩
    have := top.card_le
    omega
  · rintro ⟨xIn, few⟩
    by_contra xOut
    have keptAbove : W ⊆ S.filter fun y => key x < key y := fun w kept =>
      Finset.mem_filter.2 ⟨top.subset kept, top.above w kept x xIn xOut⟩
    have room : W.card < n := (Finset.card_le_card keptAbove).trans_lt few
    exact xOut ((top.eq_of_card_lt room) ▸ xIn)

end IsTop

/-! ### Lists in order of a key -/

section Sorted

variable {r : α → α → Prop} [DecidableRel r]

theorem pairwise_orderedInsert (compares : ∀ a b, r a b ↔ key a ≤ key b) {l : List α}
    (sorted : l.Pairwise fun a b => key a < key b) {x : α} (fresh : ∀ y ∈ l, key y ≠ key x) :
    (l.orderedInsert r x).Pairwise fun a b => key a < key b := by
  induction l with
  | nil => exact List.pairwise_singleton _ _
  | cons b rest ih =>
    obtain ⟨bBelow, restSorted⟩ := List.pairwise_cons.1 sorted
    by_cases before : r x b
    · have below : key x < key b :=
        lt_of_le_of_ne ((compares x b).1 before) (fresh b List.mem_cons_self).symm
      rw [List.orderedInsert_cons_of_le r rest before]
      refine List.Pairwise.cons (fun y mem => ?_) sorted
      rcases List.mem_cons.1 mem with rfl | later
      · exact below
      · exact below.trans (bBelow y later)
    · have above : key b < key x := not_le.1 fun le => before ((compares x b).2 le)
      rw [List.orderedInsert_of_not_le r rest before]
      refine List.Pairwise.cons (fun y mem => ?_)
        (ih restSorted fun y mem => fresh y (List.mem_cons_of_mem b mem))
      rcases (List.mem_orderedInsert _).1 mem with rfl | later
      · exact above
      · exact bBelow y later

end Sorted

end TopK
