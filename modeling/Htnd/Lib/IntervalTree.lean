import Mathlib

/-!
Trees whose nodes carry intervals: each node's interval is nonempty, lies inside its parent's
and ends strictly before it, and the intervals of two children of one node are disjoint. Then
one node's interval contains another's exactly when the first is an ancestor of the second, or
the node itself. The intervals are `[lo x, hi x]` with inclusive ends, below `bound`.
-/
namespace IntervalTree

variable {α : Type*}

def Contains (lo hi : α → Nat) (a b : α) : Prop := lo a ≤ lo b ∧ hi b ≤ hi a

structure Laminar (nodes : Set α) (parent : α → α → Prop) (root : α) (lo hi : α → Nat)
    (bound : Nat) : Prop where
  nonempty : ∀ x ∈ nodes, lo x ≤ hi x
  parent_mem : ∀ p c, parent p c → c ∈ nodes → p ∈ nodes
  inside : ∀ p c, parent p c → c ∈ nodes → lo p ≤ lo c ∧ hi c < hi p
  siblings : ∀ p c₁ c₂, parent p c₁ → parent p c₂ → c₁ ∈ nodes → c₂ ∈ nodes → c₁ ≠ c₂ →
    hi c₁ < lo c₂ ∨ hi c₂ < lo c₁
  rooted : ∀ x ∈ nodes, x = root ∨ ∃ p, parent p x
  root_mem : root ∈ nodes
  bounded : ∀ x ∈ nodes, hi x < bound

variable {nodes : Set α} {parent : α → α → Prop} {root : α} {lo hi : α → Nat} {bound : Nat}

namespace Laminar

variable (laminar : Laminar nodes parent root lo hi bound)
include laminar

theorem contains_of_ancestor {a b : α} (ancestor : Relation.ReflTransGen parent a b)
    (mem : b ∈ nodes) : Contains lo hi a b ∧ (a ≠ b → hi b < hi a) := by
  induction ancestor using Relation.ReflTransGen.head_induction_on with
  | refl => exact ⟨⟨Nat.le_refl _, Nat.le_refl _⟩, fun ne => absurd rfl ne⟩
  | @head x c step rest ih =>
    obtain ⟨⟨loC, hiC⟩, _⟩ := ih
    have cMem : c ∈ nodes := by
      rcases Relation.reflTransGen_iff_eq_or_transGen.mp rest with rfl | path
      · exact mem
      · exact Relation.TransGen.head_induction_on path
          (fun step => laminar.parent_mem _ _ step mem)
          (fun step _ ih => laminar.parent_mem _ _ step ih)
    obtain ⟨loX, hiX⟩ := laminar.inside x c step cMem
    exact ⟨⟨Nat.le_trans loX loC, Nat.le_trans hiC (Nat.le_of_lt hiX)⟩,
      fun _ => Nat.lt_of_le_of_lt hiC hiX⟩

theorem mem_of_ancestor {a b : α} (ancestor : Relation.ReflTransGen parent a b) (mem : b ∈ nodes) :
    a ∈ nodes := by
  induction ancestor using Relation.ReflTransGen.head_induction_on with
  | refl => exact mem
  | head step _ ih => exact laminar.parent_mem _ _ step ih

theorem root_ancestor {x : α} (mem : x ∈ nodes) : Relation.ReflTransGen parent root x := by
  induction h : bound - hi x using Nat.strongRecOn generalizing x with
  | ind n ih =>
    rcases laminar.rooted x mem with rfl | ⟨p, step⟩
    · exact Relation.ReflTransGen.refl
    · have pMem := laminar.parent_mem p x step mem
      have further := (laminar.inside p x step mem).2
      have below := laminar.bounded p pMem
      exact Relation.ReflTransGen.tail (ih (bound - hi p) (by omega) pMem rfl) step

theorem disjoint_of_unrelated {x y : α} (xMem : x ∈ nodes) (yMem : y ∈ nodes)
    (xy : ¬ Relation.ReflTransGen parent x y) (yx : ¬ Relation.ReflTransGen parent y x) :
    hi x < lo y ∨ hi y < lo x := by
  induction h : bound - hi x using Nat.strongRecOn generalizing x with
  | ind n ih =>
    rcases laminar.rooted x xMem with rfl | ⟨p, step⟩
    · exact absurd (laminar.root_ancestor yMem) xy
    have pMem := laminar.parent_mem p x step xMem
    obtain ⟨loP, hiP⟩ := laminar.inside p x step xMem
    by_cases py : Relation.ReflTransGen parent p y
    · -- `y` lies under a child `c` of `p` other than `x`, whose interval is disjoint from `x`'s
      rcases Relation.reflTransGen_iff_eq_or_transGen.mp py with rfl | path
      · exact absurd (Relation.ReflTransGen.single step) yx
      obtain ⟨c, pc, cy⟩ := Relation.TransGen.head'_iff.mp path
      have cMem := laminar.mem_of_ancestor cy yMem
      have cx : c ≠ x := by
        rintro rfl
        exact xy cy
      obtain ⟨⟨loC, hiC⟩, _⟩ := laminar.contains_of_ancestor cy yMem
      have yNonempty := laminar.nonempty y yMem
      rcases laminar.siblings p c x pc step cMem xMem cx with apart | apart
      · right
        omega
      · left
        omega
    · have yp : ¬ Relation.ReflTransGen parent y p :=
        fun yp => yx (Relation.ReflTransGen.tail yp step)
      have below := laminar.bounded p pMem
      rcases ih (bound - hi p) (by omega) pMem py yp rfl with apart | apart
      · left
        omega
      · right
        omega

theorem contains_iff {a b : α} (aMem : a ∈ nodes) (bMem : b ∈ nodes) :
    Contains lo hi a b ↔ Relation.ReflTransGen parent a b := by
  constructor
  · intro contains
    by_cases ancestor : Relation.ReflTransGen parent a b
    · exact ancestor
    exfalso
    by_cases ba : Relation.ReflTransGen parent b a
    · rcases Relation.reflTransGen_iff_eq_or_transGen.mp ba with rfl | path
      · exact ancestor Relation.ReflTransGen.refl
      · have ne : b ≠ a := by
          rintro rfl
          exact ancestor Relation.ReflTransGen.refl
        have shorter := (laminar.contains_of_ancestor ba aMem).2 ne
        exact absurd contains.2 (Nat.not_le.mpr shorter)
    · have bNonempty := laminar.nonempty b bMem
      rcases laminar.disjoint_of_unrelated aMem bMem ancestor ba with apart | apart
      · exact absurd contains (by unfold Contains; omega)
      · exact absurd contains (by unfold Contains; omega)
  · intro ancestor
    exact (laminar.contains_of_ancestor ancestor bMem).1

end Laminar

/-! ### Subtree sizes -/

section Count

variable (nodes : Finset α) (parent : α → α → Prop)

open Classical in
noncomputable def subtree (x : α) : Finset α := nodes.filter (Relation.ReflTransGen parent x)

variable {nodes parent}

theorem mem_subtree {x y : α} :
    y ∈ subtree nodes parent x ↔ y ∈ nodes ∧ Relation.ReflTransGen parent x y := by
  simp [subtree]

theorem subtree_subset {x y : α} (below : Relation.ReflTransGen parent x y) :
    subtree nodes parent y ⊆ subtree nodes parent x := by
  intro z mem
  obtain ⟨zMem, yz⟩ := mem_subtree.1 mem
  exact mem_subtree.2 ⟨zMem, below.trans yz⟩

variable (laminar : Laminar ↑nodes parent root lo hi bound)
include laminar

theorem Laminar.not_mem_subtree_child {x c : α} (step : parent x c) (xMem : x ∈ nodes)
    (cMem : c ∈ nodes) : x ∉ subtree nodes parent c := by
  intro mem
  have inside := (laminar.inside x c step cMem).2
  have contained := (laminar.contains_of_ancestor (mem_subtree.1 mem).2 xMem).1.2
  omega

theorem Laminar.card_subtree_lt {x c : α} (step : parent x c) (xMem : x ∈ nodes) (cMem : c ∈ nodes) :
    (subtree nodes parent c).card < (subtree nodes parent x).card :=
  Finset.card_lt_card ⟨subtree_subset (Relation.ReflTransGen.single step),
    fun sub => laminar.not_mem_subtree_child step xMem cMem
      (sub (mem_subtree.2 ⟨xMem, Relation.ReflTransGen.refl⟩))⟩

variable [DecidableEq α] in
theorem Laminar.card_subtree {x : α} (mem : x ∈ nodes) {children : List α} (nodup : children.Nodup)
    (isChild : ∀ c, c ∈ children ↔ c ∈ nodes ∧ parent x c) :
    (subtree nodes parent x).card = 1 + (children.map fun c => (subtree nodes parent c).card).sum := by
  have split : subtree nodes parent x = insert x (children.toFinset.biUnion (subtree nodes parent)) := by
    ext y
    simp only [mem_subtree, Finset.mem_insert, Finset.mem_biUnion, List.mem_toFinset]
    constructor
    · rintro ⟨yMem, below⟩
      rcases Relation.reflTransGen_iff_eq_or_transGen.1 below with rfl | path
      · exact Or.inl rfl
      · obtain ⟨c, step, rest⟩ := Relation.TransGen.head'_iff.1 path
        exact Or.inr ⟨c, (isChild c).2 ⟨laminar.mem_of_ancestor rest yMem, step⟩, yMem, rest⟩
    · rintro (rfl | ⟨c, child, yMem, below⟩)
      · exact ⟨mem, Relation.ReflTransGen.refl⟩
      · exact ⟨yMem, Relation.ReflTransGen.head ((isChild c).1 child).2 below⟩
  have rootOutside : x ∉ children.toFinset.biUnion (subtree nodes parent) := by
    simp only [Finset.mem_biUnion, List.mem_toFinset, not_exists, not_and]
    intro c child
    obtain ⟨cMem, step⟩ := (isChild c).1 child
    exact laminar.not_mem_subtree_child step mem cMem
  have disjoint : (↑children.toFinset : Set α).PairwiseDisjoint (subtree nodes parent) := by
    intro c₁ child₁ c₂ child₂ distinct
    obtain ⟨c₁Mem, step₁⟩ := (isChild c₁).1 (List.mem_toFinset.1 child₁)
    obtain ⟨c₂Mem, step₂⟩ := (isChild c₂).1 (List.mem_toFinset.1 child₂)
    rw [Function.onFun, Finset.disjoint_left]
    intro y below₁ below₂
    obtain ⟨yMem, path₁⟩ := mem_subtree.1 below₁
    have in₁ := (laminar.contains_of_ancestor path₁ yMem).1
    have in₂ := (laminar.contains_of_ancestor (mem_subtree.1 below₂).2 yMem).1
    have yNonempty := laminar.nonempty y yMem
    unfold Contains at in₁ in₂
    rcases laminar.siblings x c₁ c₂ step₁ step₂ c₁Mem c₂Mem distinct with apart | apart <;> omega
  rw [split, Finset.card_insert_of_notMem rootOutside, Finset.card_biUnion disjoint,
    List.sum_toFinset _ nodup, Nat.add_comm]

end Count

theorem length_le_of_apart {l : List α} {a b : Nat} (apart : l.Pairwise fun x y => hi x < lo y)
    (nonempty : ∀ x ∈ l, lo x ≤ hi x) (inside : ∀ x ∈ l, a ≤ lo x ∧ hi x < b) :
    l.length ≤ b - a := by
  induction l generalizing a with
  | nil => exact Nat.zero_le _
  | cons x rest ih =>
    obtain ⟨before, restApart⟩ := List.pairwise_cons.1 apart
    have restLength : rest.length ≤ b - (hi x + 1) :=
      ih restApart (fun y mem => nonempty y (List.mem_cons_of_mem x mem))
        (fun y mem => ⟨before y mem, (inside y (List.mem_cons_of_mem x mem)).2⟩)
    have xNonempty := nonempty x List.mem_cons_self
    have xInside := inside x List.mem_cons_self
    rw [List.length_cons]
    omega

end IntervalTree
