import Mathlib
import Htnd.Lib.IntervalTree

/-!
Forests given by a parent relation: no node has two parents, and no node lies below itself.
The ancestors of a node then form a chain, the subtrees of two children of one node do not meet,
and a subtree is its root and the subtrees of the root's children. Unlike `IntervalTree`, nothing
here needs intervals: these are the facts a tree keeps while its intervals are being rebuilt.
-/
namespace Forest

open IntervalTree

variable {α : Type*} (parent : α → α → Prop)

structure IsForest : Prop where
  unique : ∀ p q c, parent p c → parent q c → p = q
  acyclic : ∀ x, ¬ Relation.TransGen parent x x

structure IsLowestCommonAncestor (x y c : α) : Prop where
  left : Relation.ReflTransGen parent c x
  right : Relation.ReflTransGen parent c y
  lowest : ∀ a, Relation.ReflTransGen parent a x → Relation.ReflTransGen parent a y → Relation.ReflTransGen parent a c

variable {parent}

namespace IsForest

variable (forest : IsForest parent)
include forest

theorem not_below_child {x c : α} (step : parent x c) : ¬ Relation.ReflTransGen parent c x :=
  fun below => forest.acyclic x (Relation.TransGen.head' step below)

theorem below_parent {a p c : α} (below : Relation.ReflTransGen parent a c) (step : parent p c)
    (other : a ≠ c) : Relation.ReflTransGen parent a p := by
  rcases below.cases_tail with same | ⟨q, rest, last⟩
  · exact absurd same.symm other
  · rwa [forest.unique p q c step last]

theorem ancestors_ordered {a b y : α} (aBelow : Relation.ReflTransGen parent a y)
    (bBelow : Relation.ReflTransGen parent b y) :
    Relation.ReflTransGen parent a b ∨ Relation.ReflTransGen parent b a := by
  induction bBelow with
  | refl => exact Or.inl aBelow
  | @tail z y bz step ih =>
    by_cases same : a = y
    · subst same
      exact Or.inr (bz.tail step)
    · exact ih (forest.below_parent aBelow step same)

theorem not_below_siblings {x c₁ c₂ y : α} (step₁ : parent x c₁) (step₂ : parent x c₂)
    (distinct : c₁ ≠ c₂) (below₁ : Relation.ReflTransGen parent c₁ y)
    (below₂ : Relation.ReflTransGen parent c₂ y) : False := by
  rcases forest.ancestors_ordered below₁ below₂ with path | path
  · exact forest.not_below_child step₁ (forest.below_parent path step₂ distinct)
  · exact forest.not_below_child step₂ (forest.below_parent path step₁ (Ne.symm distinct))

variable {nodes : Finset α} [DecidableEq α] in
theorem card_subtree {x : α} (mem : x ∈ nodes) {children : List α} (nodup : children.Nodup)
    (isChild : ∀ c, c ∈ children ↔ parent x c) :
    (subtree nodes parent x).card = 1 + (children.map fun c => (subtree nodes parent c).card).sum := by
  have split : subtree nodes parent x = insert x (children.toFinset.biUnion (subtree nodes parent)) := by
    ext y
    simp only [mem_subtree, Finset.mem_insert, Finset.mem_biUnion, List.mem_toFinset]
    constructor
    · rintro ⟨yMem, below⟩
      rcases Relation.reflTransGen_iff_eq_or_transGen.1 below with rfl | path
      · exact Or.inl rfl
      · obtain ⟨c, step, rest⟩ := Relation.TransGen.head'_iff.1 path
        exact Or.inr ⟨c, (isChild c).2 step, yMem, rest⟩
    · rintro (rfl | ⟨c, child, yMem, below⟩)
      · exact ⟨mem, Relation.ReflTransGen.refl⟩
      · exact ⟨yMem, Relation.ReflTransGen.head ((isChild c).1 child) below⟩
  have rootOutside : x ∉ children.toFinset.biUnion (subtree nodes parent) := by
    simp only [Finset.mem_biUnion, List.mem_toFinset, not_exists, not_and]
    intro c child below
    exact forest.not_below_child ((isChild c).1 child) (mem_subtree.1 below).2
  have disjoint : (↑children.toFinset : Set α).PairwiseDisjoint (subtree nodes parent) := by
    intro c₁ child₁ c₂ child₂ distinct
    rw [Function.onFun, Finset.disjoint_left]
    intro y below₁ below₂
    exact forest.not_below_siblings ((isChild c₁).1 (List.mem_toFinset.1 child₁))
      ((isChild c₂).1 (List.mem_toFinset.1 child₂)) distinct (mem_subtree.1 below₁).2
      (mem_subtree.1 below₂).2
  rw [split, Finset.card_insert_of_notMem rootOutside, Finset.card_biUnion disjoint,
    List.sum_toFinset _ nodup, Nat.add_comm]

end IsForest

/-! ### Adding a leaf

`parent'` is `parent` with one more edge, from `p` to a node `l` that `parent` leaves without a
parent and without children. Paths that do not end at `l` are the old ones, and a forest stays a
forest. -/

section AddLeaf

variable {parent' : α → α → Prop} {p l : α} (edges : ∀ a b, parent' a b ↔ parent a b ∨ (a = p ∧ b = l))
include edges

theorem reflTransGen_addLeaf {a b : α} (path : Relation.ReflTransGen parent a b) :
    Relation.ReflTransGen parent' a b :=
  Relation.ReflTransGen.mono (fun c d step => (edges c d).2 (Or.inl step)) a b path

variable (leaf : ∀ b, ¬ parent l b) (distinct : p ≠ l)
include leaf distinct

theorem not_parent_leaf (b : α) : ¬ parent' l b := by
  rw [edges]
  rintro (old | ⟨same, -⟩)
  · exact leaf b old
  · exact distinct same.symm

theorem reflTransGen_of_addLeaf {a b : α} (path : Relation.ReflTransGen parent' a b) (other : b ≠ l) :
    Relation.ReflTransGen parent a b := by
  induction path with
  | refl => exact Relation.ReflTransGen.refl
  | @tail c b _ step ih =>
    have old : parent c b := ((edges c b).1 step).resolve_right fun ⟨_, isLeaf⟩ => other isLeaf
    have notLeaf : c ≠ l := fun isLeaf => not_parent_leaf edges leaf distinct b (isLeaf ▸ step)
    exact (ih notLeaf).tail old

variable (orphan : ∀ a, ¬ parent a l)
include orphan

theorem reflTransGen_leaf_iff {a : α} :
    Relation.ReflTransGen parent' a l ↔ a = l ∨ Relation.ReflTransGen parent a p := by
  constructor
  · intro path
    rcases path.cases_tail with same | ⟨c, rest, last⟩
    · exact Or.inl same.symm
    · rcases (edges c l).1 last with old | ⟨rfl, -⟩
      · exact absurd old (orphan c)
      · exact Or.inr (reflTransGen_of_addLeaf edges leaf distinct rest distinct)
  · rintro (rfl | above)
    · exact Relation.ReflTransGen.refl
    · exact (reflTransGen_addLeaf edges above).tail ((edges p l).2 (Or.inr ⟨rfl, rfl⟩))

theorem IsForest.addLeaf (forest : IsForest parent) : IsForest parent' where
  unique a b c stepA stepB := by
    rcases (edges a c).1 stepA with oldA | ⟨isA, isLeafA⟩ <;>
      rcases (edges b c).1 stepB with oldB | ⟨isB, isLeafB⟩
    · exact forest.unique a b c oldA oldB
    · exact absurd (isLeafB ▸ oldA) (orphan a)
    · exact absurd (isLeafA ▸ oldB) (orphan b)
    · rw [isA, isB]
  acyclic x cycle := by
    obtain ⟨y, step, back⟩ := Relation.TransGen.head'_iff.1 cycle
    have notLeaf : x ≠ l := fun isLeaf => not_parent_leaf edges leaf distinct y (isLeaf ▸ step)
    have backOld := reflTransGen_of_addLeaf edges leaf distinct back notLeaf
    have yNotLeaf : y ≠ l := by
      rintro rfl
      rcases backOld.cases_head with same | ⟨z, first, -⟩
      · exact notLeaf same.symm
      · exact leaf z first
    have old : parent x y := ((edges x y).1 step).resolve_right fun ⟨_, isLeaf⟩ => yNotLeaf isLeaf
    exact forest.acyclic x (Relation.TransGen.head' old backOld)

omit orphan in
theorem mem_subtree_addLeaf {nodes : Finset α} [DecidableEq α] {x y : α} (notLeaf : y ≠ l) :
    y ∈ subtree (insert l nodes) parent' x ↔ y ∈ subtree nodes parent x := by
  simp only [mem_subtree, Finset.mem_insert, notLeaf, false_or]
  exact and_congr_right fun _ =>
    ⟨fun path => reflTransGen_of_addLeaf edges leaf distinct path notLeaf, reflTransGen_addLeaf edges⟩

variable {nodes : Finset α} [DecidableEq α] (outside : l ∉ nodes)
include outside

theorem card_subtree_addLeaf_of_above {x : α} (above : Relation.ReflTransGen parent x p) :
    (subtree (insert l nodes) parent' x).card = (subtree nodes parent x).card + 1 := by
  have grown : subtree (insert l nodes) parent' x = insert l (subtree nodes parent x) := by
    ext y
    by_cases isLeaf : y = l
    · subst isLeaf
      simp [mem_subtree, (reflTransGen_leaf_iff edges leaf distinct orphan).2 (Or.inr above)]
    · rw [mem_subtree_addLeaf edges leaf distinct isLeaf, Finset.mem_insert]
      simp [isLeaf]
  rw [grown, Finset.card_insert_of_notMem fun mem => outside (mem_subtree.1 mem).1]

end AddLeaf

end Forest
