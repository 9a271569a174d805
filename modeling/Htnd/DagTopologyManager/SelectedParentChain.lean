import Htnd.FinalityManager.FinalityPoint
import Htnd.ReachabilityManager.Stage
import Htnd.ReachabilityManager.OrderedTreeNodeSet

/-!
The selected-chain queries of the DAG topology and traversal managers (dagtopologymanager.go,
selected_child_iterator.go) are answered by the reachability tree: `IsInSelectedParentChainOf`
is `IsReachabilityTreeAncestorOf`, and `SelectedChild` is `FindNextAncestor`. AddBlock hangs
every block under its selected parent, and the genesis under the tree's root. On a well-formed
tree with these links the two queries answer as the selected chains do, which is what the sync,
finality and pruning managers assume of theirs (`Manager.Consistent`).
-/
namespace DagTopologyManager
open Utxo ReachabilityManager SyncManager Ghostdag Dag

variable (store : ReachabilityDataStore)

/-- `IsInSelectedParentChainOf` for two blocks other than the virtual. -/
def IsInSelectedParentChainOf (blockHashA blockHashB : DomainHash) : Except ReachabilityError Bool :=
  isReachabilityTreeAncestorOf store blockHashA blockHashB

/-- `SelectedChild`: every error of `FindNextAncestor` is errNoSelectedChild. -/
def SelectedChild (highHash lowHash : DomainHash) : Option DomainHash :=
  (FindNextAncestor store highHash lowHash).toOption

/-- The reachability tree that AddBlock builds over `blocks`: a well-formed tree in which the
    parent of a block is its selected parent, or the root for the block that has none. -/
structure SelectedParentTree (sm : Manager) (root : DomainHash) (blocks : Finset DomainHash) :
    Prop where
  wellFormed : WellFormed store root
  stored : ∀ b ∈ blocks, b ∈ store
  root_not_mem : root ∉ blocks
  treeParent_iff : ∀ c ∈ blocks, ∀ p, TreeParent store p c ↔
    sm.selectedParentOf c = some p ∨ sm.selectedParentOf c = none ∧ p = root

namespace SelectedParentTree

variable {store} {sm : Manager} {root : DomainHash} {blocks : Finset DomainHash}
  (tree : SelectedParentTree store sm root blocks)

section Root
include tree

theorem not_treeParent_root (p : DomainHash) : ¬ TreeParent store p root := by
  intro step
  obtain ⟨_, found, -⟩ := tree.wellFormed.parent_linked step
  have pStored : p ∈ store := AList.lookup_isSome.1 (by rw [found]; rfl)
  exact tree.wellFormed.not_below_child step (tree.wellFormed.laminar.root_ancestor pStored)

theorem eq_root_of_below_root {a : DomainHash} (below : Relation.ReflTransGen (TreeParent store) a root) :
    a = root := by
  rcases below.cases_tail with same | ⟨q, -, step⟩
  · exact same.symm
  · exact absurd step (tree.not_treeParent_root q)

theorem treeParent_of_selectedParentOf {c p : DomainHash} (mem : c ∈ blocks)
    (selected : sm.selectedParentOf c = some p) : TreeParent store p c :=
  (tree.treeParent_iff c mem p).2 (.inl selected)

theorem selectedParentOf_of_treeParent {c p : DomainHash} (mem : c ∈ blocks) (pMem : p ∈ blocks)
    (step : TreeParent store p c) : sm.selectedParentOf c = some p := by
  rcases (tree.treeParent_iff c mem p).1 step with selected | ⟨-, rfl⟩
  · exact selected
  · exact absurd pMem tree.root_not_mem

end Root

variable (data : sm.DataConsistent blocks)
include tree data

theorem mem_or_root {c p : DomainHash} (mem : c ∈ blocks) (step : TreeParent store p c) :
    p ∈ blocks ∨ p = root := by
  rcases (tree.treeParent_iff c mem p).1 step with selected | ⟨-, atRoot⟩
  · exact .inl (data.onChain_pastOrSelf mem (.single selected)).2
  · exact .inr atRoot

theorem mem_or_root_of_below {x b : DomainHash} (below : Relation.ReflTransGen (TreeParent store) x b)
    (mem : b ∈ blocks) : x ∈ blocks ∨ x = root := by
  induction below with
  | refl => exact .inl mem
  | @tail y z above step ih =>
    rcases tree.mem_or_root data mem step with yMem | rfl
    · exact ih yMem
    · exact .inr (tree.eq_root_of_below_root above)

theorem treeAncestor_of_onChain {a b : DomainHash} (chain : sm.OnChain a b) (mem : b ∈ blocks) :
    Relation.ReflTransGen (TreeParent store) a b := by
  induction chain with
  | refl => exact .refl
  | @tail x y _ selected ih =>
    have xMem := (data.onChain_pastOrSelf mem (.single selected)).2
    exact (ih xMem).tail (tree.treeParent_of_selectedParentOf mem selected)

theorem onChain_of_treeAncestor {a b : DomainHash} (aMem : a ∈ blocks)
    (below : Relation.ReflTransGen (TreeParent store) a b) (mem : b ∈ blocks) : sm.OnChain a b := by
  induction below with
  | refl => exact .refl
  | @tail x y above step ih =>
    rcases tree.mem_or_root data mem step with xMem | rfl
    · exact (ih xMem).tail (tree.selectedParentOf_of_treeParent mem xMem step)
    · rw [tree.eq_root_of_below_root above] at aMem
      exact absurd aMem tree.root_not_mem

theorem isInSelectedParentChainOf_iff {a b : DomainHash} (aMem : a ∈ blocks) (bMem : b ∈ blocks) :
    ∃ answer, IsInSelectedParentChainOf store a b = .ok answer ∧ (answer = true ↔ sm.OnChain a b) := by
  obtain ⟨answer, asked, decides⟩ := isReachabilityTreeAncestorOf_iff tree.wellFormed
    (tree.stored a aMem) (tree.stored b bMem)
  exact ⟨answer, asked, decides.trans ⟨fun below => tree.onChain_of_treeAncestor data aMem below bMem,
    fun chain => tree.treeAncestor_of_onChain data chain bMem⟩⟩

theorem selectedChild_iff {h c : DomainHash} (hMem : h ∈ blocks) (cMem : c ∈ blocks)
    (chain : sm.OnChain c h) (c' : DomainHash) :
    SelectedChild store h c = some c' ↔ sm.OnChain c' h ∧ sm.selectedParentOf c' = some c := by
  by_cases same : c = h
  · -- FindNextAncestor refuses a block as its own ancestor, and no block is its own selected child
    subst same
    have refused : SelectedChild store c c = none := by
      simp [SelectedChild, FindNextAncestor, bind, Except.bind, throw, throwThe, MonadExceptOf.throw,
        Except.toOption]
    rw [refused]
    constructor
    · intro found
      cases found
    · intro both
      exact absurd both.2 (data.selectedParentOf_ne cMem both.1)
  have path : Relation.TransGen (TreeParent store) c h :=
    (Relation.reflTransGen_iff_eq_or_transGen.1 (tree.treeAncestor_of_onChain data chain hMem)).resolve_left
      (Ne.symm same)
  obtain ⟨next, found, step, nextBelow⟩ := FindNextAncestor_eq_ok tree.wellFormed (tree.stored h hMem) path
  have nextMem : next ∈ blocks := (tree.mem_or_root_of_below data nextBelow hMem).resolve_right
    fun atRoot => tree.not_treeParent_root c (atRoot ▸ step)
  have nextChain := tree.onChain_of_treeAncestor data nextMem nextBelow hMem
  have selected := tree.selectedParentOf_of_treeParent nextMem cMem step
  rw [SelectedChild, found]
  constructor
  · intro found
    cases found
    exact ⟨nextChain, selected⟩
  · intro both
    obtain ⟨c'Chain, c'Selected⟩ := both
    have c'Mem := (data.onChain_pastOrSelf hMem c'Chain).2
    by_contra other
    exact tree.wellFormed.treeLinks.forest.not_below_siblings step
      (tree.treeParent_of_selectedParentOf c'Mem c'Selected) (fun equal => other (congrArg some equal))
      nextBelow (tree.treeAncestor_of_onChain data c'Chain hMem)

end SelectedParentTree

/-- **The reachability tree answers the selected-chain queries.** A manager whose two queries are
    answered by the reachability tree that AddBlock builds over its blocks is consistent in the
    sense the anti-past, finality and pruning results assume. -/
theorem consistent_of_reachability {sm : Manager} {root : DomainHash} {blocks : Finset DomainHash}
    (tree : SelectedParentTree store sm root blocks) (data : sm.DataConsistent blocks)
    (isAncestorOf_iff : ∀ a ∈ blocks, ∀ b ∈ blocks,
      sm.ghostdagManager.isAncestorOf a b = true ↔ PastOrSelf sm.ghostdagManager.parents a b)
    (inChain : ∀ a ∈ blocks, ∀ b ∈ blocks,
      IsInSelectedParentChainOf store a b = .ok (sm.isInSelectedParentChainOf a b))
    (selectedChild : ∀ h ∈ blocks, ∀ c ∈ blocks, sm.findNextAncestor h c = SelectedChild store h c) :
    sm.Consistent blocks where
  toDataConsistent := data
  isAncestorOf_iff := isAncestorOf_iff
  isInSelectedParentChainOf_iff a aMem b bMem := by
    obtain ⟨answer, asked, decides⟩ := tree.isInSelectedParentChainOf_iff data aMem bMem
    rw [← Except.ok.inj ((inChain a aMem b bMem).symm.trans asked)] at decides
    exact decides
  findNextAncestor_iff h hMem c cMem chain c' := by
    rw [selectedChild h hMem c cMem]
    exact tree.selectedChild_iff data hMem cMem chain c'

/-- The reachability tree AddBlock builds over the diamond of `Ghostdag.diamond`: the genesis
    under the root `4`, the blocks `1` and `2` under the genesis, and the tip `3` under its
    selected parent `2`. -/
def diamondTree : ReachabilityDataStore :=
  (((((∅ : ReachabilityDataStore).insert ⟨3⟩ ⟨[], some ⟨2⟩, ⟨101, 200⟩⟩).insert ⟨2⟩
    ⟨[⟨3⟩], some ⟨0⟩, ⟨101, 500⟩⟩).insert ⟨1⟩ ⟨[], some ⟨0⟩, ⟨1, 100⟩⟩).insert ⟨0⟩
    ⟨[⟨1⟩, ⟨2⟩], some ⟨4⟩, ⟨1, 1000⟩⟩).insert ⟨4⟩ ⟨[⟨0⟩], none, ⟨1, 2 ^ 64 - 2⟩⟩

def diamondTopology : Manager where
  ghostdagManager := Finality.FinalityManager.diamondRun
  isInSelectedParentChainOf a b := (IsInSelectedParentChainOf diamondTree a b).toOption.getD false
  findNextAncestor := SelectedChild diamondTree
  mergeSetSizeLimit := 0

theorem treeParent_iff_lookup {p c : DomainHash} :
    TreeParent store p c ↔ (store.lookup c).bind ReachabilityData.parent = some p :=
  Option.bind_eq_some_iff.symm

set_option maxRecDepth 4000 in
theorem consistent_of_reachability_diamond :
    let blocks := [(⟨0⟩ : DomainHash), ⟨1⟩, ⟨2⟩, ⟨3⟩].toFinset
    SelectedParentTree diamondTree diamondTopology ⟨4⟩ blocks ∧ diamondTopology.DataConsistent blocks ∧
      (∀ a ∈ blocks, ∀ b ∈ blocks, diamondTopology.ghostdagManager.isAncestorOf a b = true ↔
        PastOrSelf diamondTopology.ghostdagManager.parents a b) ∧
      (∀ a ∈ blocks, ∀ b ∈ blocks,
        IsInSelectedParentChainOf diamondTree a b = .ok (diamondTopology.isInSelectedParentChainOf a b)) ∧
      (∀ h ∈ blocks, ∀ c ∈ blocks, diamondTopology.findNextAncestor h c = SelectedChild diamondTree h c) ∧
      diamondTopology.Consistent blocks := by
  intro blocks
  obtain ⟨gm', ran, inv⟩ := RunInvariant.of_ghostdagRun diamond_valid.toDagInput
    (by decide : [(⟨0⟩ : DomainHash), ⟨1⟩, ⟨2⟩, ⟨3⟩].length < 5)
  obtain rfl : Finality.FinalityManager.diamondRun = gm' :=
    GoSemantics.pure_inj ((rfl : diamond.ghostdagRun 5 _ = pure Finality.FinalityManager.diamondRun).symm.trans ran)
  have wf : WellFormed diamondTree ⟨4⟩ := ⟨by decide, by decide, by decide, by decide, by decide⟩
  have tree : SelectedParentTree diamondTree diamondTopology ⟨4⟩ blocks := by
    refine ⟨wf, by decide, by decide, fun c mem p => ?_⟩
    simp only [blocks, List.toFinset_cons, List.toFinset_nil, Finset.mem_insert, Finset.mem_singleton,
      insert_empty_eq] at mem
    rw [treeParent_iff_lookup]
    rcases mem with rfl | rfl | rfl | rfl
    · rw [show (diamondTree.lookup ⟨0⟩).bind ReachabilityData.parent = some ⟨4⟩ by decide,
        show diamondTopology.selectedParentOf ⟨0⟩ = none by decide]
      simp [eq_comm]
    · rw [show (diamondTree.lookup ⟨1⟩).bind ReachabilityData.parent = some ⟨0⟩ by decide,
        show diamondTopology.selectedParentOf ⟨1⟩ = some ⟨0⟩ by decide]
      simp
    · rw [show (diamondTree.lookup ⟨2⟩).bind ReachabilityData.parent = some ⟨0⟩ by decide,
        show diamondTopology.selectedParentOf ⟨2⟩ = some ⟨0⟩ by decide]
      simp
    · rw [show (diamondTree.lookup ⟨3⟩).bind ReachabilityData.parent = some ⟨2⟩ by decide,
        show diamondTopology.selectedParentOf ⟨3⟩ = some ⟨2⟩ by decide]
      simp
  have data : diamondTopology.DataConsistent blocks := Manager.dataConsistent_of_runInvariant inv
  have isAncestorOf_iff : ∀ a ∈ blocks, ∀ b ∈ blocks, diamondTopology.ghostdagManager.isAncestorOf a b = true ↔
      PastOrSelf diamondTopology.ghostdagManager.parents a b := fun a aMem b bMem =>
    diamond_valid.isAncestorOf_iff a (List.mem_toFinset.mp aMem) b (List.mem_toFinset.mp bMem)
  have inChain : ∀ a ∈ blocks, ∀ b ∈ blocks,
      IsInSelectedParentChainOf diamondTree a b = .ok (diamondTopology.isInSelectedParentChainOf a b) := by
    intro a aMem b bMem
    obtain ⟨answer, asked, -⟩ := isReachabilityTreeAncestorOf_iff wf (tree.stored a aMem) (tree.stored b bMem)
    change IsInSelectedParentChainOf diamondTree a b = .ok ((IsInSelectedParentChainOf diamondTree a b).toOption.getD false)
    rw [IsInSelectedParentChainOf, asked]
    rfl
  exact ⟨tree, data, isAncestorOf_iff, inChain, fun _ _ _ _ => rfl,
    consistent_of_reachability diamondTree tree data isAncestorOf_iff inChain fun _ _ _ _ => rfl⟩

end DagTopologyManager
