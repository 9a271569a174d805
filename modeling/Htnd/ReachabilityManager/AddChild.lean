import Mathlib
import Htnd.ReachabilityManager.ReindexIntervals

/-!
Adding a block to the reachability tree (tree.go, stage.go). AddBlock stages fresh data for the new
block and calls addChild, which links it under its selected parent as the last child. When the
parent has room after its last child, the left half of that room is the new block's interval;
when it has none, the new block gets the empty interval there and reindexIntervals makes room.

Below the reindex root, that reindex restores the tree: the walk up meets a block with room for its
subtree before it leaves the reindex root's subtree, unless the reindex root has none itself, and
then the reindex fails.
-/
namespace ReachabilityManager
open GoSemantics Utxo

def newReachabilityTreeData : ReachabilityData := ⟨[], none, ⟨1, 18446744073709551615 - 1⟩⟩

variable (store : ReachabilityDataStore)

def stageData (blockHash : DomainHash) (data : ReachabilityData) : ReachabilityDataStore :=
  store.insert blockHash data

def stageAddChild (node child : DomainHash) : ReachabilityDataStore :=
  let nodeData := reachabilityDataForInsertion store node
  stageData store node { nodeData with children := nodeData.children ++ [child] }

def stageParent (node parent : DomainHash) : ReachabilityDataStore :=
  stageData store node { reachabilityDataForInsertion store node with parent := some parent }

variable (fuel : Nat) (reindexSlack : UInt64)

def addChild (node child reindexRoot : DomainHash) : ReindexM ReachabilityDataStore := do
  let remaining ← liftReachability (remainingIntervalAfter store node)
  let linked := stageParent (stageAddChild store node child) child node
  if intervalSize remaining = 0 then
    -- no room left at the parent: the child starts with the empty interval after its siblings
    let reindexed ← reindexIntervals (stageInterval linked child remaining) fuel reindexSlack
      ⟨fun _ => none⟩ child reindexRoot
    pure reindexed.2
  else
    let allocated ← ExceptT.mk (some ((intervalSplitInHalf remaining).mapError .split))
    pure (stageInterval linked child allocated.1)

structure AddsLeaf (store' : ReachabilityDataStore) (node child : DomainHash) (interval : ReachabilityInterval) :
    Prop where
  fresh : child ∉ store
  child_lookup : store'.lookup child = some ⟨[], some node, interval⟩
  node_lookup : ∀ data, store.lookup node = some data →
    store'.lookup node = some { data with children := data.children ++ [child] }
  others : ∀ y, y ≠ node → y ≠ child → store'.lookup y = store.lookup y

variable {store fuel reindexSlack}

/-! ### The tree with the new leaf -/

namespace AddsLeaf

variable {store' : ReachabilityDataStore} {node child : DomainHash} {i : ReachabilityInterval}
  (adds : AddsLeaf store store' node child i) (nodeStored : node ∈ store)
include adds nodeStored

theorem node_ne_child : node ≠ child := fun same => adds.fresh (same ▸ nodeStored)

theorem interval_eq {y : DomainHash} (other : y ≠ child) : interval store' y = interval store y := by
  by_cases isNode : y = node
  · subst isNode
    obtain ⟨data, found⟩ := lookup_of_mem nodeStored
    simp [interval, reachabilityData, adds.node_lookup data found, found]
  · exact interval_congr (adds.others y isNode other)

theorem startOf_eq_of_ne {y : DomainHash} (other : y ≠ child) : startOf store' y = startOf store y := by
  by_cases isNode : y = node
  · subst isNode
    obtain ⟨data, found⟩ := lookup_of_mem nodeStored
    rw [startOf_eq (adds.node_lookup data found), startOf_eq found]
  · exact startOf_congr (adds.others y isNode other)

theorem endOf_eq_of_ne {y : DomainHash} (other : y ≠ child) : endOf store' y = endOf store y := by
  by_cases isNode : y = node
  · subst isNode
    obtain ⟨data, found⟩ := lookup_of_mem nodeStored
    rw [endOf_eq (adds.node_lookup data found), endOf_eq found]
  · exact endOf_congr (adds.others y isNode other)

theorem mem_iff {y : DomainHash} : y ∈ store' ↔ y ∈ store ∨ y = child := by
  rw [← AList.lookup_isSome, ← AList.lookup_isSome]
  by_cases isChild : y = child
  · subst isChild
    simp [adds.child_lookup]
  by_cases isNode : y = node
  · subst isNode
    obtain ⟨data, found⟩ := lookup_of_mem nodeStored
    simp [adds.node_lookup data found, found]
  · simp [adds.others y isNode isChild, isChild]

theorem treeParent_iff {p c : DomainHash} : TreeParent store' p c ↔ TreeParent store p c ∨ (p = node ∧ c = child) := by
  by_cases isChild : c = child
  · subst isChild
    have unstored : store.lookup c = none := AList.lookup_eq_none.2 adds.fresh
    simp [TreeParent, adds.child_lookup, unstored, eq_comm]
  by_cases isNode : c = node
  · subst isNode
    obtain ⟨data, found⟩ := lookup_of_mem nodeStored
    simp [TreeParent, adds.node_lookup data found, found, isChild]
  · simp [TreeParent, adds.others c isNode isChild, isChild]

theorem childrenOf_eq {x : DomainHash} :
    childrenOf store' x = if x = node then childrenOf store x ++ [child] else childrenOf store x := by
  by_cases isNode : x = node
  · subst isNode
    obtain ⟨data, found⟩ := lookup_of_mem nodeStored
    simp [childrenOf, adds.node_lookup data found, found]
  by_cases isChild : x = child
  · subst isChild
    have unstored : store.lookup x = none := AList.lookup_eq_none.2 adds.fresh
    simp [childrenOf, adds.child_lookup, unstored, isNode]
  · simp [childrenOf, adds.others x isNode isChild, isNode]

theorem keys_toFinset : store'.keys.toFinset = insert child store.keys.toFinset := by
  ext y
  rw [mem_keys_toFinset, Finset.mem_insert, mem_keys_toFinset, adds.mem_iff nodeStored, or_comm]

theorem reflTransGen_of_above {x y : DomainHash} (path : Relation.ReflTransGen (TreeParent store) x y) :
    Relation.ReflTransGen (TreeParent store') x y :=
  Forest.reflTransGen_addLeaf (fun _ _ => adds.treeParent_iff nodeStored) path

theorem parent_eq {y : DomainHash} (other : y ≠ child) : parent store' y = parent store y := by
  by_cases isNode : y = node
  · subst isNode
    obtain ⟨data, found⟩ := lookup_of_mem nodeStored
    simp [parent, reachabilityData, adds.node_lookup data found, found]
  · simp only [parent, reachabilityData, adds.others y isNode other]

theorem isStrictAncestorOf_eq {a b : DomainHash} (aOther : a ≠ child) (bOther : b ≠ child) :
    isStrictAncestorOf store' a b = isStrictAncestorOf store a b := by
  simp only [isStrictAncestorOf, isReachabilityTreeAncestorOf, adds.interval_eq nodeStored aOther,
    adds.interval_eq nodeStored bOther]

theorem links_eq (y : DomainHash) :
    links store' y = if y = child then some ([], some node)
      else if y = node then (links store node).map fun l => (l.1 ++ [child], l.2) else links store y := by
  by_cases isChild : y = child
  · subst isChild
    simp [links, adds.child_lookup]
  by_cases isNode : y = node
  · subst isNode
    obtain ⟨data, found⟩ := lookup_of_mem nodeStored
    simp [links, isChild, adds.node_lookup data found, found]
  · simp [links, isChild, isNode, adds.others y isNode isChild]

omit nodeStored in
theorem orphan (a : DomainHash) : ¬ TreeParent store a child := fun step => adds.fresh step.stored

variable {root : DomainHash} (tree : TreeLinks store root)
include tree

omit nodeStored in
theorem leaf (b : DomainHash) : ¬ TreeParent store child b := fun step => by
  have child' := (tree.linked child b).1 step
  simp [childrenOf, AList.lookup_eq_none.2 adds.fresh] at child'

theorem treeLinks : TreeLinks store' root where
  linked p c := by
    rw [adds.treeParent_iff nodeStored, adds.childrenOf_eq nodeStored, tree.linked p c]
    by_cases isNode : p = node
    · subst isNode
      simp
    · simp [isNode]
  rooted x mem := by
    rcases (adds.mem_iff nodeStored).1 mem with old | rfl
    · rcases tree.rooted x old with isRoot | ⟨p, step⟩
      · exact Or.inl isRoot
      · exact Or.inr ⟨p, (adds.treeParent_iff nodeStored).2 (Or.inl step)⟩
    · exact Or.inr ⟨node, (adds.treeParent_iff nodeStored).2 (Or.inr ⟨rfl, rfl⟩)⟩
  root_stored := (adds.mem_iff nodeStored).2 (Or.inl tree.root_stored)
  children_nodup x := by
    rw [adds.childrenOf_eq nodeStored]
    split_ifs with isNode
    · refine List.nodup_append.2 ⟨tree.children_nodup x, List.nodup_singleton child, ?_⟩
      rintro c old c' new rfl
      rw [List.mem_singleton.1 new] at old
      exact adds.orphan x ((tree.linked x child).2 old)
    · exact tree.children_nodup x
  acyclic := (tree.forest.addLeaf (fun _ _ => adds.treeParent_iff nodeStored) (adds.leaf tree)
    (adds.node_ne_child nodeStored) (adds.orphan)).acyclic

theorem subtreeSize_of_above {x : DomainHash} (above : Relation.ReflTransGen (TreeParent store) x node) :
    subtreeSize store' x = subtreeSize store x + 1 := by
  unfold subtreeSize
  rw [adds.keys_toFinset nodeStored]
  exact Forest.card_subtree_addLeaf_of_above (fun _ _ => adds.treeParent_iff nodeStored)
    (adds.leaf tree) (adds.node_ne_child nodeStored) (adds.orphan)
    (fun mem => adds.fresh (mem_keys_toFinset.1 mem)) above

theorem reflTransGen_child_iff {x : DomainHash} :
    Relation.ReflTransGen (TreeParent store') x child ↔
      x = child ∨ Relation.ReflTransGen (TreeParent store) x node :=
  Forest.reflTransGen_leaf_iff (fun _ _ => adds.treeParent_iff nodeStored) (adds.leaf tree)
    (adds.node_ne_child nodeStored) (adds.orphan)

theorem subtreeSize_child : subtreeSize store' child = 1 := by
  have leafChildren : childrenOf store' child = [] := by
    rw [adds.childrenOf_eq nodeStored, if_neg (adds.node_ne_child nodeStored).symm]
    simp [childrenOf, AList.lookup_eq_none.2 adds.fresh]
  rw [(adds.treeLinks nodeStored tree).subtreeSize_eq ((adds.mem_iff nodeStored).2 (Or.inr rfl)), leafChildren]
  rfl

theorem validateIntervalsAt_eq {y : DomainHash} (notNode : y ≠ node) (notChild : y ≠ child) :
    validateIntervalsAt store' y = validateIntervalsAt store y :=
  validateIntervalsAt_congr (adds.others y notNode notChild) fun c isChild => adds.interval_eq nodeStored
    fun same => adds.orphan y (same ▸ (tree.linked y c).2 isChild)

end AddsLeaf

theorem addsLeaf_staged {node child : DomainHash} (fresh : child ∉ store) (nodeStored : node ∈ store)
    (i : ReachabilityInterval) :
    AddsLeaf store (stageInterval (stageParent (stageAddChild (stageData store child newReachabilityTreeData)
      node child) child node) child i) node child i where
  fresh := fresh
  child_lookup := by
    have distinct : child ≠ node := fun same => fresh (same ▸ nodeStored)
    simp [stageInterval, stageParent, stageAddChild, stageData, reachabilityDataForInsertion, distinct,
      newReachabilityTreeData]
  node_lookup data found := by
    have distinct : node ≠ child := fun same => fresh (same ▸ nodeStored)
    simp [stageInterval, stageParent, stageAddChild, stageData, reachabilityDataForInsertion, distinct, found]
  others y notNode notChild := by
    simp [stageInterval, stageParent, stageAddChild, stageData, notNode, notChild]

/-! ### The walk up from the new leaf -/

variable (store) in
structure WalkInv (store' : ReachabilityDataStore) (node child reindexRoot : DomainHash)
    (s : DomainHash × ReindexContext) : Prop where
  onPath : s.1 = child ∨
    (Relation.ReflTransGen (TreeParent store) s.1 node ∧ Relation.ReflTransGen (TreeParent store) reindexRoot s.1)
  right : CacheRight store' s.2.subTreeSizesCache
  closed : CacheClosed store' s.2.subTreeSizesCache

variable (store) in
structure WalkStop (store' : ReachabilityDataStore) (node a : DomainHash) (rc : ReindexContext) : Prop where
  above : Relation.ReflTransGen (TreeParent store) a node
  right : CacheRight store' rc.subTreeSizesCache
  closed : CacheClosed store' rc.subTreeSizesCache
  cached : (rc.subTreeSizesCache a).isSome
  roomy : ∃ ri, interval store a = .ok ri ∧ UInt64.ofNat (subtreeSize store' a) ≤ intervalSize ri

variable (store) in
def WalkFails (store' : ReachabilityDataStore) (reindexRoot : DomainHash) (e : ReindexError) : Prop :=
  (e = .missingTreeParent ∨ e = .reindexRootOutOfCapacity reindexRoot) ∧
    ∃ ri, interval store reindexRoot = .ok ri ∧ intervalSize ri < UInt64.ofNat (subtreeSize store' reindexRoot)

section Walk

variable {store' : ReachabilityDataStore} {node child reindexRoot root : DomainHash} {i : ReachabilityInterval}
  (wf : WellFormed store root) (adds : AddsLeaf store store' node child i) (nodeStored : node ∈ store)
  (under : Relation.ReflTransGen (TreeParent store) reindexRoot node) (empty : intervalSize i = 0)
  (few : subtreeSize store root + 1 < 2 ^ 64) (enough : subtreeSize store root + 1 < fuel)
include wf adds nodeStored under empty few enough

theorem WalkInv.step {s : DomainHash × ReindexContext} (inv : WalkInv store store' node child reindexRoot s) :
    (∃ stop, reindexIntervalsStep store' fuel reindexRoot s = pure (.inr stop) ∧
        ∃ a, stop.1 = .sufficient a ∧ WalkStop store store' node a stop.2) ∨
      (∃ e, reindexIntervalsStep store' fuel reindexRoot s = throw e ∧ WalkFails store store' reindexRoot e) ∨
      ∃ s', reindexIntervalsStep store' fuel reindexRoot s = pure (.inl s') ∧
        WalkInv store store' node child reindexRoot s' ∧ subtreeSize store' s.1 < subtreeSize store' s'.1 := by
  obtain ⟨current, rc⟩ := s
  have tree' := adds.treeLinks nodeStored wf.treeLinks
  have rootSize := adds.subtreeSize_of_above nodeStored wf.treeLinks (wf.laminar.root_ancestor nodeStored)
  have reindexRootStored := wf.laminar.mem_of_ancestor under nodeStored
  have stored' : current ∈ store' := by
    rcases inv.onPath with isChild | ⟨above, -⟩
    · exact (adds.mem_iff nodeStored).2 (Or.inr isChild)
    · exact (adds.mem_iff nodeStored).2 (Or.inl (wf.laminar.mem_of_ancestor above nodeStored))
  have atMost := subtreeSize_le (tree'.below_root stored')
  have fewAdded : subtreeSize store' root ≤ 2 ^ 64 := by omega
  have enoughHere : subtreeSize store' current < fuel := by omega
  obtain ⟨rc', counted, right', grows, cached⟩ :=
    tree'.countSubtrees_fills fewAdded stored' inv.right inv.closed enoughHere
  have size : (rc'.subTreeSizesCache current).getD 0 = UInt64.ofNat (subtreeSize store' current) := by
    obtain ⟨v, found⟩ := Option.isSome_iff_exists.1 cached
    rw [found, right' current v found]
    rfl
  obtain ⟨data', found'⟩ := lookup_of_mem stored'
  have intervalFound : interval store' current = .ok data'.interval := by
    simp [interval, reachabilityData, found', bind, Except.bind, pure, Except.pure]
  by_cases roomy : (rc'.subTreeSizesCache current).getD 0 ≤ intervalSize data'.interval
  · refine Or.inl ⟨_, reindexIntervalsStep_sufficient intervalFound counted roomy, current, rfl, ?_⟩
    have notChild : current ≠ child := by
      rintro rfl
      rw [adds.child_lookup, Option.some.injEq] at found'
      rw [size, ← found', empty, adds.subtreeSize_child nodeStored wf.treeLinks] at roomy
      exact absurd roomy (by decide)
    obtain ⟨above, -⟩ := inv.onPath.resolve_left notChild
    exact ⟨above, right', grows.closed, cached, data'.interval,
      by rw [← adds.interval_eq nodeStored notChild, intervalFound], by rwa [← size]⟩
  have short : intervalSize data'.interval < (rc'.subTreeSizesCache current).getD 0 := UInt64.not_le.1 roomy
  rcases inv.onPath with rfl | ⟨above, belowRoot⟩
  · have parentIs : parent store' current = .ok (some node) := by
      simp [parent, reachabilityData, adds.child_lookup, bind, Except.bind, pure, Except.pure]
    have notRoot : current ≠ reindexRoot := fun same => adds.fresh (same ▸ reindexRootStored)
    have notAbove : isStrictAncestorOf store' node reindexRoot = .ok false := by
      rw [adds.isStrictAncestorOf_eq nodeStored (adds.node_ne_child nodeStored) (Ne.symm notRoot)]
      exact wf.isStrictAncestorOf_of_below nodeStored under
    refine Or.inr (Or.inr ⟨(node, rc'), reindexIntervalsStep_up intervalFound counted short parentIs notRoot notAbove,
      ⟨Or.inr ⟨Relation.ReflTransGen.refl, under⟩, right', grows.closed⟩, ?_⟩)
    exact tree'.subtreeSize_lt ((adds.treeParent_iff nodeStored).2 (Or.inr ⟨rfl, rfl⟩))
  · have currentStored := wf.laminar.mem_of_ancestor above nodeStored
    have notChild : current ≠ child := fun same => adds.fresh (same ▸ currentStored)
    obtain ⟨data, found⟩ := lookup_of_mem currentStored
    have parentIs : parent store' current = .ok data.parent := by
      rw [adds.parent_eq nodeStored notChild]
      simp [parent, reachabilityData, found, bind, Except.bind, pure, Except.pure]
    have fails : current = reindexRoot → ∃ ri, interval store reindexRoot = .ok ri ∧
        intervalSize ri < UInt64.ofNat (subtreeSize store' reindexRoot) := by
      rintro rfl
      exact ⟨data'.interval, by rw [← adds.interval_eq nodeStored notChild, intervalFound], by rwa [← size]⟩
    cases linkedUp : data.parent with
    | none =>
      have atRoot : current = reindexRoot := by
        rcases belowRoot.cases_tail with same | ⟨q, -, step⟩
        · exact same
        · obtain ⟨data'', found'', up⟩ := step
          rw [found, Option.some.injEq] at found''
          rw [← found'', linkedUp] at up
          cases up
      rw [linkedUp] at parentIs
      exact Or.inr (Or.inl ⟨_, reindexIntervalsStep_missingTreeParent intervalFound counted short parentIs,
        Or.inl rfl, fails atRoot⟩)
    | some p =>
      rw [linkedUp] at parentIs
      by_cases atRoot : current = reindexRoot
      · exact Or.inr (Or.inl ⟨_, reindexIntervalsStep_outOfCapacity intervalFound counted short parentIs atRoot,
          Or.inr rfl, fails atRoot⟩)
      have step : TreeParent store p current := ⟨data, found, linkedUp⟩
      have pBelowRoot := wf.treeLinks.forest.below_parent belowRoot step (Ne.symm atRoot)
      have pStored := wf.laminar.mem_of_ancestor (Relation.ReflTransGen.single step) currentStored
      have notAbove : isStrictAncestorOf store' p reindexRoot = .ok false := by
        rw [adds.isStrictAncestorOf_eq nodeStored (fun same => adds.fresh (same ▸ pStored))
          (fun same => adds.fresh (same ▸ reindexRootStored))]
        exact wf.isStrictAncestorOf_of_below pStored pBelowRoot
      refine Or.inr (Or.inr ⟨(p, rc'), reindexIntervalsStep_up intervalFound counted short parentIs atRoot notAbove,
        ⟨Or.inr ⟨Relation.ReflTransGen.head step above, pBelowRoot⟩, right', grows.closed⟩, ?_⟩)
      exact tree'.subtreeSize_lt ((adds.treeParent_iff nodeStored).2 (Or.inl step))

theorem loop_reindexIntervalsStep_walk :
    ∀ n (s : DomainHash × ReindexContext), (WalkInv store store' node child reindexRoot s ∧
        subtreeSize store' root - subtreeSize store' s.1 < n) →
      (∃ stop, loop (fun s => (reindexIntervalsStep store' fuel reindexRoot s).run) n s = some (.ok stop) ∧
          ∃ a, stop.1 = .sufficient a ∧ WalkStop store store' node a stop.2) ∨
        ∃ e, loop (fun s => (reindexIntervalsStep store' fuel reindexRoot s).run) n s = some (.error e) ∧
          WalkFails store store' reindexRoot e := by
  have tree' := adds.treeLinks nodeStored wf.treeLinks
  refine loop_ends_of_bound _ _ _ (fun _ ⟨_, exhausted⟩ => Nat.not_lt_zero _ exhausted) ?_
  rintro n s ⟨inv, measure⟩
  rcases inv.step wf adds nodeStored under empty few enough with ⟨stop, turn, stops⟩ | ⟨e, turn, fails⟩ |
    ⟨s', turn, inv', larger⟩
  · exact Or.inl ⟨stop, by rw [turn]; rfl, stops⟩
  · exact Or.inr (Or.inl ⟨e, by rw [turn]; rfl, fails⟩)
  · refine Or.inr (Or.inr ⟨s', by rw [turn]; rfl, inv', ?_⟩)
    have stored' : s'.1 ∈ store' := by
      rcases inv'.onPath with isChild | ⟨above, -⟩
      · exact (adds.mem_iff nodeStored).2 (Or.inr isChild)
      · exact (adds.mem_iff nodeStored).2 (Or.inl (wf.laminar.mem_of_ancestor above nodeStored))
    have atMost := subtreeSize_le (tree'.below_root stored')
    omega

theorem AddsLeaf.reindexIntervals_eq {reindexSlack : UInt64} :
    (∃ rc staged, reindexIntervals store' fuel reindexSlack ⟨fun _ => none⟩ child reindexRoot = pure (rc, staged) ∧
        WellFormed staged root ∧ links staged = links store') ∨
      ∃ e, reindexIntervals store' fuel reindexSlack ⟨fun _ => none⟩ child reindexRoot = throw e ∧
        WalkFails store store' reindexRoot e := by
  have tree' := adds.treeLinks nodeStored wf.treeLinks
  have rootSize := adds.subtreeSize_of_above nodeStored wf.treeLinks (wf.laminar.root_ancestor nodeStored)
  have start : WalkInv store store' node child reindexRoot (child, ⟨fun _ => none⟩) :=
    ⟨Or.inl rfl, fun _ _ found => (by cases found), fun _ cached => (by cases cached)⟩
  rcases loop_reindexIntervalsStep_walk wf adds nodeStored under empty few enough fuel _
      ⟨start, by simp only [adds.subtreeSize_child nodeStored wf.treeLinks]; omega⟩ with
    ⟨⟨stop, rc⟩, walked, a, isA, walkStop⟩ | ⟨e, walked, fails⟩
  · simp only at isA walkStop
    subst isA
    have aStored := wf.laminar.mem_of_ancestor walkStop.above nodeStored
    have notChild : a ≠ child := fun same => adds.fresh (same ▸ aStored)
    have aStored' := (adds.mem_iff nodeStored).2 (Or.inl aStored)
    have atMost := subtreeSize_le (tree'.below_root aStored')
    obtain ⟨ri, riFound, roomy⟩ := walkStop.roomy
    obtain ⟨data, found⟩ := lookup_of_mem aStored
    have riIs : ri = data.interval := by
      simp [interval, reachabilityData, found, bind, Except.bind, pure, Except.pure] at riFound
      exact riFound.symm
    subst riIs
    have ordered := (wf.validate found).1
    have fits : subtreeSize store' a ≤ endOf store' a - startOf store' a + 1 := by
      have sizePos := subtreeSize_pos aStored'
      have asNat := UInt64.le_iff_toNat_le.1 roomy
      rw [UInt64.toNat_ofNat_of_lt' (by unfold UInt64.size; omega), toNat_intervalSize ordered] at asNat
      rw [adds.startOf_eq_of_ne nodeStored notChild, adds.endOf_eq_of_ne nodeStored notChild, startOf_eq found,
        endOf_eq found]
      have := UInt64.le_iff_toNat_le.1 ordered
      have := UInt64.toNat_lt data.interval.end
      omega
    have counted : ∀ y, Relation.ReflTransGen (TreeParent store') a y →
        rc.subTreeSizesCache y = some (UInt64.ofNat (subtreeSize store' y)) := fun y below => by
      obtain ⟨v, found⟩ := Option.isSome_iff_exists.1
        (walkStop.closed.cached_below (fun p c => (tree'.linked p c).1) walkStop.cached below)
      rw [found, walkStop.right y v found]
    have nonempty : startOf store' a ≤ endOf store' a := by
      rw [adds.startOf_eq_of_ne nodeStored notChild, adds.endOf_eq_of_ne nodeStored notChild]
      exact wf.nonempty aStored
    have enoughHere : subtreeSize store' a < fuel := by omega
    obtain ⟨staged, ran, inv⟩ := propagateInterval_eq_ok tree' aStored' nonempty fits counted enoughHere
    refine Or.inl ⟨rc, staged, by rw [reindexIntervals_of_sufficient walked, ran]; rfl, inv.wellFormed tree' ?_, inv.links⟩
    intro x stored notBelow
    have aboveChild := (adds.reflTransGen_child_iff nodeStored wf.treeLinks).2 (Or.inr walkStop.above)
    have notLeaf : x ≠ child := fun same => notBelow (same ▸ aboveChild)
    have notNode : x ≠ node := fun same => notBelow (same ▸ adds.reflTransGen_of_above nodeStored walkStop.above)
    obtain ⟨xData, xFound⟩ := lookup_of_mem (((adds.mem_iff nodeStored).1 stored).resolve_right notLeaf)
    rw [adds.validateIntervalsAt_eq nodeStored wf.treeLinks notNode notLeaf]
    exact wf.intervals _ (mem_entries_of_lookup xFound)
  · exact Or.inr ⟨e, reindexIntervals_of_error walked, fails⟩

end Walk

/-! ### addChild -/

/-- **addChild below the reindex root.** A new block under a full block below the reindex root
    leaves a well-formed tree with it as the last child, or fails for want of room at the root. -/
theorem addChild_restores_tree_under_reindex_root {root : DomainHash} (wf : WellFormed store root)
    {node child reindexRoot : DomainHash} (fresh : child ∉ store)
    (under : Relation.ReflTransGen (TreeParent store) reindexRoot node)
    (full : remainingSlackAfter store node = .ok 0) (few : subtreeSize store root + 1 < 2 ^ 64)
    {fuel : Nat} (enough : subtreeSize store root + 1 < fuel) (reindexSlack : UInt64) :
    (∃ staged, addChild (stageData store child newReachabilityTreeData) fuel reindexSlack node child reindexRoot =
        pure staged ∧ WellFormed staged root ∧
        ∀ y, links staged y = if y = child then some ([], some node)
          else if y = node then (links store node).map (fun l => (l.1 ++ [child], l.2)) else links store y) ∨
      ((addChild (stageData store child newReachabilityTreeData) fuel reindexSlack node child reindexRoot =
          throw .missingTreeParent ∨
        addChild (stageData store child newReachabilityTreeData) fuel reindexSlack node child reindexRoot =
          throw (.reindexRootOutOfCapacity reindexRoot)) ∧
        ∃ ri, interval store reindexRoot = .ok ri ∧
          intervalSize ri < UInt64.ofNat (subtreeSize store reindexRoot + 1)) := by
  have nodeStored := mem_of_remainingSlackAfter full
  have distinct : node ≠ child := fun same => fresh (same ▸ nodeStored)
  obtain ⟨remaining, found, empty⟩ := remainingIntervalAfter_of_slack full
  have sameRoom : remainingIntervalAfter (stageData store child newReachabilityTreeData) node =
      remainingIntervalAfter store node :=
    remainingIntervalAfter_congr (AList.lookup_insert_ne distinct) fun c isChild => AList.lookup_insert_ne
      fun same => fresh (same ▸ (wf.mem_childrenOf.1 isChild).stored)
  have adds := addsLeaf_staged fresh nodeStored remaining
  have reindexes : addChild (stageData store child newReachabilityTreeData) fuel reindexSlack node child reindexRoot =
      reindexIntervals (stageInterval (stageParent (stageAddChild (stageData store child newReachabilityTreeData)
        node child) child node) child remaining) fuel reindexSlack ⟨fun _ => none⟩ child reindexRoot >>=
        fun reindexed => pure reindexed.2 := by
    simp [addChild, liftReachability, sameRoom, found, empty, Except.mapError]
  rcases adds.reindexIntervals_eq wf nodeStored under empty few enough with
    ⟨rc, staged, ran, wfStaged, sameLinks⟩ | ⟨e, ran, fails, ri, riFound, short⟩
  · refine Or.inl ⟨staged, by rw [reindexes, ran]; rfl, wfStaged, fun y => ?_⟩
    rw [sameLinks, adds.links_eq nodeStored]
  · rw [adds.subtreeSize_of_above nodeStored wf.treeLinks under] at short
    refine Or.inr ⟨?_, ri, riFound, short⟩
    rw [reindexes, ran]
    rcases fails with rfl | rfl
    · exact Or.inl rfl
    · exact Or.inr rfl

set_option maxRecDepth 2000 in
/-- A root at `[1, 100]` with one child at `[1, 1]`, which has no room left: a new block joins under
    the child, and the reindex succeeds, as the root holds its three blocks. -/
theorem addChild_reindexes_full_leaf :
    let root : DomainHash := ⟨0⟩
    let node : DomainHash := ⟨1⟩
    let child : DomainHash := ⟨2⟩
    let store : ReachabilityDataStore :=
      ((∅ : ReachabilityDataStore).insert node ⟨[], some root, ⟨1, 1⟩⟩).insert root ⟨[node], none, ⟨1, 100⟩⟩
    ∃ staged, addChild (stageData store child newReachabilityTreeData) 4 0 node child root = pure staged ∧
      WellFormed staged root ∧
      ∀ y, links staged y = if y = child then some ([], some node)
        else if y = node then (links store node).map (fun l => (l.1 ++ [child], l.2)) else links store y := by
  intro root node child store
  have wf : WellFormed store root := ⟨by decide, by decide, by decide, by decide, by decide⟩
  have nodeSize : subtreeSize store node = 1 := by
    rw [wf.subtreeSize_eq (by decide), show childrenOf store node = [] by decide]
    rfl
  have rootSize : subtreeSize store root = 2 := by
    rw [wf.subtreeSize_eq (by decide), show childrenOf store root = [node] by decide]
    simp [nodeSize]
  rcases addChild_restores_tree_under_reindex_root wf (show child ∉ store by decide)
      (Relation.ReflTransGen.single ⟨_, rfl, rfl⟩) (show remainingSlackAfter store node = .ok 0 by decide)
      (by rw [rootSize]; decide) (show subtreeSize store root + 1 < 4 by omega) 0 with
    restored | ⟨-, ri, riFound, short⟩
  · exact restored
  · have riIs : ri = ⟨1, 100⟩ := by
      have rootInterval : interval store root = .ok ⟨1, 100⟩ := by decide
      rw [rootInterval, Except.ok.injEq] at riFound
      exact riFound.symm
    rw [riIs, rootSize] at short
    exact absurd short (by decide)

/-! ### The links addChild stages -/

theorem childrenOf_stageParent (child parent : DomainHash) :
    childrenOf (stageParent store child parent) = childrenOf store := by
  funext x
  by_cases same : x = child
  · subst same
    cases found : store.lookup x <;> simp [stageParent, stageData, reachabilityDataForInsertion, childrenOf, found]
  · simp [stageParent, stageData, childrenOf, same]

theorem childrenOf_stageAddChild (node child x : DomainHash) :
    childrenOf (stageAddChild store node child) x =
      if x = node then childrenOf store node ++ [child] else childrenOf store x := by
  by_cases same : x = node
  · subst same
    cases found : store.lookup x <;> simp [stageAddChild, stageData, reachabilityDataForInsertion, childrenOf, found]
  · simp [stageAddChild, stageData, childrenOf, same]

theorem ChildrenStored.stageParent_stageAddChild (listed : ChildrenStored store) (node child : DomainHash) :
    ChildrenStored (stageParent (stageAddChild store node child) child node) := by
  have grows : ∀ y ∈ store, y ∈ stageParent (stageAddChild store node child) child node := fun y stored => by
    simp [stageParent, stageAddChild, stageData, stored]
  intro p c isChild
  rw [childrenOf_stageParent, childrenOf_stageAddChild] at isChild
  split_ifs at isChild with isNode
  · rcases List.mem_append.1 isChild with old | new
    · exact grows c (listed node c old)
    · rw [List.mem_singleton.1 new]
      simp [stageParent, stageData]
  · exact grows c (listed p c isChild)

/-- **addChild stages one link.** Whichever way addChild goes, the links it returns are the store's
    with `child` appended to `node`'s children: the reindex moves intervals only. -/
theorem addChild_links_new_edge_only (listed : ChildrenStored store) {node child reindexRoot : DomainHash}
    {staged : ReachabilityDataStore} (added : addChild store fuel reindexSlack node child reindexRoot = pure staged) :
    links staged = links (stageParent (stageAddChild store node child) child node) := by
  obtain ⟨remaining, -, rest⟩ := bind_eq_pure added
  have childLinked : child ∈ stageParent (stageAddChild store node child) child node := by
    simp [stageParent, stageData]
  split_ifs at rest
  · obtain ⟨reindexed, ranReindex, returned⟩ := bind_eq_pure rest
    cases pure_inj returned
    have emptied := links_stageInterval childLinked remaining
    exact (reindexIntervals_keepsLinks ((listed.stageParent_stageAddChild node child).of_links emptied) reindexed
      ranReindex).trans emptied
  · obtain ⟨allocated, -, returned⟩ := bind_eq_pure rest
    cases pure_inj returned
    exact links_stageInterval childLinked allocated.1

set_option maxRecDepth 2000 in
/-- A root at `[1, 100]` with one full child at `[1, 1]`: a new block under the child is reindexed,
    and linked. -/
theorem addChild_full_leaf_links :
    let root : DomainHash := ⟨0⟩
    let node : DomainHash := ⟨1⟩
    let child : DomainHash := ⟨2⟩
    let store : ReachabilityDataStore := stageData (((∅ : ReachabilityDataStore).insert node
      ⟨[], some root, ⟨1, 1⟩⟩).insert root ⟨[node], none, ⟨1, 100⟩⟩) child newReachabilityTreeData
    ∃ staged, addChild store 4 0 node child root = pure staged ∧
      links staged = links (stageParent (stageAddChild store node child) child node) := by
  intro root node child store
  obtain ⟨staged, added⟩ := exists_eq_pure_of_any_isOk
    (show (addChild store 4 0 node child root).run.any Except.isOk = true by decide)
  exact ⟨staged, added, addChild_links_new_edge_only (childrenStored_of_entries (by decide)) added⟩

end ReachabilityManager
