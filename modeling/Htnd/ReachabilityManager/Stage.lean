import Mathlib
import Htnd.ReachabilityManager.ReindexContext
import Htnd.Lib.Forest

/-!
Staging reachability data (stage.go, fetch.go), and the links of the tree. A reindex stages new
intervals and leaves the parent and the children of every block as they are. What the tree
needs of its links is stated here as `TreeLinks`, over the links alone, so that it holds while
the intervals of a subtree are being rebuilt; with every block passing the checks of
`validateIntervals` it is `WellFormed` again.
-/
namespace ReachabilityManager
open Utxo

variable (store : ReachabilityDataStore)

/-- The data to stage for a block: a copy of what the store holds, or empty data for a block it
    does not hold. Go's empty data has a nil interval; here it is `[0, 0]`, and every caller
    below stages an interval for a block it adds. -/
def reachabilityDataForInsertion (blockHash : DomainHash) : ReachabilityData :=
  (store.lookup blockHash).getD ⟨[], none, ⟨0, 0⟩⟩

def stageInterval (node : DomainHash) (interval : ReachabilityInterval) : ReachabilityDataStore :=
  store.insert node { reachabilityDataForInsertion store node with interval := interval }

def links (x : DomainHash) : Option (List DomainHash × Option DomainHash) :=
  (store.lookup x).map fun data => (data.children, data.parent)

structure TreeLinks (root : DomainHash) : Prop where
  linked : ∀ p c, TreeParent store p c ↔ c ∈ childrenOf store p
  rooted : ∀ x ∈ store, x = root ∨ ∃ p, TreeParent store p x
  root_stored : root ∈ store
  children_nodup : ∀ x, (childrenOf store x).Nodup
  acyclic : ∀ x, ¬ Relation.TransGen (TreeParent store) x x

variable {store}

/-! ### Staging an interval -/

theorem lookup_stageInterval_self {x : DomainHash} {data : ReachabilityData}
    (found : store.lookup x = some data) (interval : ReachabilityInterval) :
    (stageInterval store x interval).lookup x = some { data with interval := interval } := by
  simp [stageInterval, reachabilityDataForInsertion, found]

theorem lookup_stageInterval_of_ne {x y : DomainHash} (other : y ≠ x) (interval : ReachabilityInterval) :
    (stageInterval store x interval).lookup y = store.lookup y :=
  AList.lookup_insert_ne other

theorem links_stageInterval {x : DomainHash} (stored : x ∈ store) (interval : ReachabilityInterval) :
    links (stageInterval store x interval) = links store := by
  obtain ⟨data, found⟩ := lookup_of_mem stored
  funext y
  by_cases same : y = x
  · subst same
    simp [links, lookup_stageInterval_self found, found]
  · simp [links, lookup_stageInterval_of_ne same]

/-! ### Stores with the same links -/

section Links

variable {store' : ReachabilityDataStore} (same : links store' = links store)
include same

theorem mem_of_links {x : DomainHash} : x ∈ store' ↔ x ∈ store := by
  have sameSome := congrArg Option.isSome (congrFun same x)
  simp only [links, Option.isSome_map] at sameSome
  rw [← AList.lookup_isSome, ← AList.lookup_isSome, sameSome]

theorem children_of_links : children store' = children store := by
  funext x
  have sameX := congrFun same x
  simp only [links] at sameX
  simp only [children, reachabilityData]
  cases found' : store'.lookup x <;> cases found : store.lookup x <;>
    simp_all [bind, Except.bind, pure, Except.pure]

theorem parent_of_links : parent store' = parent store := by
  funext x
  have sameX := congrFun same x
  simp only [links] at sameX
  simp only [parent, reachabilityData]
  cases found' : store'.lookup x <;> cases found : store.lookup x <;>
    simp_all [bind, Except.bind, pure, Except.pure]

theorem treeParent_of_links : TreeParent store' = TreeParent store := by
  funext p c
  have sameC := congrFun same c
  simp only [links] at sameC
  simp only [TreeParent]
  cases found' : store'.lookup c <;> cases found : store.lookup c <;> simp_all

theorem childrenOf_of_links : childrenOf store' = childrenOf store := by
  funext x
  have sameX := congrFun same x
  simp only [links] at sameX
  simp only [childrenOf]
  cases found' : store'.lookup x <;> cases found : store.lookup x <;> simp_all

theorem subtreeSize_of_links : subtreeSize store' = subtreeSize store := by
  have keys : store'.keys.toFinset = store.keys.toFinset := by
    ext x
    rw [mem_keys_toFinset, mem_keys_toFinset, mem_of_links same]
  funext x
  simp only [subtreeSize, keys, treeParent_of_links same]

theorem pushUpStep_of_links : pushUpStep store' = pushUpStep store := by
  funext node s
  simp only [pushUpStep, parent_of_links same, children_of_links same]

theorem countSubtreesStep_of_links : countSubtreesStep store' = countSubtreesStep store := by
  funext node fuel s
  simp only [countSubtreesStep, pushUp, children_of_links same, pushUpStep_of_links same]

theorem countSubtrees_of_links : countSubtrees store' = countSubtrees store := by
  funext fuel rc node
  simp only [countSubtrees, countSubtreesStep_of_links same]

end Links

/-! ### What the checks of `validateIntervals` read -/

theorem interval_congr {store' : ReachabilityDataStore} {x : DomainHash} (same : store'.lookup x = store.lookup x) :
    interval store' x = interval store x := by
  simp only [interval, reachabilityData, same]

theorem validateChildIntervals_congr {store' : ReachabilityDataStore} {cur : ReachabilityInterval}
    {cs : List DomainHash} (same : ∀ c ∈ cs, interval store' c = interval store c) :
    ∀ sibling, validateChildIntervals store' cur sibling cs = validateChildIntervals store cur sibling cs := by
  induction cs with
  | nil => intro _; rfl
  | cons c cs ih =>
    intro sibling
    have rest := ih fun c' mem => same c' (List.mem_cons_of_mem c mem)
    simp only [validateChildIntervals, same c List.mem_cons_self, rest]

theorem validateIntervalsAt_congr {store' : ReachabilityDataStore} {x : DomainHash}
    (sameX : store'.lookup x = store.lookup x)
    (sameChildren : ∀ c ∈ childrenOf store x, interval store' c = interval store c) :
    validateIntervalsAt store' x = validateIntervalsAt store x := by
  cases found : store.lookup x with
  | none => simp [validateIntervalsAt, children, reachabilityData, sameX, found, bind, Except.bind]
  | some data =>
    rw [childrenOf_eq found] at sameChildren
    simp only [validateIntervalsAt, children, interval, reachabilityData, sameX, found, bind,
      Except.bind, pure, Except.pure, validateChildIntervals_congr sameChildren]

theorem validateChildIntervals_eq_ok {cur : ReachabilityInterval} {cs : List DomainHash}
    {parts : List ReachabilityInterval}
    (assigned : List.Forall₂ (fun c part => ∃ data, store.lookup c = some data ∧ data.interval = part) cs parts)
    (consecutive : parts.IsChain fun part next => next.start = part.end + 1)
    (inside : ∀ part ∈ parts, cur.start ≤ part.start ∧ part.end < cur.end) :
    ∀ sibling : Option ReachabilityInterval,
      (∀ s part, sibling = some s → parts.head? = some part → part.start = s.end + 1) →
      validateChildIntervals store cur sibling cs = .ok () := by
  induction assigned with
  | nil => intro _ _; rfl
  | @cons c part cs parts isPart rest ih =>
    intro sibling after
    obtain ⟨data, found, rfl⟩ := isPart
    obtain ⟨left, right⟩ := inside data.interval List.mem_cons_self
    have adjacent : ¬ (sibling.any fun s => s.end + 1 ≠ data.interval.start) = true := by
      cases sibling with
      | none => simp
      | some s => simp [after s data.interval rfl rfl]
    have next := ih consecutive.tail (fun p mem => inside p (List.mem_cons_of_mem _ mem)) (some data.interval)
      fun s p same first => by
        cases same
        exact List.IsChain.rel_head? consecutive first
    simp only [validateChildIntervals, interval, reachabilityData, found, bind, Except.bind, pure,
      Except.pure, adjacent, UInt64.not_lt.2 left, UInt64.not_le.2 right, Bool.false_eq_true,
      ↓reduceIte, next]

theorem validateIntervalsAt_eq_ok {x : DomainHash} {data : ReachabilityData}
    (found : store.lookup x = some data) (ordered : data.interval.start ≤ data.interval.end)
    (childrenValid : validateChildIntervals store data.interval none data.children = .ok ()) :
    validateIntervalsAt store x = .ok () := by
  simp only [validateIntervalsAt, children, interval, reachabilityData, found, bind, Except.bind,
    pure, Except.pure, gt_iff_lt, UInt64.not_lt.2 ordered, if_false, childrenValid]

theorem mem_of_mem_childrenOf {p c : DomainHash} (child : c ∈ childrenOf store p) : p ∈ store := by
  cases found : store.lookup p with
  | none => simp [childrenOf, found] at child
  | some data => exact AList.lookup_isSome.1 (by rw [found]; rfl)

/-! ### Tree links -/

theorem WellFormed.treeLinks {root : DomainHash} (wf : WellFormed store root) : TreeLinks store root where
  linked _ _ := wf.mem_childrenOf.symm
  rooted x mem := wf.laminar.rooted x mem
  root_stored := wf.root_stored
  children_nodup := wf.childrenOf_nodup
  acyclic := wf.not_transGen_self

namespace TreeLinks

variable {root : DomainHash} (tree : TreeLinks store root)
include tree

theorem forest : Forest.IsForest (TreeParent store) :=
  ⟨fun _ _ _ => TreeParent.unique, tree.acyclic⟩

theorem of_links {store' : ReachabilityDataStore} (same : links store' = links store) :
    TreeLinks store' root where
  linked p c := by
    rw [treeParent_of_links same, childrenOf_of_links same]
    exact tree.linked p c
  rooted x mem := by
    rw [treeParent_of_links same]
    exact tree.rooted x ((mem_of_links same).1 mem)
  root_stored := (mem_of_links same).2 tree.root_stored
  children_nodup x := by
    rw [childrenOf_of_links same]
    exact tree.children_nodup x
  acyclic := by
    rw [treeParent_of_links same]
    exact tree.acyclic

theorem subtreeSize_eq {x : DomainHash} (stored : x ∈ store) :
    subtreeSize store x = 1 + ((childrenOf store x).map (subtreeSize store)).sum :=
  tree.forest.card_subtree (mem_keys_toFinset.2 stored) (tree.children_nodup x)
    fun c => (tree.linked x c).symm

theorem not_mem_childrenOf_self (x : DomainHash) : x ∉ childrenOf store x :=
  fun child => tree.acyclic x (Relation.TransGen.single ((tree.linked x x).2 child))

theorem exists_child_of_below {x y : DomainHash} (below : Relation.ReflTransGen (TreeParent store) x y)
    (other : y ≠ x) : ∃ c ∈ childrenOf store x, Relation.ReflTransGen (TreeParent store) c y := by
  rcases Relation.reflTransGen_iff_eq_or_transGen.1 below with same | path
  · exact absurd same other
  · obtain ⟨c, first, rest⟩ := Relation.TransGen.head'_iff.1 path
    exact ⟨c, (tree.linked x c).1 first, rest⟩

theorem subtreeSize_lt {p c : DomainHash} (step : TreeParent store p c) :
    subtreeSize store c < subtreeSize store p := by
  have child := (tree.linked p c).1 step
  have split := tree.subtreeSize_eq (mem_of_mem_childrenOf child)
  have atMost := List.le_sum_of_mem (List.mem_map_of_mem (f := subtreeSize store) child)
  omega

theorem below_root {x : DomainHash} (stored : x ∈ store) : Relation.ReflTransGen (TreeParent store) root x := by
  induction h : store.keys.toFinset.card - subtreeSize store x using Nat.strong_induction_on generalizing x with
  | _ n ih =>
    rcases tree.rooted x stored with rfl | ⟨p, step⟩
    · exact Relation.ReflTransGen.refl
    · have pStored := mem_of_mem_childrenOf ((tree.linked p x).1 step)
      have larger := tree.subtreeSize_lt step
      have bounded : subtreeSize store p ≤ store.keys.toFinset.card :=
        Finset.card_le_card fun _ mem => (IntervalTree.mem_subtree.1 mem).1
      exact (ih _ (by omega) pStored rfl).tail step

theorem wellFormed (valid : ∀ x ∈ store, validateIntervalsAt store x = .ok ()) :
    WellFormed store root where
  parent_children e mem := by
    have found : store.lookup e.1 = some e.2 := AList.mem_lookup_iff.2 mem
    cases linkedUp : e.2.parent with
    | none => rfl
    | some p =>
      have child := (tree.linked p e.1).1 ⟨e.2, found, linkedUp⟩
      cases lookupP : store.lookup p with
      | none => simp [childrenOf, lookupP] at child
      | some parentData =>
        rw [childrenOf_eq lookupP] at child
        simp [lookupP, child]
  children_parent e mem c child := by
    have found : store.lookup e.1 = some e.2 := AList.mem_lookup_iff.2 mem
    obtain ⟨childData, lookupC, linkedUp⟩ := (tree.linked e.1 c).2 (by rw [childrenOf_eq found]; exact child)
    simp [lookupC, linkedUp]
  root_stored := tree.root_stored
  root_only e mem orphan := by
    have found : store.lookup e.1 = some e.2 := AList.mem_lookup_iff.2 mem
    rcases tree.rooted e.1 (AList.lookup_isSome.1 (by rw [found]; rfl)) with isRoot | ⟨p, data, found', linkedUp⟩
    · exact isRoot
    · rw [found, Option.some.injEq] at found'
      subst found'
      simp [orphan] at linkedUp
  intervals e mem := valid e.1 (AList.lookup_isSome.1 (by rw [AList.mem_lookup_iff.2 mem]; rfl))

end TreeLinks

end ReachabilityManager
