import Mathlib
import Htnd.ReachabilityManager.Tree
import Htnd.Lib.BinarySearch

/-!
Ordered tree node sets (ordered_tree_node_set.go) and the future covering set query that reads
one (future_covering_set.go). A set is a list of blocks that its callers keep ordered by
interval; `findAncestorIndexOfNode` looks by binary search for the last block whose interval
starts at or before the end of the node's, which is the only candidate for a tree ancestor.
-/
namespace ReachabilityManager
open Utxo

variable (store : ReachabilityDataStore)

def endBeforeStart (tns : List DomainHash) («end» : UInt64) (middle : Fin tns.length) :
    Except ReachabilityError Bool := do
  let middleInterval ← interval store tns[middle]
  pure («end» < middleInterval.start)

def findAncestorIndexOfNode (tns : List DomainHash) (node : DomainHash) :
    Except ReachabilityError (Nat × Bool) := do
  let blockInterval ← interval store node
  let «end» := blockInterval.end
  let low ← BinarySearch.lowerBound (endBeforeStart store tns «end») 0 tns.length (Nat.le_refl _)
  if low = 0 then
    return (0, false)
  return (low - 1, true)

/-- Go indexes `tns` without a check: an index the search returns with `true` is in range
    (`SplitsAt.last`). -/
def findAncestorOfNode (tns : List DomainHash) (node : DomainHash) : Option DomainHash :=
  match findAncestorIndexOfNode store tns node with
  | .error _ => none
  | .ok (_, false) => none
  | .ok (ancestorIndex, true) => tns[ancestorIndex]?

def futureCoveringSetHasAncestorOf (futureCoveringSet : List DomainHash) (other : DomainHash) :
    Except ReachabilityError Bool := do
  let (ancestorIndex, ok) ← findAncestorIndexOfNode store futureCoveringSet other
  if !ok then
    return false
  match futureCoveringSet[ancestorIndex]? with
  | some candidate => isReachabilityTreeAncestorOf store candidate other
  | none => return false

structure SplitsAt (tns : List DomainHash) (e k : Nat) : Prop where
  le_length : k ≤ tns.length
  startsBefore_iff : ∀ i (found : i < tns.length), startOf store tns[i] ≤ e ↔ i < k

variable {store} {tns : List DomainHash} {node : DomainHash}

theorem endBeforeStart_eq (stored : ∀ x ∈ tns, x ∈ store) («end» : UInt64) (i : Fin tns.length) :
    endBeforeStart store tns «end» i = .ok (decide («end».toNat < startOf store tns[i])) := by
  obtain ⟨data, found⟩ := lookup_of_mem (stored tns[i.val] (List.getElem_mem i.isLt))
  simp [endBeforeStart, interval, reachabilityData, found, startOf_eq found, bind, Except.bind,
    pure, Except.pure, UInt64.lt_iff_toNat_lt]

theorem startOf_getElem_mono (sorted : tns.Pairwise fun x y => startOf store x ≤ startOf store y)
    {i j : Nat} (le : i ≤ j) (jFound : j < tns.length) :
    startOf store tns[i] ≤ startOf store tns[j] := by
  rcases Nat.lt_or_eq_of_le le with lt | rfl
  · exact List.pairwise_iff_getElem.1 sorted i j _ jFound lt
  · exact Nat.le_refl _

theorem findAncestorIndexOfNode_eq_ok (stored : ∀ x ∈ tns, x ∈ store) (nodeStored : node ∈ store)
    (sorted : tns.Pairwise fun x y => startOf store x ≤ startOf store y) :
    ∃ k, SplitsAt store tns (endOf store node) k ∧
      findAncestorIndexOfNode store tns node = .ok (k - 1, decide (0 < k)) := by
  obtain ⟨data, found⟩ := lookup_of_mem nodeStored
  let startsAfter (i : Fin tns.length) : Bool := decide (endOf store node < startOf store tns[i])
  have answers : ∀ i, endBeforeStart store tns data.interval.end i = .ok (startsAfter i) := by
    intro i
    rw [endBeforeStart_eq stored, ← endOf_eq found]
  have mono : BinarySearch.Monotone startsAfter := by
    intro i j le after
    simp only [startsAfter, decide_eq_true_eq] at after ⊢
    exact Nat.lt_of_lt_of_le after (startOf_getElem_mono sorted (Fin.le_def.1 le) j.isLt)
  obtain ⟨k, search, inv⟩ :=
    BinarySearch.lowerBound_eq_ok answers mono (Nat.le_refl _) BinarySearch.inv_start
  refine ⟨k, ?_, ?_⟩
  · constructor
    · exact inv.le_length
    · intro i iFound
      have split := inv.holds_eq ⟨i, iFound⟩
      simp only [startsAfter, Fin.getElem_fin, decide_eq_decide] at split
      omega
  · simp only [findAncestorIndexOfNode, interval, reachabilityData, found, bind, Except.bind,
      pure, Except.pure, search]
    split
    · rename_i none
      rw [none]
      rfl
    · rename_i some
      rw [decide_eq_true (Nat.pos_of_ne_zero some)]

namespace SplitsAt

variable {e k : Nat} (split : SplitsAt store tns e k)
include split

theorem exists_iff : (∃ i : Fin tns.length, startOf store tns[i] ≤ e) ↔ 0 < k := by
  constructor
  · intro ⟨i, before⟩
    have := (split.startsBefore_iff i i.isLt).1 before
    omega
  · intro pos
    have found : 0 < tns.length := Nat.lt_of_lt_of_le pos split.le_length
    exact ⟨⟨0, found⟩, (split.startsBefore_iff 0 found).2 pos⟩

theorem last (pos : 0 < k) :
    ∃ found : k - 1 < tns.length, startOf store tns[k - 1] ≤ e ∧
      ∀ i : Fin tns.length, startOf store tns[i] ≤ e → i.val ≤ k - 1 := by
  have found : k - 1 < tns.length := by
    have := split.le_length
    omega
  refine ⟨found, (split.startsBefore_iff (k - 1) found).2 (by omega), ?_⟩
  intro i before
  have := (split.startsBefore_iff i i.isLt).1 before
  omega

theorem contains (sorted : tns.Pairwise fun x y => startOf store x ≤ startOf store y)
    (disjoint : tns.Pairwise fun x y =>
      endOf store x < startOf store y ∨ endOf store y < startOf store x)
    (nonempty : ∀ x ∈ tns, startOf store x ≤ endOf store x)
    (nodeNonempty : startOf store node ≤ endOf store node) (ends : endOf store node = e)
    (contains : ∃ x ∈ tns, IntervalTree.Contains (startOf store) (endOf store) x node) :
    0 < k ∧ ∃ found : k - 1 < tns.length,
      IntervalTree.Contains (startOf store) (endOf store) tns[k - 1] node := by
  obtain ⟨x, mem, left, right⟩ := contains
  obtain ⟨j, jFound, rfl⟩ := List.getElem_of_mem mem
  have before : j < k := (split.startsBefore_iff j jFound).1 (by omega)
  obtain ⟨found, lastBefore, -⟩ := split.last (by omega)
  refine ⟨by omega, found, ?_⟩
  rcases Nat.lt_or_eq_of_le (show j ≤ k - 1 by omega) with later | same
  · have order := List.pairwise_iff_getElem.1 sorted j (k - 1) jFound found later
    have apart := List.pairwise_iff_getElem.1 disjoint j (k - 1) jFound found later
    have lastNonempty := nonempty _ (List.getElem_mem found)
    omega
  · simp only [← same]
    exact ⟨left, right⟩

end SplitsAt

theorem findAncestorIndexOfNode_finds_ancestor (stored : ∀ x ∈ tns, x ∈ store) (nodeStored : node ∈ store)
    (sorted : tns.Pairwise fun x y => startOf store x ≤ startOf store y)
    (disjoint : tns.Pairwise fun x y =>
      endOf store x < startOf store y ∨ endOf store y < startOf store x)
    (nonempty : ∀ x ∈ tns, startOf store x ≤ endOf store x)
    (nodeNonempty : startOf store node ≤ endOf store node) :
    ∃ index ok, findAncestorIndexOfNode store tns node = .ok (index, ok) ∧
      (ok = true ↔ ∃ i : Fin tns.length, startOf store tns[i] ≤ endOf store node) ∧
      (ok = false → index = 0) ∧
      (ok = true → ∃ found : index < tns.length, startOf store tns[index] ≤ endOf store node ∧
        ∀ i : Fin tns.length, startOf store tns[i] ≤ endOf store node → i.val ≤ index) ∧
      ((∃ x ∈ tns, IntervalTree.Contains (startOf store) (endOf store) x node) →
        ok = true ∧ ∃ found : index < tns.length,
          IntervalTree.Contains (startOf store) (endOf store) tns[index] node) := by
  obtain ⟨k, split, search⟩ := findAncestorIndexOfNode_eq_ok stored nodeStored sorted
  refine ⟨k - 1, decide (0 < k), search, ?_, ?_, ?_, ?_⟩
  · rw [decide_eq_true_iff, split.exists_iff]
  · intro none
    rw [decide_eq_false_iff_not] at none
    omega
  · intro some
    exact split.last (of_decide_eq_true some)
  · intro contains
    obtain ⟨pos, found, inside⟩ := split.contains sorted disjoint nonempty nodeNonempty rfl contains
    exact ⟨decide_eq_true pos, found, inside⟩

set_option maxRecDepth 2000 in
/-- The two children `[1, 100]` and `[101, 200]` of a root at `[1, 2^64 - 2]`, as `Init` allocates
    it, searched for the second. -/
theorem findAncestorIndexOfNode_finds_ancestor_children :
    let root : DomainHash := ⟨0⟩
    let left : DomainHash := ⟨1⟩
    let right : DomainHash := ⟨2⟩
    let store : ReachabilityDataStore :=
      (((∅ : ReachabilityDataStore).insert right ⟨[], some root, ⟨101, 200⟩⟩).insert left
        ⟨[], some root, ⟨1, 100⟩⟩).insert root ⟨[left, right], none, ⟨1, 2 ^ 64 - 2⟩⟩
    let tns := [left, right]
    (∀ x ∈ tns, x ∈ store) ∧ right ∈ store ∧
      (tns.Pairwise fun x y => startOf store x ≤ startOf store y) ∧
      (tns.Pairwise fun x y => endOf store x < startOf store y ∨ endOf store y < startOf store x) ∧
      (∀ x ∈ tns, startOf store x ≤ endOf store x) ∧ startOf store right ≤ endOf store right ∧
      ∃ index ok, findAncestorIndexOfNode store tns right = .ok (index, ok) ∧
        (ok = true ↔ ∃ i : Fin tns.length, startOf store tns[i] ≤ endOf store right) ∧
        (ok = false → index = 0) ∧
        (ok = true → ∃ found : index < tns.length, startOf store tns[index] ≤ endOf store right ∧
          ∀ i : Fin tns.length, startOf store tns[i] ≤ endOf store right → i.val ≤ index) ∧
        ((∃ x ∈ tns, IntervalTree.Contains (startOf store) (endOf store) x right) →
          ok = true ∧ ∃ found : index < tns.length,
            IntervalTree.Contains (startOf store) (endOf store) tns[index] right) := by
  intro root left right store tns
  have stored : ∀ x ∈ tns, x ∈ store := by decide
  have sorted : tns.Pairwise fun x y => startOf store x ≤ startOf store y := by decide
  have disjoint : tns.Pairwise fun x y =>
      endOf store x < startOf store y ∨ endOf store y < startOf store x := by decide
  have nonempty : ∀ x ∈ tns, startOf store x ≤ endOf store x := by decide
  have nodeNonempty : startOf store right ≤ endOf store right := by decide
  exact ⟨stored, by decide, sorted, disjoint, nonempty, nodeNonempty,
    findAncestorIndexOfNode_finds_ancestor stored (by decide) sorted disjoint nonempty nodeNonempty⟩

section Tree

variable {root : DomainHash} (wf : WellFormed store root) (stored : ∀ x ∈ tns, x ∈ store)
  (nodeStored : node ∈ store) (sorted : tns.Pairwise fun x y => startOf store x ≤ startOf store y)
  (disjoint : tns.Pairwise fun x y =>
    endOf store x < startOf store y ∨ endOf store y < startOf store x)
include wf stored nodeStored sorted disjoint

theorem SplitsAt.exists_ancestor_iff {k : Nat} (split : SplitsAt store tns (endOf store node) k) :
    (∃ x ∈ tns, Relation.ReflTransGen (TreeParent store) x node) ↔
      0 < k ∧ ∃ found : k - 1 < tns.length,
        Relation.ReflTransGen (TreeParent store) tns[k - 1] node := by
  constructor
  · intro ⟨x, mem, ancestor⟩
    have contains := (wf.laminar.contains_iff (stored x mem) nodeStored).2 ancestor
    obtain ⟨pos, found, inside⟩ := split.contains sorted disjoint
      (fun x mem => wf.nonempty (stored x mem)) (wf.nonempty nodeStored) rfl ⟨x, mem, contains⟩
    have lastStored := stored _ (List.getElem_mem found)
    exact ⟨pos, found, (wf.laminar.contains_iff lastStored nodeStored).1 inside⟩
  · intro ⟨_, found, ancestor⟩
    exact ⟨_, List.getElem_mem found, ancestor⟩

theorem findAncestorOfNode_of_ancestor
    (ancestor : ∃ x ∈ tns, Relation.ReflTransGen (TreeParent store) x node) :
    ∃ next, findAncestorOfNode store tns node = some next ∧ next ∈ tns ∧
      Relation.ReflTransGen (TreeParent store) next node := by
  obtain ⟨k, split, search⟩ := findAncestorIndexOfNode_eq_ok stored nodeStored sorted
  obtain ⟨pos, found, last⟩ := (split.exists_ancestor_iff wf stored nodeStored sorted disjoint).1 ancestor
  refine ⟨tns[k - 1], ?_, List.getElem_mem found, last⟩
  simp [findAncestorOfNode, search, decide_eq_true pos, found]

theorem futureCoveringSetHasAncestorOf_iff :
    ∃ answer, futureCoveringSetHasAncestorOf store tns node = .ok answer ∧
      (answer = true ↔ ∃ x ∈ tns, Relation.ReflTransGen (TreeParent store) x node) := by
  obtain ⟨k, split, search⟩ := findAncestorIndexOfNode_eq_ok stored nodeStored sorted
  rw [split.exists_ancestor_iff wf stored nodeStored sorted disjoint]
  cases k with
  | zero =>
    refine ⟨false, ?_, ?_⟩
    · simp [futureCoveringSetHasAncestorOf, search, bind, Except.bind, pure, Except.pure]
    · simp
  | succ m =>
    have found : m < tns.length := split.le_length
    obtain ⟨data, dataFound⟩ := lookup_of_mem (stored _ (List.getElem_mem found))
    obtain ⟨nodeData, nodeFound⟩ := lookup_of_mem nodeStored
    refine ⟨intervalContains data.interval nodeData.interval, ?_, ?_⟩
    · simp [futureCoveringSetHasAncestorOf, search, bind, Except.bind, found,
        isReachabilityTreeAncestorOf_of_lookup dataFound nodeFound]
    · simp [wf.intervalContains_iff dataFound nodeFound, found]

end Tree

set_option maxRecDepth 2000 in
/-- The future covering set of a root's two children `[1, 100]` and `[101, 200]`, asked about a
    child `[101, 150]` of the second. -/
theorem futureCoveringSetHasAncestorOf_iff_grandchild :
    let store : ReachabilityDataStore :=
      ((((∅ : ReachabilityDataStore).insert ⟨3⟩ ⟨[], some ⟨2⟩, ⟨101, 150⟩⟩).insert ⟨2⟩
        ⟨[⟨3⟩], some ⟨0⟩, ⟨101, 200⟩⟩).insert ⟨1⟩ ⟨[], some ⟨0⟩, ⟨1, 100⟩⟩).insert ⟨0⟩
        ⟨[⟨1⟩, ⟨2⟩], none, ⟨1, 2 ^ 64 - 2⟩⟩
    WellFormed store ⟨0⟩ ∧ ∃ answer, futureCoveringSetHasAncestorOf store [⟨1⟩, ⟨2⟩] ⟨3⟩ = .ok answer ∧
      (answer = true ↔ ∃ x ∈ [⟨1⟩, ⟨2⟩], Relation.ReflTransGen (TreeParent store) x ⟨3⟩) := by
  intro store
  have wf : WellFormed store ⟨0⟩ := ⟨by decide, by decide, by decide, by decide, by decide⟩
  exact ⟨wf, futureCoveringSetHasAncestorOf_iff wf (by decide) (by decide) (by decide) (by decide)⟩

inductive NextAncestorError where
  | reachability (err : ReachabilityError)
  /-- "ancestor is equal to descendant" -/
  | ancestorIsDescendant
  /-- "ancestor is not an ancestor of descendant" -/
  | notAncestor
  deriving DecidableEq, Repr

variable (store) in
def FindNextAncestor (descendant ancestor : DomainHash) : Except NextAncestorError DomainHash := do
  if ancestor = descendant then
    throw .ancestorIsDescendant
  let childrenOfAncestor ← (children store ancestor).mapError .reachability
  match findAncestorOfNode store childrenOfAncestor descendant with
  | none => throw .notAncestor
  | some nextAncestor => pure nextAncestor

theorem FindNextAncestor_eq_ok {root : DomainHash} (wf : WellFormed store root)
    {descendant ancestor : DomainHash} (descendantStored : descendant ∈ store)
    (below : Relation.TransGen (TreeParent store) ancestor descendant) :
    ∃ next, FindNextAncestor store descendant ancestor = .ok next ∧ TreeParent store ancestor next ∧
      Relation.ReflTransGen (TreeParent store) next descendant := by
  obtain ⟨c, step, rest⟩ := Relation.TransGen.head'_iff.1 below
  obtain ⟨data, found, child⟩ := wf.parent_linked step
  have distinct : ancestor ≠ descendant := by
    have cStored := wf.laminar.mem_of_ancestor rest descendantStored
    have inChild := (wf.laminar.contains_of_ancestor rest descendantStored).1.2
    have inAncestor := (wf.laminar.inside ancestor c step cStored).2
    rintro rfl
    omega
  have apart := wf.children_apart found
  have childrenStored : ∀ x ∈ data.children, x ∈ store := fun _ mem => wf.child_stored found mem
  have sorted : data.children.Pairwise fun x y => startOf store x ≤ startOf store y :=
    apart.imp_of_mem fun xMem _ before =>
      Nat.le_of_lt (Nat.lt_of_le_of_lt (wf.nonempty (childrenStored _ xMem)) before)
  have disjoint : data.children.Pairwise fun x y =>
      endOf store x < startOf store y ∨ endOf store y < startOf store x :=
    apart.imp Or.inl
  obtain ⟨next, search, mem, nextAncestor⟩ := findAncestorOfNode_of_ancestor wf childrenStored
    descendantStored sorted disjoint ⟨c, child, rest⟩
  refine ⟨next, ?_, wf.parent_of_child found mem, nextAncestor⟩
  simp [FindNextAncestor, distinct, children, reachabilityData, found, search, bind, Except.bind,
    Except.mapError, pure, Except.pure]

end ReachabilityManager
