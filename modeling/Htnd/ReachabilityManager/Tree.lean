import Mathlib
import Htnd.Lib.IntervalTree
import Htnd.Utxo.Collection

/-!
The reachability tree (reachabilitymanager: tree.go, interval.go, fetch.go). The reachability
data store gives each block its parent and children in the tree and an interval of `uint64`
ends. A block is a tree ancestor of another when its interval contains the other's;
`validateIntervals` checks, node by node, the nesting that makes this so.
-/
namespace ReachabilityManager
open Utxo

structure ReachabilityInterval where
  start : UInt64
  «end» : UInt64
  deriving DecidableEq, Repr

structure ReachabilityData where
  children : List DomainHash
  parent : Option DomainHash
  interval : ReachabilityInterval
  deriving DecidableEq, Repr

abbrev ReachabilityDataStore := AList fun _ : DomainHash => ReachabilityData

inductive ReachabilityError where
  | notFound (hash : DomainHash)
  | intervalAllocationEmpty
  | childIntervalsNotAdjacent
  | childIntervalLeftOfParent
  | childIntervalRightOfParent
  deriving DecidableEq, Repr

def ReachabilityError.message (hashText : DomainHash → String) : ReachabilityError → String
  | .notFound hash => "key " ++ hashText hash ++ " not found: not found"
  | .intervalAllocationEmpty => "Interval allocation is empty"
  | .childIntervalsNotAdjacent => "Child intervals are expected be right after each other"
  | .childIntervalLeftOfParent => "Child interval to the left of parent"
  | .childIntervalRightOfParent => "Child interval to the right of parent"

def intervalContains (ri other : ReachabilityInterval) : Bool :=
  ri.start ≤ other.start && other.end ≤ ri.end

variable (store : ReachabilityDataStore)

def reachabilityData (blockHash : DomainHash) : Except ReachabilityError ReachabilityData :=
  match store.lookup blockHash with
  | none => .error (.notFound blockHash)
  | some data => .ok data

def interval (blockHash : DomainHash) : Except ReachabilityError ReachabilityInterval := do
  let data ← reachabilityData store blockHash
  pure data.interval

def children (blockHash : DomainHash) : Except ReachabilityError (List DomainHash) := do
  let data ← reachabilityData store blockHash
  pure data.children

def isReachabilityTreeAncestorOf (node other : DomainHash) : Except ReachabilityError Bool := do
  let nodeInterval ← interval store node
  let otherInterval ← interval store other
  pure (intervalContains nodeInterval otherInterval)

def validateChildIntervals (currentInterval : ReachabilityInterval) :
    Option ReachabilityInterval → List DomainHash → Except ReachabilityError Unit
  | _, [] => pure ()
  | siblingInterval, child :: children => do
    let childInterval ← interval store child
    if siblingInterval.any fun siblingInterval => siblingInterval.end + 1 ≠ childInterval.start then
      throw .childIntervalsNotAdjacent
    if childInterval.start < currentInterval.start then throw .childIntervalLeftOfParent
    if childInterval.end ≥ currentInterval.end then throw .childIntervalRightOfParent
    validateChildIntervals currentInterval (some childInterval) children

def validateIntervalsAt (current : DomainHash) : Except ReachabilityError Unit := do
  let children ← children store current
  let currentInterval ← interval store current
  if currentInterval.start > currentInterval.end then throw .intervalAllocationEmpty
  validateChildIntervals store currentInterval none children

def TreeParent (p c : DomainHash) : Prop :=
  ∃ data, store.lookup c = some data ∧ data.parent = some p

structure WellFormed (root : DomainHash) : Prop where
  parent_children : ∀ e ∈ store.entries,
    e.2.parent.all fun p => (store.lookup p).any fun parentData => parentData.children.contains e.1
  children_parent : ∀ e ∈ store.entries, ∀ c ∈ e.2.children,
    (store.lookup c).any fun childData => childData.parent = some e.1
  root_stored : root ∈ store
  root_only : ∀ e ∈ store.entries, e.2.parent = none → e.1 = root
  intervals : ∀ e ∈ store.entries, validateIntervalsAt store e.1 = .ok ()

def startOf (x : DomainHash) : Nat :=
  ((store.lookup x).map fun data => data.interval.start.toNat).getD 0

def endOf (x : DomainHash) : Nat :=
  ((store.lookup x).map fun data => data.interval.end.toNat).getD 0

variable {store}

theorem startOf_eq {x : DomainHash} {data : ReachabilityData} (found : store.lookup x = some data) :
    startOf store x = data.interval.start.toNat := by
  simp [startOf, found]

theorem endOf_eq {x : DomainHash} {data : ReachabilityData} (found : store.lookup x = some data) :
    endOf store x = data.interval.end.toNat := by
  simp [endOf, found]

theorem mem_entries_of_lookup {x : DomainHash} {data : ReachabilityData}
    (found : store.lookup x = some data) : (⟨x, data⟩ : Σ _ : DomainHash, ReachabilityData) ∈ store.entries :=
  AList.mem_lookup_iff.mp found

theorem validateIntervalsAt_ok {x : DomainHash} (valid : validateIntervalsAt store x = .ok ()) :
    ∃ data, store.lookup x = some data ∧ data.interval.start ≤ data.interval.end ∧
      validateChildIntervals store data.interval none data.children = .ok () := by
  unfold validateIntervalsAt children interval reachabilityData at valid
  cases found : store.lookup x with
  | none => simp [found, bind, Except.bind] at valid
  | some data =>
    refine ⟨data, rfl, ?_⟩
    simp only [found, bind, Except.bind, pure, Except.pure] at valid
    split at valid
    · cases valid
    · rename_i notEmpty
      exact ⟨UInt64.not_lt.mp notEmpty, valid⟩

theorem validateChildIntervals_cons {cur : ReachabilityInterval}
    {sibling : Option ReachabilityInterval} {child : DomainHash} {rest : List DomainHash}
    (valid : validateChildIntervals store cur sibling (child :: rest) = .ok ()) :
    ∃ childData, store.lookup child = some childData ∧
      (∀ s, sibling = some s → s.end + 1 = childData.interval.start) ∧
      cur.start ≤ childData.interval.start ∧ childData.interval.end < cur.end ∧
      validateChildIntervals store cur (some childData.interval) rest = .ok () := by
  unfold validateChildIntervals interval reachabilityData at valid
  cases found : store.lookup child with
  | none => simp [found, bind, Except.bind] at valid
  | some childData =>
    refine ⟨childData, rfl, ?_⟩
    simp only [found, bind, Except.bind, pure, Except.pure] at valid
    split at valid
    · cases valid
    rename_i adjacent
    split at valid
    · cases valid
    rename_i left
    split at valid
    · cases valid
    rename_i right
    refine ⟨?_, UInt64.not_lt.mp left, UInt64.not_le.mp right, valid⟩
    rintro s rfl
    simpa using adjacent

theorem validateChildIntervals_inside {cur : ReachabilityInterval}
    {sibling : Option ReachabilityInterval} {rest : List DomainHash}
    (valid : validateChildIntervals store cur sibling rest = .ok ()) :
    ∀ c ∈ rest, ∃ data, store.lookup c = some data ∧ cur.start ≤ data.interval.start ∧
      data.interval.end < cur.end := by
  induction rest generalizing sibling with
  | nil => simp
  | cons child rest ih =>
    obtain ⟨childData, found, _, left, right, valid⟩ := validateChildIntervals_cons valid
    intro c mem
    rcases List.mem_cons.mp mem with rfl | mem
    · exact ⟨childData, found, left, right⟩
    · exact ih valid c mem

theorem toNat_add_one_of_lt {a b : UInt64} (lt : a < b) : (a + 1).toNat = a.toNat + 1 := by
  have bound := UInt64.toNat_lt b
  rw [UInt64.lt_iff_toNat_lt] at lt
  rw [UInt64.toNat_add, UInt64.toNat_one, Nat.mod_eq_of_lt (by omega)]

theorem validateChildIntervals_after {cur sibling : ReachabilityInterval} {rest : List DomainHash}
    (valid : validateChildIntervals store cur (some sibling) rest = .ok ())
    (siblingInside : sibling.end < cur.end)
    (nonempty : ∀ c ∈ rest, startOf store c ≤ endOf store c) :
    ∀ c ∈ rest, sibling.end.toNat < startOf store c := by
  induction rest generalizing sibling with
  | nil => simp
  | cons child rest ih =>
    obtain ⟨childData, found, adjacent, _, right, valid⟩ := validateChildIntervals_cons valid
    have next : sibling.end.toNat + 1 = childData.interval.start.toNat := by
      rw [← adjacent sibling rfl, toNat_add_one_of_lt siblingInside]
    have childNonempty : childData.interval.start.toNat ≤ childData.interval.end.toNat := by
      simpa [startOf_eq found, endOf_eq found] using nonempty child (List.mem_cons_self ..)
    intro c mem
    rcases List.mem_cons.mp mem with rfl | mem
    · rw [startOf_eq found]
      omega
    · have later := ih valid right (fun c mem => nonempty c (List.mem_cons_of_mem _ mem)) c mem
      omega

theorem validateChildIntervals_pairwise {cur : ReachabilityInterval}
    {sibling : Option ReachabilityInterval} {rest : List DomainHash}
    (valid : validateChildIntervals store cur sibling rest = .ok ())
    (nonempty : ∀ c ∈ rest, startOf store c ≤ endOf store c) :
    rest.Pairwise fun c₁ c₂ => endOf store c₁ < startOf store c₂ := by
  induction rest generalizing sibling with
  | nil => exact List.Pairwise.nil
  | cons child rest ih =>
    obtain ⟨childData, found, _, _, right, valid⟩ := validateChildIntervals_cons valid
    have restNonempty := fun c mem => nonempty c (List.mem_cons_of_mem child mem)
    refine List.Pairwise.cons ?_ (ih valid restNonempty)
    intro c mem
    rw [endOf_eq found]
    exact validateChildIntervals_after valid right restNonempty c mem

theorem lookup_of_mem {x : DomainHash} (mem : x ∈ store) : ∃ data, store.lookup x = some data :=
  Option.isSome_iff_exists.mp (AList.lookup_isSome.mpr mem)

namespace WellFormed

variable {root : DomainHash} (wf : WellFormed store root)
include wf

theorem validate {x : DomainHash} {data : ReachabilityData} (found : store.lookup x = some data) :
    data.interval.start ≤ data.interval.end ∧
      validateChildIntervals store data.interval none data.children = .ok () := by
  obtain ⟨data', found', nonempty, valid⟩ :=
    validateIntervalsAt_ok (wf.intervals _ (mem_entries_of_lookup found))
  rw [found, Option.some.injEq] at found'
  subst found'
  exact ⟨nonempty, valid⟩

theorem nonempty {x : DomainHash} (mem : x ∈ store) : startOf store x ≤ endOf store x := by
  obtain ⟨data, found⟩ := lookup_of_mem mem
  rw [startOf_eq found, endOf_eq found]
  exact UInt64.le_iff_toNat_le.mp (wf.validate found).1

theorem parent_linked {p c : DomainHash} (step : TreeParent store p c) :
    ∃ parentData, store.lookup p = some parentData ∧ c ∈ parentData.children := by
  obtain ⟨data, found, parent⟩ := step
  have linked := wf.parent_children _ (mem_entries_of_lookup found)
  simp only [parent, Option.all_some] at linked
  cases lookupP : store.lookup p with
  | none => simp [lookupP] at linked
  | some parentData => exact ⟨parentData, rfl, by simpa [lookupP] using linked⟩

theorem child_stored {x c : DomainHash} {data : ReachabilityData}
    (found : store.lookup x = some data) (child : c ∈ data.children) : c ∈ store := by
  have linked := wf.children_parent _ (mem_entries_of_lookup found) c child
  cases lookupC : store.lookup c with
  | none => simp [lookupC] at linked
  | some childData => exact AList.lookup_isSome.mp (by simp [lookupC])

theorem parent_of_child {x c : DomainHash} {data : ReachabilityData}
    (found : store.lookup x = some data) (child : c ∈ data.children) : TreeParent store x c := by
  have linked := wf.children_parent _ (mem_entries_of_lookup found) c child
  cases lookupC : store.lookup c with
  | none => simp [lookupC] at linked
  | some childData =>
    rw [lookupC, Option.any_some, decide_eq_true_eq] at linked
    exact ⟨childData, lookupC, linked⟩

theorem children_apart {x : DomainHash} {data : ReachabilityData} (found : store.lookup x = some data) :
    data.children.Pairwise fun c₁ c₂ => endOf store c₁ < startOf store c₂ :=
  validateChildIntervals_pairwise (wf.validate found).2
    (fun _ child => wf.nonempty (wf.child_stored found child))

theorem laminar :
    IntervalTree.Laminar {x | x ∈ store} (TreeParent store) root (startOf store) (endOf store)
      (2 ^ 64) where
  nonempty _ mem := wf.nonempty mem
  parent_mem p c step _ := by
    obtain ⟨parentData, found, _⟩ := wf.parent_linked step
    exact AList.lookup_isSome.mp (by simp [found])
  inside p c step _ := by
    obtain ⟨parentData, found, child⟩ := wf.parent_linked step
    obtain ⟨childData, childFound, left, right⟩ :=
      validateChildIntervals_inside (wf.validate found).2 c child
    rw [startOf_eq found, startOf_eq childFound, endOf_eq found, endOf_eq childFound]
    exact ⟨UInt64.le_iff_toNat_le.mp left, UInt64.lt_iff_toNat_lt.mp right⟩
  siblings p c₁ c₂ step₁ step₂ _ _ distinct := by
    obtain ⟨parentData, found, child₁⟩ := wf.parent_linked step₁
    obtain ⟨parentData', found', child₂⟩ := wf.parent_linked step₂
    rw [found, Option.some.injEq] at found'
    subst found'
    have sorted := wf.children_apart found
    let apart (x y : DomainHash) : Prop := endOf store x < startOf store y ∨ endOf store y < startOf store x
    have : Std.Symm apart := ⟨fun _ _ disjoint => disjoint.symm⟩
    have sortedApart : parentData.children.Pairwise apart := sorted.imp fun lt => Or.inl lt
    exact sortedApart.forall child₁ child₂ distinct
  rooted x mem := by
    obtain ⟨data, found⟩ := lookup_of_mem mem
    cases parent : data.parent with
    | none => exact Or.inl (wf.root_only _ (mem_entries_of_lookup found) parent)
    | some p => exact Or.inr ⟨p, data, found, parent⟩
  root_mem := wf.root_stored
  bounded x _ := by
    unfold endOf
    cases store.lookup x with
    | none => simp
    | some data => exact UInt64.toNat_lt _

end WellFormed

theorem isReachabilityTreeAncestorOf_of_lookup {a b : DomainHash} {aData bData : ReachabilityData}
    (aFound : store.lookup a = some aData) (bFound : store.lookup b = some bData) :
    isReachabilityTreeAncestorOf store a b = .ok (intervalContains aData.interval bData.interval) := by
  simp [isReachabilityTreeAncestorOf, interval, reachabilityData, aFound, bFound, bind, Except.bind, pure,
    Except.pure]

theorem WellFormed.intervalContains_iff {root : DomainHash} (wf : WellFormed store root) {a b : DomainHash}
    {aData bData : ReachabilityData} (aFound : store.lookup a = some aData) (bFound : store.lookup b = some bData) :
    intervalContains aData.interval bData.interval = true ↔ Relation.ReflTransGen (TreeParent store) a b := by
  rw [← wf.laminar.contains_iff (AList.lookup_isSome.mp (by simp [aFound]))
    (AList.lookup_isSome.mp (by simp [bFound]))]
  simp [intervalContains, IntervalTree.Contains, startOf_eq aFound, startOf_eq bFound, endOf_eq aFound,
    endOf_eq bFound, UInt64.le_iff_toNat_le]

/-- **Interval containment decides tree ancestry.** In a well-formed reachability tree, the
    answer of `IsReachabilityTreeAncestorOf` for two stored blocks is whether the first is the
    second or is reached from it by following parent links. -/
theorem isReachabilityTreeAncestorOf_iff {root : DomainHash} (wf : WellFormed store root)
    {a b : DomainHash} (aStored : a ∈ store) (bStored : b ∈ store) :
    ∃ answer, isReachabilityTreeAncestorOf store a b = .ok answer ∧
      (answer = true ↔ Relation.ReflTransGen (TreeParent store) a b) := by
  obtain ⟨aData, aFound⟩ := lookup_of_mem aStored
  obtain ⟨bData, bFound⟩ := lookup_of_mem bStored
  exact ⟨_, isReachabilityTreeAncestorOf_of_lookup aFound bFound, wf.intervalContains_iff aFound bFound⟩

end ReachabilityManager
