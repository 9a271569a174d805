import Mathlib
import Htnd.ReachabilityManager.Reindex

/-!
Reindexing when a block is added (reindex_context.go, tree.go). reindexIntervals walks up from the
new block, counting subtrees in the shared reindex context, to the first block whose interval
holds its subtree, and propagates that block's interval down its subtree. When the walk would leave
the reindex root's subtree, the blocks above the reindex root are kept as they are: the missing room
is reclaimed from the slack of the chain from the common ancestor down to the reindex root, and the
siblings in between are shifted.

Every loop of the source is a `loop` run for at most `fuel` turns, and the staging area is the
store threaded through the calls. The walk up of reclaimIntervalBefore and reclaimIntervalAfter,
and the two offsetSiblings functions, differ only in the side they take slack from: each pair is
one definition with that side as parameters.
-/
namespace ReachabilityManager
open GoSemantics Utxo

abbrev ReindexM := ExceptT ReindexError Option

def liftReachability {α : Type} (x : Except ReachabilityError α) : ReindexM α :=
  ExceptT.mk (some (x.mapError .reachability))

variable (store : ReachabilityDataStore)

/-! ### Tree helpers (tree.go) -/

def remainingIntervalBefore (node : DomainHash) : Except ReachabilityError ReachabilityInterval := do
  let childrenRange ← intervalRangeForChildAllocation store node
  let children ← children store node
  match children with
  | [] => pure childrenRange
  | first :: _ =>
    let firstChildInterval ← interval store first
    pure ⟨childrenRange.start, firstChildInterval.start - 1⟩

def remainingIntervalAfter (node : DomainHash) : Except ReachabilityError ReachabilityInterval := do
  let childrenRange ← intervalRangeForChildAllocation store node
  let children ← children store node
  match children.getLast? with
  | none => pure childrenRange
  | some last =>
    let lastChildInterval ← interval store last
    pure ⟨lastChildInterval.end + 1, childrenRange.end⟩

def remainingSlackBefore (node : DomainHash) : Except ReachabilityError UInt64 := do
  let interval ← remainingIntervalBefore store node
  pure (intervalSize interval)

def remainingSlackAfter (node : DomainHash) : Except ReachabilityError UInt64 := do
  let interval ← remainingIntervalAfter store node
  pure (intervalSize interval)

def isStrictAncestorOf (node other : DomainHash) : Except ReachabilityError Bool :=
  if node = other then pure false else isReachabilityTreeAncestorOf store node other

def splitAtPivot (pivot : DomainHash) : List DomainHash → Option (List DomainHash × List DomainHash)
  | [] => none
  | child :: children =>
    if child = pivot then some ([], children)
    else (splitAtPivot pivot children).map fun split => (child :: split.1, split.2)

def splitChildren (node pivot : DomainHash) : Except ReindexError (List DomainHash × List DomainHash) := do
  let children ← (children store node).mapError .reachability
  match splitAtPivot pivot children with
  | none => throw .notAPivot
  | some split => pure split

/-! ### Moving siblings -/

variable (fuel : Nat)

def offsetSiblingsLoop (growAllocation moveSibling : ReachabilityInterval → UInt64 → ReachabilityInterval)
    (allocationNode : DomainHash) (offset : UInt64) :
    ReindexContext × ReachabilityDataStore → List DomainHash → ReindexM (ReindexContext × ReachabilityDataStore)
  | s, [] => pure s
  | s, sibling :: siblings =>
    if sibling = allocationNode then do
      let previousInterval ← liftReachability (interval s.2 allocationNode)
      ExceptT.mk (propagateInterval (stageInterval s.2 allocationNode (growAllocation previousInterval offset))
        fuel s.1 allocationNode)
    else do
      let previousInterval ← liftReachability (interval s.2 sibling)
      let s ← ExceptT.mk (propagateInterval (stageInterval s.2 sibling (moveSibling previousInterval offset))
        fuel s.1 sibling)
      offsetSiblingsLoop growAllocation moveSibling allocationNode offset s siblings

/-- offsetSiblingsBefore and offsetSiblingsAfter, with `side` choosing and ordering the siblings
    of `current` that move. A root `current` has no parent, and Go reads the children of a nil
    hash: it panics. -/
def offsetSiblings (side : List DomainHash × List DomainHash → List DomainHash)
    (growAllocation moveSibling : ReachabilityInterval → UInt64 → ReachabilityInterval)
    (rc : ReindexContext) (allocationNode current : DomainHash) (offset : UInt64) :
    ReindexM (ReindexContext × ReachabilityDataStore) := do
  let parent ← liftReachability (parent store current)
  let some parent := parent | throw (.panicked .nilPointerDereference)
  let split ← ExceptT.mk (some (splitChildren store parent current))
  offsetSiblingsLoop fuel growAllocation moveSibling allocationNode offset (rc, store) (side split)

def offsetSiblingsBefore (rc : ReindexContext) (allocationNode current : DomainHash) (offset : UInt64) :
    ReindexM (ReindexContext × ReachabilityDataStore) :=
  offsetSiblings store fuel (fun split => split.1.reverse) intervalIncreaseEnd intervalIncrease rc
    allocationNode current offset

def offsetSiblingsAfter (rc : ReindexContext) (allocationNode current : DomainHash) (offset : UInt64) :
    ReindexM (ReindexContext × ReachabilityDataStore) :=
  offsetSiblings store fuel (fun split => split.2) intervalDecreaseStart intervalDecrease rc
    allocationNode current offset

/-! ### Reclaiming slack from the chain to the reindex root -/

structure ReclaimLoop where
  current : DomainHash
  slackSum : UInt64
  pathLen : UInt64
  rc : ReindexContext
  store : ReachabilityDataStore

structure ReclaimSide where
  remainingSlack : ReachabilityDataStore → DomainHash → Except ReachabilityError UInt64
  shrink : ReachabilityInterval → UInt64 → ReachabilityInterval
  offsetSiblings : ReachabilityDataStore → ReindexContext → DomainHash → DomainHash → UInt64 →
    ReindexM (ReindexContext × ReachabilityDataStore)

variable (reindexSlack : UInt64) (side : ReclaimSide)

def reclaimUpStep (allocationNode reindexRoot : DomainHash) (requiredAllocation : UInt64) (s : ReclaimLoop) :
    ReindexM (ReclaimLoop ⊕ DomainHash × UInt64 × ReindexContext × ReachabilityDataStore) :=
  if s.current = reindexRoot then do
    let previousInterval ← liftReachability (interval s.store s.current)
    let offset := requiredAllocation + reindexSlack * s.pathLen - s.slackSum
    let propagated ← ExceptT.mk (propagateInterval (stageInterval s.store s.current
      (side.shrink previousInterval offset)) fuel s.rc s.current)
    let offsetted ← side.offsetSiblings propagated.2 propagated.1 allocationNode s.current offset
    pure (.inr (s.current, reindexSlack, offsetted))
  else do
    let slackBeforeCurrent ← liftReachability (side.remainingSlack s.store s.current)
    let slackSum := s.slackSum + slackBeforeCurrent
    if slackSum ≥ requiredAllocation then
      let previousInterval ← liftReachability (interval s.store s.current)
      -- just enough of this block's slack to cover what is still missing
      let offset := slackBeforeCurrent - (slackSum - requiredAllocation)
      let offsetted ← side.offsetSiblings (stageInterval s.store s.current (side.shrink previousInterval offset))
        s.rc allocationNode s.current offset
      pure (.inr (s.current, 0, offsetted))
    else
      let current ← ExceptT.mk (some ((FindNextAncestor s.store reindexRoot s.current).mapError .nextAncestor))
      pure (.inl ⟨current, slackSum, s.pathLen + 1, s.rc, s.store⟩)

/-- A turn of the walk back down to the common ancestor: each block of the path gives up its slack
    but `pathSlackAlloc`. Past the root Go reads the interval of a nil hash: it panics. -/
def reclaimDownStep (allocationNode commonAncestor : DomainHash) (pathSlackAlloc : UInt64)
    (s : DomainHash × ReindexContext × ReachabilityDataStore) :
    ReindexM ((DomainHash × ReindexContext × ReachabilityDataStore) ⊕ ReindexContext × ReachabilityDataStore) := do
  let current ← liftReachability (parent s.2.2 s.1)
  let some current := current | throw (.panicked .nilPointerDereference)
  if current = commonAncestor then pure (.inr s.2)
  else
    let originalInterval ← liftReachability (interval s.2.2 current)
    let slackBeforeCurrent ← liftReachability (side.remainingSlack s.2.2 current)
    let offset := slackBeforeCurrent - pathSlackAlloc
    let offsetted ← side.offsetSiblings (stageInterval s.2.2 current (side.shrink originalInterval offset))
      s.2.1 allocationNode current offset
    pure (.inl (current, offsetted))

def reclaimInterval (rc : ReindexContext) (allocationNode commonAncestor chosenChild reindexRoot : DomainHash)
    (requiredAllocation : UInt64) : ReindexM (ReindexContext × ReachabilityDataStore) := do
  let up ← ExceptT.mk (loop (fun s => (reclaimUpStep fuel reindexSlack side allocationNode reindexRoot
    requiredAllocation s).run) fuel ⟨chosenChild, 0, 0, rc, store⟩)
  ExceptT.mk (loop (fun s => (reclaimDownStep side allocationNode commonAncestor up.2.1 s).run) fuel
    (up.1, up.2.2))

def beforeSide : ReclaimSide where
  remainingSlack := remainingSlackBefore
  shrink := intervalIncreaseStart
  offsetSiblings store := offsetSiblingsBefore store fuel

def afterSide : ReclaimSide where
  remainingSlack := remainingSlackAfter
  shrink := intervalDecreaseEnd
  offsetSiblings store := offsetSiblingsAfter store fuel

def reclaimIntervalBefore (rc : ReindexContext) (allocationNode commonAncestor chosenChild reindexRoot : DomainHash)
    (requiredAllocation : UInt64) : ReindexM (ReindexContext × ReachabilityDataStore) :=
  reclaimInterval store fuel reindexSlack (beforeSide fuel) rc allocationNode commonAncestor chosenChild
    reindexRoot requiredAllocation

def reclaimIntervalAfter (rc : ReindexContext) (allocationNode commonAncestor chosenChild reindexRoot : DomainHash)
    (requiredAllocation : UInt64) : ReindexM (ReindexContext × ReachabilityDataStore) :=
  reclaimInterval store fuel reindexSlack (afterSide fuel) rc allocationNode commonAncestor chosenChild
    reindexRoot requiredAllocation

def reindexIntervalsEarlierThanRoot (rc : ReindexContext) (allocationNode reindexRoot commonAncestor : DomainHash)
    (requiredAllocation : UInt64) : ReindexM (ReindexContext × ReachabilityDataStore) := do
  let chosenChild ← ExceptT.mk (some ((FindNextAncestor store reindexRoot commonAncestor).mapError .nextAncestor))
  let nodeInterval ← liftReachability (interval store allocationNode)
  let chosenInterval ← liftReachability (interval store chosenChild)
  if nodeInterval.start < chosenInterval.start then
    reclaimIntervalBefore store fuel reindexSlack rc allocationNode commonAncestor chosenChild reindexRoot
      requiredAllocation
  else
    reclaimIntervalAfter store fuel reindexSlack rc allocationNode commonAncestor chosenChild reindexRoot
      requiredAllocation

/-! ### The walk up from the new block -/

inductive ReindexStop where
  /-- `current` has room for its subtree. -/
  | sufficient (current : DomainHash)
  /-- The parent of `current` lies strictly above the reindex root. -/
  | earlierThanRoot (current parent : DomainHash) (currentSubtreeSize : UInt64)
  deriving DecidableEq, Repr

def reindexIntervalsStep (reindexRoot : DomainHash) (s : DomainHash × ReindexContext) :
    ReindexM ((DomainHash × ReindexContext) ⊕ ReindexStop × ReindexContext) := do
  let currentInterval ← liftReachability (interval store s.1)
  let currentIntervalSize := intervalSize currentInterval
  let rc ← ExceptT.mk ((countSubtrees store fuel s.2 s.1).map (Except.mapError (.reachability ·.1)))
  let currentSubtreeSize := (rc.subTreeSizesCache s.1).getD 0
  if currentIntervalSize ≥ currentSubtreeSize then pure (.inr (.sufficient s.1, rc))
  else
    let parent ← liftReachability (parent store s.1)
    let some parent := parent | throw .missingTreeParent
    if s.1 = reindexRoot then throw (.reindexRootOutOfCapacity reindexRoot)
    else
      let isParentStrictAncestorOfRoot ← liftReachability (isStrictAncestorOf store parent reindexRoot)
      if isParentStrictAncestorOfRoot then pure (.inr (.earlierThanRoot s.1 parent currentSubtreeSize, rc))
      else pure (.inl (parent, rc))

def reindexIntervals (rc : ReindexContext) (newChild reindexRoot : DomainHash) :
    ReindexM (ReindexContext × ReachabilityDataStore) := do
  let stop ← ExceptT.mk (loop (fun s => (reindexIntervalsStep store fuel reindexRoot s).run) fuel (newChild, rc))
  match stop.1 with
  | .sufficient current => ExceptT.mk (propagateInterval store fuel stop.2 current)
  | .earlierThanRoot current parent currentSubtreeSize =>
    reindexIntervalsEarlierThanRoot store fuel reindexSlack stop.2 current reindexRoot parent currentSubtreeSize

/-! ### What a turn of the walk up does -/

@[simp] theorem mk_some_ok {α : Type} (a : α) : (ExceptT.mk (some (.ok a)) : ReindexM α) = pure a := rfl

@[simp] theorem mk_some_error {α : Type} (e : ReindexError) : (ExceptT.mk (some (.error e)) : ReindexM α) = throw e :=
  rfl

variable {store fuel reindexSlack}

section Step

variable {reindexRoot current : DomainHash} {rc rc' : ReindexContext} {ri : ReachabilityInterval}
  (found : interval store current = .ok ri) (counted : countSubtrees store fuel rc current = some (.ok rc'))
include found counted

theorem reindexIntervalsStep_sufficient (roomy : (rc'.subTreeSizesCache current).getD 0 ≤ intervalSize ri) :
    reindexIntervalsStep store fuel reindexRoot (current, rc) = pure (.inr (.sufficient current, rc')) := by
  simp [reindexIntervalsStep, liftReachability, found, counted, roomy, Except.mapError]

variable (short : intervalSize ri < (rc'.subTreeSizesCache current).getD 0)
include short

theorem reindexIntervalsStep_missingTreeParent (noParent : parent store current = .ok none) :
    reindexIntervalsStep store fuel reindexRoot (current, rc) = throw .missingTreeParent := by
  simp [reindexIntervalsStep, liftReachability, found, counted, UInt64.not_le.2 short, noParent, Except.mapError]

theorem reindexIntervalsStep_outOfCapacity {p : DomainHash} (hasParent : parent store current = .ok (some p))
    (atRoot : current = reindexRoot) :
    reindexIntervalsStep store fuel reindexRoot (current, rc) = throw (.reindexRootOutOfCapacity reindexRoot) := by
  subst atRoot
  simp [reindexIntervalsStep, liftReachability, found, counted, UInt64.not_le.2 short, hasParent, Except.mapError]

theorem reindexIntervalsStep_up {p : DomainHash} (hasParent : parent store current = .ok (some p))
    (other : current ≠ reindexRoot) (notAbove : isStrictAncestorOf store p reindexRoot = .ok false) :
    reindexIntervalsStep store fuel reindexRoot (current, rc) = pure (.inl (p, rc')) := by
  simp [reindexIntervalsStep, liftReachability, found, counted, UInt64.not_le.2 short, hasParent, other,
    notAbove, Except.mapError]

end Step

theorem reindexIntervals_of_sufficient {rc rc' : ReindexContext} {newChild reindexRoot current : DomainHash}
    (walked : loop (fun s => (reindexIntervalsStep store fuel reindexRoot s).run) fuel (newChild, rc) =
      some (.ok (.sufficient current, rc'))) :
    reindexIntervals store fuel reindexSlack rc newChild reindexRoot =
      ExceptT.mk (propagateInterval store fuel rc' current) := by
  simp [reindexIntervals, walked]

theorem reindexIntervals_of_error {rc : ReindexContext} {newChild reindexRoot : DomainHash} {e : ReindexError}
    (walked : loop (fun s => (reindexIntervalsStep store fuel reindexRoot s).run) fuel (newChild, rc) =
      some (.error e)) :
    reindexIntervals store fuel reindexSlack rc newChild reindexRoot = throw e := by
  simp [reindexIntervals, walked]

theorem WellFormed.isStrictAncestorOf_of_below {root : DomainHash} (wf : WellFormed store root) {a b : DomainHash}
    (aStored : a ∈ store) (below : Relation.ReflTransGen (TreeParent store) b a) :
    isStrictAncestorOf store a b = .ok false := by
  by_cases same : a = b
  · simp [isStrictAncestorOf, same, pure, Except.pure]
  have bStored := wf.laminar.mem_of_ancestor below aStored
  obtain ⟨aData, aFound⟩ := lookup_of_mem aStored
  obtain ⟨bData, bFound⟩ := lookup_of_mem bStored
  have notContains : intervalContains aData.interval bData.interval = false := by
    rw [Bool.eq_false_iff]
    intro contains
    rcases Relation.reflTransGen_iff_eq_or_transGen.1 ((wf.intervalContains_iff aFound bFound).1 contains) with
      rfl | path
    · exact same rfl
    · exact wf.not_transGen_self a (Relation.TransGen.trans_left path below)
  simp [isStrictAncestorOf, same, isReachabilityTreeAncestorOf_of_lookup aFound bFound, notContains]

theorem remainingIntervalAfter_congr {store' : ReachabilityDataStore} {node : DomainHash}
    (sameNode : store'.lookup node = store.lookup node)
    (sameChildren : ∀ c ∈ childrenOf store node, store'.lookup c = store.lookup c) :
    remainingIntervalAfter store' node = remainingIntervalAfter store node := by
  cases found : store.lookup node with
  | none =>
    simp [remainingIntervalAfter, intervalRangeForChildAllocation, interval, reachabilityData, sameNode, found,
      bind, Except.bind]
  | some data =>
    rw [childrenOf_eq found] at sameChildren
    cases last : data.children.getLast? with
    | none =>
      simp [remainingIntervalAfter, intervalRangeForChildAllocation, children, interval, reachabilityData,
        sameNode, found, last, bind, Except.bind, pure, Except.pure]
    | some c =>
      have sameLast := sameChildren c (List.mem_of_getLast? last)
      simp [remainingIntervalAfter, intervalRangeForChildAllocation, children, interval, reachabilityData,
        sameNode, found, last, sameLast, bind, Except.bind, pure, Except.pure]

theorem mem_of_remainingSlackAfter {node : DomainHash} {slack : UInt64}
    (found : remainingSlackAfter store node = .ok slack) : node ∈ store := by
  cases lookup : store.lookup node with
  | none =>
    simp [remainingSlackAfter, remainingIntervalAfter, intervalRangeForChildAllocation, interval, reachabilityData,
      lookup, bind, Except.bind] at found
  | some data => exact AList.lookup_isSome.1 (by rw [lookup]; rfl)

theorem remainingIntervalAfter_of_slack {node : DomainHash} {slack : UInt64}
    (found : remainingSlackAfter store node = .ok slack) :
    ∃ remaining, remainingIntervalAfter store node = .ok remaining ∧ intervalSize remaining = slack := by
  cases after : remainingIntervalAfter store node with
  | error err => simp [remainingSlackAfter, after, bind, Except.bind] at found
  | ok remaining =>
    simp only [remainingSlackAfter, after, bind, Except.bind, pure, Except.pure, Except.ok.injEq] at found
    exact ⟨remaining, rfl, found⟩

/-! ### What a reindex never changes -/

variable (store) in
def KeepsLinks (run : ReindexM (ReindexContext × ReachabilityDataStore)) : Prop :=
  ∀ r, run = pure r → links r.2 = links store

theorem mem_of_interval {x : DomainHash} {ri : ReachabilityInterval} (found : interval store x = .ok ri) :
    x ∈ store := by
  cases lookup : store.lookup x with
  | none => simp [interval, reachabilityData, lookup, bind, Except.bind] at found
  | some data => exact AList.lookup_isSome.1 (by rw [lookup]; rfl)

theorem liftReachability_eq_pure {α : Type} {x : Except ReachabilityError α} {a : α} :
    liftReachability x = pure a ↔ x = .ok a := by
  cases x with
  | error e => exact iff_of_false (fun same => by cases same) (fun same => by cases same)
  | ok b => exact ⟨fun same => by cases same; rfl, fun same => by cases same; rfl⟩

theorem propagateInterval_stageInterval_links (listed : ChildrenStored store) {x : DomainHash}
    {ri : ReachabilityInterval} (found : interval store x = .ok ri) (i : ReachabilityInterval) {rc : ReindexContext}
    {r : ReindexContext × ReachabilityDataStore}
    (ran : propagateInterval (stageInterval store x i) fuel rc x = some (.ok r)) : links r.2 = links store := by
  have staged := links_stageInterval (mem_of_interval found) i
  exact (propagateInterval_links (listed.of_links staged) ran).trans staged

theorem offsetSiblingsLoop_keepsLinks {growAllocation moveSibling : ReachabilityInterval → UInt64 → ReachabilityInterval}
    {allocationNode : DomainHash} {offset : UInt64} (siblings : List DomainHash) :
    ∀ s : ReindexContext × ReachabilityDataStore, ChildrenStored s.2 →
      KeepsLinks s.2 (offsetSiblingsLoop fuel growAllocation moveSibling allocationNode offset s siblings) := by
  induction siblings with
  | nil =>
    intro s _ r ran
    rw [← pure_inj ran]
  | cons sibling siblings ih =>
    intro s listed r ran
    simp only [offsetSiblingsLoop] at ran
    split_ifs at ran
    · obtain ⟨previous, found, propagated⟩ := bind_eq_pure ran
      exact propagateInterval_stageInterval_links listed (liftReachability_eq_pure.1 found) _ propagated
    · obtain ⟨previous, found, rest⟩ := bind_eq_pure ran
      obtain ⟨s', propagated, looped⟩ := bind_eq_pure rest
      have moved := propagateInterval_stageInterval_links listed (liftReachability_eq_pure.1 found) _ propagated
      exact (ih s' (listed.of_links moved) r looped).trans moved

theorem offsetSiblings_keepsLinks (listed : ChildrenStored store)
    {side : List DomainHash × List DomainHash → List DomainHash}
    {growAllocation moveSibling : ReachabilityInterval → UInt64 → ReachabilityInterval} {rc : ReindexContext}
    {allocationNode current : DomainHash} {offset : UInt64} :
    KeepsLinks store (offsetSiblings store fuel side growAllocation moveSibling rc allocationNode current offset) := by
  intro r ran
  obtain ⟨parent, -, rest⟩ := bind_eq_pure ran
  cases parent with
  | none => exact absurd rest throw_ne_pure
  | some parent =>
    obtain ⟨split, -, looped⟩ := bind_eq_pure rest
    exact offsetSiblingsLoop_keepsLinks _ (rc, store) listed r looped

section Reclaim

variable {side : ReclaimSide}
  (moves : ∀ store rc allocationNode current offset, ChildrenStored store →
    KeepsLinks store (side.offsetSiblings store rc allocationNode current offset))
include moves

theorem reclaimUpStep_links {allocationNode reindexRoot : DomainHash} {requiredAllocation : UInt64}
    {s : ReclaimLoop} (listed : ChildrenStored s.store)
    {r : ReclaimLoop ⊕ DomainHash × UInt64 × ReindexContext × ReachabilityDataStore}
    (turn : reclaimUpStep fuel reindexSlack side allocationNode reindexRoot requiredAllocation s = pure r) :
    links (r.elim ReclaimLoop.store (·.2.2.2)) = links s.store := by
  simp only [reclaimUpStep] at turn
  split_ifs at turn
  · obtain ⟨previous, found, rest⟩ := bind_eq_pure turn
    obtain ⟨propagated, ranPropagate, rest⟩ := bind_eq_pure rest
    obtain ⟨offsetted, ranOffset, returned⟩ := bind_eq_pure rest
    cases pure_inj returned
    have shrunk := propagateInterval_stageInterval_links listed (liftReachability_eq_pure.1 found) _ ranPropagate
    exact (moves _ _ _ _ _ (listed.of_links shrunk) offsetted ranOffset).trans shrunk
  · obtain ⟨slack, -, rest⟩ := bind_eq_pure turn
    split_ifs at rest
    · obtain ⟨previous, found, rest⟩ := bind_eq_pure rest
      obtain ⟨offsetted, ranOffset, returned⟩ := bind_eq_pure rest
      cases pure_inj returned
      have shrunk := links_stageInterval (mem_of_interval (liftReachability_eq_pure.1 found))
        (side.shrink previous (slack - (s.slackSum + slack - requiredAllocation)))
      exact (moves _ _ _ _ _ (listed.of_links shrunk) offsetted ranOffset).trans shrunk
    · obtain ⟨next, -, returned⟩ := bind_eq_pure rest
      cases pure_inj returned
      rfl

theorem reclaimDownStep_links {allocationNode commonAncestor : DomainHash} {pathSlackAlloc : UInt64}
    {s : DomainHash × ReindexContext × ReachabilityDataStore} (listed : ChildrenStored s.2.2)
    {r : (DomainHash × ReindexContext × ReachabilityDataStore) ⊕ ReindexContext × ReachabilityDataStore}
    (turn : reclaimDownStep side allocationNode commonAncestor pathSlackAlloc s = pure r) :
    links (r.elim (·.2.2) (·.2)) = links s.2.2 := by
  obtain ⟨current, -, rest⟩ := bind_eq_pure turn
  cases current with
  | none => exact absurd rest throw_ne_pure
  | some current =>
    simp only at rest
    split_ifs at rest
    · cases pure_inj rest
      rfl
    · obtain ⟨original, found, rest⟩ := bind_eq_pure rest
      obtain ⟨slack, -, rest⟩ := bind_eq_pure rest
      obtain ⟨offsetted, ranOffset, returned⟩ := bind_eq_pure rest
      cases pure_inj returned
      have shrunk := links_stageInterval (mem_of_interval (liftReachability_eq_pure.1 found))
        (side.shrink original (slack - pathSlackAlloc))
      exact (moves _ _ _ _ _ (listed.of_links shrunk) offsetted ranOffset).trans shrunk

theorem reclaimInterval_keepsLinks (listed : ChildrenStored store) {rc : ReindexContext}
    {allocationNode commonAncestor chosenChild reindexRoot : DomainHash} {requiredAllocation : UInt64} :
    KeepsLinks store (reclaimInterval store fuel reindexSlack side rc allocationNode commonAncestor chosenChild
      reindexRoot requiredAllocation) := by
  intro r ran
  obtain ⟨up, ranUp, ranDown⟩ := bind_eq_pure ran
  -- the walk up stages nothing until it leaves, the walk down shrinks one block a turn
  have upLinks : links up.2.2.2 = links store :=
    loop_ok_of_invariant (fun s : ReclaimLoop => links s.store = links store) (fun a => links a.2.2.2 = links store)
      (fun s a same turn => (reclaimUpStep_links moves (listed.of_links same) turn).trans same)
      (fun s s' same turn => (reclaimUpStep_links moves (listed.of_links same) turn).trans same)
      fuel ⟨chosenChild, 0, 0, rc, store⟩ rfl up ranUp
  exact loop_ok_of_invariant (fun s : DomainHash × ReindexContext × ReachabilityDataStore => links s.2.2 = links store)
    (fun r : ReindexContext × ReachabilityDataStore => links r.2 = links store)
    (fun s a same turn => (reclaimDownStep_links moves (listed.of_links same) turn).trans same)
    (fun s s' same turn => (reclaimDownStep_links moves (listed.of_links same) turn).trans same)
    fuel (up.1, up.2.2) upLinks r ranDown

end Reclaim

theorem beforeSide_moves : ∀ store rc allocationNode current offset, ChildrenStored store →
    KeepsLinks store ((beforeSide fuel).offsetSiblings store rc allocationNode current offset) :=
  fun _ _ _ _ _ listed => offsetSiblings_keepsLinks listed

theorem afterSide_moves : ∀ store rc allocationNode current offset, ChildrenStored store →
    KeepsLinks store ((afterSide fuel).offsetSiblings store rc allocationNode current offset) :=
  fun _ _ _ _ _ listed => offsetSiblings_keepsLinks listed

theorem reindexIntervalsEarlierThanRoot_keepsLinks (listed : ChildrenStored store) {rc : ReindexContext}
    {allocationNode reindexRoot commonAncestor : DomainHash} {requiredAllocation : UInt64} :
    KeepsLinks store (reindexIntervalsEarlierThanRoot store fuel reindexSlack rc allocationNode reindexRoot
      commonAncestor requiredAllocation) := by
  intro r ran
  obtain ⟨chosenChild, -, rest⟩ := bind_eq_pure ran
  obtain ⟨nodeInterval, -, rest⟩ := bind_eq_pure rest
  obtain ⟨chosenInterval, -, reclaimed⟩ := bind_eq_pure rest
  split_ifs at reclaimed
  · exact reclaimInterval_keepsLinks beforeSide_moves listed r reclaimed
  · exact reclaimInterval_keepsLinks afterSide_moves listed r reclaimed

theorem reindexIntervals_keepsLinks (listed : ChildrenStored store) {rc : ReindexContext}
    {newChild reindexRoot : DomainHash} :
    KeepsLinks store (reindexIntervals store fuel reindexSlack rc newChild reindexRoot) := by
  intro r ran
  obtain ⟨stop, -, rest⟩ := bind_eq_pure ran
  obtain ⟨how, rc'⟩ := stop
  cases how with
  | sufficient current => exact propagateInterval_links listed rest
  | earlierThanRoot current parent currentSubtreeSize =>
    exact reindexIntervalsEarlierThanRoot_keepsLinks listed r rest

end ReachabilityManager
