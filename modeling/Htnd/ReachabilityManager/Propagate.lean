import Mathlib
import Htnd.ReachabilityManager.Interval
import Htnd.ReachabilityManager.OrderedTreeNodeSet
import Htnd.ReachabilityManager.Stage

/-!
Propagating an interval down a subtree (reindex_context.go). propagateInterval counts the subtrees
below a block, then walks the subtree breadth first: the interval of each block but its last place
is split among the block's children, by their subtree sizes with an exponential bias, and each
child is staged with its part and queued. The loop is a `for` loop without a bound, run here for at
most `fuel` turns.

Whatever intervals the blocks below the block carried, the subtree then passes the checks of
`validateIntervals`, as long as the block's own interval holds its subtree: every queued block has
room for its subtree, and the split hands that room on to its children.
-/
namespace ReachabilityManager
open GoSemantics Utxo

/-- The errors of a reindex: a failed read of the store, a failed split of an interval, the errors
    reindexing raises itself, and the panic of a read through a nil block hash. -/
inductive ReindexError where
  | reachability (err : ReachabilityError)
  | split (message : String)
  | nextAncestor (err : NextAncestorError)
  /-- "pivot not a pivot of node" -/
  | notAPivot
  /-- "missing tree parent during reindexing. Theoretically, this should only ever happen if
      there are more than 2^64 blocks in the DAG." -/
  | missingTreeParent
  /-- "unexpected behavior: reindex root %s is out of capacityduring reindexing. Theoretically,
      this should only ever happen if there are more than ~2^52 blocks in the DAG.", with the
      reindex root's hash for %s -/
  | reindexRootOutOfCapacity (reindexRoot : DomainHash)
  | panicked (p : Panic)
  deriving DecidableEq, Repr

variable (store : ReachabilityDataStore)

def intervalRangeForChildAllocation (node : DomainHash) : Except ReachabilityError ReachabilityInterval := do
  let interval ← interval store node
  -- the last place stays the block's own, so that its interval strictly contains its children's
  pure ⟨interval.start, interval.end - 1⟩

def stageIntervals (assignments : List (DomainHash × ReachabilityInterval)) : ReachabilityDataStore :=
  assignments.foldl (fun store assignment => stageInterval store assignment.1 assignment.2) store

structure PropagateLoop where
  queue : List DomainHash
  store : ReachabilityDataStore

def propagateIntervalStep (rc : ReindexContext) (s : PropagateLoop) :
    Option (Except ReindexError (PropagateLoop ⊕ ReachabilityDataStore)) :=
  match s.queue with
  | [] => some (.ok (.inr s.store))
  | current :: queue =>
    match children s.store current with
    | .error err => some (.error (.reachability err))
    | .ok children =>
      if children.length > 0 then
        let sizes := children.map fun child => (rc.subTreeSizesCache child).getD 0
        match intervalRangeForChildAllocation s.store current with
        | .error err => some (.error (.reachability err))
        | .ok interval =>
          match intervalSplitWithExponentialBias interval sizes with
          | .error message => some (.error (.split message))
          | .ok intervals =>
            some (.ok (.inl ⟨queue ++ children, stageIntervals s.store (children.zip intervals)⟩))
      else some (.ok (.inl ⟨queue, s.store⟩))

def propagateInterval (fuel : Nat) (rc : ReindexContext) (node : DomainHash) :
    Option (Except ReindexError (ReindexContext × ReachabilityDataStore)) :=
  match countSubtrees store fuel rc node with
  | none => none
  | some (.error (err, _)) => some (.error (.reachability err))
  | some (.ok rc) =>
    match loop (propagateIntervalStep rc) fuel ⟨[node], store⟩ with
    | none => none
    | some (.error err) => some (.error err)
    | some (.ok store) => some (.ok (rc, store))

variable {store}

/-! ### Staging the children -/

theorem stageIntervals_cons (a : DomainHash × ReachabilityInterval)
    (rest : List (DomainHash × ReachabilityInterval)) :
    stageIntervals store (a :: rest) = stageIntervals (stageInterval store a.1 a.2) rest := rfl

theorem links_stageIntervals {assignments : List (DomainHash × ReachabilityInterval)}
    (stored : ∀ a ∈ assignments, a.1 ∈ store) : links (stageIntervals store assignments) = links store := by
  induction assignments generalizing store with
  | nil => rfl
  | cons a rest ih =>
    have first := links_stageInterval (stored a List.mem_cons_self) a.2
    rw [stageIntervals_cons, ih fun a' mem => (mem_of_links first).2 (stored a' (List.mem_cons_of_mem a mem)),
      first]

theorem lookup_stageIntervals_of_not_mem {assignments : List (DomainHash × ReachabilityInterval)}
    {y : DomainHash} (untouched : ∀ a ∈ assignments, a.1 ≠ y) :
    (stageIntervals store assignments).lookup y = store.lookup y := by
  induction assignments generalizing store with
  | nil => rfl
  | cons a rest ih =>
    rw [stageIntervals_cons, ih fun a' mem => untouched a' (List.mem_cons_of_mem a mem),
      lookup_stageInterval_of_ne (untouched a List.mem_cons_self).symm]

theorem stageIntervals_assigned {cs : List DomainHash} {parts : List ReachabilityInterval}
    (nodup : cs.Nodup) (stored : ∀ c ∈ cs, c ∈ store) (length : cs.length = parts.length) :
    List.Forall₂ (fun c part => ∃ data, (stageIntervals store (cs.zip parts)).lookup c = some data ∧
      data.interval = part) cs parts := by
  induction cs generalizing parts store with
  | nil =>
    obtain rfl := List.length_eq_zero_iff.1 length.symm
    exact List.Forall₂.nil
  | cons c cs ih =>
    obtain ⟨part, parts, rfl⟩ := List.exists_cons_of_length_eq_add_one length.symm
    obtain ⟨fresh, nodup⟩ := List.nodup_cons.1 nodup
    obtain ⟨data, found⟩ := lookup_of_mem (stored c List.mem_cons_self)
    have later : ∀ a ∈ cs.zip parts, a.1 ≠ c := fun a mem same =>
      fresh (same ▸ (List.of_mem_zip (show (a.1, a.2) ∈ cs.zip parts from mem)).1)
    refine List.Forall₂.cons ⟨{ data with interval := part }, ?_, rfl⟩ (ih nodup (fun c' mem => ?_) ?_)
    · rw [List.zip_cons_cons, stageIntervals_cons, lookup_stageIntervals_of_not_mem later,
        lookup_stageInterval_self found]
    · exact (AList.mem_insert _).2 (Or.inr (stored c' (List.mem_cons_of_mem c mem)))
    · simpa using length

/-! ### The turns of the loop -/

theorem propagateIntervalStep_leaf {rc : ReindexContext} {current : DomainHash} {queue : List DomainHash}
    {staged : ReachabilityDataStore} (stored : current ∈ staged) (leaf : childrenOf staged current = []) :
    propagateIntervalStep rc ⟨current :: queue, staged⟩ = some (.ok (.inl ⟨queue, staged⟩)) := by
  simp [propagateIntervalStep, children_eq_childrenOf stored, leaf]

theorem propagateIntervalStep_split {rc : ReindexContext} {current : DomainHash} {queue : List DomainHash}
    {staged : ReachabilityDataStore} {data : ReachabilityData} (found : staged.lookup current = some data)
    (hasChildren : childrenOf staged current ≠ []) {intervals : List ReachabilityInterval}
    (split : intervalSplitWithExponentialBias ⟨data.interval.start, data.interval.end - 1⟩
      ((childrenOf staged current).map fun child => (rc.subTreeSizesCache child).getD 0) = .ok intervals) :
    propagateIntervalStep rc ⟨current :: queue, staged⟩ =
      some (.ok (.inl ⟨queue ++ childrenOf staged current,
        stageIntervals staged ((childrenOf staged current).zip intervals)⟩)) := by
  have stored : current ∈ staged := AList.lookup_isSome.1 (by rw [found]; rfl)
  have positive : (childrenOf staged current).length > 0 := List.length_pos_of_ne_nil hasChildren
  simp only [propagateIntervalStep, children_eq_childrenOf stored, if_pos positive,
    intervalRangeForChildAllocation, interval, reachabilityData, found, bind, Except.bind, pure,
    Except.pure, split]

theorem propagateIntervalStep_eq_ok {rc : ReindexContext} {s : PropagateLoop}
    {r : PropagateLoop ⊕ ReachabilityDataStore} (turn : propagateIntervalStep rc s = some (.ok r)) :
    (s.queue = [] ∧ r = .inr s.store) ∨
      ∃ current queue, s.queue = current :: queue ∧ current ∈ s.store ∧
        (r = .inl ⟨queue, s.store⟩ ∨ ∃ intervals : List ReachabilityInterval,
          r = .inl ⟨queue ++ childrenOf s.store current,
            stageIntervals s.store ((childrenOf s.store current).zip intervals)⟩) := by
  obtain ⟨queue, staged⟩ := s
  cases queue with
  | nil =>
    simp only [propagateIntervalStep, Option.some.injEq, Except.ok.injEq] at turn
    exact Or.inl ⟨rfl, turn.symm⟩
  | cons current queue =>
    cases found : staged.lookup current with
    | none => simp [propagateIntervalStep, children, reachabilityData, found, bind, Except.bind] at turn
    | some data =>
      have stored : current ∈ staged := AList.lookup_isSome.1 (by rw [found]; rfl)
      refine Or.inr ⟨current, queue, rfl, stored, ?_⟩
      simp only [propagateIntervalStep, children_eq_childrenOf stored] at turn
      split_ifs at turn
      · split at turn
        · cases turn
        · split at turn
          · cases turn
          · cases turn
            exact Or.inr ⟨_, rfl⟩
      · cases turn
        exact Or.inl rfl

theorem natSum_map_ofNat {l : List DomainHash} {f : DomainHash → Nat} (small : ∀ c ∈ l, f c < 2 ^ 64) :
    natSum (l.map fun c => UInt64.ofNat (f c)) = (l.map f).sum := by
  simp only [natSum, List.map_map]
  congr 1
  exact List.map_congr_left fun c mem => by
    simp only [Function.comp_apply]
    exact UInt64.toNat_ofNat_of_lt' (by unfold UInt64.size; exact small c mem)

/-! ### What the loop keeps -/

variable (store) (node : DomainHash)

structure PropagateInv (queue : List DomainHash) (staged : ReachabilityDataStore) : Prop where
  links : links staged = links store
  queue_nodup : queue.Nodup
  queued_below : ∀ q ∈ queue, Relation.ReflTransGen (TreeParent store) node q
  unrelated : ∀ q ∈ queue, ∀ q' ∈ queue, Relation.ReflTransGen (TreeParent store) q q' → q = q'
  roomy : ∀ q ∈ queue, startOf staged q ≤ endOf staged q ∧
    subtreeSize store q ≤ endOf staged q - startOf staged q + 1
  frame : ∀ y, ¬ Relation.TransGen (TreeParent store) node y → staged.lookup y = store.lookup y
  valid : ∀ y, Relation.ReflTransGen (TreeParent store) node y →
    (∀ q ∈ queue, ¬ Relation.ReflTransGen (TreeParent store) q y) → validateIntervalsAt staged y = .ok ()

structure Allocated (staged staged' : ReachabilityDataStore) (current : DomainHash)
    (parts : List ReachabilityInterval) : Prop where
  links : links staged' = links staged
  others : ∀ y ∉ childrenOf store current, staged'.lookup y = staged.lookup y
  assigned : List.Forall₂ (fun c part => ∃ data, staged'.lookup c = some data ∧ data.interval = part)
    (childrenOf store current) parts
  consecutive : parts.IsChain fun part next => next.start = part.end + 1
  inside : ∀ part ∈ parts, startOf staged current ≤ part.start.toNat ∧ part.end.toNat < endOf staged current
  roomy : List.Forall₂ (fun c part => part.start ≤ part.end ∧
    subtreeSize store c ≤ part.end.toNat - part.start.toNat + 1) (childrenOf store current) parts

variable {store node}

theorem startOf_congr {store' : ReachabilityDataStore} {x : DomainHash} (same : store'.lookup x = store.lookup x) :
    startOf store' x = startOf store x := by
  simp only [startOf, same]

theorem endOf_congr {store' : ReachabilityDataStore} {x : DomainHash} (same : store'.lookup x = store.lookup x) :
    endOf store' x = endOf store x := by
  simp only [endOf, same]

theorem propagateInv_start (ordered : startOf store node ≤ endOf store node)
    (roomy : subtreeSize store node ≤ endOf store node - startOf store node + 1) :
    PropagateInv store node [node] store where
  links := rfl
  queue_nodup := List.nodup_singleton node
  queued_below _ queued := List.mem_singleton.1 queued ▸ Relation.ReflTransGen.refl
  unrelated _ queued _ queued' _ := (List.mem_singleton.1 queued).trans (List.mem_singleton.1 queued').symm
  roomy _ queued := List.mem_singleton.1 queued ▸ ⟨ordered, roomy⟩
  frame _ _ := rfl
  valid _ below outside := absurd below (outside node (List.mem_singleton_self node))

section Turn

variable {root : DomainHash} (tree : TreeLinks store root) {current : DomainHash}
  {queue : List DomainHash} {staged : ReachabilityDataStore}
include tree

theorem PropagateInv.children_not_queued (inv : PropagateInv store node (current :: queue) staged)
    {c : DomainHash} (child : c ∈ childrenOf store current) : c ∉ queue := fun queued => by
  have step := (tree.linked current c).2 child
  have same := inv.unrelated current List.mem_cons_self c (List.mem_cons_of_mem current queued)
    (Relation.ReflTransGen.single step)
  exact tree.acyclic current (Relation.TransGen.single (same ▸ step))

theorem PropagateInv.unrelated_after (inv : PropagateInv store node (current :: queue) staged) :
    ∀ q ∈ queue ++ childrenOf store current, ∀ q' ∈ queue ++ childrenOf store current,
      Relation.ReflTransGen (TreeParent store) q q' → q = q' := by
  have currentFresh := (List.nodup_cons.1 inv.queue_nodup).1
  have step : ∀ c ∈ childrenOf store current, TreeParent store current c := fun c => (tree.linked current c).2
  intro q queued q' queued' below
  rcases List.mem_append.1 queued with old | child <;> rcases List.mem_append.1 queued' with old' | child'
  · exact inv.unrelated q (List.mem_cons_of_mem current old) q' (List.mem_cons_of_mem current old') below
  · have other : q ≠ q' := fun same => inv.children_not_queued tree child' (same ▸ old)
    have same := inv.unrelated q (List.mem_cons_of_mem current old) current List.mem_cons_self
      (tree.forest.below_parent below (step q' child') other)
    exact absurd (same ▸ old) currentFresh
  · have same := inv.unrelated current List.mem_cons_self q' (List.mem_cons_of_mem current old')
      (Relation.ReflTransGen.head (step q child) below)
    exact absurd (same ▸ old') currentFresh
  · by_contra other
    exact tree.forest.not_below_child (step q child) (tree.forest.below_parent below (step q' child') other)

theorem PropagateInv.roomy_after (inv : PropagateInv store node (current :: queue) staged)
    {staged' : ReachabilityDataStore} {parts : List ReachabilityInterval}
    (alloc : Allocated store staged staged' current parts) :
    ∀ q ∈ queue ++ childrenOf store current, startOf staged' q ≤ endOf staged' q ∧
      subtreeSize store q ≤ endOf staged' q - startOf staged' q + 1 := by
  intro q queued
  rcases List.mem_append.1 queued with old | child
  · have untouched : q ∉ childrenOf store current := fun child => inv.children_not_queued tree child old
    rw [startOf_congr (alloc.others q untouched), endOf_congr (alloc.others q untouched)]
    exact inv.roomy q (List.mem_cons_of_mem current old)
  · obtain ⟨part, -, ⟨data, found, isPart⟩, ordered, holds⟩ :=
      exists_of_forall₂ (alloc.assigned.mp (fun _ _ => And.intro) alloc.roomy) q child
    rw [startOf_eq found, endOf_eq found, isPart]
    exact ⟨UInt64.le_iff_toNat_le.1 ordered, holds⟩

theorem PropagateInv.current_valid (inv : PropagateInv store node (current :: queue) staged)
    (currentStored : current ∈ store) {staged' : ReachabilityDataStore} {parts : List ReachabilityInterval}
    (alloc : Allocated store staged staged' current parts) : validateIntervalsAt staged' current = .ok () := by
  obtain ⟨data, found⟩ := lookup_of_mem ((mem_of_links inv.links).2 currentStored)
  have ordered := (inv.roomy current List.mem_cons_self).1
  rw [startOf_eq found, endOf_eq found] at ordered
  have sameChildren : data.children = childrenOf store current := by
    rw [← childrenOf_eq found, childrenOf_of_links inv.links]
  refine validateIntervalsAt_eq_ok (by rw [alloc.others current (tree.not_mem_childrenOf_self current), found])
    (UInt64.le_iff_toNat_le.2 ordered) ?_
  rw [sameChildren]
  refine validateChildIntervals_eq_ok alloc.assigned alloc.consecutive (fun part mem => ?_) none
    (fun _ _ none => absurd none (by simp))
  obtain ⟨left, right⟩ := alloc.inside part mem
  rw [startOf_eq found] at left
  rw [endOf_eq found] at right
  exact ⟨UInt64.le_iff_toNat_le.2 left, UInt64.lt_iff_toNat_lt.2 right⟩

theorem PropagateInv.valid_after (inv : PropagateInv store node (current :: queue) staged)
    {staged' : ReachabilityDataStore} {parts : List ReachabilityInterval}
    (alloc : Allocated store staged staged' current parts) {y : DomainHash}
    (below : Relation.ReflTransGen (TreeParent store) node y)
    (notBelowCurrent : ¬ Relation.ReflTransGen (TreeParent store) current y)
    (notQueued : ∀ q ∈ queue, ¬ Relation.ReflTransGen (TreeParent store) q y) :
    validateIntervalsAt staged' y = .ok () := by
  have step : ∀ c ∈ childrenOf store current, TreeParent store current c := fun c => (tree.linked current c).2
  have untouched : y ∉ childrenOf store current := fun child =>
    notBelowCurrent (Relation.ReflTransGen.single (step y child))
  have before := inv.valid y below fun q queued => by
    rcases List.mem_cons.1 queued with rfl | old
    · exact notBelowCurrent
    · exact notQueued q old
  rw [validateIntervalsAt_congr (alloc.others y untouched) fun c child => interval_congr (alloc.others c fun child' => by
    have same := TreeParent.unique ((tree.linked y c).2 (childrenOf_of_links inv.links ▸ child)) (step c child')
    exact notBelowCurrent (same ▸ Relation.ReflTransGen.refl))]
  exact before

variable (nodeStored : node ∈ store)
include nodeStored

theorem PropagateInv.process (inv : PropagateInv store node (current :: queue) staged)
    {staged' : ReachabilityDataStore} {parts : List ReachabilityInterval}
    (alloc : Allocated store staged staged' current parts) :
    PropagateInv store node (queue ++ childrenOf store current) staged' := by
  have currentBelow := inv.queued_below current List.mem_cons_self
  have step : ∀ c ∈ childrenOf store current, TreeParent store current c := fun c => (tree.linked current c).2
  refine ⟨alloc.links.trans inv.links, ?_, fun q queued => ?_, inv.unrelated_after tree,
    inv.roomy_after tree alloc, fun y outside => ?_, fun y below notQueued => ?_⟩
  · exact List.nodup_append.2 ⟨(List.nodup_cons.1 inv.queue_nodup).2, tree.children_nodup current,
      fun q queued c child same => inv.children_not_queued tree child (same ▸ queued)⟩
  · rcases List.mem_append.1 queued with old | child
    · exact inv.queued_below q (List.mem_cons_of_mem current old)
    · exact currentBelow.tail (step q child)
  · have untouched : y ∉ childrenOf store current := fun child =>
      outside (Relation.TransGen.tail' currentBelow (step y child))
    rw [alloc.others y untouched]
    exact inv.frame y outside
  · by_cases isCurrent : y = current
    · exact isCurrent ▸ inv.current_valid tree (stored_of_below nodeStored currentBelow) alloc
    · refine inv.valid_after tree alloc below (fun path => ?_) fun q old => notQueued q (List.mem_append_left _ old)
      obtain ⟨c, child, rest⟩ := tree.exists_child_of_below path isCurrent
      exact notQueued c (List.mem_append_right queue child) rest

theorem PropagateInv.allocate {rc : ReindexContext} (inv : PropagateInv store node (current :: queue) staged)
    (counted : ∀ y, Relation.ReflTransGen (TreeParent store) node y →
      rc.subTreeSizesCache y = some (UInt64.ofNat (subtreeSize store y))) :
    ∃ staged' parts, propagateIntervalStep rc ⟨current :: queue, staged⟩ =
        some (.ok (.inl ⟨queue ++ childrenOf store current, staged'⟩)) ∧
      Allocated store staged staged' current parts := by
  have currentBelow := inv.queued_below current List.mem_cons_self
  have currentStored := stored_of_below nodeStored currentBelow
  have stagedStored := (mem_of_links inv.links).2 currentStored
  have sameChildren := childrenOf_of_links inv.links
  have step : ∀ c ∈ childrenOf store current, TreeParent store current c := fun c => (tree.linked current c).2
  by_cases leaf : childrenOf store current = []
  · refine ⟨staged, [], ?_, ⟨rfl, fun _ _ => rfl, leaf ▸ List.Forall₂.nil, List.IsChain.nil, by simp,
      leaf ▸ List.Forall₂.nil⟩⟩
    rw [propagateIntervalStep_leaf stagedStored (by rw [sameChildren, leaf]), leaf, List.append_nil]
  obtain ⟨data, found⟩ := lookup_of_mem stagedStored
  obtain ⟨ordered, roomy⟩ := inv.roomy current List.mem_cons_self
  rw [startOf_eq found, endOf_eq found] at ordered roomy
  rw [tree.subtreeSize_eq currentStored] at roomy
  have endLt := UInt64.toNat_lt data.interval.end
  have childSize : ∀ c ∈ childrenOf store current, 1 ≤ subtreeSize store c ∧ subtreeSize store c < 2 ^ 64 :=
    fun c child => ⟨subtreeSize_pos (step c child).stored, by
      have := List.le_sum_of_mem (List.mem_map_of_mem (f := subtreeSize store) child)
      omega⟩
  have sizes : (childrenOf store current).map (fun child => (rc.subTreeSizesCache child).getD 0) =
      (childrenOf store current).map fun c => UInt64.ofNat (subtreeSize store c) :=
    List.map_congr_left fun c child => by rw [counted c (currentBelow.tail (step c child)), Option.getD_some]
  have sumPos : 1 ≤ ((childrenOf store current).map (subtreeSize store)).sum := by
    obtain ⟨c, rest, split⟩ := List.exists_cons_of_ne_nil leaf
    have first := (childSize c (split ▸ List.mem_cons_self)).1
    rw [split, List.map_cons, List.sum_cons]
    omega
  have endPos : 1 ≤ data.interval.end := UInt64.le_iff_toNat_le.2 (by simp; omega)
  have allocEnd : (data.interval.end - 1).toNat = data.interval.end.toNat - 1 := by
    rw [UInt64.toNat_sub_of_le _ _ endPos, UInt64.toNat_one]
  have allocOrdered : data.interval.start ≤ data.interval.end - 1 :=
    UInt64.le_iff_toNat_le.2 (by rw [allocEnd]; omega)
  have allocSize : (intervalSize ⟨data.interval.start, data.interval.end - 1⟩).toNat =
      data.interval.end.toNat - data.interval.start.toNat := by
    rw [toNat_intervalSize allocOrdered]
    dsimp only
    rw [allocEnd, Nat.mod_eq_of_lt (by omega)]
    omega
  have positive : ∀ size ∈ (childrenOf store current).map (fun c => UInt64.ofNat (subtreeSize store c)),
      1 ≤ size := by
    intro size mem
    obtain ⟨c, child, rfl⟩ := List.mem_map.1 mem
    obtain ⟨atLeast, small⟩ := childSize c child
    exact UInt64.le_iff_toNat_le.2 (by rw [UInt64.toNat_ofNat_of_lt' (by unfold UInt64.size; exact small)]; simpa)
  obtain ⟨intervals, split, splits, inside⟩ := intervalSplitWithExponentialBias_inside allocOrdered positive
    (by simpa using leaf) (by rw [natSum_map_ofNat fun c child => (childSize c child).2, allocSize]; omega)
  have length : (childrenOf store current).length = intervals.length := by
    simpa using splits.sized.length_eq
  refine ⟨stageIntervals staged ((childrenOf store current).zip intervals), intervals, ?_, ?_⟩
  · rw [propagateIntervalStep_split found (by rwa [sameChildren]) (by rw [sameChildren, sizes]; exact split),
      sameChildren]
  have childStored : ∀ a ∈ (childrenOf store current).zip intervals, a.1 ∈ staged := fun a mem =>
    (mem_of_links inv.links).2 (step a.1 (List.of_mem_zip (show (a.1, a.2) ∈ _ from mem)).1).stored
  have sized := List.forall₂_map_left_iff.1 splits.sized
  have nonempty := List.forall₂_map_left_iff.1 splits.nonempty
  refine ⟨links_stageIntervals childStored, fun y notChild => lookup_stageIntervals_of_not_mem
      fun a mem same => notChild (same ▸ (List.of_mem_zip (show (a.1, a.2) ∈ _ from mem)).1),
    stageIntervals_assigned (tree.children_nodup current)
      (fun c child => (mem_of_links inv.links).2 (step c child).stored) length,
    splits.consecutive, fun part mem => ?_, (forall₂_mem_left sized).mp (fun c part ⟨child, le⟩ holds => ?_) nonempty⟩
  · obtain ⟨left, right⟩ := inside part mem
    rw [startOf_eq found, endOf_eq found]
    have right' := UInt64.le_iff_toNat_le.1 right
    rw [allocEnd] at right'
    exact ⟨UInt64.le_iff_toNat_le.1 left, by omega⟩
  · obtain ⟨atLeast, small⟩ := childSize c child
    have partOrdered := holds (positive _ (List.mem_map_of_mem child))
    have fits := toNat_le_of_le_intervalSize partOrdered le
    rw [UInt64.toNat_ofNat_of_lt' (by unfold UInt64.size; exact small)] at fits
    exact ⟨partOrdered, fits⟩

end Turn

section Loop

variable {root : DomainHash} (tree : TreeLinks store root) (nodeStored : node ∈ store) {rc : ReindexContext}
  (counted : ∀ y, Relation.ReflTransGen (TreeParent store) node y →
    rc.subTreeSizesCache y = some (UInt64.ofNat (subtreeSize store y)))
include tree nodeStored counted

theorem loop_propagateIntervalStep :
    ∀ n (s : PropagateLoop), (PropagateInv store node s.queue s.store ∧
        (s.queue.map (subtreeSize store)).sum < n) →
      ∃ staged, loop (propagateIntervalStep rc) n s = some (.ok staged) ∧ PropagateInv store node [] staged := by
  refine loop_eq_ok_of_bound _ _ (fun _ ⟨_, exhausted⟩ => Nat.not_lt_zero _ exhausted) ?_
  rintro n ⟨queue, staged⟩ ⟨inv, measure⟩
  cases queue with
  | nil => exact Or.inl ⟨staged, rfl, inv⟩
  | cons current queue =>
    obtain ⟨staged', parts, turn, alloc⟩ := inv.allocate tree nodeStored counted
    refine Or.inr ⟨_, turn, inv.process tree nodeStored alloc, ?_⟩
    have split := tree.subtreeSize_eq (stored_of_below nodeStored (inv.queued_below current List.mem_cons_self))
    simp only [List.map_cons, List.sum_cons, List.map_append, List.sum_append] at measure ⊢
    omega

end Loop


theorem PropagateInv.wellFormed {root : DomainHash} (tree : TreeLinks store root) {staged : ReachabilityDataStore}
    (inv : PropagateInv store node [] staged)
    (outside : ∀ x ∈ store, ¬ Relation.ReflTransGen (TreeParent store) node x →
      validateIntervalsAt store x = .ok ()) : WellFormed staged root := by
  refine (tree.of_links inv.links).wellFormed fun x stored => ?_
  by_cases below : Relation.ReflTransGen (TreeParent store) node x
  · exact inv.valid x below fun _ queued => absurd queued List.not_mem_nil
  · have notBelow : ¬ Relation.TransGen (TreeParent store) node x := fun path => below path.to_reflTransGen
    rw [validateIntervalsAt_congr (inv.frame x notBelow) fun c child => interval_congr (inv.frame c fun path => ?_)]
    · exact outside x ((mem_of_links inv.links).1 stored) below
    · obtain ⟨p, pBelow, step⟩ := Relation.TransGen.tail'_iff.1 path
      exact below (TreeParent.unique step ((tree.linked x c).2 child) ▸ pBelow)

/-! ### propagateInterval -/

theorem propagateInterval_eq_ok {root : DomainHash} (tree : TreeLinks store root) (nodeStored : node ∈ store)
    (ordered : startOf store node ≤ endOf store node)
    (roomy : subtreeSize store node ≤ endOf store node - startOf store node + 1) {rc : ReindexContext}
    (counted : ∀ y, Relation.ReflTransGen (TreeParent store) node y →
      rc.subTreeSizesCache y = some (UInt64.ofNat (subtreeSize store y)))
    {fuel : Nat} (enough : subtreeSize store node < fuel) :
    ∃ staged, propagateInterval store fuel rc node = some (.ok (rc, staged)) ∧ PropagateInv store node [] staged := by
  have cached : (rc.subTreeSizesCache node).isSome := by
    rw [counted node Relation.ReflTransGen.refl]
    rfl
  obtain ⟨staged, ran, inv⟩ := loop_propagateIntervalStep tree nodeStored counted fuel ⟨[node], store⟩
    ⟨propagateInv_start ordered roomy, by simpa using enough⟩
  exact ⟨staged, by simp [propagateInterval, countSubtrees, cached, ran], inv⟩

/-- **propagateInterval restores the tree.** Where the blocks outside `node`'s subtree pass their
    checks and `node`'s interval holds its subtree, propagateInterval leaves a well-formed tree. -/
theorem propagateInterval_restores_tree {root : DomainHash} (tree : TreeLinks store root)
    (nodeStored : node ∈ store)
    (outside : ∀ x ∈ store, ¬ Relation.ReflTransGen (TreeParent store) node x →
      validateIntervalsAt store x = .ok ())
    (ordered : startOf store node ≤ endOf store node)
    (roomy : subtreeSize store node ≤ endOf store node - startOf store node + 1) {rc : ReindexContext}
    (counted : ∀ y, Relation.ReflTransGen (TreeParent store) node y →
      rc.subTreeSizesCache y = some (UInt64.ofNat (subtreeSize store y)))
    {fuel : Nat} (enough : subtreeSize store node < fuel) :
    ∃ staged, propagateInterval store fuel rc node = some (.ok (rc, staged)) ∧ WellFormed staged root ∧
      links staged = links store ∧
      ∀ y, ¬ Relation.TransGen (TreeParent store) node y → staged.lookup y = store.lookup y := by
  obtain ⟨staged, ran, inv⟩ := propagateInterval_eq_ok tree nodeStored ordered roomy counted enough
  exact ⟨staged, ran, inv.wellFormed tree outside, inv.links, inv.frame⟩

set_option maxRecDepth 2000 in
/-- A root with two leaves, the left one's interval made empty, is not well formed; propagateInterval
    from the root makes it so. -/
theorem propagateInterval_repairs_emptied_leaf :
    let root : DomainHash := ⟨0⟩
    let left : DomainHash := ⟨1⟩
    let right : DomainHash := ⟨2⟩
    let wellFormed : ReachabilityDataStore :=
      (((∅ : ReachabilityDataStore).insert right ⟨[], some root, ⟨101, 200⟩⟩).insert left
        ⟨[], some root, ⟨1, 100⟩⟩).insert root ⟨[left, right], none, ⟨1, 2 ^ 64 - 2⟩⟩
    let store := stageInterval wellFormed left ⟨7, 3⟩
    let rc : ReindexContext := ⟨fun y => if y = root then some 3 else some 1⟩
    ¬ WellFormed store root ∧ ∃ staged, propagateInterval store 4 rc root = some (.ok (rc, staged)) ∧
      WellFormed staged root := by
  intro root left right wellFormed store rc
  have wf : WellFormed wellFormed root := ⟨by decide, by decide, by decide, by decide, by decide⟩
  have same : links store = links wellFormed := links_stageInterval (by decide) _
  have leftSize : subtreeSize wellFormed left = 1 := by
    rw [wf.subtreeSize_eq (by decide), show childrenOf wellFormed left = [] by decide]
    rfl
  have rightSize : subtreeSize wellFormed right = 1 := by
    rw [wf.subtreeSize_eq (by decide), show childrenOf wellFormed right = [] by decide]
    rfl
  have rootSize : subtreeSize wellFormed root = 3 := by
    rw [wf.subtreeSize_eq (by decide), show childrenOf wellFormed root = [left, right] by decide]
    simp [leftSize, rightSize]
  have sizes : subtreeSize store = subtreeSize wellFormed := subtreeSize_of_links same
  have rooted : ∀ x ∈ store, Relation.ReflTransGen (TreeParent store) root x := fun x stored => by
    rw [treeParent_of_links same]
    exact wf.laminar.root_ancestor ((mem_of_links same).1 stored)
  refine ⟨fun broken => absurd (broken.intervals _ (mem_entries_of_lookup (show store.lookup left = some
    ⟨[], some root, ⟨7, 3⟩⟩ by decide))) (by decide), ?_⟩
  have counted : ∀ y, Relation.ReflTransGen (TreeParent store) root y →
      rc.subTreeSizesCache y = some (UInt64.ofNat (subtreeSize store y)) := by
    intro y below
    have stored : y ∈ wellFormed := (mem_of_links same).1 (stored_of_below (show root ∈ store by decide) below)
    simp only [wellFormed, AList.mem_insert, AList.notMem_empty, or_false] at stored
    rcases stored with rfl | rfl | rfl
    · rw [sizes, rootSize]
      rfl
    · rw [sizes, leftSize]
      rfl
    · rw [sizes, rightSize]
      rfl
  obtain ⟨staged, ran, restored, -⟩ := propagateInterval_restores_tree (wf.treeLinks.of_links same)
    (show root ∈ store by decide)
    (fun x stored notBelow => absurd (rooted x stored) notBelow)
    (show startOf store root ≤ endOf store root by decide)
    (show subtreeSize store root ≤ endOf store root - startOf store root + 1 by rw [sizes, rootSize]; decide)
    counted
    (show subtreeSize store root < 4 by rw [sizes, rootSize]; decide)
  exact ⟨staged, ran, restored⟩

theorem TreeLinks.exists_wellFormed {root : DomainHash} (tree : TreeLinks store root)
    (few : subtreeSize store root ≤ 2 ^ 64) : ∃ twin, links twin = links store ∧ WellFormed twin root := by
  let stretched := stageInterval store root ⟨0, 18446744073709551615⟩
  have same : links stretched = links store := links_stageInterval tree.root_stored _
  obtain ⟨data, found⟩ := lookup_of_mem tree.root_stored
  have rootData := lookup_stageInterval_self found ⟨0, 18446744073709551615⟩
  have stretchedTree := tree.of_links same
  have sizes := subtreeSize_of_links same
  let rc : ReindexContext := ⟨fun y => some (UInt64.ofNat (subtreeSize store y))⟩
  have counted : ∀ y, Relation.ReflTransGen (TreeParent stretched) root y →
      rc.subTreeSizesCache y = some (UInt64.ofNat (subtreeSize stretched y)) := fun y _ => by
    rw [sizes]
  have ordered : startOf stretched root ≤ endOf stretched root := by
    rw [startOf_eq rootData, endOf_eq rootData]
    simp
  have roomy : subtreeSize stretched root ≤ endOf stretched root - startOf stretched root + 1 := by
    rw [startOf_eq rootData, endOf_eq rootData, sizes]
    simpa using few
  obtain ⟨twin, -, inv⟩ := loop_propagateIntervalStep stretchedTree stretchedTree.root_stored counted
    (subtreeSize store root + 1) ⟨[root], stretched⟩ ⟨propagateInv_start ordered roomy, by simp [sizes]⟩
  exact ⟨twin, inv.links.trans same, inv.wellFormed stretchedTree
    fun x stored notBelow => absurd (stretchedTree.below_root stored) notBelow⟩

/-! ### What propagateInterval never changes -/

variable (store) in
def ChildrenStored : Prop := ∀ p c, c ∈ childrenOf store p → c ∈ store

theorem ChildrenStored.of_links (listed : ChildrenStored store) {store' : ReachabilityDataStore}
    (same : links store' = links store) : ChildrenStored store' := by
  intro p c child
  rw [childrenOf_of_links same] at child
  exact (mem_of_links same).2 (listed p c child)

theorem childrenStored_of_entries (listed : ∀ e ∈ store.entries, ∀ c ∈ e.2.children, c ∈ store) :
    ChildrenStored store := by
  intro p c child
  cases found : store.lookup p with
  | none => simp [childrenOf, found] at child
  | some data =>
    rw [childrenOf_eq found] at child
    exact listed ⟨p, data⟩ (mem_entries_of_lookup found) c child

theorem propagateIntervalStep_links {rc : ReindexContext} {s : PropagateLoop}
    {r : PropagateLoop ⊕ ReachabilityDataStore} (listed : ChildrenStored s.store)
    (turn : propagateIntervalStep rc s = some (.ok r)) :
    links (r.elim PropagateLoop.store id) = links s.store := by
  rcases propagateIntervalStep_eq_ok turn with ⟨-, rfl⟩ | ⟨current, queue, -, -, rfl | ⟨intervals, rfl⟩⟩
  · rfl
  · rfl
  · exact links_stageIntervals fun a mem => listed current a.1 (List.of_mem_zip mem).1

theorem propagateInterval_links (listed : ChildrenStored store) {fuel : Nat} {rc : ReindexContext}
    {node : DomainHash} {r : ReindexContext × ReachabilityDataStore}
    (ran : propagateInterval store fuel rc node = some (.ok r)) : links r.2 = links store := by
  unfold propagateInterval at ran
  split at ran
  · cases ran
  · cases ran
  · split at ran
    · cases ran
    · cases ran
    · rename_i staged looped
      cases ran
      refine loop_ok_of_invariant (fun s : PropagateLoop => links s.store = links store)
        (fun staged => links staged = links store) (fun s a same turn => ?_) (fun s s' same turn => ?_)
        fuel ⟨[node], store⟩ rfl staged looped
      · exact (propagateIntervalStep_links (listed.of_links same) turn).trans same
      · exact (propagateIntervalStep_links (listed.of_links same) turn).trans same

end ReachabilityManager
