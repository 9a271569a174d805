import Mathlib
import Htnd.ReachabilityManager.Tree
import Htnd.Lib.GoSemantics

/-!
Subtree sizes during a reindex (reindex_context.go). `countSubtrees` fills the cache of the
reindex context with the size of the subtree of a block and of the blocks below it, without
recursion: a queue reaches the leaves and the subtrees whose size is cached, and each finished
subtree pushes its size up the parent chain, where a per-block count of finished children says
when a block's children are all done. Both loops are `for` loops without a bound, run here for
at most `fuel` turns.
-/
namespace ReachabilityManager
open GoSemantics Utxo

/-- The subtree sizes cached during the current reindex; Go's map is a function, `none` where
    it holds nothing. -/
structure ReindexContext where
  subTreeSizesCache : DomainHash → Option UInt64

variable (store : ReachabilityDataStore)

def parent (blockHash : DomainHash) : Except ReachabilityError (Option DomainHash) := do
  let data ← reachabilityData store blockHash
  pure data.parent

structure PushUpLoop where
  current : DomainHash
  calculatedChildrenCount : DomainHash → UInt64
  subTreeSizesCache : DomainHash → Option UInt64

structure CountLoop where
  queue : List DomainHash
  calculatedChildrenCount : DomainHash → UInt64
  subTreeSizesCache : DomainHash → Option UInt64

/-- A failed read ends the loop with the cache as it stands: Go writes the shared map in place. -/
def pushUpStep (node : DomainHash) (s : PushUpLoop) :
    Option (Except (ReachabilityError × (DomainHash → Option UInt64))
      (PushUpLoop ⊕ (DomainHash → UInt64) × (DomainHash → Option UInt64))) :=
  if s.current = node then some (.ok (.inr (s.calculatedChildrenCount, s.subTreeSizesCache)))
  else
    match parent store s.current with
    | .error err => some (.error (err, s.subTreeSizesCache))
    -- the previous block was the genesis, the only block without a parent
    | .ok none => some (.ok (.inr (s.calculatedChildrenCount, s.subTreeSizesCache)))
    | .ok (some current) =>
      let calculatedChildrenCount := Function.update s.calculatedChildrenCount current
        (s.calculatedChildrenCount current + 1)
      match children store current with
      | .error err => some (.error (err, s.subTreeSizesCache))
      | .ok children =>
        if calculatedChildrenCount current ≠ UInt64.ofNat children.length then
          -- not all subtrees of the current block are ready
          some (.ok (.inr (calculatedChildrenCount, s.subTreeSizesCache)))
        else
          let childSubtreeSizeSum :=
            children.foldl (fun sum child => sum + (s.subTreeSizesCache child).getD 0) 0
          some (.ok (.inl ⟨current, calculatedChildrenCount,
            Function.update s.subTreeSizesCache current (some (childSubtreeSizeSum + 1))⟩))

def pushUp (node : DomainHash) (fuel : Nat) (queue : List DomainHash) (s : PushUpLoop) :
    Option (Except (ReachabilityError × (DomainHash → Option UInt64))
      (CountLoop ⊕ (DomainHash → Option UInt64))) :=
  match loop (pushUpStep store node) fuel s with
  | none => none
  | some (.error err) => some (.error err)
  | some (.ok (calculatedChildrenCount, subTreeSizesCache)) =>
    some (.ok (.inl ⟨queue, calculatedChildrenCount, subTreeSizesCache⟩))

def countSubtreesStep (node : DomainHash) (fuel : Nat) (s : CountLoop) :
    Option (Except (ReachabilityError × (DomainHash → Option UInt64))
      (CountLoop ⊕ (DomainHash → Option UInt64))) :=
  match s.queue with
  | [] => some (.ok (.inr s.subTreeSizesCache))
  | current :: queue =>
    match children store current with
    | .error err => some (.error (err, s.subTreeSizesCache))
    | .ok children =>
      if children.isEmpty then
        -- a leaf
        pushUp store node fuel queue ⟨current, s.calculatedChildrenCount,
          Function.update s.subTreeSizesCache current (some 1)⟩
      else if (s.subTreeSizesCache current).isNone then
        some (.ok (.inl ⟨queue ++ children, s.calculatedChildrenCount, s.subTreeSizesCache⟩))
      else
        -- a subtree whose size is already known
        pushUp store node fuel queue ⟨current, s.calculatedChildrenCount, s.subTreeSizesCache⟩

/-- The error, when there is one, comes with the context the failed count leaves. -/
def countSubtrees (fuel : Nat) (rc : ReindexContext) (node : DomainHash) :
    Option (Except (ReachabilityError × ReindexContext) ReindexContext) :=
  if (rc.subTreeSizesCache node).isSome then some (.ok rc)
  else
    match loop (countSubtreesStep store node fuel) fuel ⟨[node], fun _ => 0, rc.subTreeSizesCache⟩ with
    | none => none
    | some (.error (err, subTreeSizesCache)) => some (.error (err, ⟨subTreeSizesCache⟩))
    | some (.ok subTreeSizesCache) => some (.ok ⟨subTreeSizesCache⟩)

noncomputable def subtreeSize (x : DomainHash) : Nat :=
  (IntervalTree.subtree store.keys.toFinset (TreeParent store) x).card

def childrenOf (x : DomainHash) : List DomainHash := ((store.lookup x).map (·.children)).getD []

/-! ### The tree -/

variable {store}

theorem childrenOf_eq {x : DomainHash} {data : ReachabilityData} (found : store.lookup x = some data) :
    childrenOf store x = data.children := by
  simp [childrenOf, found]

theorem children_eq_childrenOf {x : DomainHash} (stored : x ∈ store) :
    children store x = .ok (childrenOf store x) := by
  obtain ⟨data, found⟩ := lookup_of_mem stored
  simp [children, reachabilityData, childrenOf, found, bind, Except.bind, pure, Except.pure]

theorem TreeParent.stored {p c : DomainHash} (step : TreeParent store p c) : c ∈ store := by
  obtain ⟨data, found, -⟩ := step
  exact AList.lookup_isSome.1 (by rw [found]; rfl)

theorem TreeParent.unique {p q c : DomainHash} (step : TreeParent store p c)
    (step' : TreeParent store q c) : p = q := by
  obtain ⟨data, found, linked⟩ := step
  obtain ⟨data', found', linked'⟩ := step'
  rw [found, Option.some.injEq] at found'
  subst found'
  exact Option.some.inj (linked.symm.trans linked')

theorem parent_eq {p c : DomainHash} (step : TreeParent store p c) : parent store c = .ok (some p) := by
  obtain ⟨data, found, linked⟩ := step
  simp [parent, reachabilityData, found, linked, bind, Except.bind, pure, Except.pure]

theorem stored_of_below {node y : DomainHash} (nodeStored : node ∈ store)
    (below : Relation.ReflTransGen (TreeParent store) node y) : y ∈ store := by
  cases below with
  | refl => exact nodeStored
  | tail _ step => exact step.stored

theorem mem_keys_toFinset {x : DomainHash} : x ∈ store.keys.toFinset ↔ x ∈ store := by
  rw [List.mem_toFinset, AList.mem_keys]

theorem subtreeSize_le {x y : DomainHash} (below : Relation.ReflTransGen (TreeParent store) x y) :
    subtreeSize store y ≤ subtreeSize store x :=
  Finset.card_le_card (IntervalTree.subtree_subset below)

theorem subtreeSize_pos {x : DomainHash} (stored : x ∈ store) : 0 < subtreeSize store x :=
  Finset.card_pos.2 ⟨x, IntervalTree.mem_subtree.2 ⟨mem_keys_toFinset.2 stored, Relation.ReflTransGen.refl⟩⟩

namespace WellFormed

variable {root : DomainHash} (wf : WellFormed store root)
include wf

theorem laminar_keys :
    IntervalTree.Laminar ↑store.keys.toFinset (TreeParent store) root (startOf store) (endOf store)
      (2 ^ 64) := by
  have same : (↑store.keys.toFinset : Set DomainHash) = {x | x ∈ store} := by
    ext x
    exact mem_keys_toFinset
  rw [same]
  exact wf.laminar

theorem mem_childrenOf {x c : DomainHash} : c ∈ childrenOf store x ↔ TreeParent store x c := by
  constructor
  · intro child
    obtain ⟨data, found⟩ : ∃ data, store.lookup x = some data := by
      cases lookupX : store.lookup x with
      | none => simp [childrenOf, lookupX] at child
      | some data => exact ⟨data, rfl⟩
    rw [childrenOf_eq found] at child
    exact wf.parent_of_child found child
  · intro step
    obtain ⟨data, found, child⟩ := wf.parent_linked step
    rw [childrenOf_eq found]
    exact child

theorem childrenOf_nodup (x : DomainHash) : (childrenOf store x).Nodup := by
  cases lookupX : store.lookup x with
  | none => simp [childrenOf, lookupX]
  | some data =>
    rw [childrenOf_eq lookupX]
    refine (wf.children_apart lookupX).imp_of_mem fun cMem _ before same => ?_
    subst same
    have := wf.nonempty (wf.child_stored lookupX cMem)
    omega

theorem length_childrenOf_lt (x : DomainHash) : (childrenOf store x).length < 2 ^ 64 := by
  cases lookupX : store.lookup x with
  | none => simp [childrenOf, lookupX]
  | some data =>
    have xStored : x ∈ store := AList.lookup_isSome.1 (by rw [lookupX]; rfl)
    have fits : data.children.length ≤ endOf store x - startOf store x :=
      IntervalTree.length_le_of_apart (wf.children_apart lookupX)
        (fun c child => wf.nonempty (wf.child_stored lookupX child))
        (fun c child => wf.laminar.inside x c (wf.parent_of_child lookupX child)
          (wf.child_stored lookupX child))
    have bounded := wf.laminar.bounded x xStored
    rw [childrenOf_eq lookupX]
    omega

theorem subtreeSize_eq {x : DomainHash} (stored : x ∈ store) :
    subtreeSize store x = 1 + ((childrenOf store x).map (subtreeSize store)).sum :=
  wf.laminar_keys.card_subtree (mem_keys_toFinset.2 stored) (wf.childrenOf_nodup x)
    fun _ => ⟨fun child => ⟨mem_keys_toFinset.2 (wf.mem_childrenOf.1 child).stored,
      wf.mem_childrenOf.1 child⟩, fun ⟨_, step⟩ => wf.mem_childrenOf.2 step⟩

theorem subtreeSize_lt {p c : DomainHash} (step : TreeParent store p c) :
    subtreeSize store c < subtreeSize store p := by
  obtain ⟨parentData, found, -⟩ := wf.parent_linked step
  exact wf.laminar_keys.card_subtree_lt step
    (mem_keys_toFinset.2 (AList.lookup_isSome.1 (by rw [found]; rfl))) (mem_keys_toFinset.2 step.stored)

theorem subtreeSize_lt_of_transGen {x y : DomainHash} (below : Relation.TransGen (TreeParent store) x y) :
    subtreeSize store y < subtreeSize store x := by
  induction below with
  | single step => exact wf.subtreeSize_lt step
  | tail _ step ih => exact Nat.lt_trans (wf.subtreeSize_lt step) ih

theorem not_transGen_self (x : DomainHash) : ¬ Relation.TransGen (TreeParent store) x x :=
  fun cycle => Nat.lt_irrefl _ (wf.subtreeSize_lt_of_transGen cycle)

theorem not_below_child {p c : DomainHash} (step : TreeParent store p c) :
    ¬ Relation.ReflTransGen (TreeParent store) c p :=
  fun below => wf.not_transGen_self p (Relation.TransGen.head' step below)

end WellFormed

/-! ### What the loops keep -/

theorem countP_succ_of_report {α : Type} {l : List α} (nodup : l.Nodup) {x : α} (mem : x ∈ l)
    {p q : α → Bool} (before : p x = false) (after : q x = true)
    (same : ∀ y ∈ l, y ≠ x → p y = q y) : l.countP q = l.countP p + 1 := by
  induction l with
  | nil => cases mem
  | cons a l ih =>
    obtain ⟨aFresh, nodup⟩ := List.nodup_cons.1 nodup
    rw [List.countP_cons, List.countP_cons]
    by_cases isX : a = x
    · subst isX
      have rest : l.countP q = l.countP p :=
        List.countP_congr fun y mem => by
          rw [same y (List.mem_cons_of_mem a mem) (fun same => aFresh (same ▸ mem))]
      simp [before, after, rest]
    · have mem : x ∈ l := (List.mem_cons.1 mem).resolve_left (Ne.symm isX)
      rw [ih nodup mem fun y yMem ne => same y (List.mem_cons_of_mem a yMem) ne,
        same a List.mem_cons_self isX]
      omega

variable (store) (node : DomainHash) (initial : DomainHash → Option UInt64)

def reportedCount (queue : List DomainHash) (pending : Finset DomainHash) (uncounted : List DomainHash)
    (p : DomainHash) : Nat :=
  (childrenOf store p).countP fun c => c ∉ queue ∧ c ∉ pending ∧ c ∉ uncounted

structure Waiting (queue : List DomainHash) (pending : Finset DomainHash) (uncounted : List DomainHash)
    (count : DomainHash → UInt64) (cache : DomainHash → Option UInt64) (p : DomainHash) : Prop where
  uncached : cache p = none
  counted : count p = UInt64.ofNat (reportedCount store queue pending uncounted p)
  unfinished : reportedCount store queue pending uncounted p < (childrenOf store p).length
  reported : ∀ c ∈ childrenOf store p, c ∉ queue → c ∉ pending → c ∉ uncounted → (cache c).isSome

structure CountInv (pending : Finset DomainHash) (uncounted queue : List DomainHash)
    (count : DomainHash → UInt64) (cache : DomainHash → Option UInt64) : Prop where
  correct : ∀ y v, Relation.ReflTransGen (TreeParent store) node y → cache y = some v →
    v = UInt64.ofNat (subtreeSize store y)
  frame : ∀ y, ¬ Relation.ReflTransGen (TreeParent store) node y → cache y = initial y
  queue_nodup : queue.Nodup
  apart : ∀ y ∈ queue, y ∉ pending ∧ y ∉ uncounted
  linked : ∀ y, y ∈ queue ∨ y ∈ pending ∨ y ∈ uncounted →
    Relation.ReflTransGen (TreeParent store) node y ∧ (y = node ∨ ∃ p ∈ pending, TreeParent store p y)
  fresh : ∀ y ∈ queue, ∀ d, Relation.ReflTransGen (TreeParent store) y d → count d = 0
  waiting : ∀ p ∈ pending, Waiting store queue pending uncounted count cache p
  finished : ∀ y ∈ uncounted, y ∉ pending ∧ (cache y).isSome
  rooted : node ∈ queue ∨ node ∈ pending ∨ node ∈ uncounted ∨ (cache node).isSome

structure Counted (cache : DomainHash → Option UInt64) : Prop where
  correct : ∀ y v, Relation.ReflTransGen (TreeParent store) node y → cache y = some v →
    v = UInt64.ofNat (subtreeSize store y)
  counted : cache node = some (UInt64.ofNat (subtreeSize store node))
  frame : ∀ y, ¬ Relation.ReflTransGen (TreeParent store) node y → cache y = initial y

variable {store node initial}

theorem reportedCount_congr {queue queue' : List DomainHash} {pending pending' : Finset DomainHash}
    {uncounted uncounted' : List DomainHash} {p : DomainHash}
    (busy : ∀ c ∈ childrenOf store p, (c ∈ queue ∨ c ∈ pending ∨ c ∈ uncounted) ↔
      (c ∈ queue' ∨ c ∈ pending' ∨ c ∈ uncounted')) :
    reportedCount store queue pending uncounted p = reportedCount store queue' pending' uncounted' p :=
  List.countP_congr fun c child => by
    have same := busy c child
    simp only [decide_eq_true_eq]
    tauto

theorem Waiting.congr {queue queue' : List DomainHash} {pending pending' : Finset DomainHash}
    {uncounted uncounted' : List DomainHash} {count count' : DomainHash → UInt64}
    {cache cache' : DomainHash → Option UInt64} {p : DomainHash}
    (waiting : Waiting store queue pending uncounted count cache p)
    (busy : ∀ c ∈ childrenOf store p, (c ∈ queue ∨ c ∈ pending ∨ c ∈ uncounted) ↔
      (c ∈ queue' ∨ c ∈ pending' ∨ c ∈ uncounted'))
    (sameCount : count' p = count p) (uncached : cache' p = none)
    (more : ∀ c, (cache c).isSome → (cache' c).isSome) :
    Waiting store queue' pending' uncounted' count' cache' p where
  uncached := uncached
  counted := by rw [sameCount, waiting.counted, reportedCount_congr busy]
  unfinished := reportedCount_congr busy ▸ waiting.unfinished
  reported c child notQueued notPending notUncounted := by
    have notBusy : ¬ (c ∈ queue ∨ c ∈ pending ∨ c ∈ uncounted) := fun busyBefore => by
      rcases (busy c child).1 busyBefore with mem | mem | mem
      · exact notQueued mem
      · exact notPending mem
      · exact notUncounted mem
    simp only [not_or] at notBusy
    exact more c (waiting.reported c child notBusy.1 notBusy.2.1 notBusy.2.2)

theorem isSome_update {cache : DomainHash → Option UInt64} {y c : DomainHash} (v : UInt64)
    (cached : (cache c).isSome) : (Function.update cache y (some v) c).isSome := by
  by_cases same : c = y
  · rw [same, Function.update_self]
    rfl
  · rwa [Function.update_of_ne same]

theorem Waiting.exists_busy {queue : List DomainHash} {pending : Finset DomainHash}
    {uncounted : List DomainHash} {count : DomainHash → UInt64} {cache : DomainHash → Option UInt64}
    {p : DomainHash} (waiting : Waiting store queue pending uncounted count cache p) :
    ∃ c ∈ childrenOf store p, c ∈ queue ∨ c ∈ pending ∨ c ∈ uncounted := by
  by_contra none
  simp only [not_exists, not_and] at none
  have all : reportedCount store queue pending uncounted p = (childrenOf store p).length :=
    List.countP_eq_length.2 fun c child => by simpa using none c child
  exact absurd waiting.unfinished (by omega)

theorem foldl_cached_sum {cache : DomainHash → Option UInt64} {l : List DomainHash} (init : UInt64)
    (cached : ∀ c ∈ l, cache c = some (UInt64.ofNat (subtreeSize store c))) :
    l.foldl (fun sum child => sum + (cache child).getD 0) init =
      init + UInt64.ofNat (l.map (subtreeSize store)).sum := by
  induction l generalizing init with
  | nil => simp
  | cons c l ih =>
    rw [List.foldl_cons, ih _ fun c' mem => cached c' (List.mem_cons_of_mem c mem),
      cached c List.mem_cons_self, Option.getD_some, List.map_cons, List.sum_cons, UInt64.ofNat_add,
      UInt64.add_assoc]

variable {pending : Finset DomainHash} {uncounted queue : List DomainHash}
  {count : DomainHash → UInt64} {cache : DomainHash → Option UInt64} {y : DomainHash}

theorem busy_pop {c : DomainHash} :
    (c ∈ y :: queue ∨ c ∈ pending ∨ c ∈ ([] : List DomainHash)) ↔ (c ∈ queue ∨ c ∈ pending ∨ c ∈ [y]) := by
  simp only [List.mem_cons, List.not_mem_nil, or_false]
  tauto

theorem busy_drop {c c' : DomainHash} (other : c' ≠ c) :
    (c' ∈ queue ∨ c' ∈ pending ∨ c' ∈ [c]) ↔ (c' ∈ queue ∨ c' ∈ pending ∨ c' ∈ ([] : List DomainHash)) := by
  simp [other]

theorem busy_widen {c : DomainHash} (busy : c ∈ queue ∨ c ∈ pending ∨ c ∈ ([] : List DomainHash)) :
    c ∈ queue ∨ c ∈ pending ∨ c ∈ uncounted :=
  busy.imp_right (Or.imp_right fun mem => absurd mem List.not_mem_nil)

theorem CountInv.below_of_queued (inv : CountInv store node initial pending uncounted queue count cache)
    (queued : y ∈ queue) : Relation.ReflTransGen (TreeParent store) node y :=
  (inv.linked y (Or.inl queued)).1

theorem CountInv.below_of_pending (inv : CountInv store node initial pending uncounted queue count cache)
    (yPending : y ∈ pending) : Relation.ReflTransGen (TreeParent store) node y :=
  (inv.linked y (Or.inr (Or.inl yPending))).1

theorem CountInv.correct_update (inv : CountInv store node initial pending uncounted queue count cache)
    {v : UInt64} (right : v = UInt64.ofNat (subtreeSize store y)) :
    ∀ x w, Relation.ReflTransGen (TreeParent store) node x → Function.update cache y (some v) x = some w →
      w = UInt64.ofNat (subtreeSize store x) := by
  intro x w below found
  by_cases same : x = y
  · subst same
    rw [Function.update_self, Option.some.injEq] at found
    rw [← found, right]
  · rw [Function.update_of_ne same] at found
    exact inv.correct x w below found

theorem CountInv.frame_update (inv : CountInv store node initial pending uncounted queue count cache)
    (below : Relation.ReflTransGen (TreeParent store) node y) (v : UInt64) :
    ∀ x, ¬ Relation.ReflTransGen (TreeParent store) node x → Function.update cache y (some v) x = initial x := by
  intro x notBelow
  have other : x ≠ y := fun same => notBelow (same ▸ below)
  rw [Function.update_of_ne other]
  exact inv.frame x notBelow

theorem countInv_start
    (initialCorrect : ∀ y v, Relation.ReflTransGen (TreeParent store) node y → initial y = some v →
      v = UInt64.ofNat (subtreeSize store y)) :
    CountInv store node initial ∅ [] [node] (fun _ => 0) initial where
  correct := initialCorrect
  frame _ _ := rfl
  queue_nodup := List.nodup_singleton node
  apart _ _ := ⟨Finset.notMem_empty _, List.not_mem_nil⟩
  linked y busy := by
    have isNode : y = node := by simpa using busy
    exact ⟨isNode ▸ Relation.ReflTransGen.refl, Or.inl isNode⟩
  fresh _ _ _ _ := rfl
  waiting p pPending := absurd pPending (Finset.notMem_empty p)
  finished _ mem := absurd mem List.not_mem_nil
  rooted := Or.inl (List.mem_singleton_self node)

theorem CountInv.pop (inv : CountInv store node initial pending [] (y :: queue) count cache)
    (cached : (cache y).isSome) : CountInv store node initial pending [y] queue count cache where
  correct := inv.correct
  frame := inv.frame
  queue_nodup := (List.nodup_cons.1 inv.queue_nodup).2
  apart x queued := ⟨(inv.apart x (List.mem_cons_of_mem y queued)).1,
    fun same => (List.nodup_cons.1 inv.queue_nodup).1 (List.mem_singleton.1 same ▸ queued)⟩
  linked x busy := inv.linked x (busy_pop.2 busy)
  fresh x queued := inv.fresh x (List.mem_cons_of_mem y queued)
  waiting p pPending := (inv.waiting p pPending).congr (fun _ _ => busy_pop) rfl
    (inv.waiting p pPending).uncached fun _ cached => cached
  finished x mem := List.mem_singleton.1 mem ▸ ⟨(inv.apart y List.mem_cons_self).1, cached⟩
  rooted := by
    have rooted := inv.rooted
    simp only [List.mem_cons, List.not_mem_nil, or_false] at rooted ⊢
    tauto

section Tree

variable {root : DomainHash} (wf : WellFormed store root)
include wf

theorem CountInv.pending_of_transGen (inv : CountInv store node initial pending uncounted queue count cache)
    {y d : DomainHash} (below : Relation.ReflTransGen (TreeParent store) node y)
    (strict : Relation.TransGen (TreeParent store) y d)
    (busy : d ∈ queue ∨ d ∈ pending ∨ d ∈ uncounted) : y ∈ pending := by
  induction strict with
  | single step =>
    obtain ⟨-, isNode | ⟨q, qPending, qStep⟩⟩ := inv.linked _ busy
    · exact absurd (isNode ▸ below) (wf.not_below_child step)
    · rw [step.unique qStep]
      exact qPending
  | tail rest step ih =>
    obtain ⟨-, isNode | ⟨q, qPending, qStep⟩⟩ := inv.linked _ busy
    · have back : Relation.ReflTransGen (TreeParent store) _ y := isNode ▸ below
      exact absurd ((rest.tail step).trans_left back) (wf.not_transGen_self y)
    · rw [← step.unique qStep] at qPending
      exact ih (Or.inr (Or.inl qPending))

theorem CountInv.not_below_queued (inv : CountInv store node initial pending uncounted queue count cache)
    {y d : DomainHash} (queued : y ∈ queue) (busy : d ∈ queue ∨ d ∈ pending ∨ d ∈ uncounted)
    (other : d ≠ y) : ¬ Relation.ReflTransGen (TreeParent store) y d := by
  intro below
  rcases Relation.reflTransGen_iff_eq_or_transGen.1 below with same | strict
  · exact other same
  · exact (inv.apart y queued).1
      (inv.pending_of_transGen wf (inv.below_of_queued queued) strict busy)

theorem CountInv.child_not_busy (inv : CountInv store node initial pending uncounted queue count cache)
    {y c : DomainHash} (queued : y ∈ queue) (step : TreeParent store y c) :
    ¬ (c ∈ queue ∨ c ∈ pending ∨ c ∈ uncounted) := fun busy =>
  inv.not_below_queued wf queued busy (fun same => wf.not_below_child step (same ▸ Relation.ReflTransGen.refl))
    (Relation.ReflTransGen.single step)

theorem CountInv.fresh_update (inv : CountInv store node initial pending uncounted queue count cache)
    {p : DomainHash} (pPending : p ∈ pending) (v : UInt64) :
    ∀ y ∈ queue, ∀ d, Relation.ReflTransGen (TreeParent store) y d → Function.update count p v d = 0 := by
  intro y queued d below
  have other : d ≠ p := by
    rintro rfl
    exact inv.not_below_queued wf queued (Or.inr (Or.inl pPending))
      (fun same => (inv.apart y queued).1 (same ▸ pPending)) below
  rw [Function.update_of_ne other]
  exact inv.fresh y queued d below

theorem CountInv.leaf (inv : CountInv store node initial pending [] (y :: queue) count cache)
    (nodeStored : node ∈ store) (leaf : childrenOf store y = []) :
    CountInv store node initial pending [] (y :: queue) count (Function.update cache y (some 1)) where
  correct := inv.correct_update (by
    rw [wf.subtreeSize_eq (stored_of_below nodeStored (inv.below_of_queued List.mem_cons_self)), leaf]
    rfl)
  frame := inv.frame_update (inv.below_of_queued List.mem_cons_self) 1
  queue_nodup := inv.queue_nodup
  apart := inv.apart
  linked := inv.linked
  fresh := inv.fresh
  waiting p pPending := by
    have other : p ≠ y := fun same => (inv.apart y List.mem_cons_self).1 (same ▸ pPending)
    refine (inv.waiting p pPending).congr (fun _ _ => Iff.rfl) rfl ?_ fun _ cached => isSome_update 1 cached
    rw [Function.update_of_ne other]
    exact (inv.waiting p pPending).uncached
  finished _ mem := absurd mem List.not_mem_nil
  rooted := (inv.rooted).imp_right (Or.imp_right (Or.imp_right (isSome_update 1)))

theorem CountInv.expand (inv : CountInv store node initial pending [] (y :: queue) count cache)
    (uncached : cache y = none) (hasChildren : childrenOf store y ≠ []) :
    CountInv store node initial (insert y pending) [] (queue ++ childrenOf store y) count cache where
  correct := inv.correct
  frame := inv.frame
  queue_nodup := List.nodup_append.2 ⟨(List.nodup_cons.1 inv.queue_nodup).2, wf.childrenOf_nodup y,
    fun _ queued c child same => inv.child_not_busy wf List.mem_cons_self (wf.mem_childrenOf.1 child)
      (Or.inl (List.mem_cons_of_mem y (same ▸ queued)))⟩
  apart x queued := by
    refine ⟨?_, List.not_mem_nil⟩
    rw [Finset.mem_insert]
    rcases List.mem_append.1 queued with old | child
    · have yFresh := (List.nodup_cons.1 inv.queue_nodup).1
      rintro (same | pending)
      · exact yFresh (same ▸ old)
      · exact (inv.apart x (List.mem_cons_of_mem y old)).1 pending
    · have notBusy := inv.child_not_busy wf List.mem_cons_self (wf.mem_childrenOf.1 child)
      rintro (same | pending)
      · exact notBusy (Or.inl (same ▸ List.mem_cons_self))
      · exact notBusy (Or.inr (Or.inl pending))
  linked x busy := by
    have wasBusy : (x ∈ y :: queue ∨ x ∈ pending ∨ x ∈ ([] : List DomainHash)) ∨
        TreeParent store y x := by
      simp only [List.mem_append, Finset.mem_insert, List.mem_cons, List.not_mem_nil, or_false] at busy ⊢
      rcases busy with (old | child) | same | pending
      · exact Or.inl (Or.inl (Or.inr old))
      · exact Or.inr (wf.mem_childrenOf.1 child)
      · exact Or.inl (Or.inl (Or.inl same))
      · exact Or.inl (Or.inr pending)
    rcases wasBusy with old | step
    · obtain ⟨below, parent⟩ := inv.linked x old
      exact ⟨below, parent.imp_right fun ⟨p, pPending, step⟩ => ⟨p, Finset.mem_insert_of_mem pPending, step⟩⟩
    · exact ⟨(inv.below_of_queued List.mem_cons_self).tail step,
        Or.inr ⟨y, Finset.mem_insert_self y pending, step⟩⟩
  fresh x queued d below := by
    rcases List.mem_append.1 queued with old | child
    · exact inv.fresh x (List.mem_cons_of_mem y old) d below
    · exact inv.fresh y List.mem_cons_self d (Relation.ReflTransGen.head (wf.mem_childrenOf.1 child) below)
  waiting p pPending := by
    rcases Finset.mem_insert.1 pPending with rfl | old
    · have none : reportedCount store (queue ++ childrenOf store p) (insert p pending) [] p = 0 :=
        List.countP_eq_zero.2 fun c child => by simp [child]
      refine ⟨uncached, ?_, ?_, fun c child notQueued => absurd (List.mem_append_right queue child) notQueued⟩
      · rw [none, inv.fresh p List.mem_cons_self p Relation.ReflTransGen.refl]
        rfl
      · rw [none]
        exact List.length_pos_of_ne_nil hasChildren
    · have notChild : ∀ c ∈ childrenOf store p, c ∉ childrenOf store y := fun c child yChild =>
        (inv.apart y List.mem_cons_self).1
          ((wf.mem_childrenOf.1 child).unique (wf.mem_childrenOf.1 yChild) ▸ old)
      refine (inv.waiting p old).congr (fun c child => ?_) rfl (inv.waiting p old).uncached fun _ cached => cached
      simp only [List.mem_append, Finset.mem_insert, List.mem_cons, List.not_mem_nil, or_false,
        notChild c child]
      tauto
  finished _ mem := absurd mem List.not_mem_nil
  rooted := by
    have rooted := inv.rooted
    simp only [List.mem_append, Finset.mem_insert, List.mem_cons, List.not_mem_nil] at rooted ⊢
    tauto

theorem CountInv.ne_node (inv : CountInv store node initial pending uncounted queue count cache)
    {p c : DomainHash} (step : TreeParent store p c) (pPending : p ∈ pending) : c ≠ node :=
  fun same => wf.not_below_child (same ▸ step) (inv.below_of_pending pPending)

theorem CountInv.count_report {c p : DomainHash} (inv : CountInv store node initial pending [c] queue count cache)
    (step : TreeParent store p c) (pPending : p ∈ pending) :
    Function.update count p (count p + 1) p = UInt64.ofNat (reportedCount store queue pending [] p) := by
  have notQueued : c ∉ queue := fun queued => (inv.apart c queued).2 (List.mem_singleton_self c)
  have notPending := (inv.finished c (List.mem_singleton_self c)).1
  have reported : reportedCount store queue pending [] p = reportedCount store queue pending [c] p + 1 :=
    countP_succ_of_report (wf.childrenOf_nodup p) (wf.mem_childrenOf.2 step) (by simp)
      (by simp [notQueued, notPending]) fun _ _ other => by simp [other]
  rw [Function.update_self, (inv.waiting p pPending).counted, reported, UInt64.ofNat_add, UInt64.ofNat_one]

theorem CountInv.report {c p : DomainHash} (inv : CountInv store node initial pending [c] queue count cache)
    (step : TreeParent store p c) (pPending : p ∈ pending)
    (notAll : Function.update count p (count p + 1) p ≠ UInt64.ofNat (childrenOf store p).length) :
    CountInv store node initial pending [] queue (Function.update count p (count p + 1)) cache where
  correct := inv.correct
  frame := inv.frame
  queue_nodup := inv.queue_nodup
  apart x queued := ⟨(inv.apart x queued).1, List.not_mem_nil⟩
  linked x busy := inv.linked x (busy_widen busy)
  fresh := inv.fresh_update wf pPending _
  waiting q qPending := by
    by_cases same : q = p
    · subst same
      have counted := inv.count_report wf step qPending
      refine ⟨(inv.waiting q qPending).uncached, counted, ?_, fun c' child notQueued notPending _ => ?_⟩
      · have atMost : reportedCount store queue pending [] q ≤ (childrenOf store q).length :=
          List.countP_le_length
        have fits := wf.length_childrenOf_lt q
        have differs : reportedCount store queue pending [] q ≠ (childrenOf store q).length :=
          fun same => notAll (by rw [counted, same])
        omega
      · by_cases isC : c' = c
        · exact isC ▸ (inv.finished c (List.mem_singleton_self c)).2
        · exact (inv.waiting q qPending).reported c' child notQueued notPending (by simpa using isC)
    · have notC : ∀ c' ∈ childrenOf store q, c' ≠ c := fun c' child isC =>
        same ((isC ▸ wf.mem_childrenOf.1 child).unique step)
      exact (inv.waiting q qPending).congr (fun c' child => busy_drop (notC c' child))
        (Function.update_of_ne same _ _) (inv.waiting q qPending).uncached fun _ cached => cached
  finished _ mem := absurd mem List.not_mem_nil
  rooted := by
    rcases inv.rooted with queued | pending | uncounted | cached
    · exact Or.inl queued
    · exact Or.inr (Or.inl pending)
    · exact absurd (List.mem_singleton.1 uncounted).symm (inv.ne_node wf step pPending)
    · exact Or.inr (Or.inr (Or.inr cached))

theorem CountInv.children_done {c p : DomainHash} (inv : CountInv store node initial pending [c] queue count cache)
    (step : TreeParent store p c) (pPending : p ∈ pending)
    (all : Function.update count p (count p + 1) p = UInt64.ofNat (childrenOf store p).length) :
    ∀ c' ∈ childrenOf store p, c' ∉ queue ∧ c' ∉ pending ∧
      cache c' = some (UInt64.ofNat (subtreeSize store c')) := by
  have reportedAll : reportedCount store queue pending [] p = (childrenOf store p).length := by
    have counted := inv.count_report wf step pPending
    have atMost : reportedCount store queue pending [] p ≤ (childrenOf store p).length :=
      List.countP_le_length
    have fits := wf.length_childrenOf_lt p
    have same := congrArg UInt64.toNat (counted.symm.trans all)
    rwa [UInt64.toNat_ofNat_of_lt' (by unfold UInt64.size; omega),
      UInt64.toNat_ofNat_of_lt' (by unfold UInt64.size; omega)] at same
  intro c' child
  have done := List.countP_eq_length.1 reportedAll c' child
  simp only [List.not_mem_nil, not_false_eq_true, and_true, decide_eq_true_eq] at done
  have cached : (cache c').isSome := by
    by_cases isC : c' = c
    · exact isC ▸ (inv.finished c (List.mem_singleton_self c)).2
    · exact (inv.waiting p pPending).reported c' child done.1 done.2 (by simpa using isC)
  obtain ⟨v, found⟩ := Option.isSome_iff_exists.1 cached
  have below := (inv.below_of_pending pPending).tail (wf.mem_childrenOf.1 child)
  exact ⟨done.1, done.2, by rw [found, inv.correct c' v below found]⟩

theorem CountInv.completed_size {c p : DomainHash} (inv : CountInv store node initial pending [c] queue count cache)
    (nodeStored : node ∈ store) (step : TreeParent store p c) (pPending : p ∈ pending)
    (all : Function.update count p (count p + 1) p = UInt64.ofNat (childrenOf store p).length) :
    (childrenOf store p).foldl (fun sum child => sum + (cache child).getD 0) 0 + 1 =
      UInt64.ofNat (subtreeSize store p) := by
  have done := inv.children_done wf step pPending all
  rw [foldl_cached_sum 0 fun c' child => (done c' child).2.2,
    wf.subtreeSize_eq (stored_of_below nodeStored (inv.below_of_pending pPending)), UInt64.ofNat_add,
    UInt64.ofNat_one, UInt64.zero_add, UInt64.add_comm]

theorem CountInv.complete {c p : DomainHash} (inv : CountInv store node initial pending [c] queue count cache)
    (nodeStored : node ∈ store) (step : TreeParent store p c) (pPending : p ∈ pending)
    (all : Function.update count p (count p + 1) p = UInt64.ofNat (childrenOf store p).length) :
    CountInv store node initial (pending.erase p) [p] queue (Function.update count p (count p + 1))
      (Function.update cache p (some ((childrenOf store p).foldl
        (fun sum child => sum + (cache child).getD 0) 0 + 1))) where
  correct := inv.correct_update (inv.completed_size wf nodeStored step pPending all)
  frame := inv.frame_update (inv.below_of_pending pPending) _
  queue_nodup := inv.queue_nodup
  apart x queued := by
    have notPending := (inv.apart x queued).1
    refine ⟨fun erased => notPending (Finset.mem_of_mem_erase erased), fun same => ?_⟩
    exact notPending (List.mem_singleton.1 same ▸ pPending)
  linked x busy := by
    have wasBusy : x ∈ queue ∨ x ∈ pending := by
      rcases busy with queued | erased | uncounted
      · exact Or.inl queued
      · exact Or.inr (Finset.mem_of_mem_erase erased)
      · exact Or.inr (List.mem_singleton.1 uncounted ▸ pPending)
    obtain ⟨below, parent⟩ := inv.linked x (wasBusy.imp_right Or.inl)
    refine ⟨below, parent.imp_right fun ⟨q, qPending, qStep⟩ => ⟨q, Finset.mem_erase.2 ⟨?_, qPending⟩, qStep⟩⟩
    rintro rfl
    have done := inv.children_done wf step pPending all x (wf.mem_childrenOf.2 qStep)
    rcases wasBusy with queued | pending
    · exact done.1 queued
    · exact done.2.1 pending
  fresh := inv.fresh_update wf pPending _
  waiting q qPending := by
    obtain ⟨other, qPending⟩ := Finset.mem_erase.1 qPending
    have notC : ∀ c' ∈ childrenOf store q, c' ≠ c := fun c' child isC =>
      other ((isC ▸ wf.mem_childrenOf.1 child).unique step)
    refine (inv.waiting q qPending).congr (fun c' child => ?_) (Function.update_of_ne other _ _) ?_
      fun _ cached => isSome_update _ cached
    · simp only [List.mem_singleton, notC c' child, Finset.mem_erase, or_false]
      by_cases isP : c' = p
      · simp [isP, pPending]
      · simp [isP]
    · rw [Function.update_of_ne other]
      exact (inv.waiting q qPending).uncached
  finished x mem := by
    rw [List.mem_singleton.1 mem, Function.update_self]
    exact ⟨Finset.notMem_erase p pending, rfl⟩
  rooted := by
    rcases inv.rooted with queued | pending | uncounted | cached
    · exact Or.inl queued
    · by_cases isP : node = p
      · exact Or.inr (Or.inr (Or.inl (isP ▸ List.mem_singleton_self node)))
      · exact Or.inr (Or.inl (Finset.mem_erase.2 ⟨isP, pending⟩))
    · exact absurd (List.mem_singleton.1 uncounted).symm (inv.ne_node wf step pPending)
    · exact Or.inr (Or.inr (Or.inr (isSome_update _ cached)))

theorem CountInv.finish (inv : CountInv store node initial pending [node] queue count cache) :
    CountInv store node initial pending [] queue count cache where
  correct := inv.correct
  frame := inv.frame
  queue_nodup := inv.queue_nodup
  apart x queued := ⟨(inv.apart x queued).1, List.not_mem_nil⟩
  linked x busy := inv.linked x (busy_widen busy)
  fresh := inv.fresh
  waiting q qPending := by
    have notNode : ∀ c ∈ childrenOf store q, c ≠ node := fun c child isNode =>
      wf.not_below_child (isNode ▸ wf.mem_childrenOf.1 child) (inv.below_of_pending qPending)
    exact (inv.waiting q qPending).congr (fun c child => busy_drop (notNode c child)) rfl
      (inv.waiting q qPending).uncached fun _ cached => cached
  finished _ mem := absurd mem List.not_mem_nil
  rooted := Or.inr (Or.inr (Or.inr (inv.finished node (List.mem_singleton_self node)).2))

theorem CountInv.not_pending (inv : CountInv store node initial pending [] [] count cache) (p : DomainHash) :
    p ∉ pending := by
  induction h : subtreeSize store p using Nat.strong_induction_on generalizing p with
  | _ n ih =>
    intro pPending
    obtain ⟨c, child, busy⟩ := (inv.waiting p pPending).exists_busy
    have cPending : c ∈ pending := by
      rcases busy with queued | pending | uncounted
      · cases queued
      · exact pending
      · cases uncounted
    exact ih _ (h ▸ wf.subtreeSize_lt (wf.mem_childrenOf.1 child)) c rfl cPending

theorem CountInv.counted (inv : CountInv store node initial pending [] [] count cache) :
    Counted store node initial cache where
  correct := inv.correct
  counted := by
    rcases inv.rooted with queued | pending | uncounted | cached
    · cases queued
    · exact absurd pending (inv.not_pending wf node)
    · cases uncounted
    · obtain ⟨v, found⟩ := Option.isSome_iff_exists.1 cached
      rw [found, inv.correct node v Relation.ReflTransGen.refl found]
  frame := inv.frame

end Tree

/-! ### The loops -/

theorem pushUpStep_self {s : PushUpLoop} (atNode : s.current = node) :
    pushUpStep store node s = some (.ok (.inr (s.calculatedChildrenCount, s.subTreeSizesCache))) := by
  simp [pushUpStep, atNode]

theorem pushUpStep_of_parent {s : PushUpLoop} {p : DomainHash} (other : s.current ≠ node)
    (step : TreeParent store p s.current) (pStored : p ∈ store) :
    pushUpStep store node s =
      if Function.update s.calculatedChildrenCount p (s.calculatedChildrenCount p + 1) p ≠
          UInt64.ofNat (childrenOf store p).length then
        some (.ok (.inr (Function.update s.calculatedChildrenCount p (s.calculatedChildrenCount p + 1),
          s.subTreeSizesCache)))
      else
        some (.ok (.inl ⟨p, Function.update s.calculatedChildrenCount p (s.calculatedChildrenCount p + 1),
          Function.update s.subTreeSizesCache p (some ((childrenOf store p).foldl
            (fun sum child => sum + (s.subTreeSizesCache child).getD 0) 0 + 1))⟩)) := by
  simp only [pushUpStep, if_neg other, parent_eq step, children_eq_childrenOf pStored]

theorem countSubtreesStep_nil {fuel : Nat} {count : DomainHash → UInt64}
    {cache : DomainHash → Option UInt64} :
    countSubtreesStep store node fuel ⟨[], count, cache⟩ = some (.ok (.inr cache)) := rfl

theorem countSubtreesStep_cons {fuel : Nat} {y : DomainHash} {queue : List DomainHash}
    {count : DomainHash → UInt64} {cache : DomainHash → Option UInt64} (stored : y ∈ store) :
    countSubtreesStep store node fuel ⟨y :: queue, count, cache⟩ =
      if (childrenOf store y).isEmpty then
        pushUp store node fuel queue ⟨y, count, Function.update cache y (some 1)⟩
      else if (cache y).isNone then
        some (.ok (.inl ⟨queue ++ childrenOf store y, count, cache⟩))
      else pushUp store node fuel queue ⟨y, count, cache⟩ := by
  simp only [countSubtreesStep, children_eq_childrenOf stored]

section Loops

variable {root : DomainHash} (wf : WellFormed store root) (nodeStored : node ∈ store)
include wf nodeStored

theorem loop_pushUpStep {queue : List DomainHash} :
    ∀ fuel (s : PushUpLoop), (∃ pending, CountInv store node initial pending [s.current] queue
        s.calculatedChildrenCount s.subTreeSizesCache ∧
        subtreeSize store node - subtreeSize store s.current < fuel) →
      ∃ r, loop (pushUpStep store node) fuel s = some (.ok r) ∧
        ∃ pending, CountInv store node initial pending [] queue r.1 r.2 := by
  refine loop_eq_ok_of_bound _ _ (fun _ ⟨_, _, exhausted⟩ => Nat.not_lt_zero _ exhausted) ?_
  rintro n ⟨current, count, cache⟩ ⟨pending, inv, measure⟩
  by_cases atNode : current = node
  · subst atNode
    exact Or.inl ⟨(count, cache), pushUpStep_self rfl, pending, inv.finish wf⟩
  · obtain ⟨-, isNode | ⟨p, pPending, step⟩⟩ := inv.linked current (Or.inr (Or.inr List.mem_cons_self))
    · exact absurd isNode atNode
    have pBelow := inv.below_of_pending pPending
    rw [pushUpStep_of_parent atNode step (stored_of_below nodeStored pBelow)]
    split_ifs with notAll
    · exact Or.inl ⟨_, rfl, pending, inv.report wf step pPending notAll⟩
    · refine Or.inr ⟨_, rfl, pending.erase p, inv.complete wf nodeStored step pPending (not_not.1 notAll), ?_⟩
      have larger := wf.subtreeSize_lt step
      have inside := subtreeSize_le pBelow
      simp only at measure ⊢
      omega

theorem pushUp_eq {fuel : Nat} (enough : subtreeSize store node < fuel) {pending : Finset DomainHash}
    {queue : List DomainHash} {current : DomainHash} {count : DomainHash → UInt64}
    {cache : DomainHash → Option UInt64}
    (inv : CountInv store node initial pending [current] queue count cache) :
    ∃ count' cache', pushUp store node fuel queue ⟨current, count, cache⟩ =
        some (.ok (.inl ⟨queue, count', cache'⟩)) ∧
      ∃ pending', CountInv store node initial pending' [] queue count' cache' := by
  obtain ⟨⟨count', cache'⟩, ran, pending', inv'⟩ :=
    loop_pushUpStep wf nodeStored fuel ⟨current, count, cache⟩ ⟨pending, inv, by simp only; omega⟩
  exact ⟨count', cache', by rw [pushUp, ran], pending', inv'⟩

theorem loop_countSubtreesStep {fuel : Nat} (enough : subtreeSize store node < fuel) :
    ∀ n (s : CountLoop), (∃ pending, CountInv store node initial pending [] s.queue
        s.calculatedChildrenCount s.subTreeSizesCache ∧ (s.queue.map (subtreeSize store)).sum < n) →
      ∃ cache, loop (countSubtreesStep store node fuel) n s = some (.ok cache) ∧
        Counted store node initial cache := by
  refine loop_eq_ok_of_bound _ _ (fun _ ⟨_, _, exhausted⟩ => Nat.not_lt_zero _ exhausted) ?_
  rintro n ⟨queue, count, cache⟩ ⟨pending, inv, measure⟩
  cases queue with
  | nil => exact Or.inl ⟨cache, countSubtreesStep_nil, inv.counted wf⟩
  | cons y queue =>
    have stored := stored_of_below nodeStored (inv.below_of_queued List.mem_cons_self)
    have sizePos := subtreeSize_pos stored
    simp only [List.map_cons, List.sum_cons] at measure
    rw [countSubtreesStep_cons stored]
    split_ifs with leaf uncached
    · obtain ⟨count', cache', ran, pending', inv'⟩ := pushUp_eq wf nodeStored enough
        ((inv.leaf wf nodeStored (List.isEmpty_iff.1 leaf)).pop (by simp))
      exact Or.inr ⟨_, ran, pending', inv', by simp only; omega⟩
    · refine Or.inr ⟨_, rfl, insert y pending,
        inv.expand wf (Option.isNone_iff_eq_none.1 uncached) (fun none => by simp [none] at leaf), ?_⟩
      have split := wf.subtreeSize_eq stored
      simp only [List.map_append, List.sum_append]
      omega
    · obtain ⟨count', cache', ran, pending', inv'⟩ := pushUp_eq wf nodeStored enough
        (inv.pop (Option.isSome_iff_ne_none.2 (by simpa using uncached)))
      exact Or.inr ⟨_, ran, pending', inv', by simp only; omega⟩

end Loops

theorem WellFormed.countSubtrees_caches {root : DomainHash} (wf : WellFormed store root)
    (nodeStored : node ∈ store) {rc : ReindexContext}
    (correct : ∀ y v, Relation.ReflTransGen (TreeParent store) node y →
      rc.subTreeSizesCache y = some v → v = UInt64.ofNat (subtreeSize store y))
    {fuel : Nat} (enough : subtreeSize store node < fuel) :
    ∃ rc', countSubtrees store fuel rc node = some (.ok rc') ∧
      (∀ y v, Relation.ReflTransGen (TreeParent store) node y →
        rc'.subTreeSizesCache y = some v → v = UInt64.ofNat (subtreeSize store y)) ∧
      rc'.subTreeSizesCache node = some (UInt64.ofNat (subtreeSize store node)) ∧
      ∀ y, ¬ Relation.ReflTransGen (TreeParent store) node y →
        rc'.subTreeSizesCache y = rc.subTreeSizesCache y := by
  unfold countSubtrees
  by_cases cached : (rc.subTreeSizesCache node).isSome
  · obtain ⟨v, found⟩ := Option.isSome_iff_exists.1 cached
    refine ⟨rc, by rw [if_pos cached], correct, ?_, fun _ _ => rfl⟩
    rw [found, correct node v Relation.ReflTransGen.refl found]
  · obtain ⟨cache, ran, counted⟩ := loop_countSubtreesStep wf nodeStored enough fuel
      ⟨[node], fun _ => 0, rc.subTreeSizesCache⟩ ⟨∅, countInv_start correct, by simpa using enough⟩
    exact ⟨⟨cache⟩, by rw [if_neg cached, ran], counted.correct, counted.counted, counted.frame⟩

end ReachabilityManager
