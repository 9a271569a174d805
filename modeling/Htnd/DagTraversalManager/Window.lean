import Htnd.SyncManager.SortedMergeSet
import Htnd.FinalityManager.FinalityPoint
import Htnd.Lib.TopK
import Mathlib.Data.Prod.Lex

/-!
The window of blocks under a block (dagtraversalmanager: window.go, block_heap.go): the
`windowSize` blocks of its past, less the genesis, that `Less` ranks highest, by blue work and
then by hash. `calculateBlockWindowHeap` pushes blocks into a heap that keeps at most
`windowSize` of them. It takes the window of the selected parent from the window heap slice
store when that holds it, and pushes the selected parent and the merge set on it; otherwise it
walks down the selected chain, pushing the selected parent and the merge set of each chain
block, until it reaches the genesis or a selected parent that the full heap rejects. A block
that carries a trusted DAA window takes that window instead.

`container/heap` is modelled by what it guarantees: the slice is kept in ascending order of
`Less`, an order in which every parent comes before its children, `Push` inserts in that order
and `Pop` removes the first element, the least. The window heap slice store holds slices with
their capacity, as Go slices carry it, and reads what is staged in it. The DAA window store
answers `none` where Go returns a not-found error.
-/
namespace DagTraversal
open GoSemantics Utxo Ghostdag Dag

structure BlockGHOSTDAGDataHashPair where
  hash : DomainHash
  ghostdagData : BlockGHOSTDAGData

def pairLess (left right : BlockGHOSTDAGDataHashPair) : Bool :=
  Less left.hash left.ghostdagData right.hash right.ghostdagData

/-- A `sizedUpBlockHeap`: the slice of its up-heap and the slice's capacity, the window size
    `newSizedUpHeap` makes it with. -/
structure SizedUpBlockHeap where
  slice : List BlockGHOSTDAGDataHashPair
  capacity : Nat

def newSizedUpHeap (capacity : Nat) : SizedUpBlockHeap := ⟨[], capacity⟩

/-- `newSizedUpHeapFromSlice`: a clone of the slice, of the same length and capacity. -/
def newSizedUpHeapFromSlice (windowHeapSlice : SizedUpBlockHeap) : SizedUpBlockHeap :=
  ⟨windowHeapSlice.slice, windowHeapSlice.capacity⟩

def heapPush (slice : List BlockGHOSTDAGDataHashPair) (node : BlockGHOSTDAGDataHashPair) :
    List BlockGHOSTDAGDataHashPair :=
  slice.orderedInsert (fun a b => pairLess b a = false) node

def heapPop (slice : List BlockGHOSTDAGDataHashPair) : List BlockGHOSTDAGDataHashPair :=
  slice.tail

/-- `peek`: the least element, `h.slice[0]`. -/
def peek (heap : SizedUpBlockHeap) : Except Panic BlockGHOSTDAGDataHashPair :=
  sliceIndex heap.slice 0

def tryPushWithGHOSTDAGData (heap : SizedUpBlockHeap) (blockHash : DomainHash)
    (ghostdagData : BlockGHOSTDAGData) : Except Panic (Bool × SizedUpBlockHeap) :=
  let node : BlockGHOSTDAGDataHashPair := ⟨blockHash, ghostdagData⟩
  if heap.slice.length = heap.capacity then do
    let min ← peek heap
    if pairLess node min then pure (false, heap)
    else pure (true, { heap with slice := heapPush (heapPop heap.slice) node })
  else pure (true, { heap with slice := heapPush heap.slice node })

inductive WindowError where
  /-- A read of the GHOSTDAG data store that finds nothing. -/
  | ghostdag (error : GhostdagError)
  | panic (panic : Panic)

abbrev WindowM := ExceptT WindowError Option

def ofPanic {α : Type} : Except Panic α → WindowM α
  | .ok a => pure a
  | .error p => throw (.panic p)

/-- The selected parent of a block's data, which the store is read with; the genesis's is a nil
    pointer. -/
def selectedParentHash (data : BlockGHOSTDAGData) : WindowM DomainHash :=
  match data.selectedParent with
  | none => throw (.panic .nilPointerDereference)
  | some selectedParent => pure selectedParent

/-- The fields of the Go `dagTraversalManager` that the window reads. -/
structure DagTraversalManager where
  ghostdagManager : GhostdagManager
  daaWindowStore : DomainHash → Nat → Option BlockGHOSTDAGDataHashPair
  /-- The window heap slice store, by block and window size. -/
  windowHeapSliceStore : DomainHash → Nat → Option SizedUpBlockHeap

structure WindowWalk where
  current : DomainHash
  currentGHOSTDAGData : BlockGHOSTDAGData
  currentTrustedPair0 : Option BlockGHOSTDAGDataHashPair
  windowHeap : SizedUpBlockHeap

namespace DagTraversalManager
variable (dtm : DagTraversalManager)

def getGHOSTDAGData (blockHash : DomainHash) : WindowM BlockGHOSTDAGData :=
  match dtm.ghostdagManager.dataOf blockHash with
  | none => throw (.ghostdag (.notFound blockHash))
  | some data => pure data

def tryPush (heap : SizedUpBlockHeap) (blockHash : DomainHash) :
    WindowM (Bool × SizedUpBlockHeap) := do
  let ghostdagData ← dtm.getGHOSTDAGData blockHash
  ofPanic (tryPushWithGHOSTDAGData heap blockHash ghostdagData)

def pushUntilRejected (heap : SizedUpBlockHeap) : List DomainHash → WindowM SizedUpBlockHeap
  | [] => pure heap
  | block :: rest => do
    let (added, heap) ← dtm.tryPush heap block
    if !added then pure heap else pushUntilRejected heap rest

def tryPushMergeSet (windowHeap : SizedUpBlockHeap)
    (currentGHOSTDAGData selectedParentGHOSTDAGData : BlockGHOSTDAGData) :
    WindowM (Bool × SizedUpBlockHeap) := do
  let selectedParent ← selectedParentHash currentGHOSTDAGData
  let (added, windowHeap) ←
    ofPanic (tryPushWithGHOSTDAGData windowHeap selectedParent selectedParentGHOSTDAGData)
  if !added then pure (true, windowHeap)
  else do
    let mergeSetBlues ← ofPanic (sliceFrom currentGHOSTDAGData.mergeSetBlues 1)
    let windowHeap ← dtm.pushUntilRejected windowHeap mergeSetBlues.reverse
    let windowHeap ← dtm.pushUntilRejected windowHeap currentGHOSTDAGData.mergeSetReds.reverse
    pure (false, windowHeap)

def trustedWindowStep (current : DomainHash) :
    Nat × SizedUpBlockHeap → WindowM ((Nat × SizedUpBlockHeap) ⊕ SizedUpBlockHeap)
  | (i, heap) =>
    match dtm.daaWindowStore current i with
    | none => pure (.inr heap)
    | some daaBlock => do
      let (_, heap) ← ofPanic (tryPushWithGHOSTDAGData heap daaBlock.hash daaBlock.ghostdagData)
      pure (.inl (i + 1, heap))

def walkStep (fuel : Nat) (s : WindowWalk) : WindowM (WindowWalk ⊕ SizedUpBlockHeap) :=
  if s.currentGHOSTDAGData.selectedParent = some dtm.ghostdagManager.genesisHash then
    pure (.inr s.windowHeap)
  else
    match s.currentTrustedPair0 with
    | some pair0 => do
      -- a block with a trusted DAA window completes the window with it
      let (_, heap) ← ofPanic (tryPushWithGHOSTDAGData s.windowHeap pair0.hash pair0.ghostdagData)
      let heap ← ExceptT.mk (loop (fun t => (dtm.trustedWindowStep s.current t).run) fuel (1, heap))
      pure (.inr heap)
    | none => do
      let selectedParent ← selectedParentHash s.currentGHOSTDAGData
      let selectedParentGHOSTDAGData ← dtm.getGHOSTDAGData selectedParent
      let (done, heap) ←
        dtm.tryPushMergeSet s.windowHeap s.currentGHOSTDAGData selectedParentGHOSTDAGData
      if done then pure (.inr heap)
      else pure (.inl ⟨selectedParent, selectedParentGHOSTDAGData,
        dtm.daaWindowStore selectedParent 0, heap⟩)

def walkWindow (fuel : Nat) (highHash : DomainHash) (currentGHOSTDAGData : BlockGHOSTDAGData)
    (windowSize : Nat) : WindowM SizedUpBlockHeap :=
  ExceptT.mk (loop (fun s => (dtm.walkStep fuel s).run) fuel
    ⟨highHash, currentGHOSTDAGData, dtm.daaWindowStore highHash 0, newSizedUpHeap windowSize⟩)

def windowFromSelectedParent (currentGHOSTDAGData : BlockGHOSTDAGData)
    (selectedParent : DomainHash) (windowHeapSlice : SizedUpBlockHeap) :
    WindowM SizedUpBlockHeap :=
  let windowHeap := newSizedUpHeapFromSlice windowHeapSlice
  if selectedParent = dtm.ghostdagManager.genesisHash then pure windowHeap
  else do
    let selectedParentGHOSTDAGData ← dtm.getGHOSTDAGData selectedParent
    let (_, windowHeap) ←
      dtm.tryPushMergeSet windowHeap currentGHOSTDAGData selectedParentGHOSTDAGData
    pure windowHeap

def calculateBlockWindowHeap (fuel : Nat) (highHash : DomainHash) (windowSize : Nat) :
    WindowM SizedUpBlockHeap :=
  if highHash = dtm.ghostdagManager.genesisHash then pure (newSizedUpHeap windowSize)
  else if windowSize = 0 then pure (newSizedUpHeap windowSize)
  else do
    let currentGHOSTDAGData ← dtm.getGHOSTDAGData highHash
    match dtm.daaWindowStore highHash 0, currentGHOSTDAGData.selectedParent with
    | none, some selectedParent =>
      match dtm.windowHeapSliceStore selectedParent windowSize with
      | some windowHeapSlice =>
        dtm.windowFromSelectedParent currentGHOSTDAGData selectedParent windowHeapSlice
      | none => dtm.walkWindow fuel highHash currentGHOSTDAGData windowSize
    | _, _ => dtm.walkWindow fuel highHash currentGHOSTDAGData windowSize

/-- `Stage` of the window heap slice store. -/
def stageWindowHeapSlice (blockHash : DomainHash) (windowSize : Nat)
    (heapSlice : SizedUpBlockHeap) : DagTraversalManager :=
  { dtm with windowHeapSliceStore := fun b n =>
      if b = blockHash ∧ n = windowSize then some heapSlice else dtm.windowHeapSliceStore b n }

def blockWindowHeap (fuel : Nat) (highHash : DomainHash) (windowSize : Nat) :
    WindowM (SizedUpBlockHeap × DagTraversalManager) :=
  match dtm.windowHeapSliceStore highHash windowSize with
  | some windowHeapSlice => pure (newSizedUpHeapFromSlice windowHeapSlice, dtm)
  | none => do
    let heap ← dtm.calculateBlockWindowHeap fuel highHash windowSize
    if highHash = Finality.virtualBlockHash then pure (heap, dtm)
    else pure (heap, dtm.stageWindowHeapSlice highHash windowSize heap)

/-- `BlockWindow`: the hashes of the heap's slice, in its order. -/
def blockWindow (fuel : Nat) (highHash : DomainHash) (windowSize : Nat) :
    WindowM (List DomainHash × DagTraversalManager) := do
  let (windowHeap, dtm) ← dtm.blockWindowHeap fuel highHash windowSize
  pure (windowHeap.slice.map (·.hash), dtm)

end DagTraversalManager

/-! ### The order of the window -/

def pairKey (pair : BlockGHOSTDAGDataHashPair) : Lex (Nat × Nat) :=
  toLex (pair.ghostdagData.blueWork, pair.hash.value.val)

theorem pairLess_eq_true_iff {a b : BlockGHOSTDAGDataHashPair} :
    pairLess a b = true ↔ pairKey a < pairKey b := by
  rw [pairLess, less_eq_true_iff, pairKey, pairKey, Prod.Lex.toLex_lt_toLex]

def windowKey (gm : GhostdagManager) (blockHash : DomainHash) : Lex (Nat × Nat) :=
  toLex (((gm.dataOf blockHash).map (·.blueWork)).getD 0, blockHash.value.val)

section Keys

variable {gm : GhostdagManager}

theorem pairKey_eq {pair : BlockGHOSTDAGDataHashPair}
    (found : gm.dataOf pair.hash = some pair.ghostdagData) :
    pairKey pair = windowKey gm pair.hash := by
  simp [pairKey, windowKey, found]

theorem pairKey_of_found {x : DomainHash} {dx : BlockGHOSTDAGData} (found : gm.dataOf x = some dx) :
    pairKey ⟨x, dx⟩ = windowKey gm x :=
  pairKey_eq found

theorem windowKey_injective : Function.Injective (windowKey gm) := by
  intro a b same
  have values : a.value.val = b.value.val := congrArg (fun key => (ofLex key).2) same
  by_contra apart
  exact DomainHash.value_val_ne apart values

theorem less_iff_windowKey_lt {a b : DomainHash} {da db : BlockGHOSTDAGData}
    (aFound : gm.dataOf a = some da) (bFound : gm.dataOf b = some db) :
    Less a da b db = true ↔ windowKey gm a < windowKey gm b := by
  rw [less_eq_true_iff, windowKey, windowKey, aFound, bFound, Prod.Lex.toLex_lt_toLex]
  rfl

end Keys

/-! ### The heap -/

/-- A slice in ascending order of `Less`. -/
def Ascending (slice : List BlockGHOSTDAGDataHashPair) : Prop :=
  slice.Pairwise fun a b => pairKey a < pairKey b

theorem mem_heapPush {slice : List BlockGHOSTDAGDataHashPair} {node x : BlockGHOSTDAGDataHashPair} :
    x ∈ heapPush slice node ↔ x = node ∨ x ∈ slice :=
  List.mem_orderedInsert _

theorem Ascending.heapPush {slice : List BlockGHOSTDAGDataHashPair} (ascending : Ascending slice)
    {node : BlockGHOSTDAGDataHashPair} (apart : ∀ y ∈ slice, pairKey y ≠ pairKey node) :
    Ascending (DagTraversal.heapPush slice node) := by
  unfold Ascending DagTraversal.heapPush
  exact TopK.pairwise_orderedInsert
    (fun a b => by rw [Bool.eq_false_iff, ne_eq, pairLess_eq_true_iff, not_lt]) ascending apart

/-- A heap that keeps the blocks `W`: its capacity is the window size, its slice is in ascending
    order, each pair holds its block's data from the store, and its hashes are those of `W`. -/
structure HeapHolds (gm : GhostdagManager) (windowSize : Nat) (heap : SizedUpBlockHeap)
    (W : Finset DomainHash) : Prop where
  capacity_eq : heap.capacity = windowSize
  ascending : Ascending heap.slice
  data : ∀ pair ∈ heap.slice, gm.dataOf pair.hash = some pair.ghostdagData
  hashes_eq : (heap.slice.map (·.hash)).toFinset = W

section HeapHolds

variable {gm : GhostdagManager} {n : Nat} {heap : SizedUpBlockHeap} {W : Finset DomainHash}

theorem heapHolds_new (n : Nat) : HeapHolds gm n (newSizedUpHeap n) ∅ :=
  ⟨rfl, List.Pairwise.nil, fun _ mem => absurd mem List.not_mem_nil, rfl⟩

namespace HeapHolds

theorem mem_iff (holds : HeapHolds gm n heap W) {x : DomainHash} :
    x ∈ W ↔ ∃ pair ∈ heap.slice, pair.hash = x := by
  rw [← holds.hashes_eq]
  simp

theorem nodup (holds : HeapHolds gm n heap W) : (heap.slice.map (·.hash)).Nodup := by
  rw [List.Nodup, List.pairwise_map]
  refine holds.ascending.imp_of_mem fun {a b} aMem bMem below same => ?_
  have keys : pairKey a = pairKey b := by
    rw [pairKey_eq (holds.data _ aMem), pairKey_eq (holds.data _ bMem), same]
  exact lt_irrefl _ (keys ▸ below)

theorem length_eq (holds : HeapHolds gm n heap W) : heap.slice.length = W.card := by
  rw [← holds.hashes_eq, List.toFinset_card_of_nodup holds.nodup, List.length_map]

theorem push (holds : HeapHolds gm n heap W) {x : DomainHash} (fresh : x ∉ W)
    {dx : BlockGHOSTDAGData} (found : gm.dataOf x = some dx) :
    HeapHolds gm n { heap with slice := heapPush heap.slice ⟨x, dx⟩ } (insert x W) where
  capacity_eq := holds.capacity_eq
  ascending := holds.ascending.heapPush fun y mem same => by
    rw [pairKey_eq (holds.data y mem), pairKey_of_found found] at same
    exact fresh (windowKey_injective same ▸ holds.mem_iff.2 ⟨y, mem, rfl⟩)
  data pair mem := by
    rcases mem_heapPush.1 mem with rfl | old
    · exact found
    · exact holds.data pair old
  hashes_eq := by
    ext z
    rw [Finset.mem_insert, holds.mem_iff, List.mem_toFinset, List.mem_map]
    constructor
    · rintro ⟨pair, mem, rfl⟩
      rcases mem_heapPush.1 mem with rfl | old
      · exact .inl rfl
      · exact .inr ⟨pair, old, rfl⟩
    · rintro (rfl | ⟨pair, old, rfl⟩)
      · exact ⟨⟨z, dx⟩, mem_heapPush.2 (.inl rfl), rfl⟩
      · exact ⟨pair, mem_heapPush.2 (.inr old), rfl⟩

section Least

variable {least : BlockGHOSTDAGDataHashPair} {rest : List BlockGHOSTDAGDataHashPair}

theorem least_mem (holds : HeapHolds gm n heap W) (first : heap.slice = least :: rest) :
    least.hash ∈ W :=
  holds.mem_iff.2 ⟨least, first ▸ List.mem_cons_self, rfl⟩

theorem least_below (holds : HeapHolds gm n heap W) (first : heap.slice = least :: rest) :
    ∀ y ∈ W, y ≠ least.hash → windowKey gm least.hash < windowKey gm y := by
  intro y kept other
  obtain ⟨pair, mem, rfl⟩ := holds.mem_iff.1 kept
  have ordered := holds.ascending
  rw [Ascending, first] at ordered
  rw [first] at mem
  rcases List.mem_cons.1 mem with rfl | later
  · exact absurd rfl other
  · rw [← pairKey_eq (holds.data least (first ▸ List.mem_cons_self)),
      ← pairKey_eq (holds.data pair (first ▸ List.mem_cons_of_mem least later))]
    exact List.rel_of_pairwise_cons ordered later

theorem pop (holds : HeapHolds gm n heap W) (first : heap.slice = least :: rest) :
    HeapHolds gm n { heap with slice := heapPop heap.slice } (W.erase least.hash) where
  capacity_eq := holds.capacity_eq
  ascending := by
    have ordered := holds.ascending
    rw [Ascending, first] at ordered
    rw [first]
    exact (List.pairwise_cons.1 ordered).2
  data pair mem := holds.data pair (by rw [first] at mem ⊢; exact List.mem_cons_of_mem least mem)
  hashes_eq := by
    have once := holds.nodup
    rw [first, List.map_cons, List.nodup_cons] at once
    rw [← holds.hashes_eq, first, List.map_cons, List.toFinset_cons,
      Finset.erase_insert (by simpa using once.1)]
    rfl

end Least

end HeapHolds

end HeapHolds

/-! ### One push -/

section TryPush

variable {gm : GhostdagManager} {n : Nat} {heap : SizedUpBlockHeap} {S W : Finset DomainHash}

theorem tryPushWithGHOSTDAGData_spec (holds : HeapHolds gm n heap W)
    (top : TopK.IsTop (windowKey gm) n S W) (positive : 0 < n) {x : DomainHash} (fresh : x ∉ S)
    {dx : BlockGHOSTDAGData} (found : gm.dataOf x = some dx) :
    ∃ added heap' W', tryPushWithGHOSTDAGData heap x dx = .ok (added, heap') ∧
      HeapHolds gm n heap' W' ∧ TopK.IsTop (windowKey gm) n (insert x S) W' ∧
      (added = false → heap' = heap ∧ W' = W ∧ W.card = n ∧
        ∀ w ∈ W, windowKey gm x < windowKey gm w) := by
  have notKept : x ∉ W := fun mem => fresh (top.subset mem)
  by_cases full : heap.slice.length = heap.capacity
  · have count : W.card = n := by rw [← holds.length_eq, full, holds.capacity_eq]
    obtain ⟨least, rest, first⟩ : ∃ least rest, heap.slice = least :: rest := by
      cases slice : heap.slice with
      | nil =>
        rw [slice, List.length_nil, holds.capacity_eq] at full
        omega
      | cons least rest => exact ⟨least, rest, rfl⟩
    have leastFound := holds.data least (first ▸ List.mem_cons_self)
    have leastKept := holds.least_mem first
    have peeked : peek heap = .ok least := by rw [peek, first, sliceIndex_zero_cons]
    by_cases below : pairLess ⟨x, dx⟩ least = true
    · -- the block is below the least kept one, so below all of them
      have xBelow : windowKey gm x < windowKey gm least.hash := by
        rwa [pairLess_eq_true_iff, pairKey_of_found found, pairKey_eq leastFound] at below
      have belowAll : ∀ w ∈ W, windowKey gm x < windowKey gm w := by
        intro w kept
        by_cases same : w = least.hash
        · exact same ▸ xBelow
        · exact xBelow.trans (holds.least_below first w kept same)
      refine ⟨false, heap, W, ?_, holds, top.insert_of_lt count belowAll,
        fun _ => ⟨rfl, rfl, count, belowAll⟩⟩
      simp only [tryPushWithGHOSTDAGData, if_pos full, peeked, bind, Except.bind, if_pos below]
      rfl
    · -- the block is above the least kept one, and takes its place
      have xAbove : windowKey gm least.hash < windowKey gm x := by
        have notBelow : ¬ pairKey ⟨x, dx⟩ < pairKey least := fun lt => below (pairLess_eq_true_iff.2 lt)
        rw [pairKey_of_found found, pairKey_eq leastFound] at notBelow
        exact lt_of_le_of_ne (not_lt.1 notBelow) fun same =>
          notKept (windowKey_injective same ▸ leastKept)
      refine ⟨true, _, _, ?_, ((holds.pop first).push (fun mem => notKept
          (Finset.mem_of_mem_erase mem)) found),
        top.insert_replace count leastKept (holds.least_below first) fresh xAbove,
        fun added => absurd added Bool.noConfusion⟩
      simp only [tryPushWithGHOSTDAGData, if_pos full, peeked, bind, Except.bind, if_neg below]
      rfl
  · have room : W.card < n := by
      have := holds.length_eq
      have := holds.capacity_eq
      have := top.card_le
      omega
    refine ⟨true, _, _, ?_, holds.push notKept found, top.insert_of_card_lt room fresh,
      fun added => absurd added Bool.noConfusion⟩
    simp only [tryPushWithGHOSTDAGData, if_neg full]
    rfl

end TryPush

/-! ### What the window reads of the GHOSTDAG data -/

open Classical in
noncomputable def pastIn (gm : GhostdagManager) (blocks : Finset DomainHash) (blockHash : DomainHash) :
    Finset DomainHash :=
  blocks.filter fun x => Past gm.parents x blockHash

theorem mem_pastIn {gm : GhostdagManager} {blocks : Finset DomainHash} {x b : DomainHash} :
    x ∈ pastIn gm blocks b ↔ x ∈ blocks ∧ Past gm.parents x b := by
  classical
  simp [pastIn]

theorem pastIn_mono {gm : GhostdagManager} {blocks : Finset DomainHash} {a b : DomainHash}
    (below : PastOrSelf gm.parents a b) : pastIn gm blocks a ⊆ pastIn gm blocks b := fun x mem => by
  obtain ⟨xMem, past⟩ := mem_pastIn.1 mem
  exact mem_pastIn.2 ⟨xMem, past.trans_pastOrSelf below⟩

noncomputable def windowPast (gm : GhostdagManager) (blocks : Finset DomainHash)
    (blockHash : DomainHash) : Finset DomainHash :=
  (pastIn gm blocks blockHash).erase gm.genesisHash

structure WindowData (gm : GhostdagManager) (blocks : Finset DomainHash) : Prop where
  acyclic : Acyclic gm.parents
  closed : ∀ b ∈ blocks, ∀ p ∈ gm.parents b, p ∈ blocks
  genesis_parents : gm.parents gm.genesisHash = []
  genesis_pastOrSelf : ∀ b ∈ blocks, PastOrSelf gm.parents gm.genesisHash b
  found : ∀ b ∈ blocks, ∃ d, gm.dataOf b = some d
  scores : ∀ b ∈ blocks, b ≠ gm.genesisHash →
    ∃ d sp spData, gm.dataOf b = some d ∧ MergeSetScores gm b sp d spData
  less_of_past : ∀ x ∈ blocks, ∀ y ∈ blocks, Past gm.parents x y → ∀ dx dy,
    gm.dataOf x = some dx → gm.dataOf y = some dy → Less x dx y dy = true
  sorted : ∀ b ∈ blocks, ∀ d, gm.dataOf b = some d →
    SortedByLess gm.dataOf d.mergeSetBlues.tail ∧ SortedByLess gm.dataOf d.mergeSetReds

namespace WindowData

variable {gm : GhostdagManager} {blocks : Finset DomainHash} (data : WindowData gm blocks)
include data

theorem mem_of_past {x b : DomainHash} (mem : b ∈ blocks) (past : Past gm.parents x b) :
    x ∈ blocks :=
  mem_of_pastOrSelf (S := (blocks : Set DomainHash)) data.closed mem past.pastOrSelf

theorem pastIn_genesis : pastIn gm blocks gm.genesisHash = ∅ := by
  ext x
  simp only [mem_pastIn, Finset.notMem_empty, iff_false, not_and]
  intro _ past
  obtain ⟨p, parent, _⟩ := past_iff_exists_parent.1 past
  rw [data.genesis_parents] at parent
  exact absurd parent List.not_mem_nil

theorem genesis_mem_pastIn {b : DomainHash} (mem : b ∈ blocks) (notGenesis : b ≠ gm.genesisHash) :
    gm.genesisHash ∈ pastIn gm blocks b :=
  mem_pastIn.2 ⟨mem_of_pastOrSelf (S := (blocks : Set DomainHash)) data.closed mem
    (data.genesis_pastOrSelf b mem),
    ((pastOrSelf_iff.1 (data.genesis_pastOrSelf b mem)).resolve_left (Ne.symm notGenesis))⟩

theorem windowKey_lt_of_past {x y : DomainHash} (mem : y ∈ blocks) (past : Past gm.parents x y) :
    windowKey gm x < windowKey gm y := by
  have xMem := data.mem_of_past mem past
  obtain ⟨dx, xFound⟩ := data.found x xMem
  obtain ⟨dy, yFound⟩ := data.found y mem
  exact (less_iff_windowKey_lt xFound yFound).1
    (data.less_of_past x xMem y mem past dx dy xFound yFound)

theorem windowPast_genesis : windowPast gm blocks gm.genesisHash = ∅ := by
  rw [windowPast, data.pastIn_genesis, Finset.erase_empty]

theorem card_pastIn_lt_card {b : DomainHash} (mem : b ∈ blocks) :
    (pastIn gm blocks b).card < blocks.card :=
  Finset.card_lt_card ((Finset.ssubset_iff_of_subset fun _ past => (mem_pastIn.1 past).1).2
    ⟨b, mem, fun past => data.acyclic b (mem_pastIn.1 past).2⟩)

theorem card_pastIn_lt {a b : DomainHash} (mem : b ∈ blocks) (past : Past gm.parents a b) :
    (pastIn gm blocks a).card < (pastIn gm blocks b).card := by
  refine Finset.card_lt_card ((Finset.ssubset_iff_of_subset (pastIn_mono past.pastOrSelf)).2 ?_)
  exact ⟨a, mem_pastIn.2 ⟨data.mem_of_past mem past, past⟩,
    fun below => data.acyclic a (mem_pastIn.1 below).2⟩

theorem sdiff_union_windowPast {a b : DomainHash} (mem : a ∈ blocks) (notGenesis : a ≠ gm.genesisHash)
    (below : PastOrSelf gm.parents a b) :
    pastIn gm blocks b \ pastIn gm blocks a ∪ windowPast gm blocks a = windowPast gm blocks b := by
  have genesis := data.genesis_mem_pastIn mem notGenesis
  have within : pastIn gm blocks a ⊆ pastIn gm blocks b := pastIn_mono below
  ext x
  simp only [windowPast, Finset.mem_union, Finset.mem_sdiff, Finset.mem_erase]
  constructor
  · rintro (⟨xIn, xOut⟩ | ⟨notG, xIn⟩)
    · exact ⟨fun same => xOut (same ▸ genesis), xIn⟩
    · exact ⟨notG, within xIn⟩
  · rintro ⟨notG, xIn⟩
    by_cases lower : x ∈ pastIn gm blocks a
    · exact .inr ⟨notG, lower⟩
    · exact .inl ⟨xIn, lower⟩

theorem sorted_keys {l : List DomainHash} (sorted : SortedByLess gm.dataOf l)
    (within : ∀ x ∈ l, x ∈ blocks) : l.Pairwise fun a b => windowKey gm a < windowKey gm b := by
  refine sorted.imp_of_mem fun {a b} aMem bMem less => ?_
  obtain ⟨da, aFound⟩ := data.found a (within a aMem)
  obtain ⟨db, bFound⟩ := data.found b (within b bMem)
  exact (less_iff_windowKey_lt aFound bFound).1 (less da db aFound bFound)

section Link

variable {b sp : DomainHash} {d spData : BlockGHOSTDAGData} (mem : b ∈ blocks)
  (scores : MergeSetScores gm b sp d spData)
include mem scores

theorem selectedParent_mem : sp ∈ blocks :=
  data.closed b mem sp scores.selectedAmong.1

theorem mem_mergeSet_iff {x : DomainHash} :
    x ∈ d.mergeSetBlues ++ d.mergeSetReds ↔ x ∈ pastIn gm blocks b \ pastIn gm blocks sp := by
  rw [scores.mem_iff x, Finset.mem_sdiff, mem_pastIn, mem_pastIn]
  constructor
  · rintro (rfl | ⟨past, notBelow⟩)
    · exact ⟨⟨data.selectedParent_mem mem scores, past_of_mem_parents scores.selectedAmong.1⟩,
        fun below => data.acyclic x below.2⟩
    · exact ⟨⟨data.mem_of_past mem past, past⟩, fun below => notBelow below.2.pastOrSelf⟩
  · rintro ⟨⟨_, past⟩, notBelow⟩
    by_cases same : x = sp
    · exact .inl same
    · exact .inr ⟨past, fun below =>
        (pastOrSelf_iff.1 below).elim same fun strict => notBelow ⟨data.mem_of_past mem past, strict⟩⟩

theorem windowKey_lt_selectedParent {y : DomainHash} (past : Past gm.parents y b)
    (other : y ≠ sp) : windowKey gm y < windowKey gm sp := by
  have spMem := data.selectedParent_mem mem scores
  obtain ⟨p, parent, below⟩ := past_iff_exists_parent.1 past
  have pMem := data.closed b mem p parent
  have pBelow : p = sp ∨ windowKey gm p < windowKey gm sp := by
    by_cases same : p = sp
    · exact .inl same
    · obtain ⟨pData, spData', pFound, spFound, less⟩ := scores.selectedAmong.2 p parent same
      exact .inr ((less_iff_windowKey_lt pFound spFound).1 less)
  rcases pastOrSelf_iff.1 below with rfl | strict
  · exact pBelow.resolve_left other
  · rcases pBelow with rfl | lower
    · exact data.windowKey_lt_of_past spMem strict
    · exact (data.windowKey_lt_of_past pMem strict).trans lower

theorem windowKey_le_selectedParent {y : DomainHash} (past : y ∈ pastIn gm blocks b) :
    windowKey gm y ≤ windowKey gm sp := by
  by_cases same : y = sp
  · exact same ▸ le_refl _
  · exact (data.windowKey_lt_selectedParent mem scores (mem_pastIn.1 past).2 same).le

theorem pastIn_of_genesis (genesis : sp = gm.genesisHash) :
    pastIn gm blocks b = {gm.genesisHash} := by
  ext y
  rw [Finset.mem_singleton]
  constructor
  · intro past
    by_contra other
    obtain ⟨yMem, yPast⟩ := mem_pastIn.1 past
    have above := data.windowKey_lt_of_past yMem
      ((pastOrSelf_iff.1 (data.genesis_pastOrSelf y yMem)).resolve_left (Ne.symm other))
    exact absurd (data.windowKey_le_selectedParent mem scores past) (genesis ▸ not_le.2 above)
  · rintro rfl
    exact data.genesis_mem_pastIn mem fun same =>
      data.acyclic _ (same ▸ genesis ▸ past_of_mem_parents scores.selectedAmong.1)

end Link

end WindowData

/-! ### The pushes of a merge set -/

namespace DagTraversalManager

variable {dtm : DagTraversalManager}

theorem getGHOSTDAGData_of_found {b : DomainHash} {d : BlockGHOSTDAGData}
    (found : dtm.ghostdagManager.dataOf b = some d) : dtm.getGHOSTDAGData b = pure d := by
  simp [getGHOSTDAGData, found]

theorem ofPanic_ok {α : Type} (a : α) : ofPanic (.ok a) = pure a := rfl

theorem selectedParentHash_of_some {d : BlockGHOSTDAGData} {sp : DomainHash}
    (selected : d.selectedParent = some sp) : selectedParentHash d = pure sp := by
  simp [selectedParentHash, selected]

theorem tryPush_of_found {heap : SizedUpBlockHeap} {b : DomainHash} {d : BlockGHOSTDAGData}
    (found : dtm.ghostdagManager.dataOf b = some d) :
    dtm.tryPush heap b = ofPanic (tryPushWithGHOSTDAGData heap b d) := by
  simp [tryPush, getGHOSTDAGData_of_found found]

section MergeSet

variable {blocks : Finset DomainHash} (data : WindowData dtm.ghostdagManager blocks) {n : Nat}
  (positive : 0 < n)
include data positive

theorem pushUntilRejected_spec :
    ∀ (l : List DomainHash) {heap : SizedUpBlockHeap} {S W : Finset DomainHash},
      HeapHolds dtm.ghostdagManager n heap W →
      TopK.IsTop (windowKey dtm.ghostdagManager) n S W →
      (∀ x ∈ l, x ∈ blocks) → (∀ x ∈ l, x ∉ S) →
      l.Pairwise (fun a b => windowKey dtm.ghostdagManager b < windowKey dtm.ghostdagManager a) →
      ∃ heap' W', dtm.pushUntilRejected heap l = pure heap' ∧
        HeapHolds dtm.ghostdagManager n heap' W' ∧
        TopK.IsTop (windowKey dtm.ghostdagManager) n (S ∪ l.toFinset) W'
  | [], heap, S, W, holds, top, _, _, _ => ⟨heap, W, rfl, holds, by simpa using top⟩
  | x :: rest, heap, S, W, holds, top, within, outside, descending => by
    obtain ⟨xAbove, restDescending⟩ := List.pairwise_cons.1 descending
    obtain ⟨dx, found⟩ := data.found x (within x List.mem_cons_self)
    obtain ⟨added, heap₁, W₁, pushed, holds₁, top₁, rejected⟩ :=
      tryPushWithGHOSTDAGData_spec holds top positive (outside x List.mem_cons_self) found
    have united : S ∪ (x :: rest).toFinset = insert x S ∪ rest.toFinset := by
      rw [List.toFinset_cons, Finset.union_insert, Finset.insert_union]
    have step : dtm.pushUntilRejected heap (x :: rest) =
        if !added then pure heap₁ else dtm.pushUntilRejected heap₁ rest := by
      simp only [pushUntilRejected, tryPush_of_found found, pushed, ofPanic_ok, pure_bind]
    rw [united]
    cases added with
    | false =>
      obtain ⟨rfl, rfl, count, belowAll⟩ := rejected rfl
      refine ⟨heap₁, W₁, by rw [step]; rfl, holds, top₁.union_of_lt count fun y mem w kept => ?_⟩
      exact (xAbove y (List.mem_toFinset.1 mem)).trans (belowAll w kept)
    | true =>
      have fresh : ∀ y ∈ rest, y ∉ insert x S := by
        intro y mem
        rw [Finset.mem_insert, not_or]
        exact ⟨fun same => lt_irrefl _ (same ▸ xAbove y mem),
          outside y (List.mem_cons_of_mem x mem)⟩
      obtain ⟨heap', W', pushedRest, holds', top'⟩ := pushUntilRejected_spec rest holds₁ top₁
        (fun y mem => within y (List.mem_cons_of_mem x mem)) fresh restDescending
      exact ⟨heap', W', by rw [step]; exact pushedRest, holds', top'⟩

theorem tryPushMergeSet_spec {b sp : DomainHash} {d spData : BlockGHOSTDAGData} (mem : b ∈ blocks)
    (found : dtm.ghostdagManager.dataOf b = some d)
    (scores : MergeSetScores dtm.ghostdagManager b sp d spData)
    {heap : SizedUpBlockHeap} {S W : Finset DomainHash}
    (holds : HeapHolds dtm.ghostdagManager n heap W)
    (top : TopK.IsTop (windowKey dtm.ghostdagManager) n S W)
    (apart : ∀ x ∈ pastIn dtm.ghostdagManager blocks b \ pastIn dtm.ghostdagManager blocks sp,
      x ∉ S) :
    ∃ done heap' W', dtm.tryPushMergeSet heap d spData = pure (done, heap') ∧
      HeapHolds dtm.ghostdagManager n heap' W' ∧
      TopK.IsTop (windowKey dtm.ghostdagManager) n
        (S ∪ (pastIn dtm.ghostdagManager blocks b \ pastIn dtm.ghostdagManager blocks sp)) W' ∧
      (done = true → heap' = heap ∧ W' = W ∧ W.card = n ∧
        ∀ w ∈ W, windowKey dtm.ghostdagManager sp < windowKey dtm.ghostdagManager w) := by
  obtain ⟨tail, blues⟩ := List.head?_eq_some_iff.1 scores.head_eq
  have inMergeSet : ∀ x, x ∈ sp :: tail ∨ x ∈ d.mergeSetReds →
      x ∈ pastIn dtm.ghostdagManager blocks b \ pastIn dtm.ghostdagManager blocks sp := by
    intro x member
    rw [← data.mem_mergeSet_iff mem scores, blues, List.mem_append]
    exact member
  have spNew := inMergeSet sp (.inl List.mem_cons_self)
  obtain ⟨added, heap₁, W₁, pushed, holds₁, top₁, rejected⟩ :=
    tryPushWithGHOSTDAGData_spec holds top positive (apart sp spNew) scores.spData_eq
  have start : dtm.tryPushMergeSet heap d spData =
      if !added then pure (true, heap₁) else (do
        let mergeSetBlues ← ofPanic (sliceFrom d.mergeSetBlues 1)
        let windowHeap ← dtm.pushUntilRejected heap₁ mergeSetBlues.reverse
        let windowHeap ← dtm.pushUntilRejected windowHeap d.mergeSetReds.reverse
        pure (false, windowHeap)) := by
    simp only [tryPushMergeSet, selectedParentHash_of_some scores.selectedParent_eq, pushed,
      ofPanic_ok, pure_bind]
  cases added with
  | false =>
    obtain ⟨rfl, rfl, count, belowAll⟩ := rejected rfl
    refine ⟨true, heap₁, W₁, by rw [start]; rfl, holds, top.union_of_lt count
      fun y yNew w kept => ?_, fun _ => ⟨rfl, rfl, count, belowAll⟩⟩
    exact lt_of_le_of_lt (data.windowKey_le_selectedParent mem scores (Finset.mem_sdiff.1 yNew).1)
      (belowAll w kept)
  | true =>
    have once := scores.nodup
    rw [blues, List.cons_append, List.nodup_cons, List.nodup_append] at once
    obtain ⟨spOnce, -, -, blueRed⟩ := once
    have within : ∀ x, x ∈ sp :: tail ∨ x ∈ d.mergeSetReds → x ∈ blocks := fun x member =>
      (mem_pastIn.1 (Finset.mem_sdiff.1 (inMergeSet x member)).1).1
    have ordered := data.sorted b mem d found
    rw [blues, List.tail_cons] at ordered
    have bluesDescending : tail.reverse.Pairwise
        (fun a b => windowKey dtm.ghostdagManager b < windowKey dtm.ghostdagManager a) :=
      List.pairwise_reverse.2 (data.sorted_keys ordered.1
        fun x member => within x (.inl (List.mem_cons_of_mem sp member)))
    have redsDescending : d.mergeSetReds.reverse.Pairwise
        (fun a b => windowKey dtm.ghostdagManager b < windowKey dtm.ghostdagManager a) :=
      List.pairwise_reverse.2 (data.sorted_keys ordered.2 fun x member => within x (.inr member))
    obtain ⟨heap₂, W₂, pushedBlues, holds₂, top₂⟩ := pushUntilRejected_spec data positive
      tail.reverse holds₁ top₁
      (fun x member => within x (.inl (List.mem_cons_of_mem sp (List.mem_reverse.1 member))))
      (fun x member => by
        have blue := List.mem_reverse.1 member
        rw [Finset.mem_insert, not_or]
        exact ⟨fun same => spOnce (same ▸ List.mem_append_left _ blue),
          apart x (inMergeSet x (.inl (List.mem_cons_of_mem sp blue)))⟩)
      bluesDescending
    obtain ⟨heap₃, W₃, pushedReds, holds₃, top₃⟩ := pushUntilRejected_spec data positive
      d.mergeSetReds.reverse holds₂ top₂
      (fun x member => within x (.inr (List.mem_reverse.1 member)))
      (fun x member => by
        have red := List.mem_reverse.1 member
        rw [Finset.mem_union, Finset.mem_insert, List.mem_toFinset, List.mem_reverse, not_or, not_or]
        exact ⟨⟨fun same => spOnce (same ▸ List.mem_append_right _ red),
          apart x (inMergeSet x (.inr red))⟩, fun blue => blueRed x blue x red rfl⟩)
      redsDescending
    refine ⟨false, heap₃, W₃, ?_, holds₃, ?_, fun done => absurd done Bool.noConfusion⟩
    · rw [start, blues]
      simp only [Bool.not_true, Bool.false_eq_true, if_false,
        sliceFrom_of_le (Nat.succ_le_of_lt (List.length_pos_of_mem List.mem_cons_self)),
        List.drop_one, List.tail_cons, ofPanic_ok, pure_bind, pushedBlues, pushedReds]
    · have merged : S ∪ (pastIn dtm.ghostdagManager blocks b \ pastIn dtm.ghostdagManager blocks sp) =
          insert sp S ∪ tail.reverse.toFinset ∪ d.mergeSetReds.reverse.toFinset := by
        ext x
        rw [Finset.mem_union, ← data.mem_mergeSet_iff mem scores, blues]
        simp only [Finset.mem_union, Finset.mem_insert, List.mem_toFinset, List.mem_reverse,
          List.mem_append, List.mem_cons]
        tauto
      rw [merged]
      exact top₃

end MergeSet

end DagTraversalManager

structure WalkHolds (gm : GhostdagManager) (blocks : Finset DomainHash) (windowSize : Nat)
    (highHash : DomainHash) (k : Nat) (s : WindowWalk) : Prop where
  mem : s.current ∈ blocks
  notGenesis : s.current ≠ gm.genesisHash
  found : gm.dataOf s.current = some s.currentGHOSTDAGData
  untrusted : s.currentTrustedPair0 = none
  below : PastOrSelf gm.parents s.current highHash
  window : ∃ W, HeapHolds gm windowSize s.windowHeap W ∧
    TopK.IsTop (windowKey gm) windowSize
      (pastIn gm blocks highHash \ pastIn gm blocks s.current) W
  bound : (pastIn gm blocks s.current).card < k

namespace DagTraversalManager

variable {dtm : DagTraversalManager}

section Walk

variable {blocks : Finset DomainHash} (data : WindowData dtm.ghostdagManager blocks) {n : Nat}
  (positive : 0 < n) (untrusted : ∀ b ∈ blocks, dtm.daaWindowStore b 0 = none)
include data positive untrusted

theorem walkStep_spec {highHash : DomainHash} {k : Nat} {s : WindowWalk}
    (holds : WalkHolds dtm.ghostdagManager blocks n highHash (k + 1) s) (fuel : Nat) :
    (∃ heap, (dtm.walkStep fuel s).run = some (.ok (.inr heap)) ∧
        ∃ W, HeapHolds dtm.ghostdagManager n heap W ∧
          TopK.IsTop (windowKey dtm.ghostdagManager) n
            (windowPast dtm.ghostdagManager blocks highHash) W) ∨
      ∃ s', (dtm.walkStep fuel s).run = some (.ok (.inl s')) ∧
        WalkHolds dtm.ghostdagManager blocks n highHash k s' := by
  obtain ⟨d, sp, spData, found, scores⟩ := data.scores s.current holds.mem holds.notGenesis
  obtain rfl : s.currentGHOSTDAGData = d := Option.some.inj (holds.found.symm.trans found)
  obtain ⟨W, heapHolds, top⟩ := holds.window
  have spMem := data.selectedParent_mem holds.mem scores
  have spPast : Past dtm.ghostdagManager.parents sp s.current :=
    past_of_mem_parents scores.selectedAmong.1
  by_cases genesis : sp = dtm.ghostdagManager.genesisHash
  · left
    refine ⟨s.windowHeap, by simp [walkStep, scores.selectedParent_eq, genesis], W, heapHolds, ?_⟩
    rw [windowPast, ← Finset.sdiff_singleton_eq_erase,
      ← data.pastIn_of_genesis holds.mem scores genesis]
    exact top
  · obtain ⟨done, heap', W', pushed, holds', top', rejected⟩ :=
      tryPushMergeSet_spec data positive holds.mem found scores heapHolds top
        fun x mem outside => (Finset.mem_sdiff.1 outside).2 (Finset.mem_sdiff.1 mem).1
    have turn : (dtm.walkStep fuel s).run = some (.ok (if done then .inr heap' else
        .inl ⟨sp, spData, dtm.daaWindowStore sp 0, heap'⟩)) := by
      simp only [walkStep, scores.selectedParent_eq, Option.some.injEq, genesis, if_false,
        holds.untrusted, selectedParentHash_of_some scores.selectedParent_eq,
        getGHOSTDAGData_of_found scores.spData_eq, pushed, pure_bind]
      cases done <;> rfl
    have united : pastIn dtm.ghostdagManager blocks highHash \ pastIn dtm.ghostdagManager blocks s.current ∪
        (pastIn dtm.ghostdagManager blocks s.current \ pastIn dtm.ghostdagManager blocks sp) =
        pastIn dtm.ghostdagManager blocks highHash \ pastIn dtm.ghostdagManager blocks sp :=
      Finset.sdiff_union_sdiff_cancel (pastIn_mono holds.below) (pastIn_mono spPast.pastOrSelf)
    rw [united] at top'
    cases done with
    | true =>
      left
      obtain ⟨rfl, rfl, full, belowAll⟩ := rejected rfl
      refine ⟨_, by rw [turn]; rfl, _, holds', ?_⟩
      rw [← data.sdiff_union_windowPast spMem genesis (spPast.trans_pastOrSelf holds.below).pastOrSelf]
      exact top'.union_of_lt full fun y lower w kept =>
        (data.windowKey_lt_of_past spMem (mem_pastIn.1 (Finset.mem_of_mem_erase lower)).2).trans
          (belowAll w kept)
    | false =>
      right
      exact ⟨_, by rw [turn]; rfl, ⟨spMem, genesis, scores.spData_eq, untrusted sp spMem,
        (spPast.trans_pastOrSelf holds.below).pastOrSelf, ⟨W', holds', top'⟩,
        lt_of_lt_of_le (data.card_pastIn_lt holds.mem spPast) (Nat.lt_succ_iff.1 holds.bound)⟩⟩

theorem walkWindow_spec {highHash : DomainHash} {d : BlockGHOSTDAGData} (mem : highHash ∈ blocks)
    (notGenesis : highHash ≠ dtm.ghostdagManager.genesisHash)
    (found : dtm.ghostdagManager.dataOf highHash = some d) {fuel : Nat}
    (enough : (pastIn dtm.ghostdagManager blocks highHash).card < fuel) :
    ∃ heap W, dtm.walkWindow fuel highHash d n = pure heap ∧ HeapHolds dtm.ghostdagManager n heap W ∧
      TopK.IsTop (windowKey dtm.ghostdagManager) n (windowPast dtm.ghostdagManager blocks highHash) W := by
  have start : WalkHolds dtm.ghostdagManager blocks n highHash fuel
      ⟨highHash, d, dtm.daaWindowStore highHash 0, newSizedUpHeap n⟩ :=
    ⟨mem, notGenesis, found, untrusted highHash mem, PastOrSelf.refl _,
      ⟨∅, heapHolds_new n, by rw [Finset.sdiff_self]; exact TopK.isTop_empty n⟩, enough⟩
  -- the walk needs fewer turns than there are blocks in the past of where it stands
  obtain ⟨heap, ran, W, holds, top⟩ := loop_eq_ok_of_bound
    (WalkHolds dtm.ghostdagManager blocks n highHash)
    (fun heap => ∃ W, HeapHolds dtm.ghostdagManager n heap W ∧
      TopK.IsTop (windowKey dtm.ghostdagManager) n (windowPast dtm.ghostdagManager blocks highHash) W)
    (fun _ holds => Nat.not_lt_zero _ holds.bound)
    (fun _ _ holds => walkStep_spec data positive untrusted holds fuel) fuel _ start
  exact ⟨heap, W, by rw [walkWindow, ran]; rfl, holds, top⟩

end Walk

end DagTraversalManager

namespace DagTraversalManager

/-- Every window heap slice that the store holds for a block of `blocks` keeps the window of the
    block at the slice's size. -/
def CacheHolds (dtm : DagTraversalManager) (blocks : Finset DomainHash) : Prop :=
  ∀ b ∈ blocks, ∀ windowSize heap, dtm.windowHeapSliceStore b windowSize = some heap →
    ∃ W, HeapHolds dtm.ghostdagManager windowSize heap W ∧
      TopK.IsTop (windowKey dtm.ghostdagManager) windowSize (windowPast dtm.ghostdagManager blocks b) W

variable {dtm : DagTraversalManager}

theorem newSizedUpHeapFromSlice_eq (heap : SizedUpBlockHeap) : newSizedUpHeapFromSlice heap = heap :=
  rfl

theorem CacheHolds.stage {blocks : Finset DomainHash} (cache : dtm.CacheHolds blocks)
    {highHash : DomainHash} {n : Nat} {heap : SizedUpBlockHeap} {W : Finset DomainHash}
    (holds : HeapHolds dtm.ghostdagManager n heap W)
    (top : TopK.IsTop (windowKey dtm.ghostdagManager) n (windowPast dtm.ghostdagManager blocks highHash) W) :
    (dtm.stageWindowHeapSlice highHash n heap).CacheHolds blocks := by
  intro b mem windowSize slice stored
  simp only [stageWindowHeapSlice] at stored
  by_cases staged : b = highHash ∧ windowSize = n
  · rw [if_pos staged] at stored
    obtain ⟨rfl, rfl⟩ := staged
    obtain rfl := Option.some.inj stored
    exact ⟨W, holds, top⟩
  · rw [if_neg staged] at stored
    exact cache b mem windowSize slice stored

section Window

variable {blocks : Finset DomainHash} (data : WindowData dtm.ghostdagManager blocks)
include data

theorem windowFromSelectedParent_spec {n : Nat} (positive : 0 < n) {b sp : DomainHash}
    {d spData : BlockGHOSTDAGData} (mem : b ∈ blocks) (found : dtm.ghostdagManager.dataOf b = some d)
    (scores : MergeSetScores dtm.ghostdagManager b sp d spData) {slice : SizedUpBlockHeap}
    {W : Finset DomainHash} (holds : HeapHolds dtm.ghostdagManager n slice W)
    (top : TopK.IsTop (windowKey dtm.ghostdagManager) n (windowPast dtm.ghostdagManager blocks sp) W) :
    ∃ heap W', dtm.windowFromSelectedParent d sp slice = pure heap ∧
      HeapHolds dtm.ghostdagManager n heap W' ∧
      TopK.IsTop (windowKey dtm.ghostdagManager) n (windowPast dtm.ghostdagManager blocks b) W' := by
  have spMem := data.selectedParent_mem mem scores
  by_cases genesis : sp = dtm.ghostdagManager.genesisHash
  · have empty : windowPast dtm.ghostdagManager blocks b = windowPast dtm.ghostdagManager blocks sp := by
      rw [genesis, data.windowPast_genesis, windowPast, data.pastIn_of_genesis mem scores genesis,
        Finset.erase_singleton]
    refine ⟨slice, W, by simp [windowFromSelectedParent, genesis, newSizedUpHeapFromSlice_eq], holds, ?_⟩
    rw [empty]
    exact top
  · obtain ⟨_, heap, W', pushed, holds', top', -⟩ :=
      tryPushMergeSet_spec data positive mem found scores holds top
        fun x new lower => (Finset.mem_sdiff.1 new).2 (Finset.mem_of_mem_erase lower)
    refine ⟨heap, W', ?_, holds', ?_⟩
    · simp only [windowFromSelectedParent, genesis, if_false, getGHOSTDAGData_of_found scores.spData_eq,
        newSizedUpHeapFromSlice_eq, pushed, pure_bind]
    · rw [← data.sdiff_union_windowPast spMem genesis (past_of_mem_parents scores.selectedAmong.1).pastOrSelf,
        Finset.union_comm]
      exact top'

variable (untrusted : ∀ b ∈ blocks, dtm.daaWindowStore b 0 = none) (cache : dtm.CacheHolds blocks)
include untrusted cache

theorem calculateBlockWindowHeap_spec {highHash : DomainHash} (mem : highHash ∈ blocks) {fuel : Nat}
    (enough : (pastIn dtm.ghostdagManager blocks highHash).card < fuel) (n : Nat) :
    ∃ heap W, dtm.calculateBlockWindowHeap fuel highHash n = pure heap ∧
      HeapHolds dtm.ghostdagManager n heap W ∧
      TopK.IsTop (windowKey dtm.ghostdagManager) n (windowPast dtm.ghostdagManager blocks highHash) W := by
  by_cases genesis : highHash = dtm.ghostdagManager.genesisHash
  · refine ⟨newSizedUpHeap n, ∅, by simp [calculateBlockWindowHeap, genesis], heapHolds_new n, ?_⟩
    rw [genesis, data.windowPast_genesis]
    exact TopK.isTop_empty n
  by_cases zero : n = 0
  · subst zero
    exact ⟨newSizedUpHeap 0, ∅, by simp [calculateBlockWindowHeap], heapHolds_new 0,
      TopK.isTop_zero _⟩
  obtain ⟨d, sp, spData, found, scores⟩ := data.scores highHash mem genesis
  have positive : 0 < n := Nat.pos_of_ne_zero zero
  have read : dtm.calculateBlockWindowHeap fuel highHash n =
      match dtm.windowHeapSliceStore sp n with
      | some slice => dtm.windowFromSelectedParent d sp slice
      | none => dtm.walkWindow fuel highHash d n := by
    simp only [calculateBlockWindowHeap, genesis, zero, if_false, getGHOSTDAGData_of_found found,
      pure_bind, untrusted highHash mem, scores.selectedParent_eq]
  rw [read]
  cases stored : dtm.windowHeapSliceStore sp n with
  | some slice =>
    obtain ⟨W, holds, top⟩ := cache sp (data.selectedParent_mem mem scores) n slice stored
    exact windowFromSelectedParent_spec data positive mem found scores holds top
  | none => exact walkWindow_spec data positive untrusted mem genesis found enough

theorem blockWindowHeap_spec {highHash : DomainHash} (mem : highHash ∈ blocks) {fuel : Nat}
    (enough : (pastIn dtm.ghostdagManager blocks highHash).card < fuel) (n : Nat) :
    ∃ heap dtm' W, dtm.blockWindowHeap fuel highHash n = pure (heap, dtm') ∧
      HeapHolds dtm.ghostdagManager n heap W ∧
      TopK.IsTop (windowKey dtm.ghostdagManager) n (windowPast dtm.ghostdagManager blocks highHash) W ∧
      dtm'.ghostdagManager = dtm.ghostdagManager ∧ dtm'.daaWindowStore = dtm.daaWindowStore ∧
      dtm'.CacheHolds blocks := by
  cases stored : dtm.windowHeapSliceStore highHash n with
  | some slice =>
    obtain ⟨W, holds, top⟩ := cache highHash mem n slice stored
    exact ⟨slice, dtm, W, by simp [blockWindowHeap, stored, newSizedUpHeapFromSlice_eq], holds, top,
      rfl, rfl, cache⟩
  | none =>
    obtain ⟨heap, W, calculated, holds, top⟩ :=
      calculateBlockWindowHeap_spec data untrusted cache mem enough n
    by_cases virtual : highHash = Finality.virtualBlockHash
    · exact ⟨heap, dtm, W, by simp [blockWindowHeap, stored, calculated, if_pos virtual], holds, top,
        rfl, rfl, cache⟩
    · exact ⟨heap, dtm.stageWindowHeapSlice highHash n heap, W,
        by simp [blockWindowHeap, stored, calculated, virtual], holds, top, rfl, rfl,
        cache.stage holds top⟩

theorem blockWindow_spec {highHash : DomainHash} (mem : highHash ∈ blocks) {fuel : Nat}
    (enough : blocks.card ≤ fuel) (n : Nat) :
    ∃ window dtm', dtm.blockWindow fuel highHash n = pure (window, dtm') ∧ window.Nodup ∧
      window.length = min n (windowPast dtm.ghostdagManager blocks highHash).card ∧
      window.toFinset =
        TopK.greatest (windowKey dtm.ghostdagManager) n (windowPast dtm.ghostdagManager blocks highHash) ∧
      dtm'.ghostdagManager = dtm.ghostdagManager ∧ dtm'.daaWindowStore = dtm.daaWindowStore ∧
      dtm'.CacheHolds blocks := by
  obtain ⟨heap, dtm', W, read, holds, top, sameManager, sameStore, cache'⟩ :=
    blockWindowHeap_spec data untrusted cache mem
      (lt_of_lt_of_le (data.card_pastIn_lt_card mem) enough) n
  refine ⟨heap.slice.map (·.hash), dtm', by simp [blockWindow, read], holds.nodup, ?_, ?_,
    sameManager, sameStore, cache'⟩
  · rw [List.length_map, holds.length_eq, top.card_eq]
  · rw [holds.hashes_eq]
    exact top.eq_greatest

end Window

end DagTraversalManager

/-! ### The window over the data of a GHOSTDAG run -/

section Run

variable {gm₀ gm : GhostdagManager} {order : List DomainHash}

theorem windowData_of_sortedInvariant (valid : ValidDAG gm₀ order) (positive : PositiveWork gm₀ order)
    (inv : SortedInvariant gm₀ gm order.toFinset order.reverse) : WindowData gm order.toFinset where
  acyclic := inv.run.processed.acyclic
  closed b mem p parent := List.mem_toFinset.2 (List.mem_reverse.1
    (inv.run.processed.closed b (List.mem_reverse.2 (List.mem_toFinset.1 mem)) p parent))
  genesis_parents := by
    rw [inv.run.parents_eq, inv.run.genesisHash_eq]
    exact valid.genesis_parents
  genesis_pastOrSelf b mem :=
    inv.run.processed.genesis_ancestor b (List.mem_reverse.2 (List.mem_toFinset.1 mem))
  found b mem := (inv.run.processed.stored b (List.mem_reverse.2 (List.mem_toFinset.1 mem))).imp
    fun _ stored => stored.1
  scores b mem := inv.run.mergeSetScores b (List.mem_reverse.2 (List.mem_toFinset.1 mem))
  less_of_past x _ y yMem past dx dy xFound yFound := less_eq_true_iff.2 <| .inl <|
    inv.run.blueWork_lt valid.toDagInput positive (fun _ mem => List.mem_reverse.1 mem) x y
      (List.mem_reverse.2 (List.mem_toFinset.1 yMem)) past dx dy xFound yFound
  sorted b mem d found :=
    have inOrder := inv.sorted b (List.mem_reverse.2 (List.mem_toFinset.1 mem)) d found
    ⟨inOrder.blues, inOrder.reds⟩

theorem windowPast_of_runInvariant {blocks : Finset DomainHash} {done : List DomainHash}
    (inv : RunInvariant gm₀ gm blocks done) (within : Finset DomainHash) (blockHash : DomainHash) :
    windowPast gm within blockHash = windowPast gm₀ within blockHash := by
  ext x
  simp only [windowPast, Finset.mem_erase, mem_pastIn, inv.parents_eq, inv.genesisHash_eq]

/-- **Block window selection.** GHOSTDAG is run over a DAG that block validation lets through and
    whose blocks all have work, with more fuel than blocks. For a manager that reads the data the
    run leaves, with no block carrying a trusted DAA window and every slice in the window heap
    slice store right (an empty store, say), `BlockWindow` of every block and every size `n`
    returns, each once, the `min n |P|` blocks of `P`, the past of the block less the genesis,
    that rank highest by blue work and then by hash: the same blocks whether it takes the
    selected parent's slice from the store or walks the selected chain. The manager it leaves
    reads the same data and its store's slices are still right. -/
theorem blockWindow_eq_greatest (valid : ValidDAG gm₀ order) (positive : PositiveWork gm₀ order)
    {fuel : Nat} (enough : order.length < fuel) :
    ∃ gm, gm₀.ghostdagRun fuel order = pure gm ∧
      ∀ dtm : DagTraversalManager, dtm.ghostdagManager = gm →
        (∀ b ∈ order, dtm.daaWindowStore b 0 = none) → dtm.CacheHolds order.toFinset →
        ∀ highHash ∈ order, ∀ n, ∃ window dtm', dtm.blockWindow fuel highHash n = pure (window, dtm') ∧
          window.Nodup ∧ window.length = min n (windowPast gm₀ order.toFinset highHash).card ∧
          window.toFinset = TopK.greatest (windowKey gm) n (windowPast gm₀ order.toFinset highHash) ∧
          dtm'.ghostdagManager = gm ∧ dtm'.daaWindowStore = dtm.daaWindowStore ∧
          dtm'.CacheHolds order.toFinset := by
  obtain ⟨gm, ran, inv⟩ := SortedInvariant.of_ghostdagRun valid enough
  refine ⟨gm, ran, ?_⟩
  rintro dtm rfl untrusted cache highHash mem n
  have data := windowData_of_sortedInvariant valid positive inv
  obtain ⟨window, dtm', read, nodup, length, greatest, sameManager, sameStore, cache'⟩ :=
    DagTraversalManager.blockWindow_spec data (fun b mem => untrusted b (List.mem_toFinset.1 mem))
      cache (List.mem_toFinset.2 mem) ((List.toFinset_card_le order).trans enough.le) n
  rw [windowPast_of_runInvariant inv.run] at length greatest
  exact ⟨window, dtm', read, nodup, length, greatest, sameManager, sameStore, cache'⟩

theorem blockWindow_eq_greatest_diamond :
    ValidDAG diamond [⟨0⟩, ⟨1⟩, ⟨2⟩, ⟨3⟩] ∧ PositiveWork diamond [⟨0⟩, ⟨1⟩, ⟨2⟩, ⟨3⟩] ∧
      [(⟨0⟩ : DomainHash), ⟨1⟩, ⟨2⟩, ⟨3⟩].length < 5 ∧
      ∃ gm, diamond.ghostdagRun 5 [⟨0⟩, ⟨1⟩, ⟨2⟩, ⟨3⟩] = pure gm ∧ ∃ window dtm',
        (⟨gm, fun _ _ => none, fun _ _ => none⟩ : DagTraversalManager).blockWindow 5 ⟨3⟩ 2 =
          pure (window, dtm') ∧
        window.toFinset =
          TopK.greatest (windowKey gm) 2 (windowPast diamond [⟨0⟩, ⟨1⟩, ⟨2⟩, ⟨3⟩].toFinset ⟨3⟩) := by
  obtain ⟨gm, ran, windows⟩ :=
    blockWindow_eq_greatest diamond_valid diamond_positiveWork (by decide : [(⟨0⟩ : DomainHash), ⟨1⟩, ⟨2⟩, ⟨3⟩].length < 5)
  obtain ⟨window, dtm', read, -, -, greatest, -⟩ := windows ⟨gm, fun _ _ => none, fun _ _ => none⟩ rfl
    (fun _ _ => rfl) (fun _ _ _ _ stored => by cases stored) ⟨3⟩ (by simp) 2
  exact ⟨diamond_valid, diamond_positiveWork, by decide, gm, ran, window, dtm', read, greatest⟩

/-- Without the antichain of parents the window takes in the genesis: on `parentInPast`, where
    every header has work, the window of size 2 of `⟨2⟩` pushes the merge-set blue `⟨0⟩`, the
    genesis, which `P` leaves out. -/
theorem blockWindow_takes_in_genesis :
    PositiveWork parentInPast [⟨0⟩, ⟨1⟩, ⟨2⟩] ∧
      ¬ Antichain parentInPast.parents (parentInPast.parents ⟨2⟩) ∧
      ∃ gm, parentInPast.ghostdagRun 10 [⟨0⟩, ⟨1⟩, ⟨2⟩] = pure gm ∧ ∃ window dtm',
        (⟨gm, fun _ _ => none, fun _ _ => none⟩ : DagTraversalManager).blockWindow 10 ⟨2⟩ 2 =
          pure (window, dtm') ∧ (⟨0⟩ : DomainHash) ∈ window ∧
        (⟨0⟩ : DomainHash) ∉ windowPast parentInPast [⟨0⟩, ⟨1⟩, ⟨2⟩].toFinset ⟨2⟩ := by
  obtain ⟨gm, ran, observed⟩ :=
    exists_ok_of_check (x := (parentInPast.ghostdagRun 10 [⟨0⟩, ⟨1⟩, ⟨2⟩]).run)
      (p := fun gm => (((⟨gm, fun _ _ => none, fun _ _ => none⟩ : DagTraversalManager).blockWindow
          10 ⟨2⟩ 2).run.bind Except.toOption).any
        fun result : List DomainHash × DagTraversalManager => decide ((⟨0⟩ : DomainHash) ∈ result.1))
      (by decide)
  obtain ⟨result, read, genesisIn⟩ := (Option.any_eq_true _ _).1 observed
  have found := eq_some_ok_of_bind_toOption read
  refine ⟨parentInPast_positiveWork, parentInPast_not_antichain, gm, ran, result.1, result.2, found,
    of_decide_eq_true genesisIn, ?_⟩
  simp [windowPast, parentInPast]

end Run

end DagTraversal
