import Htnd.GhostdagManager.Ghostdag

/-!
The hashes IBD asks for between a low and a high block (syncmanager/antipast.go): the merge sets
of the blocks of the high block's selected chain above the low block, each sorted as
`GetSortedMergeSet` sorts it (ghostdagmanager/mergeset.go), less the past of the low block, and
the high block itself. The walk from the low block down to the high block's chain and the walk up
that chain, by the selected-child iterator (dagtraversalmanager/selected_child_iterator.go), are
`for` loops without a bound, run here for at most `fuel` turns, as is the merge of the blue and
the red merge sets.
-/
namespace Ghostdag.GhostdagManager
open GoSemantics Utxo

variable (gm : GhostdagManager)

structure SortedMergeSetLoop where
  sortedMergeSet : List DomainHash
  blueMergeSet : List DomainHash
  redMergeSet : List DomainHash

def sortedMergeSetStep (s : SortedMergeSetLoop) :
    GhostdagM (SortedMergeSetLoop ⊕ List DomainHash) :=
  match s.blueMergeSet, s.redMergeSet with
  | currentBlue :: blueMergeSet, currentRed :: redMergeSet => do
    let currentBlueGhostdagData ← gm.getGHOSTDAGData currentBlue false
    let currentRedGhostdagData ← gm.getGHOSTDAGData currentRed false
    if Less currentBlue currentBlueGhostdagData currentRed currentRedGhostdagData then
      pure (.inl ⟨s.sortedMergeSet ++ [currentBlue], blueMergeSet, currentRed :: redMergeSet⟩)
    else pure (.inl ⟨s.sortedMergeSet ++ [currentRed], currentBlue :: blueMergeSet, redMergeSet⟩)
  | blueMergeSet, redMergeSet => pure (.inr (s.sortedMergeSet ++ blueMergeSet ++ redMergeSet))

def getSortedMergeSet (fuel : Nat) (current : DomainHash) : GhostdagM (List DomainHash) := do
  let currentGhostdagData ← gm.getGHOSTDAGData current false
  match currentGhostdagData.mergeSetBlues with
  | [] => pure []
  | selectedParent :: blueMergeSet =>
    ExceptT.mk (loop (fun s => (gm.sortedMergeSetStep s).run) fuel
      ⟨[selectedParent], blueMergeSet, currentGhostdagData.mergeSetReds⟩)

end Ghostdag.GhostdagManager

namespace SyncManager
open GoSemantics Utxo Ghostdag

inductive AntiPastError where
  | ghostdag (err : GhostdagError)
  | maxBlocksBelowLimit (maxBlocks required : UInt64)
  | lowBlueScoreAboveHigh (lowBlueScore highBlueScore : UInt64)
  | notInSelectedParentChain (highHash lowHash : DomainHash)
  deriving DecidableEq, Repr

abbrev AntiPastM := ExceptT AntiPastError Option

def liftGhostdag {α : Type} (x : GhostdagM α) : AntiPastM α :=
  ExceptT.mk ((x.run).map (Except.mapError .ghostdag))

@[simp] theorem liftGhostdag_pure {α : Type} (a : α) : liftGhostdag (pure a : GhostdagM α) = pure a :=
  rfl

@[simp] theorem liftGhostdag_throw {α : Type} (err : GhostdagError) :
    liftGhostdag (throw err : GhostdagM α) = throw (.ghostdag err) :=
  rfl

/-- The fields of the Go `syncManager` that `antiPastHashesBetween` reads: the GHOSTDAG manager,
    whose store and DAG topology it shares, the reachability tree's selected-chain test and
    `FindNextAncestor`, and the merge set size limit. -/
structure Manager where
  ghostdagManager : GhostdagManager
  isInSelectedParentChainOf : DomainHash → DomainHash → Bool
  findNextAncestor : DomainHash → DomainHash → Option DomainHash
  mergeSetSizeLimit : UInt64

namespace Manager
variable (sm : Manager)

def getGHOSTDAGData (blockHash : DomainHash) : AntiPastM Ghostdag.BlockGHOSTDAGData :=
  liftGhostdag (sm.ghostdagManager.getGHOSTDAGData blockHash false)

def findLowHashStep (highHash lowHash : DomainHash) : AntiPastM (DomainHash ⊕ DomainHash) := do
  if sm.isInSelectedParentChainOf lowHash highHash then return .inr lowHash
  let lowBlockGHOSTDAGData ← sm.getGHOSTDAGData lowHash
  let selectedParent ← liftGhostdag (GhostdagManager.selectedParentOf lowBlockGHOSTDAGData)
  pure (.inl selectedParent)

def findLowHashInHighHashSelectedParentChain (fuel : Nat) (lowHash highHash : DomainHash) :
    AntiPastM DomainHash :=
  ExceptT.mk (loop (fun lowHash => (sm.findLowHashStep highHash lowHash).run) fuel lowHash)

structure AntiPastLoop where
  current : DomainHash
  highHash : DomainHash
  blockHashes : List DomainHash

def antiPastStep (fuel : Nat) (originalLowHash iteratorHighHash : DomainHash) (maxBlocks : UInt64)
    (s : AntiPastLoop) : AntiPastM (AntiPastLoop ⊕ (List DomainHash × DomainHash)) :=
  match sm.findNextAncestor iteratorHighHash s.current with
  | none => pure (.inr (s.blockHashes, s.highHash))
  | some current => do
    let sortedMergeSet ← liftGhostdag (sm.ghostdagManager.getSortedMergeSet fuel current)
    if maxBlocks ≠ 0 ∧ (s.blockHashes.length + sortedMergeSet.length).toUInt64 > maxBlocks then
      return .inr (s.blockHashes, s.highHash)
    pure (.inl ⟨current, current, s.blockHashes ++ sortedMergeSet.filter fun blockHash =>
      !sm.ghostdagManager.isAncestorOf blockHash originalLowHash⟩)

def antiPastHashesBetween (fuel : Nat) (lowHash highHash : DomainHash) (maxBlocks : UInt64) :
    AntiPastM (List DomainHash × DomainHash) := do
  if maxBlocks ≠ 0 ∧ maxBlocks < sm.mergeSetSizeLimit + 1 then
    throw (.maxBlocksBelowLimit maxBlocks (sm.mergeSetSizeLimit + 1))
  let originalLowHash := lowHash
  let lowHash ← sm.findLowHashInHighHashSelectedParentChain fuel lowHash highHash
  let lowBlockGHOSTDAGData ← sm.getGHOSTDAGData lowHash
  let highBlockGHOSTDAGData ← sm.getGHOSTDAGData highHash
  if lowBlockGHOSTDAGData.blueScore > highBlockGHOSTDAGData.blueScore then
    throw (.lowBlueScoreAboveHigh lowBlockGHOSTDAGData.blueScore highBlockGHOSTDAGData.blueScore)
  -- `SelectedChildIterator` checks the low block against the high block's chain
  if !sm.isInSelectedParentChainOf lowHash highHash then
    throw (.notInSelectedParentChain highHash lowHash)
  let (blockHashes, highHash) ← ExceptT.mk (loop
    (fun s => (sm.antiPastStep fuel originalLowHash highHash maxBlocks s).run) fuel
    ⟨lowHash, highHash, []⟩)
  let blockHashes := if lowHash ≠ highHash then blockHashes ++ [highHash] else blockHashes
  pure (blockHashes, highHash)

end Manager

end SyncManager
