import Mathlib
import Htnd.FinalityManager.FinalityPoint

/-!
How the pruning point advances (pruningmanager/pruningmanager.go).
`nextPruningPointAndCandidateByBlockHash` scans the selected chain of a block, going up with
`SelectedChildIterator` (dagtraversalmanager/selected_child_iterator.go). It starts from the
pruning candidate, or from a suggested low hash above it. It stops at the first block that is
not pruning-depth deep under the block. Each block before that becomes the candidate. It also
becomes the pruning point when its finality score, its blue score over the finality interval,
passes the pruning point's.

This module assumes consistent GHOSTDAG data, with blue scores growing up selected chains, so
that the depth test never wraps. On such data the candidate is the highest deep block the scan
reaches. The pruning point is the lowest scanned block of the highest finality score. Both move
up the chain, and the pruning point stays on the candidate's chain.
-/
namespace Pruning
open GoSemantics Utxo Ghostdag Dag

inductive PruningError where
  | ghostdag (err : GhostdagError)
  | pruningPointNotFound
  | notInSelectedParentChain (highHash lowHash : DomainHash)
  | panicked (p : Panic)
  deriving DecidableEq, Repr

/-- The texts the code gives these errors; those of the stores are not modelled, and a panic
    carries its own. -/
def PruningError.message (hashText : DomainHash → String) : PruningError → Option String
  | .ghostdag _ | .pruningPointNotFound | .panicked _ => none
  | .notInSelectedParentChain highHash lowHash =>
    some (hashText highHash ++ " is not in the selected parent chain of " ++ hashText lowHash)

abbrev PruningM := ExceptT PruningError Option

def liftGhostdag {α : Type} (x : GhostdagM α) : PruningM α :=
  ExceptT.mk ((x.run).map (Except.mapError .ghostdag))

/-- The fields of the Go `pruningManager` that the advancement reads, with those that the DAG
    topology and traversal managers it calls read: the GHOSTDAG data store and the genesis,
    through the GHOSTDAG manager; `IsInSelectedParentChainOf`; the search among the
    reachability-tree children of a block that `FindNextAncestor` makes; the pruning store's
    pruning point and candidate; and the pruning depth and the finality interval. -/
structure PruningManager where
  ghostdagManager : GhostdagManager
  isInSelectedParentChainOf : DomainHash → DomainHash → Bool
  findAncestorOfNode : DomainHash → DomainHash → Option DomainHash
  pruningPoint : Option DomainHash
  candidate : Option DomainHash
  pruningDepth : UInt64
  finalityInterval : UInt64

structure Cursors where
  newCandidate : DomainHash
  newPruningPoint : DomainHash
  newPruningPointGHOSTDAGData : BlockGHOSTDAGData

namespace PruningManager
variable (pm : PruningManager)

def topology : SyncManager.Manager where
  ghostdagManager := pm.ghostdagManager
  isInSelectedParentChainOf := pm.isInSelectedParentChainOf
  findNextAncestor := pm.findAncestorOfNode
  mergeSetSizeLimit := 0

def getGHOSTDAGData (blockHash : DomainHash) : PruningM BlockGHOSTDAGData :=
  liftGhostdag (pm.ghostdagManager.getGHOSTDAGData blockHash false)

def pruningStorePruningPoint : PruningM DomainHash :=
  match pm.pruningPoint with
  | none => throw .pruningPointNotFound
  | some pruningPoint => pure pruningPoint

def pruningPointCandidate : DomainHash :=
  match pm.candidate with
  | none => pm.ghostdagManager.genesisHash
  | some candidate => candidate

def finalityScore (blueScore : UInt64) : UInt64 :=
  if pm.finalityInterval = 0 then 0 else blueScore / pm.finalityInterval

def selectedChild (highHash lowHash : DomainHash) : Option DomainHash :=
  if lowHash = highHash then none else pm.findAncestorOfNode highHash lowHash

def selectedChildIterator (highHash lowHash : DomainHash) :
    PruningM (DomainHash → Option DomainHash) :=
  if pm.isInSelectedParentChainOf lowHash highHash then pure (pm.selectedChild highHash)
  else throw (.notInSelectedParentChain highHash lowHash)

def lowHash (currentCandidate : DomainHash) : Option DomainHash → PruningM DomainHash
  | none => pure currentCandidate
  | some suggestedLowHash =>
    if pm.isInSelectedParentChainOf suggestedLowHash currentCandidate then pure currentCandidate
    else if pm.isInSelectedParentChainOf currentCandidate suggestedLowHash then pure suggestedLowHash
    else throw (.panicked (.value ("suggested low hash " ++ suggestedLowHash.string ++
      " is not on the same selected chain as the pruning candidate " ++ currentCandidate.string)))

def takeCandidate (cursors : Cursors) (newCandidate : DomainHash)
    (newCandidateGHOSTDAGData : BlockGHOSTDAGData) : Cursors :=
  if pm.finalityScore newCandidateGHOSTDAGData.blueScore >
      pm.finalityScore cursors.newPruningPointGHOSTDAGData.blueScore then
    ⟨newCandidate, newCandidate, newCandidateGHOSTDAGData⟩
  else { cursors with newCandidate := newCandidate }

/-- A turn of the scan at `selectedChild`: stop if it is not pruning-depth deep under the block
    whose data is `ghostdagData`, else take it for candidate and go on to the block the iterator
    gives next, if any. -/
def pruningPointStep (next : DomainHash → Option DomainHash) (ghostdagData : BlockGHOSTDAGData)
    (selectedChild : DomainHash) (cursors : Cursors) :
    PruningM ((DomainHash × Cursors) ⊕ Cursors) := do
  let selectedChildGHOSTDAGData ← pm.getGHOSTDAGData selectedChild
  if ghostdagData.blueScore - selectedChildGHOSTDAGData.blueScore < pm.pruningDepth then
    pure (.inr cursors)
  else
    let cursors := pm.takeCandidate cursors selectedChild selectedChildGHOSTDAGData
    match next selectedChild with
    | none => pure (.inr cursors)
    | some child => pure (.inl (child, cursors))

def nextPruningPointAndCandidateByBlockHash (fuel : Nat) (blockHash : DomainHash)
    (suggestedLowHash : Option DomainHash) : PruningM (DomainHash × DomainHash) := do
  let currentCandidate := pm.pruningPointCandidate
  let lowHash ← pm.lowHash currentCandidate suggestedLowHash
  let currentPruningPoint ← pm.pruningStorePruningPoint
  let ghostdagData ← pm.getGHOSTDAGData blockHash
  let currentPruningPointGHOSTDAGData ← pm.getGHOSTDAGData currentPruningPoint
  -- the one-block iterator, or the chain of the selected parent from the low hash up
  let next ← if blockHash = lowHash then pure (fun _ => none) else do
    let selectedParent ← liftGhostdag (GhostdagManager.selectedParentOf ghostdagData)
    pm.selectedChildIterator selectedParent lowHash
  let cursors ← ExceptT.mk (loop (fun s => (pm.pruningPointStep next ghostdagData s.1 s.2).run)
    fuel (lowHash, ⟨currentCandidate, currentPruningPoint, currentPruningPointGHOSTDAGData⟩))
  pure (cursors.newPruningPoint, cursors.newCandidate)

/-! The specification: blue scores read from the store, depth and the invariant. -/

def blueScoreOf (blockHash : DomainHash) : UInt64 :=
  match pm.ghostdagManager.dataOf blockHash with
  | none => 0
  | some data => data.blueScore

def Deep (blockHash x : DomainHash) : Prop :=
  pm.pruningDepth ≤ pm.blueScoreOf blockHash - pm.blueScoreOf x

def LowestOfScore (lowHash top p : DomainHash) : Prop :=
  pm.topology.OnChain lowHash p ∧ pm.topology.OnChain p top ∧
    ∀ x, pm.topology.OnChain lowHash x → pm.topology.OnChain x top →
      pm.finalityScore (pm.blueScoreOf x) = pm.finalityScore (pm.blueScoreOf p) →
        pm.topology.OnChain p x

def CandidateInvariant (pruningPoint candidate : DomainHash) : Prop :=
  pm.topology.OnChain pruningPoint candidate ∧
    pm.finalityScore (pm.blueScoreOf pruningPoint) ≤ pm.finalityScore (pm.blueScoreOf candidate)

structure ChainConsistent (blocks : Finset DomainHash) : Prop where
  consistent : pm.topology.Consistent blocks
  blueScoresGrow : pm.ghostdagManager.BlueScoresGrow blocks

/-! The scan's invariant. It runs from `lowHash` up the chain of `top`, the selected parent of
`blockHash`, from the old `candidate` and `pruningPoint`. -/

def PruningPointMoved (lowHash pruningPoint : DomainHash) (cursors : Cursors) : Prop :=
  cursors.newPruningPoint = pruningPoint ∨
    pm.finalityScore (pm.blueScoreOf pruningPoint) <
        pm.finalityScore (pm.blueScoreOf cursors.newPruningPoint) ∧
      pm.LowestOfScore lowHash cursors.newCandidate cursors.newPruningPoint

structure Scanning (blockHash top lowHash pruningPoint candidate current : DomainHash)
    (cursors : Cursors) : Prop where
  low_onChain : pm.topology.OnChain lowHash current
  onChain_top : pm.topology.OnChain current top
  found : pm.ghostdagManager.dataOf cursors.newPruningPoint = some cursors.newPruningPointGHOSTDAGData
  taken : (current = lowHash ∧ cursors.newCandidate = candidate ∧
      cursors.newPruningPoint = pruningPoint) ∨
    (pm.topology.selectedParentOf current = some cursors.newCandidate ∧
      pm.topology.OnChain lowHash cursors.newCandidate ∧ pm.Deep blockHash cursors.newCandidate ∧
      pm.finalityScore (pm.blueScoreOf cursors.newCandidate) ≤
        pm.finalityScore (pm.blueScoreOf cursors.newPruningPoint) ∧
      pm.PruningPointMoved lowHash pruningPoint cursors)

structure Taken (blockHash top lowHash pruningPoint current : DomainHash) (cursors : Cursors) :
    Prop where
  low_onChain : pm.topology.OnChain lowHash current
  onChain_top : pm.topology.OnChain current top
  found : pm.ghostdagManager.dataOf cursors.newPruningPoint = some cursors.newPruningPointGHOSTDAGData
  candidate_eq : cursors.newCandidate = current
  deep : pm.Deep blockHash current
  score_le : pm.finalityScore (pm.blueScoreOf current) ≤
    pm.finalityScore (pm.blueScoreOf cursors.newPruningPoint)
  moved : pm.PruningPointMoved lowHash pruningPoint cursors

structure Scanned (blockHash top lowHash pruningPoint candidate : DomainHash) (cursors : Cursors) :
    Prop where
  found : pm.ghostdagManager.dataOf cursors.newPruningPoint = some cursors.newPruningPointGHOSTDAGData
  taken : (cursors.newCandidate = candidate ∧ cursors.newPruningPoint = pruningPoint) ∨
    (pm.topology.OnChain lowHash cursors.newCandidate ∧ pm.topology.OnChain cursors.newCandidate top ∧
      pm.Deep blockHash cursors.newCandidate ∧
      pm.finalityScore (pm.blueScoreOf cursors.newCandidate) ≤
        pm.finalityScore (pm.blueScoreOf cursors.newPruningPoint) ∧
      pm.PruningPointMoved lowHash pruningPoint cursors)
  highest : ∀ x, pm.topology.OnChain lowHash x → pm.topology.OnChain cursors.newCandidate x →
    x ≠ cursors.newCandidate → pm.topology.OnChain x top → ¬ pm.Deep blockHash x

section Reads
variable {pm}

theorem getGHOSTDAGData_eq_pure {blockHash : DomainHash} {d : BlockGHOSTDAGData} :
    pm.getGHOSTDAGData blockHash = pure d ↔ pm.ghostdagManager.dataOf blockHash = some d :=
  mapError_eq_pure.trans GhostdagManager.getGHOSTDAGData_eq_pure

theorem liftGhostdag_selectedParentOf_eq_pure {d : BlockGHOSTDAGData} {selectedParent : DomainHash} :
    liftGhostdag (GhostdagManager.selectedParentOf d) = pure selectedParent ↔
      d.selectedParent = some selectedParent :=
  mapError_eq_pure.trans GhostdagManager.selectedParentOf_eq_pure

theorem pruningStorePruningPoint_eq_pure {pruningPoint : DomainHash} :
    pm.pruningStorePruningPoint = pure pruningPoint ↔ pm.pruningPoint = some pruningPoint := by
  unfold pruningStorePruningPoint
  cases pm.pruningPoint with
  | none => exact iff_of_false (fun read => by cases read) (fun stored => by cases stored)
  | some stored => exact ⟨fun read => by cases read; rfl, fun stored => by cases stored; rfl⟩

theorem blueScoreOf_of_found {blockHash : DomainHash} {d : BlockGHOSTDAGData}
    (found : pm.ghostdagManager.dataOf blockHash = some d) : pm.blueScoreOf blockHash = d.blueScore := by
  simp [blueScoreOf, found]

theorem finalityScore_le_finalityScore {a b : UInt64} (le : a ≤ b) :
    pm.finalityScore a ≤ pm.finalityScore b := by
  unfold finalityScore
  split_ifs
  · exact UInt64.le_refl 0
  · rw [UInt64.le_iff_toNat_le, UInt64.toNat_div, UInt64.toNat_div]
    exact Nat.div_le_div_right (UInt64.le_iff_toNat_le.1 le)

theorem pruningPointStep_of_found {next : DomainHash → Option DomainHash}
    {ghostdagData d : BlockGHOSTDAGData} {x : DomainHash} (cursors : Cursors)
    (found : pm.ghostdagManager.dataOf x = some d) :
    pm.pruningPointStep next ghostdagData x cursors =
      if ghostdagData.blueScore - d.blueScore < pm.pruningDepth then pure (.inr cursors)
      else match next x with
        | none => pure (.inr (pm.takeCandidate cursors x d))
        | some child => pure (.inl (child, pm.takeCandidate cursors x d)) := by
  simp only [pruningPointStep, getGHOSTDAGData_eq_pure.2 found, pure_bind]

end Reads

section Scan
variable {pm} {blocks : Finset DomainHash}

theorem ChainConsistent.blueScoreOf_le (cc : pm.ChainConsistent blocks) {a b : DomainHash}
    (mem : b ∈ blocks) (chain : pm.topology.OnChain a b) : pm.blueScoreOf a ≤ pm.blueScoreOf b := by
  obtain ⟨db, bFound⟩ := cc.consistent.data mem
  obtain ⟨da, aFound⟩ := cc.consistent.data (cc.consistent.onChain_pastOrSelf mem chain).2
  rw [blueScoreOf_of_found aFound, blueScoreOf_of_found bFound]
  exact cc.consistent.blueScore_le mem chain aFound bFound

theorem ChainConsistent.finalityScore_le (cc : pm.ChainConsistent blocks) {a b : DomainHash}
    (mem : b ∈ blocks) (chain : pm.topology.OnChain a b) :
    pm.finalityScore (pm.blueScoreOf a) ≤ pm.finalityScore (pm.blueScoreOf b) :=
  finalityScore_le_finalityScore (cc.blueScoreOf_le mem chain)

theorem ChainConsistent.deep_iff (cc : pm.ChainConsistent blocks) {blockHash x : DomainHash}
    (mem : blockHash ∈ blocks) (chain : pm.topology.OnChain x blockHash) :
    pm.Deep blockHash x ↔
      pm.pruningDepth.toNat + (pm.blueScoreOf x).toNat ≤ (pm.blueScoreOf blockHash).toNat := by
  have le := cc.blueScoreOf_le mem chain
  have le' := UInt64.le_iff_toNat_le.1 le
  rw [Deep, UInt64.le_iff_toNat_le, UInt64.toNat_sub_of_le _ _ le]
  omega

theorem ChainConsistent.deep_of_onChain (cc : pm.ChainConsistent blocks) {blockHash x y : DomainHash}
    (mem : blockHash ∈ blocks) (below : pm.topology.OnChain x y)
    (chain : pm.topology.OnChain y blockHash) (deep : pm.Deep blockHash y) : pm.Deep blockHash x := by
  have yMem := (cc.consistent.onChain_pastOrSelf mem chain).2
  have le := UInt64.le_iff_toNat_le.1 (cc.blueScoreOf_le yMem below)
  rw [cc.deep_iff mem chain] at deep
  rw [cc.deep_iff mem (below.trans chain)]
  omega

variable {blockHash top lowHash pruningPoint candidate current : DomainHash} {cursors : Cursors}

theorem Scanning.stop (cc : pm.ChainConsistent blocks) (mem : blockHash ∈ blocks)
    (topChain : pm.topology.OnChain top blockHash)
    (scanning : pm.Scanning blockHash top lowHash pruningPoint candidate current cursors)
    (shallow : ¬ pm.Deep blockHash current) :
    pm.Scanned blockHash top lowHash pruningPoint candidate cursors := by
  have topMem := (cc.consistent.onChain_pastOrSelf mem topChain).2
  have above : ∀ x, pm.topology.OnChain current x → pm.topology.OnChain x top →
      ¬ pm.Deep blockHash x := fun x currentX xTop deep =>
    shallow (cc.deep_of_onChain mem currentX (xTop.trans topChain) deep)
  refine ⟨scanning.found, ?_, fun x lowX candidateX ne xTop => above x ?_ xTop⟩
  · rcases scanning.taken with ⟨-, same, samePoint⟩ | ⟨selected, low, deep, score, moved⟩
    · exact .inl ⟨same, samePoint⟩
    · have step : pm.topology.OnChain cursors.newCandidate current := .single selected
      exact .inr ⟨low, step.trans scanning.onChain_top, deep, score, moved⟩
  · rcases scanning.taken with ⟨rfl, -, -⟩ | ⟨selected, -, -, -, -⟩
    · exact lowX
    · have step : pm.topology.OnChain cursors.newCandidate current := .single selected
      have candidateMem := (cc.consistent.onChain_pastOrSelf topMem
        (step.trans scanning.onChain_top)).2
      rcases SyncManager.Manager.onChain_or_above xTop scanning.onChain_top selected with
        below | higher
      · exact absurd (cc.consistent.onChain_antisymm candidateMem below candidateX) ne
      · exact higher

theorem Scanning.take (cc : pm.ChainConsistent blocks) (mem : blockHash ∈ blocks)
    (topChain : pm.topology.OnChain top blockHash)
    (scanning : pm.Scanning blockHash top lowHash pruningPoint candidate current cursors)
    {d : BlockGHOSTDAGData} (found : pm.ghostdagManager.dataOf current = some d)
    (deep : pm.Deep blockHash current) :
    pm.Taken blockHash top lowHash pruningPoint current (pm.takeCandidate cursors current d) := by
  have topMem := (cc.consistent.onChain_pastOrSelf mem topChain).2
  have currentMem := (cc.consistent.onChain_pastOrSelf topMem scanning.onChain_top).2
  have oldLe : pm.finalityScore (pm.blueScoreOf pruningPoint) ≤
      pm.finalityScore (pm.blueScoreOf cursors.newPruningPoint) := by
    rcases scanning.taken with ⟨-, -, same⟩ | ⟨-, -, -, -, same | ⟨lt, -⟩⟩
    · exact same ▸ UInt64.le_refl _
    · exact same ▸ UInt64.le_refl _
    · exact UInt64.le_of_lt lt
  have score : pm.blueScoreOf current = d.blueScore := blueScoreOf_of_found found
  have pointScore : pm.blueScoreOf cursors.newPruningPoint =
      cursors.newPruningPointGHOSTDAGData.blueScore := blueScoreOf_of_found scanning.found
  unfold takeCandidate
  split_ifs with higher
  · -- the pruning point moves to `current`, the lowest block with its score
    rw [← score, ← pointScore] at higher
    refine ⟨scanning.low_onChain, scanning.onChain_top, found, rfl, deep, UInt64.le_refl _,
      .inr ⟨UInt64.lt_of_le_of_lt oldLe higher, scanning.low_onChain, Relation.ReflTransGen.refl,
        fun x lowX xCurrent same => ?_⟩⟩
    by_cases atCurrent : x = current
    · exact atCurrent ▸ Relation.ReflTransGen.refl
    rcases scanning.taken with ⟨rfl, -, -⟩ | ⟨selected, -, -, candidateScore, -⟩
    · exact absurd (cc.consistent.onChain_antisymm currentMem xCurrent lowX) atCurrent
    · rcases SyncManager.Manager.onChain_iff.1 xCurrent with rfl | ⟨sp, step, below⟩
      · exact absurd rfl atCurrent
      obtain rfl := Option.some.inj (step.symm.trans selected)
      have spMem := (cc.consistent.onChain_pastOrSelf currentMem (.single step)).2
      have xLe := cc.finalityScore_le spMem below
      rw [same] at xLe
      exact absurd (UInt64.lt_of_le_of_lt (UInt64.le_trans xLe candidateScore) higher)
        (UInt64.lt_irrefl _)
  · -- the pruning point stays
    rw [← score, ← pointScore] at higher
    refine ⟨scanning.low_onChain, scanning.onChain_top, scanning.found, rfl, deep,
      UInt64.not_lt.1 higher, ?_⟩
    rcases scanning.taken with ⟨rfl, -, same⟩ | ⟨selected, -, -, -, same | ⟨lt, low, below, lowest⟩⟩
    · exact .inl same
    · exact .inl same
    · refine .inr ⟨lt, low, below.tail selected, fun x lowX xCurrent same => ?_⟩
      rcases SyncManager.Manager.onChain_iff.1 xCurrent with rfl | ⟨sp, step, xBelow⟩
      · exact below.tail selected
      · obtain rfl := Option.some.inj (step.symm.trans selected)
        exact lowest x lowX xBelow same

theorem Taken.stop (cc : pm.ChainConsistent blocks) (mem : blockHash ∈ blocks)
    (topChain : pm.topology.OnChain top blockHash)
    (taken : pm.Taken blockHash top lowHash pruningPoint current cursors) (atTop : current = top) :
    pm.Scanned blockHash top lowHash pruningPoint candidate cursors := by
  have topMem := (cc.consistent.onChain_pastOrSelf mem topChain).2
  refine ⟨taken.found, .inr ?_, fun x _ candidateX ne xTop => ?_⟩
  · rw [taken.candidate_eq]
    exact ⟨taken.low_onChain, taken.onChain_top, taken.deep, taken.score_le, taken.moved⟩
  · rw [taken.candidate_eq, atTop] at candidateX
    rw [taken.candidate_eq, atTop] at ne
    exact absurd (cc.consistent.onChain_antisymm topMem xTop candidateX) ne

theorem Taken.next (taken : pm.Taken blockHash top lowHash pruningPoint current cursors)
    {child : DomainHash} (childChain : pm.topology.OnChain child top)
    (selected : pm.topology.selectedParentOf child = some current) :
    pm.Scanning blockHash top lowHash pruningPoint candidate child cursors := by
  refine ⟨taken.low_onChain.tail selected, childChain, taken.found, .inr ?_⟩
  rw [taken.candidate_eq]
  exact ⟨selected, taken.low_onChain, taken.deep, taken.score_le, taken.moved⟩

theorem ChainConsistent.isInSelectedParentChainOf_iff (cc : pm.ChainConsistent blocks) {a b : DomainHash}
    (aMem : a ∈ blocks) (bMem : b ∈ blocks) :
    pm.isInSelectedParentChainOf a b = true ↔ pm.topology.OnChain a b :=
  cc.consistent.isInSelectedParentChainOf_iff a aMem b bMem

theorem ChainConsistent.selectedChild_of_onChain (cc : pm.ChainConsistent blocks)
    (topMem : top ∈ blocks) (chain : pm.topology.OnChain current top) :
    (current = top ∧ pm.selectedChild top current = none) ∨
      ∃ child, pm.selectedChild top current = some child ∧ pm.topology.OnChain child top ∧
        pm.topology.selectedParentOf child = some current := by
  unfold selectedChild
  by_cases atTop : current = top
  · exact .inl ⟨atTop, if_pos atTop⟩
  · obtain ⟨child, found, childChain, selected⟩ :=
      cc.consistent.findNextAncestor_of_onChain topMem chain atTop
    exact .inr ⟨child, (if_neg atTop).trans found, childChain, selected⟩

theorem ChainConsistent.scan (cc : pm.ChainConsistent blocks) {fuel : Nat} (enough : blocks.card < fuel)
    (mem : blockHash ∈ blocks) {ghostdagData : BlockGHOSTDAGData}
    (found : pm.ghostdagManager.dataOf blockHash = some ghostdagData)
    (topChain : pm.topology.OnChain top blockHash)
    (start : pm.Scanning blockHash top lowHash pruningPoint candidate lowHash cursors) :
    ∃ result, loop (fun s => (pm.pruningPointStep (pm.selectedChild top) ghostdagData s.1 s.2).run)
        fuel (lowHash, cursors) = some (.ok result) ∧
      pm.Scanned blockHash top lowHash pruningPoint candidate result := by
  have topMem := (cc.consistent.onChain_pastOrSelf mem topChain).2
  have acyclic := cc.consistent.acyclic
  have topBound := pastCard_lt_card acyclic topMem
  refine loop_eq_ok_of_bound (fun n s => pm.Scanning blockHash top lowHash pruningPoint candidate s.1 s.2 ∧
      pastCard pm.topology.ghostdagManager.parents blocks top -
        pastCard pm.topology.ghostdagManager.parents blocks s.1 < n) _
    (fun _ holds => Nat.not_lt_zero _ holds.2) ?_ fuel _ ⟨start, by omega⟩
  rintro n ⟨current, c⟩ ⟨scanning, bound⟩
  dsimp only at scanning bound ⊢
  have currentMem := (cc.consistent.onChain_pastOrSelf topMem scanning.onChain_top).2
  obtain ⟨d, currentFound⟩ := cc.consistent.data currentMem
  have deepIff : pm.Deep blockHash current ↔ ¬ ghostdagData.blueScore - d.blueScore < pm.pruningDepth := by
    rw [Deep, blueScoreOf_of_found found, blueScoreOf_of_found currentFound, UInt64.not_lt]
  rw [pruningPointStep_of_found c currentFound]
  split_ifs with shallow
  · exact .inl ⟨c, rfl, scanning.stop cc mem topChain fun deep => deepIff.1 deep shallow⟩
  have taken := scanning.take cc mem topChain currentFound (deepIff.2 shallow)
  rcases cc.selectedChild_of_onChain topMem scanning.onChain_top with
    ⟨atTop, ended⟩ | ⟨child, next, childChain, selected⟩
  · rw [ended]
    exact .inl ⟨_, rfl, taken.stop cc mem topChain atTop⟩
  · rw [next]
    have childMem := (cc.consistent.onChain_pastOrSelf topMem childChain).2
    obtain ⟨_, _, _, link⟩ := cc.consistent.link_of_selectedParentOf childMem selected
    have up := pastCard_lt acyclic currentMem (past_of_mem_parents link.parent)
    have below := pastCard_le_of_pastOrSelf acyclic childMem
      (cc.consistent.onChain_pastOrSelf topMem childChain).1
    exact .inr ⟨(child, _), rfl, taken.next childChain selected, by dsimp only; omega⟩

theorem ChainConsistent.lowHash_eq (cc : pm.ChainConsistent blocks) {suggestedLowHash : Option DomainHash}
    (topMem : top ∈ blocks) (candidateChain : pm.topology.OnChain candidate top)
    (suggestedChain : ∀ s, suggestedLowHash = some s → pm.topology.OnChain s top) :
    ∃ low, pm.lowHash candidate suggestedLowHash = pure low ∧ pm.topology.OnChain candidate low ∧
      pm.topology.OnChain low top ∧ (suggestedLowHash = none → low = candidate) := by
  cases suggestedLowHash with
  | none => exact ⟨candidate, rfl, Relation.ReflTransGen.refl, candidateChain, fun _ => rfl⟩
  | some s =>
    have sChain := suggestedChain s rfl
    have candidateMem := (cc.consistent.onChain_pastOrSelf topMem candidateChain).2
    have sMem := (cc.consistent.onChain_pastOrSelf topMem sChain).2
    dsimp only [lowHash]
    by_cases below : pm.topology.OnChain s candidate
    · rw [if_pos ((cc.isInSelectedParentChainOf_iff sMem candidateMem).2 below)]
      exact ⟨candidate, rfl, Relation.ReflTransGen.refl, candidateChain, fun none => by cases none⟩
    · have above := (SyncManager.Manager.onChain_total candidateChain sChain).resolve_right below
      rw [if_neg fun onChain => below ((cc.isInSelectedParentChainOf_iff sMem candidateMem).1 onChain),
        if_pos ((cc.isInSelectedParentChainOf_iff candidateMem sMem).2 above)]
      exact ⟨s, rfl, above, sChain, fun none => by cases none⟩

theorem ChainConsistent.nextPruningPointAndCandidate_eq (cc : pm.ChainConsistent blocks) {fuel : Nat}
    (enough : blocks.card < fuel) {suggestedLowHash : Option DomainHash}
    (pruning : pm.pruningPoint = some pruningPoint)
    (pruningPointChain : pm.topology.OnChain pruningPoint pm.pruningPointCandidate)
    (mem : blockHash ∈ blocks) (selected : pm.topology.selectedParentOf blockHash = some top)
    (candidateChain : pm.topology.OnChain pm.pruningPointCandidate top)
    (suggestedChain : ∀ s, suggestedLowHash = some s → pm.topology.OnChain s top) :
    ∃ low result, pm.nextPruningPointAndCandidateByBlockHash fuel blockHash suggestedLowHash =
        pure (result.newPruningPoint, result.newCandidate) ∧
      pm.lowHash pm.pruningPointCandidate suggestedLowHash = pure low ∧
      pm.topology.OnChain pm.pruningPointCandidate low ∧
      (suggestedLowHash = none → low = pm.pruningPointCandidate) ∧
      pm.Scanned blockHash top low pruningPoint pm.pruningPointCandidate result := by
  obtain ⟨d, found, spSelected, -⟩ := cc.consistent.link_of_selectedParentOf mem selected
  have topChain : pm.topology.OnChain top blockHash := .single selected
  have topMem := (cc.consistent.onChain_pastOrSelf mem topChain).2
  obtain ⟨low, lowEq, candidateLow, lowTop, lowNone⟩ :=
    cc.lowHash_eq topMem candidateChain suggestedChain
  have lowMem := (cc.consistent.onChain_pastOrSelf topMem lowTop).2
  obtain ⟨dp, pruningPointFound⟩ := cc.consistent.data
    (cc.consistent.onChain_pastOrSelf topMem (pruningPointChain.trans candidateChain)).2
  have notLow : blockHash ≠ low := fun same =>
    cc.consistent.selectedParentOf_ne topMem (same ▸ lowTop) selected
  have iterated : pm.selectedChildIterator top low = pure (pm.selectedChild top) := by
    unfold selectedChildIterator
    rw [if_pos ((cc.isInSelectedParentChainOf_iff lowMem topMem).2 lowTop)]
  have start : pm.Scanning blockHash top low pruningPoint pm.pruningPointCandidate low
      ⟨pm.pruningPointCandidate, pruningPoint, dp⟩ :=
    ⟨Relation.ReflTransGen.refl, lowTop, pruningPointFound, .inl ⟨rfl, rfl, rfl⟩⟩
  obtain ⟨result, looped, scanned⟩ := cc.scan enough mem found topChain start
  refine ⟨low, result, ?_, lowEq, candidateLow, lowNone, scanned⟩
  simp only [nextPruningPointAndCandidateByBlockHash, lowEq, pruningStorePruningPoint_eq_pure.2 pruning,
    getGHOSTDAGData_eq_pure.2 found, getGHOSTDAGData_eq_pure.2 pruningPointFound, pure_bind,
    if_neg notLow, liftGhostdag_selectedParentOf_eq_pure.2 spSelected, iterated]
  rw [looped]
  rfl

theorem Scanned.candidate_onChain
    (scanned : pm.Scanned blockHash top lowHash pruningPoint candidate cursors)
    (candidateLow : pm.topology.OnChain candidate lowHash)
    (candidateTop : pm.topology.OnChain candidate top) :
    pm.topology.OnChain candidate cursors.newCandidate ∧ pm.topology.OnChain cursors.newCandidate top := by
  rcases scanned.taken with ⟨same, -⟩ | ⟨low, onTop, -⟩
  · rw [same]
    exact ⟨Relation.ReflTransGen.refl, candidateTop⟩
  · exact ⟨candidateLow.trans low, onTop⟩

theorem Scanned.pruningPoint_onChain
    (scanned : pm.Scanned blockHash top lowHash pruningPoint candidate cursors)
    (candidateLow : pm.topology.OnChain candidate lowHash)
    (pruningPointChain : pm.topology.OnChain pruningPoint candidate) :
    pm.topology.OnChain pruningPoint cursors.newPruningPoint ∧
      pm.topology.OnChain cursors.newPruningPoint cursors.newCandidate := by
  rcases scanned.taken with ⟨same, samePoint⟩ | ⟨low, -, -, -, samePoint | ⟨-, lowPoint, below, -⟩⟩
  · rw [same, samePoint]
    exact ⟨Relation.ReflTransGen.refl, pruningPointChain⟩
  · rw [samePoint]
    exact ⟨Relation.ReflTransGen.refl, pruningPointChain.trans (candidateLow.trans low)⟩
  · exact ⟨pruningPointChain.trans (candidateLow.trans lowPoint), below⟩

theorem Scanned.pruningPointMoved
    (scanned : pm.Scanned blockHash top lowHash pruningPoint candidate cursors) :
    pm.PruningPointMoved lowHash pruningPoint cursors := by
  rcases scanned.taken with ⟨-, samePoint⟩ | ⟨-, -, -, -, moved⟩
  · exact .inl samePoint
  · exact moved

end Scan

def walking (gm : GhostdagManager) (fuel : Nat) (pruningPoint candidate : Option DomainHash)
    (pruningDepth finalityInterval : UInt64) : PruningManager where
  ghostdagManager := gm
  isInSelectedParentChainOf a b := decide (a ∈ gm.selectedChain fuel b)
  findAncestorOfNode := gm.selectedChild fuel
  pruningPoint := pruningPoint
  candidate := candidate
  pruningDepth := pruningDepth
  finalityInterval := finalityInterval

theorem chainConsistent_walking {gm₀ gm : GhostdagManager} {order : List DomainHash}
    (valid : ValidDAG gm₀ order) (inv : RunInvariant gm₀ gm order.toFinset order.reverse) {fuel : Nat}
    (enough : order.length ≤ fuel) (pruningPoint candidate : Option DomainHash)
    (pruningDepth finalityInterval : UInt64) :
    (walking gm fuel pruningPoint candidate pruningDepth finalityInterval).ChainConsistent
      order.toFinset where
  consistent := SyncManager.Manager.consistent_chainOracles_of_runInvariant valid inv enough 0
  blueScoresGrow := GhostdagManager.blueScoresGrow_of_runInvariant inv

section Advancement
variable {pm} {blocks : Finset DomainHash}

/-- **Pruning-point advancement.** Over consistent GHOSTDAG data, take a pruning point on the
    chain of the candidate with no bigger a finality score, and a block whose selected parent's
    chain holds the candidate and the suggested low hash, if any. Then
    `nextPruningPointAndCandidateByBlockHash` returns. The scan starts at the higher of the
    candidate and the suggested low hash. The new candidate is on the block's chain at or above
    the old one: the old one, or a pruning-depth deep block above which no block from the scan's
    start up is deep. The new pruning point is on the new candidate's chain at or above the old
    one: the old one, or one of a bigger finality score, the lowest scanned block with that
    score. So the invariant holds again. -/
theorem nextPruningPointAndCandidate_advances (cc : pm.ChainConsistent blocks) {fuel : Nat}
    (enough : blocks.card < fuel) {pruningPoint blockHash selectedParent : DomainHash}
    {suggestedLowHash : Option DomainHash} (pruning : pm.pruningPoint = some pruningPoint)
    (invariant : pm.CandidateInvariant pruningPoint pm.pruningPointCandidate)
    (mem : blockHash ∈ blocks) (selected : pm.topology.selectedParentOf blockHash = some selectedParent)
    (candidateChain : pm.topology.OnChain pm.pruningPointCandidate selectedParent)
    (suggestedChain : ∀ s, suggestedLowHash = some s → pm.topology.OnChain s selectedParent) :
    ∃ lowHash newPruningPoint newCandidate,
      pm.nextPruningPointAndCandidateByBlockHash fuel blockHash suggestedLowHash =
        pure (newPruningPoint, newCandidate) ∧
      pm.lowHash pm.pruningPointCandidate suggestedLowHash = pure lowHash ∧
      (suggestedLowHash = none → lowHash = pm.pruningPointCandidate) ∧
      pm.topology.OnChain pm.pruningPointCandidate newCandidate ∧
      pm.topology.OnChain newCandidate blockHash ∧
      (newCandidate = pm.pruningPointCandidate ∨ pm.Deep blockHash newCandidate) ∧
      (∀ x, pm.topology.OnChain lowHash x → pm.topology.OnChain newCandidate x → x ≠ newCandidate →
        pm.topology.OnChain x blockHash → x ≠ blockHash → ¬ pm.Deep blockHash x) ∧
      pm.topology.OnChain pruningPoint newPruningPoint ∧
      pm.topology.OnChain newPruningPoint newCandidate ∧
      (newPruningPoint = pruningPoint ∨
        pm.finalityScore (pm.blueScoreOf pruningPoint) <
            pm.finalityScore (pm.blueScoreOf newPruningPoint) ∧
          pm.LowestOfScore lowHash newCandidate newPruningPoint) ∧
      pm.CandidateInvariant newPruningPoint newCandidate := by
  obtain ⟨low, result, called, lowEq, candidateLow, lowNone, scanned⟩ :=
    cc.nextPruningPointAndCandidate_eq enough pruning invariant.1 mem selected candidateChain
      suggestedChain
  have topChain : pm.topology.OnChain selectedParent blockHash := .single selected
  have topMem := (cc.consistent.onChain_pastOrSelf mem topChain).2
  obtain ⟨candidateAbove, candidateTop⟩ := scanned.candidate_onChain candidateLow candidateChain
  obtain ⟨pointAbove, pointBelow⟩ := scanned.pruningPoint_onChain candidateLow invariant.1
  have candidateMem := (cc.consistent.onChain_pastOrSelf topMem candidateTop).2
  refine ⟨low, result.newPruningPoint, result.newCandidate, called, lowEq, lowNone, candidateAbove,
    candidateTop.trans topChain, ?_, fun x lowX candidateX ne xChain notBlock => ?_, pointAbove,
    pointBelow, scanned.pruningPointMoved, pointBelow, cc.finalityScore_le candidateMem pointBelow⟩
  · rcases scanned.taken with ⟨same, -⟩ | ⟨-, -, deep, -⟩
    · exact .inl same
    · exact .inr deep
  · rcases SyncManager.Manager.onChain_iff.1 xChain with same | ⟨sp, step, below⟩
    · exact absurd same notBlock
    · obtain rfl := Option.some.inj (step.symm.trans selected)
      exact scanned.highest x lowX candidateX ne below

def lineParents (h : DomainHash) : List DomainHash :=
  if h = ⟨4⟩ then [⟨3⟩] else if h = ⟨3⟩ then [⟨2⟩] else if h = ⟨2⟩ then [⟨1⟩]
  else if h = ⟨1⟩ then [⟨0⟩] else []

def line : GhostdagManager where
  parents := lineParents
  isAncestorOf a b := decide (a ∈ pastOrSelfList lineParents 4 b)
  ghostdagDataStore _ _ := none
  headerStore _ := some ⟨1, 1, 0x207fffff⟩
  k := 18
  genesisHash := ⟨0⟩

theorem line_valid : ValidDAG line [⟨0⟩, ⟨1⟩, ⟨2⟩, ⟨3⟩, ⟨4⟩] := by
  have closed : ∀ b ∈ [(⟨0⟩ : DomainHash), ⟨1⟩, ⟨2⟩, ⟨3⟩, ⟨4⟩], SearchClosed lineParents 4 b := by
    decide
  have parentsClosed : ∀ b ∈ [(⟨0⟩ : DomainHash), ⟨1⟩, ⟨2⟩, ⟨3⟩, ⟨4⟩], ∀ c ∈ lineParents b,
      ∀ p ∈ lineParents c, SearchClosed lineParents 4 p := by decide
  have apart : ∀ b ∈ [(⟨0⟩ : DomainHash), ⟨1⟩, ⟨2⟩, ⟨3⟩, ⟨4⟩], ∀ a ∈ lineParents b,
      ∀ c ∈ lineParents b, ∀ p ∈ lineParents c, a ∉ pastOrSelfList lineParents 4 p := by
    decide
  refine ⟨acyclic_of_rank (fun h => h.value.val) ?_, by decide, rfl, rfl, by decide, by decide,
    fun b mem => antichain_of_search (parentsClosed b mem) (apart b mem), ?_, by decide,
    by decide, fun _ _ => rfl, by decide⟩
  · intro b p parent
    change p ∈ lineParents b at parent
    unfold lineParents at parent
    split_ifs at parent <;> first
      | exact absurd parent List.not_mem_nil
      | (subst_vars; rw [List.mem_singleton.mp parent]; decide)
  · intro a _ b bMem
    exact decide_eq_true_iff.trans (mem_pastOrSelfList_iff (closed b bMem))

def lineRun : GhostdagManager :=
  match line.ghostdagRun 6 [⟨0⟩, ⟨1⟩, ⟨2⟩, ⟨3⟩, ⟨4⟩] with
  | some (.ok gm) => gm
  | _ => line

def lineManager : PruningManager := walking lineRun 6 (some ⟨0⟩) none 2 2

theorem lineManager_chainConsistent :
    lineManager.ChainConsistent [⟨0⟩, ⟨1⟩, ⟨2⟩, ⟨3⟩, ⟨4⟩].toFinset := by
  obtain ⟨gm', ran, inv⟩ := RunInvariant.of_ghostdagRun line_valid.toDagInput
    (by decide : [(⟨0⟩ : DomainHash), ⟨1⟩, ⟨2⟩, ⟨3⟩, ⟨4⟩].length < 6)
  obtain rfl : lineRun = gm' := pure_inj ((rfl : line.ghostdagRun 6 _ = pure lineRun).symm.trans ran)
  exact chainConsistent_walking line_valid inv (by decide) _ _ _ _

theorem lineManager_onChain_three : lineManager.topology.OnChain ⟨0⟩ ⟨3⟩ := by
  have one : lineManager.topology.OnChain ⟨0⟩ ⟨1⟩ := .single rfl
  exact (one.tail rfl).tail rfl

theorem nextPruningPointAndCandidate_advances_line :
    lineManager.ChainConsistent [⟨0⟩, ⟨1⟩, ⟨2⟩, ⟨3⟩, ⟨4⟩].toFinset ∧
      lineManager.CandidateInvariant ⟨0⟩ lineManager.pruningPointCandidate ∧
      lineManager.topology.OnChain lineManager.pruningPointCandidate ⟨3⟩ ∧
      lineManager.nextPruningPointAndCandidateByBlockHash 6 ⟨4⟩ none = pure (⟨2⟩, ⟨2⟩) ∧
      ∃ newPruningPoint newCandidate,
        lineManager.nextPruningPointAndCandidateByBlockHash 6 ⟨4⟩ none =
          pure (newPruningPoint, newCandidate) ∧
        lineManager.topology.OnChain ⟨0⟩ newPruningPoint ∧
        lineManager.CandidateInvariant newPruningPoint newCandidate := by
  have cc := lineManager_chainConsistent
  have invariant : lineManager.CandidateInvariant ⟨0⟩ lineManager.pruningPointCandidate :=
    ⟨Relation.ReflTransGen.refl, UInt64.le_refl _⟩
  have chain : lineManager.topology.OnChain lineManager.pruningPointCandidate ⟨3⟩ :=
    lineManager_onChain_three
  have enough : ([⟨0⟩, ⟨1⟩, ⟨2⟩, ⟨3⟩, ⟨4⟩] : List DomainHash).toFinset.card < 6 :=
    (List.toFinset_card_le _).trans_lt (by decide)
  have mem : (⟨4⟩ : DomainHash) ∈ ([⟨0⟩, ⟨1⟩, ⟨2⟩, ⟨3⟩, ⟨4⟩] : List DomainHash).toFinset :=
    List.mem_toFinset.2 (by decide)
  have noSuggested : ∀ s, (none : Option DomainHash) = some s →
      lineManager.topology.OnChain s ⟨3⟩ := fun _ none => by cases none
  obtain ⟨-, newPruningPoint, newCandidate, called, -, -, -, -, -, -, above, -, -, holds⟩ :=
    nextPruningPointAndCandidate_advances cc enough rfl invariant mem rfl chain noSuggested
  exact ⟨cc, invariant, chain, rfl, newPruningPoint, newCandidate, called, above, holds⟩

/-- With a suggested low hash above the candidate, the scan skips the blocks between them. On the
    chain, from the genesis as candidate and block 3 as suggested low hash, the scan of block 4
    stops at block 3, which is not deep. It keeps the genesis as candidate, though block 2 of the
    chain above it is deep. -/
theorem nextPruningPointAndCandidate_suggested_skips :
    lineManager.ChainConsistent [⟨0⟩, ⟨1⟩, ⟨2⟩, ⟨3⟩, ⟨4⟩].toFinset ∧
      lineManager.pruningPoint = some ⟨0⟩ ∧ lineManager.pruningPointCandidate = ⟨0⟩ ∧
      lineManager.CandidateInvariant ⟨0⟩ ⟨0⟩ ∧
      lineManager.topology.selectedParentOf ⟨4⟩ = some ⟨3⟩ ∧ lineManager.topology.OnChain ⟨0⟩ ⟨3⟩ ∧
      lineManager.nextPruningPointAndCandidateByBlockHash 6 ⟨4⟩ (some ⟨3⟩) = pure (⟨0⟩, ⟨0⟩) ∧
      lineManager.topology.OnChain ⟨0⟩ ⟨2⟩ ∧ lineManager.topology.OnChain ⟨2⟩ ⟨4⟩ ∧
      (⟨2⟩ : DomainHash) ≠ ⟨0⟩ ∧ (⟨2⟩ : DomainHash) ≠ ⟨4⟩ ∧ lineManager.Deep ⟨4⟩ ⟨2⟩ := by
  have one : lineManager.topology.OnChain ⟨0⟩ ⟨1⟩ := .single rfl
  have three : lineManager.topology.OnChain ⟨2⟩ ⟨3⟩ := .single rfl
  have two : lineManager.topology.OnChain ⟨0⟩ ⟨2⟩ := one.tail rfl
  have above : lineManager.topology.OnChain ⟨2⟩ ⟨4⟩ := three.tail rfl
  refine ⟨lineManager_chainConsistent, rfl, rfl, ⟨Relation.ReflTransGen.refl, UInt64.le_refl _⟩, rfl,
    lineManager_onChain_three, rfl, two, above, by decide, by decide, ?_⟩
  unfold Deep
  decide

end Advancement

end PruningManager

end Pruning
