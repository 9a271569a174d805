import Mathlib.Data.List.AList
import Mathlib.Data.List.Sort
import Htnd.Lib.GoSemantics
import Htnd.Utxo.Collection
import Htnd.Util.Difficulty

/-!
GHOSTDAG as the ghostdag manager computes it (ghostdagmanager: ghostdag.go, mergeset.go,
compare.go), with the work of a block (util/difficulty). A call reads the DAG through two
functions of the DAG topology manager, the GHOSTDAG data of earlier blocks through the GHOSTDAG
data store (whose second argument says whether the trusted-data store is read), and the bits of
earlier headers through the header store. A store read that finds nothing is an error; the
three loops that walk the DAG (the merge-set search, the selected-chain walk of
`checkBlueCandidate` and that of `blueAnticoneSize`) run for at most `fuel` turns, and `none`
is the result of one that has not left by then. K and the blue anticone sizes, of Go's byte
type `KType`, are numbers: no size the code stores passes K + 1.
-/
namespace Ghostdag
open GoSemantics Utxo

structure BlockGHOSTDAGData where
  blueScore : UInt64
  blueWork : Nat
  selectedParent : Option DomainHash
  mergeSetBlues : List DomainHash
  mergeSetReds : List DomainHash
  bluesAnticoneSizes : AList fun _ : DomainHash => Nat

structure BlockHeader where
  version : UInt16
  daaScore : UInt64
  bits : UInt32

inductive GhostdagError where
  | notFound (hash : DomainHash)
  | headerNotFound (hash : DomainHash)
  | nilSelectedParent
  | notInBlueSet (block : DomainHash)
  | blueAnticoneSizeLargerThanK (size k : Nat)
  deriving DecidableEq, Repr

abbrev GhostdagM := ExceptT GhostdagError Option

/-- The hash `fefe…fe` of model/virtual.go. -/
def virtualGenesisBlockHash : DomainHash :=
  ⟨⟨(2 ^ 256 - 1) / 255 * 254, by decide⟩⟩

def calcWork (bits : UInt32) : Nat :=
  let difficultyNum := Difficulty.compactToBig bits
  if difficultyNum ≤ 0 then 0
  else 2 ^ 256 / (difficultyNum.toNat + 1)

def Less (blockHashA : DomainHash) (ghostdagDataA : BlockGHOSTDAGData) (blockHashB : DomainHash)
    (ghostdagDataB : BlockGHOSTDAGData) : Bool :=
  if ghostdagDataA.blueWork < ghostdagDataB.blueWork then true
  else if ghostdagDataB.blueWork < ghostdagDataA.blueWork then false
  else decide (blockHashA.value < blockHashB.value)

/-- The fields of the Go `ghostdagManager` that GHOSTDAG reads; `k` is the entry
    `k[GetBlockVersion()-1]` of the manager's K table, a `KType` (uint8), read when the call
    starts. The counts compared with it are naturals: they stay at most `k + 1`. -/
structure GhostdagManager where
  parents : DomainHash → List DomainHash
  isAncestorOf : DomainHash → DomainHash → Bool
  ghostdagDataStore : DomainHash → Bool → Option BlockGHOSTDAGData
  headerStore : DomainHash → Option BlockHeader
  k : UInt8
  genesisHash : DomainHash

namespace GhostdagManager
variable (gm : GhostdagManager)

def getGHOSTDAGData (blockHash : DomainHash) (isTrustedData : Bool) :
    GhostdagM BlockGHOSTDAGData :=
  match gm.ghostdagDataStore blockHash isTrustedData with
  | none => throw (.notFound blockHash)
  | some data => pure data

/-- The selected parent of a block's data, which Go reads through a pointer that is nil for
    the genesis. -/
def selectedParentOf (data : BlockGHOSTDAGData) : GhostdagM DomainHash :=
  match data.selectedParent with
  | none => throw .nilSelectedParent
  | some selectedParent => pure selectedParent

def chooseSelectedParent (first : DomainHash) (rest : List DomainHash) : GhostdagM DomainHash := do
  let firstData ← gm.getGHOSTDAGData first false
  let chosen ← (first :: rest).foldlM (fun (chosen : DomainHash × BlockGHOSTDAGData) blockHash => do
      let blockGHOSTDAGData ← gm.getGHOSTDAGData blockHash false
      if Less chosen.1 chosen.2 blockHash blockGHOSTDAGData then pure (blockHash, blockGHOSTDAGData)
      else pure chosen) (first, firstData)
  pure chosen.1

def less (blockHashA blockHashB : DomainHash) : GhostdagM Bool := do
  let chosenSelectedParent ← gm.chooseSelectedParent blockHashA [blockHashB]
  pure (chosenSelectedParent == blockHashB)

def findSelectedParent (parentHashes : List DomainHash) : GhostdagM (Option DomainHash) :=
  parentHashes.foldlM (fun selectedParent hash =>
      match selectedParent with
      | none => pure (some hash)
      | some selectedParent => do
        let isHashBiggerThanSelectedParent ← gm.less selectedParent hash
        pure (some (if isHashBiggerThanSelectedParent then hash else selectedParent))) none

/-- The variables of the search of `mergeSetWithoutSelectedParent`. The slice also stands for
    `mergeSetMap`, which always holds the same hashes. -/
structure MergeSetSearch where
  mergeSetSlice : List DomainHash
  selectedParentPast : List DomainHash
  queue : List DomainHash

/-- A turn of the inner loop of the search, on one parent of the block taken from the queue.
    Go's selected parent is nil only for a block without parents, where no parent is visited. -/
def visitParent (selectedParent : Option DomainHash) (s : MergeSetSearch) (parent : DomainHash) :
    MergeSetSearch :=
  if parent ∈ s.mergeSetSlice then s
  else if parent ∈ s.selectedParentPast then s
  else if selectedParent.any (gm.isAncestorOf parent) then
    { s with selectedParentPast := parent :: s.selectedParentPast }
  else
    { s with
      mergeSetSlice := s.mergeSetSlice ++ [parent]
      queue := s.queue ++ [parent] }

def mergeSetSearchStep (selectedParent : Option DomainHash) (s : MergeSetSearch) :
    GhostdagM (MergeSetSearch ⊕ List DomainHash) :=
  match s.queue with
  | [] => pure (.inr s.mergeSetSlice)
  | current :: queue =>
    pure (.inl ((gm.parents current).foldl (gm.visitParent selectedParent) { s with queue }))

/-- `sortMergeSet`: `sort.Slice` with `less`, which reads the data of the blocks it compares.
    On distinct hashes with data, `Less` is a strict total order, so the sorted slice is the
    one insertion sort gives for its reflexive closure. A slice of two or more hashes one of
    which has no data fails. -/
def sortMergeSet (mergeSetSlice : List DomainHash) : GhostdagM (List DomainHash) :=
  if mergeSetSlice.length < 2 then pure mergeSetSlice
  else
    match mergeSetSlice.find? fun hash => (gm.ghostdagDataStore hash false).isNone with
    | some missing => throw (.notFound missing)
    | none =>
      let blueWork (hash : DomainHash) : Nat :=
        ((gm.ghostdagDataStore hash false).map BlockGHOSTDAGData.blueWork).getD 0
      pure (mergeSetSlice.insertionSort fun a b =>
        blueWork a < blueWork b ∨ blueWork a = blueWork b ∧ a.value ≤ b.value)

def mergeSetWithoutSelectedParent (fuel : Nat) (selectedParent : Option DomainHash)
    (blockParents : List DomainHash) : GhostdagM (List DomainHash) := do
  let queued := blockParents.filter fun parent => selectedParent != some parent
  let mergeSetSlice ← ExceptT.mk
    (loop (fun s => (gm.mergeSetSearchStep selectedParent s).run) fuel ⟨queued, [], queued⟩)
  gm.sortMergeSet mergeSetSlice

def blueAnticoneSizeStep (block : DomainHash) (state : BlockGHOSTDAGData × Bool) :
    GhostdagM ((BlockGHOSTDAGData × Bool) ⊕ Nat) := do
  let (current, isTrustedData) := state
  match current.bluesAnticoneSizes.lookup block with
  | some blueAnticoneSize => pure (.inr blueAnticoneSize)
  | none =>
    if current.selectedParent = some gm.genesisHash then throw (.notInBlueSet block)
    let selectedParent ← selectedParentOf current
    let current ← gm.getGHOSTDAGData selectedParent isTrustedData
    if current.selectedParent = some virtualGenesisBlockHash then
      let current ← gm.getGHOSTDAGData virtualGenesisBlockHash true
      pure (.inl (current, true))
    else pure (.inl (current, isTrustedData))

def blueAnticoneSize (fuel : Nat) (block : DomainHash) (context : BlockGHOSTDAGData) :
    GhostdagM Nat :=
  ExceptT.mk (loop (fun state => (gm.blueAnticoneSizeStep block state).run) fuel (context, false))

/-- The range loop of `checkBlueCandidateWithChainBlock` over the chain block's merge-set
    blues; it answers whether the candidate is red, with the map and the count it updated. -/
def checkBlueCandidateWithBlues (fuel : Nat) (newBlockData : BlockGHOSTDAGData)
    (blueCandidate : DomainHash) :
    List DomainHash → (AList fun _ : DomainHash => Nat) → Nat →
      GhostdagM (Bool × (AList fun _ : DomainHash => Nat) × Nat)
  | [], candidateBluesAnticoneSizes, candidateAnticoneSize =>
    pure (false, candidateBluesAnticoneSizes, candidateAnticoneSize)
  | block :: blocks, candidateBluesAnticoneSizes, candidateAnticoneSize =>
    if gm.isAncestorOf block blueCandidate then
      checkBlueCandidateWithBlues fuel newBlockData blueCandidate blocks candidateBluesAnticoneSizes
        candidateAnticoneSize
    else do
      let blueAnticoneSize ← gm.blueAnticoneSize fuel block newBlockData
      let candidateBluesAnticoneSizes := candidateBluesAnticoneSizes.insert block blueAnticoneSize
      let candidateAnticoneSize := candidateAnticoneSize + 1
      if candidateAnticoneSize > gm.k.toNat then pure (true, candidateBluesAnticoneSizes, candidateAnticoneSize)
      else if blueAnticoneSize = gm.k.toNat then
        pure (true, candidateBluesAnticoneSizes, candidateAnticoneSize)
      else if blueAnticoneSize > gm.k.toNat then throw (.blueAnticoneSizeLargerThanK blueAnticoneSize gm.k.toNat)
      else
        checkBlueCandidateWithBlues fuel newBlockData blueCandidate blocks
          candidateBluesAnticoneSizes candidateAnticoneSize

structure ChainBlockData where
  hash : Option DomainHash
  blockData : BlockGHOSTDAGData

/-- `checkBlueCandidateWithChainBlock`: whether the candidate is blue, whether it is red, and
    the map and the count. -/
def checkBlueCandidateWithChainBlock (fuel : Nat) (newBlockData : BlockGHOSTDAGData)
    (chainBlock : ChainBlockData) (blueCandidate : DomainHash)
    (candidateBluesAnticoneSizes : AList fun _ : DomainHash => Nat)
    (candidateAnticoneSize : Nat) :
    GhostdagM (Bool × Bool × (AList fun _ : DomainHash => Nat) × Nat) :=
  if chainBlock.hash.any (gm.isAncestorOf · blueCandidate) then
    pure (true, false, candidateBluesAnticoneSizes, candidateAnticoneSize)
  else do
    let (isRed, candidateBluesAnticoneSizes, candidateAnticoneSize) ←
      gm.checkBlueCandidateWithBlues fuel newBlockData blueCandidate
        chainBlock.blockData.mergeSetBlues candidateBluesAnticoneSizes candidateAnticoneSize
    pure (false, isRed, candidateBluesAnticoneSizes, candidateAnticoneSize)

structure CheckBlueCandidateLoop where
  chainBlock : ChainBlockData
  candidateBluesAnticoneSizes : AList fun _ : DomainHash => Nat
  candidateAnticoneSize : Nat

def checkBlueCandidateStep (fuel : Nat) (newBlockData : BlockGHOSTDAGData)
    (blueCandidate : DomainHash) (s : CheckBlueCandidateLoop) :
    GhostdagM (CheckBlueCandidateLoop ⊕
      (Bool × Nat × (AList fun _ : DomainHash => Nat))) := do
  let (isBlue, isRed, candidateBluesAnticoneSizes, candidateAnticoneSize) ←
    gm.checkBlueCandidateWithChainBlock fuel newBlockData s.chainBlock blueCandidate
      s.candidateBluesAnticoneSizes s.candidateAnticoneSize
  if isBlue then pure (.inr (true, candidateAnticoneSize, candidateBluesAnticoneSizes))
  else if isRed then pure (.inr (false, 0, ∅))
  else
    let selectedParent ← selectedParentOf s.chainBlock.blockData
    let selectedParentGHOSTDAGData ← gm.getGHOSTDAGData selectedParent false
    pure (.inl ⟨⟨some selectedParent, selectedParentGHOSTDAGData⟩, candidateBluesAnticoneSizes,
      candidateAnticoneSize⟩)

def checkBlueCandidate (fuel : Nat) (newBlockData : BlockGHOSTDAGData)
    (blueCandidate : DomainHash) :
    GhostdagM (Bool × Nat × (AList fun _ : DomainHash => Nat)) :=
  if newBlockData.mergeSetBlues.length = gm.k.toNat + 1 then pure (false, 0, ∅)
  else ExceptT.mk (loop (fun s => (gm.checkBlueCandidateStep fuel newBlockData blueCandidate s).run)
    fuel ⟨⟨none, newBlockData⟩, ∅, 0⟩)

def colorCandidate (fuel : Nat) (newBlockData : BlockGHOSTDAGData) (blueCandidate : DomainHash) :
    GhostdagM BlockGHOSTDAGData := do
  let (isBlue, candidateAnticoneSize, candidateBluesAnticoneSizes) ←
    gm.checkBlueCandidate fuel newBlockData blueCandidate
  if isBlue then
    pure { newBlockData with
      mergeSetBlues := newBlockData.mergeSetBlues ++ [blueCandidate]
      bluesAnticoneSizes := candidateBluesAnticoneSizes.entries.foldl
        (fun sizes blue => sizes.insert blue.1 (blue.2 + 1))
        (newBlockData.bluesAnticoneSizes.insert blueCandidate candidateAnticoneSize) }
  else
    pure { newBlockData with mergeSetReds := newBlockData.mergeSetReds ++ [blueCandidate] }

def addBlueWork (blueWork : Nat) (blue : DomainHash) : GhostdagM Nat :=
  if blue = virtualGenesisBlockHash then pure blueWork
  else
    match gm.headerStore blue with
    | none => throw (.headerNotFound blue)
    | some header => pure (blueWork + calcWork header.bits)

def ghostdag (fuel : Nat) (blockHash : DomainHash) : GhostdagM BlockGHOSTDAGData := do
  let blockParents := gm.parents blockHash
  let isGenesis := blockParents.length = 0
  let empty : BlockGHOSTDAGData := ⟨0, 0, none, [], [], ∅⟩
  let newBlockData ←
    if isGenesis then pure empty
    else do
      let selectedParent ← gm.findSelectedParent blockParents
      match selectedParent with
      | none => throw .nilSelectedParent
      | some selectedParent =>
        pure { empty with
          selectedParent := some selectedParent
          mergeSetBlues := [selectedParent]
          bluesAnticoneSizes := AList.insert selectedParent 0 ∅ }
  let mergeSetWithoutSelectedParent ←
    gm.mergeSetWithoutSelectedParent fuel newBlockData.selectedParent blockParents
  let newBlockData ← mergeSetWithoutSelectedParent.foldlM (gm.colorCandidate fuel) newBlockData
  if isGenesis then pure { newBlockData with blueScore := 0, blueWork := 0 }
  else do
    let selectedParent ← selectedParentOf newBlockData
    let selectedParentGHOSTDAGData ← gm.getGHOSTDAGData selectedParent false
    let blueWork ← newBlockData.mergeSetBlues.foldlM gm.addBlueWork
      selectedParentGHOSTDAGData.blueWork
    pure { newBlockData with
      blueScore := selectedParentGHOSTDAGData.blueScore + newBlockData.mergeSetBlues.length.toUInt64
      blueWork }

def stage (blockHash : DomainHash) (data : BlockGHOSTDAGData) : GhostdagManager :=
  { gm with
    ghostdagDataStore := fun hash isTrustedData =>
      if hash = blockHash ∧ isTrustedData = false then some data
      else gm.ghostdagDataStore hash isTrustedData }

def ghostdagRun (fuel : Nat) : List DomainHash → GhostdagManager → GhostdagM GhostdagManager
  | [], gm => pure gm
  | blockHash :: blocks, gm => do
    let data ← gm.ghostdag fuel blockHash
    ghostdagRun fuel blocks (gm.stage blockHash data)

end GhostdagManager

end Ghostdag
