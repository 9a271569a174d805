import Htnd.GhostdagManager.Ghostdag

/-!
The second GHOSTDAG of the repository (ghostdag2: ghostdagimpl.go), which the GHOSTDAG test
runs beside the ghostdag manager on the same DAGs. It searches the merge set from every parent,
the selected one included, collects the blue set of the selected parent by a walk down its
selected chain, and colours each merge-set block by counting, afresh against that blue set,
the block's anticone and then the anticone of every blue in it. Its search and its walk run for
at most `fuel` turns; a block without parents makes the index of its first parent panic.
-/
namespace Ghostdag2
open Ghostdag GoSemantics Utxo

inductive HelperError where
  | notFound (hash : DomainHash)
  | headerNotFound (hash : DomainHash)
  | panic (p : Panic)
  deriving DecidableEq, Repr

abbrev HelperM := ExceptT HelperError Option

/-- The fields of the Go `ghostdagHelper` that GHOSTDAG reads; `k` is the entry
    `k[GetBlockVersion()-1]` of its K table, a `KType` (uint8) that the code compares as an int. -/
structure GhostdagHelper where
  k : UInt8
  dataStore : DomainHash → Bool → Option BlockGHOSTDAGData
  parents : DomainHash → List DomainHash
  isAncestorOf : DomainHash → DomainHash → Bool
  headerStore : DomainHash → Option BlockHeader

def ismoreHash (parent selectedParent : DomainHash) : Bool :=
  decide (selectedParent.value < parent.value)

def contains (item : DomainHash) (items : List DomainHash) : Bool :=
  items.contains item

/-- The append guarded by `contains` that every slice of the file goes through. -/
def appendMissing (item : DomainHash) (items : List DomainHash) : List DomainHash :=
  if contains item items then items else items ++ [item]

namespace GhostdagHelper
variable (gh : GhostdagHelper)

def get (blockHash : DomainHash) : HelperM BlockGHOSTDAGData :=
  match gh.dataStore blockHash false with
  | none => throw (.notFound blockHash)
  | some data => pure data

def selectParent (acc : DomainHash × Nat × UInt64) (parent : DomainHash) :
    HelperM (DomainHash × Nat × UInt64) := do
  let blockData ← gh.get parent
  let blockWork := blockData.blueWork
  let blockScore := blockData.blueScore
  let acc := if acc.2.1 < blockWork then (parent, blockWork, blockScore) else acc
  if blockWork = acc.2.1 ∧ ismoreHash parent acc.1 = true then pure (parent, blockWork, blockScore)
  else pure acc

def insertParent (child : DomainHash) (queue : List DomainHash) : List DomainHash :=
  (gh.parents child).foldl (fun queue parent => appendMissing parent queue) queue

structure MergeSetSearch where
  allMergeSet : List DomainHash
  blockQueue : List DomainHash

def findMergeSetStep (selectedParent : DomainHash) (s : MergeSetSearch) :
    HelperM (MergeSetSearch ⊕ List DomainHash) :=
  match s.blockQueue with
  | [] => pure (.inr s.allMergeSet)
  | block :: blockQueue =>
    if selectedParent = block then pure (.inl ⟨appendMissing block s.allMergeSet, blockQueue⟩)
    else if gh.isAncestorOf block selectedParent then pure (.inl ⟨s.allMergeSet, blockQueue⟩)
    else pure (.inl ⟨appendMissing block s.allMergeSet, gh.insertParent block blockQueue⟩)

def findMergeSet (fuel : Nat) (parents : List DomainHash) (selectedParent : DomainHash) :
    HelperM (List DomainHash) :=
  let blockQueue := parents.foldl (fun queue parent => appendMissing parent queue) []
  ExceptT.mk (loop (fun s => (gh.findMergeSetStep selectedParent s).run) fuel ⟨[], blockQueue⟩)

/-- `sortByBlueWork`: `sort.Slice` by blue work and then by hash, both ascending. On distinct
    hashes with data this is a strict total order, so the sorted slice is the one insertion
    sort gives for its reflexive closure. A slice of two or more hashes one of which has no
    data fails. -/
def sortByBlueWork (arr : List DomainHash) : HelperM (List DomainHash) :=
  if arr.length < 2 then pure arr
  else
    match arr.find? fun hash => (gh.dataStore hash false).isNone with
    | some missing => throw (.notFound missing)
    | none =>
      let blueWork (hash : DomainHash) : Nat :=
        ((gh.dataStore hash false).map BlockGHOSTDAGData.blueWork).getD 0
      pure (arr.insertionSort fun a b =>
        blueWork a < blueWork b ∨ blueWork a = blueWork b ∧ a.value ≤ b.value)

def findBlueSetStep (s : List DomainHash × Option DomainHash) :
    HelperM ((List DomainHash × Option DomainHash) ⊕ List DomainHash) :=
  match s.2 with
  | none => pure (.inr s.1)
  | some selectedParent => do
    let blueSet := appendMissing selectedParent s.1
    let blockData ← gh.get selectedParent
    let blueSet := blockData.mergeSetBlues.foldl (fun blueSet blue => appendMissing blue blueSet)
      blueSet
    pure (.inl (blueSet, blockData.selectedParent))

def findBlueSet (fuel : Nat) (blueSet : List DomainHash) (selectedParent : DomainHash) :
    HelperM (List DomainHash) :=
  ExceptT.mk (loop (fun s => (gh.findBlueSetStep s).run) fuel (blueSet, some selectedParent))

def isAnticone (blockA blockB : DomainHash) : Bool :=
  if gh.isAncestorOf blockA blockB then false else !gh.isAncestorOf blockB blockA

def anticoneSuspects (desiredBlock : DomainHash) :
    List DomainHash → Nat → List DomainHash → Option (List DomainHash)
  | [], _, suspectsBlues => some suspectsBlues
  | block :: blueSet, counter, suspectsBlues =>
    let (counter, suspectsBlues) :=
      if gh.isAnticone block desiredBlock then (counter + 1, suspectsBlues ++ [block])
      else (counter, suspectsBlues)
    if counter > gh.k.toNat then none
    else anticoneSuspects desiredBlock blueSet counter suspectsBlues

def checkIfDestroy (blockBlue : DomainHash) : List DomainHash → Nat → Bool
  | [], _ => false
  | blue :: blueSet, counter =>
    let counter := if gh.isAnticone blue blockBlue then counter + 1 else counter
    if counter > gh.k.toNat then true else checkIfDestroy blockBlue blueSet counter

/-- The three slices that `divideBlueRed` is given pointers to. -/
structure Coloring where
  blues : List DomainHash
  reds : List DomainHash
  blueSet : List DomainHash

def divideBlueRed (desiredBlock : DomainHash) (c : Coloring) : Coloring :=
  let red := { c with reds := appendMissing desiredBlock c.reds }
  match gh.anticoneSuspects desiredBlock c.blueSet 0 [] with
  | none => red
  | some suspectsBlues =>
    if suspectsBlues.any fun blue => gh.checkIfDestroy blue c.blueSet 0 then red
    else { c with
      blues := appendMissing desiredBlock c.blues
      blueSet := appendMissing desiredBlock c.blueSet }

def colorMergeSetBlock (selectedParent : DomainHash) (c : Coloring) (mergeSetBlock : DomainHash) :
    Coloring :=
  if mergeSetBlock = selectedParent then
    if contains selectedParent c.blues then c
    else { c with
      blues := c.blues ++ [selectedParent]
      blueSet := c.blueSet ++ [selectedParent] }
  else gh.divideBlueRed mergeSetBlock c

def addWork (myWork : Nat) (blue : DomainHash) : HelperM Nat :=
  match gh.headerStore blue with
  | none => throw (.headerNotFound blue)
  | some header => pure (myWork + calcWork header.bits)

def ghostdag (fuel : Nat) (blockCandidate : DomainHash) : HelperM BlockGHOSTDAGData := do
  let blockParents := gh.parents blockCandidate
  let first ← match sliceIndex blockParents 0 with
    | .error p => throw (.panic p)
    | .ok first => pure first
  let (selectedParent, maxWork, spScore) ← blockParents.foldlM gh.selectParent (first, 0, 0)
  let mergeSetArr ← gh.findMergeSet fuel blockParents selectedParent
  let mergeSetArr ← gh.sortByBlueWork mergeSetArr
  let blueSet ← gh.findBlueSet fuel [] selectedParent
  let colored := mergeSetArr.foldl (gh.colorMergeSetBlock selectedParent) ⟨[selectedParent], [], blueSet⟩
  let myWork ← colored.blues.foldlM gh.addWork maxWork
  pure ⟨spScore + colored.blues.length.toUInt64, myWork, some selectedParent, colored.blues,
    colored.reds, ∅⟩

def stage (blockHash : DomainHash) (data : BlockGHOSTDAGData) : GhostdagHelper :=
  { gh with
    dataStore := fun hash isTrustedData =>
      if hash = blockHash ∧ isTrustedData = false then some data
      else gh.dataStore hash isTrustedData }

def ghostdagRun (fuel : Nat) : List DomainHash → GhostdagHelper → HelperM GhostdagHelper
  | [], gh => pure gh
  | blockHash :: blocks, gh => do
    let data ← gh.ghostdag fuel blockHash
    ghostdagRun fuel blocks (gh.stage blockHash data)

/-! ### The colouring of a merge-set block -/

theorem checkIfDestroy_eq (blockBlue : DomainHash) (blueSet : List DomainHash) {counter : Nat}
    (small : counter ≤ gh.k.toNat) :
    gh.checkIfDestroy blockBlue blueSet counter =
      decide (gh.k.toNat < counter + (blueSet.filter (gh.isAnticone · blockBlue)).length) := by
  induction blueSet generalizing counter with
  | nil =>
    simp only [checkIfDestroy, List.filter_nil, List.length_nil, Nat.add_zero]
    exact (decide_eq_false (by omega)).symm
  | cons blue blueSet ih =>
    simp only [checkIfDestroy, List.filter_cons]
    by_cases anti : gh.isAnticone blue blockBlue = true
    · simp only [anti, if_true, List.length_cons]
      split
      · exact (decide_eq_true (by omega)).symm
      · rw [ih (by omega), Nat.add_assoc, Nat.add_comm 1]
    · simp only [anti, Bool.false_eq_true, if_false]
      rw [if_neg (by omega), ih small]

theorem anticoneSuspects_eq (desiredBlock : DomainHash) (blueSet : List DomainHash)
    {counter : Nat} (small : counter ≤ gh.k.toNat) (suspectsBlues : List DomainHash) :
    gh.anticoneSuspects desiredBlock blueSet counter suspectsBlues =
      if counter + (blueSet.filter (gh.isAnticone · desiredBlock)).length ≤ gh.k.toNat then
        some (suspectsBlues ++ blueSet.filter (gh.isAnticone · desiredBlock))
      else none := by
  induction blueSet generalizing counter suspectsBlues with
  | nil => simp [anticoneSuspects, small]
  | cons block blueSet ih =>
    simp only [anticoneSuspects, List.filter_cons]
    by_cases anti : gh.isAnticone block desiredBlock = true
    · simp only [anti, if_true, List.length_cons]
      split
      · rw [if_neg (by omega)]
      · rw [ih (by omega), List.append_assoc, List.singleton_append]
        congr 1
        apply propext
        omega
    · simp only [anti, Bool.false_eq_true, if_false]
      rw [if_neg (by omega), ih small]

theorem divideBlueRed_eq (desiredBlock : DomainHash) (c : Coloring) :
    gh.divideBlueRed desiredBlock c =
      if (c.blueSet.filter (gh.isAnticone · desiredBlock)).length ≤ gh.k.toNat ∧
          ∀ blue ∈ c.blueSet.filter (gh.isAnticone · desiredBlock),
            (c.blueSet.filter (gh.isAnticone · blue)).length ≤ gh.k.toNat then
        { c with
          blues := appendMissing desiredBlock c.blues
          blueSet := appendMissing desiredBlock c.blueSet }
      else { c with reds := appendMissing desiredBlock c.reds } := by
  unfold divideBlueRed
  rw [anticoneSuspects_eq gh desiredBlock c.blueSet (Nat.zero_le _) [], Nat.zero_add]
  by_cases few : (c.blueSet.filter (gh.isAnticone · desiredBlock)).length ≤ gh.k.toNat
  · rw [if_pos few, List.nil_append]
    dsimp only
    have destroys : (c.blueSet.filter (gh.isAnticone · desiredBlock)).any
          (fun blue => gh.checkIfDestroy blue c.blueSet 0) = true ↔
        ¬ ∀ blue ∈ c.blueSet.filter (gh.isAnticone · desiredBlock),
          (c.blueSet.filter (gh.isAnticone · blue)).length ≤ gh.k.toNat := by
      simp only [List.any_eq_true, checkIfDestroy_eq gh _ c.blueSet (Nat.zero_le _), Nat.zero_add,
        decide_eq_true_eq, not_forall, Nat.not_le, exists_prop]
    by_cases kept : ∀ blue ∈ c.blueSet.filter (gh.isAnticone · desiredBlock),
        (c.blueSet.filter (gh.isAnticone · blue)).length ≤ gh.k.toNat
    · rw [if_neg (fun destroyed => destroys.mp destroyed kept), if_pos ⟨few, kept⟩]
    · rw [if_pos (destroys.mpr kept), if_neg (fun both => kept both.2)]
  · rw [if_neg few, if_neg (fun both => few both.1)]

end GhostdagHelper

end Ghostdag2
