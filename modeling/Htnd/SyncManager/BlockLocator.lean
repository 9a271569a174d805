import Htnd.Lib.GoSemantics
import Htnd.Utxo.Collection

/-!
Block locators (syncmanager/blocklocator.go) and the walk down a selected-parent chain that
they use (dagtraversalmanager.go). The GHOSTDAG data store maps a block to its blue score and
selected parent; a block it does not hold is a not-found error. Both loops are run for at most
`fuel` turns.
-/
namespace SyncManager
open GoSemantics Utxo

structure BlockGHOSTDAGData where
  blueScore : UInt64
  selectedParent : DomainHash
  deriving DecidableEq, Repr

inductive BlockLocatorError where
  | notFound (hash : DomainHash)
  | blueScoreHigherThanBlock (blueScore : UInt64) (hash : DomainHash) (highBlueScore : UInt64)
  | notInSameSelectedParentChain
  deriving DecidableEq, Repr

def BlockLocatorError.message (hashText : DomainHash → String) : BlockLocatorError → String
  | .notFound hash => "key " ++ hashText hash ++ " not found: not found"
  | .blueScoreHigherThanBlock blueScore hash highBlueScore =>
    "the given blue score " ++ toString blueScore ++ " is higher than block " ++ hashText hash ++
      " blue score of " ++ toString highBlueScore
  | .notInSameSelectedParentChain => "highHash and lowHash are not in the same selected parent chain."

variable (ghostdagDataStore : DomainHash → Option BlockGHOSTDAGData) (genesisHash : DomainHash)

def lowestChainBlockStep (blueScore : UInt64) (current : DomainHash × BlockGHOSTDAGData) :
    Option (Except BlockLocatorError ((DomainHash × BlockGHOSTDAGData) ⊕ DomainHash)) :=
  if current.1 = genesisHash then some (.ok (.inr current.1))
  else
    match ghostdagDataStore current.2.selectedParent with
    | none => some (.error (.notFound current.2.selectedParent))
    | some selectedParentBlockGHOSTDAGData =>
      if selectedParentBlockGHOSTDAGData.blueScore < blueScore then some (.ok (.inr current.1))
      else some (.ok (.inl (current.2.selectedParent, selectedParentBlockGHOSTDAGData)))

def lowestChainBlockAboveOrEqualToBlueScore (fuel : Nat) (highHash : DomainHash)
    (blueScore : UInt64) : Option (Except BlockLocatorError DomainHash) :=
  match ghostdagDataStore highHash with
  | none => some (.error (.notFound highHash))
  | some highBlockGHOSTDAGData =>
    if highBlockGHOSTDAGData.blueScore < blueScore then
      some (.error (.blueScoreHigherThanBlock blueScore highHash highBlockGHOSTDAGData.blueScore))
    else loop (lowestChainBlockStep ghostdagDataStore genesisHash blueScore) fuel
      (highHash, highBlockGHOSTDAGData)

structure LocatorLoop where
  currentHash : DomainHash
  step : UInt64
  locator : List DomainHash

variable (isInSelectedParentChainOf : DomainHash → DomainHash → Bool)

def createBlockLocatorStep (fuel : Nat) (lowHash : DomainHash) (lowBlueScore : UInt64)
    (limit : UInt32) (s : LocatorLoop) :
    Option (Except BlockLocatorError (LocatorLoop ⊕ List DomainHash)) :=
  let locator := s.locator ++ [s.currentHash]
  if limit > 0 ∧ UInt32.ofNat locator.length = limit then some (.ok (.inr locator))
  else
    match ghostdagDataStore s.currentHash with
    | none => some (.error (.notFound s.currentHash))
    | some currentBlockGHOSTDAGData =>
      let currentBlockBlueScore := currentBlockGHOSTDAGData.blueScore
      if currentBlockBlueScore ≤ lowBlueScore then
        if !isInSelectedParentChainOf s.currentHash lowHash then
          some (.error .notInSameSelectedParentChain)
        else some (.ok (.inr locator))
      else
        let nextBlueScore :=
          if currentBlockBlueScore < s.step ∨ currentBlockBlueScore - s.step < lowBlueScore then
            lowBlueScore
          else currentBlockBlueScore - s.step
        match lowestChainBlockAboveOrEqualToBlueScore ghostdagDataStore genesisHash fuel
            s.currentHash nextBlueScore with
        | none => none
        | some (.error err) => some (.error err)
        | some (.ok currentHash) => some (.ok (.inl ⟨currentHash, s.step * 2, locator⟩))

def createBlockLocator (fuel : Nat) (lowHash highHash : DomainHash) (limit : UInt32) :
    Option (Except BlockLocatorError (List DomainHash)) :=
  match ghostdagDataStore lowHash with
  | none => some (.error (.notFound lowHash))
  | some lowBlockGHOSTDAGData =>
    loop (createBlockLocatorStep ghostdagDataStore genesisHash isInSelectedParentChainOf fuel
      lowHash lowBlockGHOSTDAGData.blueScore limit) fuel ⟨highHash, 1, []⟩

/-- A DAG whose GHOSTDAG data is consistent, where the chain of `high` jumps from blue score
    3 to 1 and `low`, at blue score 2, is off that chain: with no limit, the loop of
    `createBlockLocator` appends `high` again and again and never leaves, whatever the
    chain test answers. -/
theorem createBlockLocator_loops_off_chain
    (isInSelectedParentChainOf : DomainHash → DomainHash → Bool) (fuel : Nat) :
    let genesis : DomainHash := ⟨0⟩
    let parent : DomainHash := ⟨1⟩
    let sibling : DomainHash := ⟨2⟩
    let high : DomainHash := ⟨3⟩
    let low : DomainHash := ⟨4⟩
    let ghostdagDataStore : DomainHash → Option BlockGHOSTDAGData := fun hash =>
      if hash = genesis then some ⟨0, genesis⟩
      else if hash = parent then some ⟨1, genesis⟩
      else if hash = sibling then some ⟨1, genesis⟩
      else if hash = high then some ⟨3, parent⟩
      else if hash = low then some ⟨2, sibling⟩
      else none
    createBlockLocator ghostdagDataStore genesis isInSelectedParentChainOf fuel low high 0 = none := by
  intro genesis parent sibling high low ghostdagDataStore
  cases fuel with
  | zero => rfl
  | succ fuel =>
    have walk : ∀ blueScore : UInt64, 1 < blueScore → blueScore ≤ 3 →
        lowestChainBlockAboveOrEqualToBlueScore ghostdagDataStore genesis (fuel + 1) high blueScore =
          some (.ok high) := by
      intro blueScore above below
      have notAbove : ¬ (3 : UInt64) < blueScore := by
        simp only [UInt64.lt_iff_toNat_lt, UInt64.le_iff_toNat_le] at above below ⊢
        simp at above below ⊢
        omega
      simp +decide [lowestChainBlockAboveOrEqualToBlueScore, ghostdagDataStore, notAbove, loop,
        lowestChainBlockStep, high, genesis, parent, sibling, low, above]
    have nextRange : ∀ step : UInt64,
        1 < (if (3 : UInt64) < step ∨ 3 - step < 2 then (2 : UInt64) else 3 - step) ∧
          (if (3 : UInt64) < step ∨ 3 - step < 2 then (2 : UInt64) else 3 - step) ≤ 3 := by
      intro step
      split
      · decide
      · rename_i far
        obtain ⟨near, _⟩ := not_or.mp far
        have le : step ≤ 3 := UInt64.not_lt.mp near
        have sub : (3 - step).toNat = 3 - step.toNat := UInt64.toNat_sub_of_le _ _ le
        simp only [not_or, UInt64.lt_iff_toNat_lt, UInt64.le_iff_toNat_le, sub] at far le ⊢
        simp at far le ⊢
        omega
    have lowData : ghostdagDataStore low = some ⟨2, sibling⟩ := by
      simp +decide [ghostdagDataStore, genesis, parent, sibling, high, low]
    have highData : ghostdagDataStore high = some ⟨3, parent⟩ := by
      simp +decide [ghostdagDataStore, genesis, parent, sibling, high, low]
    simp only [createBlockLocator, lowData]
    apply loop_eq_none_of_invariant (fun s : LocatorLoop => s.currentHash = high)
    · intro s atHigh
      refine ⟨⟨high, s.step * 2, s.locator ++ [s.currentHash]⟩, ?_, rfl⟩
      obtain ⟨above, below⟩ := nextRange s.step
      simp only [createBlockLocatorStep, atHigh, highData]
      rw [walk _ above below]
      simp
    · rfl

end SyncManager
