import Mathlib
import Htnd.SyncManager.ChainOracles

/-!
The finality point of a block (finalitymanager/finality_manager.go): the highest block of its
selected chain whose blue score lies more than the finality depth below its own.
`calculateFinalityPoint` finds it incrementally: from the finality point stored for the selected
parent, or from the pruning point when that one is the virtual genesis, it walks up the block's
selected chain with `ChildInSelectedParentChainOf` (dagtopologymanager/dagtopologymanager.go)
until the next block of the chain reaches the required blue score. The walk is right when it
starts on the chain below that score. The stored finality points of the chain see to that when
they were calculated too, under the pruning point or earlier ones below it on its chain, and on
data whose blue scores grow up the chain, as GHOSTDAG's do.
-/
namespace Finality
open GoSemantics Utxo Ghostdag

/-- The hash `ffff…ff` of model/virtual.go. -/
def virtualBlockHash : DomainHash := ⟨⟨2 ^ 256 - 1, by decide⟩⟩

inductive TopologyError where
  | notInSelectedParentChain (lowHash highHash : DomainHash)
  | ancestorEqualToDescendant
  | notAncestorOfDescendant
  deriving DecidableEq, Repr

def TopologyError.message (hashText : DomainHash → String) : TopologyError → String
  | .notInSelectedParentChain lowHash highHash =>
    "Claimed chain ancestor (" ++ hashText lowHash ++
      ") is not in the selected-parent-chain of highHash (" ++ hashText highHash ++ ")"
  | .ancestorEqualToDescendant => "ancestor is equal to descendant"
  | .notAncestorOfDescendant => "ancestor is not an ancestor of descendant"

inductive FinalityError where
  | ghostdag (err : GhostdagError)
  | pruningPointNotFound
  | finalityPointNotFound (blockHash : DomainHash)
  | topology (err : TopologyError)
  deriving DecidableEq, Repr

abbrev FinalityM := ExceptT FinalityError Option

def liftGhostdag {α : Type} (x : GhostdagM α) : FinalityM α :=
  ExceptT.mk ((x.run).map (Except.mapError .ghostdag))

/-- The fields of the Go `finalityManager` that `calculateFinalityPoint` reads, with those that
    the DAG topology manager it calls reads: the GHOSTDAG data store and the genesis, through the
    GHOSTDAG manager; `IsInSelectedParentChainOf`; the search among the reachability-tree children
    of a block that `FindNextAncestor` makes; the finality store; the pruning store's pruning
    point; and the finality depth. -/
structure FinalityManager where
  ghostdagManager : GhostdagManager
  isInSelectedParentChainOf : DomainHash → DomainHash → Bool
  findAncestorOfNode : DomainHash → DomainHash → Option DomainHash
  finalityStore : DomainHash → Option DomainHash
  pruningPoint : Option DomainHash
  finalityDepth : UInt64

namespace FinalityManager
variable (fm : FinalityManager)

def topology : SyncManager.Manager where
  ghostdagManager := fm.ghostdagManager
  isInSelectedParentChainOf := fm.isInSelectedParentChainOf
  findNextAncestor := fm.findAncestorOfNode
  mergeSetSizeLimit := 0

def getGHOSTDAGData (blockHash : DomainHash) : FinalityM BlockGHOSTDAGData :=
  liftGhostdag (fm.ghostdagManager.getGHOSTDAGData blockHash false)

def pruningStorePruningPoint : FinalityM DomainHash :=
  match fm.pruningPoint with
  | none => throw .pruningPointNotFound
  | some pruningPoint => pure pruningPoint

def finalityStoreFinalityPoint (blockHash : DomainHash) : FinalityM DomainHash :=
  match fm.finalityStore blockHash with
  | none => throw (.finalityPointNotFound blockHash)
  | some finalityPoint => pure finalityPoint

def findNextAncestor (descendant ancestor : DomainHash) : FinalityM DomainHash :=
  if ancestor = descendant then throw (.topology .ancestorEqualToDescendant)
  else
    match fm.findAncestorOfNode descendant ancestor with
    | none => throw (.topology .notAncestorOfDescendant)
    | some nextAncestor => pure nextAncestor

/-- The end of `ChildInSelectedParentChainOf`, below the virtual: `lowHash` must be on the selected
    chain of `highHash`; the error names the high hash the caller gave. -/
def childOnSelectedParentChain (lowHash highHash specifiedHighHash : DomainHash) :
    FinalityM DomainHash :=
  if fm.isInSelectedParentChainOf lowHash highHash then fm.findNextAncestor highHash lowHash
  else throw (.topology (.notInSelectedParentChain lowHash specifiedHighHash))

def childInSelectedParentChainOf (lowHash highHash : DomainHash) : FinalityM DomainHash :=
  if highHash = virtualBlockHash then do
    let ghostdagData ← fm.getGHOSTDAGData highHash
    let selectedParent ← liftGhostdag (GhostdagManager.selectedParentOf ghostdagData)
    if lowHash = selectedParent then pure highHash
    else fm.childOnSelectedParentChain lowHash selectedParent highHash
  else fm.childOnSelectedParentChain lowHash highHash highHash

/-- A turn of the loop of `calculateFinalityPoint`: stop at `current` when the next block of the
    chain reaches the required blue score, else go up to it. -/
def finalityPointStep (blockHash : DomainHash) (requiredBlueScore : UInt64) (current : DomainHash) :
    FinalityM (DomainHash ⊕ DomainHash) := do
  let next ← fm.childInSelectedParentChainOf current blockHash
  let nextGHOSTDAGData ← fm.getGHOSTDAGData next
  if nextGHOSTDAGData.blueScore ≥ requiredBlueScore then pure (.inr current)
  else pure (.inl next)

def calculateFinalityPoint (fuel : Nat) (blockHash : DomainHash) (isBlockWithTrustedData : Bool) :
    FinalityM DomainHash :=
  if isBlockWithTrustedData then pure virtualGenesisBlockHash else do
  let ghostdagData ← fm.getGHOSTDAGData blockHash
  if ghostdagData.blueScore < fm.finalityDepth then pure fm.ghostdagManager.genesisHash else do
  let pruningPoint ← fm.pruningStorePruningPoint
  let pruningPointGhostdagData ← fm.getGHOSTDAGData pruningPoint
  if ghostdagData.blueScore < pruningPointGhostdagData.blueScore + fm.finalityDepth then
    pure virtualGenesisBlockHash else do
  if !fm.isInSelectedParentChainOf pruningPoint blockHash then pure virtualGenesisBlockHash else do
  let selectedParent ← liftGhostdag (GhostdagManager.selectedParentOf ghostdagData)
  if selectedParent = fm.ghostdagManager.genesisHash then pure fm.ghostdagManager.genesisHash else do
  let current ← fm.finalityStoreFinalityPoint selectedParent
  -- the pruning point stands for a selected parent whose finality point is the virtual genesis
  let current := if current = virtualGenesisBlockHash then pruningPoint else current
  let requiredBlueScore := ghostdagData.blueScore - fm.finalityDepth
  ExceptT.mk (loop (fun current => (fm.finalityPointStep blockHash requiredBlueScore current).run)
    fuel current)

section Reads
variable {fm}

theorem getGHOSTDAGData_eq_pure {blockHash : DomainHash} {d : BlockGHOSTDAGData} :
    fm.getGHOSTDAGData blockHash = pure d ↔ fm.ghostdagManager.dataOf blockHash = some d :=
  mapError_eq_pure.trans GhostdagManager.getGHOSTDAGData_eq_pure

theorem pruningStorePruningPoint_eq_pure {pruningPoint : DomainHash} :
    fm.pruningStorePruningPoint = pure pruningPoint ↔ fm.pruningPoint = some pruningPoint := by
  unfold pruningStorePruningPoint
  cases fm.pruningPoint with
  | none => exact iff_of_false (fun h => by cases h) (fun h => by cases h)
  | some stored => exact ⟨fun h => by cases h; rfl, fun h => by cases h; rfl⟩

theorem finalityStoreFinalityPoint_eq_pure {blockHash finalityPoint : DomainHash} :
    fm.finalityStoreFinalityPoint blockHash = pure finalityPoint ↔
      fm.finalityStore blockHash = some finalityPoint := by
  unfold finalityStoreFinalityPoint
  cases fm.finalityStore blockHash with
  | none => exact iff_of_false (fun h => by cases h) (fun h => by cases h)
  | some stored => exact ⟨fun h => by cases h; rfl, fun h => by cases h; rfl⟩

theorem liftGhostdag_selectedParentOf_eq_pure {d : BlockGHOSTDAGData} {selectedParent : DomainHash} :
    liftGhostdag (GhostdagManager.selectedParentOf d) = pure selectedParent ↔
      d.selectedParent = some selectedParent :=
  mapError_eq_pure.trans GhostdagManager.selectedParentOf_eq_pure

theorem calculateFinalityPoint_cases {fuel : Nat} {blockHash f : DomainHash}
    {isBlockWithTrustedData : Bool}
    (calculated : fm.calculateFinalityPoint fuel blockHash isBlockWithTrustedData = pure f) :
    (isBlockWithTrustedData = true ∧ f = virtualGenesisBlockHash) ∨
    (∃ d, fm.ghostdagManager.dataOf blockHash = some d ∧ d.blueScore < fm.finalityDepth ∧
      f = fm.ghostdagManager.genesisHash) ∨
    (∃ d pruningPoint pruningPointData, fm.ghostdagManager.dataOf blockHash = some d ∧
      fm.pruningPoint = some pruningPoint ∧
      fm.ghostdagManager.dataOf pruningPoint = some pruningPointData ∧
      (d.blueScore < pruningPointData.blueScore + fm.finalityDepth ∨
        fm.isInSelectedParentChainOf pruningPoint blockHash = false) ∧
      f = virtualGenesisBlockHash) ∨
    (∃ d pruningPoint pruningPointData, fm.ghostdagManager.dataOf blockHash = some d ∧
      fm.pruningPoint = some pruningPoint ∧
      fm.ghostdagManager.dataOf pruningPoint = some pruningPointData ∧
      pruningPointData.blueScore + fm.finalityDepth ≤ d.blueScore ∧
      d.selectedParent = some fm.ghostdagManager.genesisHash ∧ f = fm.ghostdagManager.genesisHash) ∨
    (∃ d pruningPoint pruningPointData selectedParent current,
      fm.ghostdagManager.dataOf blockHash = some d ∧ fm.pruningPoint = some pruningPoint ∧
      fm.ghostdagManager.dataOf pruningPoint = some pruningPointData ∧
      fm.finalityDepth ≤ d.blueScore ∧ pruningPointData.blueScore + fm.finalityDepth ≤ d.blueScore ∧
      fm.isInSelectedParentChainOf pruningPoint blockHash = true ∧
      d.selectedParent = some selectedParent ∧ fm.finalityStore selectedParent = some current ∧
      loop (fun c => (fm.finalityPointStep blockHash (d.blueScore - fm.finalityDepth) c).run) fuel
        (if current = virtualGenesisBlockHash then pruningPoint else current) = some (.ok f)) := by
  unfold calculateFinalityPoint at calculated
  by_cases trusted : isBlockWithTrustedData = true
  · rw [if_pos trusted] at calculated
    exact .inl ⟨trusted, (pure_inj calculated).symm⟩
  rw [if_neg trusted] at calculated
  obtain ⟨d, read, calculated⟩ := bind_eq_pure calculated
  have found := getGHOSTDAGData_eq_pure.1 read
  dsimp only at calculated
  by_cases shallow : d.blueScore < fm.finalityDepth
  · rw [if_pos shallow] at calculated
    exact .inr (.inl ⟨d, found, shallow, (pure_inj calculated).symm⟩)
  rw [if_neg shallow] at calculated
  obtain ⟨pruningPoint, read, calculated⟩ := bind_eq_pure calculated
  have pruning := pruningStorePruningPoint_eq_pure.1 read
  obtain ⟨pruningPointData, read, calculated⟩ := bind_eq_pure calculated
  have pruningPointFound := getGHOSTDAGData_eq_pure.1 read
  by_cases near : d.blueScore < pruningPointData.blueScore + fm.finalityDepth
  · rw [if_pos near] at calculated
    exact .inr (.inr (.inl ⟨d, pruningPoint, pruningPointData, found, pruning, pruningPointFound,
      .inl near, (pure_inj calculated).symm⟩))
  rw [if_neg near] at calculated
  cases onChain : fm.isInSelectedParentChainOf pruningPoint blockHash with
  | false =>
    rw [onChain, Bool.not_false, if_pos rfl] at calculated
    exact .inr (.inr (.inl ⟨d, pruningPoint, pruningPointData, found, pruning, pruningPointFound,
      .inr onChain, (pure_inj calculated).symm⟩))
  | true =>
    rw [onChain, Bool.not_true, if_neg Bool.false_ne_true] at calculated
    obtain ⟨selectedParent, read, calculated⟩ := bind_eq_pure calculated
    have selected := liftGhostdag_selectedParentOf_eq_pure.1 read
    have deep : pruningPointData.blueScore + fm.finalityDepth ≤ d.blueScore := UInt64.not_lt.1 near
    by_cases genesis : selectedParent = fm.ghostdagManager.genesisHash
    · rw [if_pos genesis] at calculated
      exact .inr (.inr (.inr (.inl ⟨d, pruningPoint, pruningPointData, found, pruning,
        pruningPointFound, deep, genesis ▸ selected, (pure_inj calculated).symm⟩)))
    rw [if_neg genesis] at calculated
    obtain ⟨current, read, calculated⟩ := bind_eq_pure calculated
    exact .inr (.inr (.inr (.inr ⟨d, pruningPoint, pruningPointData, selectedParent, current, found,
      pruning, pruningPointFound, UInt64.not_lt.1 shallow, deep, onChain, selected,
      finalityStoreFinalityPoint_eq_pure.1 read, calculated⟩)))

end Reads

structure ChainConsistent (blocks : Finset DomainHash) : Prop where
  consistent : fm.topology.Consistent blocks
  blueScore_lt : ∀ b ∈ blocks, ∀ d sp spData, fm.ghostdagManager.dataOf b = some d →
    d.selectedParent = some sp → fm.ghostdagManager.dataOf sp = some spData →
    spData.blueScore < d.blueScore
  virtual_not_mem : virtualBlockHash ∉ blocks

def HighestBelow (b : DomainHash) (score : Nat) (F : DomainHash) : Prop :=
  fm.topology.OnChain F b ∧
    (∃ dF, fm.ghostdagManager.dataOf F = some dF ∧ dF.blueScore.toNat < score) ∧
    ∀ G dG, fm.topology.OnChain G b → fm.ghostdagManager.dataOf G = some dG →
      dG.blueScore.toNat < score → fm.topology.OnChain G F

inductive Produced (pruningPoint : DomainHash) : DomainHash → DomainHash → Prop
  | calculated {x f earlier : DomainHash} {finalityStore : DomainHash → Option DomainHash}
      {fuel : Nat} {isBlockWithTrustedData : Bool}
      (below : fm.topology.OnChain earlier pruningPoint)
      (stored : ∀ y, fm.topology.OnChain y x → y ≠ x → ∀ g, finalityStore y = some g →
        Produced pruningPoint y g)
      (calculation : { fm with pruningPoint := some earlier, finalityStore := finalityStore
        }.calculateFinalityPoint fuel x isBlockWithTrustedData = pure f) :
      Produced pruningPoint x f

section Walk
variable {fm} {blocks : Finset DomainHash}

theorem ChainConsistent.blueScore_lt_of_onChain (cc : fm.ChainConsistent blocks) {a b : DomainHash}
    (mem : b ∈ blocks) (chain : fm.topology.OnChain a b) (ne : a ≠ b) {da db : BlockGHOSTDAGData}
    (aFound : fm.ghostdagManager.dataOf a = some da) (bFound : fm.ghostdagManager.dataOf b = some db) :
    da.blueScore < db.blueScore :=
  cc.consistent.blueScore_lt_of_onChain cc.blueScore_lt mem chain ne aFound bFound

theorem childInSelectedParentChainOf_self {x : DomainHash} (notVirtual : x ≠ virtualBlockHash) :
    ∃ err, fm.childInSelectedParentChainOf x x = throw err := by
  unfold childInSelectedParentChainOf childOnSelectedParentChain findNextAncestor
  rw [if_neg notVirtual]
  split
  · rw [if_pos rfl]
    exact ⟨_, rfl⟩
  · exact ⟨_, rfl⟩

theorem childInSelectedParentChainOf_of_onChain (cc : fm.ChainConsistent blocks) {c b : DomainHash}
    (mem : b ∈ blocks) (chain : fm.topology.OnChain c b) (ne : c ≠ b) :
    ∃ next, fm.childInSelectedParentChainOf c b = pure next ∧ fm.topology.OnChain next b ∧
      fm.topology.selectedParentOf next = some c := by
  have notVirtual : b ≠ virtualBlockHash := fun same => cc.virtual_not_mem (same ▸ mem)
  have cMem := (cc.consistent.onChain_pastOrSelf mem chain).2
  obtain ⟨next, found, above, selected⟩ := cc.consistent.findNextAncestor_of_onChain mem chain ne
  have tested : fm.isInSelectedParentChainOf c b = true :=
    (cc.consistent.isInSelectedParentChainOf_iff c cMem b mem).2 chain
  have searched : fm.findAncestorOfNode b c = some next := found
  refine ⟨next, ?_, above, selected⟩
  unfold childInSelectedParentChainOf childOnSelectedParentChain findNextAncestor
  rw [if_neg notVirtual, if_pos tested, if_neg ne, searched]

theorem finalityPointStep_of_onChain (cc : fm.ChainConsistent blocks) {c b : DomainHash}
    (mem : b ∈ blocks) (chain : fm.topology.OnChain c b) (ne : c ≠ b) (requiredBlueScore : UInt64) :
    ∃ next dNext, fm.topology.OnChain next b ∧ fm.topology.selectedParentOf next = some c ∧
      fm.ghostdagManager.dataOf next = some dNext ∧
      fm.finalityPointStep b requiredBlueScore c =
        pure (if dNext.blueScore ≥ requiredBlueScore then .inr c else .inl next) := by
  obtain ⟨next, child, above, selected⟩ := childInSelectedParentChainOf_of_onChain cc mem chain ne
  obtain ⟨dNext, nextFound⟩ := cc.consistent.data (cc.consistent.onChain_pastOrSelf mem above).2
  refine ⟨next, dNext, above, selected, nextFound, ?_⟩
  simp only [finalityPointStep, child, getGHOSTDAGData_eq_pure.2 nextFound, pure_bind]
  split_ifs <;> rfl

theorem finalityPointWalk_spec (cc : fm.ChainConsistent blocks) {b start : DomainHash}
    (mem : b ∈ blocks) (chain : fm.topology.OnChain start b) (requiredBlueScore : UInt64)
    (fuel : Nat) {r : DomainHash}
    (walked : loop (fun c => (fm.finalityPointStep b requiredBlueScore c).run) fuel start =
      some (.ok r)) :
    fm.topology.OnChain start r ∧ fm.topology.OnChain r b ∧
      (r = start ∨ ∃ dr, fm.ghostdagManager.dataOf r = some dr ∧ dr.blueScore < requiredBlueScore) ∧
      ∃ next dNext, fm.topology.OnChain next b ∧ fm.topology.selectedParentOf next = some r ∧
        fm.ghostdagManager.dataOf next = some dNext ∧ requiredBlueScore ≤ dNext.blueScore := by
  have notVirtual : b ≠ virtualBlockHash := fun same => cc.virtual_not_mem (same ▸ mem)
  have stuck : ∀ result, (fm.finalityPointStep b requiredBlueScore b).run ≠ some (.ok result) := by
    intro result
    obtain ⟨err, child⟩ : ∃ err, fm.childInSelectedParentChainOf b b = throw err :=
      childInSelectedParentChainOf_self notVirtual
    simp [finalityPointStep, child]
  -- the loop stays on the chain, at or above the start, and below the required blue score
  refine loop_ok_of_invariant (fun c => fm.topology.OnChain start c ∧ fm.topology.OnChain c b ∧
      (c = start ∨ ∃ dc, fm.ghostdagManager.dataOf c = some dc ∧ dc.blueScore < requiredBlueScore))
    (fun r => fm.topology.OnChain start r ∧ fm.topology.OnChain r b ∧
      (r = start ∨ ∃ dr, fm.ghostdagManager.dataOf r = some dr ∧ dr.blueScore < requiredBlueScore) ∧
      ∃ next dNext, fm.topology.OnChain next b ∧ fm.topology.selectedParentOf next = some r ∧
        fm.ghostdagManager.dataOf next = some dNext ∧ requiredBlueScore ≤ dNext.blueScore)
    ?_ ?_ fuel start ⟨Relation.ReflTransGen.refl, chain, .inl rfl⟩ r walked
  · intro c r' ⟨fromStart, onChain, low⟩ leaves
    by_cases top : c = b
    · rw [top] at leaves
      exact absurd leaves (stuck _)
    obtain ⟨next, dNext, above, selected, nextFound, step⟩ :=
      finalityPointStep_of_onChain cc mem onChain top requiredBlueScore
    rw [step] at leaves
    split_ifs at leaves with reaches
    · obtain rfl : c = r' := by simpa using leaves
      exact ⟨fromStart, onChain, low, next, dNext, above, selected, nextFound, reaches⟩
    · simp at leaves
  · intro c c' ⟨fromStart, onChain, low⟩ continues
    by_cases top : c = b
    · rw [top] at continues
      exact absurd continues (stuck _)
    obtain ⟨next, dNext, above, selected, nextFound, step⟩ :=
      finalityPointStep_of_onChain cc mem onChain top requiredBlueScore
    rw [step] at continues
    split_ifs at continues with reaches
    · simp at continues
    · obtain rfl : next = c' := by simpa using continues
      exact ⟨fromStart.tail selected, above, .inr ⟨dNext, nextFound, UInt64.not_le.1 reaches⟩⟩

theorem ChainConsistent.with_stores (cc : fm.ChainConsistent blocks)
    (finalityStore : DomainHash → Option DomainHash) (pruningPoint : Option DomainHash) :
    ({ fm with finalityStore := finalityStore, pruningPoint := pruningPoint }).ChainConsistent
      blocks :=
  ⟨cc.consistent, cc.blueScore_lt, cc.virtual_not_mem⟩

theorem toNat_add_of_lt {a b : UInt64} (small : a.toNat + b.toNat < 2 ^ 64) :
    (a + b).toNat = a.toNat + b.toNat := by
  rw [UInt64.toNat_add, Nat.mod_eq_of_lt small]

theorem ChainConsistent.selectedParent_onChain (cc : fm.ChainConsistent blocks) {x sp : DomainHash}
    {dx : BlockGHOSTDAGData} (mem : x ∈ blocks) (found : fm.ghostdagManager.dataOf x = some dx)
    (selected : dx.selectedParent = some sp) :
    fm.topology.OnChain sp x ∧ sp ≠ x ∧ sp ∈ blocks := by
  have step : fm.topology.selectedParentOf x = some sp :=
    SyncManager.Manager.selectedParentOf_eq found selected
  have chain : fm.topology.OnChain sp x := .single step
  refine ⟨chain, fun same => ?_, (cc.consistent.onChain_pastOrSelf mem chain).2⟩
  exact cc.consistent.selectedParentOf_ne mem Relation.ReflTransGen.refl (same ▸ step)

theorem ChainConsistent.walk_start (cc : fm.ChainConsistent blocks) {x sp p current : DomainHash}
    {dx dp : BlockGHOSTDAGData} (mem : x ∈ blocks) (found : fm.ghostdagManager.dataOf x = some dx)
    (selected : dx.selectedParent = some sp) (pChain : fm.topology.OnChain p x)
    (pFound : fm.ghostdagManager.dataOf p = some dp)
    (stored : current = virtualGenesisBlockHash ∨ current = fm.ghostdagManager.genesisHash ∨
      (fm.topology.OnChain current sp ∧ ∃ dc dsp, fm.ghostdagManager.dataOf current = some dc ∧
        fm.ghostdagManager.dataOf sp = some dsp ∧
        dc.blueScore.toNat + fm.finalityDepth.toNat ≤ dsp.blueScore.toNat)) :
    fm.topology.OnChain (if current = virtualGenesisBlockHash then p else current) x ∧
      ∃ ds, fm.ghostdagManager.dataOf (if current = virtualGenesisBlockHash then p else current) =
        some ds ∧ (ds.blueScore.toNat ≤ dp.blueScore.toNat ∨
          ds.blueScore.toNat + fm.finalityDepth.toNat < dx.blueScore.toNat) := by
  by_cases virtual : current = virtualGenesisBlockHash
  · rw [if_pos virtual]
    exact ⟨pChain, dp, pFound, .inl (Nat.le_refl _)⟩
  rw [if_neg virtual]
  rcases stored with same | genesis | ⟨chain, dc, dsp, currentFound, spFound, low⟩
  · exact absurd same virtual
  · have pMem := (cc.consistent.onChain_pastOrSelf mem pChain).2
    have below : fm.topology.OnChain current p := genesis ▸ cc.consistent.onChain_genesis pMem
    obtain ⟨dg, genesisFound⟩ := cc.consistent.data (cc.consistent.onChain_pastOrSelf pMem below).2
    exact ⟨below.trans pChain, dg, genesisFound,
      .inl (UInt64.le_iff_toNat_le.1 (cc.consistent.blueScore_le pMem below genesisFound pFound))⟩
  · obtain ⟨spChain, spNe, -⟩ := cc.selectedParent_onChain mem found selected
    have higher := UInt64.lt_iff_toNat_lt.1 (cc.blueScore_lt_of_onChain mem spChain spNe spFound found)
    exact ⟨chain.trans spChain, dc, currentFound, .inr (by omega)⟩

theorem Produced.bound (cc : fm.ChainConsistent blocks) {pruningPoint : DomainHash}
    (pruningMem : pruningPoint ∈ blocks) {pruningPointData : BlockGHOSTDAGData}
    (pruningPointFound : fm.ghostdagManager.dataOf pruningPoint = some pruningPointData)
    (noWrap : pruningPointData.blueScore.toNat + fm.finalityDepth.toNat < 2 ^ 64)
    {x f : DomainHash} (produced : fm.Produced pruningPoint x f) (mem : x ∈ blocks) :
    f = virtualGenesisBlockHash ∨ f = fm.ghostdagManager.genesisHash ∨
      (fm.topology.OnChain f x ∧ ∃ df dx, fm.ghostdagManager.dataOf f = some df ∧
        fm.ghostdagManager.dataOf x = some dx ∧
        df.blueScore.toNat + fm.finalityDepth.toNat ≤ dx.blueScore.toNat) := by
  induction produced with
  | @calculated x f earlier finalityStore fuel trusted below stored calculation ih =>
  have cc' := cc.with_stores finalityStore (some earlier)
  rcases calculateFinalityPoint_cases calculation with ⟨-, rfl⟩ | ⟨-, -, -, rfl⟩ |
    ⟨-, -, -, -, -, -, -, rfl⟩ | ⟨-, -, -, -, -, -, -, -, rfl⟩ |
    ⟨d, earlier', earlierData, sp, current, found, pruning, earlierFound, high, deep, onChain,
      selected, currentStored, walked⟩
  · exact .inl rfl
  · exact .inr (.inl rfl)
  · exact .inl rfl
  · exact .inr (.inl rfl)
  obtain rfl : earlier = earlier' := Option.some.inj pruning
  dsimp only at high deep
  have earlierMem := (cc.consistent.onChain_pastOrSelf pruningMem below).2
  have earlierChain : fm.topology.OnChain earlier x :=
    (cc.consistent.isInSelectedParentChainOf_iff earlier earlierMem x mem).1 onChain
  have earlierLow := UInt64.le_iff_toNat_le.1
    (cc.consistent.blueScore_le pruningMem below earlierFound pruningPointFound)
  have deep' := UInt64.le_iff_toNat_le.1 deep
  rw [toNat_add_of_lt (by omega)] at deep'
  obtain ⟨spChain, spNe, spMem⟩ := cc.selectedParent_onChain mem found selected
  obtain ⟨startChain, ds, startFound, startLow⟩ := cc.walk_start mem found selected earlierChain
    earlierFound (ih sp spChain spNe current currentStored spMem)
  obtain ⟨-, chain, reached, -⟩ := finalityPointWalk_spec cc' mem startChain _ fuel walked
  refine .inr (.inr ⟨chain, ?_⟩)
  have required := UInt64.toNat_sub_of_le _ _ high
  rcases reached with rfl | ⟨df, fFound, low⟩
  · exact ⟨ds, d, startFound, found, by omega⟩
  · rw [UInt64.lt_iff_toNat_lt, required] at low
    exact ⟨df, d, fFound, found, by omega⟩

theorem ChainConsistent.highestBelow (cc : fm.ChainConsistent blocks) {b F next : DomainHash}
    {score : Nat} (mem : b ∈ blocks) (chain : fm.topology.OnChain F b)
    (below : ∃ dF, fm.ghostdagManager.dataOf F = some dF ∧ dF.blueScore.toNat < score)
    (nextChain : fm.topology.OnChain next b) (selected : fm.topology.selectedParentOf next = some F)
    {dNext : BlockGHOSTDAGData} (nextFound : fm.ghostdagManager.dataOf next = some dNext)
    (reaches : score ≤ dNext.blueScore.toNat) : fm.HighestBelow b score F := by
  refine ⟨chain, below, fun G dG GChain GFound low => ?_⟩
  rcases SyncManager.Manager.onChain_or_above GChain nextChain selected with under | above
  · exact under
  · have GMem := (cc.consistent.onChain_pastOrSelf mem GChain).2
    have higher := UInt64.le_iff_toNat_le.1 (cc.consistent.blueScore_le GMem above nextFound GFound)
    omega

theorem calculateFinalityPoint_eq_highest (cc : fm.ChainConsistent blocks)
    {pruningPoint blockHash : DomainHash} (pruning : fm.pruningPoint = some pruningPoint)
    (mem : blockHash ∈ blocks) (pruningPointChain : fm.topology.OnChain pruningPoint blockHash)
    {d pruningPointData : BlockGHOSTDAGData} (found : fm.ghostdagManager.dataOf blockHash = some d)
    (pruningPointFound : fm.ghostdagManager.dataOf pruningPoint = some pruningPointData)
    (deep : pruningPointData.blueScore.toNat + fm.finalityDepth.toNat < d.blueScore.toNat)
    (produced : ∀ x, fm.topology.OnChain x blockHash → x ≠ blockHash → ∀ f,
      fm.finalityStore x = some f → fm.Produced pruningPoint x f)
    {fuel : Nat} {f : DomainHash} (calculated : fm.calculateFinalityPoint fuel blockHash false = pure f) :
    fm.HighestBelow blockHash (d.blueScore.toNat - fm.finalityDepth.toNat) f := by
  have pruningMem := (cc.consistent.onChain_pastOrSelf mem pruningPointChain).2
  have noWrap : pruningPointData.blueScore.toNat + fm.finalityDepth.toNat < 2 ^ 64 :=
    lt_trans deep (UInt64.toNat_lt _)
  rcases calculateFinalityPoint_cases calculated with ⟨trusted, -⟩ | ⟨d', found', shallow, -⟩ |
    ⟨d', p', dp', found', pruning', pFound', near | off, -⟩ |
    ⟨d', p', dp', found', pruning', pFound', -, genesis, rfl⟩ |
    ⟨d', p', dp', sp, current, found', pruning', pFound', -, -, -, selected, currentStored, walked⟩
  · cases trusted
  · obtain rfl := Option.some.inj (found.symm.trans found')
    rw [UInt64.lt_iff_toNat_lt] at shallow
    omega
  · obtain rfl := Option.some.inj (found.symm.trans found')
    obtain rfl := Option.some.inj (pruning.symm.trans pruning')
    obtain rfl := Option.some.inj (pruningPointFound.symm.trans pFound')
    rw [UInt64.lt_iff_toNat_lt, toNat_add_of_lt noWrap] at near
    omega
  · obtain rfl := Option.some.inj (pruning.symm.trans pruning')
    have onChain := (cc.consistent.isInSelectedParentChainOf_iff _ pruningMem _ mem).2 pruningPointChain
    exact absurd onChain (by simp [topology, off])
  · -- the selected parent is the genesis, below which the chain has no block
    obtain rfl := Option.some.inj (found.symm.trans found')
    obtain ⟨genesisChain, -, genesisMem⟩ := cc.selectedParent_onChain mem found genesis
    obtain ⟨dg, genesisFound⟩ := cc.consistent.data genesisMem
    have low := UInt64.le_iff_toNat_le.1 (cc.consistent.blueScore_le pruningMem
      (cc.consistent.onChain_genesis pruningMem) genesisFound pruningPointFound)
    refine ⟨genesisChain, ⟨dg, genesisFound, by omega⟩, fun G dG GChain GFound lowG => ?_⟩
    rcases SyncManager.Manager.onChain_iff.1 GChain with rfl | ⟨sp, step, below⟩
    · obtain rfl := Option.some.inj (found.symm.trans GFound)
      omega
    · obtain rfl := Option.some.inj
        (step.symm.trans (SyncManager.Manager.selectedParentOf_eq found genesis))
      exact below
  · obtain rfl := Option.some.inj (found.symm.trans found')
    obtain rfl := Option.some.inj (pruning.symm.trans pruning')
    obtain rfl := Option.some.inj (pruningPointFound.symm.trans pFound')
    obtain ⟨spChain, spNe, spMem⟩ := cc.selectedParent_onChain mem found selected
    have stored := (produced sp spChain spNe current currentStored).bound cc pruningMem
      pruningPointFound noWrap spMem
    obtain ⟨startChain, ds, startFound, startLow⟩ := cc.walk_start mem found selected
      pruningPointChain pruningPointFound stored
    obtain ⟨-, chain, reached, next, dNext, nextChain, nextSelected, nextFound, reaches⟩ :=
      finalityPointWalk_spec cc mem startChain _ fuel walked
    have required := UInt64.toNat_sub_of_le _ _ (UInt64.le_of_lt (UInt64.lt_iff_toNat_lt.2
      (by omega : fm.finalityDepth.toNat < d.blueScore.toNat)))
    rw [UInt64.le_iff_toNat_le, required] at reaches
    refine cc.highestBelow mem chain ?_ nextChain nextSelected nextFound reaches
    rcases reached with rfl | ⟨df, fFound, low⟩
    · exact ⟨ds, startFound, by omega⟩
    · rw [UInt64.lt_iff_toNat_lt, required] at low
      exact ⟨df, fFound, low⟩

end Walk

def walking (gm : GhostdagManager) (fuel : Nat) (finalityStore : DomainHash → Option DomainHash)
    (pruningPoint : Option DomainHash) (finalityDepth : UInt64) : FinalityManager where
  ghostdagManager := gm
  isInSelectedParentChainOf a b := decide (a ∈ gm.selectedChain fuel b)
  findAncestorOfNode := gm.selectedChild fuel
  finalityStore := finalityStore
  pruningPoint := pruningPoint
  finalityDepth := finalityDepth

theorem chainConsistent_walking {gm₀ gm : GhostdagManager} {order : List DomainHash}
    (valid : ValidDAG gm₀ order) (inv : RunInvariant gm₀ gm order.toFinset order.reverse) {fuel : Nat}
    (enough : order.length ≤ fuel) (virtual : virtualBlockHash ∉ order)
    (finalityStore : DomainHash → Option DomainHash) (pruningPoint : Option DomainHash)
    (finalityDepth : UInt64) :
    (walking gm fuel finalityStore pruningPoint finalityDepth).ChainConsistent order.toFinset where
  consistent := SyncManager.Manager.consistent_chainOracles_of_runInvariant valid inv enough 0
  blueScore_lt := GhostdagManager.blueScoresGrow_of_runInvariant inv
  virtual_not_mem mem := virtual (List.mem_toFinset.mp mem)

section FinalityPoints
variable {fm} {blocks : Finset DomainHash}

/-- **Finality points.** Over a DAG whose GHOSTDAG data is consistent, with blue scores growing up
    selected chains, take a block more than the finality depth above the pruning point, on whose
    selected chain the pruning point is, and whose chain's stored finality points were produced by
    `calculateFinalityPoint`, under the pruning point or earlier ones below it on its chain. When
    `calculateFinalityPoint` returns for it, it returns the highest block of its chain whose blue
    score is more than the finality depth below its own, whether the finality point stored for
    the selected parent is a block or the virtual genesis. The finality point of a block lower on
    the chain, as deep above the pruning point, is on the chain of the block's. -/
theorem calculateFinalityPoint_highest_below_finality_depth (cc : fm.ChainConsistent blocks)
    {pruningPoint blockHash : DomainHash} (pruning : fm.pruningPoint = some pruningPoint)
    (mem : blockHash ∈ blocks) (pruningPointChain : fm.topology.OnChain pruningPoint blockHash)
    {d pruningPointData : BlockGHOSTDAGData} (found : fm.ghostdagManager.dataOf blockHash = some d)
    (pruningPointFound : fm.ghostdagManager.dataOf pruningPoint = some pruningPointData)
    (deep : pruningPointData.blueScore.toNat + fm.finalityDepth.toNat < d.blueScore.toNat)
    (produced : ∀ x, fm.topology.OnChain x blockHash → x ≠ blockHash → ∀ f,
      fm.finalityStore x = some f → fm.Produced pruningPoint x f) :
    (∀ fuel f, fm.calculateFinalityPoint fuel blockHash false = pure f →
      fm.HighestBelow blockHash (d.blueScore.toNat - fm.finalityDepth.toNat) f) ∧
    ∀ lower dLower, fm.topology.OnChain pruningPoint lower → fm.topology.OnChain lower blockHash →
      fm.ghostdagManager.dataOf lower = some dLower →
      pruningPointData.blueScore.toNat + fm.finalityDepth.toNat < dLower.blueScore.toNat →
      ∀ fuel fuel' f f', fm.calculateFinalityPoint fuel' lower false = pure f' →
        fm.calculateFinalityPoint fuel blockHash false = pure f → fm.topology.OnChain f' f := by
  have highest : ∀ fuel f, fm.calculateFinalityPoint fuel blockHash false = pure f →
      fm.HighestBelow blockHash (d.blueScore.toNat - fm.finalityDepth.toNat) f := fun _ _ =>
    calculateFinalityPoint_eq_highest cc pruning mem pruningPointChain found pruningPointFound deep
      produced
  refine ⟨highest, fun lower dLower lowerAbove lowerChain lowerFound lowerDeep fuel fuel' f f'
    lowerCalculated calculated => ?_⟩
  have lowerMem := (cc.consistent.onChain_pastOrSelf mem lowerChain).2
  have lowerProduced : ∀ x, fm.topology.OnChain x lower → x ≠ lower → ∀ g,
      fm.finalityStore x = some g → fm.Produced pruningPoint x g := by
    intro x xChain apart g stored
    refine produced x (xChain.trans lowerChain) (fun same => ?_) g stored
    subst same
    obtain ⟨dx, xFound⟩ := cc.consistent.data lowerMem
    have up := cc.consistent.blueScore_le mem lowerChain lowerFound found
    have down := cc.blueScore_lt_of_onChain lowerMem xChain apart found lowerFound
    exact absurd (UInt64.lt_of_lt_of_le down up) (UInt64.lt_irrefl _)
  obtain ⟨f'Chain, ⟨df', f'Found, f'Low⟩, -⟩ := calculateFinalityPoint_eq_highest cc pruning
    lowerMem lowerAbove lowerFound pruningPointFound lowerDeep lowerProduced lowerCalculated
  have lowerLe := UInt64.le_iff_toNat_le.1 (cc.consistent.blueScore_le mem lowerChain lowerFound found)
  exact (highest fuel f calculated).2.2 f' df' (f'Chain.trans lowerChain) f'Found (by omega)

def diamondRun : GhostdagManager :=
  match diamond.ghostdagRun 5 [⟨0⟩, ⟨1⟩, ⟨2⟩, ⟨3⟩] with
  | some (.ok gm) => gm
  | _ => diamond

def diamondStore (x : DomainHash) : Option DomainHash := if x = ⟨2⟩ then some ⟨0⟩ else none

def diamondFinality : FinalityManager := walking diamondRun 5 diamondStore (some ⟨0⟩) 1

theorem chainConsistent_diamondWalking (finalityStore : DomainHash → Option DomainHash) :
    (walking diamondRun 5 finalityStore (some ⟨0⟩) 1).ChainConsistent
      [⟨0⟩, ⟨1⟩, ⟨2⟩, ⟨3⟩].toFinset := by
  obtain ⟨gm', ran, inv⟩ := RunInvariant.of_ghostdagRun diamond_valid.toDagInput
    (by decide : [(⟨0⟩ : DomainHash), ⟨1⟩, ⟨2⟩, ⟨3⟩].length < 5)
  obtain rfl : diamondRun = gm' := pure_inj ((rfl : diamond.ghostdagRun 5 _ = pure diamondRun).symm.trans ran)
  exact chainConsistent_walking diamond_valid inv (by decide) (by decide) _ _ _

theorem calculateFinalityPoint_highest_below_finality_depth_diamond :
    diamondFinality.ChainConsistent [⟨0⟩, ⟨1⟩, ⟨2⟩, ⟨3⟩].toFinset ∧
      diamondFinality.topology.OnChain ⟨0⟩ ⟨3⟩ ∧
      (∀ x, diamondFinality.topology.OnChain x ⟨3⟩ → x ≠ ⟨3⟩ → ∀ f,
        diamondFinality.finalityStore x = some f → diamondFinality.Produced ⟨0⟩ x f) ∧
      diamondFinality.calculateFinalityPoint 5 ⟨3⟩ false = pure ⟨2⟩ ∧
      diamondFinality.HighestBelow ⟨3⟩ 2 ⟨2⟩ := by
  have cc : diamondFinality.ChainConsistent [⟨0⟩, ⟨1⟩, ⟨2⟩, ⟨3⟩].toFinset :=
    chainConsistent_diamondWalking diamondStore
  have below : diamondFinality.topology.OnChain ⟨0⟩ ⟨2⟩ := .single rfl
  have chain : diamondFinality.topology.OnChain ⟨0⟩ ⟨3⟩ := below.tail rfl
  have produced : ∀ x, diamondFinality.topology.OnChain x ⟨3⟩ → x ≠ ⟨3⟩ → ∀ f,
      diamondFinality.finalityStore x = some f → diamondFinality.Produced ⟨0⟩ x f := by
    intro x _ _ f stored
    by_cases two : x = ⟨2⟩
    · subst two
      obtain rfl : (⟨0⟩ : DomainHash) = f := Option.some.inj stored
      exact .calculated Relation.ReflTransGen.refl (fun _ _ _ _ none => by cases none)
        (rfl : ({ diamondFinality with pruningPoint := some ⟨0⟩, finalityStore := fun _ => none
          }).calculateFinalityPoint 5 ⟨2⟩ false = pure ⟨0⟩)
    · simp [diamondFinality, walking, diamondStore, two] at stored
  have calculated : diamondFinality.calculateFinalityPoint 5 ⟨3⟩ false = pure ⟨2⟩ := rfl
  exact ⟨cc, chain, produced, calculated,
    (calculateFinalityPoint_highest_below_finality_depth cc rfl (by decide) chain rfl rfl (by decide)
      produced).1 5 ⟨2⟩ calculated⟩

end FinalityPoints

end FinalityManager

end Finality
