import Htnd.FinalityManager.FinalityPoint

/-!
How the finality store fills (finalitymanager/finality_manager.go). `FinalityPoint` reads the
finality point of a block from the store, and on a miss calculates it and stages it there; the
virtual's is calculated on every call and never staged. The pruning manager moves the pruning
point up its selected chain. Over any run of these moves every stored finality point stays one
that `calculateFinalityPoint` produced, under the current pruning point or one below it on its
chain: what the finality-point theorem asks of the store. So in every reachable state
`calculateFinalityPoint` returns the highest block of the chain the finality depth down.
-/
namespace Finality
open GoSemantics Utxo Ghostdag

namespace FinalityManager
variable (fm : FinalityManager)

def stageFinalityPoint (blockHash finalityPoint : DomainHash) : FinalityManager :=
  { fm with
    finalityStore := fun x => if x = blockHash then some finalityPoint else fm.finalityStore x }

def virtualFinalityPoint (fuel : Nat) : FinalityM DomainHash :=
  fm.calculateFinalityPoint fuel virtualBlockHash false

def calculateAndStageFinalityPoint (fuel : Nat) (blockHash : DomainHash)
    (isBlockWithTrustedData : Bool) : FinalityM (DomainHash × FinalityManager) := do
  let finalityPoint ← fm.calculateFinalityPoint fuel blockHash isBlockWithTrustedData
  pure (finalityPoint, fm.stageFinalityPoint blockHash finalityPoint)

def finalityPoint (fuel : Nat) (blockHash : DomainHash) (isBlockWithTrustedData : Bool) :
    FinalityM (DomainHash × FinalityManager) :=
  if blockHash = virtualBlockHash then do
    let virtualFinalityPoint ← fm.virtualFinalityPoint fuel
    pure (virtualFinalityPoint, fm)
  else
    match fm.finalityStore blockHash with
    | some finalityPoint => pure (finalityPoint, fm)
    | none => fm.calculateAndStageFinalityPoint fuel blockHash isBlockWithTrustedData

inductive Step : FinalityManager → FinalityManager → Prop
  | finalityPoint {fm fm' : FinalityManager} {fuel : Nat} {blockHash finalityPoint : DomainHash}
      {isBlockWithTrustedData : Bool}
      (called : fm.finalityPoint fuel blockHash isBlockWithTrustedData = pure (finalityPoint, fm')) :
      Step fm fm'
  | movePruningPoint {fm : FinalityManager} {pruningPoint pruningPoint' : DomainHash}
      (current : fm.pruningPoint = some pruningPoint)
      (above : fm.topology.OnChain pruningPoint pruningPoint') :
      Step fm { fm with pruningPoint := some pruningPoint' }

def StoreProduced : Prop :=
  ∃ pruningPoint, fm.pruningPoint = some pruningPoint ∧
    ∀ x f, fm.finalityStore x = some f → fm.Produced pruningPoint x f

variable {fm}

theorem eq_with_stores {pruningPoint : DomainHash} (pruning : fm.pruningPoint = some pruningPoint) :
    { fm with pruningPoint := some pruningPoint, finalityStore := fm.finalityStore } = fm := by
  cases fm
  cases pruning
  rfl

theorem Step.eq_with_stores {fm' : FinalityManager} (step : Step fm fm') :
    ∃ finalityStore pruningPoint,
      fm' = { fm with finalityStore := finalityStore, pruningPoint := pruningPoint } := by
  cases step with
  | movePruningPoint => exact ⟨_, _, rfl⟩
  | @finalityPoint _ fuel blockHash _ trusted called =>
    unfold FinalityManager.finalityPoint at called
    split_ifs at called
    · obtain ⟨_, -, called⟩ := bind_eq_pure called
      obtain rfl := (Prod.ext_iff.1 (pure_inj called)).2
      exact ⟨_, _, rfl⟩
    · split at called
      · obtain rfl := (Prod.ext_iff.1 (pure_inj called)).2
        exact ⟨_, _, rfl⟩
      · obtain ⟨_, -, called⟩ := bind_eq_pure called
        obtain rfl := (Prod.ext_iff.1 (pure_inj called)).2
        exact ⟨_, _, rfl⟩

theorem Produced.with_stores {pruningPoint x f : DomainHash} (produced : fm.Produced pruningPoint x f)
    (finalityStore : DomainHash → Option DomainHash) (pruningPoint' : Option DomainHash) :
    ({ fm with finalityStore := finalityStore, pruningPoint := pruningPoint' }).Produced
      pruningPoint x f := by
  induction produced with
  | calculated below _ calculation ih => exact .calculated below ih calculation

theorem Produced.mono {pruningPoint pruningPoint' x f : DomainHash}
    (produced : fm.Produced pruningPoint x f) (above : fm.topology.OnChain pruningPoint pruningPoint') :
    fm.Produced pruningPoint' x f := by
  induction produced with
  | calculated below _ calculation ih => exact .calculated (below.trans above) ih calculation

theorem StoreProduced.step {fm' : FinalityManager} (inv : fm.StoreProduced) (step : Step fm fm') :
    fm'.StoreProduced := by
  obtain ⟨pruningPoint, pruning, stored⟩ := inv
  cases step with
  | movePruningPoint current above =>
    obtain rfl := Option.some.inj (current.symm.trans pruning)
    exact ⟨_, rfl, fun x f found => ((stored x f found).mono above).with_stores _ _⟩
  | @finalityPoint _ fuel blockHash _ trusted called =>
    unfold FinalityManager.finalityPoint at called
    split_ifs at called
    · obtain ⟨_, -, called⟩ := bind_eq_pure called
      obtain rfl := (Prod.ext_iff.1 (pure_inj called)).2
      exact ⟨pruningPoint, pruning, stored⟩
    · split at called
      · obtain rfl := (Prod.ext_iff.1 (pure_inj called)).2
        exact ⟨pruningPoint, pruning, stored⟩
      · obtain ⟨f, calculated, called⟩ := bind_eq_pure called
        obtain rfl := (Prod.ext_iff.1 (pure_inj called)).2
        have produced : fm.Produced pruningPoint blockHash f :=
          @Produced.calculated fm pruningPoint blockHash f pruningPoint fm.finalityStore fuel trusted
            Relation.ReflTransGen.refl (fun y _ _ g found => stored y g found)
            (by rw [eq_with_stores pruning]; exact calculated)
        refine ⟨pruningPoint, pruning, fun x g found => ?_⟩
        by_cases same : x = blockHash
        · subst same
          simp only [stageFinalityPoint, ↓reduceIte, Option.some.injEq] at found
          subst found
          exact produced.with_stores _ _
        · simp only [stageFinalityPoint, if_neg same] at found
          exact (stored x g found).with_stores _ _

theorem StoreProduced.reachable {fm' : FinalityManager} (inv : fm.StoreProduced)
    (reached : Relation.ReflTransGen Step fm fm') : fm'.StoreProduced := by
  induction reached with
  | refl => exact inv
  | tail _ step ih => exact ih.step step

theorem eq_with_stores_of_reachable {fm' : FinalityManager}
    (reached : Relation.ReflTransGen Step fm fm') :
    ∃ finalityStore pruningPoint,
      fm' = { fm with finalityStore := finalityStore, pruningPoint := pruningPoint } := by
  induction reached with
  | refl => exact ⟨fm.finalityStore, fm.pruningPoint, rfl⟩
  | tail _ step ih =>
    obtain ⟨finalityStore, pruningPoint, rfl⟩ := ih
    obtain ⟨finalityStore', pruningPoint', rfl⟩ := step.eq_with_stores
    exact ⟨finalityStore', pruningPoint', rfl⟩

theorem storeProduced_empty {pruningPoint : DomainHash} (pruning : fm.pruningPoint = some pruningPoint)
    (empty : ∀ x, fm.finalityStore x = none) : fm.StoreProduced :=
  ⟨pruningPoint, pruning, fun x f found => by rw [empty x] at found; cases found⟩

/-- **Finality points in every reachable state.** Start from consistent data and a store of
    produced finality points, an empty one for instance. After any calls of `FinalityPoint` and
    moves of the pruning point up its chain, `calculateFinalityPoint` on a block more than the
    finality depth above the pruning point, on whose chain that is, returns the highest block of
    its chain with a blue score more than the finality depth below its own. -/
theorem calculateFinalityPoint_eq_highest_of_reachable {blocks : Finset DomainHash}
    {fm₀ : FinalityManager} (cc : fm₀.ChainConsistent blocks) (start : fm₀.StoreProduced)
    (reached : Relation.ReflTransGen Step fm₀ fm) {pruningPoint blockHash : DomainHash}
    (pruning : fm.pruningPoint = some pruningPoint) (mem : blockHash ∈ blocks)
    (pruningPointChain : fm.topology.OnChain pruningPoint blockHash)
    {d pruningPointData : BlockGHOSTDAGData} (found : fm.ghostdagManager.dataOf blockHash = some d)
    (pruningPointFound : fm.ghostdagManager.dataOf pruningPoint = some pruningPointData)
    (deep : pruningPointData.blueScore.toNat + fm.finalityDepth.toNat < d.blueScore.toNat)
    {fuel : Nat} {f : DomainHash} (calculated : fm.calculateFinalityPoint fuel blockHash false = pure f) :
    fm.HighestBelow blockHash (d.blueScore.toNat - fm.finalityDepth.toNat) f := by
  obtain ⟨pruningPoint', pruning', stored⟩ := start.reachable reached
  obtain rfl := Option.some.inj (pruning'.symm.trans pruning)
  have cc' : fm.ChainConsistent blocks := by
    obtain ⟨finalityStore, pruningPoint, rfl⟩ := eq_with_stores_of_reachable reached
    exact cc.with_stores finalityStore pruningPoint
  exact calculateFinalityPoint_eq_highest cc' pruning mem pruningPointChain found pruningPointFound
    deep (fun x _ _ g found => stored x g found) calculated

/-- The diamond under the genesis as pruning point, with an empty finality store. -/
def diamondStart : FinalityManager := walking diamondRun 5 (fun _ => none) (some ⟨0⟩) 1

/-- From the empty store, a call of `FinalityPoint` on block 2 of the diamond stages the genesis
    as its finality point; `calculateFinalityPoint` on the top block then returns block 2, the
    highest of its chain with blue score below 2. -/
theorem calculateFinalityPoint_eq_highest_of_reachable_diamond :
    diamondStart.ChainConsistent [⟨0⟩, ⟨1⟩, ⟨2⟩, ⟨3⟩].toFinset ∧ diamondStart.StoreProduced ∧
      Relation.ReflTransGen Step diamondStart (diamondStart.stageFinalityPoint ⟨2⟩ ⟨0⟩) ∧
      (diamondStart.stageFinalityPoint ⟨2⟩ ⟨0⟩).topology.OnChain ⟨0⟩ ⟨3⟩ ∧
      (diamondStart.stageFinalityPoint ⟨2⟩ ⟨0⟩).calculateFinalityPoint 5 ⟨3⟩ false = pure ⟨2⟩ ∧
      (diamondStart.stageFinalityPoint ⟨2⟩ ⟨0⟩).HighestBelow ⟨3⟩ 2 ⟨2⟩ := by
  have cc := chainConsistent_diamondWalking (fun _ => none)
  have start : diamondStart.StoreProduced := storeProduced_empty rfl fun _ => rfl
  have called : diamondStart.finalityPoint 5 ⟨2⟩ false =
      pure (⟨0⟩, diamondStart.stageFinalityPoint ⟨2⟩ ⟨0⟩) := rfl
  have reached := Relation.ReflTransGen.single (Step.finalityPoint called)
  have below : (diamondStart.stageFinalityPoint ⟨2⟩ ⟨0⟩).topology.OnChain ⟨0⟩ ⟨2⟩ := .single rfl
  have chain : (diamondStart.stageFinalityPoint ⟨2⟩ ⟨0⟩).topology.OnChain ⟨0⟩ ⟨3⟩ := below.tail rfl
  have calculated : (diamondStart.stageFinalityPoint ⟨2⟩ ⟨0⟩).calculateFinalityPoint 5 ⟨3⟩ false =
      pure ⟨2⟩ := rfl
  exact ⟨cc, start, reached, chain, calculated, calculateFinalityPoint_eq_highest_of_reachable cc
    start reached rfl (by decide) chain rfl rfl (by decide) calculated⟩

end FinalityManager

end Finality
