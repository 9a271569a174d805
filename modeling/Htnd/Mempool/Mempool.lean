import Mathlib
import Htnd.Mempool.OrphanPool

/-!
The mempool's own methods (validate_and_insert_transaction.go, remove_transaction.go,
handle_new_block_transactions.go, revalidate_high_priority_transactions.go, and the two
methods of `transactionsPool` that call back into the mempool), and the runs they make from
an empty mempool, one call after another, each with its own answers from outside.
-/
namespace Mempool
open Utxo

variable (config : Config) (env : Environment)

/-- `fillInputs`: an input whose parent is in the pool takes that parent's output. An index
    past the parent's outputs makes the slice index panic. -/
def fillInputs (s : MempoolState) (transaction : DomainTransaction)
    (parentsInPool : AList fun _ : DomainTransactionID => TxPointer) :
    Except GoSemantics.Panic DomainTransaction := do
  let inputs ← transaction.inputs.mapM fun input =>
    match parentsInPool.lookup input.previousOutpoint.transactionID with
    | none => pure input
    | some p => do
      let relevantOutput ← GoSemantics.sliceIndex (s.mempoolTransaction p).transaction.outputs
        input.previousOutpoint.index.toNat
      pure { input with utxoEntry := some (unacceptedEntry relevantOutput) }
  pure { transaction with inputs }

/-- `fillInputsAndGetMissingParents`, with the transaction as the call leaves it: the caller's
    transaction is changed in place whatever the result. -/
def fillInputsAndGetMissingParents (s : MempoolState) (transaction : DomainTransaction) :
    DomainTransaction × Except MempoolError
      ((AList fun _ : DomainTransactionID => TxPointer) × List DomainOutpoint) :=
  let parentsInPool := TransactionsPool.getParentTransactionsInPool s transaction
  match fillInputs s transaction parentsInPool with
  | .error p => (transaction, .error (.panic p))
  | .ok transaction =>
    match validateTransactionAndPopulateWithConsensusData env transaction with
    | (transaction, none) => (transaction, .ok (parentsInPool, []))
    | (transaction, some (.missingTxOut missingOutpoints)) =>
      (transaction, .ok (parentsInPool, missingOutpoints))
    | (transaction, some err) => (transaction, .error err.toMempoolError)

def validateTransactionInIsolation (transaction : DomainTransaction) : MempoolM Unit := do
  if ((← get).allTransactions.lookup transaction.id).isSome then throw (.txRuleError .duplicate)
  if !config.acceptNonStandard then
    match env.checkTransactionStandardInIsolation transaction with
    | some code => throw (.txRuleError code)
    | none => pure ()

def validateTransactionPreUTXOEntry (transaction : DomainTransaction) : MempoolM Unit := do
  validateTransactionInIsolation config env transaction
  MempoolUTXOSet.checkDoubleSpends transaction

def removeTransactionFromSets (fuel : Nat) (p : TxPointer) (removeRedeemers : Bool) :
    MempoolM Unit := do
  modify fun s => MempoolUTXOSet.removeTransaction s p
  TransactionsPool.removeTransaction p
  OrphansPool.updateOrphansAfterTransactionRemoved fuel ((← get).mempoolTransaction p).transaction
    removeRedeemers

def removeTransaction (fuel : Nat) (transactionID : DomainTransactionID) (removeRedeemers : Bool) :
    MempoolM Unit := do
  let s ← get
  if (s.allOrphans.lookup transactionID).isSome then
    OrphansPool.removeOrphan fuel transactionID true
  else
    match s.allTransactions.lookup transactionID with
    | none => pure ()
    | some p =>
      match TransactionsPool.getRedeemers s fuel p with
      | none => throw .outOfFuel
      | some redeemers =>
        if !removeRedeemers then
          modify fun s => redeemers.foldl (fun s redeemer =>
            s.setMempoolTransaction redeemer { s.mempoolTransaction redeemer with
              parentTransactionsInPool :=
                (s.mempoolTransaction redeemer).parentTransactionsInPool.erase transactionID }) s
        let transactionsToRemove := if removeRedeemers then p :: redeemers else [p]
        transactionsToRemove.forM fun t => removeTransactionFromSets fuel t removeRedeemers
        if removeRedeemers then
          OrphansPool.removeRedeemersOf fuel ((← get).mempoolTransaction p).transaction

def expireOldTransactions (fuel : Nat) : MempoolM Unit := do
  let s ← get
  if env.virtualDAAScore - s.lastExpireScanDAAScore < config.transactionExpireScanIntervalDAAScore ||
      env.secondsSinceLastExpireScan < config.transactionExpireScanIntervalSeconds.toNat then
    return
  s.allTransactions.entries.forM fun entry => do
    match (← get).allTransactions.lookup entry.1 with
    | none => pure ()
    | some p =>
      let mt := (← get).mempoolTransaction p
      if !mt.isHighPriority &&
          config.transactionExpireIntervalDAAScore < env.virtualDAAScore - mt.addedAtDAAScore then
        removeTransaction fuel mt.transaction.id true
  modify fun s => { s with lastExpireScanDAAScore := env.virtualDAAScore }

def findTransactionToRemove (s : MempoolState) :
    Nat → Nat → Except MempoolError (Option (TxPointer × Nat))
  | 0, _ => .error .outOfFuel
  | fuel + 1, currentIndex =>
    match GoSemantics.sliceIndex s.transactionsOrderedByFeeRate currentIndex with
    | .error p => .error (.panic p)
    | .ok p =>
      if !(s.mempoolTransaction p).isHighPriority then .ok (some (p, currentIndex))
      else if s.allTransactions.entries.length ≤ currentIndex + 1 then .ok none
      else findTransactionToRemove s fuel (currentIndex + 1)

def limitTransactionCountLoop (fuel : Nat) : Nat → Nat → MempoolM Unit
  | 0, _ => throw .outOfFuel
  | turns + 1, currentIndex => do
    let s ← get
    if config.maximumTransactionCount.toNat < s.allTransactions.entries.length then
      match findTransactionToRemove s fuel currentIndex with
      | .error err => throw err
      | .ok none => pure ()
      | .ok (some (p, currentIndex)) =>
        removeTransaction fuel (s.mempoolTransaction p).transaction.id true
        if currentIndex < (← get).allTransactions.entries.length then
          limitTransactionCountLoop fuel turns currentIndex

def limitTransactionCount (fuel : Nat) : MempoolM Unit :=
  limitTransactionCountLoop config fuel fuel 0

def validateAndInsertTransaction (fuel : Nat) (transaction : DomainTransaction)
    (isHighPriority allowOrphan : Bool) : MempoolM (List DomainTransaction) := do
  let transaction := { transaction with mass := env.transactionMass transaction }
  validateTransactionPreUTXOEntry config env transaction
  let (transaction, result) := fillInputsAndGetMissingParents env (← get) transaction
  match result with
  | .error err => throw err
  | .ok (parentsInPool, missingOutpoints) =>
    if missingOutpoints ≠ [] then
      if !allowOrphan then throw (.txRuleError .badOrphan)
      OrphansPool.maybeAddOrphan config env fuel transaction isHighPriority
      return []
    validateTransactionInContext env transaction
    let p ← TransactionsPool.addTransaction env transaction parentsInPool isHighPriority
    let acceptedOrphans ← OrphansPool.processOrphansAfterAcceptedTransaction env fuel
      ((← get).mempoolTransaction p).transaction
    limitTransactionCount config fuel
    pure (transaction :: acceptedOrphans)

def removeDoubleSpends (fuel : Nat) (transaction : DomainTransaction) : MempoolM Unit :=
  transaction.inputs.forM fun input => do
    let s ← get
    match s.transactionByPreviousOutpoint.lookup input.previousOutpoint with
    | some redeemer => removeTransaction fuel (s.mempoolTransaction redeemer).transaction.id true
    | none => pure ()

def handleBlockTransaction (fuel : Nat) (transaction : DomainTransaction) :
    MempoolM (List DomainTransaction) := do
  removeTransaction fuel transaction.id false
  removeDoubleSpends fuel transaction
  OrphansPool.removeOrphan fuel transaction.id false
  OrphansPool.processOrphansAfterAcceptedTransaction env fuel transaction

/-- `handleNewBlockTransactions`: the coinbase transaction is skipped; a block without one
    makes the slice expression panic. -/
def handleNewBlockTransactions (fuel : Nat) (blockTransactions : List DomainTransaction) :
    MempoolM (List DomainTransaction) := do
  match blockTransactions with
  | [] => throw (.panic (.indexOutOfRange 1 0))
  | _ :: transactions =>
    let acceptedOrphans ← transactions.foldlM (fun accepted transaction => do
      pure (accepted ++ (← handleBlockTransaction env fuel transaction))) []
    OrphansPool.expireOrphanTransactions config env fuel
    expireOldTransactions config env fuel
    pure acceptedOrphans

def revalidateTransaction (fuel : Nat) (p : TxPointer) : MempoolM Bool := do
  modify fun s => s.setMempoolTransaction p { s.mempoolTransaction p with
    transaction := { (s.mempoolTransaction p).transaction with
      inputs := (s.mempoolTransaction p).transaction.inputs.map fun input =>
        { input with utxoEntry := none } } }
  let s ← get
  let (transaction, result) := fillInputsAndGetMissingParents env s (s.mempoolTransaction p).transaction
  modify fun s => s.setMempoolTransaction p { s.mempoolTransaction p with transaction }
  match result with
  | .error err => throw err
  | .ok (_, missingParents) =>
    if missingParents ≠ [] then
      removeTransaction fuel transaction.id false
      pure false
    else pure true

structure TxNode where
  children : List DomainTransactionID
  nonVisitedParents : Int
  tx : TxPointer
  visited : Bool
  deriving Inhabited

def maybeAddNode (s : MempoolState) (txDAG : AList fun _ : DomainTransactionID => TxNode)
    (txID : DomainTransactionID) : (AList fun _ : DomainTransactionID => TxNode) × TxNode :=
  match txDAG.lookup txID with
  | some node => (txDAG, node)
  | none =>
    let node : TxNode := ⟨[], 0, (s.highPriorityTransactions.lookup txID).getD 0, false⟩
    (txDAG.insert txID node, node)

def buildTxDAG (s : MempoolState) :
    (AList fun _ : DomainTransactionID => TxNode) × List DomainTransactionID :=
  s.highPriorityTransactions.entries.foldl (fun acc entry =>
    let id := entry.1
    let txDAG := (maybeAddNode s acc.1 id).1
    let linked := (s.mempoolTransaction entry.2).transaction.inputs.foldl (fun linked input =>
      let parentID := input.previousOutpoint.transactionID
      if (s.highPriorityTransactions.lookup parentID).isNone then linked
      else
        let (txDAG, parentNode) := maybeAddNode s linked.1 parentID
        (txDAG.insert parentID { parentNode with
            children := if id ∈ parentNode.children then parentNode.children
              else parentNode.children ++ [id] },
          if parentID ∈ linked.2 then linked.2 else linked.2 ++ [parentID])) (txDAG, [])
    let node := (linked.1.lookup id).getD default
    (linked.1.insert id { node with nonVisitedParents := linked.2.length },
      if linked.2.length = 0 then acc.2 ++ [id] else acc.2)) (∅, [])

def revalidateLoop (fuel : Nat) :
    Nat → (AList fun _ : DomainTransactionID => TxNode) → List DomainTransactionID →
      List DomainTransaction → MempoolM (List DomainTransaction)
  | 0, _, _, _ => throw .outOfFuel
  | _ + 1, _, [], validTransactions => pure validTransactions
  | turns + 1, txDAG, id :: queue, validTransactions => do
    let node := (txDAG.lookup id).getD default
    if node.visited then revalidateLoop fuel turns txDAG queue validTransactions
    else
      let txDAG := txDAG.insert id { node with visited := true }
      let isValid ← revalidateTransaction env fuel node.tx
      let (txDAG, queue) := node.children.foldl (fun acc child =>
        let childNode := (acc.1.lookup child).getD default
        let childNode := { childNode with nonVisitedParents := childNode.nonVisitedParents - 1 }
        (acc.1.insert child childNode,
          if childNode.nonVisitedParents = 0 then acc.2 ++ [child] else acc.2)) (txDAG, queue)
      let s ← get
      let validTransactions := if isValid then
          validTransactions ++ [(s.mempoolTransaction node.tx).transaction]
        else validTransactions
      revalidateLoop fuel turns txDAG queue validTransactions

def revalidateHighPriorityTransactions (fuel : Nat) : MempoolM (List DomainTransaction) := do
  let (txDAG, queue) := buildTxDAG (← get)
  revalidateLoop env fuel fuel txDAG queue []

inductive MempoolOperation where
  | validateAndInsertTransaction (env : Environment) (transaction : DomainTransaction)
      (isHighPriority allowOrphan : Bool)
  | removeTransaction (transactionID : DomainTransactionID) (removeRedeemers : Bool)
  | handleNewBlockTransactions (env : Environment) (blockTransactions : List DomainTransaction)
  | revalidateHighPriorityTransactions (env : Environment)
  | expireOldTransactions (env : Environment)
  | expireOrphanTransactions (env : Environment)
  | limitTransactionCount

def MempoolOperation.call (fuel : Nat) : MempoolOperation → MempoolM Unit
  | .validateAndInsertTransaction env transaction isHighPriority allowOrphan =>
    discard (Mempool.validateAndInsertTransaction config env fuel transaction isHighPriority
      allowOrphan)
  | .removeTransaction transactionID removeRedeemers =>
    Mempool.removeTransaction fuel transactionID removeRedeemers
  | .handleNewBlockTransactions env blockTransactions =>
    discard (Mempool.handleNewBlockTransactions config env fuel blockTransactions)
  | .revalidateHighPriorityTransactions env =>
    discard (Mempool.revalidateHighPriorityTransactions env fuel)
  | .expireOldTransactions env => Mempool.expireOldTransactions config env fuel
  | .expireOrphanTransactions env => OrphansPool.expireOrphanTransactions config env fuel
  | .limitTransactionCount => Mempool.limitTransactionCount config fuel

def MempoolOperation.step (fuel : Nat) (s : MempoolState) (operation : MempoolOperation) :
    MempoolState :=
  match (operation.call config fuel).run s with
  | .ok _ s => s
  | .error _ s => s

def MempoolOperation.environment : MempoolOperation → Option Environment
  | .validateAndInsertTransaction env _ _ _ => some env
  | .removeTransaction _ _ => none
  | .handleNewBlockTransactions env _ => some env
  | .revalidateHighPriorityTransactions env => some env
  | .expireOldTransactions env => some env
  | .expireOrphanTransactions env => some env
  | .limitTransactionCount => none

inductive Reachable (answers : Environment → Prop) : MempoolState → Prop
  | empty : Reachable answers MempoolState.empty
  | step {s : MempoolState} (fuel : Nat) (operation : MempoolOperation)
      (answered : ∀ env ∈ operation.environment, answers env) :
      Reachable answers s → Reachable answers (operation.step config fuel s)


def acceptingEnvironment : Environment where
  virtualDAAScore := 0
  transactionMass := fun _ => 1
  validateTransactionInIsolation := fun _ => none
  virtualUTXOEntry := fun _ => some ⟨10, ⟨[], 0⟩, 0, false⟩
  validateTransactionInContextAndPopulateFee := fun _ => .ok 1
  checkTransactionStandardInIsolation := fun _ => none
  checkTransactionInContext := fun _ => none
  secondsSinceLastExpireScan := 0

def defaultLimits : Config :=
  ⟨1000000, 0, 0, 0, 0, 0, 100000, 50, false⟩

def parentTransaction : DomainTransaction :=
  ⟨⟨1⟩, [⟨⟨⟨100⟩, 0⟩, [], 0, 1, none⟩], [⟨10, ⟨[], 0⟩⟩], ⟨[]⟩, 0, 0⟩

def childTransaction : DomainTransaction :=
  ⟨⟨2⟩, [⟨⟨parentTransaction.id, 0⟩, [], 0, 1, none⟩], [⟨9, ⟨[], 0⟩⟩], ⟨[]⟩, 0, 0⟩

/-- Inserting a transaction and then one that spends its output: the spent output stays in
    `poolUnspentOutputs`, because `mempoolUTXOSet.addTransaction` deletes the child's own
    output instead. -/
theorem validateAndInsertTransaction_leaves_spent_output_unspent :
    let first := MempoolOperation.validateAndInsertTransaction acceptingEnvironment
      parentTransaction false false
    let second := MempoolOperation.validateAndInsertTransaction acceptingEnvironment
      childTransaction false false
    let s := second.step defaultLimits 10 (first.step defaultLimits 10 .empty)
    Reachable defaultLimits (fun _ => True) s ∧
      (s.allTransactions.lookup childTransaction.id).isSome ∧
      s.transactionByPreviousOutpoint.lookup ⟨parentTransaction.id, 0⟩ =
        s.allTransactions.lookup childTransaction.id ∧
      (s.poolUnspentOutputs.lookup ⟨parentTransaction.id, 0⟩).isSome :=
  ⟨.step 10 _ (fun _ _ => trivial) (.step 10 _ (fun _ _ => trivial) .empty), by decide +kernel,
    by decide +kernel, by decide +kernel⟩

def grandchildTransaction : DomainTransaction :=
  ⟨⟨4⟩, [⟨⟨childTransaction.id, 0⟩, [], 0, 1, none⟩], [⟨8, ⟨[], 0⟩⟩], ⟨[]⟩, 0, 0⟩

def dagOnlyEnvironment : Environment :=
  { acceptingEnvironment with
    virtualUTXOEntry := fun outpoint =>
      if outpoint = ⟨⟨100⟩, 0⟩ then some ⟨10, ⟨[], 0⟩, 0, false⟩ else none }

def chainedOrphansState : MempoolState :=
  (MempoolOperation.validateAndInsertTransaction dagOnlyEnvironment grandchildTransaction false
    true).step defaultLimits 10
    ((MempoolOperation.validateAndInsertTransaction dagOnlyEnvironment childTransaction false
      true).step defaultLimits 10 .empty)

/-- Accepting the parent unorphans the child, whose output the grandchild spends, but the
    grandchild stays an orphan: the loop over the accepted transaction's outputs does not go on
    to the outputs of the orphans it accepts. -/
theorem processOrphansAfterAcceptedTransaction_leaves_grandchild_orphaned :
    Reachable defaultLimits (fun _ => True) chainedOrphansState ∧
      (chainedOrphansState.allOrphans.lookup grandchildTransaction.id).isSome ∧
      ((validateAndInsertTransaction defaultLimits dagOnlyEnvironment 10 parentTransaction false
          true).run' chainedOrphansState).map (List.map (·.id)) =
        some [parentTransaction.id, childTransaction.id] ∧
      (((MempoolOperation.validateAndInsertTransaction dagOnlyEnvironment parentTransaction false
          true).step defaultLimits 10 chainedOrphansState).poolUnspentOutputs.lookup
          ⟨childTransaction.id, 0⟩).isSome ∧
      (((MempoolOperation.validateAndInsertTransaction dagOnlyEnvironment parentTransaction false
          true).step defaultLimits 10 chainedOrphansState).allOrphans.lookup
          grandchildTransaction.id).isSome := by
  refine ⟨.step 10 _ (fun _ _ => trivial) (.step 10 _ (fun _ _ => trivial) .empty), ?_⟩
  decide +kernel

def zeroFeeEnvironment : Environment :=
  { acceptingEnvironment with validateTransactionInContextAndPopulateFee := fun _ => .ok 0 }

def nonStandardLimits : Config :=
  { defaultLimits with acceptNonStandard := true }

def zeroFeeInsertState : MempoolState :=
  (MempoolOperation.validateAndInsertTransaction zeroFeeEnvironment parentTransaction false
    false).step nonStandardLimits 10 .empty

/-- With `AcceptNonStandard` set nothing checks the fee before the pool: inserting a
    transaction whose fee is zero fails in the fee-rate push, and leaves the transaction in
    `allTransactions` and its output in `poolUnspentOutputs`, though it is in no fee-rate
    order (`addMempoolTransaction_of_zero_fee` is the same for every state). -/
theorem validateAndInsertTransaction_zero_fee_stays_in_pool :
    Reachable nonStandardLimits (fun _ => True) zeroFeeInsertState ∧
      (attempt (validateAndInsertTransaction nonStandardLimits zeroFeeEnvironment 10
        parentTransaction false false)).run' .empty = some (.error .feeAndMassNotPopulated) ∧
      (zeroFeeInsertState.allTransactions.lookup parentTransaction.id).isSome ∧
      (zeroFeeInsertState.poolUnspentOutputs.lookup ⟨parentTransaction.id, 0⟩).isSome ∧
      zeroFeeInsertState.transactionsOrderedByFeeRate = [] := by
  refine ⟨.step 10 _ (fun _ _ => trivial) .empty, ?_⟩
  decide +kernel

end Mempool
