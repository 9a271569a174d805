import Htnd.Mempool.Model

/-!
The orphan pool (orphan_pool.go): transactions that spend outputs no one knows yet, indexed
by ID in `allOrphans` and by the outpoints they spend in `orphansByPreviousOutpoint`. An
orphan leaves through `removeOrphan`, which can recurse into the orphans that spend its
outputs; an accepted transaction fills the inputs of the orphans that spend it, and an
orphan with every input filled is validated again and moved to the transaction pool.
-/
namespace Mempool
open Utxo

/-- The result of a call that may fail, for a caller that looks at the error. -/
def attempt {α : Type} (x : MempoolM α) : MempoolM (Except MempoolError α) :=
  tryCatch (Except.ok <$> x) fun err => pure (.error err)

namespace OrphansPool

variable (config : Config) (env : Environment)

def checkOrphanDuplicate (transaction : DomainTransaction) : MempoolM Unit := do
  if ((← get).allOrphans.lookup transaction.id).isSome then throw (.txRuleError .duplicate)

def checkOrphanMass (transaction : DomainTransaction) : MempoolM Unit :=
  if config.maximumOrphanTransactionMass < transaction.mass then throw (.txRuleError .badOrphan)
  else pure ()

def checkOrphanDoubleSpend (transaction : DomainTransaction) : MempoolM Unit := do
  let s ← get
  if transaction.inputs.any fun input =>
      (s.orphansByPreviousOutpoint.lookup input.previousOutpoint).isSome then
    throw (.txRuleError .duplicate)

def addOrphan (transaction : DomainTransaction) (isHighPriority : Bool) : MempoolM Unit :=
  modify fun s =>
    let p := s.orphanHeap.length
    { s with
      orphanHeap := s.orphanHeap ++ [⟨transaction, isHighPriority, env.virtualDAAScore⟩]
      allOrphans := s.allOrphans.insert transaction.id p
      orphansByPreviousOutpoint := transaction.inputs.foldl
        (fun orphans input => orphans.insert input.previousOutpoint p) s.orphansByPreviousOutpoint }

def removeOrphanInputs (orphanTransactionID : DomainTransactionID) :
    List (DomainTransactionInput × Nat) → MempoolM Unit
  | [] => pure ()
  | (input, i) :: rest => do
    if ((← get).orphansByPreviousOutpoint.lookup input.previousOutpoint).isNone then
      throw (.orphanInputNotIndexed i orphanTransactionID input.previousOutpoint)
    modify fun s => { s with
      orphansByPreviousOutpoint := s.orphansByPreviousOutpoint.erase input.previousOutpoint }
    removeOrphanInputs orphanTransactionID rest

def removeRedeemersOfWith (removeOrphan : DomainTransactionID → Bool → MempoolM Unit)
    (transaction : DomainTransaction) : MempoolM Unit :=
  (List.range transaction.outputs.length).forM fun i => do
    let s ← get
    match s.orphansByPreviousOutpoint.lookup ⟨transaction.id, UInt32.ofNat i⟩ with
    | some p => removeOrphan (s.orphan p).transaction.id true
    | none => pure ()

def removeOrphan : Nat → DomainTransactionID → Bool → MempoolM Unit
  | 0, _, _ => throw .outOfFuel
  | fuel + 1, orphanTransactionID, removeRedeemers => do
    let s ← get
    match s.allOrphans.lookup orphanTransactionID with
    | none => pure ()
    | some p =>
      let orphanTransaction := s.orphan p
      set { s with allOrphans := s.allOrphans.erase orphanTransactionID }
      removeOrphanInputs orphanTransactionID orphanTransaction.transaction.inputs.zipIdx
      if removeRedeemers then
        removeRedeemersOfWith (removeOrphan fuel) orphanTransaction.transaction

def removeRedeemersOf (fuel : Nat) (transaction : DomainTransaction) : MempoolM Unit :=
  removeRedeemersOfWith (removeOrphan fuel) transaction

def randomNonHighPriorityOrphan (s : MempoolState) : Option OrphanPointer :=
  (s.allOrphans.entries.find? fun entry => !(s.orphan entry.2).isHighPriority).map (·.2)

def limitOrphanPoolSize : Nat → MempoolM Unit
  | 0 => throw .outOfFuel
  | fuel + 1 => do
    let s ← get
    if config.maximumOrphanTransactionCount.toNat < s.allOrphans.entries.length then
      match randomNonHighPriorityOrphan s with
      | none => pure ()
      | some p =>
        removeOrphan fuel (s.orphan p).transaction.id false
        limitOrphanPoolSize fuel

def maybeAddOrphan (fuel : Nat) (transaction : DomainTransaction) (isHighPriority : Bool) :
    MempoolM Unit := do
  if config.maximumOrphanTransactionCount == 0 then return
  checkOrphanDuplicate transaction
  checkOrphanMass config transaction
  checkOrphanDoubleSpend transaction
  addOrphan env transaction isHighPriority
  limitOrphanPoolSize config fuel

def fillFirstUnfilled (outpoint : DomainOutpoint) (entry : UTXOEntry) :
    List DomainTransactionInput → List DomainTransactionInput
  | [] => []
  | input :: rest =>
    if input.previousOutpoint = outpoint ∧ input.utxoEntry.isNone then
      { input with utxoEntry := some entry } :: rest
    else input :: fillFirstUnfilled outpoint entry rest

def countUnfilledInputs (orphan : OrphanTransaction) : Nat :=
  (orphan.transaction.inputs.filter (·.utxoEntry.isNone)).length

def unorphanTransaction (fuel : Nat) (p : OrphanPointer) : MempoolM DomainTransaction := do
  let orphan := (← get).orphan p
  removeOrphan fuel orphan.transaction.id false
  let (transaction, err) := validateTransactionAndPopulateWithConsensusData env orphan.transaction
  modify fun s => s.setOrphan p { orphan with transaction }
  if let some err := err then throw err.toMempoolError
  validateTransactionInContext env transaction
  let s ← get
  let p' ← allocateMempoolTransaction
    ⟨transaction, TransactionsPool.getParentTransactionsInPool s transaction, false,
      env.virtualDAAScore⟩
  TransactionsPool.addMempoolTransaction p'
  pure transaction

def processOrphanOutputs (fuel : Nat) (acceptedTransaction : DomainTransaction) :
    List (DomainTransactionOutput × Nat) → MempoolM (List DomainTransaction)
  | [] => pure []
  | (output, i) :: rest => do
    let outpoint : DomainOutpoint := ⟨acceptedTransaction.id, UInt32.ofNat i⟩
    match (← get).orphansByPreviousOutpoint.lookup outpoint with
    | none => processOrphanOutputs fuel acceptedTransaction rest
    | some p =>
      modify fun s => s.setOrphan p { s.orphan p with transaction := { (s.orphan p).transaction with
        inputs := fillFirstUnfilled outpoint (unacceptedEntry output) (s.orphan p).transaction.inputs } }
      if countUnfilledInputs ((← get).orphan p) == 0 then
        match ← attempt (unorphanTransaction env fuel p) with
        | .error err =>
          if err.isRuleError then processOrphanOutputs fuel acceptedTransaction rest
          else throw err
        | .ok transaction =>
          pure (transaction :: (← processOrphanOutputs fuel acceptedTransaction rest))
      else processOrphanOutputs fuel acceptedTransaction rest

def processOrphansAfterAcceptedTransaction (fuel : Nat) (acceptedTransaction : DomainTransaction) :
    MempoolM (List DomainTransaction) :=
  processOrphanOutputs env fuel acceptedTransaction acceptedTransaction.outputs.zipIdx

def updateOrphansAfterTransactionRemoved (fuel : Nat) (removedTransaction : DomainTransaction)
    (removeRedeemers : Bool) : MempoolM Unit :=
  if removeRedeemers then removeRedeemersOf fuel removedTransaction
  else
    modify fun s => (List.range removedTransaction.outputs.length).foldl (fun s i =>
      match s.orphansByPreviousOutpoint.lookup ⟨removedTransaction.id, UInt32.ofNat i⟩ with
      | some p => s.setOrphan p { s.orphan p with transaction := { (s.orphan p).transaction with
          inputs := (s.orphan p).transaction.inputs.map fun input =>
            if input.previousOutpoint.transactionID = removedTransaction.id then
              { input with utxoEntry := none }
            else input } }
      | none => s) s

def expireOrphanTransactions (fuel : Nat) : MempoolM Unit := do
  let s ← get
  if env.virtualDAAScore - s.lastExpireScan < config.orphanExpireScanIntervalDAAScore then return
  s.allOrphans.entries.forM fun entry => do
    let orphan := (← get).orphan entry.2
    if !orphan.isHighPriority &&
        config.orphanExpireIntervalDAAScore < env.virtualDAAScore - orphan.addedAtDAAScore then
      removeOrphan fuel orphan.transaction.id false
  modify fun s => { s with lastExpireScan := env.virtualDAAScore }

end OrphansPool

end Mempool
