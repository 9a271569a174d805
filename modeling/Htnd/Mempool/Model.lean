import Htnd.Utxo.Transaction
import Htnd.Lib.GoSemantics
import Htnd.Lib.Binary64

/-!
The mempool of the mining manager (miningmanager/mempool): its state, the errors it returns,
what it asks outside itself, and the parts of `mempoolUTXOSet` and `transactionsPool` that do
not call back into the mempool.

Go shares `*MempoolTransaction` and `*OrphanTransaction` objects between the pool's maps and
changes them through any of them, so the objects live in two heaps, lists addressed by index:
a map holds addresses, allocation appends, and a change writes at an address. A
`DomainTransaction` is a value held by the one object that owns it. A Go map is an
association list, ranged over in its list order, one of the orders Go's randomised iteration
may produce. Methods run in `EStateM`: a method that returns an error keeps the changes it
made before it, as in Go.
-/
namespace Mempool
open Utxo

abbrev TxPointer := Nat

abbrev OrphanPointer := Nat

instance : Inhabited DomainTransaction := ⟨⟨⟨0, by decide⟩, [], [], ⟨[]⟩, 0, 0⟩⟩

structure MempoolTransaction where
  transaction : DomainTransaction
  parentTransactionsInPool : AList fun _ : DomainTransactionID => TxPointer
  isHighPriority : Bool
  addedAtDAAScore : UInt64
  deriving Inhabited

structure OrphanTransaction where
  transaction : DomainTransaction
  isHighPriority : Bool
  addedAtDAAScore : UInt64
  deriving Inhabited

inductive RejectCode where
  | malformed | invalid | obsolete | duplicate | notRequested | nonstandard | dust
  | insufficientFee | finality | difficulty | immatureSpend | badOrphan | spamTx
  | freezedWallet | rateLimit
  deriving DecidableEq, Repr

inductive ConsensusError where
  | missingTxOut (missingOutpoints : List DomainOutpoint)
  | immatureSpend
  | ruleError
  | other
  deriving DecidableEq, Repr

inductive MempoolError where
  /-- `transactionRuleError(code, ...)`. -/
  | txRuleError (code : RejectCode)
  /-- `newRuleError(err)` around a consensus rule error. -/
  | consensusRuleError (err : ConsensusError)
  /-- A consensus error that is not a rule error, returned as it is. -/
  | consensusError
  | orphanInputNotIndexed (index : Nat) (orphanTransactionID : DomainTransactionID)
      (previousOutpoint : DomainOutpoint)
  | transactionNotFound
  | feeAndMassNotPopulated
  | indexOutOfBound (index : Nat)
  | panic (p : GoSemantics.Panic)
  /-- A loop of the model ran out of turns: the call does not return. -/
  | outOfFuel
  deriving DecidableEq, Repr

def MempoolError.isRuleError : MempoolError → Bool
  | .txRuleError _ | .consensusRuleError _ => true
  | _ => false

def MempoolError.message (idText : DomainTransactionID → String)
    (outpointText : DomainOutpoint → String) : MempoolError → Option String
  | .orphanInputNotIndexed index orphanTransactionID previousOutpoint =>
    some ("Input No. " ++ toString index ++ " of " ++ idText orphanTransactionID ++ " (" ++
      outpointText previousOutpoint ++ ") doesn't exist in orphansByPreviousOutpoint")
  | .feeAndMassNotPopulated =>
    some "findTransactionIndex expects a transaction with populated fee and mass"
  | .indexOutOfBound index =>
    some ("Index " ++ toString index ++ " is out of bound of this TransactionsOrderedByFeeRate")
  | _ => none

def ConsensusError.toMempoolError : ConsensusError → MempoolError
  | .immatureSpend => .txRuleError .immatureSpend
  | .other => .consensusError
  | err => .consensusRuleError err

structure Config where
  maximumTransactionCount : UInt64
  transactionExpireIntervalDAAScore : UInt64
  transactionExpireScanIntervalDAAScore : UInt64
  transactionExpireScanIntervalSeconds : UInt64
  orphanExpireIntervalDAAScore : UInt64
  orphanExpireScanIntervalDAAScore : UInt64
  maximumOrphanTransactionMass : UInt64
  maximumOrphanTransactionCount : UInt64
  acceptNonStandard : Bool

structure Environment where
  virtualDAAScore : UInt64
  transactionMass : DomainTransaction → UInt64
  validateTransactionInIsolation : DomainTransaction → Option ConsensusError
  virtualUTXOEntry : DomainOutpoint → Option UTXOEntry
  validateTransactionInContextAndPopulateFee : DomainTransaction → Except ConsensusError UInt64
  checkTransactionStandardInIsolation : DomainTransaction → Option RejectCode
  checkTransactionInContext : DomainTransaction → Option RejectCode
  secondsSinceLastExpireScan : Nat

structure MempoolState where
  transactionHeap : List MempoolTransaction
  orphanHeap : List OrphanTransaction
  poolUnspentOutputs : AList fun _ : DomainOutpoint => Option UTXOEntry
  transactionByPreviousOutpoint : AList fun _ : DomainOutpoint => TxPointer
  allTransactions : AList fun _ : DomainTransactionID => TxPointer
  highPriorityTransactions : AList fun _ : DomainTransactionID => TxPointer
  chainedTransactionsByParentID : AList fun _ : DomainTransactionID => List TxPointer
  transactionsOrderedByFeeRate : List TxPointer
  lastExpireScanDAAScore : UInt64
  allOrphans : AList fun _ : DomainTransactionID => OrphanPointer
  orphansByPreviousOutpoint : AList fun _ : DomainOutpoint => OrphanPointer
  lastExpireScan : UInt64

abbrev MempoolM := EStateM MempoolError MempoolState

namespace MempoolState

def empty : MempoolState :=
  ⟨[], [], ∅, ∅, ∅, ∅, ∅, [], 0, ∅, ∅, 0⟩

def mempoolTransaction (s : MempoolState) (p : TxPointer) : MempoolTransaction :=
  s.transactionHeap.getD p default

def orphan (s : MempoolState) (p : OrphanPointer) : OrphanTransaction :=
  s.orphanHeap.getD p default

def setMempoolTransaction (s : MempoolState) (p : TxPointer) (mt : MempoolTransaction) :
    MempoolState :=
  { s with transactionHeap := s.transactionHeap.set p mt }

def setOrphan (s : MempoolState) (p : OrphanPointer) (orphan : OrphanTransaction) :
    MempoolState :=
  { s with orphanHeap := s.orphanHeap.set p orphan }

end MempoolState

def allocateMempoolTransaction (mt : MempoolTransaction) : MempoolM TxPointer :=
  modifyGet fun s => (s.transactionHeap.length, { s with transactionHeap := s.transactionHeap ++ [mt] })

/-- `constants.UnacceptedDAAScore`, `math.MaxUint64`. -/
def unacceptedDAAScore : UInt64 := 18446744073709551615

def unacceptedEntry (output : DomainTransactionOutput) : UTXOEntry :=
  ⟨output.value, output.scriptPublicKey, unacceptedDAAScore, false⟩

/-! ### `TransactionsOrderedByFeeRate` -/

/-- `float64(tx.Fee) / float64(tx.Mass)`, read only for transactions with both populated. -/
def feeRate (tx : DomainTransaction) : Binary64.Value :=
  Binary64.div (Binary64.ofNat tx.fee.toNat) (Binary64.ofNat tx.mass.toNat)

/-- `elementFeeRate > txFeeRate`, for `a` the element and `b` the transaction searched. -/
def feeRateGreater (a b : DomainTransaction) : Bool := (feeRate b).lt (feeRate a)

/-- `elementFeeRate == txFeeRate`. -/
def feeRateEqual (a b : DomainTransaction) : Bool := (feeRate a).beq (feeRate b)

def searchLoop (f : Nat → Bool) : Nat → Nat → Nat → Nat
  | 0, i, _ => i
  | fuel + 1, i, j =>
    if i < j then
      let h := (i + j) / 2
      if !f h then searchLoop f fuel (h + 1) j else searchLoop f fuel i h
    else i

def sortSearch (n : Nat) (f : Nat → Bool) : Nat :=
  searchLoop f (n + 1) 0 n

namespace TransactionsOrderedByFeeRate

def findTransactionIndex (s : MempoolState) (transaction : MempoolTransaction) :
    Except MempoolError (Nat × Bool) :=
  let tx := transaction.transaction
  if tx.fee == 0 || tx.mass == 0 then .error .feeAndMassNotPopulated
  else
    let slice := s.transactionsOrderedByFeeRate
    let index := sortSearch slice.length fun i =>
      let element := (s.mempoolTransaction (slice.getD i 0)).transaction
      feeRateGreater element tx || (feeRateEqual element tx && decide (tx.id.value ≤ element.id.value))
    let wasFound := index != slice.length &&
      (s.mempoolTransaction (slice.getD index 0)).transaction.id == tx.id
    .ok (index, wasFound)

def push (p : TxPointer) : MempoolM Unit := do
  let s ← get
  match findTransactionIndex s (s.mempoolTransaction p) with
  | .error err => throw err
  | .ok (index, _) =>
    set { s with transactionsOrderedByFeeRate :=
      s.transactionsOrderedByFeeRate.take index ++ p :: s.transactionsOrderedByFeeRate.drop index }

theorem findTransactionIndex_of_fee_zero (s : MempoolState)
    {transaction : MempoolTransaction} (zeroFee : transaction.transaction.fee = 0) :
    findTransactionIndex s transaction = .error .feeAndMassNotPopulated := by
  simp [findTransactionIndex, zeroFee]

theorem push_of_error {s : MempoolState} {p : TxPointer} {err : MempoolError}
    (failed : findTransactionIndex s (s.mempoolTransaction p) = .error err) :
    (push p).run s = .error err s := by
  simp only [push, EStateM.run, bind, EStateM.bind, get, getThe, MonadStateOf.get, EStateM.get]
  rw [failed]
  rfl

def removeAtIndex (index : Nat) : MempoolM Unit := do
  let s ← get
  if s.transactionsOrderedByFeeRate.length ≤ index then throw (.indexOutOfBound index)
  else set { s with transactionsOrderedByFeeRate := s.transactionsOrderedByFeeRate.eraseIdx index }

def remove (p : TxPointer) : MempoolM Unit := do
  let s ← get
  match findTransactionIndex s (s.mempoolTransaction p) with
  | .error err => throw err
  | .ok (index, wasFound) => if !wasFound then throw .transactionNotFound else removeAtIndex index

end TransactionsOrderedByFeeRate

/-! ### `mempoolUTXOSet` -/

namespace MempoolUTXOSet

def addTransaction (s : MempoolState) (p : TxPointer) : MempoolState :=
  let transaction := (s.mempoolTransaction p).transaction
  let poolUnspentOutputs := (List.range transaction.inputs.length).foldl
    (fun outputs i => outputs.erase ⟨transaction.id, UInt32.ofNat i⟩) s.poolUnspentOutputs
  let poolUnspentOutputs := transaction.outputs.zipIdx.foldl (fun outputs output =>
    outputs.insert ⟨transaction.id, UInt32.ofNat output.2⟩ (some (unacceptedEntry output.1)))
    poolUnspentOutputs
  let transactionByPreviousOutpoint := transaction.inputs.foldl (fun spenders input =>
    spenders.insert input.previousOutpoint p) s.transactionByPreviousOutpoint
  { s with poolUnspentOutputs, transactionByPreviousOutpoint }

@[simp] theorem addTransaction_transactionHeap (s : MempoolState) (p : TxPointer) :
    (addTransaction s p).transactionHeap = s.transactionHeap := rfl

@[simp] theorem addTransaction_allTransactions (s : MempoolState) (p : TxPointer) :
    (addTransaction s p).allTransactions = s.allTransactions := rfl

/-- `removeTransaction`: an input whose parent is in the pool gives its entry back to
    `poolUnspentOutputs`, whatever that entry is (nil after `clearInputs`). -/
def removeTransaction (s : MempoolState) (p : TxPointer) : MempoolState :=
  let transaction := (s.mempoolTransaction p).transaction
  let poolUnspentOutputs := transaction.inputs.foldl (fun outputs input =>
    if (s.allTransactions.lookup input.previousOutpoint.transactionID).isSome then
      outputs.insert input.previousOutpoint input.utxoEntry
    else outputs) s.poolUnspentOutputs
  let transactionByPreviousOutpoint := transaction.inputs.foldl (fun spenders input =>
    spenders.erase input.previousOutpoint) s.transactionByPreviousOutpoint
  let poolUnspentOutputs := (List.range transaction.outputs.length).foldl
    (fun outputs i => outputs.erase ⟨transaction.id, UInt32.ofNat i⟩) poolUnspentOutputs
  { s with poolUnspentOutputs, transactionByPreviousOutpoint }

def checkDoubleSpends (transaction : DomainTransaction) : MempoolM Unit := do
  let s ← get
  if transaction.inputs.any fun input =>
      (s.transactionByPreviousOutpoint.lookup input.previousOutpoint).isSome then
    throw (.txRuleError .duplicate)

end MempoolUTXOSet

/-! ### `transactionsPool`, the methods that stay inside it -/

namespace TransactionsPool

def addMempoolTransaction (p : TxPointer) : MempoolM Unit := do
  let s ← get
  let mt := s.mempoolTransaction p
  let chainedTransactionsByParentID := mt.parentTransactionsInPool.entries.foldl
    (fun chained parent =>
      let parentTransactionID := (s.mempoolTransaction parent.2).transaction.id
      chained.insert parentTransactionID ((chained.lookup parentTransactionID).getD [] ++ [p]))
    s.chainedTransactionsByParentID
  set (MempoolUTXOSet.addTransaction { s with
    allTransactions := s.allTransactions.insert mt.transaction.id p
    chainedTransactionsByParentID } p)
  TransactionsOrderedByFeeRate.push p
  if mt.isHighPriority then
    modify fun s => { s with
      highPriorityTransactions := s.highPriorityTransactions.insert mt.transaction.id p }

def addTransaction (env : Environment) (transaction : DomainTransaction)
    (parentTransactionsInPool : AList fun _ : DomainTransactionID => TxPointer)
    (isHighPriority : Bool) : MempoolM TxPointer := do
  let p ← allocateMempoolTransaction
    ⟨transaction, parentTransactionsInPool, isHighPriority, env.virtualDAAScore⟩
  addMempoolTransaction p
  pure p

def removeTransaction (p : TxPointer) : MempoolM Unit := do
  let id := ((← get).mempoolTransaction p).transaction.id
  modify fun s => { s with allTransactions := s.allTransactions.erase id }
  tryCatch (TransactionsOrderedByFeeRate.remove p) fun err =>
    if err = .transactionNotFound then pure () else throw err
  modify fun s => { s with
    highPriorityTransactions := s.highPriorityTransactions.erase id
    chainedTransactionsByParentID := s.chainedTransactionsByParentID.erase id }

def getParentTransactionsInPool (s : MempoolState) (transaction : DomainTransaction) :
    AList fun _ : DomainTransactionID => TxPointer :=
  transaction.inputs.foldl (fun parents input =>
    match s.allTransactions.lookup input.previousOutpoint.transactionID with
    | some p => parents.insert (s.mempoolTransaction p).transaction.id p
    | none => parents) ∅

def getRedeemersLoop (s : MempoolState) :
    Nat → List TxPointer → List TxPointer → Option (List TxPointer)
  | 0, _, _ => none
  | _ + 1, [], redeemers => some redeemers
  | fuel + 1, top :: rest, redeemers =>
    let current := (top :: rest).getLast (List.cons_ne_nil top rest)
    let chained := (s.chainedTransactionsByParentID.lookup
      (s.mempoolTransaction current).transaction.id).getD []
    getRedeemersLoop s fuel ((top :: rest).dropLast ++ chained) (redeemers ++ chained)

def getRedeemers (s : MempoolState) (fuel : Nat) (p : TxPointer) : Option (List TxPointer) :=
  getRedeemersLoop s fuel [p] []

end TransactionsPool

/-! ### What the mempool asks the consensus and its own checks -/

def validateTransactionAndPopulateWithConsensusData (env : Environment)
    (transaction : DomainTransaction) : DomainTransaction × Option ConsensusError :=
  match env.validateTransactionInIsolation transaction with
  | some err => (transaction, some err)
  | none =>
    let transaction := { transaction with inputs := transaction.inputs.map fun input =>
      if input.utxoEntry.isSome then input
      else { input with utxoEntry := env.virtualUTXOEntry input.previousOutpoint } }
    let missingOutpoints :=
      (transaction.inputs.filter (·.utxoEntry.isNone)).map (·.previousOutpoint)
    if missingOutpoints ≠ [] then (transaction, some (.missingTxOut missingOutpoints))
    else
      match env.validateTransactionInContextAndPopulateFee transaction with
      | .error err => (transaction, some err)
      | .ok fee => ({ transaction with fee }, none)

def validateTransactionInContext (env : Environment) (transaction : DomainTransaction) :
    MempoolM Unit :=
  match env.checkTransactionInContext transaction with
  | some code => throw (.txRuleError code)
  | none => pure ()

end Mempool
