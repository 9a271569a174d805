import Mathlib
import Htnd.Utxo.Transaction
import Htnd.Lib.GoSemantics

/- ValidateTransactionInContextAndPopulateFee (transaction_in_context.go). The input and output
   amounts are checked first; the coinbase maturity, sequence lock, sig-op count and script
   checks then run in four goroutines, and the call returns the first error received over the
   channel. The order in which the goroutines finish is a schedule, a permutation of the four
   checks. The script engine is given as its answers. -/
namespace TransactionValidation
open Utxo GoSemantics

inductive RuleError where
  | missingTxOut (missingOutpoints : List DomainOutpoint)
  | badTxOutValue (totalSompiIn : UInt64)
  | spendTooHigh (totalSompiIn totalSompiOut : UInt64)
  | immatureSpend (outpoint : DomainOutpoint) (originDAAScore povDAAScore blockCoinbaseMaturity : UInt64)
  | unfinalizedTx
  | wrongSigOpCount (input : Nat) (specified : UInt8) (actual : Nat)
  | scriptMalformed (input : Nat) (outpoint : DomainOutpoint)
  | scriptValidation (input : Nat) (outpoint : DomainOutpoint)
  deriving DecidableEq, Repr

structure TransactionValidator where
  blockCoinbaseMaturity : UInt64
  preciseSigOpCount : List UInt8 → ScriptPublicKey → Nat
  newEngine : ScriptPublicKey → DomainTransaction → Nat → Bool
  execute : ScriptPublicKey → DomainTransaction → Nat → Bool

def sompiPerHoosat : UInt64 := 100000000

def maxSompi : UInt64 := 17100000000 * sompiPerHoosat

def sequenceLockTimeDisabled : UInt64 := (1 : UInt64) <<< 63

def sequenceLockTimeMask : UInt64 := 0x00000000ffffffff

variable (v : TransactionValidator)

def checkEntryAmounts (entry : UTXOEntry) (totalSompiInBefore : UInt64) : Except RuleError UInt64 :=
  let totalSompiInAfter := totalSompiInBefore + entry.amount
  if totalSompiInAfter < totalSompiInBefore ∨ totalSompiInAfter > maxSompi then
    .error (.badTxOutValue totalSompiInBefore)
  else .ok totalSompiInAfter

def inputAmountsStep (acc : UInt64 × List DomainOutpoint) (input : DomainTransactionInput) :
    Except RuleError (UInt64 × List DomainOutpoint) :=
  match input.utxoEntry with
  | none => .ok (acc.1, acc.2 ++ [input.previousOutpoint])
  | some utxoEntry => do
    let totalSompiIn ← checkEntryAmounts utxoEntry acc.1
    pure (totalSompiIn, acc.2)

def checkTransactionInputAmounts (tx : DomainTransaction) : Except RuleError UInt64 := do
  let (totalSompiIn, missingOutpoints) ← tx.inputs.foldlM inputAmountsStep (0, [])
  if missingOutpoints.isEmpty then pure totalSompiIn
  else throw (.missingTxOut missingOutpoints)

def checkTransactionOutputAmounts (tx : DomainTransaction) (totalSompiIn : UInt64) :
    Except RuleError UInt64 :=
  let totalSompiOut := tx.outputs.foldl (fun total output => total + output.value) 0
  if totalSompiIn < totalSompiOut then .error (.spendTooHigh totalSompiIn totalSompiOut)
  else .ok totalSompiOut

def coinbaseMaturityLoop (povDAAScore : UInt64) :
    List DomainTransactionInput → List DomainOutpoint → Option RuleError
  | [], missingOutpoints =>
    if missingOutpoints.isEmpty then none else some (.missingTxOut missingOutpoints)
  | input :: inputs, missingOutpoints =>
    match input.utxoEntry with
    | none => coinbaseMaturityLoop povDAAScore inputs (missingOutpoints ++ [input.previousOutpoint])
    | some utxoEntry =>
      if utxoEntry.isCoinbase ∧ utxoEntry.blockDAAScore + v.blockCoinbaseMaturity > povDAAScore then
        some (.immatureSpend input.previousOutpoint utxoEntry.blockDAAScore povDAAScore
          v.blockCoinbaseMaturity)
      else coinbaseMaturityLoop povDAAScore inputs missingOutpoints

def checkTransactionCoinbaseMaturity (tx : DomainTransaction) (povDAAScore : UInt64) :
    Option RuleError :=
  coinbaseMaturityLoop v povDAAScore tx.inputs []

structure SequenceLock where
  blockDAAScore : Int64
  deriving DecidableEq, Repr

def sequenceLockStep (acc : Int64 × List DomainOutpoint) (input : DomainTransactionInput) :
    Int64 × List DomainOutpoint :=
  match input.utxoEntry with
  | none => (acc.1, acc.2 ++ [input.previousOutpoint])
  | some utxoEntry =>
    let relativeLock := (input.sequence &&& sequenceLockTimeMask).toInt64
    if input.sequence &&& sequenceLockTimeDisabled = sequenceLockTimeDisabled then acc
    else
      let blockDAAScore := utxoEntry.blockDAAScore.toInt64 + relativeLock - 1
      (if blockDAAScore > acc.1 then blockDAAScore else acc.1, acc.2)

def calcTxSequenceLockFromReferencedUTXOEntries (tx : DomainTransaction) :
    Except RuleError SequenceLock :=
  if isCoinBase tx then .ok ⟨-1⟩
  else
    let (blockDAAScore, missingOutpoints) := tx.inputs.foldl sequenceLockStep (-1, [])
    if missingOutpoints.isEmpty then .ok ⟨blockDAAScore⟩ else .error (.missingTxOut missingOutpoints)

def sequenceLockActive (sequenceLock : SequenceLock) (blockDAAScore : UInt64) : Bool :=
  !decide (sequenceLock.blockDAAScore ≥ blockDAAScore.toInt64)

def checkTransactionSequenceLock (tx : DomainTransaction) (povDAAScore : UInt64) :
    Option RuleError :=
  match calcTxSequenceLockFromReferencedUTXOEntries tx with
  | .error err => some err
  | .ok sequenceLock => if sequenceLockActive sequenceLock povDAAScore then none else some .unfinalizedTx

/-- The loop of `validateTransactionSigOpCounts`. Go reads the script of every input's entry
    without a nil check; the validation reaches this check only after
    `checkTransactionInputAmounts` has found an entry for every input
    (`checkTransactionInputAmounts_entries`), so the `none` branch is never taken. -/
def sigOpCountsLoop : List DomainTransactionInput → Nat → Option RuleError
  | [], _ => none
  | input :: inputs, i =>
    match input.utxoEntry with
    | none => sigOpCountsLoop inputs (i + 1)
    | some utxoEntry =>
      let sigOpCount := v.preciseSigOpCount input.signatureScript utxoEntry.scriptPublicKey
      if sigOpCount ≠ input.sigOpCount.toNat then some (.wrongSigOpCount i input.sigOpCount sigOpCount)
      else sigOpCountsLoop inputs (i + 1)

def validateTransactionSigOpCounts (tx : DomainTransaction) : Option RuleError :=
  sigOpCountsLoop v tx.inputs 0

def scriptsLoop (tx : DomainTransaction) :
    List DomainTransactionInput → Nat → List DomainOutpoint → Option RuleError
  | [], _, missingOutpoints =>
    if missingOutpoints.isEmpty then none else some (.missingTxOut missingOutpoints)
  | input :: inputs, i, missingOutpoints =>
    match input.utxoEntry with
    | none => scriptsLoop tx inputs (i + 1) (missingOutpoints ++ [input.previousOutpoint])
    | some utxoEntry =>
      if !v.newEngine utxoEntry.scriptPublicKey tx i then some (.scriptMalformed i input.previousOutpoint)
      else if !v.execute utxoEntry.scriptPublicKey tx i then
        some (.scriptValidation i input.previousOutpoint)
      else scriptsLoop tx inputs (i + 1) missingOutpoints

def validateTransactionScripts (tx : DomainTransaction) : Option RuleError :=
  scriptsLoop v tx tx.inputs 0 []

/-- The result the goroutine with the given index sends: 0 coinbase maturity, 1 sequence lock,
    2 sig-op counts, 3 scripts. -/
def checkResult (tx : DomainTransaction) (povDAAScore : UInt64) : Fin 4 → Option RuleError
  | 0 => checkTransactionCoinbaseMaturity v tx povDAAScore
  | 1 => checkTransactionSequenceLock tx povDAAScore
  | 2 => validateTransactionSigOpCounts v tx
  | 3 => validateTransactionScripts v tx

/-- The transaction with its fee set when the amounts pass, and the error returned, for the
    goroutines finishing in the order `schedule`. -/
def validateTransactionInContextAndPopulateFee (schedule : List (Fin 4)) (tx : DomainTransaction)
    (povDAAScore : UInt64) : DomainTransaction × Option RuleError :=
  match checkTransactionInputAmounts tx with
  | .error err => (tx, some err)
  | .ok totalSompiIn =>
    match checkTransactionOutputAmounts tx totalSompiIn with
    | .error err => (tx, some err)
    | .ok totalSompiOut =>
      let tx := { tx with fee := totalSompiIn - totalSompiOut }
      (tx, firstError (schedule.map (checkResult v tx povDAAScore)))

def acceptingValidator : TransactionValidator where
  blockCoinbaseMaturity := 100
  preciseSigOpCount _ _ := 0
  newEngine _ _ _ := true
  execute _ _ _ := true

def immatureLockedTransaction : DomainTransaction where
  id := ⟨1⟩
  inputs := [⟨⟨⟨0⟩, 0⟩, [], 100, 0, some ⟨1000, ⟨[], 0⟩, 100, true⟩⟩]
  outputs := [⟨900, ⟨[], 0⟩⟩]
  subnetworkID := ⟨List.replicate 20 0⟩
  fee := 0
  mass := 0

theorem validateTransactionInContext_error_depends_on_schedule :
    [(0 : Fin 4), 1, 2, 3].Perm [1, 0, 2, 3] ∧
      (validateTransactionInContextAndPopulateFee acceptingValidator [0, 1, 2, 3]
          immatureLockedTransaction 150).2 = some (.immatureSpend ⟨⟨0⟩, 0⟩ 100 150 100) ∧
      (validateTransactionInContextAndPopulateFee acceptingValidator [1, 0, 2, 3]
          immatureLockedTransaction 150).2 = some .unfinalizedTx := by
  decide

end TransactionValidation
