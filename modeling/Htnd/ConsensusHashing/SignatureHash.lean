import Mathlib
import Htnd.Utxo.Transaction
import Htnd.Lib.GoSemantics

/-!
Signature hashes (consensushashing/calculate_signature_hash.go). A hash writer is modelled by
the elements written to it, in order, and its Finalize by a function of that list, left
arbitrary: every result below holds for every hash function.

SighashReusedValues caches five hashes that are the same for every input of a transaction.
Each is the hash of a fixed stream of the transaction's fields, and a hash type that leaves it
out never reads it, so a cache filled for the same transaction, by PrecomputeSighashReusedValues
or by earlier calls, gives the hash a fresh cache gives.
-/
namespace ConsensusHashing
open GoSemantics
open Utxo (DomainHash DomainOutpoint DomainTransactionInput DomainTransactionOutput
  DomainSubnetworkID ScriptPublicKey UTXOEntry)

inductive Element where
  | uint8 (value : UInt8)
  | uint16 (value : UInt16)
  | uint32 (value : UInt32)
  | uint64 (value : UInt64)
  | hash (value : DomainHash)
  | bytes (value : List UInt8)
  | subnetworkID (value : DomainSubnetworkID)
  deriving DecidableEq, Repr

structure HashWriters where
  transactionSigningHash : List Element → DomainHash
  transactionSigningHashECDSA : DomainHash → DomainHash

structure DomainTransaction extends Utxo.DomainTransaction where
  version : UInt16
  lockTime : UInt64
  gas : UInt64
  payload : List UInt8
  deriving DecidableEq, Repr

abbrev SigHashType := UInt8

def sigHashAll : SigHashType := 0b00000001
def sigHashNone : SigHashType := 0b00000010
def sigHashSingle : SigHashType := 0b00000100
def sigHashAnyOneCanPay : SigHashType := 0b10000000
def sigHashMask : SigHashType := 0b00000111

def isStandardSigHashType (sht : SigHashType) : Bool :=
  sht == sigHashAll || sht == sigHashNone || sht == sigHashSingle ||
    sht == sigHashAll ||| sigHashAnyOneCanPay || sht == sigHashNone ||| sigHashAnyOneCanPay ||
    sht == sigHashSingle ||| sigHashAnyOneCanPay

def isSigHashNone (sht : SigHashType) : Bool := sht &&& sigHashMask == sigHashNone
def isSigHashSingle (sht : SigHashType) : Bool := sht &&& sigHashMask == sigHashSingle
def isSigHashAnyOneCanPay (sht : SigHashType) : Bool :=
  sht &&& sigHashAnyOneCanPay == sigHashAnyOneCanPay

def subnetworkIDNative : DomainSubnetworkID := ⟨List.replicate 20 0⟩

def zeroHash : DomainHash := ⟨0⟩

def outpointElements (outpoint : DomainOutpoint) : List Element :=
  [.hash outpoint.transactionID, .uint32 outpoint.index]

def txOutElements (txOut : DomainTransactionOutput) : List Element :=
  [.uint64 txOut.value, .uint16 txOut.scriptPublicKey.version, .bytes txOut.scriptPublicKey.script]

inductive ReusedValue where
  | previousOutputsHash
  | sequencesHash
  | sigOpCountsHash
  | outputsHash
  | payloadHash
  deriving DecidableEq, Repr

/-- SighashReusedValues: each of the five hashes, or none for a nil pointer. -/
abbrev SighashReusedValues := ReusedValue → Option DomainHash

def freshReusedValues : SighashReusedValues := fun _ => none

def reusedValueElements (tx : DomainTransaction) : ReusedValue → List Element
  | .previousOutputsHash => tx.inputs.flatMap (outpointElements ·.previousOutpoint)
  | .sequencesHash => tx.inputs.map (.uint64 ·.sequence)
  | .sigOpCountsHash => tx.inputs.map (.uint8 ·.sigOpCount)
  | .outputsHash => tx.outputs.flatMap txOutElements
  | .payloadHash => [.bytes tx.payload]

variable (w : HashWriters) (tx : DomainTransaction)

def precomputeSighashReusedValues : SighashReusedValues
  | .payloadHash =>
    if tx.subnetworkID = subnetworkIDNative then some zeroHash
    else some (w.transactionSigningHash (reusedValueElements tx .payloadHash))
  | value => some (w.transactionSigningHash (reusedValueElements tx value))

def reusedHash (value : ReusedValue) (leftOut : Bool) (reusedValues : SighashReusedValues) :
    DomainHash × SighashReusedValues :=
  if leftOut then (zeroHash, reusedValues)
  else
    match reusedValues value with
    | some hash => (hash, reusedValues)
    | none =>
      let hash := w.transactionSigningHash (reusedValueElements tx value)
      (hash, Function.update reusedValues value (some hash))

def getPreviousOutputsHash (hashType : SigHashType) :
    SighashReusedValues → DomainHash × SighashReusedValues :=
  reusedHash w tx .previousOutputsHash (isSigHashAnyOneCanPay hashType)

def getSequencesHash (hashType : SigHashType) :
    SighashReusedValues → DomainHash × SighashReusedValues :=
  reusedHash w tx .sequencesHash
    (isSigHashSingle hashType || isSigHashAnyOneCanPay hashType || isSigHashNone hashType)

def getSigOpCountsHash (hashType : SigHashType) :
    SighashReusedValues → DomainHash × SighashReusedValues :=
  reusedHash w tx .sigOpCountsHash (isSigHashAnyOneCanPay hashType)

def getOutputsHash (inputIndex : Nat) (hashType : SigHashType) (reusedValues : SighashReusedValues) :
    DomainHash × SighashReusedValues :=
  if isSigHashNone hashType then (zeroHash, reusedValues)
  else if isSigHashSingle hashType then
    if h : inputIndex < tx.outputs.length then
      (w.transactionSigningHash (txOutElements tx.outputs[inputIndex]), reusedValues)
    else (zeroHash, reusedValues)
  else reusedHash w tx .outputsHash false reusedValues

def getPayloadHash : SighashReusedValues → DomainHash × SighashReusedValues :=
  reusedHash w tx .payloadHash (decide (tx.subnetworkID = subnetworkIDNative))

def signingElements (txIn : DomainTransactionInput) (prevScriptPublicKey : ScriptPublicKey)
    (utxoEntry : UTXOEntry) (hashType : SigHashType)
    (previousOutputsHash sequencesHash sigOpCountsHash outputsHash payloadHash : DomainHash) :
    List Element :=
  [.uint16 tx.version, .hash previousOutputsHash, .hash sequencesHash, .hash sigOpCountsHash] ++
    outpointElements txIn.previousOutpoint ++
    [.uint16 prevScriptPublicKey.version, .bytes prevScriptPublicKey.script,
      .uint64 utxoEntry.amount, .uint64 txIn.sequence, .uint8 txIn.sigOpCount, .hash outputsHash,
      .uint64 tx.lockTime, .subnetworkID tx.subnetworkID, .uint64 tx.gas, .hash payloadHash,
      .uint8 hashType]

/-- calculateSignatureHash, with txIn.UTXOEntry as utxoEntry: its caller has already read the
entry's script, so the entry is there. -/
def calculateSignatureHash (inputIndex : Nat) (txIn : DomainTransactionInput)
    (prevScriptPublicKey : ScriptPublicKey) (utxoEntry : UTXOEntry) (hashType : SigHashType)
    (reusedValues : SighashReusedValues) : DomainHash × SighashReusedValues :=
  let (previousOutputsHash, reusedValues) := getPreviousOutputsHash w tx hashType reusedValues
  let (sequencesHash, reusedValues) := getSequencesHash w tx hashType reusedValues
  let (sigOpCountsHash, reusedValues) := getSigOpCountsHash w tx hashType reusedValues
  let (outputsHash, reusedValues) := getOutputsHash w tx inputIndex hashType reusedValues
  let (payloadHash, reusedValues) := getPayloadHash w tx reusedValues
  (w.transactionSigningHash (signingElements tx txIn prevScriptPublicKey utxoEntry hashType
    previousOutputsHash sequencesHash sigOpCountsHash outputsHash payloadHash), reusedValues)

theorem calculateSignatureHash_eq (inputIndex : Nat) (txIn : DomainTransactionInput)
    (prevScriptPublicKey : ScriptPublicKey) (utxoEntry : UTXOEntry) (hashType : SigHashType)
    (reusedValues : SighashReusedValues) :
    calculateSignatureHash w tx inputIndex txIn prevScriptPublicKey utxoEntry hashType reusedValues =
      let previousOutputs := getPreviousOutputsHash w tx hashType reusedValues
      let sequences := getSequencesHash w tx hashType previousOutputs.2
      let sigOpCounts := getSigOpCountsHash w tx hashType sequences.2
      let outputs := getOutputsHash w tx inputIndex hashType sigOpCounts.2
      let payload := getPayloadHash w tx outputs.2
      (w.transactionSigningHash (signingElements tx txIn prevScriptPublicKey utxoEntry hashType
        previousOutputs.1 sequences.1 sigOpCounts.1 outputs.1 payload.1), payload.2) :=
  rfl

/-- How a signature hash computation fails: an error for a hash type that is not standard, or a
panic. -/
inductive SighashFailure where
  | notValidSigHashType (hashType : SigHashType)
  | panic (p : Panic)
  deriving DecidableEq, Repr

def calculateSignatureHashSchnorr (inputIndex : Int) (hashType : SigHashType)
    (reusedValues : SighashReusedValues) :
    Except SighashFailure (DomainHash × SighashReusedValues) :=
  if !isStandardSigHashType hashType then .error (.notValidSigHashType hashType)
  else
    match sliceIndex tx.inputs inputIndex with
    | .error p => .error (.panic p)
    | .ok txIn =>
      match txIn.utxoEntry with
      -- the method call on a nil entry
      | none => .error (.panic .nilPointerDereference)
      | some utxoEntry =>
        .ok (calculateSignatureHash w tx inputIndex.toNat txIn utxoEntry.scriptPublicKey utxoEntry
          hashType reusedValues)

def calculateSignatureHashECDSA (inputIndex : Int) (hashType : SigHashType)
    (reusedValues : SighashReusedValues) :
    Except SighashFailure (DomainHash × SighashReusedValues) :=
  (calculateSignatureHashSchnorr w tx inputIndex hashType reusedValues).map
    fun (hash, reusedValues) => (w.transactionSigningHashECDSA hash, reusedValues)

structure SighashCall where
  inputIndex : Int
  hashType : SigHashType
  ecdsa : Bool
  deriving DecidableEq, Repr

def SighashCall.run (call : SighashCall) (reusedValues : SighashReusedValues) :
    Except SighashFailure (DomainHash × SighashReusedValues) :=
  if call.ecdsa then calculateSignatureHashECDSA w tx call.inputIndex call.hashType reusedValues
  else calculateSignatureHashSchnorr w tx call.inputIndex call.hashType reusedValues

def afterCalls (calls : List SighashCall) (reusedValues : SighashReusedValues) :
    SighashReusedValues :=
  calls.foldl (fun reusedValues call =>
    match call.run w tx reusedValues with
    | .ok (_, reusedValues') => reusedValues'
    | .error _ => reusedValues) reusedValues

/-! ## A cache that holds nothing wrong -/

def Consistent (reusedValues : SighashReusedValues) : Prop :=
  ∀ value hash, reusedValues value = some hash →
    (value = .payloadHash → tx.subnetworkID ≠ subnetworkIDNative) →
      hash = w.transactionSigningHash (reusedValueElements tx value)

theorem consistent_fresh : Consistent w tx freshReusedValues := by
  intro value hash held
  cases held

theorem consistent_precompute : Consistent w tx (precomputeSighashReusedValues w tx) := by
  intro value hash held read
  cases value with
  | payloadHash =>
    have foreign := read rfl
    simp only [precomputeSighashReusedValues, foreign, if_false, Option.some.injEq] at held
    exact held.symm
  | _ =>
    simp only [precomputeSighashReusedValues, Option.some.injEq] at held
    exact held.symm

theorem reusedHash_of_consistent {value : ReusedValue} {leftOut : Bool}
    {reusedValues : SighashReusedValues} (consistent : Consistent w tx reusedValues)
    (read : leftOut = false → value = .payloadHash → tx.subnetworkID ≠ subnetworkIDNative) :
    (reusedHash w tx value leftOut reusedValues).1 =
        (reusedHash w tx value leftOut freshReusedValues).1 ∧
      Consistent w tx (reusedHash w tx value leftOut reusedValues).2 := by
  cases leftOut with
  | true => exact ⟨rfl, consistent⟩
  | false =>
    cases held : reusedValues value with
    | some hash =>
      simp only [reusedHash, held, freshReusedValues, Bool.false_eq_true, if_false]
      exact ⟨consistent value hash held (read rfl), consistent⟩
    | none =>
      simp only [reusedHash, held, freshReusedValues, Bool.false_eq_true, if_false]
      refine ⟨trivial, fun value' hash' held' read' => ?_⟩
      by_cases same : value' = value
      · subst same
        simp only [Function.update_self, Option.some.injEq] at held'
        exact held'.symm
      · rw [Function.update_of_ne same] at held'
        exact consistent value' hash' held' read'

theorem map_fst_ecdsa (result : Except SighashFailure (DomainHash × SighashReusedValues)) :
    (result.map fun (hash, reusedValues) =>
        (w.transactionSigningHashECDSA hash, reusedValues)).map Prod.fst =
      (result.map Prod.fst).map w.transactionSigningHashECDSA := by
  cases result <;> rfl

theorem calculateSignatureHashSchnorr_ok {inputIndex : Int} {hashType : SigHashType}
    (standard : isStandardSigHashType hashType = true) {txIn : DomainTransactionInput}
    {utxoEntry : UTXOEntry} (found : sliceIndex tx.inputs inputIndex = .ok txIn)
    (entry : txIn.utxoEntry = some utxoEntry) (reusedValues : SighashReusedValues) :
    calculateSignatureHashSchnorr w tx inputIndex hashType reusedValues =
      .ok (calculateSignatureHash w tx inputIndex.toNat txIn utxoEntry.scriptPublicKey utxoEntry
        hashType reusedValues) := by
  simp [calculateSignatureHashSchnorr, standard, found, entry]

section Consistent
variable {w tx} {reusedValues : SighashReusedValues} (consistent : Consistent w tx reusedValues)
include consistent

theorem getPreviousOutputsHash_of_consistent (hashType : SigHashType) :
    (getPreviousOutputsHash w tx hashType reusedValues).1 =
        (getPreviousOutputsHash w tx hashType freshReusedValues).1 ∧
      Consistent w tx (getPreviousOutputsHash w tx hashType reusedValues).2 :=
  reusedHash_of_consistent w tx consistent (fun _ payload => by cases payload)

theorem getSequencesHash_of_consistent (hashType : SigHashType) :
    (getSequencesHash w tx hashType reusedValues).1 =
        (getSequencesHash w tx hashType freshReusedValues).1 ∧
      Consistent w tx (getSequencesHash w tx hashType reusedValues).2 :=
  reusedHash_of_consistent w tx consistent (fun _ payload => by cases payload)

theorem getSigOpCountsHash_of_consistent (hashType : SigHashType) :
    (getSigOpCountsHash w tx hashType reusedValues).1 =
        (getSigOpCountsHash w tx hashType freshReusedValues).1 ∧
      Consistent w tx (getSigOpCountsHash w tx hashType reusedValues).2 :=
  reusedHash_of_consistent w tx consistent (fun _ payload => by cases payload)

theorem getPayloadHash_of_consistent :
    (getPayloadHash w tx reusedValues).1 = (getPayloadHash w tx freshReusedValues).1 ∧
      Consistent w tx (getPayloadHash w tx reusedValues).2 :=
  reusedHash_of_consistent w tx consistent (fun foreign _ => by simpa using foreign)

theorem getOutputsHash_of_consistent (inputIndex : Nat) (hashType : SigHashType) :
    (getOutputsHash w tx inputIndex hashType reusedValues).1 =
        (getOutputsHash w tx inputIndex hashType freshReusedValues).1 ∧
      Consistent w tx (getOutputsHash w tx inputIndex hashType reusedValues).2 := by
  unfold getOutputsHash
  split
  · exact ⟨rfl, consistent⟩
  split
  · split
    · exact ⟨rfl, consistent⟩
    · exact ⟨rfl, consistent⟩
  · exact reusedHash_of_consistent w tx consistent (fun _ payload => by cases payload)

theorem calculateSignatureHash_of_consistent (inputIndex : Nat) (txIn : DomainTransactionInput)
    (prevScriptPublicKey : ScriptPublicKey) (utxoEntry : UTXOEntry) (hashType : SigHashType) :
    (calculateSignatureHash w tx inputIndex txIn prevScriptPublicKey utxoEntry hashType
        reusedValues).1 =
      (calculateSignatureHash w tx inputIndex txIn prevScriptPublicKey utxoEntry hashType
        freshReusedValues).1 ∧
    Consistent w tx (calculateSignatureHash w tx inputIndex txIn prevScriptPublicKey utxoEntry
      hashType reusedValues).2 := by
  rw [calculateSignatureHash_eq, calculateSignatureHash_eq]
  dsimp only
  obtain ⟨previousOutputs, consistent1⟩ := getPreviousOutputsHash_of_consistent consistent hashType
  obtain ⟨sequences, consistent2⟩ := getSequencesHash_of_consistent consistent1 hashType
  obtain ⟨sigOpCounts, consistent3⟩ := getSigOpCountsHash_of_consistent consistent2 hashType
  obtain ⟨outputs, consistent4⟩ := getOutputsHash_of_consistent consistent3 inputIndex hashType
  obtain ⟨payload, consistent5⟩ := getPayloadHash_of_consistent consistent4
  obtain ⟨-, fresh1⟩ := getPreviousOutputsHash_of_consistent (consistent_fresh w tx) hashType
  obtain ⟨sequencesFresh, fresh2⟩ := getSequencesHash_of_consistent fresh1 hashType
  obtain ⟨sigOpCountsFresh, fresh3⟩ := getSigOpCountsHash_of_consistent fresh2 hashType
  obtain ⟨outputsFresh, fresh4⟩ := getOutputsHash_of_consistent fresh3 inputIndex hashType
  obtain ⟨payloadFresh, -⟩ := getPayloadHash_of_consistent fresh4
  refine ⟨?_, consistent5⟩
  rw [previousOutputs, sequences, sigOpCounts, outputs, payload, sequencesFresh, sigOpCountsFresh,
    outputsFresh, payloadFresh]

theorem calculateSignatureHashSchnorr_of_consistent (inputIndex : Int) (hashType : SigHashType) :
    (calculateSignatureHashSchnorr w tx inputIndex hashType reusedValues).map Prod.fst =
        (calculateSignatureHashSchnorr w tx inputIndex hashType freshReusedValues).map Prod.fst ∧
      ∀ hash reusedValues', calculateSignatureHashSchnorr w tx inputIndex hashType reusedValues =
        .ok (hash, reusedValues') → Consistent w tx reusedValues' := by
  by_cases standard : isStandardSigHashType hashType = false
  · simp only [calculateSignatureHashSchnorr, standard, Bool.not_false, if_true]
    exact ⟨trivial, fun _ _ failed => by cases failed⟩
  rw [Bool.not_eq_false] at standard
  cases found : sliceIndex tx.inputs inputIndex with
  | error p =>
    simp only [calculateSignatureHashSchnorr, standard, found, Bool.not_true]
    exact ⟨trivial, fun _ _ failed => by cases failed⟩
  | ok txIn =>
    cases entry : txIn.utxoEntry with
    | none =>
      simp only [calculateSignatureHashSchnorr, standard, found, entry, Bool.not_true]
      exact ⟨trivial, fun _ _ failed => by cases failed⟩
    | some utxoEntry =>
      obtain ⟨same, kept⟩ := calculateSignatureHash_of_consistent consistent inputIndex.toNat txIn
        utxoEntry.scriptPublicKey utxoEntry hashType
      simp only [calculateSignatureHashSchnorr, standard, found, entry, Bool.not_true]
      refine ⟨by simp [Except.map, same], fun hash reusedValues' done => ?_⟩
      cases done
      exact kept

theorem run_of_consistent (call : SighashCall) :
    (call.run w tx reusedValues).map Prod.fst = (call.run w tx freshReusedValues).map Prod.fst ∧
      ∀ hash reusedValues', call.run w tx reusedValues = .ok (hash, reusedValues') →
        Consistent w tx reusedValues' := by
  obtain ⟨same, kept⟩ := calculateSignatureHashSchnorr_of_consistent consistent call.inputIndex
    call.hashType
  cases ecdsa : call.ecdsa with
  | false =>
    simp only [SighashCall.run, ecdsa, Bool.false_eq_true, if_false]
    exact ⟨same, kept⟩
  | true =>
    simp only [SighashCall.run, ecdsa, if_true, calculateSignatureHashECDSA]
    refine ⟨?_, fun hash reusedValues' done => ?_⟩
    · rw [map_fst_ecdsa w, map_fst_ecdsa w, same]
    · cases schnorr : calculateSignatureHashSchnorr w tx call.inputIndex call.hashType reusedValues
      · rw [schnorr] at done
        cases done
      · rw [schnorr] at done
        cases done
        exact kept _ _ schnorr

end Consistent

theorem consistent_afterCalls (calls : List SighashCall) {reusedValues : SighashReusedValues}
    (consistent : Consistent w tx reusedValues) :
    Consistent w tx (afterCalls w tx calls reusedValues) := by
  induction calls generalizing reusedValues with
  | nil => exact consistent
  | cons call calls ih =>
    apply ih
    cases done : call.run w tx reusedValues with
    | error _ => simpa [done] using consistent
    | ok result => simpa [done] using (run_of_consistent consistent call).2 result.1 result.2 done

theorem run_ok_of_consistent {inputIndex : Int} {hashType : SigHashType} (ecdsa : Bool)
    (standard : isStandardSigHashType hashType = true) {txIn : DomainTransactionInput}
    {utxoEntry : UTXOEntry} (found : sliceIndex tx.inputs inputIndex = .ok txIn)
    (entry : txIn.utxoEntry = some utxoEntry) {reusedValues : SighashReusedValues}
    (consistent : Consistent w tx reusedValues) :
    ∃ hash reusedValues',
      SighashCall.run w tx ⟨inputIndex, hashType, ecdsa⟩ reusedValues = .ok (hash, reusedValues') ∧
      (SighashCall.run w tx ⟨inputIndex, hashType, ecdsa⟩ freshReusedValues).map Prod.fst =
        .ok hash ∧
      Consistent w tx reusedValues' := by
  obtain ⟨same, kept⟩ := run_of_consistent consistent ⟨inputIndex, hashType, ecdsa⟩
  obtain ⟨⟨hash, reusedValues'⟩, ran⟩ :
      ∃ result, SighashCall.run w tx ⟨inputIndex, hashType, ecdsa⟩ reusedValues = .ok result := by
    cases ecdsa <;> simp [SighashCall.run, calculateSignatureHashECDSA,
      calculateSignatureHashSchnorr_ok w tx standard found entry, Except.map]
  refine ⟨hash, reusedValues', ran, ?_, kept _ _ ran⟩
  rw [← same, ran]
  rfl

theorem calculateSignatureHash_reuse_transparent (calls : List SighashCall) (call : SighashCall) :
    (call.run w tx (afterCalls w tx calls freshReusedValues)).map Prod.fst =
        (call.run w tx freshReusedValues).map Prod.fst ∧
      (call.run w tx (afterCalls w tx calls (precomputeSighashReusedValues w tx))).map Prod.fst =
        (call.run w tx freshReusedValues).map Prod.fst :=
  ⟨(run_of_consistent (consistent_afterCalls w tx calls (consistent_fresh w tx)) call).1,
    (run_of_consistent (consistent_afterCalls w tx calls (consistent_precompute w tx)) call).1⟩

end ConsensusHashing
