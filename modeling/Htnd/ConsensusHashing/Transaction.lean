import Mathlib
import Htnd.ConsensusHashing.SignatureHash
import Htnd.Lib.LittleEndian
import Htnd.Lib.PrefixCode

/-!
The stream serializeTransaction writes for TransactionHash and TransactionID
(consensushashing/transaction.go): fixed-width integers little-endian, hashes as their 32 bytes,
and every slice as its length as a uint64 followed by its items. The hash writers never fail, so
the serialization is the byte string written. With txEncodingExcludeSignatureScript set, an
input writes an empty signature script and no signature operation count.

Read field by field, the stream determines every field it writes: each fixed-width field is cut
at its width, and each length says where its slice ends.
-/
namespace ConsensusHashing
open LittleEndian PrefixCode
open Utxo (DomainHash DomainOutpoint DomainTransactionInput DomainTransactionOutput)

abbrev TxEncoding := UInt8

def txEncodingFull : TxEncoding := 0
def txEncodingExcludeSignatureScript : TxEncoding := (1 : UInt8) <<< 1

def domainSubnetworkIDSize : Nat := 20

/-- DomainHash.ByteSlice: the 32 bytes of the hash, most significant first. -/
def byteSlice (hash : DomainHash) : List UInt8 := (putBytes 32 hash.value).reverse

def writeOutpoint (outpoint : DomainOutpoint) : List UInt8 :=
  byteSlice outpoint.transactionID ++ putUint32 outpoint.index

def writeVarBytes (data : List UInt8) : List UInt8 :=
  putUint64 (UInt64.ofNat data.length) ++ data

def writeTransactionInput (ti : DomainTransactionInput) (encodingFlags : TxEncoding) :
    List UInt8 :=
  writeOutpoint ti.previousOutpoint ++
    (if encodingFlags &&& txEncodingExcludeSignatureScript ≠ txEncodingExcludeSignatureScript then
      writeVarBytes ti.signatureScript ++ [ti.sigOpCount]
    else writeVarBytes []) ++
    putUint64 ti.sequence

def writeTxOut (output : DomainTransactionOutput) : List UInt8 :=
  putUint64 output.value ++ putUint16 output.scriptPublicKey.version ++
    writeVarBytes output.scriptPublicKey.script

def serializeTransaction (tx : DomainTransaction) (encodingFlags : TxEncoding) : List UInt8 :=
  putUint16 tx.version ++
    putUint64 (UInt64.ofNat tx.inputs.length) ++
    tx.inputs.flatMap (writeTransactionInput · encodingFlags) ++
    putUint64 (UInt64.ofNat tx.outputs.length) ++ tx.outputs.flatMap writeTxOut ++
    putUint64 tx.lockTime ++ tx.subnetworkID.bytes ++ putUint64 tx.gas ++ writeVarBytes tx.payload

/-- The transactions a Go value can be: a subnetwork ID is an array of twenty bytes, and a slice
has fewer than 2^64 items, so that its length as a uint64 is its length. -/
structure Representable (tx : DomainTransaction) : Prop where
  subnetworkID : tx.subnetworkID.bytes.length = domainSubnetworkIDSize
  inputs : tx.inputs.length < 2 ^ 64
  signatureScripts : ∀ input ∈ tx.inputs, input.signatureScript.length < 2 ^ 64
  outputs : tx.outputs.length < 2 ^ 64
  scripts : ∀ output ∈ tx.outputs, output.scriptPublicKey.script.length < 2 ^ 64
  payload : tx.payload.length < 2 ^ 64

/-! ## Each field determines what it writes -/

theorem determines_putUint16 : Determines (fun _ => True) putUint16 id :=
  fun _ _ _ _ _ _ same => putUint16_append_inj same

theorem determines_putUint32 : Determines (fun _ => True) putUint32 id :=
  fun _ _ _ _ _ _ same => putUint32_append_inj same

theorem determines_putUint64 : Determines (fun _ => True) putUint64 id :=
  fun _ _ _ _ _ _ same => putUint64_append_inj same

theorem determines_count : Determines (· < 2 ^ 64) (fun n => putUint64 (UInt64.ofNat n)) id := by
  intro n m small_n small_m rest rest' same
  obtain ⟨counts, rests⟩ := putUint64_append_inj same
  have values := congrArg UInt64.toNat counts
  rw [UInt64.toNat_ofNat', UInt64.toNat_ofNat', Nat.mod_eq_of_lt small_n,
    Nat.mod_eq_of_lt small_m] at values
  exact ⟨values, rests⟩

theorem determines_writeVarBytes :
    Determines (fun data : List UInt8 => data.length < 2 ^ 64) writeVarBytes id :=
  determines_lengthPrefixed determines_count

theorem determines_byteSlice : Determines (fun _ => True) byteSlice id := by
  refine determines_of_length_eq (fun _ _ _ _ => by simp [byteSlice]) ?_
  intro a b _ _ same
  have values := putBytes_injective (by simp) (by simp)
    (List.reverse_injective same)
  cases a
  cases b
  simp only [id, Utxo.DomainHash.mk.injEq]
  exact Fin.ext values

theorem determines_writeOutpoint : Determines (fun _ => True) writeOutpoint id := by
  intro a b _ _ rest rest' same
  simp only [writeOutpoint, List.append_assoc] at same
  obtain ⟨hashes, same⟩ := determines_byteSlice trivial trivial same
  obtain ⟨indexes, rests⟩ := determines_putUint32 trivial trivial same
  cases a
  cases b
  exact ⟨by simp_all, rests⟩

theorem determines_writeTransactionInput_full {encodingFlags : TxEncoding}
    (full : encodingFlags &&& txEncodingExcludeSignatureScript ≠ txEncodingExcludeSignatureScript) :
    Determines (fun ti : DomainTransactionInput => ti.signatureScript.length < 2 ^ 64)
      (writeTransactionInput · encodingFlags)
      (fun ti => (ti.previousOutpoint, ti.signatureScript, ti.sigOpCount, ti.sequence)) := by
  intro a b small_a small_b rest rest' same
  simp only [writeTransactionInput, if_pos full, List.append_assoc] at same
  obtain ⟨outpoints, same⟩ := determines_writeOutpoint trivial trivial same
  obtain ⟨scripts, same⟩ := determines_writeVarBytes small_a small_b same
  obtain ⟨counts, same⟩ := determines_singleton trivial trivial same
  obtain ⟨sequences, rests⟩ := determines_putUint64 trivial trivial same
  exact ⟨by simp_all, rests⟩

theorem determines_writeTransactionInput_excluded {encodingFlags : TxEncoding}
    (excluded : encodingFlags &&& txEncodingExcludeSignatureScript =
      txEncodingExcludeSignatureScript) :
    Determines (fun ti : DomainTransactionInput => ti.signatureScript.length < 2 ^ 64)
      (writeTransactionInput · encodingFlags) (fun ti => (ti.previousOutpoint, ti.sequence)) := by
  intro a b _ _ rest rest' same
  simp only [writeTransactionInput, excluded, ne_eq, not_true_eq_false, if_false,
    List.append_assoc] at same
  obtain ⟨outpoints, same⟩ := determines_writeOutpoint trivial trivial same
  obtain ⟨_, same⟩ := determines_writeVarBytes (by simp) (by simp) same
  obtain ⟨sequences, rests⟩ := determines_putUint64 trivial trivial same
  exact ⟨by simp_all, rests⟩

theorem determines_writeTxOut :
    Determines (fun output : DomainTransactionOutput => output.scriptPublicKey.script.length < 2 ^ 64)
      writeTxOut id := by
  intro a b small_a small_b rest rest' same
  simp only [writeTxOut, List.append_assoc] at same
  obtain ⟨values, same⟩ := determines_putUint64 trivial trivial same
  obtain ⟨versions, same⟩ := determines_putUint16 trivial trivial same
  obtain ⟨scripts, rests⟩ := determines_writeVarBytes small_a small_b same
  obtain ⟨value, ⟨script, version⟩⟩ := a
  obtain ⟨value', ⟨script', version'⟩⟩ := b
  exact ⟨by simp_all, rests⟩

theorem serializeTransaction_determines {γ : Type} {encodingFlags : TxEncoding}
    {inputKey : DomainTransactionInput → γ}
    (inputCode : Determines (fun ti : DomainTransactionInput => ti.signatureScript.length < 2 ^ 64)
      (writeTransactionInput · encodingFlags) inputKey) :
    Determines Representable (serializeTransaction · encodingFlags)
      (fun tx => (tx.version, tx.inputs.map inputKey, tx.outputs, tx.lockTime, tx.subnetworkID,
        tx.gas, tx.payload)) := by
  intro tx tx' representable representable' rest rest' same
  simp only [serializeTransaction, List.append_assoc] at same
  obtain ⟨versions, same⟩ := determines_putUint16 trivial trivial same
  obtain ⟨inputCounts, same⟩ :=
    determines_count representable.inputs representable'.inputs same
  obtain ⟨inputs, same⟩ := inputCode.flatMap inputCounts representable.signatureScripts
    representable'.signatureScripts same
  obtain ⟨outputCounts, same⟩ :=
    determines_count representable.outputs representable'.outputs same
  obtain ⟨outputs, same⟩ := determines_writeTxOut.flatMap outputCounts representable.scripts
    representable'.scripts same
  obtain ⟨lockTimes, same⟩ := determines_putUint64 trivial trivial same
  obtain ⟨subnetworkIDs, same⟩ := List.append_inj same
    (representable.subnetworkID.trans representable'.subnetworkID.symm)
  obtain ⟨gases, same⟩ := determines_putUint64 trivial trivial same
  obtain ⟨payloads, rests⟩ := determines_writeVarBytes representable.payload
    representable'.payload same
  have subnetworkIDs : tx.subnetworkID = tx'.subnetworkID :=
    congrArg Utxo.DomainSubnetworkID.mk subnetworkIDs
  refine ⟨?_, rests⟩
  simp only [List.map_id, id] at versions outputs lockTimes gases payloads
  dsimp only
  rw [versions, inputs, outputs, lockTimes, subnetworkIDs, gases, payloads]

/-- Equal serializations, in any encoding, of two transactions Go can hold give the same version,
the same outpoint and sequence for every input (and, unless signature scripts are left out, the
same signature script and signature operation count), the same outputs, lock time, subnetwork ID,
gas and payload. -/
theorem serializeTransaction_unambiguous (encodingFlags : TxEncoding) {tx1 tx2 : DomainTransaction}
    (representable1 : Representable tx1) (representable2 : Representable tx2)
    (same : serializeTransaction tx1 encodingFlags = serializeTransaction tx2 encodingFlags) :
    tx1.version = tx2.version ∧
      tx1.inputs.map (fun input => (input.previousOutpoint, input.sequence)) =
        tx2.inputs.map (fun input => (input.previousOutpoint, input.sequence)) ∧
      (encodingFlags &&& txEncodingExcludeSignatureScript ≠ txEncodingExcludeSignatureScript →
        tx1.inputs.map (fun input => (input.signatureScript, input.sigOpCount)) =
          tx2.inputs.map (fun input => (input.signatureScript, input.sigOpCount))) ∧
      tx1.outputs = tx2.outputs ∧ tx1.lockTime = tx2.lockTime ∧
      tx1.subnetworkID = tx2.subnetworkID ∧ tx1.gas = tx2.gas ∧ tx1.payload = tx2.payload := by
  have streams : serializeTransaction tx1 encodingFlags ++ [] =
      serializeTransaction tx2 encodingFlags ++ [] := by rw [same]
  by_cases full : encodingFlags &&& txEncodingExcludeSignatureScript ≠
      txEncodingExcludeSignatureScript
  · obtain ⟨keys, _⟩ := serializeTransaction_determines
      (determines_writeTransactionInput_full full) representable1 representable2 streams
    simp only [Prod.mk.injEq] at keys
    obtain ⟨versions, inputs, rest⟩ := keys
    have outpoints := congrArg (List.map fun key => (key.1, key.2.2.2)) inputs
    have scripts := congrArg (List.map fun key => (key.2.1, key.2.2.1)) inputs
    simp only [List.map_map] at outpoints scripts
    exact ⟨versions, outpoints, fun _ => scripts, rest⟩
  · obtain ⟨keys, _⟩ := serializeTransaction_determines
      (determines_writeTransactionInput_excluded (not_not.1 full)) representable1 representable2
      streams
    simp only [Prod.mk.injEq] at keys
    obtain ⟨versions, inputs, rest⟩ := keys
    exact ⟨versions, inputs, fun notExcluded => absurd notExcluded full, rest⟩

def spendingWith (signatureScript : List UInt8) : DomainTransaction :=
  { id := ⟨0⟩, inputs := [⟨⟨⟨0⟩, 0⟩, signatureScript, 0, 1, none⟩], outputs := [⟨5, ⟨[0x51], 0⟩⟩],
    subnetworkID := subnetworkIDNative, fee := 0, mass := 0, version := 0, lockTime := 0, gas := 0,
    payload := [] }

theorem representable_spendingWith {signatureScript : List UInt8}
    (small : signatureScript.length < 2 ^ 64) : Representable (spendingWith signatureScript) :=
  ⟨by simp [spendingWith, subnetworkIDNative, domainSubnetworkIDSize], by simp [spendingWith],
    by simpa [spendingWith] using small, by simp [spendingWith], by simp [spendingWith],
    by simp [spendingWith]⟩

/-- Two transactions that differ only in a signature script have one serialization without
signature scripts, and it still determines every other field. -/
theorem serializeTransaction_unambiguous_without_signature_scripts :
    Representable (spendingWith [1]) ∧ Representable (spendingWith []) ∧
      serializeTransaction (spendingWith [1]) txEncodingExcludeSignatureScript =
        serializeTransaction (spendingWith []) txEncodingExcludeSignatureScript ∧
      (spendingWith [1]).version = (spendingWith []).version ∧
      (spendingWith [1]).inputs.map (fun input => (input.previousOutpoint, input.sequence)) =
        (spendingWith []).inputs.map (fun input => (input.previousOutpoint, input.sequence)) ∧
      (txEncodingExcludeSignatureScript &&& txEncodingExcludeSignatureScript ≠
          txEncodingExcludeSignatureScript →
        (spendingWith [1]).inputs.map (fun input => (input.signatureScript, input.sigOpCount)) =
          (spendingWith []).inputs.map (fun input => (input.signatureScript, input.sigOpCount))) ∧
      (spendingWith [1]).outputs = (spendingWith []).outputs ∧
      (spendingWith [1]).lockTime = (spendingWith []).lockTime ∧
      (spendingWith [1]).subnetworkID = (spendingWith []).subnetworkID ∧
      (spendingWith [1]).gas = (spendingWith []).gas ∧
      (spendingWith [1]).payload = (spendingWith []).payload := by
  have representable1 : Representable (spendingWith [1]) := representable_spendingWith (by simp)
  have representable2 : Representable (spendingWith []) := representable_spendingWith (by simp)
  have same : serializeTransaction (spendingWith [1]) txEncodingExcludeSignatureScript =
      serializeTransaction (spendingWith []) txEncodingExcludeSignatureScript := by decide
  exact ⟨representable1, representable2, same,
    serializeTransaction_unambiguous _ representable1 representable2 same⟩

end ConsensusHashing
