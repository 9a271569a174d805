import Mathlib
import Htnd.Lib.LittleEndian
import Htnd.ConsensusHashing.SignatureHash

/-!
The coinbase payload (coinbasemanager/payload.go): the blue score and the subsidy as uint64, the
version of the script public key as uint16, the length of its script as one byte, the script,
and the extra data as the rest of the payload. serializeCoinbasePayload writes the fields into a
zeroed buffer of the right length, ModifyCoinbasePayload rewrites the fields after the subsidy
in place or in a new buffer that keeps the first sixteen bytes, and
ExtractCoinbaseDataBlueScoreAndSubsidy reads them back. Each writer writes into a subslice, as
the copy it is modelled by does; the offsets are those of the source.
-/
namespace Coinbase
open GoSemantics LittleEndian
open Utxo (ScriptPublicKey subnetworkIDCoinbase)
open ConsensusHashing (DomainTransaction)

def uint64Len : Nat := 8
def uint16Len : Nat := 2
def lengthOfSubsidy : Nat := uint64Len
def lengthOfScriptPubKeyLength : Nat := 1
def lengthOfVersionScriptPubKey : Nat := uint16Len

structure DomainCoinbaseData where
  scriptPublicKey : ScriptPublicKey
  extraData : List UInt8
  deriving DecidableEq, Repr

/-- How the payload functions fail: ErrBadCoinbasePayloadLen wrapped with the text of the check
that failed, or a panic. -/
inductive PayloadError where
  | badCoinbasePayloadLen (description : String)
  | panic (p : Panic)
  deriving DecidableEq, Repr

def scriptPubKeyTooLong (coinbasePayloadScriptPublicKeyMaxLength : UInt8) : PayloadError :=
  .badCoinbasePayloadLen ("coinbase's payload script public key is longer than the max allowed " ++
    "length of " ++ toString coinbasePayloadScriptPublicKeyMaxLength)

def writeCoinbaseData (payload : List UInt8) (coinbaseData : DomainCoinbaseData) : List UInt8 :=
  let scriptLengthOfScriptPubKey := coinbaseData.scriptPublicKey.script.length
  let payload := copySlice payload (uint64Len + lengthOfSubsidy)
    (putUint16 coinbaseData.scriptPublicKey.version)
  let payload := payload.set (uint64Len + lengthOfSubsidy + lengthOfVersionScriptPubKey)
    (UInt8.ofNat scriptLengthOfScriptPubKey)
  let payload := copySlice payload
    (uint64Len + lengthOfSubsidy + lengthOfVersionScriptPubKey + lengthOfScriptPubKeyLength)
    coinbaseData.scriptPublicKey.script
  copySlice payload (uint64Len + lengthOfSubsidy + lengthOfVersionScriptPubKey +
    lengthOfScriptPubKeyLength + scriptLengthOfScriptPubKey) coinbaseData.extraData

def serializeCoinbasePayload (coinbasePayloadScriptPublicKeyMaxLength : UInt8) (blueScore : UInt64)
    (coinbaseData : DomainCoinbaseData) (subsidy : UInt64) : Except PayloadError (List UInt8) :=
  let scriptLengthOfScriptPubKey := coinbaseData.scriptPublicKey.script.length
  if scriptLengthOfScriptPubKey > coinbasePayloadScriptPublicKeyMaxLength.toNat then
    .error (scriptPubKeyTooLong coinbasePayloadScriptPublicKeyMaxLength)
  else
    let payload := List.replicate (uint64Len + lengthOfVersionScriptPubKey +
      lengthOfScriptPubKeyLength + scriptLengthOfScriptPubKey + coinbaseData.extraData.length +
      lengthOfSubsidy) 0
    let payload := copySlice payload 0 (putUint64 blueScore)
    let payload := copySlice payload uint64Len (putUint64 subsidy)
    .ok (writeCoinbaseData payload coinbaseData)

/-- ModifyCoinbasePayload: a payload of another length is replaced by a zeroed one of the new
length that keeps its blue score and subsidy. The slice of them panics past the capacity of the
payload, which is taken to be its length. -/
def modifyCoinbasePayload (payload : List UInt8) (coinbaseData : DomainCoinbaseData)
    (coinbasePayloadScriptPublicKeyMaxLength : UInt8) : Except PayloadError (List UInt8) :=
  let scriptLengthOfScriptPubKey := coinbaseData.scriptPublicKey.script.length
  if scriptLengthOfScriptPubKey > coinbasePayloadScriptPublicKeyMaxLength.toNat then
    .error (scriptPubKeyTooLong coinbasePayloadScriptPublicKeyMaxLength)
  else
    let newPayloadLen := uint64Len + lengthOfVersionScriptPubKey + lengthOfScriptPubKeyLength +
      scriptLengthOfScriptPubKey + coinbaseData.extraData.length + lengthOfSubsidy
    if payload.length ≠ newPayloadLen then
      if payload.length < uint64Len + lengthOfSubsidy then
        .error (.panic (.sliceBoundsOutOfRange (uint64Len + lengthOfSubsidy) payload.length))
      else
        let newPayload := copySlice (List.replicate newPayloadLen 0) 0
          (payload.take (uint64Len + lengthOfSubsidy))
        .ok (writeCoinbaseData newPayload coinbaseData)
    else .ok (writeCoinbaseData payload coinbaseData)

def extractCoinbaseDataBlueScoreAndSubsidy (coinbasePayloadScriptPublicKeyMaxLength : UInt8)
    (coinbaseTx : DomainTransaction) : Except PayloadError (UInt64 × DomainCoinbaseData × UInt64) :=
  let payload := coinbaseTx.payload
  let minLength := uint64Len + lengthOfSubsidy + lengthOfVersionScriptPubKey +
    lengthOfScriptPubKeyLength
  if short : payload.length < minLength then
    .error (.badCoinbasePayloadLen
      ("coinbase payload is less than the minimum length of " ++ toString minLength))
  else
    let blueScore := uint64 (payload.take uint64Len)
    let subsidy := uint64 (payload.drop uint64Len)
    let scriptPubKeyVersion := uint16
      ((payload.take (uint64Len + lengthOfSubsidy + uint16Len)).drop (uint64Len + lengthOfSubsidy))
    let scriptPubKeyScriptLength :=
      payload.get ⟨uint64Len + lengthOfSubsidy + lengthOfVersionScriptPubKey, by
        have long : ¬ payload.length < 19 := short
        exact show 18 < payload.length by omega⟩
    if scriptPubKeyScriptLength > coinbasePayloadScriptPublicKeyMaxLength then
      .error (scriptPubKeyTooLong coinbasePayloadScriptPublicKeyMaxLength)
    else if payload.length < minLength + scriptPubKeyScriptLength.toNat then
      .error (.badCoinbasePayloadLen ("coinbase payload doesn't have enough bytes to contain a " ++
        "script public key of " ++ toString scriptPubKeyScriptLength ++ " bytes"))
    else
      let scriptPubKeyScript :=
        (payload.take (minLength + scriptPubKeyScriptLength.toNat)).drop minLength
      .ok (blueScore,
        ⟨⟨scriptPubKeyScript, scriptPubKeyVersion⟩,
          payload.drop (minLength + scriptPubKeyScriptLength.toNat)⟩,
        subsidy)

/-! ## The layout of a payload -/

def coinbaseDataBytes (coinbaseData : DomainCoinbaseData) : List UInt8 :=
  putUint16 coinbaseData.scriptPublicKey.version ++
    UInt8.ofNat coinbaseData.scriptPublicKey.script.length ::
      (coinbaseData.scriptPublicKey.script ++ coinbaseData.extraData)

def payloadBytes (blueScore : UInt64) (coinbaseData : DomainCoinbaseData) (subsidy : UInt64) :
    List UInt8 :=
  putUint64 blueScore ++ (putUint64 subsidy ++ coinbaseDataBytes coinbaseData)

def Fits (coinbasePayloadScriptPublicKeyMaxLength : UInt8) (coinbaseData : DomainCoinbaseData) :
    Prop :=
  coinbaseData.scriptPublicKey.script.length ≤ coinbasePayloadScriptPublicKeyMaxLength.toNat

instance (coinbasePayloadScriptPublicKeyMaxLength : UInt8) (coinbaseData : DomainCoinbaseData) :
    Decidable (Fits coinbasePayloadScriptPublicKeyMaxLength coinbaseData) :=
  inferInstanceAs (Decidable (_ ≤ _))

def payloadLayout (blueScore subsidy : UInt64) (version : UInt16) (scriptLength : UInt8)
    (rest : List UInt8) : List UInt8 :=
  putUint64 blueScore ++ (putUint64 subsidy ++ (putUint16 version ++ scriptLength :: rest))

theorem payloadBytes_eq_layout (blueScore : UInt64) (coinbaseData : DomainCoinbaseData)
    (subsidy : UInt64) :
    payloadBytes blueScore coinbaseData subsidy =
      payloadLayout blueScore subsidy coinbaseData.scriptPublicKey.version
        (UInt8.ofNat coinbaseData.scriptPublicKey.script.length)
        (coinbaseData.scriptPublicKey.script ++ coinbaseData.extraData) := rfl

theorem toNat_ofNat_length {coinbasePayloadScriptPublicKeyMaxLength : UInt8}
    {coinbaseData : DomainCoinbaseData} (fits : Fits coinbasePayloadScriptPublicKeyMaxLength coinbaseData) :
    (UInt8.ofNat coinbaseData.scriptPublicKey.script.length).toNat =
      coinbaseData.scriptPublicKey.script.length := by
  have small := coinbasePayloadScriptPublicKeyMaxLength.toNat_lt
  unfold Fits at fits
  rw [UInt8.toNat_ofNat', Nat.mod_eq_of_lt (by omega)]

@[simp] theorem length_coinbaseDataBytes (coinbaseData : DomainCoinbaseData) :
    (coinbaseDataBytes coinbaseData).length =
      3 + coinbaseData.scriptPublicKey.script.length + coinbaseData.extraData.length := by
  simp [coinbaseDataBytes]
  omega

theorem writeCoinbaseData_eq (pre rest : List UInt8) (coinbaseData : DomainCoinbaseData)
    (before : pre.length = uint64Len + lengthOfSubsidy)
    (room : rest.length = 3 + coinbaseData.scriptPublicKey.script.length +
      coinbaseData.extraData.length) :
    writeCoinbaseData (pre ++ rest) coinbaseData = pre ++ coinbaseDataBytes coinbaseData := by
  obtain ⟨⟨script, version⟩, extraData⟩ := coinbaseData
  simp only [uint64Len, lengthOfSubsidy] at before
  obtain ⟨versionBytes, rest, rfl, versionLength, afterVersion⟩ :=
    exists_append_of_length_eq_add (l := rest) (m := 2) (n := 1 + script.length + extraData.length)
      (by simp at room; omega)
  obtain ⟨lengthBytes, rest, rfl, lengthLength, afterLength⟩ :=
    exists_append_of_length_eq_add (l := rest) (m := 1) (n := script.length + extraData.length)
      (by omega)
  obtain ⟨oldLength, rfl⟩ := List.length_eq_one_iff.1 lengthLength
  obtain ⟨scriptBytes, extraBytes, rfl, scriptLength, extraLength⟩ :=
    exists_append_of_length_eq_add (l := rest) (m := script.length) (n := extraData.length)
      afterLength
  have versionWritten : copySlice (pre ++ (versionBytes ++ ([oldLength] ++
      (scriptBytes ++ extraBytes)))) 16 (putUint16 version) =
      pre ++ (putUint16 version ++ ([oldLength] ++ (scriptBytes ++ extraBytes))) :=
    copySlice_append _ _ _ _ before (by simp [versionLength])
  have lengthWritten : (pre ++ (putUint16 version ++ ([oldLength] ++
      (scriptBytes ++ extraBytes)))).set 18 (UInt8.ofNat script.length) =
      (pre ++ putUint16 version) ++ (UInt8.ofNat script.length :: (scriptBytes ++ extraBytes)) := by
    rw [← List.append_assoc, show 18 = (pre ++ putUint16 version).length by simp [before]]
    simp
  have scriptWritten : copySlice ((pre ++ putUint16 version ++ [UInt8.ofNat script.length]) ++
      (scriptBytes ++ extraBytes)) 19 script =
      (pre ++ putUint16 version ++ [UInt8.ofNat script.length]) ++ (script ++ extraBytes) :=
    copySlice_append _ _ _ _ (by simp [before]) scriptLength
  have extraWritten : copySlice
      ((pre ++ putUint16 version ++ [UInt8.ofNat script.length] ++ script) ++ (extraBytes ++ []))
      (19 + script.length) extraData =
      (pre ++ putUint16 version ++ [UInt8.ofNat script.length] ++ script) ++ (extraData ++ []) :=
    copySlice_append _ _ _ _ (by simp [before]; omega) extraLength
  simp only [List.append_assoc, List.cons_append, List.nil_append,
    List.append_nil] at versionWritten lengthWritten scriptWritten extraWritten
  simp only [writeCoinbaseData, uint64Len, lengthOfSubsidy, lengthOfVersionScriptPubKey, uint16Len,
    lengthOfScriptPubKeyLength, Nat.reduceAdd, List.cons_append, List.nil_append, versionWritten,
    lengthWritten, scriptWritten, extraWritten]
  simp [coinbaseDataBytes]

section Layout
variable {coinbasePayloadScriptPublicKeyMaxLength : UInt8} {coinbaseData : DomainCoinbaseData}

theorem serializeCoinbasePayload_eq (fits : Fits coinbasePayloadScriptPublicKeyMaxLength coinbaseData)
    (blueScore subsidy : UInt64) :
    serializeCoinbasePayload coinbasePayloadScriptPublicKeyMaxLength blueScore coinbaseData subsidy =
      .ok (payloadBytes blueScore coinbaseData subsidy) := by
  let closing := 3 + coinbaseData.scriptPublicKey.script.length + coinbaseData.extraData.length
  have zeros : List.replicate (uint64Len + lengthOfVersionScriptPubKey + lengthOfScriptPubKeyLength +
      coinbaseData.scriptPublicKey.script.length + coinbaseData.extraData.length + lengthOfSubsidy)
      (0 : UInt8) = List.replicate 8 0 ++ (List.replicate 8 0 ++ List.replicate closing 0) := by
    simp only [← List.replicate_add]
    congr 1
    simp only [uint64Len, lengthOfVersionScriptPubKey, uint16Len, lengthOfScriptPubKeyLength,
      lengthOfSubsidy, closing]
    omega
  have blueScoreWritten : copySlice (List.replicate 8 0 ++
      (List.replicate 8 0 ++ List.replicate closing 0)) 0 (putUint64 blueScore) =
      putUint64 blueScore ++ (List.replicate 8 0 ++ List.replicate closing 0) :=
    copySlice_append [] (List.replicate 8 0) _ _ rfl (by simp)
  have subsidyWritten : copySlice (putUint64 blueScore ++ (List.replicate 8 0 ++
      List.replicate closing 0)) uint64Len (putUint64 subsidy) =
      putUint64 blueScore ++ (putUint64 subsidy ++ List.replicate closing 0) :=
    copySlice_append _ _ _ _ (by simp [uint64Len]) (by simp)
  have closingWritten := writeCoinbaseData_eq (putUint64 blueScore ++ putUint64 subsidy)
    (List.replicate closing 0) coinbaseData (by simp [uint64Len, lengthOfSubsidy]) (by simp [closing])
  rw [List.append_assoc] at closingWritten
  rw [serializeCoinbasePayload, if_neg (Nat.not_lt.2 fits)]
  simp only [zeros, blueScoreWritten, subsidyWritten, closingWritten]
  rfl

end Layout

/-! ## Reading a payload back -/

section Read
variable (blueScore subsidy : UInt64) (version : UInt16) (scriptLength : UInt8) (rest : List UInt8)

@[simp] theorem length_payloadLayout :
    (payloadLayout blueScore subsidy version scriptLength rest).length = 19 + rest.length := by
  simp [payloadLayout]
  omega

theorem drop_payloadLayout_subsidy :
    (payloadLayout blueScore subsidy version scriptLength rest).drop 8 =
      putUint64 subsidy ++ (putUint16 version ++ scriptLength :: rest) :=
  List.drop_left' (by simp)

theorem drop_payloadLayout_version :
    (payloadLayout blueScore subsidy version scriptLength rest).drop 16 =
      putUint16 version ++ scriptLength :: rest := by
  rw [show 16 = 8 + 8 from rfl, ← List.drop_drop, drop_payloadLayout_subsidy]
  exact List.drop_left' (by simp)

theorem drop_payloadLayout_scriptLength :
    (payloadLayout blueScore subsidy version scriptLength rest).drop 18 = scriptLength :: rest := by
  rw [show 18 = 16 + 2 from rfl, ← List.drop_drop, drop_payloadLayout_version]
  exact List.drop_left' (by simp)

theorem drop_payloadLayout_rest :
    (payloadLayout blueScore subsidy version scriptLength rest).drop 19 = rest := by
  rw [show 19 = 18 + 1 from rfl, ← List.drop_drop, drop_payloadLayout_scriptLength, List.drop_one,
    List.tail_cons]

theorem getElem_payloadLayout_scriptLength
    (h : 18 < (payloadLayout blueScore subsidy version scriptLength rest).length) :
    (payloadLayout blueScore subsidy version scriptLength rest)[18] = scriptLength := by
  have split := List.drop_eq_getElem_cons h
  rw [drop_payloadLayout_scriptLength] at split
  exact (List.cons.inj split).1.symm

theorem take_payloadLayout_script (n : Nat) :
    ((payloadLayout blueScore subsidy version scriptLength rest).take (19 + n)).drop 19 =
      rest.take n := by
  rw [List.drop_take, drop_payloadLayout_rest, Nat.add_sub_cancel_left]

theorem drop_payloadLayout_extraData (n : Nat) :
    (payloadLayout blueScore subsidy version scriptLength rest).drop (19 + n) = rest.drop n := by
  rw [← List.drop_drop, drop_payloadLayout_rest]

theorem uint64_payloadLayout_blueScore :
    uint64 ((payloadLayout blueScore subsidy version scriptLength rest).take 8) = blueScore := by
  rw [uint64_take, payloadLayout, uint64_putUint64_append]

theorem uint64_payloadLayout_subsidy :
    uint64 ((payloadLayout blueScore subsidy version scriptLength rest).drop 8) = subsidy := by
  rw [drop_payloadLayout_subsidy, uint64_putUint64_append]

theorem uint16_payloadLayout_version :
    uint16 (((payloadLayout blueScore subsidy version scriptLength rest).take 18).drop 16) =
      version := by
  rw [List.drop_take, show 18 - 16 = 2 from rfl, uint16_take, drop_payloadLayout_version,
    uint16_putUint16_append]

theorem extractCoinbaseDataBlueScoreAndSubsidy_layout (max : UInt8) {coinbaseTx : DomainTransaction}
    (carries : coinbaseTx.payload = payloadLayout blueScore subsidy version scriptLength rest) :
    extractCoinbaseDataBlueScoreAndSubsidy max coinbaseTx =
      if scriptLength > max then .error (scriptPubKeyTooLong max)
      else if rest.length < scriptLength.toNat then
        .error (.badCoinbasePayloadLen ("coinbase payload doesn't have enough bytes to contain a " ++
          "script public key of " ++ toString scriptLength ++ " bytes"))
      else .ok (blueScore, ⟨⟨rest.take scriptLength.toNat, version⟩, rest.drop scriptLength.toNat⟩,
        subsidy) := by
  have long : ¬ coinbaseTx.payload.length < 19 := by simp [carries]
  simp only [extractCoinbaseDataBlueScoreAndSubsidy, uint64Len, lengthOfSubsidy, uint16Len,
    lengthOfVersionScriptPubKey, lengthOfScriptPubKeyLength, Nat.reduceAdd]
  simp only [long, ↓reduceDIte]
  simp only [carries, uint64_payloadLayout_blueScore, uint64_payloadLayout_subsidy,
    uint16_payloadLayout_version, List.get_eq_getElem, getElem_payloadLayout_scriptLength,
    length_payloadLayout, Nat.add_lt_add_iff_left, take_payloadLayout_script,
    drop_payloadLayout_extraData]

end Read

theorem payloadLayout_of_long {payload : List UInt8} (long : 19 ≤ payload.length) :
    payloadLayout (uint64 (payload.take 8)) (uint64 (payload.drop 8))
      (uint16 ((payload.take 18).drop 16)) (payload.get ⟨18, by omega⟩) (payload.drop 19) =
      payload := by
  have third : payload.drop 16 = (payload.drop 8).drop 8 := by rw [List.drop_drop]
  have fourth : payload.drop 18 = (payload.drop 16).drop 2 := by rw [List.drop_drop]
  rw [payloadLayout, uint64_take, putUint64_uint64 (by omega), putUint64_uint64 (by simp; omega),
    List.drop_take, show 18 - 16 = 2 from rfl, uint16_take, putUint16_uint16 (by simp; omega),
    List.get_eq_getElem, ← List.drop_eq_getElem_cons, fourth, List.take_append_drop, third,
    List.take_append_drop, List.take_append_drop]

section Inverse
variable {coinbasePayloadScriptPublicKeyMaxLength : UInt8}

theorem extractCoinbaseDataBlueScoreAndSubsidy_payloadBytes {coinbaseData : DomainCoinbaseData}
    (fits : Fits coinbasePayloadScriptPublicKeyMaxLength coinbaseData) (blueScore subsidy : UInt64)
    {coinbaseTx : DomainTransaction}
    (carries : coinbaseTx.payload = payloadBytes blueScore coinbaseData subsidy) :
    extractCoinbaseDataBlueScoreAndSubsidy coinbasePayloadScriptPublicKeyMaxLength coinbaseTx =
      .ok (blueScore, coinbaseData, subsidy) := by
  have byte := toNat_ofNat_length fits
  have notAbove : ¬ UInt8.ofNat coinbaseData.scriptPublicKey.script.length >
      coinbasePayloadScriptPublicKeyMaxLength := by
    rw [gt_iff_lt, UInt8.lt_iff_toNat_lt, byte]
    exact Nat.not_lt.2 fits
  rw [payloadBytes_eq_layout] at carries
  rw [extractCoinbaseDataBlueScoreAndSubsidy_layout _ _ _ _ _ _ carries, if_neg notAbove,
    if_neg (by simp [byte]), byte, List.take_left' rfl, List.drop_left' rfl]

theorem payloadBytes_of_extract {coinbaseTx : DomainTransaction} {blueScore subsidy : UInt64}
    {coinbaseData : DomainCoinbaseData}
    (extracted : extractCoinbaseDataBlueScoreAndSubsidy coinbasePayloadScriptPublicKeyMaxLength
      coinbaseTx = .ok (blueScore, coinbaseData, subsidy)) :
    Fits coinbasePayloadScriptPublicKeyMaxLength coinbaseData ∧
      coinbaseTx.payload = payloadBytes blueScore coinbaseData subsidy := by
  by_cases short : coinbaseTx.payload.length < 19
  · simp only [extractCoinbaseDataBlueScoreAndSubsidy, uint64Len, lengthOfSubsidy,
      lengthOfVersionScriptPubKey, uint16Len, lengthOfScriptPubKeyLength, Nat.reduceAdd, short,
      ↓reduceDIte, reduceCtorEq] at extracted
  · have layout := (payloadLayout_of_long (Nat.not_lt.1 short)).symm
    rw [extractCoinbaseDataBlueScoreAndSubsidy_layout _ _ _ _ _ _ layout] at extracted
    split at extracted
    · cases extracted
    rename_i notAbove
    split at extracted
    · cases extracted
    rename_i enough
    injection extracted with fields
    simp only [Prod.mk.injEq] at fields
    obtain ⟨rfl, rfl, rfl⟩ := fields
    set rest := coinbaseTx.payload.drop 19
    set scriptLength := coinbaseTx.payload.get ⟨18, _⟩
    have length : (rest.take scriptLength.toNat).length = scriptLength.toNat := by
      simp only [List.length_take]
      omega
    constructor
    · show (rest.take scriptLength.toNat).length ≤ _
      rw [length]
      rw [gt_iff_lt, UInt8.lt_iff_toNat_lt] at notAbove
      omega
    · rw [payloadBytes_eq_layout]
      simp only [length, UInt8.ofNat_toNat, List.take_append_drop]
      exact layout

theorem modifyCoinbasePayload_eq {payload : List UInt8} {coinbaseData : DomainCoinbaseData}
    (fits : Fits coinbasePayloadScriptPublicKeyMaxLength coinbaseData)
    (long : uint64Len + lengthOfSubsidy ≤ payload.length) :
    modifyCoinbasePayload payload coinbaseData coinbasePayloadScriptPublicKeyMaxLength =
      .ok (payload.take 16 ++ coinbaseDataBytes coinbaseData) := by
  let closing := 3 + coinbaseData.scriptPublicKey.script.length + coinbaseData.extraData.length
  let newPayloadLen := uint64Len + lengthOfVersionScriptPubKey + lengthOfScriptPubKeyLength +
    coinbaseData.scriptPublicKey.script.length + coinbaseData.extraData.length + lengthOfSubsidy
  have newLength : newPayloadLen = 16 + closing := by
    simp only [newPayloadLen, closing, uint64Len, lengthOfVersionScriptPubKey, uint16Len,
      lengthOfScriptPubKeyLength, lengthOfSubsidy]
    omega
  simp only [uint64Len, lengthOfSubsidy] at long
  have prefixLength : (payload.take 16).length = uint64Len + lengthOfSubsidy := by
    simp [long, uint64Len, lengthOfSubsidy]
  rw [modifyCoinbasePayload, if_neg (Nat.not_lt.2 fits)]
  by_cases same : payload.length = newPayloadLen
  · have room : (payload.drop 16).length = closing := by
      simp only [List.length_drop]
      omega
    rw [if_neg (not_not.2 same), ← List.take_append_drop 16 payload,
      writeCoinbaseData_eq _ _ _ prefixLength room, List.take_append_drop]
  · -- a payload of another length: a new zeroed buffer that starts with the first sixteen bytes
    rw [if_pos same, if_neg (by simp only [uint64Len, lengthOfSubsidy]; omega)]
    have zeros : List.replicate newPayloadLen (0 : UInt8) =
        [] ++ (List.replicate 16 0 ++ List.replicate closing 0) := by
      rw [List.nil_append, ← List.replicate_add, newLength]
    have copied : copySlice ([] ++ (List.replicate 16 0 ++ List.replicate closing 0)) 0
        (payload.take (uint64Len + lengthOfSubsidy)) =
        [] ++ (payload.take 16 ++ List.replicate closing 0) :=
      copySlice_append [] (List.replicate 16 0) _ _ rfl (by simp [uint64Len, lengthOfSubsidy]; omega)
    rw [zeros, copied, List.nil_append]
    dsimp only
    rw [writeCoinbaseData_eq (payload.take 16) (List.replicate closing 0) coinbaseData prefixLength
      (by simp [closing])]

theorem fits_of_modifyCoinbasePayload {payload newPayload : List UInt8}
    {coinbaseData : DomainCoinbaseData}
    (modified : modifyCoinbasePayload payload coinbaseData coinbasePayloadScriptPublicKeyMaxLength =
      .ok newPayload) :
    Fits coinbasePayloadScriptPublicKeyMaxLength coinbaseData := by
  by_contra tooLong
  rw [modifyCoinbasePayload, if_pos (Nat.lt_of_not_le tooLong)] at modified
  cases modified

theorem modifyCoinbasePayload_payloadBytes {coinbaseData newCoinbaseData : DomainCoinbaseData}
    (fits : Fits coinbasePayloadScriptPublicKeyMaxLength newCoinbaseData) (blueScore subsidy : UInt64) :
    modifyCoinbasePayload (payloadBytes blueScore coinbaseData subsidy) newCoinbaseData
      coinbasePayloadScriptPublicKeyMaxLength = .ok (payloadBytes blueScore newCoinbaseData subsidy) := by
  have header : (payloadBytes blueScore coinbaseData subsidy).take 16 =
      putUint64 blueScore ++ putUint64 subsidy := by
    rw [payloadBytes, ← List.append_assoc]
    exact List.take_left' (by simp)
  have long : uint64Len + lengthOfSubsidy ≤ (payloadBytes blueScore coinbaseData subsidy).length := by
    simp only [payloadBytes, uint64Len, lengthOfSubsidy, List.length_append, length_putUint64,
      length_coinbaseDataBytes]
    omega
  rw [modifyCoinbasePayload_eq fits long, header,
    List.append_assoc]
  rfl

end Inverse

/-- The coinbase payload writers and the extractor are inverse: a coinbase data that fits is
serialized into a payload the extractor reads back, every payload the extractor accepts is the
serialization of what it reads, and modifying such a payload with a coinbase data succeeds when
the data fits and then reads back as that data after the same blue score and subsidy. -/
theorem coinbasePayload_round_trips (coinbasePayloadScriptPublicKeyMaxLength : UInt8) :
    (∀ (blueScore subsidy : UInt64) (coinbaseData : DomainCoinbaseData),
      Fits coinbasePayloadScriptPublicKeyMaxLength coinbaseData →
      ∃ payload, serializeCoinbasePayload coinbasePayloadScriptPublicKeyMaxLength blueScore
          coinbaseData subsidy = .ok payload ∧
        ∀ coinbaseTx : DomainTransaction, coinbaseTx.payload = payload →
          extractCoinbaseDataBlueScoreAndSubsidy coinbasePayloadScriptPublicKeyMaxLength coinbaseTx =
            .ok (blueScore, coinbaseData, subsidy)) ∧
    (∀ (coinbaseTx : DomainTransaction) (blueScore subsidy : UInt64) (coinbaseData : DomainCoinbaseData),
      extractCoinbaseDataBlueScoreAndSubsidy coinbasePayloadScriptPublicKeyMaxLength coinbaseTx =
        .ok (blueScore, coinbaseData, subsidy) →
      serializeCoinbasePayload coinbasePayloadScriptPublicKeyMaxLength blueScore coinbaseData subsidy =
        .ok coinbaseTx.payload) ∧
    (∀ (coinbaseTx : DomainTransaction) (blueScore subsidy : UInt64) (coinbaseData : DomainCoinbaseData),
      extractCoinbaseDataBlueScoreAndSubsidy coinbasePayloadScriptPublicKeyMaxLength coinbaseTx =
        .ok (blueScore, coinbaseData, subsidy) →
      ∀ newCoinbaseData : DomainCoinbaseData,
        (Fits coinbasePayloadScriptPublicKeyMaxLength newCoinbaseData →
          ∃ newPayload, modifyCoinbasePayload coinbaseTx.payload newCoinbaseData
            coinbasePayloadScriptPublicKeyMaxLength = .ok newPayload) ∧
        ∀ newPayload, modifyCoinbasePayload coinbaseTx.payload newCoinbaseData
            coinbasePayloadScriptPublicKeyMaxLength = .ok newPayload →
          ∀ newTx : DomainTransaction, newTx.payload = newPayload →
            extractCoinbaseDataBlueScoreAndSubsidy coinbasePayloadScriptPublicKeyMaxLength newTx =
              .ok (blueScore, newCoinbaseData, subsidy)) := by
  refine ⟨?serialized, ?extracted, ?modified⟩
  case serialized =>
    intro blueScore subsidy coinbaseData fits
    exact ⟨_, serializeCoinbasePayload_eq fits blueScore subsidy,
      fun _ carries => extractCoinbaseDataBlueScoreAndSubsidy_payloadBytes fits blueScore subsidy carries⟩
  case extracted =>
    intro coinbaseTx blueScore subsidy coinbaseData extracted
    obtain ⟨fits, carries⟩ := payloadBytes_of_extract extracted
    rw [carries]
    exact serializeCoinbasePayload_eq fits blueScore subsidy
  case modified =>
    intro coinbaseTx blueScore subsidy coinbaseData extracted newCoinbaseData
    obtain ⟨_, carries⟩ := payloadBytes_of_extract extracted
    rw [carries]
    constructor
    · intro fits
      exact ⟨_, modifyCoinbasePayload_payloadBytes fits blueScore subsidy⟩
    · intro newPayload modified newTx newCarries
      have fits := fits_of_modifyCoinbasePayload modified
      rw [modifyCoinbasePayload_payloadBytes fits blueScore subsidy] at modified
      cases modified
      exact extractCoinbaseDataBlueScoreAndSubsidy_payloadBytes fits blueScore subsidy newCarries

def coinbaseCarrying (payload : List UInt8) : DomainTransaction :=
  { id := ⟨0⟩, inputs := [], outputs := [], subnetworkID := subnetworkIDCoinbase, fee := 0,
    mass := 0, version := 0, lockTime := 0, gas := 0, payload := payload }

def oneByteScriptData : DomainCoinbaseData := ⟨⟨[0x51], 0⟩, [0x07]⟩

theorem coinbasePayload_round_trips_one_byte_script :
    Fits 1 oneByteScriptData ∧
      (∃ payload, serializeCoinbasePayload 1 5 oneByteScriptData 7 = .ok payload ∧
        ∀ coinbaseTx : DomainTransaction, coinbaseTx.payload = payload →
          extractCoinbaseDataBlueScoreAndSubsidy 1 coinbaseTx = .ok (5, oneByteScriptData, 7)) ∧
      extractCoinbaseDataBlueScoreAndSubsidy 1
        (coinbaseCarrying (payloadBytes 5 oneByteScriptData 7)) = .ok (5, oneByteScriptData, 7) ∧
      serializeCoinbasePayload 1 5 oneByteScriptData 7 =
        .ok (payloadBytes 5 oneByteScriptData 7) ∧
      ∃ newPayload, modifyCoinbasePayload (payloadBytes 5 oneByteScriptData 7) oneByteScriptData 1 =
        .ok newPayload := by
  have fits : Fits 1 oneByteScriptData := by decide
  have extracted : extractCoinbaseDataBlueScoreAndSubsidy 1
      (coinbaseCarrying (payloadBytes 5 oneByteScriptData 7)) = .ok (5, oneByteScriptData, 7) := rfl
  exact ⟨fits, (coinbasePayload_round_trips 1).1 5 7 oneByteScriptData fits, extracted,
    (coinbasePayload_round_trips 1).2.1 _ 5 7 oneByteScriptData extracted,
    ((coinbasePayload_round_trips 1).2.2 _ 5 7 oneByteScriptData extracted oneByteScriptData).1 fits⟩

end Coinbase
