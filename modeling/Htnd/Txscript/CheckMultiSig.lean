import Mathlib
import Htnd.Txscript.Stack
import Htnd.ConsensusHashing.SignatureHash
import Htnd.Lib.GreedyMatch

/-!
OP_CHECKMULTISIG and OP_CHECKMULTISIGECDSA (txscript/opcode.go) with the signature caches
(sigcache.go, sigcache_ecdsa.go). The two opcodes differ only in the signature scheme, the checks
of a signature's and a public key's length, the signature hash and the cache they use, so both are
one definition over those. The scheme is abstract: parsing a signature or a public key may fail,
and verification is any function of the key, the hash and the signature.

An opcode mutates the engine and returns an error or nothing: it is a computation of EStateM over
the engine, so that what it changed before an error is kept (the caches outlive the engine). The
engine holds the signature cache of the scheme its opcode uses.
-/
namespace Txscript
open ConsensusHashing GreedyMatch
open GoSemantics (sliceIndex)
open Utxo (DomainHash)

def maxOpsPerScript : Int := 201
def maxPubKeysPerMultiSig : Int := 20

structure SignatureScheme (Sig Key : Type) where
  deserializeSignature : List UInt8 → Option Sig
  deserializePubKey : List UInt8 → Option Key
  verify : Key → DomainHash → Sig → Bool

structure SigCache (Sig Key : Type) where
  validSigs : List (DomainHash × Sig × Key)
  maxEntries : Nat

namespace SigCache
variable {Sig Key : Type}

def «exists» [DecidableEq Sig] [DecidableEq Key] (s : SigCache Sig Key) (sigHash : DomainHash) (sig : Sig) (pubKey : Key) : Bool :=
  match s.validSigs.find? (fun entry => decide (entry.1 = sigHash)) with
  | some (_, entrySig, entryPubKey) => decide (entryPubKey = pubKey) && decide (entrySig = sig)
  | none => false

/-- Add: the entry of the hash becomes this signature and public key; a cache that is full first
evicts an entry. Which one is left to the map's iteration order; here it is the first. -/
def add (s : SigCache Sig Key) (sigHash : DomainHash) (sig : Sig) (pubKey : Key) : SigCache Sig Key :=
  if s.maxEntries = 0 then s
  else
    let validSigs := if s.validSigs.length + 1 > s.maxEntries then s.validSigs.drop 1 else s.validSigs
    { s with validSigs := validSigs.filter (fun entry => decide (entry.1 ≠ sigHash)) ++
        [(sigHash, sig, pubKey)] }

def Sound (scheme : SignatureScheme Sig Key) (s : SigCache Sig Key) : Prop :=
  ∀ entry ∈ s.validSigs, scheme.verify entry.2.2 entry.1 entry.2.1 = true

variable {scheme : SignatureScheme Sig Key} {s : SigCache Sig Key}

theorem verify_of_exists [DecidableEq Sig] [DecidableEq Key] (sound : s.Sound scheme) {sigHash : DomainHash} {sig : Sig} {pubKey : Key}
    (hit : s.exists sigHash sig pubKey = true) : scheme.verify pubKey sigHash sig = true := by
  unfold SigCache.exists at hit
  cases found : s.validSigs.find? (fun entry => decide (entry.1 = sigHash)) with
  | none => simp [found] at hit
  | some entry =>
    obtain ⟨entryHash, entrySig, entryPubKey⟩ := entry
    simp only [found, Bool.and_eq_true, decide_eq_true_eq] at hit
    obtain ⟨rfl, rfl⟩ := hit
    have sameHash : entryHash = sigHash := by simpa using List.find?_some found
    subst sameHash
    exact sound _ (List.mem_of_find?_eq_some found)

theorem add_sound (sound : s.Sound scheme) {sigHash : DomainHash} {sig : Sig} {pubKey : Key}
    (verified : scheme.verify pubKey sigHash sig = true) : (s.add sigHash sig pubKey).Sound scheme := by
  unfold add
  split
  · exact sound
  · intro entry mem
    simp only [List.mem_append, List.mem_filter, List.mem_singleton] at mem
    rcases mem with ⟨kept, -⟩ | rfl
    · split at kept
      · exact sound entry (List.mem_of_mem_drop kept)
      · exact sound entry kept
    · exact verified

end SigCache

structure ParsedSigInfo (Sig : Type) where
  signature : List UInt8
  parsedSignature : Option Sig := none
  parsed : Bool := false

structure Engine (Sig Key : Type) where
  dstack : Stack
  tx : DomainTransaction
  txIdx : Int
  numOps : Int
  sigCache : Option (SigCache Sig Key)
  sigHashReusedValues : SighashReusedValues

inductive OpcodeError where
  | script (e : ScriptError)
  | sighash (failure : SighashFailure)
  deriving DecidableEq, Repr

def checkPubKeyLength (length : Nat) (pubKey : List UInt8) : Except ScriptError Unit :=
  if pubKey.length = length then .ok ()
  else .error (scriptError .errPubKeyFormat "unsupported public key type")

def checkPubKeyEncoding : List UInt8 → Except ScriptError Unit := checkPubKeyLength 32

def checkPubKeyEncodingECDSA : List UInt8 → Except ScriptError Unit := checkPubKeyLength 33

def checkSigLength (length : Nat) (sig : List UInt8) : Except ScriptError Unit :=
  if sig.length ≠ length then
    .error (scriptError .errSigLength ("invalid signature length " ++ toString sig.length))
  else .ok ()

def checkSignatureLength : List UInt8 → Except ScriptError Unit := checkSigLength 64

def checkSignatureLengthECDSA : List UInt8 → Except ScriptError Unit := checkSigLength 64

variable {Sig Key : Type}

def onStack {α : Type} (op : Stack → Except ScriptError (α × Stack)) :
    EStateM OpcodeError (Engine Sig Key) α := fun vm =>
  match op vm.dstack with
  | .ok (a, dstack) => .ok a { vm with dstack }
  | .error e => .error (.script e) vm

/-- The loop that pops count items into a slice, the first popped first. -/
def popByteArrays : Nat → EStateM OpcodeError (Engine Sig Key) (List (List UInt8))
  | 0 => pure []
  | count + 1 => do
    let item ← onStack popByteArray
    let items ← popByteArrays count
    pure (item :: items)

theorem popByteArrays_append (items : List (List UInt8)) (rest : Stack) (vm : Engine Sig Key)
    (stack : vm.dstack = items ++ rest) :
    (popByteArrays items.length).run vm = .ok items { vm with dstack := rest } := by
  induction items generalizing vm with
  | nil =>
    rw [List.nil_append] at stack
    rw [← stack]
    rfl
  | cons item items ih =>
    have popped : (onStack popByteArray : EStateM OpcodeError (Engine Sig Key) _).run vm =
        .ok item { vm with dstack := items ++ rest } := by
      simp [EStateM.run, onStack, stack]
    have poppedRest := ih { vm with dstack := items ++ rest } rfl
    simp [popByteArrays, popped, poppedRest]

theorem onStack_popInt {vm : Engine Sig Key} {raw : List UInt8} {rest : Stack} {n : Int}
    (stack : vm.dstack = raw :: rest) (decoded : makeScriptNum raw defaultScriptNumLen = .ok n) :
    (onStack popInt : EStateM OpcodeError (Engine Sig Key) _).run vm =
      .ok n { vm with dstack := rest } := by
  simp [EStateM.run, onStack, stack, popInt_cons decoded]

variable [DecidableEq Sig] [DecidableEq Key]

def verifyWithCache (scheme : SignatureScheme Sig Key) (sigCache : Option (SigCache Sig Key))
    (secpHash : DomainHash) (parsedSig : Sig) (parsedPubKey : Key) :
    Bool × Option (SigCache Sig Key) :=
  match sigCache with
  | some c =>
    if c.exists secpHash parsedSig parsedPubKey then (true, sigCache)
    else if scheme.verify parsedPubKey secpHash parsedSig then
      (true, some (c.add secpHash parsedSig parsedPubKey))
    else (false, sigCache)
  | none => (scheme.verify parsedPubKey secpHash parsedSig, none)

def SoundCache (scheme : SignatureScheme Sig Key) : Option (SigCache Sig Key) → Prop
  | some c => c.Sound scheme
  | none => True

theorem verifyWithCache_of_sound {scheme : SignatureScheme Sig Key} {sigCache : Option (SigCache Sig Key)}
    (sound : SoundCache scheme sigCache) (secpHash : DomainHash) (parsedSig : Sig) (parsedPubKey : Key) :
    (verifyWithCache scheme sigCache secpHash parsedSig parsedPubKey).1 =
        scheme.verify parsedPubKey secpHash parsedSig ∧
      SoundCache scheme (verifyWithCache scheme sigCache secpHash parsedSig parsedPubKey).2 := by
  cases sigCache with
  | none => exact ⟨rfl, trivial⟩
  | some c =>
    by_cases hit : c.exists secpHash parsedSig parsedPubKey = true
    · simp only [verifyWithCache, hit, if_true]
      exact ⟨(c.verify_of_exists sound hit).symm, sound⟩
    · by_cases verified : scheme.verify parsedPubKey secpHash parsedSig = true
      · simp only [verifyWithCache, hit, verified, if_true, Bool.false_eq_true, if_false]
        exact ⟨trivial, c.add_sound sound verified⟩
      · simp only [verifyWithCache, hit, verified, Bool.false_eq_true, if_false]
        exact ⟨trivial, sound⟩

section Opcode
variable (scheme : SignatureScheme Sig Key)
  (checkSignatureLength checkPubKeyEncoding : List UInt8 → Except ScriptError Unit)
  (calculateSignatureHash : DomainTransaction → Int → SigHashType → SighashReusedValues →
    Except SighashFailure (DomainHash × SighashReusedValues))

def parseOnce (sigInfo : ParsedSigInfo Sig) (hashType : SigHashType) (signature : List UInt8) :
    Except ScriptError (Option Sig × ParsedSigInfo Sig) :=
  if !sigInfo.parsed then
    if !isStandardSigHashType hashType then
      .error (scriptError .errInvalidSigHashType ("invalid hash type 0x" ++ hexNat hashType.toNat))
    else
      match checkSignatureLength signature with
      | .error e => .error e
      | .ok () =>
        match scheme.deserializeSignature signature with
        | none => .ok (none, { sigInfo with parsed := true })
        | some parsedSig =>
          .ok (some parsedSig, { sigInfo with parsed := true, parsedSignature := some parsedSig })
  else .ok (sigInfo.parsedSignature, sigInfo)

def checkMultiSigPair (sigInfo : ParsedSigInfo Sig) (pubKey : List UInt8) :
    EStateM OpcodeError (Engine Sig Key) (ParsedSigInfo Sig × Bool) :=
  match sigInfo.signature.getLast? with
  -- an empty signature: skip to the next pubkey
  | none => pure (sigInfo, false)
  | some hashType => do
    let (parsedSig, sigInfo) ← liftExcept
      ((parseOnce scheme checkSignatureLength sigInfo hashType sigInfo.signature.dropLast).mapError
        OpcodeError.script)
    match parsedSig with
    | none => pure (sigInfo, false)
    | some parsedSig => do
      liftExcept ((checkPubKeyEncoding pubKey).mapError OpcodeError.script)
      match scheme.deserializePubKey pubKey with
      | none => pure (sigInfo, false)
      | some parsedPubKey => do
        let vm ← get
        let (sigHash, sigHashReusedValues) ← liftExcept
          ((calculateSignatureHash vm.tx vm.txIdx hashType vm.sigHashReusedValues).mapError
            OpcodeError.sighash)
        let (valid, sigCache) := verifyWithCache scheme vm.sigCache sigHash parsedSig parsedPubKey
        set { vm with sigHashReusedValues, sigCache }
        pure (sigInfo, valid)

def checkMultiSigLoop :
    List (List UInt8) → List (ParsedSigInfo Sig) → EStateM OpcodeError (Engine Sig Key) Bool
  | _, [] => pure true
  | [], _ :: _ => pure false
  | pubKey :: pubKeys, sigInfo :: signatures =>
    -- more signatures than public keys left: too many of them are invalid to succeed
    if (sigInfo :: signatures).length > (pubKey :: pubKeys).length then pure false
    else do
      let (sigInfo, valid) ← checkMultiSigPair scheme checkSignatureLength checkPubKeyEncoding
        calculateSignatureHash sigInfo pubKey
      if valid then checkMultiSigLoop pubKeys signatures
      else checkMultiSigLoop pubKeys (sigInfo :: signatures)

def checkMultiSig : EStateM OpcodeError (Engine Sig Key) Unit := do
  let numKeys ← onStack popInt
  let numPubKeys := ScriptNum.int32 numKeys
  if numPubKeys < 0 then
    throw (.script (scriptError .errInvalidPubKeyCount
      ("number of pubkeys " ++ toString numPubKeys ++ " is negative")))
  if numPubKeys > maxPubKeysPerMultiSig then
    throw (.script (scriptError .errInvalidPubKeyCount
      ("too many pubkeys: " ++ toString numPubKeys ++ " > " ++ toString maxPubKeysPerMultiSig)))
  modify fun vm => { vm with numOps := vm.numOps + numPubKeys }
  if (← get).numOps > maxOpsPerScript then
    throw (.script (scriptError .errTooManyOperations
      ("exceeded max operation limit of " ++ toString maxOpsPerScript)))
  let pubKeys ← popByteArrays numPubKeys.toNat
  let numSigs ← onStack popInt
  let numSignatures := ScriptNum.int32 numSigs
  if numSignatures < 0 then
    throw (.script (scriptError .errInvalidSignatureCount
      ("number of signatures " ++ toString numSignatures ++ " is negative")))
  if numSignatures > numPubKeys then
    throw (.script (scriptError .errInvalidSignatureCount
      ("more signatures than pubkeys: " ++ toString numSignatures ++ " > " ++ toString numPubKeys)))
  let signatures ← popByteArrays numSignatures.toNat
  let success ← checkMultiSigLoop scheme checkSignatureLength checkPubKeyEncoding
    calculateSignatureHash pubKeys (signatures.map fun signature => { signature })
  if !success && signatures.any (fun signature => signature.length > 0) then
    throw (.script (scriptError .errNullFail "not all signatures empty on failed checkmultisig"))
  modify fun vm => { vm with dstack := pushBool vm.dstack success }

/-! ## The loop is a greedy match

Each pass of the loop verifies the current signature against the current public key, so the loop
is the greedy in-order match of the signatures into the public keys under the verification
oracle, as long as no pass fails: the signatures and public keys have the lengths the checks
want, the signature hash can be computed, and the caches hold nothing wrong. -/

def verifies (sigHash : SigHashType → Except SighashFailure DomainHash) (rawSig pubKey : List UInt8) :
    Bool :=
  match rawSig.getLast?, scheme.deserializeSignature rawSig.dropLast,
    scheme.deserializePubKey pubKey with
  | some hashType, some sig, some key =>
    match sigHash hashType with
    | .ok hash => scheme.verify key hash sig
    | .error _ => false
  | _, _, _ => false

def SigShaped (rawSig : List UInt8) : Prop :=
  rawSig = [] ∨ ∃ body hashType, rawSig = body ++ [hashType] ∧ body.length = 64 ∧
    isStandardSigHashType hashType = true

def ParsedSigInfo.WellParsed (sigInfo : ParsedSigInfo Sig) : Prop :=
  sigInfo.parsedSignature =
    if sigInfo.parsed then scheme.deserializeSignature sigInfo.signature.dropLast else none

variable {scheme checkSignatureLength checkPubKeyEncoding calculateSignatureHash}
  {Good : SighashReusedValues → Prop} {sigHash : SigHashType → Except SighashFailure DomainHash}
  {tx : DomainTransaction} {txIdx : Int}
  (lengthChecked : ∀ signature : List UInt8, signature.length = 64 →
    checkSignatureLength signature = .ok ())
  (hashes : ∀ reusedValues, Good reusedValues → ∀ hashType, isStandardSigHashType hashType = true →
    ∃ hash reusedValues', calculateSignatureHash tx txIdx hashType reusedValues =
      .ok (hash, reusedValues') ∧ sigHash hashType = .ok hash ∧ Good reusedValues')

omit [DecidableEq Sig] [DecidableEq Key] in
include lengthChecked in
theorem parseOnce_of_shaped {sigInfo : ParsedSigInfo Sig} {body : List UInt8} {hashType : SigHashType}
    (signature : sigInfo.signature = body ++ [hashType]) (length : body.length = 64)
    (standard : isStandardSigHashType hashType = true) (wellParsed : sigInfo.WellParsed scheme) :
    ∃ sigInfo', parseOnce scheme checkSignatureLength sigInfo hashType body =
        .ok (scheme.deserializeSignature body, sigInfo') ∧
      sigInfo'.signature = sigInfo.signature ∧ sigInfo'.WellParsed scheme := by
  have dropLast : sigInfo.signature.dropLast = body := by simp [signature]
  unfold ParsedSigInfo.WellParsed at wellParsed ⊢
  cases parsed : sigInfo.parsed with
  | false =>
    rw [parsed, if_neg Bool.false_ne_true] at wellParsed
    cases parsedSig : scheme.deserializeSignature body with
    | none =>
      refine ⟨{ sigInfo with parsed := true }, ?_, rfl, ?_⟩
      · simp [parseOnce, parsed, standard, lengthChecked body length, parsedSig]
      · simp [wellParsed, dropLast, parsedSig]
    | some sig =>
      refine ⟨{ sigInfo with parsed := true, parsedSignature := some sig }, ?_, rfl, ?_⟩
      · simp [parseOnce, parsed, standard, lengthChecked body length, parsedSig]
      · simp [dropLast, parsedSig]
  | true =>
    rw [parsed, if_pos rfl, dropLast] at wellParsed
    refine ⟨sigInfo, ?_, rfl, by rw [parsed, if_pos rfl, dropLast, wellParsed]⟩
    simp [parseOnce, parsed, wellParsed]

include lengthChecked hashes in
theorem checkMultiSigPair_spec {sigInfo : ParsedSigInfo Sig} {pubKey : List UInt8}
    {vm : Engine Sig Key} (onTx : vm.tx = tx) (onInput : vm.txIdx = txIdx)
    (shaped : SigShaped sigInfo.signature) (wellParsed : sigInfo.WellParsed scheme)
    (keyChecked : checkPubKeyEncoding pubKey = .ok ()) (good : Good vm.sigHashReusedValues)
    (sound : SoundCache scheme vm.sigCache) :
    ∃ sigInfo' reusedValues sigCache,
      (checkMultiSigPair scheme checkSignatureLength checkPubKeyEncoding calculateSignatureHash
          sigInfo pubKey).run vm =
        .ok (sigInfo', verifies scheme sigHash sigInfo.signature pubKey)
          { vm with sigHashReusedValues := reusedValues, sigCache } ∧
      sigInfo'.signature = sigInfo.signature ∧ sigInfo'.WellParsed scheme ∧ Good reusedValues ∧
      SoundCache scheme sigCache := by
  rcases shaped with empty | ⟨body, hashType, signature, length, standard⟩
  · refine ⟨sigInfo, vm.sigHashReusedValues, vm.sigCache, ?_, rfl, wellParsed, good, sound⟩
    simp [checkMultiSigPair, verifies, empty]
  · obtain ⟨sigInfo', parsedOnce, sameSignature, wellParsed'⟩ :=
      parseOnce_of_shaped lengthChecked signature length standard wellParsed
    have last : sigInfo.signature.getLast? = some hashType := by simp [signature]
    have dropLast : sigInfo.signature.dropLast = body := by simp [signature]
    cases parsedSig : scheme.deserializeSignature body with
    | none =>
      refine ⟨sigInfo', vm.sigHashReusedValues, vm.sigCache, ?_, sameSignature, wellParsed', good,
        sound⟩
      simp [checkMultiSigPair, verifies, last, dropLast, parsedOnce, parsedSig, liftExcept,
        Except.mapError]
    | some sig =>
      cases parsedKey : scheme.deserializePubKey pubKey with
      | none =>
        refine ⟨sigInfo', vm.sigHashReusedValues, vm.sigCache, ?_, sameSignature, wellParsed', good,
          sound⟩
        simp [checkMultiSigPair, verifies, last, dropLast, parsedOnce, parsedSig, parsedKey,
          keyChecked, liftExcept, Except.mapError]
      | some key =>
        obtain ⟨hash, reusedValues, calculated, oracle, good'⟩ := hashes _ good hashType standard
        obtain ⟨valid, sound'⟩ := verifyWithCache_of_sound sound hash sig key
        refine ⟨sigInfo', reusedValues, (verifyWithCache scheme vm.sigCache hash sig key).2, ?_,
          sameSignature, wellParsed', good', sound'⟩
        simp [checkMultiSigPair, verifies, last, dropLast, parsedOnce, parsedSig, parsedKey,
          keyChecked, liftExcept, Except.mapError, onTx, onInput, calculated, oracle, valid]

include lengthChecked hashes in
theorem checkMultiSigLoop_spec (pubKeys : List (List UInt8)) (sigInfos : List (ParsedSigInfo Sig))
    (vm : Engine Sig Key) (onTx : vm.tx = tx) (onInput : vm.txIdx = txIdx)
    (keysChecked : ∀ pubKey ∈ pubKeys, checkPubKeyEncoding pubKey = .ok ())
    (sigsShaped : ∀ sigInfo ∈ sigInfos, SigShaped sigInfo.signature ∧ sigInfo.WellParsed scheme)
    (good : Good vm.sigHashReusedValues) (sound : SoundCache scheme vm.sigCache) :
    ∃ reusedValues sigCache,
      (checkMultiSigLoop scheme checkSignatureLength checkPubKeyEncoding calculateSignatureHash
          pubKeys sigInfos).run vm =
        .ok (greedyMatch (verifies scheme sigHash) (sigInfos.map (·.signature)) pubKeys)
          { vm with sigHashReusedValues := reusedValues, sigCache } ∧
      Good reusedValues ∧ SoundCache scheme sigCache := by
  -- induction on the public keys: every pass of the loop consumes one
  induction pubKeys generalizing sigInfos vm with
  | nil =>
    cases sigInfos with
    | nil => exact ⟨_, _, rfl, good, sound⟩
    | cons sigInfo sigInfos => exact ⟨_, _, rfl, good, sound⟩
  | cons pubKey pubKeys ih =>
    cases sigInfos with
    | nil => exact ⟨_, _, by simp [checkMultiSigLoop], good, sound⟩
    | cons sigInfo sigInfos =>
      by_cases tooMany : (sigInfo :: sigInfos).length > (pubKey :: pubKeys).length
      · refine ⟨_, _, ?_, good, sound⟩
        rw [checkMultiSigLoop, if_pos tooMany,
          greedyMatch_of_length_lt (by simpa using tooMany)]
        rfl
      obtain ⟨shaped, wellParsed⟩ := sigsShaped sigInfo List.mem_cons_self
      obtain ⟨sigInfo', reusedValues, sigCache, pass, sameSignature, wellParsed', good', sound'⟩ :=
        checkMultiSigPair_spec lengthChecked hashes onTx onInput shaped wellParsed
          (keysChecked pubKey List.mem_cons_self) good sound
      have keysLeft : ∀ key ∈ pubKeys, checkPubKeyEncoding key = .ok () :=
        fun key mem => keysChecked key (List.mem_cons_of_mem _ mem)
      rw [List.map_cons, greedyMatch_cons_cons]
      by_cases valid : verifies scheme sigHash sigInfo.signature pubKey = true
      · obtain ⟨reusedValues', sigCache', rest, good'', sound''⟩ :=
          ih sigInfos { vm with sigHashReusedValues := reusedValues, sigCache } onTx onInput
            keysLeft (fun s mem => sigsShaped s (List.mem_cons_of_mem _ mem)) good' sound'
        refine ⟨reusedValues', sigCache', ?_, good'', sound''⟩
        rw [checkMultiSigLoop, if_neg tooMany]
        simp [pass, valid, rest]
      · -- it did not: the same signature, now parsed, against the keys left
        have shaped' : ∀ s ∈ sigInfo' :: sigInfos, SigShaped s.signature ∧ s.WellParsed scheme := by
          intro s mem
          rcases List.mem_cons.1 mem with rfl | mem
          · exact ⟨sameSignature ▸ shaped, wellParsed'⟩
          · exact sigsShaped s (List.mem_cons_of_mem _ mem)
        obtain ⟨reusedValues', sigCache', rest, good'', sound''⟩ :=
          ih (sigInfo' :: sigInfos) { vm with sigHashReusedValues := reusedValues, sigCache }
            onTx onInput keysLeft shaped' good' sound'
        refine ⟨reusedValues', sigCache', ?_, good'', sound''⟩
        rw [List.map_cons, sameSignature] at rest
        rw [checkMultiSigLoop, if_neg tooMany]
        simp [pass, valid, rest]

omit [DecidableEq Sig] [DecidableEq Key] in
theorem wellParsed_fresh (signature : List UInt8) :
    ({ signature } : ParsedSigInfo Sig).WellParsed scheme := by
  simp [ParsedSigInfo.WellParsed]

include lengthChecked hashes in
theorem checkMultiSig_spec {vm : Engine Sig Key} {numKeysRaw numSigsRaw : List UInt8}
    {pubKeys sigs : List (List UInt8)} {rest : Stack} (onTx : vm.tx = tx)
    (onInput : vm.txIdx = txIdx)
    (stack : vm.dstack = numKeysRaw :: (pubKeys ++ numSigsRaw :: (sigs ++ rest)))
    (keyCount : makeScriptNum numKeysRaw defaultScriptNumLen = .ok pubKeys.length)
    (sigCount : makeScriptNum numSigsRaw defaultScriptNumLen = .ok sigs.length)
    (fewKeys : (pubKeys.length : Int) ≤ maxPubKeysPerMultiSig)
    (fewSigs : sigs.length ≤ pubKeys.length)
    (opsLeft : vm.numOps + pubKeys.length ≤ maxOpsPerScript)
    (keysChecked : ∀ pubKey ∈ pubKeys, checkPubKeyEncoding pubKey = .ok ())
    (sigsShaped : ∀ sig ∈ sigs, SigShaped sig)
    (good : Good vm.sigHashReusedValues) (sound : SoundCache scheme vm.sigCache) :
    ∃ reusedValues sigCache, Good reusedValues ∧ SoundCache scheme sigCache ∧
      let matched := greedyMatch (verifies scheme sigHash) sigs pubKeys
      let vm' := { vm with dstack := rest, numOps := vm.numOps + pubKeys.length,
                           sigHashReusedValues := reusedValues, sigCache }
      (checkMultiSig scheme checkSignatureLength checkPubKeyEncoding calculateSignatureHash).run vm =
        if !matched && sigs.any (fun signature => signature.length > 0) then
          .error (.script (scriptError .errNullFail
            "not all signatures empty on failed checkmultisig")) vm'
        else .ok () { vm' with dstack := pushBool rest matched } := by
  have keysPopped := onStack_popInt stack keyCount
  unfold maxPubKeysPerMultiSig at fewKeys
  have keysInRange : ScriptNum.int32 pubKeys.length = pubKeys.length :=
    int32_of_le (by unfold minInt32; omega) (by unfold maxInt32; omega)
  have sigsInRange : ScriptNum.int32 sigs.length = sigs.length :=
    int32_of_le (by unfold minInt32; omega) (by unfold maxInt32; omega)
  have pubKeysPopped := popByteArrays_append pubKeys (numSigsRaw :: (sigs ++ rest))
    { vm with dstack := pubKeys ++ numSigsRaw :: (sigs ++ rest),
              numOps := vm.numOps + pubKeys.length } rfl
  have sigsCounted : (onStack popInt).run
      { vm with dstack := numSigsRaw :: (sigs ++ rest), numOps := vm.numOps + pubKeys.length } =
        .ok sigs.length { vm with dstack := sigs ++ rest, numOps := vm.numOps + pubKeys.length } :=
    onStack_popInt rfl sigCount
  have sigsPopped := popByteArrays_append sigs rest
    { vm with dstack := sigs ++ rest, numOps := vm.numOps + pubKeys.length } rfl
  have freshShaped : ∀ sigInfo ∈ sigs.map (fun signature => ({ signature } : ParsedSigInfo Sig)),
      SigShaped sigInfo.signature ∧ sigInfo.WellParsed scheme := by
    simp only [List.mem_map]
    rintro _ ⟨signature, mem, rfl⟩
    exact ⟨sigsShaped signature mem, wellParsed_fresh signature⟩
  obtain ⟨reusedValues, sigCache, looped, good', sound'⟩ := checkMultiSigLoop_spec lengthChecked hashes
    pubKeys (sigs.map fun signature => ({ signature } : ParsedSigInfo Sig))
    { vm with dstack := rest, numOps := vm.numOps + pubKeys.length } onTx onInput
    keysChecked freshShaped good sound
  have keysNonneg : ¬ (pubKeys.length : Int) < 0 := by omega
  have keysFew : ¬ maxPubKeysPerMultiSig < pubKeys.length := by
    unfold maxPubKeysPerMultiSig
    omega
  have opsFew : ¬ maxOpsPerScript < vm.numOps + pubKeys.length := by omega
  have sigsNonneg : ¬ (sigs.length : Int) < 0 := by omega
  have sigsFew : ¬ (pubKeys.length : Int) < sigs.length := by omega
  have signaturesBack :
      (sigs.map fun signature => ({ signature } : ParsedSigInfo Sig)).map (·.signature) = sigs := by
    rw [List.map_map]
    exact List.map_id sigs
  rw [signaturesBack] at looped
  refine ⟨reusedValues, sigCache, good', sound', ?_⟩
  simp [checkMultiSig, keysPopped, keysInRange, keysNonneg, keysFew, opsFew, pubKeysPopped,
    sigsCounted, sigsInRange, sigsNonneg, sigsFew, sigsPopped, looped]
  split <;> simp

end Opcode

variable (w : HashWriters)

def opcodeCheckMultiSig (schnorr : SignatureScheme Sig Key) :
    EStateM OpcodeError (Engine Sig Key) Unit :=
  checkMultiSig schnorr checkSignatureLength checkPubKeyEncoding (calculateSignatureHashSchnorr w)

def opcodeCheckMultiSigECDSA (ecdsa : SignatureScheme Sig Key) :
    EStateM OpcodeError (Engine Sig Key) Unit :=
  checkMultiSig ecdsa checkSignatureLengthECDSA checkPubKeyEncodingECDSA
    (calculateSignatureHashECDSA w)

/-! ## What the opcodes are for -/

/-- The signatures match public keys in order under V: a strictly increasing map from the
positions of the signatures to those of the public keys takes each signature to a key it verifies
against. -/
def InOrderMatch (V : List UInt8 → List UInt8 → Bool) (sigs pubKeys : List (List UInt8)) : Prop :=
  ∃ f : Fin sigs.length → Fin pubKeys.length, StrictMono f ∧
    ∀ i, V (sigs.get i) (pubKeys.get (f i)) = true

def MultiSigOutcome (V : List UInt8 → List UInt8 → Bool) (sigs pubKeys : List (List UInt8))
    (rest : Stack) (result : EStateM.Result OpcodeError (Engine Sig Key) Unit) : Prop :=
  (InOrderMatch V sigs pubKeys → ∃ vm, result = .ok () vm ∧ vm.dstack = fromBool true :: rest) ∧
  (¬ InOrderMatch V sigs pubKeys → (∃ sig ∈ sigs, sig ≠ []) →
    ∃ vm, result = .error (.script (scriptError .errNullFail
      "not all signatures empty on failed checkmultisig")) vm) ∧
  (¬ InOrderMatch V sigs pubKeys → (∀ sig ∈ sigs, sig = []) →
    ∃ vm, result = .ok () vm ∧ vm.dstack = fromBool false :: rest)

omit [DecidableEq Sig] [DecidableEq Key] in
theorem greedyMatch_iff_inOrderMatch (V : List UInt8 → List UInt8 → Bool)
    (sigs pubKeys : List (List UInt8)) :
    greedyMatch V sigs pubKeys = true ↔ InOrderMatch V sigs pubKeys :=
  (greedyMatch_iff sigs pubKeys).trans sublistForall₂_iff_exists_strictMono

omit [DecidableEq Sig] [DecidableEq Key] in
theorem multiSigOutcome_of_greedyMatch {V : List UInt8 → List UInt8 → Bool}
    {sigs pubKeys : List (List UInt8)} {rest : Stack} {vm : Engine Sig Key}
    {result : EStateM.Result OpcodeError (Engine Sig Key) Unit}
    (ran : result =
      if !greedyMatch V sigs pubKeys && sigs.any (fun signature => signature.length > 0) then
        .error (.script (scriptError .errNullFail
          "not all signatures empty on failed checkmultisig")) vm
      else .ok () { vm with dstack := pushBool rest (greedyMatch V sigs pubKeys) }) :
    MultiSigOutcome V sigs pubKeys rest result := by
  refine ⟨fun matched => ?_, fun unmatched nonEmpty => ?_, fun unmatched allEmpty => ?_⟩
  · rw [(greedyMatch_iff_inOrderMatch V sigs pubKeys).2 matched] at ran
    exact ⟨_, by simpa using ran, rfl⟩
  all_goals
    have failed : greedyMatch V sigs pubKeys = false :=
      Bool.eq_false_iff.2 fun matched => unmatched ((greedyMatch_iff_inOrderMatch V sigs pubKeys).1 matched)
    rw [failed] at ran
  · obtain ⟨sig, mem, notEmpty⟩ := nonEmpty
    have anyNonEmpty : sigs.any (fun signature => signature.length > 0) = true :=
      List.any_eq_true.2 ⟨sig, mem, by simpa [List.length_pos_iff] using notEmpty⟩
    rw [anyNonEmpty] at ran
    exact ⟨_, ran⟩
  · have noneNonEmpty : sigs.any (fun signature => signature.length > 0) = false := by
      simpa using fun sig mem => allEmpty sig mem
    rw [noneNonEmpty] at ran
    exact ⟨_, ran, rfl⟩

def schnorrVerifies (schnorr : SignatureScheme Sig Key) (tx : DomainTransaction) (txIdx : Int) :
    List UInt8 → List UInt8 → Bool :=
  verifies schnorr fun hashType =>
    (calculateSignatureHashSchnorr w tx txIdx hashType freshReusedValues).map Prod.fst

def ecdsaVerifies (ecdsa : SignatureScheme Sig Key) (tx : DomainTransaction) (txIdx : Int) :
    List UInt8 → List UInt8 → Bool :=
  verifies ecdsa fun hashType =>
    (calculateSignatureHashECDSA w tx txIdx hashType freshReusedValues).map Prod.fst

structure MultiSigReady (scheme : SignatureScheme Sig Key) (keyLength : Nat) (vm : Engine Sig Key)
    (pubKeys sigs : List (List UInt8)) (rest : Stack) : Prop where
  stack : ∃ numKeysRaw numSigsRaw,
    vm.dstack = numKeysRaw :: (pubKeys ++ numSigsRaw :: (sigs ++ rest)) ∧
    makeScriptNum numKeysRaw defaultScriptNumLen = .ok pubKeys.length ∧
    makeScriptNum numSigsRaw defaultScriptNumLen = .ok sigs.length
  fewKeys : (pubKeys.length : Int) ≤ maxPubKeysPerMultiSig
  fewSigs : sigs.length ≤ pubKeys.length
  opsLeft : vm.numOps + pubKeys.length ≤ maxOpsPerScript
  keyLengths : ∀ pubKey ∈ pubKeys, pubKey.length = keyLength
  sigsShaped : ∀ sig ∈ sigs, SigShaped sig
  input : ∃ txIn utxoEntry, sliceIndex vm.tx.inputs vm.txIdx = .ok txIn ∧
    txIn.utxoEntry = some utxoEntry
  consistent : Consistent w vm.tx vm.sigHashReusedValues
  sound : SoundCache scheme vm.sigCache

theorem multiSigOutcome_of_ready {scheme : SignatureScheme Sig Key}
    {checkSignatureLength checkPubKeyEncoding : List UInt8 → Except ScriptError Unit} {keyLength : Nat}
    (lengthChecked : ∀ signature : List UInt8, signature.length = 64 →
      checkSignatureLength signature = .ok ())
    (keyChecked : ∀ pubKey : List UInt8, pubKey.length = keyLength →
      checkPubKeyEncoding pubKey = .ok ())
    (ecdsa : Bool) {vm : Engine Sig Key} {pubKeys sigs : List (List UInt8)} {rest : Stack}
    (ready : MultiSigReady w scheme keyLength vm pubKeys sigs rest) :
    MultiSigOutcome (verifies scheme fun hashType =>
        (SighashCall.run w vm.tx ⟨vm.txIdx, hashType, ecdsa⟩ freshReusedValues).map Prod.fst)
      sigs pubKeys rest
      ((checkMultiSig scheme checkSignatureLength checkPubKeyEncoding
        fun tx txIdx hashType reusedValues =>
          SighashCall.run w tx ⟨txIdx, hashType, ecdsa⟩ reusedValues).run vm) := by
  obtain ⟨numKeysRaw, numSigsRaw, stack, keyCount, sigCount⟩ := ready.stack
  obtain ⟨txIn, utxoEntry, found, entry⟩ := ready.input
  obtain ⟨reusedValues, sigCache, -, -, ran⟩ := @checkMultiSig_spec _ _ _ _ scheme
    checkSignatureLength checkPubKeyEncoding
    (fun tx txIdx hashType reusedValues => SighashCall.run w tx ⟨txIdx, hashType, ecdsa⟩ reusedValues)
    (Consistent w vm.tx)
    (fun hashType => (SighashCall.run w vm.tx ⟨vm.txIdx, hashType, ecdsa⟩ freshReusedValues).map
      Prod.fst)
    vm.tx vm.txIdx lengthChecked
    (fun _ consistent _ standard => run_ok_of_consistent w vm.tx ecdsa standard found entry consistent)
    vm numKeysRaw numSigsRaw pubKeys sigs rest rfl rfl stack keyCount sigCount ready.fewKeys
    ready.fewSigs ready.opsLeft
    (fun pubKey mem => keyChecked pubKey (ready.keyLengths pubKey mem)) ready.sigsShaped
    ready.consistent ready.sound
  exact multiSigOutcome_of_greedyMatch ran

theorem opcodeCheckMultiSig_matches_in_order :
    (∀ (schnorr : SignatureScheme Sig Key) (vm : Engine Sig Key) (pubKeys sigs : List (List UInt8))
        (rest : Stack), MultiSigReady w schnorr 32 vm pubKeys sigs rest →
      MultiSigOutcome (schnorrVerifies w schnorr vm.tx vm.txIdx) sigs pubKeys rest
        ((opcodeCheckMultiSig w schnorr).run vm)) ∧
    (∀ (ecdsa : SignatureScheme Sig Key) (vm : Engine Sig Key) (pubKeys sigs : List (List UInt8))
        (rest : Stack), MultiSigReady w ecdsa 33 vm pubKeys sigs rest →
      MultiSigOutcome (ecdsaVerifies w ecdsa vm.tx vm.txIdx) sigs pubKeys rest
        ((opcodeCheckMultiSigECDSA w ecdsa).run vm)) :=
  ⟨fun _ _ _ _ _ ready => multiSigOutcome_of_ready w
      (fun _ length => by simp [checkSignatureLength, checkSigLength, length])
      (fun _ length => by simp [checkPubKeyEncoding, checkPubKeyLength, length]) false ready,
    fun _ _ _ _ _ ready => multiSigOutcome_of_ready w
      (fun _ length => by simp [checkSignatureLengthECDSA, checkSigLength, length])
      (fun _ length => by simp [checkPubKeyEncodingECDSA, checkPubKeyLength, length]) true ready⟩

def acceptingScheme : SignatureScheme (List UInt8) (List UInt8) := ⟨some, some, fun _ _ _ => true⟩

def constantHashWriters : HashWriters := ⟨fun _ => ⟨0⟩, id⟩

def oneInputTransaction : DomainTransaction :=
  { id := ⟨0⟩, inputs := [⟨⟨⟨0⟩, 0⟩, [], 0, 0, some ⟨0, ⟨[], 0⟩, 0, false⟩⟩], outputs := [],
    subnetworkID := subnetworkIDNative, fee := 0, mass := 0, version := 0, lockTime := 0, gas := 0,
    payload := [] }

def oneOfOneEngine (keyLength : Nat) : Engine (List UInt8) (List UInt8) :=
  ⟨[[1], List.replicate keyLength 0, [1], List.replicate 64 0 ++ [sigHashAll]], oneInputTransaction,
    0, 1, none, freshReusedValues⟩

theorem oneOfOneEngine_ready (keyLength : Nat) :
    MultiSigReady constantHashWriters acceptingScheme keyLength (oneOfOneEngine keyLength)
      [List.replicate keyLength 0] [List.replicate 64 0 ++ [sigHashAll]] [] := by
  have shaped : ∀ sig ∈ [List.replicate 64 0 ++ [sigHashAll]], SigShaped sig := by
    intro sig mem
    rw [List.mem_singleton] at mem
    exact .inr ⟨List.replicate 64 0, sigHashAll, mem, by simp, by decide⟩
  exact ⟨⟨[1], [1], rfl, rfl, rfl⟩, by simp [maxPubKeysPerMultiSig], by simp,
    by simp [oneOfOneEngine, maxOpsPerScript], by simp, shaped, ⟨_, _, rfl, rfl⟩,
    consistent_fresh _ _, trivial⟩

theorem opcodeCheckMultiSig_matches_in_order_one_of_one :
    MultiSigReady constantHashWriters acceptingScheme 32 (oneOfOneEngine 32)
        [List.replicate 32 0] [List.replicate 64 0 ++ [sigHashAll]] [] ∧
      MultiSigOutcome (schnorrVerifies constantHashWriters acceptingScheme oneInputTransaction 0)
        [List.replicate 64 0 ++ [sigHashAll]] [List.replicate 32 0] []
        ((opcodeCheckMultiSig constantHashWriters acceptingScheme).run (oneOfOneEngine 32)) ∧
      MultiSigReady constantHashWriters acceptingScheme 33 (oneOfOneEngine 33)
        [List.replicate 33 0] [List.replicate 64 0 ++ [sigHashAll]] [] ∧
      MultiSigOutcome (ecdsaVerifies constantHashWriters acceptingScheme oneInputTransaction 0)
        [List.replicate 64 0 ++ [sigHashAll]] [List.replicate 33 0] []
        ((opcodeCheckMultiSigECDSA constantHashWriters acceptingScheme).run (oneOfOneEngine 33)) :=
  ⟨oneOfOneEngine_ready 32,
    (opcodeCheckMultiSig_matches_in_order constantHashWriters).1 _ _ _ _ _ (oneOfOneEngine_ready 32),
    oneOfOneEngine_ready 33,
    (opcodeCheckMultiSig_matches_in_order constantHashWriters).2 _ _ _ _ _ (oneOfOneEngine_ready 33)⟩

/-- Two public keys and no signatures, with 200 operations counted so far: nothing is left to
match, but the keys are counted against the limit before the signatures are read. -/
theorem opcodeCheckMultiSig_exceeds_operation_limit :
    InOrderMatch (schnorrVerifies constantHashWriters acceptingScheme oneInputTransaction 0) []
        [List.replicate 32 0, List.replicate 32 0] ∧
      (opcodeCheckMultiSig constantHashWriters acceptingScheme).run
          ⟨[2] :: List.replicate 32 0 :: List.replicate 32 0 :: [] :: [], oneInputTransaction, 0, 200,
            none, freshReusedValues⟩ =
        .error (.script (scriptError .errTooManyOperations "exceeded max operation limit of 201"))
          ⟨List.replicate 32 0 :: List.replicate 32 0 :: [] :: [], oneInputTransaction, 0, 202, none,
            freshReusedValues⟩ :=
  ⟨⟨Fin.elim0, fun i => i.elim0, fun i => i.elim0⟩, rfl⟩

end Txscript
