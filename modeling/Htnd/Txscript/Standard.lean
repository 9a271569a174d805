import Htnd.Txscript.ScriptBuilder
import Htnd.Util.Address
import Htnd.Utxo.Collection

/-!
Standard scripts (txscript/standard.go and isScriptHash of script.go): the script PayToAddrScript
writes for each of the three address types, and ExtractScriptPubKeyAddress, which recognises the
three templates by the values of the parsed opcodes and rebuilds the address from the data they
push.

The builder writes a 32-byte key or hash with OP_DATA_32 and a 33-byte key with OP_DATA_33, the
opcodes the templates ask for; and no other byte of the opcode table has the value of an opcode
of a template, so a script that is recognised is, byte for byte, the one its address writes.
-/
namespace Txscript
open Util GoSemantics
open Utxo (ScriptPublicKey)

def opData32 : UInt8 := 0x20

def opData33 : UInt8 := 0x21

def opEqual : UInt8 := 0x87

def opBlake2b : UInt8 := 0xaa

def opCheckSigECDSA : UInt8 := 0xab

def opCheckSig : UInt8 := 0xac

def maxScriptPublicKeyVersion : UInt16 := 0

inductive ScriptClass where
  | nonStandardTy
  | pubKeyTy
  | pubKeyECDSATy
  | scriptHashTy
  deriving DecidableEq, Repr

def isPushThenCheck (push check : UInt8) : List ParsedOpcode → Bool
  | [key, op] => key.opcode.value = push && op.opcode.value = check
  | _ => false

def isPayToPubkey : List ParsedOpcode → Bool := isPushThenCheck opData32 opCheckSig

def isPayToPubkeyECDSA : List ParsedOpcode → Bool := isPushThenCheck opData33 opCheckSigECDSA

def isScriptHash : List ParsedOpcode → Bool
  | [hashOp, hash, equal] =>
    hashOp.opcode.value = opBlake2b && hash.opcode.value = opData32 && equal.opcode.value = opEqual
  | _ => false

def typeOfScript (pops : List ParsedOpcode) : ScriptClass :=
  if isPayToPubkey pops then .pubKeyTy
  else if isPayToPubkeyECDSA pops then .pubKeyECDSATy
  else if isScriptHash pops then .scriptHashTy
  else .nonStandardTy

def payToPubKeyScript (pubKey : List UInt8) : List UInt8 × Option String :=
  ((newScriptBuilder.AddData pubKey).AddOp opCheckSig).Script

def payToPubKeyScriptECDSA (pubKey : List UInt8) : List UInt8 × Option String :=
  ((newScriptBuilder.AddData pubKey).AddOp opCheckSigECDSA).Script

def payToScriptHashScript (scriptHash : List UInt8) : List UInt8 × Option String :=
  (((newScriptBuilder.AddOp opBlake2b).AddData scriptHash).AddOp opEqual).Script

def addressPublicKeyScriptPublicKeyVersion : UInt16 := 0

def addressPublicKeyECDSAScriptPublicKeyVersion : UInt16 := 0

def addressScriptHashScriptPublicKeyVersion : UInt16 := 0

def scriptPublicKeyOf (built : List UInt8 × Option String) (version : UInt16) :
    Except String ScriptPublicKey :=
  match built with
  | (_, some err) => .error err
  | (script, none) => .ok ⟨script, version⟩

def PayToAddrScript (addr : Address) : Except String ScriptPublicKey :=
  match addr with
  | .publicKey _ =>
    scriptPublicKeyOf (payToPubKeyScript addr.ScriptAddress) addressPublicKeyScriptPublicKeyVersion
  | .publicKeyECDSA _ =>
    scriptPublicKeyOf (payToPubKeyScriptECDSA addr.ScriptAddress)
      addressPublicKeyECDSAScriptPublicKeyVersion
  | .scriptHash _ =>
    scriptPublicKeyOf (payToScriptHashScript addr.ScriptAddress)
      addressScriptHashScriptPublicKeyVersion

/-- ExtractScriptPubKeyAddress, for the prefix of the network parameters. The address of a
    standard script is made from the data of its pops[0] or pops[1], and left nil when the data
    has another length than the address type's array. -/
def ExtractScriptPubKeyAddress (scriptPubKey : ScriptPublicKey) (dagParamsPrefix : Bech32Prefix) :
    Except Panic (ScriptClass × Option Address × Option ScriptError) := do
  if scriptPubKey.version > maxScriptPublicKeyVersion then return (.nonStandardTy, none, none)
  match parseScript scriptPubKey.script with
  | (_, some err) => return (.nonStandardTy, none, some err)
  | (pops, none) =>
    let scriptClass := typeOfScript pops
    match scriptClass with
    | .pubKeyTy =>
      let pop ← sliceIndex pops 0
      match NewAddressPublicKey pop.data dagParamsPrefix with
      | .ok addr => return (scriptClass, some (.publicKey addr), none)
      | .error _ => return (scriptClass, none, none)
    | .pubKeyECDSATy =>
      let pop ← sliceIndex pops 0
      match NewAddressPublicKeyECDSA pop.data dagParamsPrefix with
      | .ok addr => return (scriptClass, some (.publicKeyECDSA addr), none)
      | .error _ => return (scriptClass, none, none)
    | .scriptHashTy =>
      let pop ← sliceIndex pops 1
      match NewAddressScriptHashFromHash pop.data dagParamsPrefix with
      | .ok addr => return (scriptClass, some (.scriptHash addr), none)
      | .error _ => return (scriptClass, none, none)
    | .nonStandardTy => return (.nonStandardTy, none, none)

/-! ### What PayToAddrScript writes, and how it parses -/

theorem pushThenCheck_Script {data : List UInt8} (two : 2 ≤ data.length) (short : data.length < 76)
    (check : UInt8) :
    ((newScriptBuilder.AddData data).AddOp check).Script =
      (UInt8.ofNat data.length :: data ++ [check], none) := by
  have pushed := @AddData_short newScriptBuilder data rfl two short
    (by simp only [newScriptBuilder, maxScriptSize, List.length_nil]; omega)
  have room : (newScriptBuilder.AddData data).script.length + 1 ≤ maxScriptSize := by
    rw [pushed]
    simp only [newScriptBuilder, maxScriptSize, List.nil_append, List.length_cons]
    omega
  rw [AddOp_of_room (by rw [pushed]; rfl) room, pushed]
  rfl

theorem payToScriptHashScript_eq {scriptHash : List UInt8} (size : scriptHash.length = 32) :
    payToScriptHashScript scriptHash =
      (opBlake2b :: UInt8.ofNat 32 :: scriptHash ++ [opEqual], none) := by
  have hashOp := @AddOp_of_room newScriptBuilder rfl (by decide) opBlake2b
  have pushed := @AddData_short (newScriptBuilder.AddOp opBlake2b) scriptHash (by rw [hashOp]; rfl)
    (by omega) (by omega)
    (by rw [hashOp, size]; decide)
  have room : ((newScriptBuilder.AddOp opBlake2b).AddData scriptHash).script.length + 1 ≤
      maxScriptSize := by
    rw [pushed, hashOp]
    simp only [newScriptBuilder, maxScriptSize, List.nil_append, List.length_append,
      List.length_cons, List.length_nil, size]
    omega
  rw [payToScriptHashScript, AddOp_of_room (by rw [pushed, hashOp]; rfl) room, pushed, hashOp, size]
  rfl

theorem parseScript_pushThenCheck {data : List UInt8} (positive : 0 < data.length)
    (short : data.length < 76) {check : UInt8} (one : opcodeLength check = 1) :
    parseScript (UInt8.ofNat data.length :: data ++ [check]) =
      ([⟨opcodeArray (UInt8.ofNat data.length), data⟩, ⟨opcodeArray check, []⟩], none) := by
  rw [List.cons_append, parseScript_cons (parseOpcode_direct positive short [check]),
    parseScript_of_parseOpcode (parseOpcode_of_length_one one [])]

theorem parseScript_scriptHash {hash : List UInt8} (size : hash.length = 32) :
    parseScript (opBlake2b :: UInt8.ofNat 32 :: hash ++ [opEqual]) =
      ([⟨opcodeArray opBlake2b, []⟩, ⟨opcodeArray (UInt8.ofNat 32), hash⟩, ⟨opcodeArray opEqual, []⟩],
        none) := by
  have direct := parseOpcode_direct (by omega : 0 < hash.length) (by omega) [opEqual]
  rw [size] at direct
  rw [List.cons_append, List.cons_append, parseScript_cons (parseOpcode_of_length_one (by decide) _),
    parseScript_cons direct, parseScript_of_parseOpcode (parseOpcode_of_length_one (by decide) [])]

theorem PayToAddrScript_publicKey (a : AddressPublicKey) :
    PayToAddrScript (.publicKey a) = .ok ⟨opData32 :: a.bytes ++ [opCheckSig], 0⟩ := by
  have size : a.bytes.length = 32 := a.length_bytes
  have written := pushThenCheck_Script (by omega : 2 ≤ a.bytes.length) (by omega) opCheckSig
  rw [size] at written
  simp only [PayToAddrScript, Address.ScriptAddress, payToPubKeyScript, written]
  rfl

theorem PayToAddrScript_publicKeyECDSA (a : AddressPublicKeyECDSA) :
    PayToAddrScript (.publicKeyECDSA a) = .ok ⟨opData33 :: a.bytes ++ [opCheckSigECDSA], 0⟩ := by
  have size : a.bytes.length = 33 := a.length_bytes
  have written := pushThenCheck_Script (by omega : 2 ≤ a.bytes.length) (by omega) opCheckSigECDSA
  rw [size] at written
  simp only [PayToAddrScript, Address.ScriptAddress, payToPubKeyScriptECDSA, written]
  rfl

theorem PayToAddrScript_scriptHash (a : AddressScriptHash) :
    PayToAddrScript (.scriptHash a) = .ok ⟨opBlake2b :: opData32 :: a.bytes ++ [opEqual], 0⟩ := by
  simp only [PayToAddrScript, Address.ScriptAddress, payToScriptHashScript_eq a.length_bytes]
  rfl

/-! ### ExtractScriptPubKeyAddress reads back what PayToAddrScript wrote -/

def matchingScriptClass : Address → ScriptClass
  | .publicKey _ => .pubKeyTy
  | .publicKeyECDSA _ => .pubKeyECDSATy
  | .scriptHash _ => .scriptHashTy

theorem typeOfScript_pubKey (key : List UInt8) :
    typeOfScript [⟨opcodeArray opData32, key⟩, ⟨opcodeArray opCheckSig, []⟩] = .pubKeyTy :=
  rfl

theorem typeOfScript_pubKeyECDSA (key : List UInt8) :
    typeOfScript [⟨opcodeArray opData33, key⟩, ⟨opcodeArray opCheckSigECDSA, []⟩] =
      .pubKeyECDSATy :=
  rfl

theorem typeOfScript_scriptHash (hash : List UInt8) :
    typeOfScript [⟨opcodeArray opBlake2b, []⟩, ⟨opcodeArray (UInt8.ofNat 32), hash⟩,
      ⟨opcodeArray opEqual, []⟩] = .scriptHashTy :=
  rfl

theorem version_not_above : ¬ (0 : UInt16) > maxScriptPublicKeyVersion := by decide

theorem ExtractScriptPubKeyAddress_PayToAddrScript (a : Address) :
    ∃ spk, PayToAddrScript a = .ok spk ∧
      ExtractScriptPubKeyAddress spk a.Prefix = .ok (matchingScriptClass a, some a, none) := by
  cases a with
  | publicKey a =>
    have size : a.bytes.length = 32 := a.length_bytes
    have parsed := parseScript_pushThenCheck (by omega : 0 < a.bytes.length) (by omega)
      (show opcodeLength opCheckSig = 1 by decide)
    have made : NewAddressPublicKey a.bytes a.pfx = .ok a := newFixedAddress_bytes _ a
    rw [size, show UInt8.ofNat 32 = opData32 from rfl] at parsed
    refine ⟨_, PayToAddrScript_publicKey a, ?_⟩
    simp only [ExtractScriptPubKeyAddress, parsed, typeOfScript_pubKey, if_neg version_not_above,
      sliceIndex_zero_cons, bind, Except.bind, Address.Prefix, made]
    rfl
  | publicKeyECDSA a =>
    have size : a.bytes.length = 33 := a.length_bytes
    have parsed := parseScript_pushThenCheck (by omega : 0 < a.bytes.length) (by omega)
      (show opcodeLength opCheckSigECDSA = 1 by decide)
    have made : NewAddressPublicKeyECDSA a.bytes a.pfx = .ok a := newFixedAddress_bytes _ a
    rw [size, show UInt8.ofNat 33 = opData33 from rfl] at parsed
    refine ⟨_, PayToAddrScript_publicKeyECDSA a, ?_⟩
    simp only [ExtractScriptPubKeyAddress, parsed, typeOfScript_pubKeyECDSA, if_neg version_not_above,
      sliceIndex_zero_cons, bind, Except.bind, Address.Prefix, made]
    rfl
  | scriptHash a =>
    have made : NewAddressScriptHashFromHash a.bytes a.pfx = .ok a := newFixedAddress_bytes _ a
    have second : sliceIndex [(⟨opcodeArray opBlake2b, []⟩ : ParsedOpcode),
        ⟨opcodeArray (UInt8.ofNat 32), a.bytes⟩, ⟨opcodeArray opEqual, []⟩] 1 =
        .ok ⟨opcodeArray (UInt8.ofNat 32), a.bytes⟩ :=
      sliceIndex_of_lt (by simp)
    refine ⟨_, PayToAddrScript_scriptHash a, ?_⟩
    simp only [ExtractScriptPubKeyAddress, show opData32 = UInt8.ofNat 32 from rfl,
      parseScript_scriptHash a.length_bytes, typeOfScript_scriptHash, if_neg version_not_above,
      second, bind, Except.bind, Address.Prefix, made]
    rfl

/-! ### A recognised script is the one its address pays to -/

def templateOpcodes : List UInt8 := [opData32, opData33, opCheckSig, opCheckSigECDSA, opBlake2b, opEqual]

theorem templateOpcodes_own : ∀ v ∈ templateOpcodes,
    (v < 0xbc ∨ 0xc5 < v) ∧ opcodeValue v = v ∧ (opcodeLength v = 1 ∨ opcodeLength v > 1) := by
  intro v mem
  simp only [templateOpcodes, List.mem_cons, List.not_mem_nil, or_false] at mem
  rcases mem with rfl | rfl | rfl | rfl | rfl | rfl <;> decide

theorem bytes_template {pop : ParsedOpcode} {v : UInt8} {bytes : List UInt8}
    (opEq : pop.opcode = opcodeArray v) (template : v ∈ templateOpcodes)
    (encoded : pop.bytes = .ok bytes) : bytes = pop.opcode.value :: pop.data := by
  obtain ⟨op, data⟩ := pop
  simp only at opEq ⊢
  subst opEq
  rcases (templateOpcodes_own v template).2.2 with one | direct
  · obtain ⟨rfl, rfl⟩ := bytes_eq_ok_of_length_one one encoded
    rfl
  · exact (bytes_eq_ok_of_direct direct encoded).1

theorem template_entry {script : List UInt8} {pops : List ParsedOpcode}
    (parsed : parseScript script = (pops, none)) {pop : ParsedOpcode} (mem : pop ∈ pops)
    (template : pop.opcode.value ∈ templateOpcodes) :
    pop.opcode = opcodeArray pop.opcode.value ∧ ∃ b, pop.bytes = .ok b := by
  obtain ⟨b, opEq, encoded⟩ := mem_parseScript pop (by rw [parsed]; exact mem)
  have valueEq : opcodeValue b = pop.opcode.value := by rw [opEq]; rfl
  have own : b = opcodeValue b :=
    (eq_of_opcodeValue_eq valueEq (templateOpcodes_own _ template).1).trans valueEq.symm
  exact ⟨by rw [opEq, opcodeArray_value, ← own], encoded⟩

theorem template_data_nil {script : List UInt8} {pops : List ParsedOpcode}
    (parsed : parseScript script = (pops, none)) {pop : ParsedOpcode} (mem : pop ∈ pops)
    (template : pop.opcode.value ∈ templateOpcodes) (one : opcodeLength pop.opcode.value = 1) :
    pop.data = [] := by
  obtain ⟨opEq, b, encoded⟩ := template_entry parsed mem template
  obtain ⟨op, data⟩ := pop
  simp only at opEq one encoded ⊢
  rw [opEq] at encoded
  exact (bytes_eq_ok_of_length_one one encoded).1

theorem script_of_template {script : List UInt8} {pops : List ParsedOpcode}
    (parsed : parseScript script = (pops, none)) (values : ∀ pop ∈ pops, pop.opcode.value ∈ templateOpcodes) :
    script = pops.flatMap fun pop => pop.opcode.value :: pop.data := by
  have entries : ∀ pop ∈ pops, pop.opcode = opcodeArray pop.opcode.value ∧ ∃ b, pop.bytes = .ok b :=
    fun pop mem => template_entry parsed mem (values pop mem)
  have unparsed := unparseScript_of_parseScript parsed (fun pop mem b same =>
    eq_of_opcodeValue_eq same (templateOpcodes_own _ (values pop mem)).1)
  clear parsed
  induction pops generalizing script with
  | nil => cases unparsed; rfl
  | cons pop pops ih =>
    obtain ⟨b, rest, encoded, restUnparsed, rfl⟩ := unparseScript_cons_ok unparsed
    rw [List.flatMap_cons, bytes_template (entries pop List.mem_cons_self).1
      (values pop List.mem_cons_self) encoded,
      ih (fun p mem => values p (List.mem_cons_of_mem _ mem))
        (fun p mem => entries p (List.mem_cons_of_mem _ mem)) restUnparsed]

theorem script_of_pushThenCheck {script : List UInt8} {key op : ParsedOpcode} {push check : UInt8}
    (parsed : parseScript script = ([key, op], none)) (keyValue : key.opcode.value = push)
    (opValue : op.opcode.value = check) (pushTemplate : push ∈ templateOpcodes)
    (checkTemplate : check ∈ templateOpcodes) (one : opcodeLength check = 1) :
    script = push :: key.data ++ [check] := by
  have shape := script_of_template parsed (fun pop mem => by
    rcases List.mem_pair.1 mem with rfl | rfl
    · exact keyValue ▸ pushTemplate
    · exact opValue ▸ checkTemplate)
  have opData := template_data_nil parsed (List.mem_cons_of_mem _ List.mem_cons_self)
    (opValue ▸ checkTemplate) (opValue ▸ one)
  simp only [shape, List.flatMap_cons, List.flatMap_nil, List.append_nil, keyValue, opValue, opData,
    List.cons_append]

theorem script_of_scriptHash {script : List UInt8} {hashOp hash equal : ParsedOpcode}
    (parsed : parseScript script = ([hashOp, hash, equal], none))
    (hashOpValue : hashOp.opcode.value = opBlake2b) (hashValue : hash.opcode.value = opData32)
    (equalValue : equal.opcode.value = opEqual) :
    script = opBlake2b :: opData32 :: hash.data ++ [opEqual] := by
  have shape := script_of_template parsed (fun pop mem => by
    simp only [List.mem_cons, List.not_mem_nil, or_false] at mem
    rcases mem with rfl | rfl | rfl
    · rw [hashOpValue]; decide
    · rw [hashValue]; decide
    · rw [equalValue]; decide)
  have hashOpData := template_data_nil parsed List.mem_cons_self (by rw [hashOpValue]; decide)
    (by rw [hashOpValue]; decide)
  have equalData := template_data_nil parsed
    (List.mem_cons_of_mem _ (List.mem_cons_of_mem _ List.mem_cons_self)) (by rw [equalValue]; decide)
    (by rw [equalValue]; decide)
  simp only [shape, List.flatMap_cons, List.flatMap_nil, List.append_nil, hashOpValue, hashValue,
    equalValue, hashOpData, equalData, List.cons_append, List.nil_append]

theorem isPushThenCheck_eq_true {push check : UInt8} {pops : List ParsedOpcode}
    (shape : isPushThenCheck push check pops = true) :
    ∃ key op, pops = [key, op] ∧ key.opcode.value = push ∧ op.opcode.value = check := by
  match pops, shape with
  | [key, op], shape =>
    simp only [isPushThenCheck, Bool.and_eq_true, decide_eq_true_eq] at shape
    exact ⟨key, op, rfl, shape⟩

theorem isScriptHash_eq_true {pops : List ParsedOpcode} (shape : isScriptHash pops = true) :
    ∃ hashOp hash equal, pops = [hashOp, hash, equal] ∧ hashOp.opcode.value = opBlake2b ∧
      hash.opcode.value = opData32 ∧ equal.opcode.value = opEqual := by
  match pops, shape with
  | [hashOp, hash, equal], shape =>
    simp only [isScriptHash, Bool.and_eq_true, decide_eq_true_eq] at shape
    exact ⟨hashOp, hash, equal, rfl, shape.1.1, shape.1.2, shape.2⟩

theorem typeOfScript_cases (pops : List ParsedOpcode) :
    (typeOfScript pops = .pubKeyTy → isPayToPubkey pops = true) ∧
      (typeOfScript pops = .pubKeyECDSATy → isPayToPubkeyECDSA pops = true) ∧
      (typeOfScript pops = .scriptHashTy → isScriptHash pops = true) := by
  unfold typeOfScript
  split_ifs <;> simp_all

theorem PayToAddrScript_of_ExtractScriptPubKeyAddress {spk : ScriptPublicKey} {pfx : Bech32Prefix}
    {cls : ScriptClass} {a : Address} {err : Option ScriptError} (version0 : spk.version = 0)
    (extracted : ExtractScriptPubKeyAddress spk pfx = .ok (cls, some a, err)) :
    cls = matchingScriptClass a ∧ PayToAddrScript a = .ok spk := by
  obtain ⟨script, version⟩ := spk
  simp only at version0
  subst version0
  obtain ⟨pops, parsed⟩ : ∃ pops, parseScript script = (pops, none) := by
    rcases h : parseScript script with ⟨pops, _ | e⟩
    · exact ⟨pops, rfl⟩
    · simp [ExtractScriptPubKeyAddress, h, pure, Except.pure] at extracted
  simp only [ExtractScriptPubKeyAddress, parsed, if_neg version_not_above] at extracted
  rcases classEq : typeOfScript pops with _ | _ | _ | _
  · simp [classEq, pure, Except.pure] at extracted
  · -- pay to a Schnorr key: OP_DATA_32 with the key, and OP_CHECKSIG
    obtain ⟨key, op, rfl, keyValue, opValue⟩ :=
      isPushThenCheck_eq_true ((typeOfScript_cases _).1 classEq)
    cases made : NewAddressPublicKey key.data pfx with
    | error e => simp [classEq, made, bind, Except.bind, pure, Except.pure] at extracted
    | ok addr =>
      simp [classEq, made, bind, Except.bind, pure, Except.pure] at extracted
      obtain ⟨rfl, rfl, -⟩ := extracted
      refine ⟨rfl, ?_⟩
      rw [PayToAddrScript_publicKey, (newFixedAddress_eq_ok made).2,
        script_of_pushThenCheck parsed keyValue opValue (by decide) (by decide) (by decide)]
  · -- pay to an ECDSA key: OP_DATA_33 with the key, and OP_CHECKSIGECDSA
    obtain ⟨key, op, rfl, keyValue, opValue⟩ :=
      isPushThenCheck_eq_true ((typeOfScript_cases _).2.1 classEq)
    cases made : NewAddressPublicKeyECDSA key.data pfx with
    | error e => simp [classEq, made, bind, Except.bind, pure, Except.pure] at extracted
    | ok addr =>
      simp [classEq, made, bind, Except.bind, pure, Except.pure] at extracted
      obtain ⟨rfl, rfl, -⟩ := extracted
      refine ⟨rfl, ?_⟩
      rw [PayToAddrScript_publicKeyECDSA, (newFixedAddress_eq_ok made).2,
        script_of_pushThenCheck parsed keyValue opValue (by decide) (by decide) (by decide)]
  · -- pay to a script hash: the hash is the second opcode's data
    obtain ⟨hashOp, hash, equal, rfl, hashOpValue, hashValue, equalValue⟩ :=
      isScriptHash_eq_true ((typeOfScript_cases _).2.2 classEq)
    have second : sliceIndex [hashOp, hash, equal] 1 = .ok hash := sliceIndex_of_lt (by simp)
    cases made : NewAddressScriptHashFromHash hash.data pfx with
    | error e => simp [classEq, second, made, bind, Except.bind, pure, Except.pure] at extracted
    | ok addr =>
      simp [classEq, second, made, bind, Except.bind, pure, Except.pure] at extracted
      obtain ⟨rfl, rfl, -⟩ := extracted
      refine ⟨rfl, ?_⟩
      rw [PayToAddrScript_scriptHash, (newFixedAddress_eq_ok made).2,
        script_of_scriptHash parsed hashOpValue hashValue equalValue]

theorem address_script_encodings_agree :
    (∀ a : Address, a.Prefix ≠ .unknown →
      DecodeAddress a.EncodeAddress a.Prefix = .ok (.ok a) ∧
        ∃ spk, PayToAddrScript a = .ok spk ∧
          ExtractScriptPubKeyAddress spk a.Prefix = .ok (matchingScriptClass a, some a, none)) ∧
    (∀ (spk : ScriptPublicKey) (pfx : Bech32Prefix) (cls : ScriptClass) (a : Address)
        (err : Option ScriptError), spk.version = 0 →
      ExtractScriptPubKeyAddress spk pfx = .ok (cls, some a, err) →
        cls = matchingScriptClass a ∧ PayToAddrScript a = .ok spk) :=
  ⟨fun a known => ⟨DecodeAddress_EncodeAddress a known, ExtractScriptPubKeyAddress_PayToAddrScript a⟩,
    fun _ _ _ _ _ version0 extracted => PayToAddrScript_of_ExtractScriptPubKeyAddress version0 extracted⟩

theorem address_script_encodings_agree_hoosat :
    DecodeAddress (Address.publicKey ⟨.hoosat, List.replicate 32 7, rfl⟩).EncodeAddress .hoosat =
        .ok (.ok (.publicKey ⟨.hoosat, List.replicate 32 7, rfl⟩)) ∧
      PayToAddrScript (.scriptHash ⟨.hoosatTest, List.replicate 32 1, rfl⟩) =
        .ok ⟨opBlake2b :: opData32 :: List.replicate 32 1 ++ [opEqual], 0⟩ :=
  ⟨(address_script_encodings_agree.1 _ (by decide)).1,
    (address_script_encodings_agree.2 _ .hoosatTest .scriptHashTy _ none rfl (by decide)).2⟩

end Txscript
