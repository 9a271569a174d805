import Htnd.Bip32.Base58
import Htnd.Lib.LittleEndian

/-!
Extended keys (cmd/htnwallet/libhtnwallet/bip32): a key with its version, depth, parent
fingerprint, child number and chain code, and their 82-byte serialization, the 78 bytes of the
fields followed by four bytes of checksum.

The serializer writes a private key, after a zero byte, whenever the key is private, and a
public key otherwise; the parser chooses between the two by the version alone. So a key reads
back exactly when its version says what kind of key it is.

The keys are go-secp256k1's; what the serialization uses of them is the interface `Secp256k1`,
whose fields carry what the library guarantees of its byte forms.
-/
namespace Bip32
open LittleEndian

/-- What extended keys use of go-secp256k1: a private key's 32 bytes and a public key's 33-byte
    compressed form, each read back by its parser; a compressed form starts with 0x02 or 0x03,
    and the parser refuses 33 bytes that start otherwise. -/
structure Secp256k1 (PrivateKey PublicKey : Type) where
  serializePrivateKey : PrivateKey → List UInt8
  deserializeECDSAPrivateKeyFromSlice : List UInt8 → Except String PrivateKey
  serializePublicKey : PublicKey → List UInt8
  deserializeECDSAPubKey : List UInt8 → Except String PublicKey
  length_serializePrivateKey : ∀ k, (serializePrivateKey k).length = 32
  deserialize_serializePrivateKey : ∀ k, deserializeECDSAPrivateKeyFromSlice (serializePrivateKey k) = .ok k
  serializePublicKey_compressed : ∀ p, ∃ x : Vector UInt8 32,
    serializePublicKey p = 0x02 :: x.toList ∨ serializePublicKey p = 0x03 :: x.toList
  deserialize_serializePublicKey : ∀ p, deserializeECDSAPubKey (serializePublicKey p) = .ok p
  deserializeECDSAPubKey_format : ∀ (b : UInt8) (x : Vector UInt8 32), b ≠ 0x02 → b ≠ 0x03 →
    ∃ err, deserializeECDSAPubKey (b :: x.toList) = .error err

def BitcoinMainnetPrivate : Vector UInt8 4 := #v[0x04, 0x88, 0xad, 0xe4]
def BitcoinMainnetPublic : Vector UInt8 4 := #v[0x04, 0x88, 0xb2, 0x1e]
def HoosatMainnetPrivate : Vector UInt8 4 := #v[0x03, 0x8f, 0x2e, 0xf4]
def HoosatMainnetPublic : Vector UInt8 4 := #v[0x03, 0x8f, 0x33, 0x2e]
def HoosatTestnetPrivate : Vector UInt8 4 := #v[0x03, 0x90, 0x9e, 0x07]
def HoosatTestnetPublic : Vector UInt8 4 := #v[0x03, 0x90, 0xa2, 0x41]
def HoosatDevnetPrivate : Vector UInt8 4 := #v[0x03, 0x8b, 0x3d, 0x80]
def HoosatDevnetPublic : Vector UInt8 4 := #v[0x03, 0x8b, 0x41, 0xba]
def HoosatSimnetPrivate : Vector UInt8 4 := #v[0x03, 0x90, 0x42, 0x42]
def HoosatSimnetPublic : Vector UInt8 4 := #v[0x03, 0x90, 0x46, 0x7d]

def publicVersions : List (Vector UInt8 4 × Vector UInt8 4) :=
  [(BitcoinMainnetPrivate, BitcoinMainnetPublic), (HoosatMainnetPrivate, HoosatMainnetPublic),
    (HoosatTestnetPrivate, HoosatTestnetPublic), (HoosatDevnetPrivate, HoosatDevnetPublic),
    (HoosatSimnetPrivate, HoosatSimnetPublic)]

def isPrivateVersion (version : Vector UInt8 4) : Bool :=
  publicVersions.any fun entry => entry.1 == version

def toPublicVersion (version : Vector UInt8 4) : Except String (Vector UInt8 4) :=
  match publicVersions.lookup version with
  | some publicVersion => .ok publicVersion
  | none => .error "unknown version"

/-- The ExtendedKey's privateKey and publicKey pointers: a private key, or a public key alone. -/
inductive Key (PrivateKey PublicKey : Type) where
  | privateKey (k : PrivateKey)
  | publicKey (p : PublicKey)

structure ExtendedKey (PrivateKey PublicKey : Type) where
  key : Key PrivateKey PublicKey
  Version : Vector UInt8 4
  Depth : UInt8
  ParentFingerprint : Vector UInt8 4
  ChildNumber : UInt32
  ChainCode : Vector UInt8 32

variable {PrivateKey PublicKey : Type}

def ExtendedKey.IsPrivate (extKey : ExtendedKey PrivateKey PublicKey) : Bool :=
  match extKey.key with
  | .privateKey _ => true
  | .publicKey _ => false

def versionSerializationLen : Nat := 4
def depthSerializationLen : Nat := 1
def fingerprintSerializationLen : Nat := 4
def childNumberSerializationLen : Nat := 4
def chainCodeSerializationLen : Nat := 32
def keySerializationLen : Nat := 33
def checkSumLen : Nat := 4

def extendedKeySerializationLen : Nat :=
  versionSerializationLen + depthSerializationLen + fingerprintSerializationLen +
    childNumberSerializationLen + chainCodeSerializationLen + keySerializationLen + checkSumLen

/-- binary.BigEndian.PutUint32. -/
def putUint32BE (v : UInt32) : List UInt8 := (putUint32 v).reverse

/-- binary.BigEndian.Uint32. -/
def uint32BE (b : List UInt8) : UInt32 := uint32 (b.take 4).reverse

/-- copy into a Go array: the first `n` bytes, and zeros past the end of the source. -/
def copyInto (n : Nat) (src : List UInt8) : Vector UInt8 n := Vector.ofFn fun i => src.getD i 0

inductive DeserializeError where
  /-- "key length must be %d bytes but got %d" -/
  | keyLength (got : Nat)
  /-- "expected checksum %x but got %x" -/
  | checksum (expected got : List UInt8)
  /-- "expected 0 padding for private key but got %d" -/
  | privateKeyPadding (got : UInt8)
  /-- an error of go-secp256k1's parsers -/
  | secp256k1 (err : String)

section Serialization
variable (secp : Secp256k1 PrivateKey PublicKey) (sum256 : List UInt8 → Vector UInt8 32)

def doubleSha256 (data : List UInt8) : List UInt8 := (sum256 (sum256 data).toList).toList

def calcChecksum (data : List UInt8) : List UInt8 := (doubleSha256 sum256 data).take checkSumLen

def validateChecksum (data : List UInt8) : Except DeserializeError Unit :=
  let checksum := data.drop (data.length - checkSumLen)
  let expectedChecksum := calcChecksum sum256 (data.take (data.length - checkSumLen))
  if expectedChecksum ≠ checksum then .error (.checksum expectedChecksum checksum) else .ok ()

def ExtendedKey.keyBytes (extKey : ExtendedKey PrivateKey PublicKey) : List UInt8 :=
  match extKey.key with
  | .privateKey k => 0 :: secp.serializePrivateKey k
  | .publicKey p => secp.serializePublicKey p

def ExtendedKey.body (extKey : ExtendedKey PrivateKey PublicKey) : List UInt8 :=
  extKey.Version.toList ++ [extKey.Depth] ++ extKey.ParentFingerprint.toList ++
    putUint32BE extKey.ChildNumber ++ extKey.ChainCode.toList ++ extKey.keyBytes secp

def ExtendedKey.serialize (extKey : ExtendedKey PrivateKey PublicKey) : List UInt8 :=
  let body := extKey.body secp
  body ++ (doubleSha256 sum256 body).take checkSumLen

def deserializeExtendedPrivateKey (serialized : List UInt8) :
    Except DeserializeError (ExtendedKey PrivateKey PublicKey) := do
  if serialized.length ≠ extendedKeySerializationLen then throw (.keyLength serialized.length)
  validateChecksum sum256 serialized
  let Version := copyInto 4 serialized
  let Depth := serialized.getD 4 0
  let ParentFingerprint := copyInto 4 (serialized.drop 5)
  let ChildNumber := uint32BE (serialized.drop 9)
  let ChainCode := copyInto 32 (serialized.drop 13)
  if isPrivateVersion Version then
    let privateKeyPadding := serialized.getD 45 0
    if privateKeyPadding ≠ 0 then throw (.privateKeyPadding privateKeyPadding)
    let k ← (secp.deserializeECDSAPrivateKeyFromSlice ((serialized.drop 46).take 32)).mapError .secp256k1
    pure ⟨.privateKey k, Version, Depth, ParentFingerprint, ChildNumber, ChainCode⟩
  else
    let p ← (secp.deserializeECDSAPubKey ((serialized.drop 45).take 33)).mapError .secp256k1
    pure ⟨.publicKey p, Version, Depth, ParentFingerprint, ChildNumber, ChainCode⟩

def DeserializeExtendedKey (extKeyString : List UInt8) :
    Except DeserializeError (ExtendedKey PrivateKey PublicKey) :=
  deserializeExtendedPrivateKey secp sum256 (Base58.Decode extKeyString)

def ExtendedKey.String (extKey : ExtendedKey PrivateKey PublicKey) : List UInt8 :=
  Base58.Encode (extKey.serialize secp sum256)

/-! ### The fields are read back at their offsets -/

theorem copyInto_append {n : Nat} (v : Vector UInt8 n) (rest : List UInt8) : copyInto n (v.toList ++ rest) = v := by
  apply Vector.ext
  intro i small
  rw [copyInto, Vector.getElem_ofFn, List.getD_eq_getElem?_getD,
    List.getElem?_append_left (by simp [small])]
  simp [small]

theorem uint32BE_putUint32BE_append (v : UInt32) (rest : List UInt8) : uint32BE (putUint32BE v ++ rest) = v := by
  have first : (putUint32BE v ++ rest).take 4 = putUint32BE v := List.take_left' (by simp [putUint32BE])
  rw [uint32BE, first, putUint32BE, List.reverse_reverse, ← List.append_nil (putUint32 v),
    uint32_putUint32_append]

@[simp] theorem length_putUint32BE (v : UInt32) : (putUint32BE v).length = 4 := by
  simp [putUint32BE]

theorem length_keyBytes (extKey : ExtendedKey PrivateKey PublicKey) : (extKey.keyBytes secp).length = 33 := by
  obtain ⟨key, _, _, _, _, _⟩ := extKey
  cases key with
  | privateKey k => simp [ExtendedKey.keyBytes, secp.length_serializePrivateKey]
  | publicKey p =>
    obtain ⟨x, compressed⟩ := secp.serializePublicKey_compressed p
    rcases compressed with even | odd
    · simp [ExtendedKey.keyBytes, even]
    · simp [ExtendedKey.keyBytes, odd]

theorem drop_five_serialize (extKey : ExtendedKey PrivateKey PublicKey) :
    (extKey.serialize secp sum256).drop 5 = extKey.ParentFingerprint.toList ++ (putUint32BE extKey.ChildNumber ++
      (extKey.ChainCode.toList ++ (extKey.keyBytes secp ++ (doubleSha256 sum256 (extKey.body secp)).take checkSumLen))) := by
  simp only [ExtendedKey.serialize, ExtendedKey.body, List.append_assoc, List.singleton_append]
  rw [show 5 = 4 + 1 from rfl, ← List.drop_drop, List.drop_left' (by simp)]
  rfl

theorem drop_thirteen_serialize (extKey : ExtendedKey PrivateKey PublicKey) :
    (extKey.serialize secp sum256).drop 13 = extKey.ChainCode.toList ++
      (extKey.keyBytes secp ++ (doubleSha256 sum256 (extKey.body secp)).take checkSumLen) := by
  rw [show 13 = 5 + 8 from rfl, ← List.drop_drop, drop_five_serialize, ← List.append_assoc]
  exact List.drop_left' (by simp)

theorem drop_fortyFive_serialize (extKey : ExtendedKey PrivateKey PublicKey) :
    (extKey.serialize secp sum256).drop 45 = extKey.keyBytes secp ++ (doubleSha256 sum256 (extKey.body secp)).take checkSumLen := by
  rw [show 45 = 13 + 32 from rfl, ← List.drop_drop, drop_thirteen_serialize]
  exact List.drop_left' (by simp)

theorem length_serialize (extKey : ExtendedKey PrivateKey PublicKey) :
    (extKey.serialize secp sum256).length = extendedKeySerializationLen := by
  simp [ExtendedKey.serialize, ExtendedKey.body, length_keyBytes, doubleSha256, checkSumLen,
    extendedKeySerializationLen, versionSerializationLen, depthSerializationLen, fingerprintSerializationLen,
    childNumberSerializationLen, chainCodeSerializationLen, keySerializationLen]

theorem validateChecksum_serialize (extKey : ExtendedKey PrivateKey PublicKey) :
    validateChecksum sum256 (extKey.serialize secp sum256) = .ok () := by
  have bodyLength : (extKey.body secp).length = (extKey.serialize secp sum256).length - checkSumLen := by
    rw [length_serialize]
    simp [ExtendedKey.body, length_keyBytes, extendedKeySerializationLen, versionSerializationLen,
      depthSerializationLen, fingerprintSerializationLen, childNumberSerializationLen,
      chainCodeSerializationLen, keySerializationLen, checkSumLen]
  have body : (extKey.serialize secp sum256).take ((extKey.serialize secp sum256).length - checkSumLen) =
      extKey.body secp := List.take_left' bodyLength
  have checksum : (extKey.serialize secp sum256).drop ((extKey.serialize secp sum256).length - checkSumLen) =
      (doubleSha256 sum256 (extKey.body secp)).take checkSumLen := List.drop_left' bodyLength
  rw [validateChecksum]
  simp only [body, checksum, calcChecksum, ne_eq, not_true_eq_false, if_false]

theorem deserializeExtendedPrivateKey_serialize (extKey : ExtendedKey PrivateKey PublicKey) :
    deserializeExtendedPrivateKey secp sum256 (extKey.serialize secp sum256) =
      if isPrivateVersion extKey.Version then
        if (extKey.keyBytes secp).headD 0 ≠ 0 then .error (.privateKeyPadding ((extKey.keyBytes secp).headD 0))
        else
          (fun k => { extKey with key := .privateKey k }) <$>
            (secp.deserializeECDSAPrivateKeyFromSlice ((extKey.keyBytes secp).drop 1)).mapError .secp256k1
      else
        (fun p => { extKey with key := .publicKey p }) <$>
          (secp.deserializeECDSAPubKey (extKey.keyBytes secp)).mapError .secp256k1 := by
  have tail := drop_fortyFive_serialize secp sum256 extKey
  have keyLength := length_keyBytes secp extKey
  have version : copyInto 4 (extKey.serialize secp sum256) = extKey.Version := by
    simp only [ExtendedKey.serialize, ExtendedKey.body, List.append_assoc]
    exact copyInto_append _ _
  have depth : (extKey.serialize secp sum256).getD 4 0 = extKey.Depth := by
    simp [ExtendedKey.serialize, ExtendedKey.body, List.getD_eq_getElem?_getD]
  have fingerprint : copyInto 4 ((extKey.serialize secp sum256).drop 5) = extKey.ParentFingerprint := by
    rw [drop_five_serialize]
    exact copyInto_append _ _
  have childNumber : uint32BE ((extKey.serialize secp sum256).drop 9) = extKey.ChildNumber := by
    rw [show 9 = 5 + 4 from rfl, ← List.drop_drop, drop_five_serialize, List.drop_left' (by simp)]
    exact uint32BE_putUint32BE_append _ _
  have chainCode : copyInto 32 ((extKey.serialize secp sum256).drop 13) = extKey.ChainCode := by
    rw [drop_thirteen_serialize]
    exact copyInto_append _ _
  have padding : (extKey.serialize secp sum256).getD 45 0 = (extKey.keyBytes secp).headD 0 := by
    have read : ∀ (l : List UInt8) (n : Nat), l.getD n 0 = (l.drop n).headD 0 := by
      intro l n
      simp [List.getD_eq_getElem?_getD, List.headD_eq_head?_getD]
    rw [read, tail]
    cases keyBytes : extKey.keyBytes secp with
    | nil => simp [keyBytes] at keyLength
    | cons b rest => rfl
  have privateBytes : ((extKey.serialize secp sum256).drop 46).take 32 = (extKey.keyBytes secp).drop 1 := by
    rw [show 46 = 45 + 1 from rfl, ← List.drop_drop, tail, List.drop_append_of_le_length (by omega)]
    exact List.take_left' (by simp [keyLength])
  have publicBytes : ((extKey.serialize secp sum256).drop 45).take 33 = extKey.keyBytes secp := by
    rw [tail]
    exact List.take_left' keyLength
  rw [deserializeExtendedPrivateKey, if_neg (by rw [length_serialize]; exact not_not.2 rfl)]
  simp only [bind, Except.bind, validateChecksum_serialize, version, depth, fingerprint, childNumber,
    chainCode, padding, privateBytes, publicBytes]
  by_cases isPrivate : isPrivateVersion extKey.Version = true
  · rw [if_pos isPrivate, if_pos isPrivate]
    by_cases nonzero : (extKey.keyBytes secp).headD 0 ≠ 0
    · rw [if_pos nonzero, if_pos nonzero]
      rfl
    · rw [if_neg nonzero, if_neg nonzero]
      cases (secp.deserializeECDSAPrivateKeyFromSlice ((extKey.keyBytes secp).drop 1)).mapError
        DeserializeError.secp256k1 <;> rfl
  · rw [if_neg isPrivate, if_neg isPrivate]
    cases (secp.deserializeECDSAPubKey (extKey.keyBytes secp)).mapError DeserializeError.secp256k1 <;> rfl

theorem deserialize_serialize (extKey : ExtendedKey PrivateKey PublicKey)
    (matched : isPrivateVersion extKey.Version = extKey.IsPrivate) :
    deserializeExtendedPrivateKey secp sum256 (extKey.serialize secp sum256) = .ok extKey := by
  rw [deserializeExtendedPrivateKey_serialize]
  obtain ⟨key, Version, Depth, ParentFingerprint, ChildNumber, ChainCode⟩ := extKey
  cases key with
  | privateKey k =>
    have isPrivate : isPrivateVersion Version = true := matched
    rw [if_pos isPrivate]
    simp [ExtendedKey.keyBytes, secp.deserialize_serializePrivateKey, Except.mapError]
  | publicKey p =>
    have isPublic : ¬ isPrivateVersion Version = true := by
      rw [matched]
      exact Bool.false_ne_true
    rw [if_neg isPublic]
    simp [ExtendedKey.keyBytes, secp.deserialize_serializePublicKey, Except.mapError]

theorem deserialize_serialize_of_private (extKey : ExtendedKey PrivateKey PublicKey) {k : PrivateKey}
    (isPrivate : extKey.key = .privateKey k) (publicVersion : isPrivateVersion extKey.Version = false) :
    ∃ err, deserializeExtendedPrivateKey secp sum256 (extKey.serialize secp sum256) = .error (.secp256k1 err) := by
  have privateBytes : (secp.serializePrivateKey k).length = 32 := secp.length_serializePrivateKey k
  obtain ⟨err, refused⟩ := secp.deserializeECDSAPubKey_format 0 ⟨(secp.serializePrivateKey k).toArray, by
    simp [privateBytes]⟩ (by decide) (by decide)
  replace refused : secp.deserializeECDSAPubKey (0 :: secp.serializePrivateKey k) = .error err := by
    simpa using refused
  refine ⟨err, ?_⟩
  rw [deserializeExtendedPrivateKey_serialize, if_neg (by rw [publicVersion]; exact Bool.false_ne_true),
    ExtendedKey.keyBytes, isPrivate]
  simp [refused, Except.mapError]

theorem deserialize_serialize_of_public (extKey : ExtendedKey PrivateKey PublicKey) {p : PublicKey}
    (isPublic : extKey.key = .publicKey p) (privateVersion : isPrivateVersion extKey.Version = true) :
    ∃ b, (b = 0x02 ∨ b = 0x03) ∧
      deserializeExtendedPrivateKey secp sum256 (extKey.serialize secp sum256) = .error (.privateKeyPadding b) := by
  obtain ⟨x, compressed⟩ := secp.serializePublicKey_compressed p
  rw [deserializeExtendedPrivateKey_serialize, if_pos privateVersion, ExtendedKey.keyBytes, isPublic]
  rcases compressed with even | odd
  · exact ⟨0x02, .inl rfl, by simp [even]⟩
  · exact ⟨0x03, .inr rfl, by simp [odd]⟩

theorem DeserializeExtendedKey_String (extKey : ExtendedKey PrivateKey PublicKey) :
    DeserializeExtendedKey secp sum256 (extKey.String secp sum256) =
      deserializeExtendedPrivateKey secp sum256 (extKey.serialize secp sum256) := by
  rw [DeserializeExtendedKey, ExtendedKey.String, Base58.Decode_Encode_eq_self]

theorem extended_key_version_decides_parse (k : PrivateKey) (Depth : UInt8) (ParentFingerprint : Vector UInt8 4)
    (ChildNumber : UInt32) (ChainCode : Vector UInt8 32) :
    let extKey : ExtendedKey PrivateKey PublicKey :=
      ⟨.privateKey k, HoosatMainnetPublic, Depth, ParentFingerprint, ChildNumber, ChainCode⟩
    ∃ err, deserializeExtendedPrivateKey secp sum256 (extKey.serialize secp sum256) = .error (.secp256k1 err) ∧
      DeserializeExtendedKey secp sum256 (extKey.String secp sum256) = .error (.secp256k1 err) := by
  intro extKey
  have publicVersion : isPrivateVersion HoosatMainnetPublic = false := by decide
  obtain ⟨err, refused⟩ := deserialize_serialize_of_private secp sum256 extKey rfl publicVersion
  exact ⟨err, refused, by rw [DeserializeExtendedKey_String, refused]⟩

end Serialization

def byteForms : Secp256k1 (Vector UInt8 32) (Bool × Vector UInt8 32) where
  serializePrivateKey k := k.toList
  deserializeECDSAPrivateKeyFromSlice b :=
    if h : b.length = 32 then .ok ⟨b.toArray, by simpa using h⟩ else .error "malformed private key"
  serializePublicKey p := (if p.1 then 0x03 else 0x02) :: p.2.toList
  deserializeECDSAPubKey b :=
    match b with
    | format :: x =>
      if h : x.length = 32 then
        if format = 0x02 then .ok (false, ⟨x.toArray, by simpa using h⟩)
        else if format = 0x03 then .ok (true, ⟨x.toArray, by simpa using h⟩)
        else .error "malformed public key"
      else .error "malformed public key"
    | [] => .error "malformed public key"
  length_serializePrivateKey k := by simp
  deserialize_serializePrivateKey k := by simp [Vector.toList]
  serializePublicKey_compressed p := by
    obtain ⟨odd, x⟩ := p
    refine ⟨x, ?_⟩
    cases odd <;> simp
  deserialize_serializePublicKey p := by
    obtain ⟨odd, x⟩ := p
    cases odd <;> simp [Vector.toList]
  deserializeECDSAPubKey_format b x notEven notOdd := ⟨"malformed public key", by simp [notEven, notOdd]⟩

/-- A private key under the Hoosat private version reads back, with keys as their bytes and any
    checksum. -/
theorem deserialize_serialize_hoosat_private :
    let extKey : ExtendedKey (Vector UInt8 32) (Bool × Vector UInt8 32) :=
      ⟨.privateKey (Vector.replicate 32 7), HoosatMainnetPrivate, 0, #v[0, 0, 0, 0], 0,
        Vector.replicate 32 0⟩
    deserializeExtendedPrivateKey byteForms (fun _ => Vector.replicate 32 0)
      (extKey.serialize byteForms fun _ => Vector.replicate 32 0) = .ok extKey :=
  deserialize_serialize byteForms _ _ (by decide)

/-- A public key under the Hoosat private version has its format byte read as padding. -/
theorem deserialize_serialize_of_public_hoosat_private :
    let extKey : ExtendedKey (Vector UInt8 32) (Bool × Vector UInt8 32) :=
      ⟨.publicKey (false, Vector.replicate 32 7), HoosatMainnetPrivate, 0, #v[0, 0, 0, 0], 0,
        Vector.replicate 32 0⟩
    ∃ b, (b = 0x02 ∨ b = 0x03) ∧ deserializeExtendedPrivateKey byteForms (fun _ => Vector.replicate 32 0)
      (extKey.serialize byteForms fun _ => Vector.replicate 32 0) = .error (.privateKeyPadding b) :=
  deserialize_serialize_of_public byteForms _ _ rfl (by decide)

end Bip32
