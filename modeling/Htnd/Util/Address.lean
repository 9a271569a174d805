import Htnd.Util.Bech32

/-!
Addresses (util/address.go): a network prefix and a fixed-size byte array, the public key of a
pay-to-pubkey address (32 bytes for Schnorr, 33 for ECDSA) or the hash of a pay-to-script-hash
address, written in Bech32 with the address kind as the version byte.

The three address types differ only in the size of their array and in their version byte: they
are one structure indexed by the size, which carries the array's length as a field, so that an
address whose array has another length cannot be built.
-/
namespace Util
open Bech32 GoSemantics

def pubKeyAddrID : UInt8 := 0x00

def pubKeyECDSAAddrID : UInt8 := 0x01

def scriptHashAddrID : UInt8 := 0x08

inductive Bech32Prefix where
  | unknown
  | hoosat
  | hoosatDev
  | hoosatTest
  | hoosatSim
  deriving DecidableEq, Repr

def stringsToBech32Prefixes : List (List UInt8 × Bech32Prefix) :=
  [(asciiBytes "hoosat", .hoosat), (asciiBytes "htndev", .hoosatDev),
    (asciiBytes "hoosattest", .hoosatTest), (asciiBytes "hoosatsim", .hoosatSim)]

inductive AddressError where
  /-- "could not parse prefix %s" -/
  | couldNotParsePrefix (prefixString : List UInt8)
  /-- "decoded address is of unknown format: %s" -/
  | unknownFormat (err : Bech32Error)
  /-- "decoded address's prefix could not be parsed: %s" -/
  | prefixNotParsed (err : AddressError)
  /-- "decoded address is of wrong network. Expected %s but got %s" -/
  | wrongNetwork (expected got : Bech32Prefix)
  /-- ErrUnknownAddressType -/
  | unknownAddressType
  /-- "publicKey must be %d bytes" -/
  | publicKeySize (size : Nat)
  /-- "scriptHash must be %d bytes" -/
  | scriptHashSize (size : Nat)
  deriving DecidableEq, Repr

def ParsePrefix (prefixString : List UInt8) : Except AddressError Bech32Prefix :=
  match stringsToBech32Prefixes.lookup prefixString with
  | some pfx => .ok pfx
  | none => .error (.couldNotParsePrefix prefixString)

/-- String: the key the map gives the prefix. Its values are distinct, so the order in which the
    range loop visits the map does not matter. -/
def Bech32Prefix.String (pfx : Bech32Prefix) : List UInt8 :=
  match stringsToBech32Prefixes.find? (fun entry => entry.2 = pfx) with
  | some (key, _) => key
  | none => []

def PublicKeySize : Nat := 32

def PublicKeySizeECDSA : Nat := 33

def blake2bSize256 : Nat := 32

structure FixedAddress (size : Nat) where
  pfx : Bech32Prefix
  bytes : List UInt8
  length_bytes : bytes.length = size
  deriving DecidableEq

abbrev AddressPublicKey := FixedAddress PublicKeySize

abbrev AddressPublicKeyECDSA := FixedAddress PublicKeySizeECDSA

abbrev AddressScriptHash := FixedAddress blake2bSize256

def newFixedAddress (size : Nat) (sizeError : AddressError) (pfx : Bech32Prefix)
    (bytes : List UInt8) : Except AddressError (FixedAddress size) :=
  if same : bytes.length = size then .ok ⟨pfx, bytes, same⟩ else .error sizeError

def newAddressPubKey : Bech32Prefix → List UInt8 → Except AddressError AddressPublicKey :=
  newFixedAddress PublicKeySize (.publicKeySize PublicKeySize)

def newAddressPubKeyECDSA : Bech32Prefix → List UInt8 → Except AddressError AddressPublicKeyECDSA :=
  newFixedAddress PublicKeySizeECDSA (.publicKeySize PublicKeySizeECDSA)

def newAddressScriptHashFromHash : Bech32Prefix → List UInt8 → Except AddressError AddressScriptHash :=
  newFixedAddress blake2bSize256 (.scriptHashSize blake2bSize256)

def NewAddressPublicKey (publicKey : List UInt8) (pfx : Bech32Prefix) :
    Except AddressError AddressPublicKey :=
  newAddressPubKey pfx publicKey

def NewAddressPublicKeyECDSA (publicKey : List UInt8) (pfx : Bech32Prefix) :
    Except AddressError AddressPublicKeyECDSA :=
  newAddressPubKeyECDSA pfx publicKey

def NewAddressScriptHashFromHash (scriptHash : List UInt8) (pfx : Bech32Prefix) :
    Except AddressError AddressScriptHash :=
  newAddressScriptHashFromHash pfx scriptHash

inductive Address where
  | publicKey (a : AddressPublicKey)
  | publicKeyECDSA (a : AddressPublicKeyECDSA)
  | scriptHash (a : AddressScriptHash)
  deriving DecidableEq

def encodeAddress (pfx : Bech32Prefix) (payload : List UInt8) (version : UInt8) : List UInt8 :=
  Bech32.Encode pfx.String payload version

def Address.EncodeAddress : Address → List UInt8
  | .publicKey a => encodeAddress a.pfx a.bytes pubKeyAddrID
  | .publicKeyECDSA a => encodeAddress a.pfx a.bytes pubKeyECDSAAddrID
  | .scriptHash a => encodeAddress a.pfx a.bytes scriptHashAddrID

def Address.ScriptAddress : Address → List UInt8
  | .publicKey a => a.bytes
  | .publicKeyECDSA a => a.bytes
  | .scriptHash a => a.bytes

def Address.Prefix : Address → Bech32Prefix
  | .publicKey a => a.pfx
  | .publicKeyECDSA a => a.pfx
  | .scriptHash a => a.pfx

/-- DecodeAddress: bech32.Decode, which may panic, then the prefix, the expected network and the
    version byte's address type. -/
def DecodeAddress (addr : List UInt8) (expectedPrefix : Bech32Prefix) :
    Except Panic (Except AddressError Address) := do
  match ← Bech32.Decode addr with
  | .error err => pure (.error (.unknownFormat err))
  | .ok (prefixString, decoded, version) =>
    pure do
      let pfx ← (ParsePrefix prefixString).mapError .prefixNotParsed
      if expectedPrefix ≠ .unknown ∧ expectedPrefix ≠ pfx then
        throw (.wrongNetwork expectedPrefix pfx)
      if version = pubKeyAddrID then .publicKey <$> newAddressPubKey pfx decoded
      else if version = pubKeyECDSAAddrID then .publicKeyECDSA <$> newAddressPubKeyECDSA pfx decoded
      else if version = scriptHashAddrID then .scriptHash <$> newAddressScriptHashFromHash pfx decoded
      else throw .unknownAddressType

/-! ### An address reads back from its string -/

theorem validPrefix_String {pfx : Bech32Prefix} (known : pfx ≠ .unknown) :
    ValidPrefix pfx.String := by
  cases pfx
  case unknown => exact absurd rfl known
  all_goals exact ⟨by decide, printable_of_all (by decide), by decide⟩

theorem ParsePrefix_String {pfx : Bech32Prefix} (known : pfx ≠ .unknown) :
    ParsePrefix pfx.String = .ok pfx := by
  cases pfx
  case unknown => exact absurd rfl known
  all_goals decide

theorem newFixedAddress_bytes {size : Nat} (sizeError : AddressError) (a : FixedAddress size) :
    newFixedAddress size sizeError a.pfx a.bytes = .ok a := by
  simp [newFixedAddress, a.length_bytes]

theorem newFixedAddress_eq_ok {size : Nat} {sizeError : AddressError} {pfx : Bech32Prefix}
    {bytes : List UInt8} {a : FixedAddress size} (made : newFixedAddress size sizeError pfx bytes = .ok a) :
    a.pfx = pfx ∧ a.bytes = bytes := by
  unfold newFixedAddress at made
  split at made
  · cases made
    exact ⟨rfl, rfl⟩
  · cases made

theorem DecodeAddress_encodeAddress {pfx : Bech32Prefix} (known : pfx ≠ .unknown)
    (payload : List UInt8) (version : UInt8) :
    DecodeAddress (encodeAddress pfx payload version) pfx = .ok
      (if version = pubKeyAddrID then .publicKey <$> newAddressPubKey pfx payload
      else if version = pubKeyECDSAAddrID then .publicKeyECDSA <$> newAddressPubKeyECDSA pfx payload
      else if version = scriptHashAddrID then .scriptHash <$> newAddressScriptHashFromHash pfx payload
      else throw .unknownAddressType) := by
  simp only [DecodeAddress, encodeAddress, Decode_Encode_of_valid (validPrefix_String known), bind,
    Except.bind, ParsePrefix_String known, Except.mapError, ne_eq, not_true_eq_false, and_false,
    if_false]
  rfl

theorem DecodeAddress_EncodeAddress (a : Address) (known : a.Prefix ≠ .unknown) :
    DecodeAddress a.EncodeAddress a.Prefix = .ok (.ok a) := by
  cases a with
  | publicKey a =>
    rw [Address.EncodeAddress, Address.Prefix,
      DecodeAddress_encodeAddress (show a.pfx ≠ .unknown from known), if_pos rfl,
      newAddressPubKey, newFixedAddress_bytes]
    rfl
  | publicKeyECDSA a =>
    rw [Address.EncodeAddress, Address.Prefix,
      DecodeAddress_encodeAddress (show a.pfx ≠ .unknown from known),
      if_neg (by decide), if_pos rfl, newAddressPubKeyECDSA, newFixedAddress_bytes]
    rfl
  | scriptHash a =>
    rw [Address.EncodeAddress, Address.Prefix,
      DecodeAddress_encodeAddress (show a.pfx ≠ .unknown from known),
      if_neg (by decide), if_neg (by decide), if_pos rfl, newAddressScriptHashFromHash,
      newFixedAddress_bytes]
    rfl

end Util
