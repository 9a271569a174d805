import Htnd.Lib.ByteReader
import Htnd.ConsensusHashing.Transaction

/-!
The serialization of a UTXO entry with its outpoint (utxo/serialization.go, with WriteElement,
ReadElement and binaryserializer): the transaction ID's 32 bytes, the index, the DAA score, the
amount, the coinbase flag as one byte, the script version, the script's length as a uint64 and the
script. Writing into a bytes.Buffer cannot fail, so the serialization is the bytes written; reading
is a bytes.Reader read with io.ReadFull.

Every field the reader accepts writes back to the bytes it read: a flag byte other than 0 or 1 is
refused, and a length read as a uint64 is the length of the script read after it. So what
DeserializeUTXO decodes serializes to a prefix of its input, and it ignores what follows.
-/
namespace Utxo
open LittleEndian ByteReader
open ConsensusHashing (byteSlice)

def domainHashSize : Nat := 32

def writeBool (e : Bool) : List UInt8 := if e then [0x01] else [0x00]

def serializeOutpoint (outpoint : DomainOutpoint) : List UInt8 :=
  byteSlice outpoint.transactionID ++ putUint32 outpoint.index

def serializeUTXOEntry (entry : UTXOEntry) : List UInt8 :=
  putUint64 entry.blockDAAScore ++ putUint64 entry.amount ++ writeBool entry.isCoinbase ++
    putUint16 entry.scriptPublicKey.version ++
    putUint64 (UInt64.ofNat entry.scriptPublicKey.script.length) ++ entry.scriptPublicKey.script

def SerializeUTXO (entry : UTXOEntry) (outpoint : DomainOutpoint) : List UInt8 :=
  serializeOutpoint outpoint ++ serializeUTXOEntry entry

/-! ### Reading -/

def readUint8 : ReadM UInt8 := do
  let buf ← readFull 1
  pure (buf.headD 0)

def readUint16 : ReadM UInt16 := do
  let buf ← readFull 2
  pure (uint16 buf)

def readUint32 : ReadM UInt32 := do
  let buf ← readFull 4
  pure (uint32 buf)

def readUint64 : ReadM UInt64 := do
  let buf ← readFull 8
  pure (uint64 buf)

def readBool : ReadM Bool := do
  let rv ← readUint8
  if rv = 0x00 then pure false
  else if rv = 0x01 then pure true
  else throw (.invalid ("in order to keep serialization canonical, true has to" ++
    " always be 0x01"))

/-- NewDomainHashFromByteSlice: the bytes, most significant first, of a hash. -/
def newDomainHashFromByteSlice (hashBytes : List UInt8) : Except ReadError DomainHash :=
  if size : hashBytes.length = domainHashSize then
    .ok ⟨⟨value hashBytes.reverse, by
      have below := value_lt hashBytes.reverse
      rw [List.length_reverse, size] at below
      simpa [domainHashSize] using below⟩⟩
  else .error (.invalid ("invalid hash size. Want: " ++ toString domainHashSize ++ ", got: " ++
    toString hashBytes.length))

def deserializeOutpoint : ReadM DomainOutpoint := do
  let transactionIDBytes ← readFull domainHashSize
  let transactionID ← liftM (newDomainHashFromByteSlice transactionIDBytes)
  let index ← readUint32
  pure ⟨transactionID, index⟩

def deserializeUTXOEntry : ReadM UTXOEntry := do
  let blockDAAScore ← readUint64
  let amount ← readUint64
  let isCoinbase ← readBool
  let version ← readUint16
  let scriptPubKeyLen ← readUint64
  let scriptPubKeyScript ← readFull scriptPubKeyLen.toNat
  pure ⟨amount, ⟨scriptPubKeyScript, version⟩, blockDAAScore, isCoinbase⟩

def DeserializeUTXO (utxoBytes : List UInt8) : Except ReadError (UTXOEntry × DomainOutpoint) :=
  (do
    let outpoint ← deserializeOutpoint
    let entry ← deserializeUTXOEntry
    pure (entry, outpoint)).run' utxoBytes

/-! ### Each field reads back what it wrote, and writes back what it read -/

theorem readUint8_eq_ok {input rest : List UInt8} {v : UInt8} (read : readUint8 input = .ok (v, rest)) :
    input = v :: rest := by
  obtain ⟨buf, mid, bufRead, done⟩ := bind_eq_ok read
  obtain ⟨split, length⟩ := readFull_eq_ok bufRead
  obtain ⟨b, rfl⟩ : ∃ b, buf = [b] := List.length_eq_one_iff.1 length
  cases done
  exact split

theorem readUint16_putUint16 (v : UInt16) (rest : List UInt8) :
    readUint16 (putUint16 v ++ rest) = .ok (v, rest) := by
  have bufRead := readFull_append (putUint16 v) rest
  rw [length_putUint16] at bufRead
  rw [readUint16, bind_of_eq_ok bufRead, pure_apply, ← List.append_nil (putUint16 v),
    uint16_putUint16_append]

theorem readUint16_eq_ok {input rest : List UInt8} {v : UInt16} (read : readUint16 input = .ok (v, rest)) :
    input = putUint16 v ++ rest := by
  obtain ⟨buf, mid, bufRead, done⟩ := bind_eq_ok read
  obtain ⟨split, length⟩ := readFull_eq_ok bufRead
  cases done
  rw [split, putUint16_uint16 (by omega), List.take_of_length_le (by omega)]

theorem readUint32_putUint32 (v : UInt32) (rest : List UInt8) :
    readUint32 (putUint32 v ++ rest) = .ok (v, rest) := by
  have bufRead := readFull_append (putUint32 v) rest
  rw [length_putUint32] at bufRead
  rw [readUint32, bind_of_eq_ok bufRead, pure_apply, ← List.append_nil (putUint32 v),
    uint32_putUint32_append]

theorem readUint32_eq_ok {input rest : List UInt8} {v : UInt32} (read : readUint32 input = .ok (v, rest)) :
    input = putUint32 v ++ rest := by
  obtain ⟨buf, mid, bufRead, done⟩ := bind_eq_ok read
  obtain ⟨split, length⟩ := readFull_eq_ok bufRead
  cases done
  rw [split, putUint32_uint32 (by omega), List.take_of_length_le (by omega)]

theorem readUint64_putUint64 (v : UInt64) (rest : List UInt8) :
    readUint64 (putUint64 v ++ rest) = .ok (v, rest) := by
  have bufRead := readFull_append (putUint64 v) rest
  rw [length_putUint64] at bufRead
  rw [readUint64, bind_of_eq_ok bufRead, pure_apply, ← List.append_nil (putUint64 v),
    uint64_putUint64_append]

theorem readUint64_eq_ok {input rest : List UInt8} {v : UInt64} (read : readUint64 input = .ok (v, rest)) :
    input = putUint64 v ++ rest := by
  obtain ⟨buf, mid, bufRead, done⟩ := bind_eq_ok read
  obtain ⟨split, length⟩ := readFull_eq_ok bufRead
  cases done
  rw [split, putUint64_uint64 (by omega), List.take_of_length_le (by omega)]

theorem readBool_writeBool (e : Bool) (rest : List UInt8) :
    readBool (writeBool e ++ rest) = .ok (e, rest) := by
  cases e <;> rfl

theorem readBool_eq_ok {input rest : List UInt8} {e : Bool} (read : readBool input = .ok (e, rest)) :
    input = writeBool e ++ rest := by
  obtain ⟨rv, mid, byteRead, checked⟩ := bind_eq_ok read
  rw [readUint8_eq_ok byteRead]
  by_cases zero : rv = 0x00
  · simp only [if_pos zero, pure_apply, Except.ok.injEq, Prod.mk.injEq] at checked
    obtain ⟨rfl, rfl⟩ := checked
    rw [zero]
    rfl
  by_cases one : rv = 0x01
  · simp only [if_neg zero, if_pos one, pure_apply, Except.ok.injEq, Prod.mk.injEq] at checked
    obtain ⟨rfl, rfl⟩ := checked
    rw [one]
    rfl
  · simp only [if_neg zero, if_neg one] at checked
    cases checked

theorem newDomainHashFromByteSlice_byteSlice (hash : DomainHash) :
    newDomainHashFromByteSlice (byteSlice hash) = .ok hash := by
  have size : (byteSlice hash).length = domainHashSize := by simp [byteSlice, domainHashSize]
  rw [newDomainHashFromByteSlice, dif_pos size]
  have read : value (byteSlice hash).reverse = hash.value := by
    rw [byteSlice, List.reverse_reverse, value_putBytes, Nat.mod_eq_of_lt (by simp)]
  simp only [read]

theorem byteSlice_eq_of_newDomainHashFromByteSlice {hashBytes : List UInt8} {hash : DomainHash}
    (made : newDomainHashFromByteSlice hashBytes = .ok hash) : byteSlice hash = hashBytes := by
  unfold newDomainHashFromByteSlice at made
  split at made
  · rename_i size
    cases made
    have length : hashBytes.reverse.length = 32 := by
      rw [List.length_reverse, size]
      rfl
    rw [byteSlice, ← length, putBytes_value, List.reverse_reverse]
  · cases made

/-! ### The outpoint and the entry -/

theorem deserializeOutpoint_serializeOutpoint (outpoint : DomainOutpoint) (rest : List UInt8) :
    deserializeOutpoint (serializeOutpoint outpoint ++ rest) = .ok (outpoint, rest) := by
  have idRead := readFull_append (byteSlice outpoint.transactionID) (putUint32 outpoint.index ++ rest)
  rw [show (byteSlice outpoint.transactionID).length = domainHashSize by
    simp [byteSlice, domainHashSize]] at idRead
  rw [serializeOutpoint, List.append_assoc, deserializeOutpoint, bind_of_eq_ok idRead,
    newDomainHashFromByteSlice_byteSlice, bind_of_eq_ok (liftM_ok _ _),
    bind_of_eq_ok (readUint32_putUint32 _ _), pure_apply]

theorem deserializeOutpoint_eq_ok {input rest : List UInt8} {outpoint : DomainOutpoint}
    (read : deserializeOutpoint input = .ok (outpoint, rest)) :
    input = serializeOutpoint outpoint ++ rest := by
  obtain ⟨idBytes, afterID, idRead, toHash⟩ := bind_eq_ok read
  obtain ⟨transactionID, afterHash, hashMade, toIndex⟩ := bind_eq_ok toHash
  obtain ⟨made, rfl⟩ := liftM_eq_ok hashMade
  obtain ⟨index, afterIndex, indexRead, done⟩ := bind_eq_ok toIndex
  cases done
  rw [(readFull_eq_ok idRead).1, readUint32_eq_ok indexRead,
    ← byteSlice_eq_of_newDomainHashFromByteSlice made, serializeOutpoint, List.append_assoc]

theorem deserializeUTXOEntry_serializeUTXOEntry (entry : UTXOEntry) (rest : List UInt8)
    (fits : entry.scriptPublicKey.script.length < 2 ^ 64) :
    deserializeUTXOEntry (serializeUTXOEntry entry ++ rest) = .ok (entry, rest) := by
  have lengthRead : (UInt64.ofNat entry.scriptPublicKey.script.length).toNat =
      entry.scriptPublicKey.script.length := UInt64.toNat_ofNat_of_lt fits
  have scriptRead := readFull_append entry.scriptPublicKey.script rest
  rw [← lengthRead] at scriptRead
  simp only [serializeUTXOEntry, List.append_assoc]
  rw [deserializeUTXOEntry, bind_of_eq_ok (readUint64_putUint64 _ _),
    bind_of_eq_ok (readUint64_putUint64 _ _), bind_of_eq_ok (readBool_writeBool _ _),
    bind_of_eq_ok (readUint16_putUint16 _ _), bind_of_eq_ok (readUint64_putUint64 _ _),
    bind_of_eq_ok scriptRead, pure_apply]

theorem deserializeUTXOEntry_eq_ok {input rest : List UInt8} {entry : UTXOEntry}
    (read : deserializeUTXOEntry input = .ok (entry, rest)) :
    input = serializeUTXOEntry entry ++ rest := by
  obtain ⟨blockDAAScore, afterScore, scoreRead, toAmount⟩ := bind_eq_ok read
  obtain ⟨amount, afterAmount, amountRead, toCoinbase⟩ := bind_eq_ok toAmount
  obtain ⟨isCoinbase, afterCoinbase, coinbaseRead, toVersion⟩ := bind_eq_ok toCoinbase
  obtain ⟨version, afterVersion, versionRead, toLength⟩ := bind_eq_ok toVersion
  obtain ⟨scriptPubKeyLen, afterLength, lengthRead, toScript⟩ := bind_eq_ok toLength
  obtain ⟨script, afterScript, scriptRead, done⟩ := bind_eq_ok toScript
  cases done
  obtain ⟨scriptSplit, scriptLength⟩ := readFull_eq_ok scriptRead
  have lengthWritten : UInt64.ofNat script.length = scriptPubKeyLen := by
    rw [scriptLength, UInt64.ofNat_toNat]
  rw [readUint64_eq_ok scoreRead, readUint64_eq_ok amountRead, readBool_eq_ok coinbaseRead,
    readUint16_eq_ok versionRead, readUint64_eq_ok lengthRead, scriptSplit, ← lengthWritten]
  simp only [serializeUTXOEntry, List.append_assoc]

/-! ### The record -/

theorem DeserializeUTXO_SerializeUTXO_append (entry : UTXOEntry) (outpoint : DomainOutpoint)
    (rest : List UInt8) (fits : entry.scriptPublicKey.script.length < 2 ^ 64) :
    DeserializeUTXO (SerializeUTXO entry outpoint ++ rest) = .ok (entry, outpoint) := by
  rw [DeserializeUTXO, SerializeUTXO, List.append_assoc, run'_eq,
    bind_of_eq_ok (deserializeOutpoint_serializeOutpoint _ _),
    bind_of_eq_ok (deserializeUTXOEntry_serializeUTXOEntry _ _ fits), pure_apply]
  rfl

theorem SerializeUTXO_append_of_DeserializeUTXO {utxoBytes : List UInt8} {entry : UTXOEntry}
    {outpoint : DomainOutpoint} (read : DeserializeUTXO utxoBytes = .ok (entry, outpoint)) :
    ∃ rest, utxoBytes = SerializeUTXO entry outpoint ++ rest := by
  obtain ⟨rest, decoded⟩ := run'_eq_ok read
  obtain ⟨outpoint', afterOutpoint, outpointRead, toEntry⟩ := bind_eq_ok decoded
  obtain ⟨entry', afterEntry, entryRead, done⟩ := bind_eq_ok toEntry
  cases done
  refine ⟨rest, ?_⟩
  rw [deserializeOutpoint_eq_ok outpointRead, deserializeUTXOEntry_eq_ok entryRead, SerializeUTXO,
    List.append_assoc]

theorem utxo_record_round_trips :
    (∀ (entry : UTXOEntry) (outpoint : DomainOutpoint),
      entry.scriptPublicKey.script.length < 2 ^ 64 →
        DeserializeUTXO (SerializeUTXO entry outpoint) = .ok (entry, outpoint)) ∧
    (∀ (utxoBytes : List UInt8) (entry : UTXOEntry) (outpoint : DomainOutpoint),
      DeserializeUTXO utxoBytes = .ok (entry, outpoint) → SerializeUTXO entry outpoint <+: utxoBytes) := by
  constructor
  · intro entry outpoint fits
    have read := DeserializeUTXO_SerializeUTXO_append entry outpoint [] fits
    rwa [List.append_nil] at read
  · intro utxoBytes entry outpoint read
    obtain ⟨rest, split⟩ := SerializeUTXO_append_of_DeserializeUTXO read
    exact ⟨rest, split.symm⟩

theorem utxo_record_round_trips_coinbase :
    [0x51, 0xac].length < 2 ^ 64 ∧
      DeserializeUTXO (SerializeUTXO ⟨5000, ⟨[0x51, 0xac], 0⟩, 7, true⟩ ⟨⟨3⟩, 1⟩) =
        .ok (⟨5000, ⟨[0x51, 0xac], 0⟩, 7, true⟩, ⟨⟨3⟩, 1⟩) :=
  ⟨by decide, utxo_record_round_trips.1 _ _ (by decide)⟩

end Utxo
