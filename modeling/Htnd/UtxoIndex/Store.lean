import Htnd.Utxo.IteratorWithDiff
import Htnd.Lib.GoSemantics

/-!
The UTXO index (utxoindex/store.go, utxoindex.go): the outputs of the virtual UTXO set filed
under the script public key they pay, and a running total of their amounts. The index keys a
Go map by `ScriptPublicKeyString`, the version's two little-endian bytes followed by the
script; that string determines the key and is determined by it, so the key is the
`ScriptPublicKey` itself. Staged maps are association lists of association lists, the
database keys the index writes are three fields, and a database transaction that fails is
rolled back by keeping the database as it was.
-/
namespace UtxoIndex
open Utxo

abbrev UTXOOutpointEntryPairs := AList fun _ : DomainOutpoint => UTXOEntry

/-- A map from `ScriptPublicKeyString` to the pairs staged under it. -/
abbrev StagedPairs := AList fun _ : ScriptPublicKey => UTXOOutpointEntryPairs

inductive StoreError where
  | beingAddedAlready (outpoint : DomainOutpoint)
  | beingRemovedAlready (outpoint : DomainOutpoint)
  | stagingNotEmpty (subject : String)
  | keyNotFound
  deriving DecidableEq, Repr

def StoreError.message (outpointText : DomainOutpoint → String) (keyText : String) :
    StoreError → String
  | .beingAddedAlready outpoint =>
    "cannot add outpoint " ++ outpointText outpoint ++ " because it's being added already"
  | .beingRemovedAlready outpoint =>
    "cannot remove outpoint " ++ outpointText outpoint ++ " because it's being removed already"
  | .stagingNotEmpty subject => "cannot get " ++ subject ++ " while staging isn't empty"
  | .keyNotFound => "key " ++ keyText ++ " not found: not found"

structure Database where
  utxoIndexBucket : AList fun _ : ScriptPublicKey × DomainOutpoint => UTXOEntry
  virtualParents : Option (List DomainHash)
  circulatingSupply : Option UInt64

structure UTXOIndexStore where
  database : Database
  toAdd : StagedPairs
  toRemove : StagedPairs
  virtualParents : List DomainHash

structure UTXOChanges where
  added : StagedPairs
  removed : StagedPairs

/-- The part of `add` and `remove` past the opposite map: the key's pairs are created when
    missing, then the pair is staged unless its outpoint is staged there already. -/
def stageInSame (same : StagedPairs) (key : ScriptPublicKey) (outpoint : DomainOutpoint)
    (utxoEntry : UTXOEntry) : StagedPairs × Bool :=
  let pairs := (same.lookup key).getD ∅
  if outpoint ∈ pairs then (same.insert key pairs, false)
  else (same.insert key (pairs.insert outpoint utxoEntry), true)

def stagePair (opposite same : StagedPairs) (key : ScriptPublicKey) (outpoint : DomainOutpoint)
    (utxoEntry : UTXOEntry) : (StagedPairs × StagedPairs) × Bool :=
  match (opposite.lookup key).filter (outpoint ∈ ·) with
  | some pairs => ((opposite.insert key (pairs.erase outpoint), same), true)
  | none =>
    let (same, staged) := stageInSame same key outpoint utxoEntry
    ((opposite, same), staged)

namespace UTXOIndexStore

def add (uis : UTXOIndexStore) (scriptPublicKey : ScriptPublicKey) (outpoint : DomainOutpoint)
    (utxoEntry : UTXOEntry) : UTXOIndexStore × Option StoreError :=
  let ((toRemove, toAdd), staged) :=
    stagePair uis.toRemove uis.toAdd scriptPublicKey outpoint utxoEntry
  ({ uis with toAdd, toRemove }, if staged then none else some (.beingAddedAlready outpoint))

def remove (uis : UTXOIndexStore) (scriptPublicKey : ScriptPublicKey) (outpoint : DomainOutpoint)
    (utxoEntry : UTXOEntry) : UTXOIndexStore × Option StoreError :=
  let ((toAdd, toRemove), staged) :=
    stagePair uis.toAdd uis.toRemove scriptPublicKey outpoint utxoEntry
  ({ uis with toAdd, toRemove }, if staged then none else some (.beingRemovedAlready outpoint))

def updateVirtualParents (uis : UTXOIndexStore) (virtualParents : List DomainHash) :
    UTXOIndexStore :=
  { uis with virtualParents }

def discard (uis : UTXOIndexStore) : UTXOIndexStore :=
  { uis with toAdd := ∅, toRemove := ∅, virtualParents := [] }

def isAnythingStaged (uis : UTXOIndexStore) : Bool :=
  !uis.toAdd.entries.isEmpty || !uis.toRemove.entries.isEmpty

end UTXOIndexStore

def commitPairs (write : (AList fun _ : ScriptPublicKey × DomainOutpoint => UTXOEntry) →
      ScriptPublicKey × DomainOutpoint → UTXOEntry →
      AList fun _ : ScriptPublicKey × DomainOutpoint => UTXOEntry)
    (staged : StagedPairs) (rows : AList fun _ : ScriptPublicKey × DomainOutpoint => UTXOEntry) :
    (AList fun _ : ScriptPublicKey × DomainOutpoint => UTXOEntry) × UInt64 :=
  staged.entries.foldl (fun acc keyPairs => keyPairs.2.entries.foldl
    (fun acc pair => (write acc.1 (keyPairs.1, pair.1) pair.2, acc.2 + pair.2.amount)) acc)
    (rows, 0)

/-- Shared by `updateCirculatingSompiSupply` and its copy without a transaction: the supply
    changes only when the two totals differ, and then its key must be in the database. -/
def updateCirculatingSompiSupply (db : Database) (toAddSompiSupply toRemoveSompiSupply : UInt64) :
    Except StoreError Database :=
  if toAddSompiSupply != toRemoveSompiSupply then
    match db.circulatingSupply with
    | none => .error .keyNotFound
    | some circulatingSupply =>
      .ok { db with circulatingSupply := some (circulatingSupply + toAddSompiSupply - toRemoveSompiSupply) }
  else .ok db

namespace UTXOIndexStore

/-- Deletes the staged removals, puts the staged additions and the virtual parents, and moves
    the supply by the difference of the two totals, in one transaction; on success the staging
    is discarded, and on failure the transaction is rolled back and the staging kept. -/
def commit (uis : UTXOIndexStore) : UTXOIndexStore × Option StoreError :=
  let (rows, toRemoveSompiSupply) :=
    commitPairs (fun rows key _ => rows.erase key) uis.toRemove uis.database.utxoIndexBucket
  let (rows, toAddSompiSupply) :=
    commitPairs (fun rows key utxoEntry => rows.insert key utxoEntry) uis.toAdd rows
  let db := { uis.database with utxoIndexBucket := rows, virtualParents := some uis.virtualParents }
  match updateCirculatingSompiSupply db toAddSompiSupply toRemoveSompiSupply with
  | .error err => (uis, some err)
  | .ok database => ({ uis with database }.discard, none)

end UTXOIndexStore

def bucketPairs (bucket : AList fun _ : ScriptPublicKey × DomainOutpoint => UTXOEntry)
    (scriptPublicKey : ScriptPublicKey) : UTXOOutpointEntryPairs :=
  bucket.entries.foldl (fun pairs row =>
    if row.1.1 = scriptPublicKey then pairs.insert row.1.2 row.2 else pairs) ∅

namespace UTXOIndexStore

def getUTXOOutpointEntryPairs (uis : UTXOIndexStore) (scriptPublicKey : ScriptPublicKey) :
    Except StoreError UTXOOutpointEntryPairs :=
  if uis.isAnythingStaged then .error (.stagingNotEmpty "utxo outpoint entry pairs")
  else .ok (bucketPairs uis.database.utxoIndexBucket scriptPublicKey)

def getVirtualParents (uis : UTXOIndexStore) : Except StoreError (List DomainHash) :=
  if uis.isAnythingStaged then .error (.stagingNotEmpty "the virtual parents")
  else
    match uis.database.virtualParents with
    | none => .error .keyNotFound
    | some virtualParents => .ok virtualParents

def getCirculatingSompiSupply (uis : UTXOIndexStore) : Except StoreError UInt64 :=
  if uis.isAnythingStaged then .error (.stagingNotEmpty "circulatingSupply")
  else
    match uis.database.circulatingSupply with
    | none => .error .keyNotFound
    | some circulatingSupply => .ok circulatingSupply

end UTXOIndexStore

def deleteAll (_db : Database) : Database :=
  ⟨∅, none, none⟩

def initializeCirculatingSompiSupply (db : Database) : Database :=
  let circulatingSompiSupplyInDatabase :=
    db.utxoIndexBucket.entries.foldl (fun total row => total + row.2.amount) 0
  { db with circulatingSupply := some circulatingSompiSupplyInDatabase }

/-- The goroutines of `addAndCommitOutpointsWithoutTransaction` put rows of distinct outpoints,
    so the order they run in does not matter; their puts stay in the database when the supply
    update after them fails. -/
def addAndCommitOutpointsWithoutTransaction (db : Database)
    (utxoPairs : List OutpointAndUTXOEntryPair) : Database × Option StoreError :=
  let db := { db with utxoIndexBucket := utxoPairs.foldl (fun rows pair =>
    rows.insert (pair.2.scriptPublicKey, pair.1) pair.2) db.utxoIndexBucket }
  let toAddSompiSupply := utxoPairs.foldl (fun total pair => total + pair.2.amount) 0
  match updateCirculatingSompiSupply db toAddSompiSupply 0 with
  | .error err => (db, some err)
  | .ok db => (db, none)

def updateAndCommitVirtualParentsWithoutTransaction (db : Database)
    (virtualParents : List DomainHash) : Database :=
  { db with virtualParents := some virtualParents }

def resetStep : Nat := 1000

def resetBody (state : List OutpointAndUTXOEntryPair × Database) :
    Option (Except (StoreError × Database)
      ((List OutpointAndUTXOEntryPair × Database) ⊕ Database)) :=
  let virtualUTXOs := state.1.take resetStep
  match addAndCommitOutpointsWithoutTransaction state.2 virtualUTXOs with
  | (db, some err) => some (.error (err, db))
  | (db, none) =>
    if virtualUTXOs.length < resetStep then some (.ok (.inr db))
    else some (.ok (.inl (state.1.drop resetStep, db)))

namespace UTXOIndexStore

def reset (fuel : Nat) (uis : UTXOIndexStore) (virtualUTXOs : List OutpointAndUTXOEntryPair)
    (parentHashes : List DomainHash) : Option (UTXOIndexStore × Option StoreError) :=
  let db := initializeCirculatingSompiSupply (deleteAll uis.database)
  (GoSemantics.loop resetBody fuel (virtualUTXOs, db)).map fun
    | .error (err, db) => ({ uis with database := db }, some err)
    | .ok db =>
      ({ uis with database := updateAndCommitVirtualParentsWithoutTransaction db parentHashes }, none)

end UTXOIndexStore

def stageEach (stage : UTXOIndexStore → ScriptPublicKey → DomainOutpoint → UTXOEntry →
      UTXOIndexStore × Option StoreError) (uis : UTXOIndexStore) :
    List OutpointAndUTXOEntryPair → UTXOIndexStore × Option StoreError
  | [] => (uis, none)
  | pair :: rest =>
    match stage uis pair.2.scriptPublicKey pair.1 pair.2 with
    | (uis, none) => stageEach stage uis rest
    | (uis, some err) => (uis, some err)

namespace UTXOIndexStore

def removeUTXOs (uis : UTXOIndexStore) (toRemove : UTXOCollection) :
    UTXOIndexStore × Option StoreError :=
  stageEach remove uis toRemove.entries

def addUTXOs (uis : UTXOIndexStore) (toAdd : UTXOCollection) :
    UTXOIndexStore × Option StoreError :=
  stageEach add uis toAdd.entries

def update (uis : UTXOIndexStore) (virtualUTXODiff : MutableUTXODiff)
    (virtualParents : List DomainHash) : UTXOIndexStore × Except StoreError UTXOChanges :=
  match uis.removeUTXOs virtualUTXODiff.toRemove with
  | (uis, some err) => (uis, .error err)
  | (uis, none) =>
    match uis.addUTXOs virtualUTXODiff.toAdd with
    | (uis, some err) => (uis, .error err)
    | (uis, none) =>
      let uis := uis.updateVirtualParents virtualParents
      let utxoIndexChanges : UTXOChanges := ⟨uis.toAdd, uis.toRemove⟩
      match uis.commit with
      | (uis, some err) => (uis, .error err)
      | (uis, none) => (uis, .ok utxoIndexChanges)

end UTXOIndexStore

end UtxoIndex
