import Mathlib
import Htnd.Lib.KeyedFold

/- UTXO entries and the collections that hold them (utxo_entry.go, utxo_collection.go).
   A Go map keyed by outpoint is an association list; a range loop over it is a fold
   over its entries, in whatever order the list holds them. -/
namespace Utxo
open KeyedFold

structure DomainHash where
  value : Fin (2 ^ 256)
  deriving DecidableEq, Repr

instance (priority := high) twoPow256NeZero : NeZero (2 ^ 256 : Nat) := ⟨by decide⟩

/-- `DomainHash.String`: the 32 bytes of the hash, most significant first, in lowercase hex. -/
def DomainHash.string (hash : DomainHash) : String :=
  String.ofList ((List.range 64).reverse.map fun i => Nat.digitChar (hash.value.val / 16 ^ i % 16))

abbrev DomainTransactionID := DomainHash

structure DomainOutpoint where
  transactionID : DomainTransactionID
  index : UInt32
  deriving DecidableEq, Repr

structure ScriptPublicKey where
  script : List UInt8
  version : UInt16
  deriving DecidableEq, Repr

structure UTXOEntry where
  amount : UInt64
  scriptPublicKey : ScriptPublicKey
  blockDAAScore : UInt64
  isCoinbase : Bool
  deriving DecidableEq, Repr

abbrev UTXOCollection := AList fun _ : DomainOutpoint => UTXOEntry

instance (priority := high) : DecidableEq UTXOCollection := fun a b =>
  decidable_of_iff (a.entries = b.entries) ⟨AList.ext, fun same => same ▸ rfl⟩

def hasDAAScore (x : Option UTXOEntry) (daaScore : UInt64) : Bool :=
  x.any fun entry => entry.blockDAAScore == daaScore

@[simp] theorem hasDAAScore_none (daaScore : UInt64) : hasDAAScore none daaScore = false := rfl

@[simp] theorem hasDAAScore_some (e : UTXOEntry) (daaScore : UInt64) :
    hasDAAScore (some e) daaScore = (e.blockDAAScore == daaScore) := rfl

namespace UTXOCollection

def get (uc : UTXOCollection) (outpoint : DomainOutpoint) : Option UTXOEntry :=
  uc.lookup outpoint

def contains (uc : UTXOCollection) (outpoint : DomainOutpoint) : Bool :=
  (uc.get outpoint).isSome

def add (uc : UTXOCollection) (outpoint : DomainOutpoint) (entry : UTXOEntry) :
    UTXOCollection :=
  uc.insert outpoint entry

def remove (uc : UTXOCollection) (outpoint : DomainOutpoint) : UTXOCollection :=
  uc.erase outpoint

def removeMultiple (uc collectionToRemove : UTXOCollection) : UTXOCollection :=
  collectionToRemove.entries.foldl (fun uc e => uc.remove e.1) uc

def containsWithDAAScore (uc : UTXOCollection) (outpoint : DomainOutpoint)
    (daaScore : UInt64) : Bool :=
  (uc.get outpoint).any fun entry => entry.blockDAAScore == daaScore

@[simp] theorem get_eq (uc : UTXOCollection) (o : DomainOutpoint) : uc.get o = uc.lookup o :=
  rfl

@[simp] theorem contains_eq (uc : UTXOCollection) (o : DomainOutpoint) :
    uc.contains o = decide (o ∈ uc) := by
  simp [contains, ← AList.lookup_isSome]

@[simp] theorem containsWithDAAScore_eq (uc : UTXOCollection) (o : DomainOutpoint)
    (daaScore : UInt64) :
    uc.containsWithDAAScore o daaScore = hasDAAScore (uc.lookup o) daaScore :=
  rfl

@[simp] theorem lookup_add (uc : UTXOCollection) (o o' : DomainOutpoint) (e : UTXOEntry) :
    (uc.add o e).lookup o' = if o' = o then some e else uc.lookup o' := by
  by_cases same : o' = o
  · subst same
    simp [add, AList.lookup_insert]
  · simp [add, same, AList.lookup_insert_ne same]

@[simp] theorem lookup_removeMultiple (uc c : UTXOCollection) (o : DomainOutpoint) :
    (uc.removeMultiple c).lookup o = if o ∈ c then none else uc.lookup o := by
  have erased : (uc.removeMultiple c).lookup o = if o ∈ c.keys then none else uc.lookup o :=
    lookup_eraseKeys c.entries uc o
  simpa only [AList.mem_keys] using erased

theorem all_entries_iff (uc : UTXOCollection) (p : DomainOutpoint → UTXOEntry → Bool) :
    uc.entries.all (fun e => p e.1 e.2) = true ↔ ∀ o e, uc.lookup o = some e → p o e = true := by
  simp only [List.all_eq_true]
  constructor
  · intro all o e found
    exact all ⟨o, e⟩ ((List.mem_dlookup_iff uc.nodupKeys).mp found)
  · rintro all ⟨o, e⟩ mem
    exact all o e ((List.mem_dlookup_iff uc.nodupKeys).mpr mem)

end UTXOCollection

end Utxo
