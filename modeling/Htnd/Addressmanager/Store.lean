import Mathlib.Data.List.AList

/-!
The store of the address manager (store.go): the addresses that are not banned, keyed by IP and
port, and the banned addresses, keyed by the IP alone. A Go map is an association list with one
entry per key; the database that mirrors the two maps is left out.
-/
namespace Addressmanager

structure NetAddress (IP : Type) where
  IP : IP
  Port : UInt16
  Timestamp : Int
  deriving DecidableEq, Repr

structure AddressKey (IP : Type) where
  port : UInt16
  address : IP
  deriving DecidableEq, Repr

def netAddressKey {IP : Type} (netAddress : NetAddress IP) : AddressKey IP :=
  ⟨netAddress.Port, netAddress.IP⟩

/-- An entry of the not-banned map. Times are in milliseconds, and `none` is time.Time{}. -/
structure Address (IP : Type) where
  netAddress : NetAddress IP
  connectionFailedCount : Nat
  lastAttempt : Option Int
  lastSuccess : Option Int
  firstSeen : Int

structure AddressStore (IP : Type) where
  notBannedAddresses : AList fun _ : AddressKey IP => Address IP
  bannedAddresses : AList fun _ : IP => NetAddress IP

inductive AddressError (IP : Type) where
  /-- "address %s is not registered with the address manager" -/
  | notRegistered (address : NetAddress IP)
  /-- "address %s is not in the store" -/
  | notInStore (address : NetAddress IP)
  /-- ErrAddressNotFound, "address %s is not registered with the address manager" and
      " as banned" after it for Unban -/
  | addressNotFound (address : NetAddress IP) (asBanned : Bool)

namespace AddressStore

variable {IP : Type} [DecidableEq IP]

def empty : AddressStore IP := ⟨∅, ∅⟩

def notBannedCount (as : AddressStore IP) : Nat := as.notBannedAddresses.entries.length

def add (as : AddressStore IP) (key : AddressKey IP) (address : Address IP) : AddressStore IP :=
  if key ∈ as.notBannedAddresses then as
  else { as with notBannedAddresses := as.notBannedAddresses.insert key address }

def updateNotBanned (as : AddressStore IP) (key : AddressKey IP) (address : Address IP) :
    Except (AddressError IP) (AddressStore IP) :=
  if key ∈ as.notBannedAddresses then
    .ok { as with notBannedAddresses := as.notBannedAddresses.insert key address }
  else .error (.notInStore address.netAddress)

def getNotBanned (as : AddressStore IP) (key : AddressKey IP) : Option (Address IP) :=
  as.notBannedAddresses.lookup key

def remove (as : AddressStore IP) (key : AddressKey IP) : AddressStore IP :=
  { as with notBannedAddresses := as.notBannedAddresses.erase key }

def getAllNotBanned (as : AddressStore IP) : List (Address IP) :=
  as.notBannedAddresses.entries.map (·.2)

def getAllNotBannedNetAddresses (as : AddressStore IP) : List (NetAddress IP) :=
  as.getAllNotBanned.map (·.netAddress)

def getAllNotBannedNetAddressesWithout (as : AddressStore IP) (ignoredAddresses : List (NetAddress IP)) :
    List (Address IP) :=
  let ignoredKeys := ignoredAddresses.map netAddressKey
  (as.notBannedAddresses.entries.filter fun entry => entry.1 ∉ ignoredKeys).map (·.2)

def isNotBanned (as : AddressStore IP) (key : AddressKey IP) : Bool := key ∈ as.notBannedAddresses

def addBanned (as : AddressStore IP) (key : AddressKey IP) (address : NetAddress IP) : AddressStore IP :=
  if key.address ∈ as.bannedAddresses then as
  else { as with bannedAddresses := as.bannedAddresses.insert key.address address }

def removeBanned (as : AddressStore IP) (key : AddressKey IP) : AddressStore IP :=
  { as with bannedAddresses := as.bannedAddresses.erase key.address }

def getAllBannedNetAddresses (as : AddressStore IP) : List (NetAddress IP) :=
  as.bannedAddresses.entries.map (·.2)

def isBanned (as : AddressStore IP) (key : AddressKey IP) : Bool := key.address ∈ as.bannedAddresses

def getBanned (as : AddressStore IP) (key : AddressKey IP) : Option (NetAddress IP) :=
  as.bannedAddresses.lookup key.address

/-! What each operation does to the two maps. -/

variable {as : AddressStore IP} {key key' : AddressKey IP}

@[simp] theorem bannedAddresses_add (address : Address IP) :
    (as.add key address).bannedAddresses = as.bannedAddresses := by
  unfold add
  split <;> rfl

@[simp] theorem bannedAddresses_remove : (as.remove key).bannedAddresses = as.bannedAddresses := rfl

@[simp] theorem notBannedAddresses_addBanned (address : NetAddress IP) :
    (as.addBanned key address).notBannedAddresses = as.notBannedAddresses := by
  unfold addBanned
  split <;> rfl

@[simp] theorem notBannedAddresses_removeBanned :
    (as.removeBanned key).notBannedAddresses = as.notBannedAddresses := rfl

@[simp] theorem bannedAddresses_removeBanned :
    (as.removeBanned key).bannedAddresses = as.bannedAddresses.erase key.address := rfl

@[simp] theorem notBannedAddresses_remove :
    (as.remove key).notBannedAddresses = as.notBannedAddresses.erase key := rfl

theorem notBannedAddresses_add (address : Address IP) (absent : key ∉ as.notBannedAddresses) :
    (as.add key address).notBannedAddresses = as.notBannedAddresses.insert key address := by
  rw [add, if_neg absent]

theorem updateNotBanned_eq_ok (address : Address IP) {as' : AddressStore IP}
    (updated : as.updateNotBanned key address = .ok as') :
    key ∈ as.notBannedAddresses ∧ as' = { as with notBannedAddresses := as.notBannedAddresses.insert key address } := by
  unfold updateNotBanned at updated
  split at updated
  · cases updated
    exact ⟨‹_›, rfl⟩
  · cases updated

theorem updateNotBanned_of_mem (address : Address IP) (present : key ∈ as.notBannedAddresses) :
    as.updateNotBanned key address = .ok { as with notBannedAddresses := as.notBannedAddresses.insert key address } := by
  rw [updateNotBanned, if_pos present]

theorem bannedAddresses_addBanned {ip : IP} (address : NetAddress IP) (same : key.address = ip) :
    (as.addBanned key address).bannedAddresses.lookup ip = (as.bannedAddresses.lookup ip).or (some address) := by
  subst same
  unfold addBanned
  split
  · rename_i banned
    obtain ⟨b, found⟩ := Option.isSome_iff_exists.1 (AList.lookup_isSome.2 banned)
    simp [found]
  · rename_i free
    simp [AList.lookup_eq_none.2 free]

theorem forall_getNotBanned_remove {P : AddressKey IP → Address IP → Prop}
    (all : ∀ k a, as.getNotBanned k = some a → P k a) :
    ∀ k a, (as.remove key).getNotBanned k = some a → P k a := by
  intro k a found
  by_cases same : k = key
  · subst same
    simp [getNotBanned] at found
  · exact all k a (by simpa [getNotBanned, AList.lookup_erase_ne same] using found)

theorem forall_getNotBanned_insert {P : AddressKey IP → Address IP → Prop}
    (all : ∀ k a, as.getNotBanned k = some a → P k a) {address : Address IP} (new : P key address) :
    ∀ k a, ({ as with notBannedAddresses := as.notBannedAddresses.insert key address } :
      AddressStore IP).getNotBanned k = some a → P k a := by
  intro k a found
  by_cases same : k = key
  · subst same
    simp only [getNotBanned, AList.lookup_insert, Option.some.injEq] at found
    rwa [← found]
  · exact all k a (by simpa [getNotBanned, AList.lookup_insert_ne same] using found)

theorem mem_getAllNotBanned {address : Address IP} :
    address ∈ as.getAllNotBanned ↔ ∃ key, as.getNotBanned key = some address := by
  simp [getAllNotBanned, getNotBanned, ← AList.mem_lookup_iff]

theorem mem_getAllNotBannedNetAddressesWithout {ignored : List (NetAddress IP)} {address : Address IP}
    (mem : address ∈ as.getAllNotBannedNetAddressesWithout ignored) : address ∈ as.getAllNotBanned := by
  simp only [getAllNotBannedNetAddressesWithout, List.mem_map, List.mem_filter] at mem
  obtain ⟨entry, ⟨found, -⟩, rfl⟩ := mem
  exact List.mem_map_of_mem found

end AddressStore

end Addressmanager
