import Htnd.Addressmanager.Store
import Htnd.Lib.GoSemantics

/-!
The address manager (addressmanager.go): gossiped addresses are added, connection failures and
successes are counted, and addresses are banned by IP. Every call is a function of the store and
the time it is made at, in milliseconds; `IsRoutable` is IsRoutable(na, cfg.AcceptUnroutable).
-/
namespace Addressmanager

def maxAddresses : Nat := 16384

def connectionFailedCountForRemove : Nat := 6

def maxConnectionFailureAge : Int := 24 * 60 * 60 * 1000

def maxBanTime : Int := 24 * 60 * 60 * 1000

/-- The addressRandomizer interface, with what AddressRandomize guarantees: it returns `count` of
    the given addresses, or all of them when there are fewer. -/
structure Randomizer (IP : Type) where
  RandomAddresses : List (Address IP) → Int → List (NetAddress IP)
  mem_of_mem : ∀ addresses count a, a ∈ RandomAddresses addresses count →
    ∃ address ∈ addresses, address.netAddress = a
  length_eq : ∀ addresses count, (RandomAddresses addresses count).length = min addresses.length count.toNat

/-- The first `count` addresses: a randomizer with both guarantees, so that they can hold
    together. -/
def firstAddresses (IP : Type) : Randomizer IP where
  RandomAddresses addresses count := (addresses.take count.toNat).map (·.netAddress)
  mem_of_mem addresses count a mem := by
    obtain ⟨address, taken, rfl⟩ := List.mem_map.1 mem
    exact ⟨address, List.mem_of_mem_take taken, rfl⟩
  length_eq addresses count := by simp [Nat.min_comm]

def hours (d : Int) : Float := Float.ofInt d / 3600000

def removalScore {IP : Type} (now : Int) (addr : Address IP) : Float :=
  let age := hours (now - addr.firstSeen)
  let failureWeight := Float.ofNat addr.connectionFailedCount * 10.0
  let timeSinceSuccess := match addr.lastSuccess with
    | some lastSuccess => hours (now - lastSuccess)
    | none => age
  failureWeight + age / 24.0 + timeSinceSuccess / 12.0

def toRemove {IP : Type} (now : Int) (allAddresses : List (Address IP)) : Option (Address IP) :=
  (allAddresses.foldl (fun (best : Option (Address IP) × Float) addr =>
    if removalScore now addr > best.2 then (some addr, removalScore now addr) else best) (none, -1)).1

section Manager

variable {IP : Type} [DecidableEq IP] (IsRoutable : NetAddress IP → Bool)

def removeAddressNoLock (as : AddressStore IP) (address : NetAddress IP) : AddressStore IP :=
  as.remove (netAddressKey address)

def addAddressNoLock (now : Int) (as : AddressStore IP) (netAddress : NetAddress IP) :
    Except (AddressError IP) (AddressStore IP) :=
  if !IsRoutable netAddress then .ok as
  else
    let key := netAddressKey netAddress
    match as.getNotBanned key with
    -- an existing address keeps its failure count
    | some existing => as.updateNotBanned key { existing with firstSeen := now }
    | none =>
      let as := as.add key ⟨netAddress, 0, none, none, now⟩
      if as.notBannedCount > maxAddresses then
        match toRemove now as.getAllNotBanned with
        | some worst => .ok (removeAddressNoLock as worst.netAddress)
        | none => .ok as
      else .ok as

def AddAddress (now : Int) (as : AddressStore IP) (address : NetAddress IP) :
    Except (AddressError IP) (AddressStore IP) :=
  addAddressNoLock IsRoutable now as address

def AddAddresses (now : Int) (as : AddressStore IP) (addresses : List (NetAddress IP)) :
    Except (AddressError IP) (AddressStore IP) :=
  addresses.foldlM (addAddressNoLock IsRoutable now) as

def RemoveAddress (as : AddressStore IP) (address : NetAddress IP) : AddressStore IP :=
  removeAddressNoLock as address

def MarkConnectionFailure (now : Int) (as : AddressStore IP) (address : NetAddress IP) :
    Except (AddressError IP) (AddressStore IP) :=
  let key := netAddressKey address
  match as.getNotBanned key with
  | none => .error (.notRegistered address)
  | some entry =>
    let entry := { entry with lastAttempt := some now }
    -- the decay test reads lastAttempt after it was set to now
    let decayed := match entry.lastAttempt with
      | some lastAttempt => now - lastAttempt > maxConnectionFailureAge
      | none => false
    let entry := if decayed then { entry with connectionFailedCount := 0 } else entry
    let entry := { entry with connectionFailedCount := entry.connectionFailedCount + 1 }
    if entry.connectionFailedCount ≥ connectionFailedCountForRemove then .ok (as.remove key)
    else as.updateNotBanned key entry

def MarkConnectionSuccess (now : Int) (as : AddressStore IP) (address : NetAddress IP) :
    Except (AddressError IP) (AddressStore IP) :=
  let key := netAddressKey address
  match as.getNotBanned key with
  | none => .error (.notRegistered address)
  | some entry =>
    as.updateNotBanned key
      { entry with connectionFailedCount := 0, lastSuccess := some now, lastAttempt := some now }

def Addresses (as : AddressStore IP) : List (NetAddress IP) := as.getAllNotBannedNetAddresses

def BannedAddresses (as : AddressStore IP) : List (NetAddress IP) := as.getAllBannedNetAddresses

def RandomAddresses (random : Randomizer IP) (as : AddressStore IP) (count : Int)
    (exceptions : List (NetAddress IP)) : List (NetAddress IP) :=
  random.RandomAddresses (as.getAllNotBannedNetAddressesWithout exceptions) count

def Ban (as : AddressStore IP) (addressToBan : NetAddress IP) : AddressStore IP :=
  let keyToBan := netAddressKey addressToBan
  let keysToDelete := (as.getAllNotBannedNetAddresses.map netAddressKey).filter
    fun key => key.address = keyToBan.address
  let as := keysToDelete.foldl AddressStore.remove as
  as.addBanned keyToBan addressToBan

def Unban (as : AddressStore IP) (address : NetAddress IP) : Except (AddressError IP) (AddressStore IP) :=
  let key := netAddressKey address
  if !as.isBanned key then .error (.addressNotFound address true)
  else .ok (as.removeBanned key)

def unbanIfOldEnough (now : Int) (as : AddressStore IP) (key : AddressKey IP) : AddressStore IP :=
  match as.getBanned key with
  | none => as
  | some address => if now - address.Timestamp > maxBanTime then as.removeBanned key else as

def IsBanned (now : Int) (as : AddressStore IP) (address : NetAddress IP) :
    Except (AddressError IP) Bool × AddressStore IP :=
  let key := netAddressKey address
  let as := unbanIfOldEnough now as key
  if !as.isBanned key then
    if !as.isNotBanned key then (.error (.addressNotFound address false), as) else (.ok false, as)
  else (.ok true, as)

end Manager

inductive Call (IP : Type) where
  | addAddress (address : NetAddress IP)
  | addAddresses (addresses : List (NetAddress IP))
  | removeAddress (address : NetAddress IP)
  | markConnectionFailure (address : NetAddress IP)
  | markConnectionSuccess (address : NetAddress IP)
  | ban (address : NetAddress IP)
  | unban (address : NetAddress IP)
  | isBanned (address : NetAddress IP)

def Call.added {IP : Type} : Call IP → List (NetAddress IP)
  | .addAddress address => [address]
  | .addAddresses addresses => addresses
  | _ => []

section Run

variable {IP : Type} [DecidableEq IP] (IsRoutable : NetAddress IP → Bool)

def step (as : AddressStore IP) : Int × Call IP → AddressStore IP
  | (now, .addAddress address) => (AddAddress IsRoutable now as address).toOption.getD as
  | (now, .addAddresses addresses) => (AddAddresses IsRoutable now as addresses).toOption.getD as
  | (_, .removeAddress address) => RemoveAddress as address
  | (now, .markConnectionFailure address) => (MarkConnectionFailure now as address).toOption.getD as
  | (now, .markConnectionSuccess address) => (MarkConnectionSuccess now as address).toOption.getD as
  | (_, .ban address) => Ban as address
  | (_, .unban address) => (Unban as address).toOption.getD as
  | (now, .isBanned address) => (IsBanned now as address).2

def run (as : AddressStore IP) (calls : List (Int × Call IP)) : AddressStore IP :=
  calls.foldl (step IsRoutable) as

end Run

variable {IP : Type} [DecidableEq IP]

theorem zero_lt_connectionFailedCountForRemove : 0 < connectionFailedCountForRemove := by decide

omit [DecidableEq IP] in
theorem mem_of_toRemove {now : Int} {allAddresses : List (Address IP)} {worst : Address IP}
    (chosen : toRemove now allAddresses = some worst) : worst ∈ allAddresses := by
  have scan : ∀ (rest : List (Address IP)) (best : Option (Address IP) × Float),
      rest ⊆ allAddresses → (∀ w, best.1 = some w → w ∈ allAddresses) →
      ∀ w, (rest.foldl (fun (best : Option (Address IP) × Float) addr =>
        if removalScore now addr > best.2 then (some addr, removalScore now addr) else best) best).1 = some w →
        w ∈ allAddresses := by
    intro rest
    induction rest with
    | nil => exact fun best _ kept => kept
    | cons addr rest ih =>
      intro best sub kept
      rw [List.foldl_cons]
      apply ih _ (List.subset_of_cons_subset sub)
      split
      · intro w picked
        cases picked
        exact sub List.mem_cons_self
      · exact kept
  exact scan allAddresses (none, -1) (fun _ mem => mem) (fun _ none => by cases none) worst chosen

namespace AddressStore

structure WellFormed (as : AddressStore IP) : Prop where
  keyed : ∀ key address, as.getNotBanned key = some address → netAddressKey address.netAddress = key
  failedCount_lt : ∀ key address, as.getNotBanned key = some address →
    address.connectionFailedCount < connectionFailedCountForRemove

variable {as as' : AddressStore IP}

theorem wellFormed_empty : (empty : AddressStore IP).WellFormed where
  keyed _ _ found := by cases found
  failedCount_lt _ _ found := by cases found

theorem WellFormed.of_notBannedAddresses (wf : as.WellFormed)
    (same : as'.notBannedAddresses = as.notBannedAddresses) : as'.WellFormed where
  keyed key address found := wf.keyed key address (by rwa [getNotBanned, ← same])
  failedCount_lt key address found := wf.failedCount_lt key address (by rwa [getNotBanned, ← same])

theorem WellFormed.remove (wf : as.WellFormed) (key : AddressKey IP) : (as.remove key).WellFormed :=
  ⟨forall_getNotBanned_remove wf.keyed, forall_getNotBanned_remove wf.failedCount_lt⟩

theorem WellFormed.insert (wf : as.WellFormed) {key : AddressKey IP} {address : Address IP}
    (keyed : netAddressKey address.netAddress = key)
    (below : address.connectionFailedCount < connectionFailedCountForRemove) :
    ({ as with notBannedAddresses := as.notBannedAddresses.insert key address } : AddressStore IP).WellFormed :=
  ⟨forall_getNotBanned_insert wf.keyed keyed, forall_getNotBanned_insert wf.failedCount_lt below⟩

theorem WellFormed.add (wf : as.WellFormed) {key : AddressKey IP} {address : Address IP}
    (keyed : netAddressKey address.netAddress = key)
    (below : address.connectionFailedCount < connectionFailedCountForRemove) :
    (as.add key address).WellFormed := by
  unfold AddressStore.add
  split
  · exact wf
  · exact wf.insert keyed below

theorem mem_add {key k : AddressKey IP} {address : Address IP} (mem : k ∈ (as.add key address).notBannedAddresses) :
    k = key ∨ k ∈ as.notBannedAddresses := by
  unfold add at mem
  split at mem
  · exact .inr mem
  · exact (AList.mem_insert _).1 mem

omit [DecidableEq IP] in
@[simp] theorem notBannedCount_empty : (empty : AddressStore IP).notBannedCount = 0 := rfl

theorem notBannedCount_add {key : AddressKey IP} {address : Address IP} (absent : key ∉ as.notBannedAddresses) :
    (as.add key address).notBannedCount = as.notBannedCount + 1 := by
  rw [notBannedCount, notBannedAddresses_add address absent, AList.entries_insert, List.length_cons,
    List.kerase_of_notMem_keys fun mem => absent (AList.mem_keys.2 mem)]
  rfl

theorem mem_of_getNotBanned {key : AddressKey IP} {address : Address IP} (found : as.getNotBanned key = some address) :
    key ∈ as.notBannedAddresses :=
  AList.lookup_isSome.1 (by rw [getNotBanned] at found; rw [found]; rfl)

end AddressStore

open AddressStore

section Manager

variable (IsRoutable : NetAddress IP → Bool) {now : Int} {as as' : AddressStore IP} {a : NetAddress IP}

theorem addAddressNoLock_cases (added : addAddressNoLock IsRoutable now as a = .ok as') :
    as' = as ∨
    (∃ existing, as.getNotBanned (netAddressKey a) = some existing ∧
      as' = { as with notBannedAddresses :=
        as.notBannedAddresses.insert (netAddressKey a) { existing with firstSeen := now } }) ∨
    (as.getNotBanned (netAddressKey a) = none ∧
      (as' = as.add (netAddressKey a) ⟨a, 0, none, none, now⟩ ∨
        ∃ worst ∈ (as.add (netAddressKey a) ⟨a, 0, none, none, now⟩).getAllNotBanned,
          as' = (as.add (netAddressKey a) ⟨a, 0, none, none, now⟩).remove (netAddressKey worst.netAddress))) := by
  unfold addAddressNoLock at added
  dsimp only at added
  split at added
  · cases added
    exact .inl rfl
  · split at added
    · rename_i existing found
      exact .inr (.inl ⟨existing, found, (updateNotBanned_eq_ok _ added).2⟩)
    · rename_i absent
      refine .inr (.inr ⟨absent, ?_⟩)
      split at added
      · split at added
        · rename_i worst chosen
          cases added
          exact .inr ⟨worst, mem_of_toRemove chosen, rfl⟩
        · cases added
          exact .inl rfl
      · cases added
        exact .inl rfl

theorem addAddressNoLock_ok (now : Int) (as : AddressStore IP) (a : NetAddress IP) :
    ∃ as', addAddressNoLock IsRoutable now as a = .ok as' := by
  unfold addAddressNoLock
  dsimp only
  split
  · exact ⟨_, rfl⟩
  · split
    · rename_i existing found
      exact ⟨_, updateNotBanned_of_mem _ (mem_of_getNotBanned found)⟩
    · split
      · split <;> exact ⟨_, rfl⟩
      · exact ⟨_, rfl⟩

theorem AddressStore.WellFormed.addAddressNoLock (wf : as.WellFormed) (added : addAddressNoLock IsRoutable now as a = .ok as') :
    as'.WellFormed := by
  have fresh : (as.add (netAddressKey a) ⟨a, 0, none, none, now⟩).WellFormed :=
    wf.add rfl zero_lt_connectionFailedCountForRemove
  rcases addAddressNoLock_cases IsRoutable added with rfl | ⟨existing, found, rfl⟩ | ⟨-, rfl | ⟨worst, -, rfl⟩⟩
  · exact wf
  · exact wf.insert (wf.keyed _ existing found) (wf.failedCount_lt _ existing found)
  · exact fresh
  · exact fresh.remove _

theorem mem_of_addAddressNoLock (added : addAddressNoLock IsRoutable now as a = .ok as') {key : AddressKey IP}
    (mem : key ∈ as'.notBannedAddresses) : key ∈ as.notBannedAddresses ∨ key = netAddressKey a := by
  rcases addAddressNoLock_cases IsRoutable added with rfl | ⟨existing, found, rfl⟩ | ⟨-, rfl | ⟨worst, -, rfl⟩⟩
  · exact .inl mem
  · exact ((AList.mem_insert _).1 mem).symm
  · exact (mem_add mem).symm
  · exact (mem_add ((AList.mem_erase).1 mem).2).symm

theorem addAddressNoLock_of_none (routable : IsRoutable a = true)
    (absent : as.getNotBanned (netAddressKey a) = none) (room : as.notBannedCount < maxAddresses) :
    addAddressNoLock IsRoutable now as a = .ok (as.add (netAddressKey a) ⟨a, 0, none, none, now⟩) := by
  have fits : ¬ (as.add (netAddressKey a) ⟨a, 0, none, none, now⟩).notBannedCount > maxAddresses := by
    rw [notBannedCount_add (AList.lookup_eq_none.1 absent)]
    omega
  simp only [addAddressNoLock, routable, Bool.not_true, Bool.false_eq_true, if_false, absent, fits]

theorem MarkConnectionFailure_of_getNotBanned {entry : Address IP}
    (found : as.getNotBanned (netAddressKey a) = some entry) :
    MarkConnectionFailure now as a =
      if entry.connectionFailedCount + 1 ≥ connectionFailedCountForRemove then .ok (as.remove (netAddressKey a))
      else .ok { as with notBannedAddresses := (as.notBannedAddresses.insert (netAddressKey a)
        { entry with lastAttempt := some now, connectionFailedCount := entry.connectionFailedCount + 1 }) } := by
  have noDecay : ¬ now - now > maxConnectionFailureAge := by simp [maxConnectionFailureAge]
  unfold MarkConnectionFailure
  dsimp only
  rw [found]
  dsimp only
  rw [if_neg noDecay]
  split
  · rfl
  · exact updateNotBanned_of_mem _ (mem_of_getNotBanned found)

theorem MarkConnectionSuccess_of_getNotBanned {entry : Address IP}
    (found : as.getNotBanned (netAddressKey a) = some entry) :
    MarkConnectionSuccess now as a =
      .ok { as with notBannedAddresses := (as.notBannedAddresses.insert (netAddressKey a)
        { entry with connectionFailedCount := 0, lastSuccess := some now, lastAttempt := some now }) } := by
  unfold MarkConnectionSuccess
  dsimp only
  rw [found]
  exact updateNotBanned_of_mem _ (mem_of_getNotBanned found)

theorem MarkConnection_of_getNotBanned_none (now : Int) (absent : as.getNotBanned (netAddressKey a) = none) :
    MarkConnectionFailure now as a = .error (.notRegistered a) ∧
      MarkConnectionSuccess now as a = .error (.notRegistered a) := by
  constructor
  · unfold MarkConnectionFailure
    dsimp only
    rw [absent]
  · unfold MarkConnectionSuccess
    dsimp only
    rw [absent]

theorem MarkConnection_cases {as' : AddressStore IP}
    (marked : MarkConnectionFailure now as a = .ok as' ∨ MarkConnectionSuccess now as a = .ok as') :
    ∃ entry, as.getNotBanned (netAddressKey a) = some entry ∧
      (as' = as.remove (netAddressKey a) ∨
        ∃ entry', entry'.netAddress = entry.netAddress ∧
          entry'.connectionFailedCount < connectionFailedCountForRemove ∧
          as' = { as with notBannedAddresses := as.notBannedAddresses.insert (netAddressKey a) entry' }) := by
  cases found : as.getNotBanned (netAddressKey a) with
  | none =>
    obtain ⟨failure, success⟩ := MarkConnection_of_getNotBanned_none now found
    rcases marked with marked | marked
    · rw [failure] at marked
      cases marked
    · rw [success] at marked
      cases marked
  | some entry =>
    refine ⟨entry, rfl, ?_⟩
    rcases marked with marked | marked
    · rw [MarkConnectionFailure_of_getNotBanned found] at marked
      split at marked
      · cases marked
        exact .inl rfl
      · rename_i below
        cases marked
        refine .inr ⟨{ entry with lastAttempt := some now, connectionFailedCount := entry.connectionFailedCount + 1 },
          rfl, ?_, rfl⟩
        simpa using below
    · rw [MarkConnectionSuccess_of_getNotBanned found] at marked
      cases marked
      exact .inr ⟨{ entry with connectionFailedCount := 0, lastSuccess := some now, lastAttempt := some now },
        rfl, zero_lt_connectionFailedCountForRemove, rfl⟩

theorem mem_keys_getAllNotBannedNetAddresses (wf : as.WellFormed) {key : AddressKey IP} :
    key ∈ as.getAllNotBannedNetAddresses.map netAddressKey ↔ key ∈ as.notBannedAddresses := by
  constructor
  · intro mem
    obtain ⟨netAddress, listed, rfl⟩ := List.mem_map.1 mem
    obtain ⟨address, stored, rfl⟩ := List.mem_map.1 listed
    obtain ⟨k, found⟩ := mem_getAllNotBanned.1 stored
    rw [wf.keyed k address found]
    exact mem_of_getNotBanned found
  · intro mem
    obtain ⟨address, found⟩ := Option.isSome_iff_exists.1 (AList.lookup_isSome.2 mem)
    exact List.mem_map.2 ⟨address.netAddress,
      List.mem_map.2 ⟨address, mem_getAllNotBanned.2 ⟨key, found⟩, rfl⟩, wf.keyed key address found⟩

theorem mem_foldl_remove (keys : List (AddressKey IP)) (as : AddressStore IP) {key : AddressKey IP} :
    key ∈ (keys.foldl AddressStore.remove as).notBannedAddresses ↔ key ∉ keys ∧ key ∈ as.notBannedAddresses := by
  induction keys generalizing as with
  | nil => simp
  | cons k keys ih =>
    rw [List.foldl_cons, ih, notBannedAddresses_remove, AList.mem_erase, List.mem_cons]
    tauto

theorem bannedAddresses_foldl_remove (keys : List (AddressKey IP)) (as : AddressStore IP) :
    (keys.foldl AddressStore.remove as).bannedAddresses = as.bannedAddresses := by
  induction keys generalizing as with
  | nil => rfl
  | cons k keys ih => rw [List.foldl_cons, ih, bannedAddresses_remove]

theorem AddressStore.WellFormed.foldl_remove (wf : as.WellFormed) (keys : List (AddressKey IP)) :
    (keys.foldl AddressStore.remove as).WellFormed := by
  induction keys generalizing as with
  | nil => exact wf
  | cons k keys ih => exact ih (wf.remove k)

theorem AddressStore.WellFormed.Ban (wf : as.WellFormed) (a : NetAddress IP) : (Ban as a).WellFormed :=
  (wf.foldl_remove _).of_notBannedAddresses (notBannedAddresses_addBanned _)

theorem mem_Ban (wf : as.WellFormed) (a : NetAddress IP) {key : AddressKey IP} :
    key ∈ (Ban as a).notBannedAddresses ↔ key ∈ as.notBannedAddresses ∧ key.address ≠ a.IP := by
  rw [Ban, notBannedAddresses_addBanned, mem_foldl_remove, List.mem_filter,
    mem_keys_getAllNotBannedNetAddresses wf]
  simp only [netAddressKey]
  by_cases same : key.address = a.IP <;> simp [same]

theorem bannedAddresses_Ban (a : NetAddress IP) :
    (Ban as a).bannedAddresses.lookup a.IP = (as.bannedAddresses.lookup a.IP).or (some a) := by
  simp only [Ban]
  rw [bannedAddresses_addBanned a (show (netAddressKey a).address = a.IP from rfl),
    bannedAddresses_foldl_remove]

theorem notBannedAddresses_unbanIfOldEnough (key : AddressKey IP) :
    (unbanIfOldEnough now as key).notBannedAddresses = as.notBannedAddresses := by
  unfold unbanIfOldEnough
  split
  · rfl
  · split <;> rfl

theorem isBanned_unbanIfOldEnough (key : AddressKey IP) :
    (unbanIfOldEnough now as key).isBanned key = true ↔
      ∃ banned, as.bannedAddresses.lookup key.address = some banned ∧ ¬ now - banned.Timestamp > maxBanTime := by
  unfold unbanIfOldEnough
  cases found : as.getBanned key with
  | none =>
    have lookedUp : as.bannedAddresses.lookup key.address = none := found
    simp [isBanned, lookedUp, ← AList.lookup_isSome]
  | some banned =>
    have lookedUp : as.bannedAddresses.lookup key.address = some banned := found
    dsimp only
    by_cases expired : now - banned.Timestamp > maxBanTime
    · rw [if_pos expired]
      constructor
      · intro lifted
        simp [isBanned] at lifted
      · rintro ⟨b, stored, fresh⟩
        rw [lookedUp, Option.some.injEq] at stored
        subst stored
        exact absurd expired fresh
    · rw [if_neg expired]
      constructor
      · intro _
        exact ⟨banned, lookedUp, expired⟩
      · intro _
        simp only [isBanned, decide_eq_true_eq]
        exact AList.lookup_isSome.1 (by rw [lookedUp]; rfl)

theorem IsBanned_notBannedAddresses (now : Int) (as : AddressStore IP) (a : NetAddress IP) :
    (IsBanned now as a).2.notBannedAddresses = as.notBannedAddresses := by
  unfold IsBanned
  dsimp only
  split
  · split <;> exact notBannedAddresses_unbanIfOldEnough _
  · exact notBannedAddresses_unbanIfOldEnough _

theorem IsBanned_eq_ok_true (a : NetAddress IP) :
    (IsBanned now as a).1 = .ok true ↔
      ∃ banned, as.bannedAddresses.lookup a.IP = some banned ∧ ¬ now - banned.Timestamp > maxBanTime := by
  refine Iff.trans ?_ (isBanned_unbanIfOldEnough (netAddressKey a))
  unfold IsBanned
  dsimp only
  split
  · rename_i unbanned
    simp only [Bool.not_eq_eq_eq_not, Bool.not_true] at unbanned
    rw [unbanned]
    split <;> simp
  · rename_i banned
    simpa using banned

theorem Unban_notBannedAddresses {a : NetAddress IP} (unbanned : Unban as a = .ok as') :
    as'.notBannedAddresses = as.notBannedAddresses := by
  unfold Unban at unbanned
  dsimp only at unbanned
  split at unbanned
  · cases unbanned
  · cases unbanned
    rfl

theorem AddressStore.WellFormed.markConnection (wf : as.WellFormed)
    (marked : MarkConnectionFailure now as a = .ok as' ∨ MarkConnectionSuccess now as a = .ok as') :
    as'.WellFormed ∧ ∀ key ∈ as'.notBannedAddresses, key ∈ as.notBannedAddresses := by
  obtain ⟨entry, found, rfl | ⟨entry', same, below, rfl⟩⟩ := MarkConnection_cases marked
  · exact ⟨wf.remove _, fun key mem => (AList.mem_erase.1 mem).2⟩
  · refine ⟨wf.insert (by rw [same]; exact wf.keyed _ _ found) below, fun key mem => ?_⟩
    rcases (AList.mem_insert _).1 mem with rfl | old
    · exact mem_of_getNotBanned found
    · exact old

theorem AddAddresses_eq_ok (now : Int) (wf : as.WellFormed) (addresses : List (NetAddress IP)) :
    ∃ as', AddAddresses IsRoutable now as addresses = .ok as' ∧ as'.WellFormed ∧
      ∀ key ∈ as'.notBannedAddresses, key ∈ as.notBannedAddresses ∨ ∃ b ∈ addresses, key = netAddressKey b := by
  -- the invariant of the loop: well formed, and every new key is one of an address done
  obtain ⟨as', ran, wf', frame⟩ := GoSemantics.foldlM_eq_pure addresses
    (fun (done : List (NetAddress IP)) (s : AddressStore IP) => s.WellFormed ∧
      ∀ key ∈ s.notBannedAddresses, key ∈ as.notBannedAddresses ∨ ∃ b ∈ done, key = netAddressKey b)
    (by
      intro done b rest s _ ⟨wfs, frame⟩
      obtain ⟨s', added⟩ := addAddressNoLock_ok IsRoutable now s b
      refine ⟨s', added, wfs.addAddressNoLock IsRoutable added, fun key mem => ?_⟩
      rcases mem_of_addAddressNoLock IsRoutable added mem with old | new
      · rcases frame key old with start | ⟨c, doneC, rfl⟩
        · exact .inl start
        · exact .inr ⟨c, List.mem_append_left _ doneC, rfl⟩
      · exact .inr ⟨b, List.mem_append_right _ (List.mem_singleton_self b), new⟩)
    ⟨wf, fun key mem => .inl mem⟩
  exact ⟨as', ran, wf', frame⟩

@[simp] theorem toOption_getD_ok {ε σ : Type} (s' s : σ) : (Except.ok s' : Except ε σ).toOption.getD s = s' := rfl

@[simp] theorem toOption_getD_error {ε σ : Type} (e : ε) (s : σ) :
    (Except.error e : Except ε σ).toOption.getD s = s := rfl

theorem toOption_getD_of_ok {ε σ : Type} {P : σ → Prop} {r : Except ε σ} {s : σ} (kept : P s)
    (returned : ∀ s', r = .ok s' → P s') : P (r.toOption.getD s) := by
  cases r with
  | error e => exact kept
  | ok s' => exact returned s' rfl

end Manager

section Run

variable (IsRoutable : NetAddress IP → Bool) {as : AddressStore IP}

structure Grown (as : AddressStore IP) (added : List (NetAddress IP)) (s : AddressStore IP) :
    Prop where
  wellFormed : s.WellFormed
  keys : ∀ key ∈ s.notBannedAddresses, key ∈ as.notBannedAddresses ∨ ∃ b ∈ added, key = netAddressKey b

theorem Grown.of_subset {added : List (NetAddress IP)} {s : AddressStore IP} (wf : s.WellFormed)
    (subset : ∀ key ∈ s.notBannedAddresses, key ∈ as.notBannedAddresses) : Grown as added s :=
  ⟨wf, fun key mem => .inl (subset key mem)⟩

theorem AddressStore.WellFormed.step (wf : as.WellFormed) (call : Int × Call IP) :
    Grown as call.2.added (step IsRoutable as call) := by
  have unchanged : Grown as call.2.added as := .of_subset wf fun _ mem => mem
  obtain ⟨now, call⟩ := call
  cases call with
  | addAddress a =>
    obtain ⟨as', added⟩ := addAddressNoLock_ok IsRoutable now as a
    refine toOption_getD_of_ok unchanged fun s' ran => ?_
    rw [AddAddress, added] at ran
    cases ran
    refine ⟨wf.addAddressNoLock IsRoutable added, fun key mem => ?_⟩
    rcases mem_of_addAddressNoLock IsRoutable added mem with old | new
    · exact .inl old
    · exact .inr ⟨a, List.mem_singleton_self a, new⟩
  | addAddresses addresses =>
    obtain ⟨as', added, wf', frame⟩ := AddAddresses_eq_ok IsRoutable now wf addresses
    refine toOption_getD_of_ok unchanged fun s' ran => ?_
    rw [added] at ran
    cases ran
    exact ⟨wf', frame⟩
  | removeAddress a => exact .of_subset (wf.remove _) fun key mem => (AList.mem_erase.1 mem).2
  | markConnectionFailure a =>
    refine toOption_getD_of_ok unchanged fun s' marked => ?_
    obtain ⟨wf', frame⟩ := wf.markConnection (.inl marked)
    exact .of_subset wf' frame
  | markConnectionSuccess a =>
    refine toOption_getD_of_ok unchanged fun s' marked => ?_
    obtain ⟨wf', frame⟩ := wf.markConnection (.inr marked)
    exact .of_subset wf' frame
  | ban a => exact .of_subset (wf.Ban a) fun key mem => ((mem_Ban wf a).1 mem).1
  | unban a =>
    refine toOption_getD_of_ok unchanged fun s' unbanned => ?_
    have same := Unban_notBannedAddresses unbanned
    exact .of_subset (wf.of_notBannedAddresses same) fun key mem => same ▸ mem
  | isBanned a =>
    have same := IsBanned_notBannedAddresses now as a
    exact .of_subset (wf.of_notBannedAddresses same) fun key mem => same ▸ mem

variable {now : Int} {a : NetAddress IP}

/-! What the calls on one address do to its entry. -/

theorem getNotBanned_step_addAddress_of_none (now : Int) (routable : IsRoutable a = true)
    (absent : as.getNotBanned (netAddressKey a) = none) (room : as.notBannedCount < maxAddresses) :
    (step IsRoutable as (now, .addAddress a)).getNotBanned (netAddressKey a) = some ⟨a, 0, none, none, now⟩ := by
  simp [step, AddAddress, addAddressNoLock_of_none IsRoutable routable absent room, getNotBanned,
    notBannedAddresses_add _ (AList.lookup_eq_none.1 absent)]

theorem getNotBanned_step_markConnectionFailure (now : Int) {entry : Address IP}
    (found : as.getNotBanned (netAddressKey a) = some entry) :
    (step IsRoutable as (now, .markConnectionFailure a)).getNotBanned (netAddressKey a) =
      if entry.connectionFailedCount + 1 ≥ connectionFailedCountForRemove then none
      else some { entry with lastAttempt := some now, connectionFailedCount := entry.connectionFailedCount + 1 } := by
  simp only [step, MarkConnectionFailure_of_getNotBanned found]
  split <;> simp [getNotBanned]

theorem AddressStore.WellFormed.run (wf : as.WellFormed) (calls : List (Int × Call IP)) :
    Grown as (calls.flatMap (·.2.added)) (run IsRoutable as calls) := by
  -- the invariant of the loop, over the calls done so far
  refine GoSemantics.foldl_invariant calls (fun done s => Grown as (done.flatMap (·.2.added)) s) ?_
    (.of_subset wf fun _ mem => mem)
  intro done call rest s _ grown
  have stepped := grown.wellFormed.step IsRoutable call
  refine ⟨stepped.wellFormed, fun key mem => ?_⟩
  rcases stepped.keys key mem with old | ⟨b, addedB, rfl⟩
  · rcases grown.keys key old with start | ⟨b, addedB, rfl⟩
    · exact .inl start
    · exact .inr ⟨b, by simp only [List.flatMap_append]; exact List.mem_append_left _ addedB, rfl⟩
  · exact .inr ⟨b, by simp only [List.flatMap_append]; exact List.mem_append_right _ (by simpa using addedB), rfl⟩

theorem RandomAddresses_run_Ban (random : Randomizer IP) (wf : as.WellFormed) (a : NetAddress IP)
    (calls : List (Int × Call IP)) (noneAdded : ∀ b ∈ calls.flatMap (·.2.added), b.IP ≠ a.IP)
    (count : Int) (exceptions : List (NetAddress IP)) :
    ∀ b ∈ RandomAddresses random (run IsRoutable (Ban as a) calls) count exceptions, b.IP ≠ a.IP := by
  intro b returned
  have grown := (wf.Ban a).run IsRoutable calls
  obtain ⟨address, listed, rfl⟩ := random.mem_of_mem _ _ _ returned
  obtain ⟨key, found⟩ := mem_getAllNotBanned.1 (mem_getAllNotBannedNetAddressesWithout listed)
  have keyed := grown.wellFormed.keyed key address found
  rcases grown.keys key (mem_of_getNotBanned found) with kept | ⟨c, addedC, rfl⟩
  · have differs := ((mem_Ban wf a).1 kept).2
    rw [← keyed] at differs
    exact differs
  · have sameIP : address.netAddress.IP = c.IP := congrArg AddressKey.address keyed
    rw [sameIP]
    exact noneAdded c addedC

/-- After a ban of IP 1, a call that adds an address of IP 2 leaves IP 1 out of the pool. -/
theorem RandomAddresses_run_Ban_other :
    let a : NetAddress Nat := ⟨1, 42420, 0⟩
    let calls : List (Int × Call Nat) := [(0, .addAddress ⟨2, 42420, 0⟩)]
    (∀ b ∈ calls.flatMap (·.2.added), b.IP ≠ a.IP) ∧
      ∀ b ∈ RandomAddresses (firstAddresses Nat)
        (run (fun _ => true) (Ban AddressStore.empty a) calls) 1 [], b.IP ≠ a.IP := by
  intro a calls
  have noneAdded : ∀ b ∈ calls.flatMap (·.2.added), b.IP ≠ a.IP := by
    simp [calls, a, Call.added]
  exact ⟨noneAdded, RandomAddresses_run_Ban (fun _ => true) (firstAddresses Nat)
    AddressStore.wellFormed_empty a calls noneAdded 1 []⟩

theorem connection_failure_count_never_decays (a : NetAddress IP) (routable : IsRoutable a = true) (t₀ : Int) :
    t₀ + 2 * maxConnectionFailureAge - t₀ > maxConnectionFailureAge ∧
      ((run IsRoutable AddressStore.empty [(t₀, .addAddress a), (t₀, .markConnectionFailure a),
          (t₀ + 2 * maxConnectionFailureAge, .markConnectionFailure a)]).getNotBanned (netAddressKey a)).map
        (·.connectionFailedCount) = some 2 := by
  refine ⟨by unfold maxConnectionFailureAge; omega, ?_⟩
  have added := getNotBanned_step_addAddress_of_none IsRoutable t₀ routable
    (show AddressStore.empty.getNotBanned (netAddressKey a) = none from rfl)
    (by rw [notBannedCount_empty]; decide)
  have once := getNotBanned_step_markConnectionFailure IsRoutable t₀ added
  have twice := getNotBanned_step_markConnectionFailure IsRoutable (t₀ + 2 * maxConnectionFailureAge) once
  simp only [run, List.foldl_cons, List.foldl_nil, twice]
  rfl

theorem connection_failure_count_never_decays_seed :
    (fun _ => true : NetAddress Nat → Bool) ⟨1, 42420, 0⟩ = true ∧
      (0 + 2 * maxConnectionFailureAge - 0 > maxConnectionFailureAge ∧
        ((run (fun _ => true) AddressStore.empty [(0, .addAddress ⟨1, 42420, 0⟩),
            (0, .markConnectionFailure ⟨1, 42420, 0⟩),
            (0 + 2 * maxConnectionFailureAge, .markConnectionFailure ⟨1, 42420, 0⟩)]).getNotBanned
          (netAddressKey ⟨1, 42420, 0⟩)).map (·.connectionFailedCount) = some 2) :=
  ⟨rfl, connection_failure_count_never_decays (fun _ => true) ⟨1, 42420, 0⟩ rfl 0⟩

theorem banned_address_returns_to_pool (random : Randomizer IP) (a : NetAddress IP)
    (routable : IsRoutable a = true) (now : Int) (fresh : now - a.Timestamp ≤ maxBanTime) :
    (IsBanned now (run IsRoutable AddressStore.empty [(now, .ban a), (now, .addAddress a)]) a).1 = .ok true ∧
      RandomAddresses random (run IsRoutable AddressStore.empty [(now, .ban a), (now, .addAddress a)]) 1 [] = [a] := by
  have noEntries : (Ban AddressStore.empty a).notBannedAddresses = ∅ := by
    simp [Ban, AddressStore.empty, getAllNotBannedNetAddresses, getAllNotBanned]
  have bannedIP : (Ban AddressStore.empty a).bannedAddresses.lookup a.IP = some a := by
    rw [bannedAddresses_Ban]
    rfl
  have absent : (Ban AddressStore.empty a).getNotBanned (netAddressKey a) = none := by
    rw [getNotBanned, noEntries]
    rfl
  have room : (Ban AddressStore.empty a).notBannedCount < maxAddresses := by
    rw [notBannedCount, noEntries]
    exact (show 0 < maxAddresses by decide)
  have readded : step IsRoutable (Ban AddressStore.empty a) (now, .addAddress a) =
      (Ban AddressStore.empty a).add (netAddressKey a) ⟨a, 0, none, none, now⟩ := by
    simp [step, AddAddress, addAddressNoLock_of_none IsRoutable routable absent room]
  have ran : run IsRoutable AddressStore.empty [(now, .ban a), (now, .addAddress a)] =
      (Ban AddressStore.empty a).add (netAddressKey a) ⟨a, 0, none, none, now⟩ := readded
  rw [ran]
  constructor
  · refine (IsBanned_eq_ok_true a).2 ⟨a, ?_, by omega⟩
    rw [bannedAddresses_add, bannedIP]
  · have pool : ((Ban AddressStore.empty a).add (netAddressKey a) ⟨a, 0, none, none, now⟩).getAllNotBannedNetAddressesWithout [] =
        [⟨a, 0, none, none, now⟩] := by
      simp [getAllNotBannedNetAddressesWithout, notBannedAddresses_add _ (AList.lookup_eq_none.1 absent),
        noEntries]
    rw [RandomAddresses, pool]
    refine List.eq_replicate_iff.2 ⟨random.length_eq [⟨a, 0, none, none, now⟩] 1, fun b returned => ?_⟩
    obtain ⟨address, listed, rfl⟩ := random.mem_of_mem _ _ _ returned
    rw [List.mem_singleton.1 listed]

theorem banned_address_returns_to_pool_seed :
    (fun _ => true : NetAddress Nat → Bool) ⟨1, 42420, 0⟩ = true ∧ (0 : Int) - 0 ≤ maxBanTime ∧
      ((IsBanned 0 (run (fun _ => true) AddressStore.empty
          [(0, .ban ⟨1, 42420, 0⟩), (0, .addAddress ⟨1, 42420, 0⟩)]) ⟨1, 42420, 0⟩).1 = .ok true ∧
        RandomAddresses (firstAddresses Nat) (run (fun _ => true) AddressStore.empty
          [(0, .ban ⟨1, 42420, 0⟩), (0, .addAddress ⟨1, 42420, 0⟩)]) 1 [] = [⟨1, 42420, 0⟩]) :=
  ⟨rfl, by decide, banned_address_returns_to_pool (fun _ => true) (firstAddresses Nat) ⟨1, 42420, 0⟩ rfl 0 (by decide)⟩

end Run

end Addressmanager
