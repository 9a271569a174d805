import Htnd.Utxo.IteratorWithDiff

/-!
The virtual UTXO set of the consensus state store (consensusstatestore/utxo.go) and the cache
in front of it (utxolrucache). The database bucket is a collection, and so is the cache; a
staging shard may hold a virtual UTXO diff, which a commit writes to the database. A read goes
to the staged diff first, then to the cache, then to the database.
-/
namespace Consensus
open Utxo KeyedFold UTXOCollection

structure LRUCache where
  cache : UTXOCollection
  capacity : Nat

namespace LRUCache

def get (c : LRUCache) (key : DomainOutpoint) : Option UTXOEntry :=
  c.cache.lookup key

def remove (c : LRUCache) (key : DomainOutpoint) : LRUCache :=
  { c with cache := c.cache.erase key }

/-- `evictRandom` deletes the first key of a Go map iteration, whose order is random: the key
    is chosen by `pick` from the cache's entries. -/
def evictRandom (c : LRUCache) (pick : UTXOCollection → DomainOutpoint) : LRUCache :=
  { c with cache := c.cache.erase (pick c.cache) }

def add (c : LRUCache) (key : DomainOutpoint) (value : UTXOEntry)
    (pick : UTXOCollection → DomainOutpoint) : LRUCache :=
  let c := { c with cache := c.cache.insert key value }
  if c.cache.entries.length > c.capacity then c.evictRandom pick else c

def clear (c : LRUCache) : LRUCache :=
  { c with cache := ∅ }

end LRUCache

structure ConsensusStateStore where
  utxoSet : UTXOCollection
  virtualUTXOSetCache : LRUCache
  importingPruningPointUTXOSet : Bool

structure ConsensusStateStagingShard where
  virtualUTXODiffStaging : Option MutableUTXODiff

inductive UTXOLookupError where
  | outpointWasNotFound
  | notFound (key : DomainOutpoint)
  deriving DecidableEq, Repr

def UTXOLookupError.message (keyText : DomainOutpoint → String) : UTXOLookupError → String
  | .outpointWasNotFound => "outpoint was not found"
  | .notFound key => "key " ++ keyText key ++ " not found: not found"

def stageVirtualUTXODiff (shard : ConsensusStateStagingShard) (virtualUTXODiff : MutableUTXODiff) :
    ConsensusStateStagingShard :=
  { shard with virtualUTXODiffStaging := some virtualUTXODiff }

variable (pick : UTXOCollection → DomainOutpoint)

def utxoByOutpointFromStore (css : ConsensusStateStore) (outpoint : DomainOutpoint) :
    Except UTXOLookupError UTXOEntry × ConsensusStateStore :=
  match css.virtualUTXOSetCache.get outpoint with
  | some entry => (.ok entry, css)
  | none =>
    match css.utxoSet.lookup outpoint with
    | none => (.error (.notFound outpoint), css)
    | some entry =>
      (.ok entry, { css with virtualUTXOSetCache := css.virtualUTXOSetCache.add outpoint entry pick })

def utxoByOutpointFromStagedVirtualUTXODiff (css : ConsensusStateStore)
    (stagingShard : ConsensusStateStagingShard) (outpoint : DomainOutpoint) :
    Except UTXOLookupError UTXOEntry × ConsensusStateStore :=
  match stagingShard.virtualUTXODiffStaging with
  | some diff =>
    if diff.toRemove.contains outpoint then (.error .outpointWasNotFound, css)
    else
      match diff.toAdd.get outpoint with
      | some utxoEntry => (.ok utxoEntry, css)
      | none => utxoByOutpointFromStore pick css outpoint
  | none => utxoByOutpointFromStore pick css outpoint

def hasUTXOByOutpointFromStagedVirtualUTXODiff (css : ConsensusStateStore)
    (stagingShard : ConsensusStateStagingShard) (outpoint : DomainOutpoint) : Bool :=
  match stagingShard.virtualUTXODiffStaging with
  | some diff =>
    if diff.toRemove.contains outpoint then false
    else
      match diff.toAdd.get outpoint with
      | some _ => true
      | none => css.utxoSet.contains outpoint
  | none => css.utxoSet.contains outpoint

def removeFromVirtualUTXOSet (css : ConsensusStateStore) (outpoint : DomainOutpoint) :
    ConsensusStateStore :=
  { css with
    utxoSet := css.utxoSet.erase outpoint
    virtualUTXOSetCache := css.virtualUTXOSetCache.remove outpoint }

def addToVirtualUTXOSet (css : ConsensusStateStore) (outpoint : DomainOutpoint)
    (entry : UTXOEntry) : ConsensusStateStore :=
  { css with
    utxoSet := css.utxoSet.insert outpoint entry
    virtualUTXOSetCache := css.virtualUTXOSetCache.add outpoint entry pick }

@[simp] theorem removeFromVirtualUTXOSet_utxoSet (css : ConsensusStateStore)
    (outpoint : DomainOutpoint) :
    (removeFromVirtualUTXOSet css outpoint).utxoSet = css.utxoSet.erase outpoint :=
  rfl

@[simp] theorem removeFromVirtualUTXOSet_cache (css : ConsensusStateStore)
    (outpoint : DomainOutpoint) :
    (removeFromVirtualUTXOSet css outpoint).virtualUTXOSetCache =
      css.virtualUTXOSetCache.remove outpoint :=
  rfl

@[simp] theorem addToVirtualUTXOSet_utxoSet (css : ConsensusStateStore)
    (outpoint : DomainOutpoint) (entry : UTXOEntry) :
    (addToVirtualUTXOSet pick css outpoint entry).utxoSet = css.utxoSet.insert outpoint entry :=
  rfl

@[simp] theorem addToVirtualUTXOSet_cache (css : ConsensusStateStore)
    (outpoint : DomainOutpoint) (entry : UTXOEntry) :
    (addToVirtualUTXOSet pick css outpoint entry).virtualUTXOSetCache =
      css.virtualUTXOSetCache.add outpoint entry pick :=
  rfl

def commitVirtualUTXODiff (stagingShard : ConsensusStateStagingShard) (css : ConsensusStateStore) :
    ConsensusStateStore :=
  match stagingShard.virtualUTXODiffStaging with
  | none => css
  | some diff =>
    let css := diff.toRemove.entries.foldl (fun css e => removeFromVirtualUTXOSet css e.1) css
    diff.toAdd.entries.foldl (fun css e => addToVirtualUTXOSet pick css e.1 e.2) css

def virtualUTXOSetIterator (css : ConsensusStateStore) (stagingShard : ConsensusStateStagingShard) :
    Except DiffError ReadOnlyUTXOSetIterator :=
  let mainIterator := ReadOnlyUTXOSetIterator.cursor css.utxoSet.entries
  match stagingShard.virtualUTXODiffStaging with
  | some diff => (iteratorWithDiff mainIterator diff).map .withDiff
  | none => .ok mainIterator

def startImportingPruningPointUTXOSet (css : ConsensusStateStore) : ConsensusStateStore :=
  { css with importingPruningPointUTXOSet := true }

def finishImportingPruningPointUTXOSet (css : ConsensusStateStore) : ConsensusStateStore :=
  { css with importingPruningPointUTXOSet := false }

def importPruningPointUTXOSetIntoVirtualUTXOSet (css : ConsensusStateStore)
    (pruningPointUTXOSet : List OutpointAndUTXOEntryPair) : Except String ConsensusStateStore :=
  if !css.importingPruningPointUTXOSet then
    .error ("cannot import pruning point UTXO set " ++
      "without calling StartImportingPruningPointUTXOSet first")
  else
    let css := { css with virtualUTXOSetCache := css.virtualUTXOSetCache.clear }
    let css := css.utxoSet.entries.foldl (fun css e => { css with utxoSet := css.utxoSet.erase e.1 }) css
    .ok (pruningPointUTXOSet.foldl (fun css e => { css with utxoSet := css.utxoSet.insert e.1 e.2 }) css)

inductive StoreOperation where
  | utxoByOutpoint (stagingShard : ConsensusStateStagingShard) (outpoint : DomainOutpoint)
  | commit (stagingShard : ConsensusStateStagingShard)
  | startImporting
  | importPruningPointUTXOSet (pruningPointUTXOSet : List OutpointAndUTXOEntryPair)
  | finishImporting

def step (css : ConsensusStateStore) : StoreOperation → ConsensusStateStore
  | .utxoByOutpoint stagingShard outpoint =>
    (utxoByOutpointFromStagedVirtualUTXODiff pick css stagingShard outpoint).2
  | .commit stagingShard => commitVirtualUTXODiff pick stagingShard css
  | .startImporting => startImportingPruningPointUTXOSet css
  | .importPruningPointUTXOSet pruningPointUTXOSet =>
    match importPruningPointUTXOSetIntoVirtualUTXOSet css pruningPointUTXOSet with
    | .ok css => css
    | .error _ => css
  | .finishImporting => finishImportingPruningPointUTXOSet css

def run (css : ConsensusStateStore) (operations : List StoreOperation) : ConsensusStateStore :=
  operations.foldl (step pick) css

namespace LRUCache

theorem evictRandom_eq (c : LRUCache) (pick : UTXOCollection → DomainOutpoint) :
    c.evictRandom pick = c.remove (pick c.cache) :=
  rfl

theorem get_remove {c : LRUCache} {key o : DomainOutpoint} {e : UTXOEntry}
    (found : (c.remove key).get o = some e) : o ≠ key ∧ c.get o = some e := by
  by_cases same : o = key
  · subst same
    simp [remove, get, AList.lookup_erase] at found
  · exact ⟨same, by simpa [remove, get, AList.lookup_erase_ne same] using found⟩

theorem get_add {c : LRUCache} {key o : DomainOutpoint} {value e : UTXOEntry}
    {pick : UTXOCollection → DomainOutpoint} (found : (c.add key value pick).get o = some e) :
    (o = key ∧ value = e) ∨ (o ≠ key ∧ c.get o = some e) := by
  have inserted : (c.cache.insert key value).lookup o = some e := by
    unfold add at found
    dsimp only at found
    split at found
    · rw [evictRandom_eq] at found
      exact (get_remove found).2
    · exact found
  by_cases same : o = key
  · subst same
    rw [AList.lookup_insert] at inserted
    exact .inl ⟨rfl, Option.some.inj inserted⟩
  · rw [AList.lookup_insert_ne same] at inserted
    exact .inr ⟨same, inserted⟩

@[simp] theorem get_clear (c : LRUCache) (o : DomainOutpoint) : c.clear.get o = none := by
  simp [clear, get]

end LRUCache

def CacheAgrees (css : ConsensusStateStore) : Prop :=
  ∀ o e, css.virtualUTXOSetCache.get o = some e → css.utxoSet.lookup o = some e

section
variable {css : ConsensusStateStore} {stagingShard : ConsensusStateStagingShard}
  {diff : MutableUTXODiff}

theorem cacheAgrees_remove (agrees : CacheAgrees css) (key : DomainOutpoint) :
    CacheAgrees (removeFromVirtualUTXOSet css key) := by
  intro o e found
  obtain ⟨other, cached⟩ := LRUCache.get_remove found
  simpa [AList.lookup_erase_ne other] using agrees o e cached

theorem cacheAgrees_add (agrees : CacheAgrees css) (key : DomainOutpoint) (value : UTXOEntry) :
    CacheAgrees (addToVirtualUTXOSet pick css key value) := by
  intro o e found
  rcases LRUCache.get_add found with ⟨rfl, rfl⟩ | ⟨other, cached⟩
  · simp [AList.lookup_insert]
  · simpa [AList.lookup_insert_ne other] using agrees o e cached

theorem cacheAgrees_add_found (agrees : CacheAgrees css) {key : DomainOutpoint} {value : UTXOEntry}
    (stored : css.utxoSet.lookup key = some value) :
    CacheAgrees { css with virtualUTXOSetCache := css.virtualUTXOSetCache.add key value pick } := by
  intro o e found
  rcases LRUCache.get_add found with ⟨rfl, rfl⟩ | ⟨-, cached⟩
  · exact stored
  · exact agrees o e cached

theorem utxoSet_foldl_remove (l : List OutpointAndUTXOEntryPair) (css : ConsensusStateStore) :
    (l.foldl (fun css e => removeFromVirtualUTXOSet css e.1) css).utxoSet =
      eraseKeys l css.utxoSet := by
  induction l generalizing css with
  | nil => rfl
  | cons e l ih => exact ih _

theorem utxoSet_foldl_add (l : List OutpointAndUTXOEntryPair) (css : ConsensusStateStore) :
    (l.foldl (fun css e => addToVirtualUTXOSet pick css e.1 e.2) css).utxoSet =
      insertWhere (fun _ _ => true) l css.utxoSet := by
  induction l generalizing css with
  | nil => rfl
  | cons e l ih =>
    rw [insertWhere_cons, if_pos rfl]
    exact ih _

theorem cacheAgrees_foldl_remove (l : List OutpointAndUTXOEntryPair) (agrees : CacheAgrees css) :
    CacheAgrees (l.foldl (fun css e => removeFromVirtualUTXOSet css e.1) css) :=
  List.foldlRecOn l _ agrees fun _ agrees e _ => cacheAgrees_remove agrees e.1

theorem cacheAgrees_foldl_add (l : List OutpointAndUTXOEntryPair) (agrees : CacheAgrees css) :
    CacheAgrees (l.foldl (fun css e => addToVirtualUTXOSet pick css e.1 e.2) css) :=
  List.foldlRecOn l _ agrees fun _ agrees e _ => cacheAgrees_add pick agrees e.1 e.2

theorem lookup_commitVirtualUTXODiff (staged : stagingShard.virtualUTXODiffStaging = some diff)
    (o : DomainOutpoint) :
    (commitVirtualUTXODiff pick stagingShard css).utxoSet.lookup o =
      (diff.toAdd.lookup o).or (if o ∈ diff.toRemove then none else css.utxoSet.lookup o) := by
  simp only [commitVirtualUTXODiff, staged]
  rw [utxoSet_foldl_add, lookup_insertWhere_true diff.toAdd.nodupKeys, utxoSet_foldl_remove,
    lookup_eraseKeys]
  have keys : o ∈ diff.toRemove.entries.keys ↔ o ∈ diff.toRemove := AList.mem_keys
  simp only [keys]
  rfl

theorem cacheAgrees_commitVirtualUTXODiff (agrees : CacheAgrees css) :
    CacheAgrees (commitVirtualUTXODiff pick stagingShard css) := by
  unfold commitVirtualUTXODiff
  split
  · exact agrees
  · exact cacheAgrees_foldl_add pick _ (cacheAgrees_foldl_remove _ agrees)

theorem utxoByOutpointFromStore_spec (agrees : CacheAgrees css) (o : DomainOutpoint) :
    (utxoByOutpointFromStore pick css o).1.toOption = css.utxoSet.lookup o ∧
      CacheAgrees (utxoByOutpointFromStore pick css o).2 := by
  unfold utxoByOutpointFromStore
  cases cached : css.virtualUTXOSetCache.get o with
  | some e => exact ⟨(agrees o e cached).symm, agrees⟩
  | none =>
    cases stored : css.utxoSet.lookup o with
    | none => exact ⟨rfl, agrees⟩
    | some e => exact ⟨rfl, cacheAgrees_add_found pick agrees stored⟩

theorem cacheAgrees_utxoByOutpoint (agrees : CacheAgrees css) (o : DomainOutpoint) :
    CacheAgrees (utxoByOutpointFromStagedVirtualUTXODiff pick css stagingShard o).2 := by
  unfold utxoByOutpointFromStagedVirtualUTXODiff
  cases stagingShard.virtualUTXODiffStaging with
  | none => exact (utxoByOutpointFromStore_spec pick agrees o).2
  | some diff =>
    by_cases removed : diff.toRemove.contains o
    · simpa only [removed, if_true] using agrees
    · simp only [removed, Bool.false_eq_true, if_false]
      cases diff.toAdd.get o with
      | some _ => exact agrees
      | none => exact (utxoByOutpointFromStore_spec pick agrees o).2

theorem cache_foldl_utxoSet {δ : Type} (l : List δ) (f : UTXOCollection → δ → UTXOCollection)
    (css : ConsensusStateStore) :
    (l.foldl (fun css e => { css with utxoSet := f css.utxoSet e }) css).virtualUTXOSetCache =
      css.virtualUTXOSetCache :=
  List.foldlRecOn (motive := fun s : ConsensusStateStore =>
    s.virtualUTXOSetCache = css.virtualUTXOSetCache) l _ rfl fun _ same _ _ => same

theorem cacheAgrees_importPruningPointUTXOSet {css' : ConsensusStateStore}
    {pruningPointUTXOSet : List OutpointAndUTXOEntryPair}
    (imported : importPruningPointUTXOSetIntoVirtualUTXOSet css pruningPointUTXOSet = .ok css') :
    CacheAgrees css' := by
  unfold importPruningPointUTXOSetIntoVirtualUTXOSet at imported
  split at imported
  · cases imported
  · obtain rfl := Except.ok.inj imported
    intro o e found
    rw [cache_foldl_utxoSet _ (fun (m : UTXOCollection) (e : OutpointAndUTXOEntryPair) =>
      m.insert e.1 e.2), cache_foldl_utxoSet _ (fun (m : UTXOCollection)
      (e : OutpointAndUTXOEntryPair) => m.erase e.1)] at found
    simp at found

theorem cacheAgrees_step (agrees : CacheAgrees css) (operation : StoreOperation) :
    CacheAgrees (step pick css operation) := by
  cases operation with
  | utxoByOutpoint stagingShard outpoint => exact cacheAgrees_utxoByOutpoint pick agrees outpoint
  | commit stagingShard => exact cacheAgrees_commitVirtualUTXODiff pick agrees
  | startImporting => exact agrees
  | importPruningPointUTXOSet pruningPointUTXOSet =>
    cases imported : importPruningPointUTXOSetIntoVirtualUTXOSet css pruningPointUTXOSet with
    | ok css' => simpa only [step, imported] using cacheAgrees_importPruningPointUTXOSet imported
    | error _ => simpa only [step, imported] using agrees
  | finishImporting => exact agrees

theorem cacheAgrees_run (agrees : CacheAgrees css) (operations : List StoreOperation) :
    CacheAgrees (run pick css operations) :=
  List.foldlRecOn operations (step pick) agrees fun _ agrees operation _ =>
    cacheAgrees_step pick agrees operation

theorem stagedReads_eq_commit (agrees : CacheAgrees css) (o : DomainOutpoint)
    (notBoth : ∀ diff, stagingShard.virtualUTXODiffStaging = some diff →
      ¬(o ∈ diff.toAdd ∧ o ∈ diff.toRemove)) :
    hasUTXOByOutpointFromStagedVirtualUTXODiff css stagingShard o =
        ((commitVirtualUTXODiff pick stagingShard css).utxoSet.lookup o).isSome ∧
      (utxoByOutpointFromStagedVirtualUTXODiff pick css stagingShard o).1.toOption =
        (commitVirtualUTXODiff pick stagingShard css).utxoSet.lookup o := by
  have fromStore := (utxoByOutpointFromStore_spec pick agrees o).1
  have stored : decide (o ∈ css.utxoSet) = (css.utxoSet.lookup o).isSome := by
    rw [Bool.eq_iff_iff, decide_eq_true_iff, AList.lookup_isSome]
  cases staged : stagingShard.virtualUTXODiffStaging with
  | none =>
    simp [hasUTXOByOutpointFromStagedVirtualUTXODiff, utxoByOutpointFromStagedVirtualUTXODiff,
      commitVirtualUTXODiff, staged, fromStore, stored]
  | some diff =>
    rw [lookup_commitVirtualUTXODiff pick staged]
    by_cases removed : o ∈ diff.toRemove
    · have absent : diff.toAdd.lookup o = none :=
        AList.lookup_eq_none.mpr fun added => notBoth diff staged ⟨added, removed⟩
      simp [hasUTXOByOutpointFromStagedVirtualUTXODiff, utxoByOutpointFromStagedVirtualUTXODiff,
        staged, removed, absent, Except.toOption]
    · cases added : diff.toAdd.lookup o with
      | some e =>
        simp [hasUTXOByOutpointFromStagedVirtualUTXODiff, utxoByOutpointFromStagedVirtualUTXODiff,
          staged, removed, added, Except.toOption]
      | none =>
        simp [hasUTXOByOutpointFromStagedVirtualUTXODiff, utxoByOutpointFromStagedVirtualUTXODiff,
          staged, removed, added, fromStore, stored]

/-- **Reads through the staging shard in every reachable state.** From a store whose cache agrees
    with its database, after any store operations, a read of an outpoint through a staging shard
    that does not both add and remove it answers as the database would after the shard's commit;
    the cache still agrees with the database. -/
theorem staged_reads_agree_with_commit (agrees : CacheAgrees css) (operations : List StoreOperation)
    (o : DomainOutpoint) (notBoth : ∀ diff, stagingShard.virtualUTXODiffStaging = some diff →
      ¬(o ∈ diff.toAdd ∧ o ∈ diff.toRemove)) :
    let css' := run pick css operations
    CacheAgrees css' ∧
      hasUTXOByOutpointFromStagedVirtualUTXODiff css' stagingShard o =
        ((commitVirtualUTXODiff pick stagingShard css').utxoSet.lookup o).isSome ∧
      (utxoByOutpointFromStagedVirtualUTXODiff pick css' stagingShard o).1.toOption =
        (commitVirtualUTXODiff pick stagingShard css').utxoSet.lookup o :=
  have agrees' := cacheAgrees_run pick agrees operations
  ⟨agrees', stagedReads_eq_commit pick agrees' o notBoth⟩

theorem commitVirtualUTXODiff_applyDiff (staged : stagingShard.virtualUTXODiffStaging = some diff)
    {result : UTXOSet} (applied : applyDiff css.utxoSet.toFinmap diff = some result) :
    (commitVirtualUTXODiff pick stagingShard css).utxoSet.toFinmap = result := by
  refine Finmap.ext_lookup fun o => ?_
  obtain ⟨-, -, composed⟩ := applyAt_eq_some_iff.1 (applyDiff_eq_some_iff.1 applied o)
  rw [Finmap.lookup_toFinmap, lookup_commitVirtualUTXODiff pick staged, ← composed,
    Finmap.lookup_toFinmap]
  simp [AList.lookup_isSome]

theorem virtualUTXOSetIterator_reads_commit (staged : stagingShard.virtualUTXODiffStaging = some diff)
    {result : UTXOSet} (applied : applyDiff css.utxoSet.toFinmap diff = some result) (fuel : Nat)
    (enough : css.utxoSet.entries.length + diff.toAdd.entries.length < fuel) :
    ∃ iterator, virtualUTXOSetIterator css stagingShard = .ok iterator ∧
      ∃ nd : (iterator.drain fuel).NodupKeys, (⟨_, nd⟩ : UTXOCollection).toFinmap =
        (commitVirtualUTXODiff pick stagingShard css).utxoSet.toFinmap := by
  refine ⟨.withDiff (.start css.utxoSet.entries diff), ?_, ?_⟩
  · simp [virtualUTXOSetIterator, staged, iteratorWithDiff, Except.map]
  · rw [commitVirtualUTXODiff_applyDiff pick staged applied]
    exact ReadOnlyUTXOIteratorWithDiff.drain_first_applyDiff applied fuel enough

end

theorem staged_reads_agree_with_commit_spend :
    let o : DomainOutpoint := ⟨⟨0⟩, 0⟩
    let spent : UTXOEntry := ⟨10, ⟨[], 0⟩, 1, false⟩
    let css : ConsensusStateStore := ⟨AList.singleton o spent, ⟨∅, 10⟩, false⟩
    let spend : ConsensusStateStagingShard := ⟨some ⟨∅, AList.singleton o spent⟩⟩
    CacheAgrees css ∧ (∀ diff, spend.virtualUTXODiffStaging = some diff →
      ¬(o ∈ diff.toAdd ∧ o ∈ diff.toRemove)) ∧
    let css' := run (fun _ => o) css [.utxoByOutpoint ⟨none⟩ o, .commit ⟨none⟩]
    CacheAgrees css' ∧
      hasUTXOByOutpointFromStagedVirtualUTXODiff css' spend o =
        ((commitVirtualUTXODiff (fun _ => o) spend css').utxoSet.lookup o).isSome ∧
      (utxoByOutpointFromStagedVirtualUTXODiff (fun _ => o) css' spend o).1.toOption =
        (commitVirtualUTXODiff (fun _ => o) spend css').utxoSet.lookup o := by
  intro o spent css spend
  have agrees : CacheAgrees css := fun _ _ found => by simp [css, LRUCache.get] at found
  have notBoth : ∀ diff, spend.virtualUTXODiffStaging = some diff →
      ¬(o ∈ diff.toAdd ∧ o ∈ diff.toRemove) := fun diff staged => by
    cases staged
    simp
  exact ⟨agrees, notBoth, staged_reads_agree_with_commit (fun _ => o) agrees _ o notBoth⟩

theorem virtualUTXOSetIterator_reads_commit_spend :
    let o : DomainOutpoint := ⟨⟨0⟩, 0⟩
    let spent : UTXOEntry := ⟨10, ⟨[], 0⟩, 1, false⟩
    let diff : MutableUTXODiff := ⟨∅, AList.singleton o spent⟩
    let css : ConsensusStateStore := ⟨AList.singleton o spent, ⟨∅, 10⟩, false⟩
    (⟨some diff⟩ : ConsensusStateStagingShard).virtualUTXODiffStaging = some diff ∧
      applyDiff css.utxoSet.toFinmap diff = some (∅ : UTXOCollection).toFinmap ∧
      css.utxoSet.entries.length + diff.toAdd.entries.length < 3 ∧
      ∃ iterator, virtualUTXOSetIterator css ⟨some diff⟩ = .ok iterator ∧
        ∃ nd : (iterator.drain 3).NodupKeys, (⟨_, nd⟩ : UTXOCollection).toFinmap =
          (commitVirtualUTXODiff (fun _ => o) ⟨some diff⟩ css).utxoSet.toFinmap := by
  intro o spent diff css
  have applied : applyDiff css.utxoSet.toFinmap diff = some (∅ : UTXOCollection).toFinmap := by decide
  exact ⟨rfl, applied, by decide,
    virtualUTXOSetIterator_reads_commit (fun _ => o) rfl applied 3 (by decide)⟩

/-- A staged diff that spends an output and adds it back at another DAA score: both staged
    reads answer that the outpoint is absent, while the commit writes the new entry there and
    the iterator reads it. -/
theorem hasUTXOByOutpoint_misses_readded_outpoint :
    let o : DomainOutpoint := ⟨⟨0, by decide⟩, 0⟩
    let spent : UTXOEntry := ⟨10, ⟨[], 0⟩, 1, false⟩
    let readded : UTXOEntry := ⟨10, ⟨[], 0⟩, 2, false⟩
    let diff : MutableUTXODiff := ⟨AList.singleton o readded, AList.singleton o spent⟩
    let css : ConsensusStateStore := ⟨AList.singleton o spent, ⟨∅, 10⟩, false⟩
    let stagingShard : ConsensusStateStagingShard := ⟨some diff⟩
    diff.WellFormed ∧
      applyDiff css.utxoSet.toFinmap diff = some (AList.singleton o readded).toFinmap ∧
      hasUTXOByOutpointFromStagedVirtualUTXODiff css stagingShard o = false ∧
      (utxoByOutpointFromStagedVirtualUTXODiff (fun _ => o) css stagingShard o).1 =
        .error .outpointWasNotFound ∧
      (commitVirtualUTXODiff (fun _ => o) stagingShard css).utxoSet.lookup o = some readded ∧
      (virtualUTXOSetIterator css stagingShard).map (·.drain 3) = .ok [⟨o, readded⟩] :=
  ⟨by decide, by decide, by decide, by decide, by decide, by decide⟩

end Consensus
