import Mathlib
import Htnd.Mempool.Mempool
import Htnd.Lib.StateInvariant
import Htnd.Lib.KeyedFold

/-!
The orphan pool's two indexes agree: `orphansByPreviousOutpoint` maps exactly the previous
outpoints of the orphans in `allOrphans`, each to the one orphan that spends it, and no orphan
spends an outpoint twice. Then `removeOrphan` finds every input of the orphan it removes in
the second index. Every method of the mempool keeps this, provided the consensus rejects a
transaction whose inputs spend one outpoint twice before it looks for missing outputs, as
`ValidateTransactionInIsolation` does: otherwise such a transaction becomes an orphan, and
removing it fails half-way.

The transaction pool's methods leave the orphan pool alone, and the orphan pool only reads an
orphan's ID and previous outpoints, so the invariant is one of a view of the state: the keys
of the orphan heap and the two maps.
-/
namespace Mempool
open Utxo StateInvariant

def previousOutpoints (transaction : DomainTransaction) : List DomainOutpoint :=
  transaction.inputs.map (·.previousOutpoint)

def orphanKey (orphan : OrphanTransaction) : DomainTransactionID × List DomainOutpoint :=
  (orphan.transaction.id, previousOutpoints orphan.transaction)

def orphanView (s : MempoolState) :=
  (s.orphanHeap.map orphanKey, s.allOrphans, s.orphansByPreviousOutpoint)

structure OrphanIndex (s : MempoolState) : Prop where
  live : ∀ id p, s.allOrphans.lookup id = some p →
    p < s.orphanHeap.length ∧ (s.orphan p).transaction.id = id
  nodup : ∀ id p, s.allOrphans.lookup id = some p →
    (previousOutpoints (s.orphan p).transaction).Nodup
  indexes : ∀ id p, s.allOrphans.lookup id = some p →
    ∀ o ∈ previousOutpoints (s.orphan p).transaction, s.orphansByPreviousOutpoint.lookup o = some p
  spends : ∀ o p, s.orphansByPreviousOutpoint.lookup o = some p →
    s.allOrphans.lookup (s.orphan p).transaction.id = some p ∧
      o ∈ previousOutpoints (s.orphan p).transaction

def RejectsDuplicateInputs (env : Environment) : Prop :=
  ∀ transaction, ¬ (previousOutpoints transaction).Nodup →
    env.validateTransactionInIsolation transaction = some .ruleError

section View

variable {s s' : MempoolState}

theorem orphanKey_orphan (s : MempoolState) (p : OrphanPointer) :
    orphanKey (s.orphan p) = (s.orphanHeap.map orphanKey).getD p (orphanKey default) := by
  simp only [MempoolState.orphan, List.getD_eq_getElem?_getD, List.getElem?_map]
  cases s.orphanHeap[p]? <;> rfl

theorem orphanKey_eq_of_view (same : orphanView s' = orphanView s) (p : OrphanPointer) :
    orphanKey (s'.orphan p) = orphanKey (s.orphan p) := by
  rw [orphanKey_orphan, orphanKey_orphan, (Prod.mk.inj same).1]

theorem id_eq_of_view (same : orphanView s' = orphanView s) (p : OrphanPointer) :
    (s'.orphan p).transaction.id = (s.orphan p).transaction.id :=
  (Prod.mk.inj (orphanKey_eq_of_view same p)).1

theorem previousOutpoints_eq_of_view (same : orphanView s' = orphanView s) (p : OrphanPointer) :
    previousOutpoints (s'.orphan p).transaction = previousOutpoints (s.orphan p).transaction :=
  (Prod.mk.inj (orphanKey_eq_of_view same p)).2

theorem OrphanIndex.of_view (same : orphanView s' = orphanView s) (index : OrphanIndex s) :
    OrphanIndex s' := by
  have all : s'.allOrphans = s.allOrphans := congrArg (·.2.1) same
  have byOutpoint : s'.orphansByPreviousOutpoint = s.orphansByPreviousOutpoint :=
    congrArg (·.2.2) same
  have length : s'.orphanHeap.length = s.orphanHeap.length := by
    simpa [orphanView] using congrArg (List.length ·.1) same
  constructor
  · intro id p found
    rw [all] at found
    rw [length, id_eq_of_view same]
    exact index.live id p found
  · intro id p found
    rw [all] at found
    rw [previousOutpoints_eq_of_view same]
    exact index.nodup id p found
  · intro id p found o mem
    rw [all] at found
    rw [previousOutpoints_eq_of_view same] at mem
    rw [byOutpoint]
    exact index.indexes id p found o mem
  · intro o p found
    rw [byOutpoint] at found
    rw [all, id_eq_of_view same, previousOutpoints_eq_of_view same]
    exact index.spends o p found

theorem keeps_orphanIndex_of_view {α : Type} {x : MempoolM α}
    (leaves : ∀ c, Keeps (fun s => orphanView s = c) x) : Keeps OrphanIndex x :=
  keeps_of_view orphanView leaves fun _ _ same index => index.of_view same

end View

/-! ### The transaction pool leaves the orphan pool alone -/

def LeavesOrphans {α : Type} (x : MempoolM α) : Prop :=
  ∀ c, Keeps (fun s => orphanView s = c) x

theorem leavesOrphans_allocate (mt : MempoolTransaction) :
    LeavesOrphans (allocateMempoolTransaction mt) :=
  fun _ _ same => same

theorem leavesOrphans_push (p : TxPointer) : LeavesOrphans (TransactionsOrderedByFeeRate.push p) := by
  intro c s same
  simp only [TransactionsOrderedByFeeRate.push, finalState_get_bind]
  split <;> exact same

theorem leavesOrphans_remove (p : TxPointer) :
    LeavesOrphans (TransactionsOrderedByFeeRate.remove p) := by
  intro c s same
  simp only [TransactionsOrderedByFeeRate.remove, TransactionsOrderedByFeeRate.removeAtIndex,
    finalState_get_bind]
  split
  · exact same
  · split
    · exact same
    · rw [finalState_get_bind]
      split <;> exact same

theorem leavesOrphans_checkDoubleSpends (transaction : DomainTransaction) :
    LeavesOrphans (MempoolUTXOSet.checkDoubleSpends transaction) := by
  intro c s same
  simp only [MempoolUTXOSet.checkDoubleSpends, finalState_get_bind]
  split <;> exact same

theorem leavesOrphans_addMempoolTransaction (p : TxPointer) :
    LeavesOrphans (TransactionsPool.addMempoolTransaction p) := by
  intro c s same
  simp only [TransactionsPool.addMempoolTransaction, finalState_get_bind, finalState_set_bind]
  refine keeps_bind (leavesOrphans_push p c) (fun _ s' same' => ?_) _ same
  split <;> exact same'

theorem leavesOrphans_addTransaction (env : Environment) (transaction : DomainTransaction)
    (parents : AList fun _ : DomainTransactionID => TxPointer) (isHighPriority : Bool) :
    LeavesOrphans (TransactionsPool.addTransaction env transaction parents isHighPriority) :=
  fun c => keeps_bind (leavesOrphans_allocate _ c) fun p =>
    keeps_bind (leavesOrphans_addMempoolTransaction p c) fun _ => keeps_pure _

theorem leavesOrphans_removeFromPool (p : TxPointer) :
    LeavesOrphans (TransactionsPool.removeTransaction p) := by
  intro c s same
  simp only [TransactionsPool.removeTransaction, finalState_get_bind, finalState_modify_bind]
  refine keeps_bind (keeps_tryCatch (leavesOrphans_remove p c) fun err => ?_)
    (fun _ => keeps_modify ?_) _ same
  · intro s' same'
    split <;> exact same'
  · exact fun _ kept => kept

theorem leavesOrphans_validateTransactionInContext (env : Environment)
    (transaction : DomainTransaction) :
    LeavesOrphans (validateTransactionInContext env transaction) := by
  intro c s same
  unfold validateTransactionInContext
  split <;> exact same

theorem leavesOrphans_validateTransactionPreUTXOEntry (config : Config) (env : Environment)
    (transaction : DomainTransaction) :
    LeavesOrphans (validateTransactionPreUTXOEntry config env transaction) := by
  intro c s same
  unfold validateTransactionPreUTXOEntry
  refine keeps_bind (fun s same => ?_) (fun _ => leavesOrphans_checkDoubleSpends _ c) s same
  simp only [Mempool.validateTransactionInIsolation, finalState_get_bind]
  split
  · exact same
  · split
    · split <;> exact same
    · exact same

/-! ### Removing an orphan -/

def IsUnindexedInput : MempoolError → Prop
  | .orphanInputNotIndexed _ _ _ => True
  | _ => False

theorem orphanView_setOrphan {s : MempoolState} {p : OrphanPointer} {orphan : OrphanTransaction}
    (same : orphanKey orphan = orphanKey (s.orphan p)) :
    orphanView (s.setOrphan p orphan) = orphanView s := by
  simp only [orphanView, MempoolState.setOrphan, List.map_set, same, orphanKey_orphan]
  congr 1
  by_cases inside : p < s.orphanHeap.length
  · have inside' : p < (s.orphanHeap.map orphanKey).length := by simpa using inside
    rw [List.getD_eq_getElem?_getD, List.getElem?_eq_getElem inside', Option.getD_some,
      List.set_getElem_self]
  · exact List.set_eq_of_length_le (by simpa using inside)

theorem removeOrphanInputs_run (id : DomainTransactionID) (l : List (DomainTransactionInput × Nat))
    (s : MempoolState) (nodup : (l.map (·.1.previousOutpoint)).Nodup)
    (indexed : ∀ x ∈ l, (s.orphansByPreviousOutpoint.lookup x.1.previousOutpoint).isSome) :
    (OrphansPool.removeOrphanInputs id l).run s =
      .ok () { s with orphansByPreviousOutpoint :=
        ((l.map (·.1.previousOutpoint)).foldl (fun m o => m.erase o) s.orphansByPreviousOutpoint) } := by
  induction l generalizing s with
  | nil => rfl
  | cons x l ih =>
    obtain ⟨input, i⟩ := x
    have found := indexed (input, i) (by simp)
    rw [List.map_cons, List.nodup_cons] at nodup
    simp only [OrphansPool.removeOrphanInputs, EStateM.run_bind, EStateM.run_get]
    rw [if_neg (by simp only [Option.isNone_iff_eq_none]; exact Option.isSome_iff_ne_none.mp found)]
    simp only [EStateM.run_bind, EStateM.run_modify]
    rw [ih _ nodup.2]
    · rfl
    · intro y mem
      have other : y.1.previousOutpoint ≠ input.previousOutpoint := fun same =>
        nodup.1 (same ▸ List.mem_map_of_mem mem)
      simpa [AList.lookup_erase_ne other] using indexed y (by simp [mem])

theorem OrphanIndex.erase {s : MempoolState} (index : OrphanIndex s) {id : DomainTransactionID}
    {p : OrphanPointer} (found : s.allOrphans.lookup id = some p) :
    OrphanIndex { s with
      allOrphans := s.allOrphans.erase id
      orphansByPreviousOutpoint := ((previousOutpoints (s.orphan p).transaction).foldl
        (fun m o => m.erase o) s.orphansByPreviousOutpoint) } := by
  have apart : ∀ id' p', id' ≠ id → s.allOrphans.lookup id' = some p' →
      ∀ o ∈ previousOutpoints (s.orphan p').transaction,
        o ∉ previousOutpoints (s.orphan p).transaction := by
    intro id' p' other found' o mem' mem
    have same : p' = p := Option.some.inj
      ((index.indexes id' p' found' o mem').symm.trans (index.indexes id p found o mem))
    subst same
    exact other ((index.live id' p' found').2.symm.trans (index.live id p' found).2)
  constructor
  · intro id' p' found'
    rw [AList.lookup_erase_ne (by rintro rfl; simp [AList.lookup_erase] at found')] at found'
    exact index.live id' p' found'
  · intro id' p' found'
    rw [AList.lookup_erase_ne (by rintro rfl; simp [AList.lookup_erase] at found')] at found'
    exact index.nodup id' p' found'
  · intro id' p' found' o mem'
    have other : id' ≠ id := by rintro rfl; simp [AList.lookup_erase] at found'
    rw [AList.lookup_erase_ne other] at found'
    rw [KeyedFold.lookup_foldl_erase_keys, if_neg (apart id' p' other found' o mem')]
    exact index.indexes id' p' found' o mem'
  · intro o p' found'
    rw [KeyedFold.lookup_foldl_erase_keys] at found'
    split at found'
    · cases found'
    · rename_i kept
      obtain ⟨live, mem⟩ := index.spends o p' found'
      have other : (s.orphan p').transaction.id ≠ id := by
        intro same
        rw [same, found] at live
        cases live
        exact kept mem
      refine ⟨?_, mem⟩
      show (s.allOrphans.erase id).lookup (s.orphan p').transaction.id = some p'
      rw [AList.lookup_erase_ne other]
      exact live

theorem keeps_removeRedeemersOfWith {f : DomainTransactionID → Bool → MempoolM Unit}
    (kept : ∀ id removeRedeemers, Keeps OrphanIndex (f id removeRedeemers))
    (transaction : DomainTransaction) :
    Keeps OrphanIndex (OrphansPool.removeRedeemersOfWith f transaction) := by
  apply keeps_forM
  intro i _
  apply keeps_get_bind
  intro s index
  split
  · exact kept _ _ s index
  · exact index

theorem avoids_removeRedeemersOfWith {f : DomainTransactionID → Bool → MempoolM Unit}
    (kept : ∀ id removeRedeemers, Keeps OrphanIndex (f id removeRedeemers))
    (avoided : ∀ id removeRedeemers, Avoids OrphanIndex IsUnindexedInput (f id removeRedeemers))
    (transaction : DomainTransaction) :
    Avoids OrphanIndex IsUnindexedInput (OrphansPool.removeRedeemersOfWith f transaction) := by
  apply avoids_forM
  · intro i _
    apply keeps_get_bind
    intro s index
    split
    · exact kept _ _ s index
    · exact index
  · intro i _
    apply avoids_get_bind
    intro s index e s' raised
    split at raised
    · exact avoided _ _ s index e s' raised
    · cases raised

theorem removeOrphan_succ_run (fuel : Nat) (id : DomainTransactionID) (removeRedeemers : Bool)
    {s : MempoolState} (index : OrphanIndex s) {p : OrphanPointer}
    (found : s.allOrphans.lookup id = some p) :
    ∃ s', OrphanIndex s' ∧
      (OrphansPool.removeOrphan (fuel + 1) id removeRedeemers).run s =
        (if removeRedeemers then OrphansPool.removeRedeemersOfWith
          (OrphansPool.removeOrphan fuel) (s.orphan p).transaction else pure ()).run s' := by
  have outpoints : ((s.orphan p).transaction.inputs.zipIdx.map (·.1.previousOutpoint)) =
      previousOutpoints (s.orphan p).transaction := by
    have project : (fun x : DomainTransactionInput × Nat => x.1.previousOutpoint) =
        (·.previousOutpoint) ∘ Prod.fst := rfl
    rw [project, ← List.map_map, List.zipIdx_map_fst]
    rfl
  refine ⟨_, index.erase found, ?_⟩
  simp only [OrphansPool.removeOrphan, EStateM.run_bind, EStateM.run_get, found, EStateM.run_set]
  rw [removeOrphanInputs_run _ _ _ (by rw [outpoints]; exact index.nodup id p found)]
  · rw [outpoints]
  · intro x mem
    have mem' : x.1.previousOutpoint ∈ previousOutpoints (s.orphan p).transaction := by
      rw [← outpoints]
      exact List.mem_map_of_mem mem
    simp [index.indexes id p found _ mem']

theorem keeps_removeOrphan (fuel : Nat) (id : DomainTransactionID) (removeRedeemers : Bool) :
    Keeps OrphanIndex (OrphansPool.removeOrphan fuel id removeRedeemers) := by
  induction fuel generalizing id removeRedeemers with
  | zero => exact keeps_throw _
  | succ fuel ih =>
    intro s index
    cases found : s.allOrphans.lookup id with
    | none =>
      simp only [OrphansPool.removeOrphan, finalState_get_bind, found]
      exact index
    | some p =>
      obtain ⟨s', index', run⟩ := removeOrphan_succ_run fuel id removeRedeemers index found
      rw [run]
      exact keeps_ite (keeps_removeRedeemersOfWith ih _) (keeps_pure _) s' index'

theorem avoids_removeOrphan (fuel : Nat) (id : DomainTransactionID) (removeRedeemers : Bool) :
    Avoids OrphanIndex IsUnindexedInput (OrphansPool.removeOrphan fuel id removeRedeemers) := by
  induction fuel generalizing id removeRedeemers with
  | zero =>
    intro s _ e s' raised
    obtain ⟨rfl, -⟩ : MempoolError.outOfFuel = e ∧ s = s' := by
      simpa [OrphansPool.removeOrphan] using raised
    exact fun unindexed => unindexed
  | succ fuel ih =>
    intro s index e s' raised
    cases found : s.allOrphans.lookup id with
    | none =>
      simp [OrphansPool.removeOrphan, found] at raised
    | some p =>
      obtain ⟨t, index', run⟩ := removeOrphan_succ_run fuel id removeRedeemers index found
      rw [run] at raised
      exact avoids_ite (avoids_removeRedeemersOfWith (keeps_removeOrphan fuel) ih _)
        (avoids_pure _) t index' e s' raised

theorem keeps_removeRedeemersOf (fuel : Nat) (transaction : DomainTransaction) :
    Keeps OrphanIndex (OrphansPool.removeRedeemersOf fuel transaction) :=
  keeps_removeRedeemersOfWith (keeps_removeOrphan fuel) transaction

theorem keeps_orphanHeap_removeOrphanInputs (heap : List OrphanTransaction)
    (id : DomainTransactionID) (l : List (DomainTransactionInput × Nat)) :
    Keeps (fun s => s.orphanHeap = heap) (OrphansPool.removeOrphanInputs id l) := by
  induction l with
  | nil => exact keeps_pure _
  | cons x l ih =>
    intro s same
    simp only [OrphansPool.removeOrphanInputs, finalState_get_bind]
    split
    · exact same
    · exact ih _ same

theorem keeps_orphanHeap_removeOrphan (heap : List OrphanTransaction) (fuel : Nat)
    (id : DomainTransactionID) (removeRedeemers : Bool) :
    Keeps (fun s => s.orphanHeap = heap) (OrphansPool.removeOrphan fuel id removeRedeemers) := by
  induction fuel generalizing id removeRedeemers with
  | zero => exact keeps_throw _
  | succ fuel ih =>
    intro s same
    simp only [OrphansPool.removeOrphan, finalState_get_bind]
    split
    · exact same
    · rw [finalState_set_bind]
      refine keeps_bind (keeps_orphanHeap_removeOrphanInputs heap id _) (fun _ => ?_) _ same
      refine keeps_ite (keeps_forM fun i _ => ?_) (keeps_pure _)
      apply keeps_get_bind
      intro t same'
      split
      · exact ih _ _ t same'
      · exact same'

/-! ### Adding an orphan -/

theorem orphan_of_heap_append {s t : MempoolState} {orphan : OrphanTransaction}
    (heap : t.orphanHeap = s.orphanHeap ++ [orphan]) (q : OrphanPointer) :
    t.orphan q = if q = s.orphanHeap.length then orphan else s.orphan q := by
  simp only [MempoolState.orphan, heap]
  rcases Nat.lt_trichotomy q s.orphanHeap.length with before | last | after
  · rw [if_neg (Nat.ne_of_lt before), List.getD_append _ _ _ _ before]
  · subst last
    simp
  · rw [if_neg (Nat.ne_of_gt after), List.getD_eq_default _ _ (by simp; omega),
      List.getD_eq_default _ _ (by omega)]

theorem lookup_foldl_insert_inputs (inputs : List DomainTransactionInput) (p : OrphanPointer)
    (m : AList fun _ : DomainOutpoint => OrphanPointer) (o : DomainOutpoint) :
    (inputs.foldl (fun orphans input => orphans.insert input.previousOutpoint p) m).lookup o =
      if o ∈ inputs.map (·.previousOutpoint) then some p else m.lookup o := by
  rw [← KeyedFold.lookup_foldl_insert_keys (fun _ => p), List.foldl_map]

theorem OrphanIndex.addOrphan {s : MempoolState} (index : OrphanIndex s) (env : Environment)
    (transaction : DomainTransaction) (isHighPriority : Bool)
    (fresh : s.allOrphans.lookup transaction.id = none)
    (unspent : ∀ o ∈ previousOutpoints transaction, s.orphansByPreviousOutpoint.lookup o = none)
    (nodup : (previousOutpoints transaction).Nodup) :
    OrphanIndex (finalState ((OrphansPool.addOrphan env transaction isHighPriority).run s)) := by
  generalize added : finalState ((OrphansPool.addOrphan env transaction isHighPriority).run s) = t
  have heap : t.orphanHeap = s.orphanHeap ++ [⟨transaction, isHighPriority, env.virtualDAAScore⟩] := by
    rw [← added]; rfl
  have orphans : t.allOrphans = s.allOrphans.insert transaction.id s.orphanHeap.length := by
    rw [← added]; rfl
  have spent : ∀ o, t.orphansByPreviousOutpoint.lookup o =
      if o ∈ previousOutpoints transaction then some s.orphanHeap.length
      else s.orphansByPreviousOutpoint.lookup o := by
    intro o
    rw [← added]
    exact lookup_foldl_insert_inputs _ _ _ o
  have old : ∀ id p, s.allOrphans.lookup id = some p → p ≠ s.orphanHeap.length := fun id p found =>
    Nat.ne_of_lt (index.live id p found).1
  constructor
  · intro id p found
    rw [orphans] at found
    rw [orphan_of_heap_append heap, heap, List.length_append]
    by_cases same : id = transaction.id
    · subst same
      rw [AList.lookup_insert] at found
      cases found
      simp
    · rw [AList.lookup_insert_ne same] at found
      rw [if_neg (old id p found)]
      rw [List.length_singleton]
      exact ⟨Nat.lt_succ_of_lt (index.live id p found).1, (index.live id p found).2⟩
  · intro id p found
    rw [orphans] at found
    rw [orphan_of_heap_append heap]
    by_cases same : id = transaction.id
    · subst same
      rw [AList.lookup_insert] at found
      cases found
      simpa using nodup
    · rw [AList.lookup_insert_ne same] at found
      rw [if_neg (old id p found)]
      exact index.nodup id p found
  · intro id p found o mem
    rw [orphans] at found
    rw [orphan_of_heap_append heap] at mem
    rw [spent]
    by_cases same : id = transaction.id
    · subst same
      rw [AList.lookup_insert] at found
      cases found
      rw [if_pos rfl] at mem
      rw [if_pos mem]
    · rw [AList.lookup_insert_ne same] at found
      rw [if_neg (old id p found)] at mem
      have indexed := index.indexes id p found o mem
      have notNew : o ∉ previousOutpoints transaction := fun isNew => by
        rw [unspent o isNew] at indexed
        cases indexed
      rw [if_neg notNew]
      exact indexed
  · intro o p found
    rw [spent] at found
    rw [orphans, orphan_of_heap_append heap]
    split at found
    · rename_i isNew
      cases found
      rw [if_pos rfl, AList.lookup_insert]
      exact ⟨rfl, isNew⟩
    · obtain ⟨live, mem⟩ := index.spends o p found
      rw [if_neg (old _ p live)]
      have other : (s.orphan p).transaction.id ≠ transaction.id := by
        intro same
        rw [same, fresh] at live
        cases live
      exact ⟨by rw [AList.lookup_insert_ne other]; exact live, mem⟩

theorem keeps_limitOrphanPoolSize (config : Config) (fuel : Nat) :
    Keeps OrphanIndex (OrphansPool.limitOrphanPoolSize config fuel) := by
  induction fuel with
  | zero => exact keeps_throw _
  | succ fuel ih =>
    intro s index
    simp only [OrphansPool.limitOrphanPoolSize, finalState_get_bind]
    split
    · split
      · exact index
      · exact keeps_bind (keeps_removeOrphan _ _ _) (fun _ => ih) s index
    · exact index

/-! ### The checks of `maybeAddOrphan` -/

theorem checks_checkOrphanDuplicate (transaction : DomainTransaction) :
    Checks (fun s => s.allOrphans.lookup transaction.id = none)
      (OrphansPool.checkOrphanDuplicate transaction) := by
  intro s
  simp only [OrphansPool.checkOrphanDuplicate, EStateM.run_bind, EStateM.run_get]
  split
  · exact ⟨rfl, fun _ _ passed => by cases passed⟩
  · rename_i absent
    exact ⟨rfl, fun _ _ _ => by simpa using absent⟩

theorem checks_checkOrphanMass (config : Config) (transaction : DomainTransaction) :
    Checks (fun _ => True) (OrphansPool.checkOrphanMass config transaction) := by
  intro s
  simp only [OrphansPool.checkOrphanMass]
  split
  · exact ⟨rfl, fun _ _ _ => trivial⟩
  · exact ⟨rfl, fun _ _ _ => trivial⟩

theorem checks_checkOrphanDoubleSpend (transaction : DomainTransaction) :
    Checks (fun s => ∀ o ∈ previousOutpoints transaction, s.orphansByPreviousOutpoint.lookup o = none)
      (OrphansPool.checkOrphanDoubleSpend transaction) := by
  intro s
  simp only [OrphansPool.checkOrphanDoubleSpend, EStateM.run_bind, EStateM.run_get]
  split
  · exact ⟨rfl, fun _ _ passed => by cases passed⟩
  · rename_i unspent
    refine ⟨rfl, fun _ _ _ o mem => ?_⟩
    obtain ⟨input, spends, rfl⟩ := List.mem_map.mp mem
    simpa using List.any_eq_false.mp (Bool.eq_false_iff.mpr unspent) input spends

theorem keeps_maybeAddOrphan (config : Config) (env : Environment) (fuel : Nat)
    (transaction : DomainTransaction) (isHighPriority : Bool)
    (nodup : (previousOutpoints transaction).Nodup) :
    Keeps OrphanIndex (OrphansPool.maybeAddOrphan config env fuel transaction isHighPriority) := by
  intro s index
  simp only [OrphansPool.maybeAddOrphan]
  split
  · exact index
  · refine check_bind_final (checks_checkOrphanDuplicate transaction) s index fun _ fresh => ?_
    refine check_bind_final (checks_checkOrphanMass config transaction) s index fun _ _ => ?_
    refine check_bind_final (checks_checkOrphanDoubleSpend transaction) s index fun _ unspent => ?_
    rw [finalState_bind]
    exact keeps_limitOrphanPoolSize config fuel _
      (index.addOrphan env transaction isHighPriority fresh unspent nodup)

/-! ### Orphans whose inputs change -/

theorem previousOutpoints_map_inputs (transaction : DomainTransaction)
    (f : DomainTransactionInput → DomainTransactionInput)
    (keeps : ∀ input, (f input).previousOutpoint = input.previousOutpoint) :
    previousOutpoints { transaction with inputs := transaction.inputs.map f } =
      previousOutpoints transaction := by
  simp only [previousOutpoints, List.map_map]
  exact List.map_congr_left fun input _ => keeps input

theorem orphanKey_populated (env : Environment) (orphan : OrphanTransaction) :
    orphanKey { orphan with
      transaction := (validateTransactionAndPopulateWithConsensusData env orphan.transaction).1 } =
      orphanKey orphan := by
  have filled := previousOutpoints_map_inputs orphan.transaction
    (fun input => if input.utxoEntry.isSome then input
      else { input with utxoEntry := env.virtualUTXOEntry input.previousOutpoint })
    fun input => by split <;> rfl
  unfold validateTransactionAndPopulateWithConsensusData
  split
  · rfl
  · dsimp only
    split
    · simp only [orphanKey, filled]
    · split <;> simp only [orphanKey, previousOutpoints] at filled ⊢ <;> rw [filled]

theorem previousOutpoints_fillFirstUnfilled (outpoint : DomainOutpoint) (entry : UTXOEntry)
    (inputs : List DomainTransactionInput) :
    (OrphansPool.fillFirstUnfilled outpoint entry inputs).map (·.previousOutpoint) =
      inputs.map (·.previousOutpoint) := by
  induction inputs with
  | nil => rfl
  | cons input rest ih =>
    simp only [OrphansPool.fillFirstUnfilled]
    split
    · rfl
    · rw [List.map_cons, ih, List.map_cons]

theorem orphanView_foldl {α : Type} (l : List α) (f : MempoolState → α → MempoolState)
    (step : ∀ s a, orphanView (f s a) = orphanView s) (s : MempoolState) :
    orphanView (l.foldl f s) = orphanView s := by
  induction l generalizing s with
  | nil => rfl
  | cons a l ih => rw [List.foldl_cons, ih, step]

theorem keeps_updateOrphansAfterTransactionRemoved (fuel : Nat)
    (removedTransaction : DomainTransaction) (removeRedeemers : Bool) :
    Keeps OrphanIndex
      (OrphansPool.updateOrphansAfterTransactionRemoved fuel removedTransaction removeRedeemers) := by
  unfold OrphansPool.updateOrphansAfterTransactionRemoved
  split
  · exact keeps_removeRedeemersOf fuel removedTransaction
  · refine keeps_modify fun s index => index.of_view (orphanView_foldl _ _ (fun t i => ?_) s)
    split
    · apply orphanView_setOrphan
      exact Prod.ext rfl (previousOutpoints_map_inputs _ _ fun input => by split <;> rfl)
    · rfl

theorem keeps_expireOrphanTransactions (config : Config) (env : Environment) (fuel : Nat) :
    Keeps OrphanIndex (OrphansPool.expireOrphanTransactions config env fuel) := by
  intro s index
  simp only [OrphansPool.expireOrphanTransactions, finalState_get_bind]
  split
  · exact index
  · refine keeps_bind (keeps_forM fun entry _ => keeps_get_bind fun t index' => ?_)
      (fun _ => keeps_modify fun t index' => index'.of_view (by rfl)) s index
    split
    · exact keeps_removeOrphan fuel _ false t index'
    · exact index'

theorem orphan_eq_of_heap {s t : MempoolState} (heap : t.orphanHeap = s.orphanHeap)
    (p : OrphanPointer) : t.orphan p = s.orphan p := by
  unfold MempoolState.orphan
  rw [heap]

theorem keeps_attempt {Inv : MempoolState → Prop} {α : Type} {x : MempoolM α}
    (kept : Keeps Inv x) : Keeps Inv (attempt x) :=
  keeps_tryCatch (keeps_map _ kept) fun _ => keeps_pure _

theorem keeps_unorphanTransaction (env : Environment) (fuel : Nat) (p : OrphanPointer) :
    Keeps OrphanIndex (OrphansPool.unorphanTransaction env fuel p) := by
  intro s index
  simp only [OrphansPool.unorphanTransaction, finalState_get_bind]
  have heap := keeps_orphanHeap_removeOrphan s.orphanHeap fuel (s.orphan p).transaction.id false s rfl
  have removed := keeps_removeOrphan fuel (s.orphan p).transaction.id false s index
  refine bind_final s (fun e t outcome => ?_) (fun u t outcome => ?_)
  · rwa [outcome, finalState_error] at removed
  · rw [outcome, finalState_ok] at removed heap
    rw [finalState_modify_bind]
    have same : orphanKey { s.orphan p with transaction :=
        (validateTransactionAndPopulateWithConsensusData env (s.orphan p).transaction).1 } =
        orphanKey (t.orphan p) := by
      rw [orphanKey_populated, orphan_eq_of_heap heap]
    refine keeps_orphanIndex_of_view (fun c => ?_) _ (removed.of_view (orphanView_setOrphan same))
    split
    on_goal 1 => refine keeps_bind (keeps_throw _) fun _ => ?_
    all_goals
      refine keeps_bind (leavesOrphans_validateTransactionInContext env _ c) fun _ => ?_
      refine keeps_get_bind fun s' same' => ?_
      exact keeps_bind (leavesOrphans_allocate _ c)
        (fun p' => keeps_bind (leavesOrphans_addMempoolTransaction p' c) fun _ => keeps_pure _) s' same'

theorem keeps_processOrphanOutputs (env : Environment) (fuel : Nat)
    (acceptedTransaction : DomainTransaction) (outputs : List (DomainTransactionOutput × Nat)) :
    Keeps OrphanIndex (OrphansPool.processOrphanOutputs env fuel acceptedTransaction outputs) := by
  induction outputs with
  | nil => exact keeps_pure _
  | cons output rest ih =>
    intro s index
    simp only [OrphansPool.processOrphanOutputs, finalState_get_bind]
    split
    · exact ih s index
    · rename_i p _
      rw [finalState_modify_bind]
      refine keeps_get_bind (fun t index' => ?_) _
        (index.of_view (orphanView_setOrphan (Prod.ext rfl (previousOutpoints_fillFirstUnfilled _ _ _))))
      split
      · refine keeps_bind (keeps_attempt (keeps_unorphanTransaction env fuel p))
          (fun result => ?_) t index'
        split
        · exact keeps_ite ih (keeps_throw _)
        · exact keeps_bind ih fun _ => keeps_pure _
      · exact ih t index'

theorem keeps_processOrphansAfterAcceptedTransaction (env : Environment) (fuel : Nat)
    (acceptedTransaction : DomainTransaction) :
    Keeps OrphanIndex
      (OrphansPool.processOrphansAfterAcceptedTransaction env fuel acceptedTransaction) :=
  keeps_processOrphanOutputs env fuel acceptedTransaction _

/-! ### The mempool's methods -/

theorem keeps_removeTransactionFromSets (fuel : Nat) (p : TxPointer) (removeRedeemers : Bool) :
    Keeps OrphanIndex (removeTransactionFromSets fuel p removeRedeemers) := by
  intro s index
  simp only [removeTransactionFromSets, finalState_modify_bind]
  refine keeps_bind (keeps_orphanIndex_of_view (leavesOrphans_removeFromPool p))
    (fun _ => keeps_get_bind fun t index' => ?_) _ (index.of_view (by rfl))
  exact keeps_updateOrphansAfterTransactionRemoved fuel _ removeRedeemers t index'

theorem keeps_removeTransaction (fuel : Nat) (transactionID : DomainTransactionID)
    (removeRedeemers : Bool) :
    Keeps OrphanIndex (removeTransaction fuel transactionID removeRedeemers) := by
  unfold removeTransaction
  refine keeps_get_bind fun s index => (?_ : Keeps OrphanIndex _) s index
  refine keeps_ite (keeps_removeOrphan fuel transactionID true) ?_
  split
  · exact keeps_pure _
  · split
    · exact keeps_throw _
    · refine keeps_ite (keeps_bind (keeps_modify fun t index' => ?_) fun _ => ?removals) ?removals
      · exact index'.of_view (orphanView_foldl _ _ (fun _ _ => by rfl) t)
      · exact keeps_bind (keeps_forM fun t _ => keeps_removeTransactionFromSets fuel t removeRedeemers)
          fun _ => keeps_ite (keeps_get_bind fun t index' => keeps_removeRedeemersOf fuel _ t index')
            (keeps_pure _)

theorem keeps_expireOldTransactions (config : Config) (env : Environment) (fuel : Nat) :
    Keeps OrphanIndex (expireOldTransactions config env fuel) := by
  unfold expireOldTransactions
  refine keeps_get_bind fun s index => (?_ : Keeps OrphanIndex _) s index
  refine keeps_ite (keeps_pure _) (keeps_bind (keeps_forM fun entry _ => ?_)
    fun _ => keeps_modify fun t index' => index'.of_view (by rfl))
  refine keeps_get_bind fun t index' => (?_ : Keeps OrphanIndex _) t index'
  split
  · exact keeps_pure _
  · exact keeps_get_bind fun u index'' =>
      keeps_ite (keeps_removeTransaction fuel _ true) (keeps_pure _) u index''

theorem keeps_limitTransactionCountLoop (config : Config) (fuel turns currentIndex : Nat) :
    Keeps OrphanIndex (limitTransactionCountLoop config fuel turns currentIndex) := by
  induction turns generalizing currentIndex with
  | zero => exact keeps_throw _
  | succ turns ih =>
    simp only [limitTransactionCountLoop]
    refine keeps_get_bind fun s index => (?_ : Keeps OrphanIndex _) s index
    refine keeps_ite ?_ (keeps_pure _)
    split
    · exact keeps_throw _
    · exact keeps_pure _
    · exact keeps_bind (keeps_removeTransaction fuel _ true) fun _ =>
        keeps_get_bind fun t index' => keeps_ite (ih _) (keeps_pure _) t index'

theorem keeps_limitTransactionCount (config : Config) (fuel : Nat) :
    Keeps OrphanIndex (limitTransactionCount config fuel) :=
  keeps_limitTransactionCountLoop config fuel fuel 0

theorem keeps_removeDoubleSpends (fuel : Nat) (transaction : DomainTransaction) :
    Keeps OrphanIndex (removeDoubleSpends fuel transaction) :=
  keeps_forM fun _ _ => keeps_get_bind fun s index => by
    split
    · exact keeps_removeTransaction fuel _ true s index
    · exact index

theorem keeps_handleBlockTransaction (env : Environment) (fuel : Nat)
    (transaction : DomainTransaction) :
    Keeps OrphanIndex (handleBlockTransaction env fuel transaction) :=
  keeps_bind (keeps_removeTransaction fuel _ false) fun _ =>
    keeps_bind (keeps_removeDoubleSpends fuel _) fun _ =>
      keeps_bind (keeps_removeOrphan fuel _ false) fun _ =>
        keeps_processOrphansAfterAcceptedTransaction env fuel transaction

theorem keeps_handleNewBlockTransactions (config : Config) (env : Environment) (fuel : Nat)
    (blockTransactions : List DomainTransaction) :
    Keeps OrphanIndex (handleNewBlockTransactions config env fuel blockTransactions) := by
  unfold handleNewBlockTransactions
  split
  · exact keeps_throw _
  · exact keeps_bind (keeps_foldlM (fun _ transaction _ =>
        keeps_bind (keeps_handleBlockTransaction env fuel transaction) fun _ => keeps_pure _) [])
      fun _ => keeps_bind (keeps_expireOrphanTransactions config env fuel) fun _ =>
        keeps_bind (keeps_expireOldTransactions config env fuel) fun _ => keeps_pure _

theorem keeps_revalidateTransaction (env : Environment) (fuel : Nat) (p : TxPointer) :
    Keeps OrphanIndex (revalidateTransaction env fuel p) := by
  unfold revalidateTransaction
  refine keeps_bind (keeps_modify fun t index => index.of_view (by rfl)) fun _ =>
    keeps_get_bind fun s index => (?_ : Keeps OrphanIndex _) s index
  split
  refine keeps_bind (keeps_modify fun t index => index.of_view (by rfl)) fun _ => ?_
  split
  · exact keeps_throw _
  · exact keeps_ite (keeps_bind (keeps_removeTransaction fuel _ false) fun _ => keeps_pure _)
      (keeps_pure _)

theorem keeps_revalidateLoop (env : Environment) (fuel turns : Nat)
    (txDAG : AList fun _ : DomainTransactionID => TxNode) (queue : List DomainTransactionID)
    (validTransactions : List DomainTransaction) :
    Keeps OrphanIndex (revalidateLoop env fuel turns txDAG queue validTransactions) := by
  induction turns generalizing txDAG queue validTransactions with
  | zero => exact keeps_throw _
  | succ turns ih =>
    cases queue with
    | nil => exact keeps_pure _
    | cons id queue =>
      simp only [revalidateLoop]
      exact keeps_ite (ih _ _ _) (keeps_bind (keeps_revalidateTransaction env fuel _) fun _ =>
        keeps_get_bind fun s index => ih _ _ _ s index)

theorem keeps_revalidateHighPriorityTransactions (env : Environment) (fuel : Nat) :
    Keeps OrphanIndex (revalidateHighPriorityTransactions env fuel) :=
  keeps_get_bind fun s index => keeps_revalidateLoop env fuel fuel _ _ [] s index

theorem nodup_of_fillInputsAndGetMissingParents {env : Environment}
    (rejects : RejectsDuplicateInputs env) (s : MempoolState) (transaction : DomainTransaction)
    {parentsInPool : AList fun _ : DomainTransactionID => TxPointer} {missingOutpoints : List DomainOutpoint}
    (found : (fillInputsAndGetMissingParents env s transaction).2 = .ok (parentsInPool, missingOutpoints)) :
    (previousOutpoints (fillInputsAndGetMissingParents env s transaction).1).Nodup := by
  unfold fillInputsAndGetMissingParents at found ⊢
  dsimp only at found ⊢
  split
  · rename_i panicked
    rw [panicked] at found
    cases found
  · rename_i filled fillOk
    rw [fillOk] at found
    dsimp only at found
    have distinct : (previousOutpoints filled).Nodup := by
      by_contra duplicate
      have rejected : validateTransactionAndPopulateWithConsensusData env filled =
          (filled, some .ruleError) := by
        unfold validateTransactionAndPopulateWithConsensusData
        rw [rejects filled duplicate]
      rw [rejected] at found
      cases found
    have kept : previousOutpoints (validateTransactionAndPopulateWithConsensusData env filled).1 =
        previousOutpoints filled :=
      congrArg Prod.snd (orphanKey_populated env ⟨filled, false, 0⟩)
    generalize validateTransactionAndPopulateWithConsensusData env filled = populated at kept ⊢
    obtain ⟨populated, err⟩ := populated
    rw [← kept] at distinct
    rcases err with _ | (_ | _ | _ | _) <;> exact distinct

theorem keeps_validateAndInsertTransaction (config : Config) {env : Environment}
    (rejects : RejectsDuplicateInputs env) (fuel : Nat) (transaction : DomainTransaction)
    (isHighPriority allowOrphan : Bool) :
    Keeps OrphanIndex
      (validateAndInsertTransaction config env fuel transaction isHighPriority allowOrphan) := by
  unfold validateAndInsertTransaction
  refine keeps_bind (keeps_orphanIndex_of_view (leavesOrphans_validateTransactionPreUTXOEntry config env _))
    fun _ => keeps_get_bind fun s index => (?_ : Keeps OrphanIndex _) s index
  split
  rename_i filledTransaction result filled
  split
  · exact keeps_throw _
  · rename_i parentsInPool missingOutpoints
    have nodup := nodup_of_fillInputsAndGetMissingParents rejects s _ (by rw [filled])
    rw [filled] at nodup
    have orphaned := keeps_bind (keeps_maybeAddOrphan config env fuel _ isHighPriority nodup)
      fun _ => keeps_pure ([] : List DomainTransaction)
    refine keeps_ite (keeps_ite (keeps_bind (keeps_throw _) fun _ => orphaned) orphaned) ?_
    exact keeps_bind (keeps_orphanIndex_of_view (leavesOrphans_validateTransactionInContext env _))
      fun _ => keeps_bind (keeps_orphanIndex_of_view (leavesOrphans_addTransaction env _ _ _)) fun _ =>
        keeps_get_bind fun t index' =>
          keeps_bind (keeps_processOrphansAfterAcceptedTransaction env fuel _)
            (fun _ => keeps_bind (keeps_limitTransactionCount config fuel) fun _ => keeps_pure _) t index'

theorem keeps_call (config : Config) (fuel : Nat) (operation : MempoolOperation)
    (answered : ∀ env ∈ operation.environment, RejectsDuplicateInputs env) :
    Keeps OrphanIndex (operation.call config fuel) := by
  cases operation with
  | validateAndInsertTransaction env transaction isHighPriority allowOrphan =>
    exact keeps_map _ (keeps_validateAndInsertTransaction config (answered env rfl) fuel
      transaction isHighPriority allowOrphan)
  | removeTransaction transactionID removeRedeemers =>
    exact keeps_removeTransaction fuel transactionID removeRedeemers
  | handleNewBlockTransactions env blockTransactions =>
    exact keeps_map _ (keeps_handleNewBlockTransactions config env fuel blockTransactions)
  | revalidateHighPriorityTransactions env =>
    exact keeps_map _ (keeps_revalidateHighPriorityTransactions env fuel)
  | expireOldTransactions env => exact keeps_expireOldTransactions config env fuel
  | expireOrphanTransactions env => exact keeps_expireOrphanTransactions config env fuel
  | limitTransactionCount => exact keeps_limitTransactionCount config fuel

/-! ### Every reachable state -/

theorem step_eq_finalState (config : Config) (fuel : Nat) (s : MempoolState)
    (operation : MempoolOperation) :
    operation.step config fuel s = finalState ((operation.call config fuel).run s) := by
  unfold MempoolOperation.step
  cases (operation.call config fuel).run s <;> rfl

theorem OrphanIndex.empty : OrphanIndex MempoolState.empty where
  live _ _ found := by cases found
  nodup _ _ found := by cases found
  indexes _ _ found := by cases found
  spends _ _ found := by cases found

theorem OrphanIndex.of_reachable {config : Config} {s : MempoolState}
    (reachable : Reachable config RejectsDuplicateInputs s) : OrphanIndex s := by
  induction reachable with
  | empty => exact OrphanIndex.empty
  | step fuel operation answered _ index =>
    rw [step_eq_finalState]
    exact keeps_call config fuel operation answered _ index

theorem OrphanIndex.lookup_eq_some_iff {s : MempoolState} (index : OrphanIndex s)
    (o : DomainOutpoint) (p : OrphanPointer) :
    s.orphansByPreviousOutpoint.lookup o = some p ↔
      ∃ id, s.allOrphans.lookup id = some p ∧ o ∈ previousOutpoints (s.orphan p).transaction := by
  constructor
  · intro found
    obtain ⟨live, mem⟩ := index.spends o p found
    exact ⟨_, live, mem⟩
  · rintro ⟨id, live, mem⟩
    exact index.indexes id p live o mem

theorem orphansByPreviousOutpoint_exact_of_rejecting_duplicates {config : Config}
    {s : MempoolState} (reachable : Reachable config RejectsDuplicateInputs s) :
    (∀ o p, s.orphansByPreviousOutpoint.lookup o = some p ↔
      ∃ id, s.allOrphans.lookup id = some p ∧ o ∈ previousOutpoints (s.orphan p).transaction) ∧
    ∀ fuel id removeRedeemers i id' o s',
      (OrphansPool.removeOrphan fuel id removeRedeemers).run s ≠
        .error (.orphanInputNotIndexed i id' o) s' := by
  have index := OrphanIndex.of_reachable reachable
  refine ⟨index.lookup_eq_some_iff, fun fuel id removeRedeemers i id' o s' raised => ?_⟩
  exact avoids_removeOrphan fuel id removeRedeemers s index _ _ raised trivial

def orphaningEnvironment (isolation : DomainTransaction → Option ConsensusError) : Environment :=
  { acceptingEnvironment with
    validateTransactionInIsolation := isolation
    virtualUTXOEntry := fun _ => none }

def rejectDuplicateInputs (transaction : DomainTransaction) : Option ConsensusError :=
  if (previousOutpoints transaction).Nodup then none else some .ruleError

theorem rejectsDuplicateInputs_orphaningEnvironment :
    RejectsDuplicateInputs (orphaningEnvironment rejectDuplicateInputs) :=
  fun _ duplicate => if_neg duplicate

theorem orphan_of_missing_parent_indexed :
    let s := (MempoolOperation.validateAndInsertTransaction
      (orphaningEnvironment rejectDuplicateInputs) childTransaction false true).step
        defaultLimits 10 .empty
    Reachable defaultLimits RejectsDuplicateInputs s ∧
    (s.allOrphans.lookup childTransaction.id).isSome ∧
    (∀ o p, s.orphansByPreviousOutpoint.lookup o = some p ↔
      ∃ id, s.allOrphans.lookup id = some p ∧ o ∈ previousOutpoints (s.orphan p).transaction) ∧
    ∀ fuel id removeRedeemers i id' o s',
      (OrphansPool.removeOrphan fuel id removeRedeemers).run s ≠
        .error (.orphanInputNotIndexed i id' o) s' :=
  have reachable := Reachable.step 10 _
    (fun _ answered => by cases answered; exact rejectsDuplicateInputs_orphaningEnvironment)
    Reachable.empty
  ⟨reachable, by decide, orphansByPreviousOutpoint_exact_of_rejecting_duplicates reachable⟩

def doubleSpendingTransaction : DomainTransaction :=
  ⟨⟨3⟩, [⟨⟨⟨100⟩, 0⟩, [], 0, 1, none⟩, ⟨⟨⟨100⟩, 0⟩, [], 0, 1, none⟩],
    [⟨10, ⟨[], 0⟩⟩], ⟨[]⟩, 0, 0⟩

/-- Consensus answers that let a transaction spending one outpoint twice through the check in
    isolation make it an orphan; removing it then deletes it from `allOrphans`, deletes the
    outpoint for its first input, and fails at its second. -/
theorem removeOrphan_fails_on_orphan_spending_an_outpoint_twice :
    let o : DomainOutpoint := ⟨⟨100, by decide⟩, 0⟩
    let s := (MempoolOperation.validateAndInsertTransaction (orphaningEnvironment fun _ => none)
      doubleSpendingTransaction false true).step defaultLimits 10 .empty
    Reachable defaultLimits (fun _ => True) s ∧
    s.allOrphans.lookup doubleSpendingTransaction.id = some 0 ∧
    s.orphansByPreviousOutpoint.lookup o = some 0 ∧
    ∃ s', (OrphansPool.removeOrphan 10 doubleSpendingTransaction.id true).run s =
        .error (.orphanInputNotIndexed 1 doubleSpendingTransaction.id o) s' ∧
      s'.allOrphans.lookup doubleSpendingTransaction.id = none :=
  ⟨.step 10 _ (fun _ _ => trivial) .empty, by decide, by decide, _, rfl,
    by decide⟩

end Mempool
