import Htnd.Mempool.Model
import Htnd.Lib.StateInvariant
import Mathlib.Data.List.Sort
import Mathlib.Data.List.InsertIdx
import Mathlib.Data.Prod.Lex
import Mathlib.Algebra.Order.Field.Rat

/-!
`TransactionsOrderedByFeeRate` (model/ordered_transactions_by_fee_rate.go) is a slice kept
in ascending order of fee rate, ties broken by transaction ID; `Push` and `Remove` find their
index by `sort.Search` over that order. Read through the order's key, `Push` is the insertion
of a sorted list and keeps the slice sorted; `Remove` erases the element at the index the
search finds, which holds a transaction of the right ID but not always of the right fee rate.
The fee rates are the `float64` quotients the code compares, read as the rationals they denote.
-/
namespace Mempool
open Utxo StateInvariant TransactionsOrderedByFeeRate

/-! ### `sort.Search` on a monotone predicate -/

section SortSearch

variable {f : Nat → Bool} {n : Nat}

def MonotoneBelow (n : Nat) (f : Nat → Bool) : Prop :=
  ∀ i j, i ≤ j → j < n → f i = true → f j = true

theorem searchLoop_spec (mono : MonotoneBelow n f) :
    ∀ fuel i j, j - i < fuel → i ≤ j → j ≤ n → (∀ k < i, f k = false) → (j < n → f j = true) →
      (∀ k < searchLoop f fuel i j, f k = false) ∧
        (searchLoop f fuel i j < n → f (searchLoop f fuel i j) = true) ∧
        searchLoop f fuel i j ≤ n := by
  intro fuel
  induction fuel with
  | zero => intro i j enough; omega
  | succ fuel ih =>
    intro i j enough le bound below atJ
    simp only [searchLoop]
    split
    case isTrue lt =>
      have mid : i ≤ (i + j) / 2 ∧ (i + j) / 2 < j := by omega
      split
      case isTrue falseAtMid =>
        apply ih ((i + j) / 2 + 1) j (by omega) (by omega) bound _ atJ
        intro k lt'
        cases atK : f k
        case false => rfl
        case true =>
          have := mono k ((i + j) / 2) (by omega) (by omega) atK
          simp_all
      case isFalse trueAtMid =>
        apply ih i ((i + j) / 2) (by omega) (by omega) (by omega) below
        intro _
        simpa using trueAtMid
    case isFalse ge =>
      have same : i = j := by omega
      subst same
      exact ⟨below, atJ, bound⟩

theorem sortSearch_eq_findIdx {α : Type} {l : List α} {p : α → Bool}
    (reads : ∀ i (h : i < l.length), f i = p l[i])
    (mono : l.Pairwise fun a b => p a = true → p b = true) :
    sortSearch l.length f = l.findIdx p := by
  have monoBelow : MonotoneBelow l.length f := by
    intro i j le lt atI
    rcases Nat.eq_or_lt_of_le le with same | before
    · subst same; exact atI
    · rw [reads i (by omega)] at atI
      rw [reads j lt]
      exact List.pairwise_iff_getElem.1 mono i j (by omega) lt before atI
  obtain ⟨below, atResult, bound⟩ := searchLoop_spec monoBelow (l.length + 1) 0 l.length
    (by omega) (Nat.zero_le _) le_rfl (fun _ _ => by omega) (fun lt => absurd lt (lt_irrefl _))
  simp only [sortSearch]
  rcases Nat.lt_or_ge (searchLoop f (l.length + 1) 0 l.length) l.length with lt | ge
  · symm
    rw [List.findIdx_eq lt]
    refine ⟨(reads _ lt) ▸ atResult lt, fun j before => ?_⟩
    rw [← reads j (by omega)]
    exact below j before
  · have whole : searchLoop f (l.length + 1) 0 l.length = l.length := by omega
    rw [whole, eq_comm, List.findIdx_eq_length]
    intro x mem
    obtain ⟨i, lt, rfl⟩ := List.getElem_of_mem mem
    rw [← reads i lt]
    exact below i (by omega)

end SortSearch

/-! ### The order's key -/

/-- The order of the slice: fee rate, then transaction ID. -/
def feeRateKey (tx : DomainTransaction) : Lex (ℚ × Fin (2 ^ 256)) := toLex ((feeRate tx).toRat, tx.id.value)

def FeeRateLE (a b : DomainTransaction) : Prop := feeRateKey a ≤ feeRateKey b

instance : DecidableRel FeeRateLE := fun a b => inferInstanceAs (Decidable (feeRateKey a ≤ feeRateKey b))

instance : Std.Total FeeRateLE := ⟨fun a b => le_total (feeRateKey a) (feeRateKey b)⟩

instance : IsTrans DomainTransaction FeeRateLE := ⟨fun _ _ _ => le_trans⟩

theorem id_eq_of_feeRateKey_eq {a b : DomainTransaction} (same : feeRateKey a = feeRateKey b) :
    a.id = b.id := by
  have values : a.id.value = b.id.value := congrArg (fun key => (ofLex key).2) same
  cases ha : a.id
  cases hb : b.id
  simp_all

def Populated (tx : DomainTransaction) : Prop := tx.fee ≠ 0 ∧ tx.mass ≠ 0

theorem searchPredicate_eq (element tx : DomainTransaction) :
    (feeRateGreater element tx || (feeRateEqual element tx && decide (tx.id.value ≤ element.id.value))) =
      decide (FeeRateLE tx element) := by
  have key : FeeRateLE tx element ↔ (feeRate tx).toRat < (feeRate element).toRat ∨
      (feeRate tx).toRat = (feeRate element).toRat ∧ tx.id.value ≤ element.id.value :=
    Prod.Lex.toLex_le_toLex
  rw [Bool.eq_iff_iff, decide_eq_true_iff, key, Bool.or_eq_true, feeRateGreater, Binary64.Value.lt_iff,
    Bool.and_eq_true, feeRateEqual, Binary64.Value.beq_iff, decide_eq_true_iff,
    @eq_comm _ (feeRate element).toRat]

/-! ### The slice, and what `findTransactionIndex` finds in it -/

/-- The transactions of the slice, in its order. -/
def orderedTransactions (s : MempoolState) : List DomainTransaction :=
  s.transactionsOrderedByFeeRate.map fun p => (s.mempoolTransaction p).transaction

/-- What `Push` and `Remove` keep: every transaction of the slice has its fee and mass
    populated, and the slice is sorted by fee rate, then ID. -/
structure FeeRateOrdered (s : MempoolState) : Prop where
  populated : ∀ tx ∈ orderedTransactions s, Populated tx
  sorted : (orderedTransactions s).Pairwise FeeRateLE

/-- Where `tx` belongs in the slice: before the first transaction at or above it. -/
def insertionIndex (s : MempoolState) (tx : DomainTransaction) : Nat :=
  (orderedTransactions s).findIdx fun element => decide (FeeRateLE tx element)

def foundAt (s : MempoolState) (tx : DomainTransaction) : Bool :=
  ((orderedTransactions s)[insertionIndex s tx]?).any fun element => element.id == tx.id

theorem length_orderedTransactions (s : MempoolState) :
    (orderedTransactions s).length = s.transactionsOrderedByFeeRate.length :=
  List.length_map _

section Search

variable {s : MempoolState}

theorem wasFound_eq {i : Nat} (le : i ≤ s.transactionsOrderedByFeeRate.length)
    (tx : DomainTransaction) :
    (i != s.transactionsOrderedByFeeRate.length &&
        (s.mempoolTransaction (s.transactionsOrderedByFeeRate.getD i 0)).transaction.id == tx.id) =
      ((orderedTransactions s)[i]?).any fun element => element.id == tx.id := by
  rcases Nat.lt_or_ge i s.transactionsOrderedByFeeRate.length with lt | ge
  · simp [orderedTransactions, List.getElem?_eq_getElem lt, Nat.ne_of_lt lt]
  · have atEnd : i = s.transactionsOrderedByFeeRate.length := by omega
    simp [orderedTransactions, atEnd]

theorem findTransactionIndex_of_ordered {mt : MempoolTransaction} (ordered : FeeRateOrdered s)
    (populated : Populated mt.transaction) :
    findTransactionIndex s mt = .ok (insertionIndex s mt.transaction, foundAt s mt.transaction) := by
  have reads : ∀ i (h : i < (orderedTransactions s).length),
      (feeRateGreater (s.mempoolTransaction (s.transactionsOrderedByFeeRate.getD i 0)).transaction
          mt.transaction ||
        (feeRateEqual (s.mempoolTransaction (s.transactionsOrderedByFeeRate.getD i 0)).transaction
            mt.transaction &&
          decide (mt.transaction.id.value ≤
            (s.mempoolTransaction (s.transactionsOrderedByFeeRate.getD i 0)).transaction.id.value))) =
        decide (FeeRateLE mt.transaction (orderedTransactions s)[i]) := by
    intro i lt
    have element : (s.mempoolTransaction (s.transactionsOrderedByFeeRate.getD i 0)).transaction =
        (orderedTransactions s)[i] := by
      have bound : i < s.transactionsOrderedByFeeRate.length := length_orderedTransactions s ▸ lt
      simp [orderedTransactions, List.getElem?_eq_getElem bound]
    rw [element]
    exact searchPredicate_eq _ _
  have mono : (orderedTransactions s).Pairwise fun a b =>
      decide (FeeRateLE mt.transaction a) = true → decide (FeeRateLE mt.transaction b) = true :=
    ordered.sorted.imp fun before atA => by
      simp only [decide_eq_true_eq] at atA ⊢
      exact le_trans atA before
  have index := sortSearch_eq_findIdx reads mono
  rw [length_orderedTransactions] at index
  have unpopulated : (mt.transaction.fee == 0 || mt.transaction.mass == 0) = false := by
    simp [populated.1, populated.2]
  have within : insertionIndex s mt.transaction ≤ s.transactionsOrderedByFeeRate.length :=
    length_orderedTransactions s ▸ List.findIdx_le_length
  simp only [findTransactionIndex, unpopulated, index, Bool.false_eq_true, if_false]
  rw [← insertionIndex, wasFound_eq within, foundAt]

theorem findTransactionIndex_of_unpopulated {mt : MempoolTransaction}
    (unpopulated : ¬ Populated mt.transaction) :
    findTransactionIndex s mt = .error .feeAndMassNotPopulated := by
  have zero : (mt.transaction.fee == 0 || mt.transaction.mass == 0) = true := by
    simp only [Populated, not_and_or, not_not] at unpopulated
    simpa using unpopulated
  simp [findTransactionIndex, zero]

end Search

/-! ### `Push` -/

section Push

variable {s : MempoolState} {p : TxPointer}

theorem push_of_ordered (ordered : FeeRateOrdered s)
    (populated : Populated (s.mempoolTransaction p).transaction) :
    (push p).run s = .ok () { s with transactionsOrderedByFeeRate :=
      s.transactionsOrderedByFeeRate.take (insertionIndex s (s.mempoolTransaction p).transaction) ++
        p :: s.transactionsOrderedByFeeRate.drop (insertionIndex s (s.mempoolTransaction p).transaction) } := by
  simp only [push, EStateM.run, bind, EStateM.bind, get, getThe, MonadStateOf.get, EStateM.get]
  rw [findTransactionIndex_of_ordered ordered populated]
  rfl

theorem push_of_unpopulated (unpopulated : ¬ Populated (s.mempoolTransaction p).transaction) :
    (push p).run s = .error .feeAndMassNotPopulated s :=
  push_of_error (findTransactionIndex_of_unpopulated unpopulated)

theorem orderedTransactions_push (i : Nat)
    (at_insertion : i = insertionIndex s (s.mempoolTransaction p).transaction) :
    orderedTransactions { s with transactionsOrderedByFeeRate :=
        s.transactionsOrderedByFeeRate.take i ++ p :: s.transactionsOrderedByFeeRate.drop i } =
      (orderedTransactions s).orderedInsert FeeRateLE (s.mempoolTransaction p).transaction := by
  rw [List.orderedInsert_eq_take_drop, List.takeWhile_eq_take_findIdx_not,
    List.dropWhile_eq_drop_findIdx_not]
  simp only [decide_not, Bool.not_not]
  rw [← insertionIndex, ← at_insertion]
  simp [orderedTransactions, MempoolState.mempoolTransaction]

theorem keeps_push : Keeps FeeRateOrdered (push p) := by
  intro s ordered
  by_cases populated : Populated (s.mempoolTransaction p).transaction
  · rw [push_of_ordered ordered populated, finalState_ok]
    have inserted := orderedTransactions_push (s := s) (p := p) _ rfl
    constructor
    · rw [inserted]
      intro tx mem
      rcases (List.mem_orderedInsert FeeRateLE).1 mem with rfl | old
      · exact populated
      · exact ordered.populated tx old
    · rw [inserted]
      exact List.Pairwise.orderedInsert _ _ ordered.sorted
  · rw [push_of_unpopulated populated, finalState_error]
    exact ordered

end Push

/-! ### `Remove` -/

section Remove

variable {s : MempoolState} {p : TxPointer}

theorem foundAt_spec {tx : DomainTransaction} (found : foundAt s tx = true) :
    ∃ lt : insertionIndex s tx < (orderedTransactions s).length,
      (orderedTransactions s)[insertionIndex s tx].id = tx.id ∧
        FeeRateLE tx (orderedTransactions s)[insertionIndex s tx] := by
  obtain ⟨element, atIndex, sameID⟩ := (Option.any_eq_true _ _).1 found
  obtain ⟨lt, rfl⟩ := List.getElem?_eq_some_iff.1 atIndex
  exact ⟨lt, by simpa using sameID, of_decide_eq_true (List.findIdx_getElem (w := lt))⟩

theorem remove_of_found (ordered : FeeRateOrdered s)
    (populated : Populated (s.mempoolTransaction p).transaction)
    (found : foundAt s (s.mempoolTransaction p).transaction = true) :
    (remove p).run s = .ok () { s with transactionsOrderedByFeeRate :=
      s.transactionsOrderedByFeeRate.eraseIdx (insertionIndex s (s.mempoolTransaction p).transaction) } := by
  obtain ⟨lt, -⟩ := foundAt_spec found
  rw [length_orderedTransactions] at lt
  simp only [remove, removeAtIndex, EStateM.run, bind, EStateM.bind, get, getThe,
    MonadStateOf.get, EStateM.get]
  rw [findTransactionIndex_of_ordered ordered populated]
  simp [found, EStateM.bind, EStateM.get, Nat.not_le.2 lt]
  rfl

theorem remove_of_not_found (ordered : FeeRateOrdered s)
    (populated : Populated (s.mempoolTransaction p).transaction)
    (notFound : foundAt s (s.mempoolTransaction p).transaction = false) :
    (remove p).run s = .error .transactionNotFound s := by
  simp only [remove, EStateM.run, bind, EStateM.bind, get, getThe, MonadStateOf.get, EStateM.get]
  rw [findTransactionIndex_of_ordered ordered populated]
  simp [notFound, throw, throwThe, MonadExceptOf.throw, EStateM.throw]

theorem remove_of_unpopulated (unpopulated : ¬ Populated (s.mempoolTransaction p).transaction) :
    (remove p).run s = .error .feeAndMassNotPopulated s := by
  simp only [remove, EStateM.run, bind, EStateM.bind, get, getThe, MonadStateOf.get, EStateM.get]
  rw [findTransactionIndex_of_unpopulated unpopulated]
  rfl

theorem orderedTransactions_eraseIdx (i : Nat) :
    orderedTransactions { s with transactionsOrderedByFeeRate :=
        s.transactionsOrderedByFeeRate.eraseIdx i } = (orderedTransactions s).eraseIdx i := by
  simp [orderedTransactions, List.eraseIdx_map, MempoolState.mempoolTransaction]

theorem keeps_remove : Keeps FeeRateOrdered (remove p) := by
  intro s ordered
  by_cases populated : Populated (s.mempoolTransaction p).transaction
  · cases found : foundAt s (s.mempoolTransaction p).transaction
    case false =>
      rw [remove_of_not_found ordered populated found, finalState_error]
      exact ordered
    case true =>
      rw [remove_of_found ordered populated found, finalState_ok]
      constructor
      · rw [orderedTransactions_eraseIdx]
        exact fun tx mem => ordered.populated tx (List.mem_of_mem_eraseIdx mem)
      · rw [orderedTransactions_eraseIdx]
        exact ordered.sorted.sublist (List.eraseIdx_sublist _ _)
  · rw [remove_of_unpopulated populated, finalState_error]
    exact ordered

theorem foundAt_of_present {tx : DomainTransaction} (ordered : FeeRateOrdered s)
    (present : ∃ e ∈ orderedTransactions s, feeRateKey e = feeRateKey tx) :
    ∃ lt : insertionIndex s tx < (orderedTransactions s).length,
      feeRateKey (orderedTransactions s)[insertionIndex s tx] = feeRateKey tx ∧
        foundAt s tx = true := by
  obtain ⟨e, mem, sameKey⟩ := present
  obtain ⟨j, ltJ, rfl⟩ := List.getElem_of_mem mem
  have atE : decide (FeeRateLE tx (orderedTransactions s)[j]) = true :=
    decide_eq_true (le_of_eq sameKey.symm)
  have lt : insertionIndex s tx < (orderedTransactions s).length :=
    List.findIdx_lt_length_of_exists ⟨_, mem, atE⟩
  have above : FeeRateLE tx (orderedTransactions s)[insertionIndex s tx] :=
    of_decide_eq_true (List.findIdx_getElem (w := lt))
  have notAfter : insertionIndex s tx ≤ j := by
    by_contra after
    have := List.not_of_lt_findIdx (Nat.lt_of_not_le after)
    simp_all
  have below : FeeRateLE (orderedTransactions s)[insertionIndex s tx] (orderedTransactions s)[j] := by
    rcases Nat.eq_or_lt_of_le notAfter with same | before
    · simp only [same]
      exact le_refl _
    · exact List.pairwise_iff_getElem.1 ordered.sorted _ _ lt ltJ before
  have sameKey' : feeRateKey (orderedTransactions s)[insertionIndex s tx] = feeRateKey tx :=
    le_antisymm (sameKey ▸ below) above
  have sameID : (orderedTransactions s)[insertionIndex s tx].id = tx.id :=
    id_eq_of_feeRateKey_eq sameKey'
  refine ⟨lt, sameKey', ?_⟩
  simp [foundAt, List.getElem?_eq_getElem lt, sameID]

theorem remove_ok_spec (ordered : FeeRateOrdered s) {s' : MempoolState} {u : Unit}
    (removed : (remove p).run s = .ok u s') :
    ∃ lt : insertionIndex s (s.mempoolTransaction p).transaction < (orderedTransactions s).length,
      s' = { s with transactionsOrderedByFeeRate :=
        s.transactionsOrderedByFeeRate.eraseIdx (insertionIndex s (s.mempoolTransaction p).transaction) } ∧
      (orderedTransactions s)[insertionIndex s (s.mempoolTransaction p).transaction].id =
        (s.mempoolTransaction p).transaction.id ∧
      FeeRateLE (s.mempoolTransaction p).transaction
        (orderedTransactions s)[insertionIndex s (s.mempoolTransaction p).transaction] := by
  by_cases populated : Populated (s.mempoolTransaction p).transaction
  · cases found : foundAt s (s.mempoolTransaction p).transaction
    case false =>
      rw [remove_of_not_found ordered populated found] at removed
      cases removed
    case true =>
      rw [remove_of_found ordered populated found] at removed
      obtain ⟨lt, sameID, above⟩ := foundAt_spec found
      cases removed
      exact ⟨lt, rfl, sameID, above⟩
  · rw [remove_of_unpopulated populated] at removed
    cases removed

end Remove

/-! ### Runs of calls -/

inductive FeeRateCall where
  | push (p : TxPointer)
  | remove (p : TxPointer)

def FeeRateCall.call : FeeRateCall → MempoolM Unit
  | .push p => TransactionsOrderedByFeeRate.push p
  | .remove p => TransactionsOrderedByFeeRate.remove p

def FeeRateCall.step (s : MempoolState) (c : FeeRateCall) : MempoolState :=
  finalState (c.call.run s)

theorem FeeRateCall.keeps (c : FeeRateCall) : Keeps FeeRateOrdered c.call := by
  cases c with
  | push p => exact keeps_push
  | remove p => exact keeps_remove

theorem feeRateOrdered_of_nil {s : MempoolState} (empty : s.transactionsOrderedByFeeRate = []) :
    FeeRateOrdered s := by
  constructor <;> simp [orderedTransactions, empty]

theorem feeRateOrdered_run (calls : List FeeRateCall) {s : MempoolState}
    (ordered : FeeRateOrdered s) : FeeRateOrdered (calls.foldl FeeRateCall.step s) := by
  induction calls generalizing s with
  | nil => exact ordered
  | cons c calls ih => exact ih (c.keeps s ordered)

/-- From any populated, sorted slice, which `New` gives and every run of calls keeps: the
    slice stays sorted by fee rate, then ID; `Push` of a populated transaction puts it at one
    index and keeps the others in order; `Remove` of a transaction whose fee rate and ID are in
    the slice erases one transaction of that rate and ID; and a `Remove` that returns has
    erased exactly one transaction, one of the removed transaction's ID at or above its rate. -/
theorem feeRateOrder_push_remove :
    (∀ (calls : List FeeRateCall) (s : MempoolState), FeeRateOrdered s →
        FeeRateOrdered (calls.foldl FeeRateCall.step s)) ∧
      (∀ (s : MempoolState) (p : TxPointer), FeeRateOrdered s →
        Populated (s.mempoolTransaction p).transaction →
        ∃ i ≤ s.transactionsOrderedByFeeRate.length, (push p).run s = .ok () { s with
          transactionsOrderedByFeeRate :=
            s.transactionsOrderedByFeeRate.take i ++ p :: s.transactionsOrderedByFeeRate.drop i }) ∧
      (∀ (s : MempoolState) (p : TxPointer), FeeRateOrdered s →
        Populated (s.mempoolTransaction p).transaction →
        (∃ e ∈ orderedTransactions s, feeRateKey e = feeRateKey (s.mempoolTransaction p).transaction) →
        ∃ i, ∃ lt : i < (orderedTransactions s).length,
          (remove p).run s = .ok () { s with
            transactionsOrderedByFeeRate := s.transactionsOrderedByFeeRate.eraseIdx i } ∧
          feeRateKey (orderedTransactions s)[i] = feeRateKey (s.mempoolTransaction p).transaction) ∧
      (∀ (s s' : MempoolState) (p : TxPointer) (u : Unit), FeeRateOrdered s →
        (remove p).run s = .ok u s' →
        ∃ i, ∃ lt : i < (orderedTransactions s).length,
          s' = { s with transactionsOrderedByFeeRate := s.transactionsOrderedByFeeRate.eraseIdx i } ∧
          (orderedTransactions s)[i].id = (s.mempoolTransaction p).transaction.id ∧
          FeeRateLE (s.mempoolTransaction p).transaction (orderedTransactions s)[i]) := by
  refine ⟨fun calls _ ordered => feeRateOrdered_run calls ordered, ?push, ?present, ?removed⟩
  case push =>
    intro s p ordered populated
    have within : insertionIndex s (s.mempoolTransaction p).transaction ≤
        s.transactionsOrderedByFeeRate.length :=
      length_orderedTransactions s ▸ List.findIdx_le_length
    exact ⟨_, within, push_of_ordered ordered populated⟩
  case present =>
    intro s p ordered populated present
    obtain ⟨lt, atKey, found⟩ := foundAt_of_present ordered present
    exact ⟨_, lt, remove_of_found ordered populated found, atKey⟩
  case removed =>
    intro s s' p u ordered removed
    obtain ⟨lt, rfl, sameID, above⟩ := remove_ok_spec ordered removed
    exact ⟨_, lt, rfl, sameID, above⟩

def sameIDTransactions : List MempoolTransaction :=
  [⟨⟨⟨1⟩, [], [], ⟨[]⟩, 2, 1⟩, ∅, false, 0⟩,
    ⟨⟨⟨1⟩, [], [], ⟨[]⟩, 1, 1⟩, ∅, false, 0⟩]

theorem feeRateOrder_push_remove_from_new :
    FeeRateOrdered ([FeeRateCall.push 0, .push 1, .remove 0].foldl FeeRateCall.step
      { MempoolState.empty with transactionHeap := sameIDTransactions }) :=
  feeRateOrder_push_remove.1 _ _ (feeRateOrdered_of_nil rfl)

/-- Two transactions of fee rates `2 ^ 53 + 1` and `2 ^ 53`, one `float64` apart from none. -/
def oneFloatTransactions : List MempoolTransaction :=
  [⟨⟨⟨0⟩, [], [], ⟨[]⟩, 2 ^ 53 + 1, 1⟩, ∅, false, 0⟩,
    ⟨⟨⟨1⟩, [], [], ⟨[]⟩, 2 ^ 53, 1⟩, ∅, false, 0⟩]

set_option maxRecDepth 4000 in
/-- After `Push` of the first of `sameIDTransactions`, `Remove` of the second returns and erases
    the first, though the slice holds no transaction of the second's fee rate. And `Push` of both
    `oneFloatTransactions` orders them by ID, the one of the higher exact fee rate first, as
    their `float64` rates are equal. -/
theorem remove_erases_other_and_push_ties_float_rates :
    (let s := FeeRateCall.step { MempoolState.empty with transactionHeap := sameIDTransactions }
       (.push 0)
     s.transactionsOrderedByFeeRate = [0] ∧
       feeRateEqual (s.mempoolTransaction 0).transaction (s.mempoolTransaction 1).transaction = false ∧
       (remove 1).run' s = some () ∧
       (FeeRateCall.step s (.remove 1)).transactionsOrderedByFeeRate = []) ∧
    (let s := [FeeRateCall.push 0, .push 1].foldl FeeRateCall.step
       { MempoolState.empty with transactionHeap := oneFloatTransactions }
     s.transactionsOrderedByFeeRate = [0, 1] ∧
       (s.mempoolTransaction 1).transaction.fee.toNat * (s.mempoolTransaction 0).transaction.mass.toNat <
         (s.mempoolTransaction 0).transaction.fee.toNat * (s.mempoolTransaction 1).transaction.mass.toNat) :=
  ⟨by decide, by decide⟩

end Mempool
