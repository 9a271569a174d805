import Htnd.Utxo.DiffAlgebra
import Htnd.Lib.RefHeap

/-!
The diff algebra over references. A Go map is a reference: a `*mutableUTXODiff` holds two,
`Reversed` returns a diff that shares them, and the `InPlace` functions write through them.
Here the maps live in a `RefHeap` of collections and a diff is where its two maps are.
`withDiffInPlace` writes only the two maps of `this`, and only once both checks have passed;
`diffFrom` and `withDiff` write only maps they allocate. Read back through the heap, each
computes what the value model of DiffAlgebra computes: `diffFrom` and `withDiff` whatever
their arguments share, `withDiffInPlace` where `this` shares no map.
-/
namespace Utxo
open KeyedFold RefHeap

abbrev CollectionHeap := RefHeap UTXOCollection

structure MutableUTXODiffRef where
  toAdd : Nat
  toRemove : Nat
  deriving DecidableEq, Repr

namespace MutableUTXODiffRef

def read (h : CollectionHeap) (d : MutableUTXODiffRef) : MutableUTXODiff :=
  ⟨h.read d.toAdd, h.read d.toRemove⟩

def reversed (d : MutableUTXODiffRef) : MutableUTXODiffRef := ⟨d.toRemove, d.toAdd⟩

def Holds (d : MutableUTXODiffRef) (r : Nat) : Prop := r = d.toAdd ∨ r = d.toRemove

def Allocated (h : CollectionHeap) (d : MutableUTXODiffRef) : Prop :=
  d.toAdd < h.size ∧ d.toRemove < h.size

end MutableUTXODiffRef

namespace Refs

/-- `uc.add(outpoint, entry)` on the map at `uc`. -/
def add (h : CollectionHeap) (uc : Nat) (outpoint : DomainOutpoint) (entry : UTXOEntry) :
    CollectionHeap :=
  h.write uc ((h.read uc).add outpoint entry)

def removeMultiple (h : CollectionHeap) (uc collectionToRemove : Nat) : CollectionHeap :=
  (h.read collectionToRemove).entries.foldl (fun h e => h.write uc ((h.read uc).remove e.1)) h

def sortTurn (collection2 : Nat) (present : Bool) (result : Nat) (remainder : Option Nat)
    (h : CollectionHeap) (e : Σ _ : DomainOutpoint, UTXOEntry) : CollectionHeap :=
  if (h.read collection2).containsWithDAAScore e.1 e.2.blockDAAScore == present then
    add h result e.1 e.2
  else
    match remainder with
    | some remainder => add h remainder e.1 e.2
    | none => h

def sortHavingDAAScoreInPlace (h : CollectionHeap) (collection1 collection2 : Nat)
    (present : Bool) (result : Nat) (remainder : Option Nat) : CollectionHeap :=
  (h.read collection1).entries.foldl (sortTurn collection2 present result remainder) h

def intersectionWithRemainderHavingDAAScoreInPlace (h : CollectionHeap)
    (collection1 collection2 result remainder : Nat) : CollectionHeap :=
  sortHavingDAAScoreInPlace h collection1 collection2 true result (some remainder)

def subtractionHavingDAAScoreInPlace (h : CollectionHeap)
    (collection1 collection2 result : Nat) : CollectionHeap :=
  sortHavingDAAScoreInPlace h collection1 collection2 false result none

def subtractionWithRemainderHavingDAAScoreInPlace (h : CollectionHeap)
    (collection1 collection2 result remainder : Nat) : CollectionHeap :=
  sortHavingDAAScoreInPlace h collection1 collection2 false result (some remainder)

/-- What `withDiffInPlace` does once both checks have passed: the two passes, each
    filling a new `intersection` map and then removing it from one map of `this`. -/
def withDiffInPlaceWrites (h : CollectionHeap) (this other : MutableUTXODiffRef) :
    CollectionHeap :=
  let allocated := h.alloc ∅
  let intersection := allocated.1
  let h := intersectionWithRemainderHavingDAAScoreInPlace allocated.2 other.toRemove this.toAdd
    intersection this.toRemove
  let h := removeMultiple h this.toAdd intersection
  let allocated := h.alloc ∅
  let intersection := allocated.1
  let h := intersectionWithRemainderHavingDAAScoreInPlace allocated.2 other.toAdd this.toRemove
    intersection this.toAdd
  removeMultiple h this.toRemove intersection

def withDiffInPlace (h : CollectionHeap) (this other : MutableUTXODiffRef) :
    CollectionHeap × Option DiffError :=
  match checkIntersectionWithRule (h.read other.toRemove) (h.read this.toRemove)
      (fun outpoint entryToAdd _ =>
        !(h.read this.toAdd).containsWithDAAScore outpoint entryToAdd.blockDAAScore) with
  | some offendingOutpoint => (h, some (.withRemovedTwice offendingOutpoint))
  | none =>
  match checkIntersectionWithRule (h.read other.toAdd) (h.read this.toAdd)
      (fun outpoint _ existingEntry =>
        !(h.read other.toRemove).containsWithDAAScore outpoint existingEntry.blockDAAScore) with
  | some offendingOutpoint => (h, some (.withAddedTwice offendingOutpoint))
  | none => (withDiffInPlaceWrites h this other, none)

def diffFrom (h : CollectionHeap) (this other : MutableUTXODiffRef) :
    CollectionHeap × Except DiffError MutableUTXODiffRef :=
  let isNotAddedOutputRemovedWithDAAScore :=
    fun outpoint (utxoEntry diffEntry : UTXOEntry) =>
      !(diffEntry.blockDAAScore != utxoEntry.blockDAAScore &&
        ((h.read this.toAdd).containsWithDAAScore outpoint diffEntry.blockDAAScore ||
          (h.read other.toRemove).containsWithDAAScore outpoint utxoEntry.blockDAAScore))
  match checkIntersectionWithRule (h.read this.toRemove) (h.read other.toAdd)
      isNotAddedOutputRemovedWithDAAScore with
  | some offendingOutpoint => (h, .error (.fromAddedRemoved offendingOutpoint))
  | none =>
  let isNotRemovedOutputAddedWithDAAScore :=
    fun outpoint (utxoEntry diffEntry : UTXOEntry) =>
      !(diffEntry.blockDAAScore != utxoEntry.blockDAAScore &&
        ((h.read this.toRemove).containsWithDAAScore outpoint diffEntry.blockDAAScore ||
          (h.read other.toAdd).containsWithDAAScore outpoint utxoEntry.blockDAAScore))
  match checkIntersectionWithRule (h.read this.toAdd) (h.read other.toRemove)
      isNotRemovedOutputAddedWithDAAScore with
  | some offendingOutpoint => (h, .error (.fromRemovedAdded offendingOutpoint))
  | none =>
  match checkIntersectionWithRule (h.read this.toRemove) (h.read other.toRemove)
      (fun _ utxoEntry diffEntry => utxoEntry.blockDAAScore != diffEntry.blockDAAScore) with
  | some offendingOutpoint => (h, .error (.fromRemovedTwice offendingOutpoint))
  | none =>
  let allocated := h.alloc ∅
  let resultToAdd := allocated.1
  let allocated := allocated.2.alloc ∅
  let resultToRemove := allocated.1
  let allocated := allocated.2.alloc ∅
  let inBothToAdd := allocated.1
  let h := subtractionWithRemainderHavingDAAScoreInPlace allocated.2 this.toAdd other.toAdd
    resultToRemove inBothToAdd
  if checkIntersection (h.read inBothToAdd) (h.read this.toRemove) !=
      checkIntersection (h.read inBothToAdd) (h.read other.toRemove) then
    (h, .error .fromBaseMismatch)
  else
  let h := subtractionHavingDAAScoreInPlace h other.toRemove this.toRemove resultToRemove
  let h := subtractionHavingDAAScoreInPlace h this.toRemove other.toRemove resultToAdd
  let h := subtractionHavingDAAScoreInPlace h other.toAdd this.toAdd resultToAdd
  (h, .ok ⟨resultToAdd, resultToRemove⟩)

def clone (h : CollectionHeap) (d : MutableUTXODiffRef) : MutableUTXODiffRef × CollectionHeap :=
  let allocated := h.alloc (h.read d.toAdd)
  let toAdd := allocated.1
  let h := allocated.2
  let allocated := h.alloc (h.read d.toRemove)
  (⟨toAdd, allocated.1⟩, allocated.2)

def withDiff (h : CollectionHeap) (this diff : MutableUTXODiffRef) :
    CollectionHeap × Except DiffError MutableUTXODiffRef :=
  let cloned := clone h this
  match withDiffInPlace cloned.2 cloned.1 diff with
  | (h, some err) => (h, .error err)
  | (h, none) => (h, .ok cloned.1)

/-! ### What each function writes -/

@[simp] theorem size_sort (h : CollectionHeap) (collection1 collection2 : Nat) (present : Bool)
    (result : Nat) (remainder : Option Nat) :
    (sortHavingDAAScoreInPlace h collection1 collection2 present result remainder).size =
      h.size := by
  unfold sortHavingDAAScoreInPlace
  generalize (h.read collection1).entries = l
  induction l generalizing h with
  | nil => rfl
  | cons e l ih =>
    rw [List.foldl_cons, ih]
    unfold sortTurn
    split
    · rfl
    · cases remainder <;> rfl

@[simp] theorem size_removeMultiple (h : CollectionHeap) (uc collectionToRemove : Nat) :
    (removeMultiple h uc collectionToRemove).size = h.size := by
  unfold removeMultiple
  generalize (h.read collectionToRemove).entries = l
  induction l generalizing h with
  | nil => rfl
  | cons e l ih => rw [List.foldl_cons, ih]; rfl

theorem frame_removeMultiple (h : CollectionHeap) (uc collectionToRemove : Nat) :
    Frame (· = uc) h (removeMultiple h uc collectionToRemove) :=
  frame_foldl _ (fun h _ => frame_write h uc _) _ h

theorem frame_sort (h : CollectionHeap) (collection1 collection2 : Nat) (present : Bool)
    (result : Nat) (remainder : Option Nat) :
    Frame (fun r => r = result ∨ some r = remainder) h
      (sortHavingDAAScoreInPlace h collection1 collection2 present result remainder) := by
  refine frame_foldl _ (fun h e => ?_) _ h
  unfold sortTurn
  split
  · exact (frame_write h result _).mono fun _ _ hit => .inl hit
  · cases remainder with
    | some remainder => exact (frame_write h remainder _).mono fun _ _ hit => .inr (by rw [hit])
    | none => exact Frame.refl _ h

theorem withDiffInPlace_of_error {h : CollectionHeap} {this other : MutableUTXODiffRef}
    {err : DiffError} (failed : (withDiffInPlace h this other).2 = some err) :
    (withDiffInPlace h this other).1 = h := by
  revert failed
  unfold withDiffInPlace
  split
  · intro _; rfl
  · split
    · intro _; rfl
    · intro failed; cases failed

theorem frame_withDiffInPlaceWrites (h : CollectionHeap) (this other : MutableUTXODiffRef) :
    Frame (fun r => this.Holds r ∨ h.size ≤ r) h (withDiffInPlaceWrites h this other) := by
  unfold withDiffInPlaceWrites
  refine Frame.trans ?_ ((frame_removeMultiple _ _ _).mono fun _ _ hit => .inl (.inr hit))
  refine Frame.trans ?_ ((frame_sort _ _ _ _ _ _).mono ?_)
  · refine Frame.trans ?_ ((keeps_alloc _ _).mono fun _ _ => False.elim)
    refine Frame.trans ?_ ((frame_removeMultiple _ _ _).mono fun _ _ hit => .inl (.inl hit))
    refine Frame.trans ((keeps_alloc _ _).mono fun _ _ => False.elim) ((frame_sort _ _ _ _ _ _).mono ?_)
    rintro r - (fresh | kept)
    · exact .inr (by simp [fresh])
    · exact .inl (.inr (Option.some.inj kept))
  · rintro r - (fresh | kept)
    · exact .inr (by simp [fresh, intersectionWithRemainderHavingDAAScoreInPlace])
    · exact .inl (.inl (Option.some.inj kept))

theorem frame_withDiffInPlace (h : CollectionHeap) (this other : MutableUTXODiffRef) :
    Frame this.Holds h (withDiffInPlace h this other).1 := by
  unfold withDiffInPlace
  split
  · exact Frame.refl _ h
  · split
    · exact Frame.refl _ h
    · exact (frame_withDiffInPlaceWrites h this other).mono fun r allocated hit =>
        hit.resolve_right (Nat.not_le.mpr allocated)

theorem keeps_diffFrom (h : CollectionHeap) (this other : MutableUTXODiffRef) :
    Keeps h (diffFrom h this other).1 := by
  have sorted : ∀ h' collection1 collection2 present result remainder, h.size ≤ result →
      (∀ r, remainder = some r → h.size ≤ r) → Frame (h.size ≤ ·) h'
        (sortHavingDAAScoreInPlace h' collection1 collection2 present result remainder) :=
    fun h' _ _ _ _ _ above above' => (frame_sort h' _ _ _ _ _).mono fun r _ hit =>
      hit.elim (fun same => same ▸ above) (fun same => above' r same.symm)
  have allocated : Keeps h (((h.alloc ∅).2.alloc ∅).2.alloc ∅).2 :=
    ((keeps_alloc _ _).trans (keeps_alloc _ _)).trans (keeps_alloc _ _)
  have started := (allocated.mono fun _ _ => False.elim).trans
    (sorted _ this.toAdd other.toAdd false (h.size + 1) (some (h.size + 2)) (by omega) (by simp))
  unfold diffFrom
  dsimp only
  split
  · exact Frame.refl _ h
  split
  · exact Frame.refl _ h
  split
  · exact Frame.refl _ h
  split
  · exact started.keeps fun _ hit => hit
  · refine Frame.keeps ?_ fun _ hit => hit
    refine ((started.trans (sorted _ _ _ _ _ none ?_ (by simp))).trans
      (sorted _ _ _ _ _ none ?_ (by simp))).trans (sorted _ _ _ _ _ none ?_ (by simp)) <;> simp

theorem keeps_withDiff (h : CollectionHeap) (this diff : MutableUTXODiffRef) :
    Keeps h (withDiff h this diff).1 := by
  have cloned : Keeps h (clone h this).2 := (keeps_alloc _ _).trans (keeps_alloc _ _)
  have fresh : ∀ r, (clone h this).1.Holds r → h.size ≤ r := by
    rintro r (rfl | rfl) <;> simp [clone]
  have writes := (cloned.mono fun _ _ => False.elim).trans
    ((frame_withDiffInPlace (clone h this).2 (clone h this).1 diff).mono fun r _ hit => hit)
  unfold withDiff
  dsimp only
  split
  all_goals
    rename_i heq
    rw [heq] at writes
    exact writes.keeps fresh

/-- A failed `withDiffInPlace` leaves the heap, and so the maps of `this`, as it found them;
    `diffFrom` and `withDiff` leave every map allocated before the call as it was, whether
    they succeed or fail. -/
theorem withDiffInPlace_atomic (h : CollectionHeap) (this other : MutableUTXODiffRef) :
    (∀ err, (withDiffInPlace h this other).2 = some err → (withDiffInPlace h this other).1 = h) ∧
      Keeps h (diffFrom h this other).1 ∧ Keeps h (withDiff h this other).1 :=
  ⟨fun _ failed => withDiffInPlace_of_error failed, keeps_diffFrom h this other,
    keeps_withDiff h this other⟩

/-! ### Read back through the heap -/

theorem read_removeMultiple (h : CollectionHeap) (uc collectionToRemove r : Nat) :
    (removeMultiple h uc collectionToRemove).read r =
      if r = uc then (h.read uc).removeMultiple (h.read collectionToRemove) else h.read r := by
  unfold removeMultiple UTXOCollection.removeMultiple
  generalize (h.read collectionToRemove).entries = l
  induction l generalizing h with
  | nil => split <;> simp_all
  | cons e l ih =>
    rw [List.foldl_cons, ih, List.foldl_cons]
    by_cases same : r = uc <;> simp [same]

theorem read_sortTurn {collection2 result : Nat} {present : Bool} {remainder : Option Nat}
    (distinct : ∀ r, remainder = some r → result ≠ r) (h : CollectionHeap)
    (e : Σ _ : DomainOutpoint, UTXOEntry) (r : Nat) :
    (sortTurn collection2 present result remainder h e).read r =
      if r = result then
        (if (h.read collection2).containsWithDAAScore e.1 e.2.blockDAAScore == present then
          (h.read r).insert e.1 e.2 else h.read r)
      else if some r = remainder then
        (if (h.read collection2).containsWithDAAScore e.1 e.2.blockDAAScore == present then
          h.read r else (h.read r).insert e.1 e.2)
      else h.read r := by
  unfold sortTurn
  by_cases pass : ((h.read collection2).containsWithDAAScore e.1 e.2.blockDAAScore == present) = true
  · rw [if_pos pass]
    by_cases same : r = result
    · rw [if_pos same, if_pos pass, same]
      simp [add, UTXOCollection.add]
    · rw [if_neg same]
      split_ifs <;> simp [add, same]
  · rw [if_neg pass]
    cases remainder with
    | none => split_ifs <;> simp_all
    | some rem =>
      by_cases same : r = rem
      · subst same
        rw [if_neg (distinct r rfl).symm, if_pos rfl, if_neg pass]
        simp [add, UTXOCollection.add]
      · split_ifs <;> simp_all [add]

theorem read_foldl_sortTurn {collection2 result : Nat} {present : Bool} {remainder : Option Nat}
    (tested : UTXOCollection) (resultApart : collection2 ≠ result)
    (remainderApart : ∀ r, remainder = some r → collection2 ≠ r ∧ result ≠ r)
    (l : List (Σ _ : DomainOutpoint, UTXOEntry)) (h : CollectionHeap)
    (reads : h.read collection2 = tested) (r : Nat) :
    (l.foldl (sortTurn collection2 present result remainder) h).read r =
      if r = result then
        insertWhere (fun o e => tested.containsWithDAAScore o e.blockDAAScore == present) l
          (h.read r)
      else if some r = remainder then
        insertWhere (fun o e => !(tested.containsWithDAAScore o e.blockDAAScore == present)) l
          (h.read r)
      else h.read r := by
  have distinct : ∀ r, remainder = some r → result ≠ r := fun r named => (remainderApart r named).2
  induction l generalizing h with
  | nil => split_ifs <;> rfl
  | cons e l ih =>
    -- one turn keeps the tested map, so the rest of the loop tests the same entries
    have kept : (sortTurn collection2 present result remainder h e).read collection2 = tested := by
      rw [read_sortTurn distinct, if_neg resultApart, reads]
      cases remainder with
      | none => simp
      | some rem => simp [(remainderApart rem rfl).1]
    rw [List.foldl_cons, ih _ kept, insertWhere_cons, insertWhere_cons, read_sortTurn distinct,
      reads]
    by_cases same : r = result
    · simp only [if_pos same]
    · by_cases named : some r = remainder
      · simp only [if_neg same, if_pos named, Bool.not_eq_true']
        split_ifs <;> simp_all
      · simp only [if_neg same, if_neg named]

theorem read_intersectionWithRemainder {h : CollectionHeap}
    {collection1 collection2 result remainder : Nat} (resultApart : collection2 ≠ result)
    (remainderApart : collection2 ≠ remainder) (distinct : result ≠ remainder) (r : Nat) :
    (intersectionWithRemainderHavingDAAScoreInPlace h collection1 collection2 result
        remainder).read r =
      if r = result then
        (Utxo.intersectionWithRemainderHavingDAAScoreInPlace (h.read collection1)
          (h.read collection2) (h.read result) (h.read remainder)).1
      else if r = remainder then
        (Utxo.intersectionWithRemainderHavingDAAScoreInPlace (h.read collection1)
          (h.read collection2) (h.read result) (h.read remainder)).2
      else h.read r := by
  unfold intersectionWithRemainderHavingDAAScoreInPlace sortHavingDAAScoreInPlace
  rw [read_foldl_sortTurn (h.read collection2) resultApart
    (fun _ named => Option.some.inj named ▸ ⟨remainderApart, distinct⟩) _ h rfl,
    intersectionWithRemainder_eq]
  split_ifs with same same' <;> simp_all

theorem read_subtractionWithRemainder {h : CollectionHeap}
    {collection1 collection2 result remainder : Nat} (resultApart : collection2 ≠ result)
    (remainderApart : collection2 ≠ remainder) (distinct : result ≠ remainder) (r : Nat) :
    (subtractionWithRemainderHavingDAAScoreInPlace h collection1 collection2 result
        remainder).read r =
      if r = result then
        (Utxo.subtractionWithRemainderHavingDAAScoreInPlace (h.read collection1)
          (h.read collection2) (h.read result) (h.read remainder)).1
      else if r = remainder then
        (Utxo.subtractionWithRemainderHavingDAAScoreInPlace (h.read collection1)
          (h.read collection2) (h.read result) (h.read remainder)).2
      else h.read r := by
  unfold subtractionWithRemainderHavingDAAScoreInPlace sortHavingDAAScoreInPlace
  rw [read_foldl_sortTurn (h.read collection2) resultApart
    (fun _ named => Option.some.inj named ▸ ⟨remainderApart, distinct⟩) _ h rfl,
    subtractionWithRemainder_eq]
  split_ifs with same same' <;> simp_all

theorem read_subtraction {h : CollectionHeap} {collection1 collection2 result : Nat}
    (resultApart : collection2 ≠ result) (r : Nat) :
    (subtractionHavingDAAScoreInPlace h collection1 collection2 result).read r =
      if r = result then
        Utxo.subtractionHavingDAAScoreInPlace (h.read collection1) (h.read collection2)
          (h.read result)
      else h.read r := by
  unfold subtractionHavingDAAScoreInPlace sortHavingDAAScoreInPlace
  rw [read_foldl_sortTurn (h.read collection2) resultApart (fun _ named => by cases named) _ h rfl,
    subtraction_eq]
  split_ifs with same <;> simp_all

theorem withDiffInPlace_error_eq (h : CollectionHeap) (this other : MutableUTXODiffRef) :
    (withDiffInPlace h this other).2 = (Utxo.withDiffInPlace (this.read h) (other.read h)).2 := by
  unfold withDiffInPlace
  split
  · rename_i removedTwice
    simp only [Utxo.withDiffInPlace, MutableUTXODiffRef.read, removedTwice]
  · rename_i first
    split
    · rename_i addedTwice
      simp only [Utxo.withDiffInPlace, MutableUTXODiffRef.read, first, addedTwice]
    · rename_i second
      simp only [Utxo.withDiffInPlace, MutableUTXODiffRef.read, first, second]

@[simp] theorem size_intersectionWithRemainder (h : CollectionHeap)
    (collection1 collection2 result remainder : Nat) :
    (intersectionWithRemainderHavingDAAScoreInPlace h collection1 collection2 result
      remainder).size = h.size :=
  size_sort ..

theorem read_withDiffInPlace {h : CollectionHeap} {this other : MutableUTXODiffRef}
    (apart : this.toAdd ≠ this.toRemove) (unshared : ¬ this.Holds other.toAdd)
    (allocated : this.Allocated h) (otherAllocated : other.Allocated h) :
    this.read (withDiffInPlace h this other).1 =
      (Utxo.withDiffInPlace (this.read h) (other.read h)).1 := by
  obtain ⟨addBelow, removeBelow⟩ := allocated
  obtain ⟨otherAddBelow, otherRemoveBelow⟩ := otherAllocated
  have addApart : other.toAdd ≠ this.toAdd ∧ other.toAdd ≠ this.toRemove := by
    simp only [MutableUTXODiffRef.Holds] at unshared; omega
  unfold withDiffInPlace
  split
  · rename_i removedTwice
    simp only [Utxo.withDiffInPlace, MutableUTXODiffRef.read, removedTwice]
  · rename_i first
    split
    · rename_i addedTwice
      simp only [Utxo.withDiffInPlace, MutableUTXODiffRef.read, first, addedTwice]
    · rename_i second
      -- the two passes write the maps of `this` and two new maps, and read no map they write
      have fresh : this.toAdd ≠ h.size ∧ this.toRemove ≠ h.size ∧ this.toAdd ≠ h.size + 1 ∧
          this.toRemove ≠ h.size + 1 ∧ other.toAdd ≠ h.size ∧ other.toRemove ≠ h.size ∧
          other.toAdd ≠ h.size + 1 ∧ other.toRemove ≠ h.size + 1 ∧ h.size ≠ h.size + 1 := by
        omega
      simp only [Utxo.withDiffInPlace, MutableUTXODiffRef.read, first, second,
        withDiffInPlaceWrites, read_removeMultiple, size_removeMultiple,
        size_intersectionWithRemainder, alloc_fst, size_alloc, read_alloc,
        read_intersectionWithRemainder, intersectionWithRemainder_eq, apart, Ne.symm apart,
        fresh, Ne.symm fresh.2.1, Ne.symm fresh.2.2.1, Ne.symm fresh.2.2.2.1, addApart,
        if_false, if_true, ne_eq, not_false_eq_true]

@[simp] theorem size_subtraction (h : CollectionHeap) (collection1 collection2 result : Nat) :
    (subtractionHavingDAAScoreInPlace h collection1 collection2 result).size = h.size :=
  size_sort ..

@[simp] theorem size_subtractionWithRemainder (h : CollectionHeap)
    (collection1 collection2 result remainder : Nat) :
    (subtractionWithRemainderHavingDAAScoreInPlace h collection1 collection2 result
      remainder).size = h.size :=
  size_sort ..

theorem diffFrom_refines {h : CollectionHeap} {this other : MutableUTXODiffRef}
    (allocated : this.Allocated h) (otherAllocated : other.Allocated h) :
    (diffFrom h this other).2.map (MutableUTXODiffRef.read (diffFrom h this other).1) =
      Utxo.diffFrom (this.read h) (other.read h) := by
  obtain ⟨addBelow, removeBelow⟩ := allocated
  obtain ⟨otherAddBelow, otherRemoveBelow⟩ := otherAllocated
  have fresh : this.toAdd ≠ h.size ∧ this.toRemove ≠ h.size ∧ other.toAdd ≠ h.size ∧
      other.toRemove ≠ h.size ∧ this.toAdd ≠ h.size + 1 ∧ this.toRemove ≠ h.size + 1 ∧
      other.toAdd ≠ h.size + 1 ∧ other.toRemove ≠ h.size + 1 ∧ this.toAdd ≠ h.size + 1 + 1 ∧
      this.toRemove ≠ h.size + 1 + 1 ∧ other.toAdd ≠ h.size + 1 + 1 ∧
      other.toRemove ≠ h.size + 1 + 1 := by
    omega
  have apart : h.size ≠ h.size + 1 ∧ h.size ≠ h.size + 1 + 1 ∧ h.size + 1 ≠ h.size + 1 + 1 := by
    omega
  unfold diffFrom
  dsimp only
  split
  · rename_i first; simp only [Utxo.diffFrom, MutableUTXODiffRef.read, first]; rfl
  rename_i first
  split
  · rename_i second; simp only [Utxo.diffFrom, MutableUTXODiffRef.read, first, second]; rfl
  rename_i second
  split
  · rename_i third
    simp only [Utxo.diffFrom, MutableUTXODiffRef.read, first, second, third]; rfl
  rename_i third
  simp only [Utxo.diffFrom, MutableUTXODiffRef.read, first, second, third, size_alloc, alloc_fst, read_subtractionWithRemainder, read_alloc, fresh,
    apart, Ne.symm apart.1, Ne.symm apart.2.1, Ne.symm apart.2.2, if_false, if_true, ne_eq,
    not_false_eq_true]
  split
  · rename_i base; simp only [base, if_true]; rfl
  · rename_i base
    simp only [base, Except.map, MutableUTXODiffRef.read, read_subtraction,
      read_subtractionWithRemainder, read_alloc, size_alloc, fresh, apart, Ne.symm apart.1,
      Ne.symm apart.2.1, Ne.symm apart.2.2, if_false, if_true, ne_eq, not_false_eq_true,
      Bool.false_eq_true]

theorem withDiff_refines {h : CollectionHeap} {this diff : MutableUTXODiffRef}
    (allocated : this.Allocated h) (diffAllocated : diff.Allocated h) :
    (withDiff h this diff).2.map (MutableUTXODiffRef.read (withDiff h this diff).1) =
      Utxo.withDiff (this.read h) (diff.read h) := by
  obtain ⟨-, removeBelow⟩ := allocated
  obtain ⟨diffAddBelow, diffRemoveBelow⟩ := diffAllocated
  have clonedRead : (clone h this).1.read (clone h this).2 = this.read h := by
    simp [clone, MutableUTXODiffRef.read, Nat.ne_of_lt removeBelow]
  have diffRead : diff.read (clone h this).2 = diff.read h := by
    simp [clone, MutableUTXODiffRef.read, Nat.ne_of_lt diffAddBelow,
      Nat.ne_of_lt diffRemoveBelow, Nat.ne_of_lt (Nat.lt_succ_of_lt diffAddBelow),
      Nat.ne_of_lt (Nat.lt_succ_of_lt diffRemoveBelow)]
  have fresh : (clone h this).1.toAdd ≠ (clone h this).1.toRemove ∧
      ¬ (clone h this).1.Holds diff.toAdd := by
    simp only [clone, MutableUTXODiffRef.Holds, alloc_fst, size_alloc]
    omega
  have clonedAllocated : (clone h this).1.Allocated (clone h this).2 := by
    simp only [clone, MutableUTXODiffRef.Allocated, alloc_fst, size_alloc]
    omega
  have diffStill : diff.Allocated (clone h this).2 := by
    simp only [clone, MutableUTXODiffRef.Allocated, size_alloc]
    omega
  have errors := withDiffInPlace_error_eq (clone h this).2 (clone h this).1 diff
  have reads := read_withDiffInPlace fresh.1 fresh.2 clonedAllocated diffStill
  rw [clonedRead, diffRead] at errors reads
  unfold withDiff Utxo.withDiff
  dsimp only
  cases ran : withDiffInPlace (clone h this).2 (clone h this).1 diff with
  | mk h' err =>
    rw [ran] at errors reads
    cases value : Utxo.withDiffInPlace (this.read h) (diff.read h) with
    | mk v verr =>
      rw [value] at errors reads
      subst errors
      cases err <;> simp_all [Except.map]

/-- **The reference model refines the value model.** Over any heap in which both diffs' maps are
    allocated, `diffFrom` and `withDiff`, read back through the heap, return what they return on
    the maps' values, whichever maps the two diffs share. -/
theorem diffFrom_withDiff_read_as_values {h : CollectionHeap} {this other : MutableUTXODiffRef}
    (allocated : this.Allocated h) (otherAllocated : other.Allocated h) :
    (diffFrom h this other).2.map (MutableUTXODiffRef.read (diffFrom h this other).1) =
        Utxo.diffFrom (this.read h) (other.read h) ∧
      (withDiff h this other).2.map (MutableUTXODiffRef.read (withDiff h this other).1) =
        Utxo.withDiff (this.read h) (other.read h) :=
  ⟨diffFrom_refines allocated otherAllocated, withDiff_refines allocated otherAllocated⟩

/-- A diff and its `Reversed`, which shares both its maps, over a heap of two empty maps. -/
theorem diffFrom_withDiff_read_as_values_reversed :
    let h : CollectionHeap := ⟨2, fun _ => ∅⟩
    let this : MutableUTXODiffRef := ⟨0, 1⟩
    (diffFrom h this this.reversed).2.map (MutableUTXODiffRef.read (diffFrom h this this.reversed).1) =
        Utxo.diffFrom (this.read h) (this.reversed.read h) ∧
      (withDiff h this this.reversed).2.map
          (MutableUTXODiffRef.read (withDiff h this this.reversed).1) =
        Utxo.withDiff (this.read h) (this.reversed.read h) := by
  intro h this
  have allocated : this.Allocated h := (⟨by decide, by decide⟩ : 0 < 2 ∧ 1 < 2)
  have reversedAllocated : this.reversed.Allocated h := (⟨by decide, by decide⟩ : 1 < 2 ∧ 0 < 2)
  exact diffFrom_withDiff_read_as_values allocated reversedAllocated

end Refs

end Utxo
