import Htnd.Utxo.DiffSemantics

/-!
The iterator that reads a UTXO set through a diff (utxo_iterator_with_diff.go). It walks its
base iterator, skipping every entry that the diff removes with its DAA score, and then walks
the entries that the diff adds. A cursor is the list of entries it walks; an iterator holds
the entries still ahead of its position.
-/
namespace Utxo
open KeyedFold UTXOCollection

abbrev OutpointAndUTXOEntryPair := Σ _ : DomainOutpoint, UTXOEntry

structure ReadOnlyUTXOIteratorWithDiff where
  baseEntries : List OutpointAndUTXOEntryPair
  diff : MutableUTXODiff
  baseIterator : List OutpointAndUTXOEntryPair
  toAddIterator : List OutpointAndUTXOEntryPair
  current : Option OutpointAndUTXOEntryPair

inductive ReadOnlyUTXOSetIterator where
  | cursor (entries : List OutpointAndUTXOEntryPair)
  | withDiff (iterator : ReadOnlyUTXOIteratorWithDiff)

namespace ReadOnlyUTXOIteratorWithDiff

def start (entries : List OutpointAndUTXOEntryPair) (diff : MutableUTXODiff) :
    ReadOnlyUTXOIteratorWithDiff :=
  ⟨entries, diff, entries, diff.toAdd.entries, none⟩

def skipRemoved (toRemove : UTXOCollection) :
    List OutpointAndUTXOEntryPair → Option (OutpointAndUTXOEntryPair × List OutpointAndUTXOEntryPair)
  | [] => none
  | e :: rest =>
    if !toRemove.containsWithDAAScore e.1 e.2.blockDAAScore then some (e, rest)
    else skipRemoved toRemove rest

def next (r : ReadOnlyUTXOIteratorWithDiff) : Bool × ReadOnlyUTXOIteratorWithDiff :=
  match skipRemoved r.diff.toRemove r.baseIterator with
  | some (e, rest) => (true, { r with baseIterator := rest, current := some e })
  | none =>
    match r.toAddIterator with
    | e :: rest => (true, { r with baseIterator := [], toAddIterator := rest, current := some e })
    | [] => (false, { r with baseIterator := [] })

def first (r : ReadOnlyUTXOIteratorWithDiff) : Bool × ReadOnlyUTXOIteratorWithDiff :=
  let r := { r with toAddIterator := r.diff.toAdd.entries }
  match r.baseEntries with
  | [] =>
    if r.diff.toAdd.entries.length = 0 then (false, { r with baseIterator := [] })
    else next { r with baseIterator := [] }
  | e :: rest =>
    let r := { r with baseIterator := rest, current := some e }
    if r.diff.toRemove.containsWithDAAScore e.1 e.2.blockDAAScore then next r else (true, r)

def drain : Nat → Bool × ReadOnlyUTXOIteratorWithDiff → List OutpointAndUTXOEntryPair
  | 0, _ => []
  | _ + 1, (false, _) => []
  | fuel + 1, (true, r) => r.current.toList ++ drain fuel r.next

end ReadOnlyUTXOIteratorWithDiff

def iteratorWithDiff : ReadOnlyUTXOSetIterator → MutableUTXODiff →
    Except DiffError ReadOnlyUTXOIteratorWithDiff
  | .withDiff iterator, diff =>
    match withDiff iterator.diff diff with
    | .error err => .error err
    | .ok combinedDiff => .ok (.start iterator.baseEntries combinedDiff)
  | .cursor entries, diff => .ok (.start entries diff)

def ReadOnlyUTXOSetIterator.drain (fuel : Nat) :
    ReadOnlyUTXOSetIterator → List OutpointAndUTXOEntryPair
  | .cursor entries => entries.take fuel
  | .withDiff iterator => ReadOnlyUTXOIteratorWithDiff.drain fuel iterator.first

namespace ReadOnlyUTXOIteratorWithDiff

def kept (toRemove : UTXOCollection) (e : OutpointAndUTXOEntryPair) : Bool :=
  !toRemove.containsWithDAAScore e.1 e.2.blockDAAScore

theorem kept_eq (toRemove : UTXOCollection) :
    kept toRemove = fun e => !hasDAAScore (toRemove.lookup e.1) e.2.blockDAAScore :=
  rfl

theorem skipRemoved_cons (toRemove : UTXOCollection) (e : OutpointAndUTXOEntryPair)
    (rest : List OutpointAndUTXOEntryPair) :
    skipRemoved toRemove (e :: rest) =
      if kept toRemove e then some (e, rest) else skipRemoved toRemove rest :=
  rfl

theorem skipRemoved_eq_none {toRemove : UTXOCollection} {l : List OutpointAndUTXOEntryPair}
    (h : skipRemoved toRemove l = none) : l.filter (kept toRemove) = [] := by
  induction l with
  | nil => rfl
  | cons e rest ih =>
    rw [skipRemoved_cons] at h
    by_cases keep : kept toRemove e
    · simp [keep] at h
    · rw [if_neg keep] at h
      simp [keep, ih h]

theorem skipRemoved_eq_some {toRemove : UTXOCollection} {l rest : List OutpointAndUTXOEntryPair}
    {e : OutpointAndUTXOEntryPair} (h : skipRemoved toRemove l = some (e, rest)) :
    l.filter (kept toRemove) = e :: rest.filter (kept toRemove) ∧ rest.length < l.length := by
  induction l with
  | nil => simp [skipRemoved] at h
  | cons x xs ih =>
    rw [skipRemoved_cons] at h
    by_cases keep : kept toRemove x
    · rw [if_pos keep] at h
      obtain ⟨rfl, rfl⟩ := Prod.mk.inj (Option.some.inj h)
      simp [keep]
    · rw [if_neg keep] at h
      obtain ⟨filtered, shorter⟩ := ih h
      simp only [List.filter_cons, keep, Bool.false_eq_true, if_false, List.length_cons]
      exact ⟨filtered, by omega⟩

theorem drain_next (r : ReadOnlyUTXOIteratorWithDiff) (fuel : Nat)
    (enough : r.baseIterator.length + r.toAddIterator.length < fuel) :
    drain fuel r.next =
      r.baseIterator.filter (kept r.diff.toRemove) ++ r.toAddIterator := by
  induction fuel generalizing r with
  | zero => omega
  | succ fuel ih =>
    unfold next
    cases skipped : skipRemoved r.diff.toRemove r.baseIterator with
    | some found =>
      obtain ⟨e, rest⟩ := found
      obtain ⟨filtered, shorter⟩ := skipRemoved_eq_some skipped
      have tail := ih { r with baseIterator := rest, current := some e } (by simp; omega)
      simp only [drain, Option.toList_some, tail, filtered, List.cons_append, List.nil_append]
    | none =>
      have filtered := skipRemoved_eq_none skipped
      cases adding : r.toAddIterator with
      | nil => simp [drain, filtered]
      | cons e rest =>
        have tail := ih { r with baseIterator := [], toAddIterator := rest, current := some e }
          (by simp [adding] at enough ⊢; omega)
        simp only [drain, Option.toList_some, tail, filtered, List.filter_nil, List.nil_append,
          List.cons_append]

theorem drain_first (r : ReadOnlyUTXOIteratorWithDiff) (fuel : Nat)
    (enough : r.baseEntries.length + r.diff.toAdd.entries.length < fuel) :
    drain fuel r.first =
      r.baseEntries.filter (kept r.diff.toRemove) ++ r.diff.toAdd.entries := by
  unfold first
  cases base : r.baseEntries with
  | nil =>
    by_cases empty : r.diff.toAdd.entries.length = 0
    · have none : r.diff.toAdd.entries = [] := List.eq_nil_of_length_eq_zero empty
      cases fuel <;> simp [drain, none]
    · simp only [empty, if_false, List.filter_nil, List.nil_append]
      rw [drain_next _ fuel (by simp [base] at enough ⊢; omega)]
      simp
  | cons e rest =>
    by_cases removed : r.diff.toRemove.containsWithDAAScore e.1 e.2.blockDAAScore
    · have skip : kept r.diff.toRemove e = false := by rw [kept, removed]; rfl
      simp only [removed, if_true]
      rw [drain_next _ fuel (by simp [base] at enough ⊢; omega)]
      simp [skip]
    · have keep : kept r.diff.toRemove e = true := by
        rw [kept, Bool.eq_false_iff.mpr removed]; rfl
      obtain ⟨fuel, rfl⟩ : ∃ n, fuel = n + 1 := Nat.exists_eq_add_one.mpr (by omega)
      simp only [removed, Bool.false_eq_true, if_false, drain, Option.toList_some,
        List.filter_cons, keep, if_true, List.cons_append]
      rw [drain_next _ fuel (by simp [base] at enough ⊢; omega)]
      rfl

theorem filter_kept_of_applyAt {entry add remove mid : Option UTXOEntry}
    (applied : applyAt entry add remove = some mid) :
    entry.filter (fun x => !hasDAAScore remove x.blockDAAScore) =
      if remove.isSome then none else entry := by
  obtain ⟨found, -, -⟩ := applyAt_eq_some_iff.1 applied
  cases remove with
  | none => cases entry <;> simp [Option.filter_some]
  | some e =>
    obtain ⟨y, rfl⟩ : ∃ y, entry = some y := Option.isSome_iff_exists.mp (by
      cases entry <;> simp_all)
    have scores : y.blockDAAScore = e.blockDAAScore := by simpa using found e rfl
    simp [Option.filter_some, scores]

theorem drain_first_applyDiff {entries : UTXOCollection} {diff : MutableUTXODiff}
    {result : UTXOSet} (applied : applyDiff entries.toFinmap diff = some result) (fuel : Nat)
    (enough : entries.entries.length + diff.toAdd.entries.length < fuel) :
    ∃ nd : (drain fuel (start entries.entries diff).first).NodupKeys,
      (⟨_, nd⟩ : UTXOCollection).toFinmap = result := by
  have appliedAt := applyDiff_eq_some_iff.1 applied
  have keptAt : ∀ o, ((entries.entries.filter (kept diff.toRemove)).dlookup o) =
      if (diff.toRemove.lookup o).isSome then none else entries.lookup o := by
    intro o
    have filtered := dlookup_filter (fun o x => !hasDAAScore (diff.toRemove.lookup o)
      x.blockDAAScore) entries.nodupKeys o
    simp only [Finmap.lookup_toFinmap] at appliedAt
    rw [← filter_kept_of_applyAt (appliedAt o), kept_eq]
    exact filtered
  have read : drain fuel (start entries.entries diff).first =
      entries.entries.filter (kept diff.toRemove) ++ diff.toAdd.entries :=
    drain_first _ fuel enough
  rw [read]
  have disjoint : ∀ o ∈ (entries.entries.filter (kept diff.toRemove)).keys,
      o ∉ diff.toAdd.entries.keys := by
    intro o kept added
    obtain ⟨-, vacant, -⟩ := applyAt_eq_some_iff.1 (appliedAt o)
    obtain ⟨f, found⟩ := Option.isSome_iff_exists.mp (List.dlookup_isSome.mpr added)
    rw [← List.dlookup_isSome, keptAt] at kept
    rcases vacant f found with removed | empty
    · simp [removed] at kept
    · simp [Finmap.lookup_toFinmap] at empty
      simp [empty] at kept
  refine ⟨nodupKeys_append (entries.nodupKeys.sublist List.filter_sublist) diff.toAdd.nodupKeys
    disjoint, Finmap.ext_lookup fun o => ?_⟩
  obtain ⟨-, -, composed⟩ := applyAt_eq_some_iff.1 (appliedAt o)
  rw [← composed, Finmap.lookup_toFinmap]
  change List.dlookup o (_ ++ diff.toAdd.entries) = _
  rw [List.dlookup_append, keptAt, Finmap.lookup_toFinmap]
  cases added : diff.toAdd.lookup o with
  | none =>
    have addedList : diff.toAdd.entries.dlookup o = none := added
    rw [addedList, Option.or_none, Option.none_or]
  | some f =>
    have inAdd : o ∈ diff.toAdd.entries.keys :=
      List.dlookup_isSome.mp (show (diff.toAdd.lookup o).isSome by simp [added])
    have absent : (if (diff.toRemove.lookup o).isSome then none else entries.lookup o) = none := by
      rw [← keptAt, List.dlookup_eq_none]
      exact fun kept => disjoint o kept inAdd
    have addedList : diff.toAdd.entries.dlookup o = some f := added
    rw [addedList, absent, Option.none_or, Option.some_or]

theorem drain_first_mem_iff {entries : UTXOCollection} {diff : MutableUTXODiff}
    {result : UTXOSet} (applied : applyDiff entries.toFinmap diff = some result) (fuel : Nat)
    (enough : entries.entries.length + diff.toAdd.entries.length < fuel) :
    (drain fuel (start entries.entries diff).first).NodupKeys ∧
      ∀ o e, ⟨o, e⟩ ∈ drain fuel (start entries.entries diff).first ↔ result.lookup o = some e := by
  obtain ⟨nd, read⟩ := drain_first_applyDiff applied fuel enough
  refine ⟨nd, fun o e => ?_⟩
  rw [← read, Finmap.lookup_toFinmap]
  exact (List.mem_dlookup_iff nd).symm

end ReadOnlyUTXOIteratorWithDiff

theorem iteratorWithDiff_nested (entries : List OutpointAndUTXOEntryPair)
    (d1 d2 : MutableUTXODiff) :
    (iteratorWithDiff (.cursor entries) d1 >>= fun it => iteratorWithDiff (.withDiff it) d2) =
      (withDiff d1 d2 >>= fun combinedDiff => iteratorWithDiff (.cursor entries) combinedDiff) := by
  cases combined : withDiff d1 d2 <;>
    simp [iteratorWithDiff, ReadOnlyUTXOIteratorWithDiff.start, combined, bind, Except.bind]

/-- **The iterator through a diff enumerates the diffed set.** Over a cursor on the pairs of a
    collection, through a diff that applies to it, a loop `First`, `Next`, ... until false reads
    pairs at distinct outpoints, exactly the pairs of the set the diff makes; and the iterator
    through a second diff over the first is the iterator through their composition. -/
theorem iteratorWithDiff_enumerates (entries : UTXOCollection) :
    (∀ (diff : MutableUTXODiff) (result : UTXOSet), applyDiff entries.toFinmap diff = some result →
      ∀ fuel, entries.entries.length + diff.toAdd.entries.length < fuel →
        ∃ it, iteratorWithDiff (.cursor entries.entries) diff = .ok it ∧
          (ReadOnlyUTXOSetIterator.drain fuel (.withDiff it)).NodupKeys ∧
          ∀ o e, ⟨o, e⟩ ∈ ReadOnlyUTXOSetIterator.drain fuel (.withDiff it) ↔
            result.lookup o = some e) ∧
    ∀ d1 d2 : MutableUTXODiff,
      (iteratorWithDiff (.cursor entries.entries) d1 >>= fun it =>
        iteratorWithDiff (.withDiff it) d2) =
      (withDiff d1 d2 >>= fun combinedDiff =>
        iteratorWithDiff (.cursor entries.entries) combinedDiff) :=
  ⟨fun _ _ applied fuel enough =>
    ⟨_, rfl, ReadOnlyUTXOIteratorWithDiff.drain_first_mem_iff applied fuel enough⟩,
    iteratorWithDiff_nested entries.entries⟩

theorem iteratorWithDiff_enumerates_spend :
    let o : DomainOutpoint := ⟨⟨0, by decide⟩, 0⟩
    let o' : DomainOutpoint := ⟨⟨0, by decide⟩, 1⟩
    let e : UTXOEntry := ⟨10, ⟨[], 0⟩, 0, false⟩
    let diff : MutableUTXODiff := ⟨AList.singleton o' e, AList.singleton o e⟩
    ∃ it, iteratorWithDiff (.cursor (AList.singleton o e : UTXOCollection).entries) diff = .ok it ∧
      (ReadOnlyUTXOSetIterator.drain 3 (.withDiff it)).NodupKeys ∧
      ∀ (x : DomainOutpoint) (y : UTXOEntry),
        ⟨x, y⟩ ∈ ReadOnlyUTXOSetIterator.drain 3 (.withDiff it) ↔
          (AList.singleton o' e : UTXOCollection).toFinmap.lookup x = some y :=
  (iteratorWithDiff_enumerates (AList.singleton _ _)).1 _ _ (by decide) 3 (by decide)

end Utxo
