import Htnd.Utxo.Collection

/- The UTXO-diff algebra of diff_algebra.go. A diff is a pair of collections, and every
   rule matches entries by outpoint and DAA score, never by their other fields. Each loop
   touches one outpoint at a time, so each function is read back at one outpoint: the
   `…At` functions below are those readings, and the `…_at` lemmas connect them to the code. -/
namespace Utxo
open KeyedFold UTXOCollection

structure MutableUTXODiff where
  toAdd : UTXOCollection
  toRemove : UTXOCollection
  deriving DecidableEq

/-- `Reversed` (mutable_utxo_diff.go): the diff that undoes this one. -/
def MutableUTXODiff.reversed (mud : MutableUTXODiff) : MutableUTXODiff :=
  ⟨mud.toRemove, mud.toAdd⟩

inductive DiffError where
  | fromAddedRemoved (outpoint : DomainOutpoint)
  | fromRemovedAdded (outpoint : DomainOutpoint)
  | fromRemovedTwice (outpoint : DomainOutpoint)
  | fromBaseMismatch
  | withRemovedTwice (outpoint : DomainOutpoint)
  | withAddedTwice (outpoint : DomainOutpoint)
  deriving DecidableEq, Repr

def DiffError.message (outpointText : DomainOutpoint → String) : DiffError → String
  | .fromAddedRemoved o =>
    "diffFrom: outpoint " ++ outpointText o ++ " both in this.toAdd and in other.toRemove"
  | .fromRemovedAdded o =>
    "diffFrom: outpoint " ++ outpointText o ++ " both in this.toRemove and in other.toAdd"
  | .fromRemovedTwice o =>
    "diffFrom: outpoint " ++ outpointText o ++ " both in this.toRemove and other.toRemove " ++
      "with different DAA scores, with no corresponding entry in this.toAdd"
  | .fromBaseMismatch =>
    "diffFrom: outpoint both in this.toAdd, other.toAdd, and only one of this.toRemove " ++
      "and other.toRemove"
  | .withRemovedTwice o =>
    "withDiffInPlace: outpoint " ++ outpointText o ++ " both in this.toRemove and in other.toRemove"
  | .withAddedTwice o =>
    "withDiffInPlace: outpoint " ++ outpointText o ++ " both in this.toAdd and in other.toAdd"

def checkIntersection (collection1 collection2 : UTXOCollection) : Bool :=
  collection1.entries.any fun e => collection2.contains e.1

def checkIntersectionWithRule (collection1 collection2 : UTXOCollection)
    (extraRule : DomainOutpoint → UTXOEntry → UTXOEntry → Bool) : Option DomainOutpoint :=
  collection1.entries.findSome? fun e =>
    match collection2.get e.1 with
    | some diffEntry => if extraRule e.1 e.2 diffEntry then some e.1 else none
    | none => none

/-- The Go function fills `result` and `remainder` in place; here both come back. -/
def intersectionWithRemainderHavingDAAScoreInPlace
    (collection1 collection2 result remainder : UTXOCollection) :
    UTXOCollection × UTXOCollection :=
  collection1.entries.foldl (fun acc e =>
    if collection2.containsWithDAAScore e.1 e.2.blockDAAScore then (acc.1.add e.1 e.2, acc.2)
    else (acc.1, acc.2.add e.1 e.2)) (result, remainder)

def subtractionHavingDAAScoreInPlace (collection1 collection2 result : UTXOCollection) :
    UTXOCollection :=
  collection1.entries.foldl (fun result e =>
    if !collection2.containsWithDAAScore e.1 e.2.blockDAAScore then result.add e.1 e.2
    else result) result

def subtractionWithRemainderHavingDAAScoreInPlace
    (collection1 collection2 result remainder : UTXOCollection) :
    UTXOCollection × UTXOCollection :=
  collection1.entries.foldl (fun acc e =>
    if !collection2.containsWithDAAScore e.1 e.2.blockDAAScore then (acc.1.add e.1 e.2, acc.2)
    else (acc.1, acc.2.add e.1 e.2)) (result, remainder)

def diffFrom (this other : MutableUTXODiff) : Except DiffError MutableUTXODiff :=
  let isNotAddedOutputRemovedWithDAAScore :=
    fun outpoint (utxoEntry diffEntry : UTXOEntry) =>
      !(diffEntry.blockDAAScore != utxoEntry.blockDAAScore &&
        (this.toAdd.containsWithDAAScore outpoint diffEntry.blockDAAScore ||
          other.toRemove.containsWithDAAScore outpoint utxoEntry.blockDAAScore))
  match checkIntersectionWithRule this.toRemove other.toAdd
      isNotAddedOutputRemovedWithDAAScore with
  | some offendingOutpoint => .error (.fromAddedRemoved offendingOutpoint)
  | none =>
  let isNotRemovedOutputAddedWithDAAScore :=
    fun outpoint (utxoEntry diffEntry : UTXOEntry) =>
      !(diffEntry.blockDAAScore != utxoEntry.blockDAAScore &&
        (this.toRemove.containsWithDAAScore outpoint diffEntry.blockDAAScore ||
          other.toAdd.containsWithDAAScore outpoint utxoEntry.blockDAAScore))
  match checkIntersectionWithRule this.toAdd other.toRemove
      isNotRemovedOutputAddedWithDAAScore with
  | some offendingOutpoint => .error (.fromRemovedAdded offendingOutpoint)
  | none =>
  match checkIntersectionWithRule this.toRemove other.toRemove
      (fun _ utxoEntry diffEntry => utxoEntry.blockDAAScore != diffEntry.blockDAAScore) with
  | some offendingOutpoint => .error (.fromRemovedTwice offendingOutpoint)
  | none =>
  let (resultToRemove, inBothToAdd) :=
    subtractionWithRemainderHavingDAAScoreInPlace this.toAdd other.toAdd ∅ ∅
  if checkIntersection inBothToAdd this.toRemove != checkIntersection inBothToAdd other.toRemove then
    .error .fromBaseMismatch
  else
  let resultToRemove := subtractionHavingDAAScoreInPlace other.toRemove this.toRemove resultToRemove
  let resultToAdd := subtractionHavingDAAScoreInPlace this.toRemove other.toRemove ∅
  let resultToAdd := subtractionHavingDAAScoreInPlace other.toAdd this.toAdd resultToAdd
  .ok { toAdd := resultToAdd, toRemove := resultToRemove }

def withDiffInPlace (this other : MutableUTXODiff) : MutableUTXODiff × Option DiffError :=
  match checkIntersectionWithRule other.toRemove this.toRemove
      (fun outpoint entryToAdd _ =>
        !this.toAdd.containsWithDAAScore outpoint entryToAdd.blockDAAScore) with
  | some offendingOutpoint => (this, some (.withRemovedTwice offendingOutpoint))
  | none =>
  match checkIntersectionWithRule other.toAdd this.toAdd
      (fun outpoint _ existingEntry =>
        !other.toRemove.containsWithDAAScore outpoint existingEntry.blockDAAScore) with
  | some offendingOutpoint => (this, some (.withAddedTwice offendingOutpoint))
  | none =>
    -- Not in `this.toAdd` with that DAA score: remember the removal.
    let (intersection, toRemove) :=
      intersectionWithRemainderHavingDAAScoreInPlace other.toRemove this.toAdd ∅ this.toRemove
    -- In `this.toAdd` with that DAA score: the removal cancels the addition.
    let toAdd := this.toAdd.removeMultiple intersection
    -- The second pass reads `toRemove` as the first pass left it.
    let (intersection, toAdd) :=
      intersectionWithRemainderHavingDAAScoreInPlace other.toAdd toRemove ∅ toAdd
    let toRemove := toRemove.removeMultiple intersection
    ({ toAdd := toAdd, toRemove := toRemove }, none)

def withDiff (this diff : MutableUTXODiff) : Except DiffError MutableUTXODiff :=
  let clone := this
  match withDiffInPlace clone diff with
  | (_, some err) => .error err
  | (clone, none) => .ok clone

/-! ## The loops at one outpoint -/

@[simp] theorem lookup_insertWhere_entries (p : DomainOutpoint → UTXOEntry → Bool)
    (c m : UTXOCollection) (o : DomainOutpoint) :
    (insertWhere p c.entries m).lookup o = ((c.lookup o).filter (p o)).or (m.lookup o) :=
  lookup_insertWhere p c.nodupKeys m o

@[simp] theorem mem_insertWhere_entries (p : DomainOutpoint → UTXOEntry → Bool)
    (c m : UTXOCollection) (o : DomainOutpoint) :
    o ∈ insertWhere p c.entries m ↔ (c.lookup o).any (p o) = true ∨ o ∈ m := by
  rw [← AList.lookup_isSome, lookup_insertWhere_entries]
  cases c.lookup o with
  | none => simp [AList.lookup_isSome]
  | some e => by_cases pass : p o e <;> simp [pass, Option.filter_some, AList.lookup_isSome]

theorem intersectionWithRemainder_eq (c1 c2 r m : UTXOCollection) :
    intersectionWithRemainderHavingDAAScoreInPlace c1 c2 r m =
      (insertWhere (fun o e => c2.containsWithDAAScore o e.blockDAAScore) c1.entries r,
        insertWhere (fun o e => !c2.containsWithDAAScore o e.blockDAAScore) c1.entries m) :=
  foldl_insertEither (fun o (e : UTXOEntry) => c2.containsWithDAAScore o e.blockDAAScore)
    c1.entries r m

theorem subtractionWithRemainder_eq (c1 c2 r m : UTXOCollection) :
    subtractionWithRemainderHavingDAAScoreInPlace c1 c2 r m =
      (insertWhere (fun o e => !c2.containsWithDAAScore o e.blockDAAScore) c1.entries r,
        insertWhere (fun o e => !!c2.containsWithDAAScore o e.blockDAAScore) c1.entries m) :=
  foldl_insertEither (fun o (e : UTXOEntry) => !c2.containsWithDAAScore o e.blockDAAScore)
    c1.entries r m

theorem subtraction_eq (c1 c2 r : UTXOCollection) :
    subtractionHavingDAAScoreInPlace c1 c2 r =
      insertWhere (fun o e => !c2.containsWithDAAScore o e.blockDAAScore) c1.entries r :=
  rfl

theorem checkIntersectionWithRule_eq_none {c1 c2 : UTXOCollection}
    {rule : DomainOutpoint → UTXOEntry → UTXOEntry → Bool} :
    checkIntersectionWithRule c1 c2 rule = none ↔
      ∀ o e d, c1.lookup o = some e → c2.lookup o = some d → rule o e d = false := by
  simp only [checkIntersectionWithRule, List.findSome?_eq_none_iff, get_eq]
  constructor
  · intro none_found o e d h1 h2
    have mem : (⟨o, e⟩ : Σ _ : DomainOutpoint, UTXOEntry) ∈ c1.entries :=
      (List.mem_dlookup_iff c1.nodupKeys).mp h1
    have found := none_found _ mem
    simp only [h2] at found
    simpa using found
  · rintro all_false ⟨o, e⟩ mem
    have h1 : c1.lookup o = some e := (List.mem_dlookup_iff c1.nodupKeys).mpr mem
    cases h2 : c2.lookup o with
    | none => rfl
    | some d => simp [all_false o e d h1 h2]

theorem checkIntersectionWithRule_some {c1 c2 : UTXOCollection}
    {rule : DomainOutpoint → UTXOEntry → UTXOEntry → Bool} {o : DomainOutpoint}
    (found : checkIntersectionWithRule c1 c2 rule = some o) :
    ∃ e d, c1.lookup o = some e ∧ c2.lookup o = some d ∧ rule o e d = true := by
  obtain ⟨⟨k, e⟩, mem, hit⟩ := List.exists_of_findSome?_eq_some found
  have h1 : c1.lookup k = some e := (List.mem_dlookup_iff c1.nodupKeys).mpr mem
  simp only [get_eq] at hit
  cases h2 : c2.lookup k with
  | none => simp [h2] at hit
  | some d =>
    simp only [h2] at hit
    split at hit
    · rename_i pass
      cases hit
      exact ⟨e, d, h1, h2, pass⟩
    · cases hit

theorem checkIntersection_iff {c1 c2 : UTXOCollection} :
    checkIntersection c1 c2 = true ↔ ∃ o, o ∈ c1 ∧ o ∈ c2 := by
  simp only [checkIntersection, List.any_eq_true, contains_eq, decide_eq_true_eq]
  constructor
  · rintro ⟨e, mem, inside⟩
    exact ⟨e.1, AList.mem_keys.mpr (List.mem_keys_of_mem mem), inside⟩
  · rintro ⟨o, mem, inside⟩
    obtain ⟨e, he⟩ := List.exists_of_mem_keys (AList.mem_keys.mp mem)
    exact ⟨⟨o, e⟩, he, inside⟩

/-! ## The algebra at one outpoint -/

def withDiffFailsAt (add1 remove1 add2 remove2 : Option UTXOEntry) : Bool :=
  (remove2.any fun e => remove1.isSome && !hasDAAScore add1 e.blockDAAScore) ||
    (add2.any fun _ => add1.any fun x => !hasDAAScore remove2 x.blockDAAScore)

def withDiffAt (add1 remove1 add2 remove2 : Option UTXOEntry) :
    Option UTXOEntry × Option UTXOEntry :=
  let cancelled := remove2.filter fun e => hasDAAScore add1 e.blockDAAScore
  let remove := (remove2.filter fun e => !hasDAAScore add1 e.blockDAAScore).or remove1
  let add := if cancelled.isSome then none else add1
  let restored := add2.filter fun f => hasDAAScore remove f.blockDAAScore
  ((add2.filter fun f => !hasDAAScore remove f.blockDAAScore).or add,
    if restored.isSome then none else remove)

def diffFromFailsAt (add1 remove1 add2 remove2 : Option UTXOEntry) : Bool :=
  (remove1.any fun e => add2.any fun f =>
    !(f.blockDAAScore != e.blockDAAScore &&
      (hasDAAScore add1 f.blockDAAScore || hasDAAScore remove2 e.blockDAAScore))) ||
  (add1.any fun x => remove2.any fun y =>
    !(y.blockDAAScore != x.blockDAAScore &&
      (hasDAAScore remove1 y.blockDAAScore || hasDAAScore add2 x.blockDAAScore))) ||
  (remove1.any fun e => remove2.any fun y => e.blockDAAScore != y.blockDAAScore)

def baseMismatchAt (add1 remove1 add2 remove2 : Option UTXOEntry) : Bool :=
  (add1.any fun x => hasDAAScore add2 x.blockDAAScore) && (remove1.isSome != remove2.isSome)

def diffFromAt (add1 remove1 add2 remove2 : Option UTXOEntry) :
    Option UTXOEntry × Option UTXOEntry :=
  ((add2.filter fun f => !hasDAAScore add1 f.blockDAAScore).or
      (remove1.filter fun e => !hasDAAScore remove2 e.blockDAAScore),
    (remove2.filter fun y => !hasDAAScore remove1 y.blockDAAScore).or
      (add1.filter fun x => !hasDAAScore add2 x.blockDAAScore))

section
variable {this other d : MutableUTXODiff}

abbrev at4 (f : Option UTXOEntry → Option UTXOEntry → Option UTXOEntry → Option UTXOEntry → α)
    (this other : MutableUTXODiff) (o : DomainOutpoint) : α :=
  f (this.toAdd.lookup o) (this.toRemove.lookup o) (other.toAdd.lookup o) (other.toRemove.lookup o)

theorem withDiffInPlace_checks :
    (withDiffInPlace this other).2 = none ↔ ∀ o, at4 withDiffFailsAt this other o = false := by
  have checks : (withDiffInPlace this other).2 = none ↔
      checkIntersectionWithRule other.toRemove this.toRemove (fun outpoint entryToAdd _ =>
        !this.toAdd.containsWithDAAScore outpoint entryToAdd.blockDAAScore) = none ∧
      checkIntersectionWithRule other.toAdd this.toAdd (fun outpoint _ existingEntry =>
        !other.toRemove.containsWithDAAScore outpoint existingEntry.blockDAAScore) = none := by
    unfold withDiffInPlace
    split
    · simp_all
    · split <;> simp_all
  rw [checks, checkIntersectionWithRule_eq_none, checkIntersectionWithRule_eq_none]
  constructor
  · rintro ⟨removedTwice, addedTwice⟩ o
    simp only [at4, withDiffFailsAt, Bool.or_eq_false_iff]
    constructor
    · cases r2 : other.toRemove.lookup o with
      | none => rfl
      | some e =>
        cases r1 : this.toRemove.lookup o with
        | none => simp
        | some d => simpa using removedTwice o e d r2 r1
    · cases a2 : other.toAdd.lookup o with
      | none => rfl
      | some f =>
        cases a1 : this.toAdd.lookup o with
        | none => simp
        | some x => simpa using addedTwice o f x a2 a1
  · intro fine
    constructor
    · intro o e d r2 r1
      have at_o := fine o
      simp only [at4, withDiffFailsAt, r2, r1, Bool.or_eq_false_iff] at at_o
      simpa using at_o.1
    · intro o f x a2 a1
      have at_o := fine o
      simp only [at4, withDiffFailsAt, a2, a1, Bool.or_eq_false_iff] at at_o
      simpa using at_o.2

theorem withDiffInPlace_at (h : withDiffInPlace this other = (d, none)) (o : DomainOutpoint) :
    (d.toAdd.lookup o, d.toRemove.lookup o) = at4 withDiffAt this other o := by
  unfold withDiffInPlace at h
  split at h
  · simp at h
  · split at h
    · simp at h
    · simp only [Prod.mk.injEq, and_true] at h
      subst h
      simp [intersectionWithRemainder_eq, withDiffAt]

theorem diffFrom_at (h : diffFrom this other = .ok d) (o : DomainOutpoint) :
    (d.toAdd.lookup o, d.toRemove.lookup o) = at4 diffFromAt this other o := by
  simp only [diffFrom, subtractionWithRemainder_eq, subtraction_eq] at h
  split at h
  · simp at h
  · split at h
    · simp at h
    · split at h
      · simp at h
      · split at h
        · simp at h
        · simp only [Except.ok.injEq] at h
          subst h
          simp [diffFromAt]

theorem checkIntersection_inBoth_eq (agree : ∀ o, at4 baseMismatchAt this other o = false) :
    let inBothToAdd := insertWhere (fun o (e : UTXOEntry) =>
      !!other.toAdd.containsWithDAAScore o e.blockDAAScore) this.toAdd.entries ∅
    checkIntersection inBothToAdd this.toRemove = checkIntersection inBothToAdd other.toRemove := by
  intro inBothToAdd
  have same : ∀ o, o ∈ inBothToAdd → (o ∈ this.toRemove ↔ o ∈ other.toRemove) := by
    intro o mem
    have at_o := agree o
    simp only [inBothToAdd, mem_insertWhere_entries, AList.notMem_empty, or_false,
      containsWithDAAScore_eq, Bool.not_not] at mem
    simp only [at4, baseMismatchAt, mem, Bool.true_and, bne_eq_false_iff_eq] at at_o
    rw [← AList.lookup_isSome, ← AList.lookup_isSome, at_o]
  apply Bool.eq_iff_iff.mpr
  rw [checkIntersection_iff, checkIntersection_iff]
  constructor
  · rintro ⟨o, mem, inside⟩
    exact ⟨o, mem, (same o mem).mp inside⟩
  · rintro ⟨o, mem, inside⟩
    exact ⟨o, mem, (same o mem).mpr inside⟩

theorem diffFrom_ok (fine : ∀ o, at4 diffFromFailsAt this other o = false)
    (agree : ∀ o, at4 baseMismatchAt this other o = false) :
    ∃ d, diffFrom this other = .ok d := by
  simp only [diffFrom]
  split
  · rename_i _ o found
    obtain ⟨e, f, r1, a2, rule⟩ := checkIntersectionWithRule_some found
    have at_o := fine o
    simp only [at4, diffFromFailsAt, r1, a2, Bool.or_eq_false_iff] at at_o
    simp_all
  · split
    · rename_i _ o found
      obtain ⟨x, y, a1, r2, rule⟩ := checkIntersectionWithRule_some found
      have at_o := fine o
      simp only [at4, diffFromFailsAt, a1, r2, Bool.or_eq_false_iff] at at_o
      simp_all
    · split
      · rename_i _ o found
        obtain ⟨e, y, r1, r2, rule⟩ := checkIntersectionWithRule_some found
        have at_o := fine o
        simp only [at4, diffFromFailsAt, r1, r2, Bool.or_eq_false_iff] at at_o
        simp_all
      · have base := checkIntersection_inBoth_eq agree
        simp only [subtractionWithRemainder_eq] at base ⊢
        rw [base]
        simp
end

end Utxo
