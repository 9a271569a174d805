import Htnd.Utxo.DiffSemantics
import Htnd.Utxo.Transaction
import Htnd.Lib.StateInvariant
import Htnd.Lib.GoSemantics

/-!
A transaction accumulated into a diff: `AddTransaction`, `addEntry` and `removeEntry` of
mutable_utxo_diff.go. The methods change the diff in place, and one that returns an error
keeps what it changed before it, so they run in `EStateM` over the diff. Each call of
`addEntry` or `removeEntry` touches one outpoint, in the one way `recordIn` says; the step
lemmas read that against `applyAt`, and the loop rule of `StateInvariant` carries them over
the inputs and the outputs. `applyTransaction` is what accepting a transaction does to a
UTXO set.
-/
namespace Utxo
open GoSemantics StateInvariant UTXOCollection

inductive DiffEntryError where
  | addTwice (outpoint : DomainOutpoint)
  | removeTwice (outpoint : DomainOutpoint)
  | panic (p : Panic)
  deriving DecidableEq, Repr

/-- The text of each error, given how an outpoint prints; a panic has none. -/
def DiffEntryError.message (outpointText : DomainOutpoint → String) :
    DiffEntryError → Option String
  | .addTwice o => some ("AddEntry: Cannot add outpoint " ++ outpointText o ++ " twice")
  | .removeTwice o => some ("removeEntry: Cannot remove outpoint " ++ outpointText o ++ " twice")
  | .panic _ => none

def recordIn (same opposite : UTXOCollection) (outpoint : DomainOutpoint) (entry : UTXOEntry) :
    Option (UTXOCollection × UTXOCollection) :=
  if opposite.containsWithDAAScore outpoint entry.blockDAAScore then
    some (same, opposite.remove outpoint)
  else if same.contains outpoint then none
  else some (same.add outpoint entry, opposite)

def recordAt (same opposite : Option UTXOEntry) (entry : UTXOEntry) :
    Option (Option UTXOEntry × Option UTXOEntry) :=
  if hasDAAScore opposite entry.blockDAAScore then some (same, none)
  else if same.isSome then none
  else some (some entry, opposite)

theorem recordIn_eq_some {same opposite : UTXOCollection} {outpoint : DomainOutpoint}
    {entry : UTXOEntry} {same' opposite' : Option UTXOEntry}
    (recorded : recordAt (same.lookup outpoint) (opposite.lookup outpoint) entry =
      some (same', opposite')) :
    ∃ c c', recordIn same opposite outpoint entry = some (c, c') ∧
      ∀ o, (c.lookup o, c'.lookup o) =
        if o = outpoint then (same', opposite') else (same.lookup o, opposite.lookup o) := by
  by_cases cancels : hasDAAScore (opposite.lookup outpoint) entry.blockDAAScore
  · simp only [recordAt, cancels, if_true, Option.some.injEq, Prod.mk.injEq] at recorded
    obtain ⟨rfl, rfl⟩ := recorded
    refine ⟨same, opposite.remove outpoint, by simp [recordIn, cancels], fun o => ?_⟩
    by_cases here : o = outpoint
    · subst here
      simp [remove]
    · simp [here, remove, AList.lookup_erase_ne here]
  · by_cases held : (same.lookup outpoint).isSome
    · simp [recordAt, cancels, held] at recorded
    · simp only [recordAt, cancels, held, Bool.false_eq_true, if_false, Option.some.injEq,
        Prod.mk.injEq] at recorded
      obtain ⟨rfl, rfl⟩ := recorded
      have absent : outpoint ∉ same := by rwa [← AList.lookup_isSome]
      refine ⟨same.add outpoint entry, opposite, by simp [recordIn, cancels, absent], fun o => ?_⟩
      by_cases here : o = outpoint
      · subst here
        simp
      · simp [here]

namespace MutableUTXODiff

def addEntry (outpoint : DomainOutpoint) (entry : UTXOEntry) :
    EStateM DiffEntryError MutableUTXODiff PUnit := do
  let mud ← get
  match recordIn mud.toAdd mud.toRemove outpoint entry with
  | some (toAdd, toRemove) => set (MutableUTXODiff.mk toAdd toRemove)
  | none => throw (.addTwice outpoint)

def removeEntry (outpoint : DomainOutpoint) (entry : UTXOEntry) :
    EStateM DiffEntryError MutableUTXODiff PUnit := do
  let mud ← get
  match recordIn mud.toRemove mud.toAdd outpoint entry with
  | some (toRemove, toAdd) => set (MutableUTXODiff.mk toAdd toRemove)
  | none => throw (.removeTwice outpoint)

def removeInput (input : DomainTransactionInput) :
    EStateM DiffEntryError MutableUTXODiff PUnit :=
  match input.utxoEntry with
  -- `entry.BlockDAAScore()` on a nil `UTXOEntry`
  | none => throw (.panic .nilPointerDereference)
  | some entry => removeEntry input.previousOutpoint entry

def addTransaction (transaction : DomainTransaction) (blockDAAScore : UInt64) :
    EStateM DiffEntryError MutableUTXODiff PUnit := do
  transaction.inputs.forM removeInput
  let isCoinbase := isCoinBase transaction
  let transactionID := transaction.id
  transaction.outputs.zipIdx.forM fun (output, i) =>
    addEntry ⟨transactionID, i.toUInt32⟩
      ⟨output.value, output.scriptPublicKey, blockDAAScore, isCoinbase⟩

variable {d : MutableUTXODiff} {outpoint : DomainOutpoint} {entry : UTXOEntry}
  {add remove : Option UTXOEntry}

theorem addEntry_at
    (recorded : recordAt (d.toAdd.lookup outpoint) (d.toRemove.lookup outpoint) entry =
      some (add, remove)) :
    ∃ d', (addEntry outpoint entry).run d = .ok ⟨⟩ d' ∧
      ∀ o, (d'.toAdd.lookup o, d'.toRemove.lookup o) =
        if o = outpoint then (add, remove) else (d.toAdd.lookup o, d.toRemove.lookup o) := by
  obtain ⟨c, c', recorded', reads⟩ := recordIn_eq_some recorded
  refine ⟨⟨c, c'⟩, ?_, reads⟩
  simp only [addEntry, EStateM.run_bind, EStateM.run_get, recorded']
  rfl

theorem removeEntry_at
    (recorded : recordAt (d.toRemove.lookup outpoint) (d.toAdd.lookup outpoint) entry =
      some (remove, add)) :
    ∃ d', (removeEntry outpoint entry).run d = .ok ⟨⟩ d' ∧
      ∀ o, (d'.toAdd.lookup o, d'.toRemove.lookup o) =
        if o = outpoint then (add, remove) else (d.toAdd.lookup o, d.toRemove.lookup o) := by
  obtain ⟨c, c', recorded', reads⟩ := recordIn_eq_some recorded
  refine ⟨⟨c', c⟩, ?_, fun o => ?_⟩
  · simp only [removeEntry, EStateM.run_bind, EStateM.run_get, recorded']
    rfl
  · have read := reads o
    split_ifs at read ⊢ <;>
    · simp only [Prod.mk.injEq] at read ⊢
      exact ⟨read.2, read.1⟩

end MutableUTXODiff

/-! ## What the diff does at one outpoint -/

section
variable {entry add remove : Option UTXOEntry} {e : UTXOEntry}

theorem wellFormedAt_none (remove : Option UTXOEntry) : WellFormedAt none remove :=
  fun _ added => by cases added

theorem recordAt_spend (holds : applyAt entry add remove = some (some e)) :
    ∃ remove' add', recordAt remove add e = some (remove', add') ∧ WellFormedAt add' remove' ∧
      applyAt entry add' remove' = some none := by
  rcases applyAt_eq_some.1 holds with ⟨x, rfl, found, rfl⟩ | ⟨f, rfl, rfl, rfl, same⟩ |
    ⟨rfl, rfl, rfl⟩
  · exact ⟨some x, none, by simp [recordAt], wellFormedAt_none _, by simp [applyAt, found]⟩
  · obtain rfl := Option.some.inj same
    exact ⟨none, none, by simp [recordAt], wellFormedAt_none _, rfl⟩
  · exact ⟨some e, none, by simp [recordAt], wellFormedAt_none _, by simp [applyAt]⟩

theorem recordAt_create (holds : applyAt entry add remove = some none)
    (coherent : ∀ y, entry = some y → y.blockDAAScore = e.blockDAAScore → y = e) :
    ∃ add' remove', recordAt add remove e = some (add', remove') ∧ WellFormedAt add' remove' ∧
      applyAt entry add' remove' = some (some e) := by
  rcases applyAt_eq_some.1 holds with ⟨x, rfl, found, rfl⟩ | ⟨f, rfl, rfl, rfl, same⟩ |
    ⟨rfl, rfl, rfl⟩
  · obtain ⟨y, rfl⟩ : ∃ y, entry = some y := Option.isSome_iff_exists.1 (by
      cases entry <;> simp_all)
    have scores : y.blockDAAScore = x.blockDAAScore := by simpa using found
    by_cases cancels : x.blockDAAScore = e.blockDAAScore
    · obtain rfl := coherent y rfl (scores.trans cancels)
      exact ⟨none, none, by simp [recordAt, cancels], wellFormedAt_none _, rfl⟩
    · exact ⟨some e, some x, by simp [recordAt, cancels],
        fun _ added => by cases added; simpa using cancels, by simp [applyAt, scores]⟩
  · cases same
  · exact ⟨some e, none, by simp [recordAt], fun _ _ => rfl, rfl⟩

end

/-! ## What the diff does to a set -/

section
variable {S T T' : UTXOSet} {d d' : MutableUTXODiff} {outpoint : DomainOutpoint}
  {entry : UTXOEntry}

theorem applyDiff_update {add remove x : Option UTXOEntry} (wf : d.WellFormed)
    (applied : applyDiff S d = some T)
    (reads : ∀ o, (d'.toAdd.lookup o, d'.toRemove.lookup o) =
      if o = outpoint then (add, remove) else (d.toAdd.lookup o, d.toRemove.lookup o))
    (wfAt : WellFormedAt add remove) (appliesAt : applyAt (S.lookup outpoint) add remove = some x)
    (result : ∀ o, T'.lookup o = if o = outpoint then x else T.lookup o) :
    d'.WellFormed ∧ applyDiff S d' = some T' := by
  have before := applyDiff_eq_some_iff.1 applied
  have atEach : ∀ o, WellFormedAt (d'.toAdd.lookup o) (d'.toRemove.lookup o) ∧
      applyAt (S.lookup o) (d'.toAdd.lookup o) (d'.toRemove.lookup o) = some (T'.lookup o) := by
    intro o
    have read := reads o
    rw [result o]
    by_cases here : o = outpoint
    · subst here
      rw [if_pos rfl] at read ⊢
      obtain ⟨added, removed⟩ := Prod.mk.inj read
      rw [added, removed]
      exact ⟨wfAt, appliesAt⟩
    · rw [if_neg here] at read ⊢
      obtain ⟨added, removed⟩ := Prod.mk.inj read
      rw [added, removed]
      exact ⟨wf o, before o⟩
  exact ⟨fun o => (atEach o).1, applyDiff_eq_some_iff.2 fun o => (atEach o).2⟩

open MutableUTXODiff

theorem removeEntry_spends (wf : d.WellFormed) (applied : applyDiff S d = some T)
    (found : T.lookup outpoint = some entry) :
    ∃ d', (removeEntry outpoint entry).run d = .ok ⟨⟩ d' ∧ d'.WellFormed ∧
      applyDiff S d' = some (T.erase outpoint) := by
  have atOutpoint := applyDiff_eq_some_iff.1 applied outpoint
  rw [found] at atOutpoint
  obtain ⟨remove, add, recorded, wfAt, appliesAt⟩ := recordAt_spend atOutpoint
  obtain ⟨d', ran, reads⟩ := removeEntry_at recorded
  refine ⟨d', ran, applyDiff_update wf applied reads wfAt appliesAt fun o => ?_⟩
  by_cases here : o = outpoint
  · subst here
    simp
  · simp [here, Finmap.lookup_erase_ne here]

theorem addEntry_creates (wf : d.WellFormed) (applied : applyDiff S d = some T)
    (fresh : T.lookup outpoint = none)
    (coherent : ∀ y, S.lookup outpoint = some y → y.blockDAAScore = entry.blockDAAScore →
      y = entry) :
    ∃ d', (addEntry outpoint entry).run d = .ok ⟨⟩ d' ∧ d'.WellFormed ∧
      applyDiff S d' = some (T.insert outpoint entry) := by
  have atOutpoint := applyDiff_eq_some_iff.1 applied outpoint
  rw [fresh] at atOutpoint
  obtain ⟨add, remove, recorded, wfAt, appliesAt⟩ :=
    recordAt_create atOutpoint coherent
  obtain ⟨d', ran, reads⟩ := addEntry_at recorded
  refine ⟨d', ran, applyDiff_update wf applied reads wfAt appliesAt fun o => ?_⟩
  by_cases here : o = outpoint
  · subst here
    simp
  · simp [here, Finmap.lookup_insert_of_ne _ here]

end

/-! ## Accepting a transaction -/

def outputEntries (transaction : DomainTransaction) (blockDAAScore : UInt64) :
    List (DomainOutpoint × UTXOEntry) :=
  transaction.outputs.zipIdx.map fun (output, i) =>
    (⟨transaction.id, i.toUInt32⟩,
      ⟨output.value, output.scriptPublicKey, blockDAAScore, isCoinBase transaction⟩)

def applyTransaction (set : UTXOSet) (transaction : DomainTransaction) (blockDAAScore : UInt64) :
    UTXOSet :=
  (outputEntries transaction blockDAAScore).foldl (fun s e => s.insert e.1 e.2)
    (transaction.inputs.foldl (fun s input => s.erase input.previousOutpoint) set)

theorem outputEntries_keys_nodup {transaction : DomainTransaction} (blockDAAScore : UInt64)
    (fits : transaction.outputs.length ≤ 2 ^ 32) :
    ((outputEntries transaction blockDAAScore).map Prod.fst).Nodup := by
  have keys : (outputEntries transaction blockDAAScore).map Prod.fst =
      (List.range' 0 transaction.outputs.length).map
        fun i => (⟨transaction.id, i.toUInt32⟩ : DomainOutpoint) := by
    rw [← List.zipIdx_map_snd, List.map_map, outputEntries, List.map_map]
    rfl
  rw [keys]
  refine List.Nodup.map_on (fun i below j below' same => ?_) (List.nodup_range' ..)
  rw [List.mem_range'_1] at below below'
  have indices : i.toUInt32.toNat = j.toUInt32.toNat := by
    rw [(DomainOutpoint.mk.inj same).2]
  simp only [Nat.toUInt32_eq, UInt32.toNat_ofNat'] at indices
  rwa [Nat.mod_eq_of_lt (by omega), Nat.mod_eq_of_lt (by omega)] at indices

namespace MutableUTXODiff

theorem addTransaction_eq (transaction : DomainTransaction) (blockDAAScore : UInt64) :
    addTransaction transaction blockDAAScore =
      (transaction.inputs.forM removeInput >>= fun _ =>
        (outputEntries transaction blockDAAScore).forM fun e => addEntry e.1 e.2) := by
  simp only [addTransaction, outputEntries, List.forM_eq_forM, List.forM_map]

variable {S T : UTXOSet} {d : MutableUTXODiff}

theorem removeInputs_spends {inputs : List DomainTransactionInput} (wf : d.WellFormed)
    (applied : applyDiff S d = some T)
    (spendable : ∀ input ∈ inputs,
      ∃ e, input.utxoEntry = some e ∧ T.lookup input.previousOutpoint = some e)
    (distinct : (inputs.map (·.previousOutpoint)).Nodup) :
    ∃ d', (inputs.forM removeInput).run d = .ok ⟨⟩ d' ∧ d'.WellFormed ∧
      applyDiff S d' = some (inputs.foldl (fun s input => s.erase input.previousOutpoint) T) := by
  -- the invariant: the diff spends the inputs run so far
  refine forM_run_ok (fun (done : List DomainTransactionInput) d' => d'.WellFormed ∧
    applyDiff S d' = some (done.foldl (fun s input => s.erase input.previousOutpoint) T))
    ?_ d ⟨wf, applied⟩
  rintro done input rest d₁ split ⟨wf₁, applied₁⟩
  obtain ⟨e, populated, found⟩ := spendable input (by simp [← split])
  have unspent : input.previousOutpoint ∉ done.map (·.previousOutpoint) := by
    rw [← split, List.map_append, List.map_cons] at distinct
    exact fun spent => (List.nodup_append.1 distinct).2.2 _ spent _ (by simp) rfl
  have stillFound : (done.foldl (fun s input => s.erase input.previousOutpoint) T).lookup
      input.previousOutpoint = some e := by
    rw [KeyedFold.lookup_foldl_erase_map, if_neg unspent, found]
  obtain ⟨d₂, ran, wf₂, applied₂⟩ := removeEntry_spends wf₁ applied₁ stillFound
  refine ⟨d₂, ?_, wf₂, by rwa [List.foldl_append]⟩
  simpa only [removeInput, populated] using ran

theorem addEntries_creates {entries : List (DomainOutpoint × UTXOEntry)} (wf : d.WellFormed)
    (applied : applyDiff S d = some T) (distinct : (entries.map Prod.fst).Nodup)
    (fresh : ∀ e ∈ entries, T.lookup e.1 = none)
    (coherent : ∀ e ∈ entries, ∀ y, S.lookup e.1 = some y →
      y.blockDAAScore = e.2.blockDAAScore → y = e.2) :
    ∃ d', (entries.forM fun e => addEntry e.1 e.2).run d = .ok ⟨⟩ d' ∧ d'.WellFormed ∧
      applyDiff S d' = some (entries.foldl (fun s e => s.insert e.1 e.2) T) := by
  -- the invariant: the diff creates the entries run so far
  refine forM_run_ok (fun (done : List (DomainOutpoint × UTXOEntry)) d' => d'.WellFormed ∧
    applyDiff S d' = some (done.foldl (fun s e => s.insert e.1 e.2) T)) ?_ d ⟨wf, applied⟩
  rintro done e rest d₁ split ⟨wf₁, applied₁⟩
  have mem : e ∈ entries := by simp [← split]
  have unused : e.1 ∉ done.map Prod.fst := by
    rw [← split, List.map_append, List.map_cons] at distinct
    exact fun used => (List.nodup_append.1 distinct).2.2 _ used _ (by simp) rfl
  have stillFresh : (done.foldl (fun s e => s.insert e.1 e.2) T).lookup e.1 = none := by
    rw [KeyedFold.lookup_foldl_insert_of_notMem T unused, fresh e mem]
  obtain ⟨d₂, ran, wf₂, applied₂⟩ := addEntry_creates wf₁ applied₁ stillFresh (coherent e mem)
  exact ⟨d₂, ran, wf₂, by rwa [List.foldl_append]⟩

/-- **Accumulating a transaction into a diff is applying it.** From a well-formed diff that
    applies to `S`, a transaction whose inputs, at distinct outpoints, carry entries the
    result holds, and whose at most 2^32 outputs fall at outpoints the result does not hold,
    is added without error; the diff stays well formed, and applies to `S` as the transaction
    applied to the diff's result. `S` may hold no entry at an output's outpoint with the
    output's DAA score other than the output's own, since the diff matches entries by DAA
    score. -/
theorem addTransaction_applies {transaction : DomainTransaction} {blockDAAScore : UInt64}
    (wf : d.WellFormed) (applied : applyDiff S d = some T)
    (spendable : ∀ input ∈ transaction.inputs,
      ∃ e, input.utxoEntry = some e ∧ T.lookup input.previousOutpoint = some e)
    (distinct : (transaction.inputs.map (·.previousOutpoint)).Nodup)
    (fresh : ∀ e ∈ outputEntries transaction blockDAAScore, T.lookup e.1 = none)
    (fits : transaction.outputs.length ≤ 2 ^ 32)
    (coherent : ∀ e ∈ outputEntries transaction blockDAAScore, ∀ y, S.lookup e.1 = some y →
      y.blockDAAScore = e.2.blockDAAScore → y = e.2) :
    ∃ d', (addTransaction transaction blockDAAScore).run d = .ok ⟨⟩ d' ∧ d'.WellFormed ∧
      applyDiff S d' = some (applyTransaction T transaction blockDAAScore) := by
  obtain ⟨d₁, spent, wf₁, applied₁⟩ := removeInputs_spends wf applied spendable distinct
  have fresh₁ : ∀ e ∈ outputEntries transaction blockDAAScore,
      (transaction.inputs.foldl (fun s input => s.erase input.previousOutpoint) T).lookup e.1 =
        none := by
    intro e mem
    rw [KeyedFold.lookup_foldl_erase_map]
    split_ifs
    · rfl
    · exact fresh e mem
  obtain ⟨d', created, wf', applied'⟩ := addEntries_creates wf₁ applied₁
    (outputEntries_keys_nodup blockDAAScore fits) fresh₁ coherent
  refine ⟨d', ?_, wf', applied'⟩
  rw [addTransaction_eq]
  exact run_bind_eq_ok.2 ⟨⟨⟩, d₁, spent, created⟩

theorem addTransaction_applies_spend :
    let o : DomainOutpoint := ⟨⟨0, by decide⟩, 0⟩
    let e : UTXOEntry := ⟨10, ⟨[], 0⟩, 0, false⟩
    let transaction : DomainTransaction :=
      ⟨⟨1, by decide⟩, [⟨o, [], 0, 0, some e⟩], [⟨9, ⟨[], 0⟩⟩], ⟨[]⟩, 1, 1⟩
    ∃ d', (addTransaction transaction 5).run ⟨∅, ∅⟩ = .ok ⟨⟩ d' ∧ d'.WellFormed ∧
      applyDiff (AList.singleton o e).toFinmap d' =
        some (applyTransaction (AList.singleton o e).toFinmap transaction 5) :=
  addTransaction_applies (by decide) (by decide) (by simp [AList.lookup]) (by decide) (by decide)
    (by decide) (by simp [outputEntries, AList.lookup])

/-- Two inputs spending one outpoint, on a diff that created it: the first cancels the
    creation, and the second records a spend of an entry the base set does not hold, so the
    diff no longer applies. An output that recreates a spent outpoint with the spent entry's
    DAA score and another amount: `addEntry` cancels the spend, and the diff gives back the
    old entry. -/
theorem addTransaction_not_applyTransaction :
    let o : DomainOutpoint := ⟨⟨0, by decide⟩, 0⟩
    let e : UTXOEntry := ⟨10, ⟨[], 0⟩, 0, false⟩
    (let d : MutableUTXODiff := ⟨AList.singleton o e, ∅⟩
      let twice : DomainTransaction :=
        ⟨⟨1, by decide⟩, [⟨o, [], 0, 0, some e⟩, ⟨o, [], 0, 0, some e⟩], [], ⟨[]⟩, 1, 1⟩
      d.WellFormed ∧ applyDiff ∅ d = some (AList.singleton o e).toFinmap ∧
        (addTransaction twice 5).run d = .ok ⟨⟩ ⟨∅, AList.singleton o e⟩ ∧
        applyDiff ∅ ⟨∅, AList.singleton o e⟩ = none) ∧
    (let d : MutableUTXODiff := ⟨∅, AList.singleton o e⟩
      let recreate : DomainTransaction := ⟨⟨0, by decide⟩, [], [⟨20, ⟨[], 0⟩⟩], ⟨[]⟩, 1, 1⟩
      d.WellFormed ∧ applyDiff (AList.singleton o e).toFinmap d = some ∅ ∧
        (addTransaction recreate 0).run d = .ok ⟨⟩ ⟨∅, ∅⟩ ∧
        applyDiff (AList.singleton o e).toFinmap ⟨∅, ∅⟩ = some (AList.singleton o e).toFinmap ∧
        applyTransaction ∅ recreate 0 = (AList.singleton o ⟨20, ⟨[], 0⟩, 0, false⟩).toFinmap) :=
  ⟨⟨by decide, by decide, rfl, by decide⟩, ⟨by decide, by decide, rfl, by decide, by decide⟩⟩

end MutableUTXODiff

end Utxo
