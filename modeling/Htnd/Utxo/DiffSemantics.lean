import Htnd.Utxo.DiffAlgebra

/- What a diff means: the change it makes to a UTXO set. Sets are finite maps, equal when
   they agree at every outpoint, so each law is first proved at one outpoint (`applyAt`)
   and then lifted to whole sets through `applyDiff_eq_some_iff`. -/
namespace Utxo
open KeyedFold UTXOCollection

abbrev UTXOSet := Finmap fun _ : DomainOutpoint => UTXOEntry

def applyAt (entry add remove : Option UTXOEntry) : Option (Option UTXOEntry) :=
  match remove with
  | some e => if hasDAAScore entry e.blockDAAScore then some add else none
  | none =>
    match add with
    | some f => if entry.isNone then some (some f) else none
    | none => some entry

def applyDiff (set : UTXOSet) (diff : MutableUTXODiff) : Option UTXOSet :=
  if diff.toRemove.entries.all (fun e => hasDAAScore (set.lookup e.1) e.2.blockDAAScore) then
    let removed := diff.toRemove.entries.foldl (fun s e => s.erase e.1) set
    if diff.toAdd.entries.all (fun e => e.1 ∉ removed) then
      some (diff.toAdd.entries.foldl (fun s e => s.insert e.1 e.2) removed)
    else none
  else none

def WellFormedAt (add remove : Option UTXOEntry) : Prop :=
  ∀ f, add = some f → hasDAAScore remove f.blockDAAScore = false

def MutableUTXODiff.WellFormed (diff : MutableUTXODiff) : Prop :=
  ∀ o, WellFormedAt (diff.toAdd.lookup o) (diff.toRemove.lookup o)

def Coherent (sets : List UTXOSet) : Prop :=
  ∀ o, ∀ s ∈ sets, ∀ t ∈ sets, ∀ e f, s.lookup o = some e → t.lookup o = some f →
    e.blockDAAScore = f.blockDAAScore → e = f

theorem MutableUTXODiff.wellFormed_iff (d : MutableUTXODiff) :
    d.WellFormed ↔
      d.toAdd.entries.all (fun e => !hasDAAScore (d.toRemove.lookup e.1) e.2.blockDAAScore) := by
  rw [all_entries_iff d.toAdd (fun o f => !hasDAAScore (d.toRemove.lookup o) f.blockDAAScore)]
  simp [MutableUTXODiff.WellFormed, WellFormedAt]

instance : DecidablePred MutableUTXODiff.WellFormed := fun d =>
  decidable_of_iff _ (MutableUTXODiff.wellFormed_iff d).symm

theorem coherent_map_toFinmap_iff (cs : List UTXOCollection) :
    Coherent (cs.map AList.toFinmap) ↔
      ∀ c ∈ cs, ∀ c' ∈ cs, ∀ e ∈ c.entries, ∀ e' ∈ c'.entries, e.1 = e'.1 →
        e.2.blockDAAScore = e'.2.blockDAAScore → e.2 = e'.2 := by
  constructor
  · rintro coherent c mem c' mem' ⟨o, x⟩ found ⟨o', y⟩ found' (rfl : o = o') scores
    exact coherent o _ (List.mem_map_of_mem mem) _ (List.mem_map_of_mem mem') x y
      (by rw [Finmap.lookup_toFinmap]; exact AList.mem_lookup_iff.mpr found)
      (by rw [Finmap.lookup_toFinmap]; exact AList.mem_lookup_iff.mpr found') scores
  · intro check o s mem t mem' x y found found' scores
    obtain ⟨c, inList, rfl⟩ := List.mem_map.mp mem
    obtain ⟨c', inList', rfl⟩ := List.mem_map.mp mem'
    rw [Finmap.lookup_toFinmap] at found found'
    exact check c inList c' inList' ⟨o, x⟩ (AList.mem_lookup_iff.mp found) ⟨o, y⟩
      (AList.mem_lookup_iff.mp found') rfl scores

def MutableUTXODiff.Equiv (d d' : MutableUTXODiff) : Prop :=
  d.toAdd.toFinmap = d'.toAdd.toFinmap ∧ d.toRemove.toFinmap = d'.toRemove.toFinmap

instance (d d' : MutableUTXODiff) : Decidable (d.Equiv d') :=
  inferInstanceAs (Decidable (_ ∧ _))

theorem MutableUTXODiff.equiv_of_lookup {d d' : MutableUTXODiff}
    (same : ∀ o, (d.toAdd.lookup o, d.toRemove.lookup o) = (d'.toAdd.lookup o, d'.toRemove.lookup o)) :
    d.Equiv d' := by
  constructor
  · exact Finmap.ext_lookup fun o => by simpa using (Prod.mk.inj (same o)).1
  · exact Finmap.ext_lookup fun o => by simpa using (Prod.mk.inj (same o)).2

theorem Coherent.lookup {sets : List UTXOSet} (coherent : Coherent sets) {c c' : UTXOCollection}
    (mem : c.toFinmap ∈ sets) (mem' : c'.toFinmap ∈ sets) (o : DomainOutpoint) :
    ∀ x y, c.lookup o = some x → c'.lookup o = some y →
      x.blockDAAScore = y.blockDAAScore → x = y := by
  intro x y found found' scores
  exact coherent o _ mem _ mem' x y (by rwa [Finmap.lookup_toFinmap])
    (by rwa [Finmap.lookup_toFinmap]) scores

section
variable {entry add remove add1 remove1 add2 remove2 mid result : Option UTXOEntry}

theorem applyAt_eq_some :
    applyAt entry add remove = some mid ↔
      (∃ e, remove = some e ∧ hasDAAScore entry e.blockDAAScore = true ∧ add = mid) ∨
      (∃ f, remove = none ∧ add = some f ∧ entry = none ∧ some f = mid) ∨
      (remove = none ∧ add = none ∧ entry = mid) := by
  cases remove with
  | some e => by_cases found : hasDAAScore entry e.blockDAAScore <;> simp [applyAt, found]
  | none =>
    cases add with
    | some f => cases entry <;> simp [applyAt]
    | none => simp [applyAt]

theorem applyAt_eq_some_iff :
    applyAt entry add remove = some mid ↔
      (∀ e, remove = some e → hasDAAScore entry e.blockDAAScore = true) ∧
      (∀ f, add = some f → remove.isSome ∨ entry = none) ∧
      add.or (if remove.isSome then none else entry) = mid := by
  cases remove with
  | some e => by_cases found : hasDAAScore entry e.blockDAAScore <;> simp [applyAt, found]
  | none =>
    cases add with
    | some f => cases entry <;> simp [applyAt]
    | none => simp [applyAt]

@[simp] theorem withDiffAt_none_none (add1 remove1 : Option UTXOEntry) :
    withDiffAt add1 remove1 none none = (add1, remove1) := by
  simp [withDiffAt]

theorem withDiffFailsAt_eq_false
    (first : applyAt entry add1 remove1 = some mid) (second : applyAt mid add2 remove2 = some result) :
    withDiffFailsAt add1 remove1 add2 remove2 = false := by
  rcases applyAt_eq_some.1 second with ⟨e2, rfl, held, rfl⟩ | ⟨f2, rfl, rfl, rfl, rfl⟩ |
    ⟨rfl, rfl, rfl⟩
  · rcases applyAt_eq_some.1 first with ⟨e1, rfl, found, rfl⟩ | ⟨x1, rfl, rfl, rfl, rfl⟩ |
      ⟨rfl, rfl, rfl⟩
    · obtain ⟨x1, rfl⟩ : ∃ x1, add1 = some x1 := Option.isSome_iff_exists.mp (by
        cases add1 <;> simp_all)
      have scores : x1.blockDAAScore = e2.blockDAAScore := by simpa using held
      cases add2 <;> simp [withDiffFailsAt, scores]
    · have scores : x1.blockDAAScore = e2.blockDAAScore := by simpa using held
      cases add2 <;> simp [withDiffFailsAt, scores]
    · cases add2 <;> simp [withDiffFailsAt]
  · rcases applyAt_eq_some.1 first with ⟨e1, rfl, found, rfl⟩ | ⟨x1, rfl, rfl, rfl, ⟨⟩⟩ |
      ⟨rfl, rfl, rfl⟩ <;> simp [withDiffFailsAt]
  · simp [withDiffFailsAt]

theorem withDiffAt_applyAt
    (same : ∀ x f, entry = some x → add2 = some f → x.blockDAAScore = f.blockDAAScore → x = f)
    (wf2 : WellFormedAt add2 remove2)
    (first : applyAt entry add1 remove1 = some mid) (second : applyAt mid add2 remove2 = some result) :
    withDiffFailsAt add1 remove1 add2 remove2 = false ∧
      applyAt entry (withDiffAt add1 remove1 add2 remove2).1
        (withDiffAt add1 remove1 add2 remove2).2 = some result := by
  rcases applyAt_eq_some.1 second with ⟨e2, rfl, held, rfl⟩ | ⟨f2, rfl, rfl, rfl, rfl⟩ |
    ⟨rfl, rfl, rfl⟩
  · -- `other` removes `e2`, which `this` left there
    rcases applyAt_eq_some.1 first with ⟨e1, rfl, found, rfl⟩ | ⟨x1, rfl, rfl, rfl, rfl⟩ |
      ⟨rfl, rfl, rfl⟩
    · obtain ⟨x1, rfl⟩ : ∃ x1, add1 = some x1 := Option.isSome_iff_exists.mp (by
        cases add1 <;> simp_all)
      have scores : x1.blockDAAScore = e2.blockDAAScore := by simpa using held
      cases add2 with
      | none => simp [withDiffAt, withDiffFailsAt, applyAt, Option.filter_some, scores, found]
      | some f2 =>
        by_cases restored : e1.blockDAAScore = f2.blockDAAScore
        · obtain ⟨y, rfl⟩ : ∃ y, entry = some y := Option.isSome_iff_exists.mp (by
            cases entry <;> simp_all)
          have same_entry : y = f2 := same y f2 rfl rfl (by simpa [restored] using found)
          simp [withDiffAt, withDiffFailsAt, applyAt, Option.filter_some, scores, restored, same_entry]
        · simp [withDiffAt, withDiffFailsAt, applyAt, Option.filter_some, scores, restored, found]
    · have scores : x1.blockDAAScore = e2.blockDAAScore := by simpa using held
      cases add2 <;> simp [withDiffAt, withDiffFailsAt, applyAt, Option.filter_some, scores]
    · have distinct : ∀ f2, add2 = some f2 → e2.blockDAAScore ≠ f2.blockDAAScore := by
        intro f2 added
        simpa using wf2 f2 added
      cases add2 with
      | none => simp [withDiffAt, withDiffFailsAt, applyAt, Option.filter_some, held]
      | some f2 => simp [withDiffAt, withDiffFailsAt, applyAt, Option.filter_some, held, distinct f2 rfl]
  · -- `other` adds `f2` where `this` left nothing
    rcases applyAt_eq_some.1 first with ⟨e1, rfl, found, rfl⟩ | ⟨x1, rfl, rfl, rfl, _⟩ |
      ⟨rfl, rfl, rfl⟩
    · by_cases restored : e1.blockDAAScore = f2.blockDAAScore
      · obtain ⟨y, rfl⟩ : ∃ y, entry = some y := Option.isSome_iff_exists.mp (by
          cases entry <;> simp_all)
        have same_entry : y = f2 := same y f2 rfl rfl (by simpa [restored] using found)
        simp [withDiffAt, withDiffFailsAt, applyAt, Option.filter_some, restored, same_entry]
      · simp [withDiffAt, withDiffFailsAt, applyAt, Option.filter_some, restored, found]
    · contradiction
    · simp [withDiffAt, withDiffFailsAt, applyAt, Option.filter_some]
  · simp [withDiffFailsAt, first]

theorem withDiffAt_wellFormed (wf1 : WellFormedAt add1 remove1) :
    WellFormedAt (withDiffAt add1 remove1 add2 remove2).1
      (withDiffAt add1 remove1 add2 remove2).2 := by
  intro f added
  cases add2 with
  | some f2 =>
    by_cases restored : hasDAAScore ((remove2.filter fun e => !hasDAAScore add1 e.blockDAAScore).or
        remove1) f2.blockDAAScore
    · simp [withDiffAt, restored]
    · simp only [withDiffAt, Option.filter_some, restored, Bool.not_false, if_true,
        Option.some_or, Option.some.injEq] at added
      subst added
      simp [withDiffAt, Option.filter_some, restored]
  | none =>
    cases remove2 with
    | none => simpa using wf1 f (by simpa using added)
    | some e2 =>
      by_cases cancelled : hasDAAScore add1 e2.blockDAAScore
      · simp [withDiffAt, Option.filter_some, cancelled] at added
      · cases add1 with
        | none => simp [withDiffAt, Option.filter_some] at added
        | some x =>
          simp only [withDiffAt, Option.filter_some, cancelled, Bool.not_false, if_true,
            Option.some_or, Option.filter_none, Option.none_or, Option.isSome_none,
            Bool.false_eq_true, if_false, Option.some.injEq] at added
          subst added
          simp only [hasDAAScore_some, beq_iff_eq] at cancelled
          simp [withDiffAt, Option.filter_some, hasDAAScore_some, cancelled, Ne.symm cancelled]

theorem diffFromAt_withDiffAt
    (sameAdded : ∀ x f, add1 = some x → add2 = some f → x.blockDAAScore = f.blockDAAScore → x = f)
    (sameRemoved : ∀ e y, remove1 = some e → remove2 = some y →
      e.blockDAAScore = y.blockDAAScore → e = y)
    (wf1 : WellFormedAt add1 remove1) (wf2 : WellFormedAt add2 remove2)
    (first : applyAt entry add1 remove1 = some mid) (second : applyAt entry add2 remove2 = some result) :
    diffFromFailsAt add1 remove1 add2 remove2 = false ∧
      baseMismatchAt add1 remove1 add2 remove2 = false ∧
      withDiffFailsAt add1 remove1 (diffFromAt add1 remove1 add2 remove2).1
        (diffFromAt add1 remove1 add2 remove2).2 = false ∧
      withDiffAt add1 remove1 (diffFromAt add1 remove1 add2 remove2).1
        (diffFromAt add1 remove1 add2 remove2).2 = (add2, remove2) := by
  have distinct1 : ∀ x e, add1 = some x → remove1 = some e → x.blockDAAScore ≠ e.blockDAAScore := by
    intro x e added removed same
    simpa [removed, same] using wf1 x added
  have distinct2 : ∀ x e, add2 = some x → remove2 = some e → x.blockDAAScore ≠ e.blockDAAScore := by
    intro x e added removed same
    simpa [removed, same] using wf2 x added
  rcases applyAt_eq_some.1 first with ⟨e1, rfl, found1, -⟩ | ⟨x1, rfl, rfl, rfl, -⟩ |
    ⟨rfl, rfl, -⟩
  · -- `this` removes `e1` from the entry
    rcases applyAt_eq_some.1 second with ⟨e2, rfl, found2, -⟩ | ⟨x2, rfl, rfl, rfl, -⟩ |
      ⟨rfl, rfl, -⟩
    · obtain ⟨y, rfl⟩ : ∃ y, entry = some y := Option.isSome_iff_exists.mp (by
        cases entry <;> simp_all)
      have scores : e1.blockDAAScore = e2.blockDAAScore := by
        simp only [hasDAAScore_some, beq_iff_eq] at found1 found2
        rw [← found1, ← found2]
      obtain rfl := sameRemoved e1 e2 rfl rfl scores
      cases add1 with
      | none =>
        cases add2 with
        | none => simp [diffFromAt, diffFromFailsAt, baseMismatchAt, withDiffAt, withDiffFailsAt,
            Option.filter_some]
        | some x2 =>
          have fresh := distinct2 x2 e1 rfl rfl
          simp [diffFromAt, diffFromFailsAt, baseMismatchAt, withDiffAt, withDiffFailsAt,
            Option.filter_some, fresh, Ne.symm fresh]
      | some x1 =>
        have fresh1 := distinct1 x1 e1 rfl rfl
        cases add2 with
        | none =>
          simp [diffFromAt, diffFromFailsAt, baseMismatchAt, withDiffAt, withDiffFailsAt,
            Option.filter_some, Ne.symm fresh1]
        | some x2 =>
          have fresh2 := distinct2 x2 e1 rfl rfl
          by_cases scores : x1.blockDAAScore = x2.blockDAAScore
          · obtain rfl := sameAdded x1 x2 rfl rfl scores
            simp [diffFromAt, diffFromFailsAt, baseMismatchAt, withDiffAt, withDiffFailsAt,
              Option.filter_some, fresh1, Ne.symm fresh1]
          · simp [diffFromAt, diffFromFailsAt, baseMismatchAt, withDiffAt, withDiffFailsAt,
              Option.filter_some, Ne.symm fresh1, fresh2, Ne.symm fresh2, scores,
              Ne.symm scores]
    · simp at found1
    · cases add1 with
      | none => simp [diffFromAt, diffFromFailsAt, baseMismatchAt, withDiffAt, withDiffFailsAt,
          Option.filter_some]
      | some x1 =>
        simp [diffFromAt, diffFromFailsAt, baseMismatchAt, withDiffAt, withDiffFailsAt,
          Option.filter_some]
  · -- `this` adds `x1` where there was nothing
    rcases applyAt_eq_some.1 second with ⟨e2, rfl, found2, -⟩ | ⟨x2, rfl, rfl, -, -⟩ |
      ⟨rfl, rfl, -⟩
    · simp at found2
    · by_cases scores : x1.blockDAAScore = x2.blockDAAScore
      · obtain rfl := sameAdded x1 x2 rfl rfl scores
        simp [diffFromAt, diffFromFailsAt, baseMismatchAt, withDiffAt, withDiffFailsAt,
          Option.filter_some]
      · simp [diffFromAt, diffFromFailsAt, baseMismatchAt, withDiffAt, withDiffFailsAt,
          Option.filter_some, scores, Ne.symm scores]
    · simp [diffFromAt, diffFromFailsAt, baseMismatchAt, withDiffAt, withDiffFailsAt,
        Option.filter_some]
  · -- `this` leaves the entry alone
    rcases applyAt_eq_some.1 second with ⟨e2, rfl, found2, -⟩ | ⟨x2, rfl, rfl, -, -⟩ |
      ⟨rfl, rfl, -⟩
    · cases add2 with
      | none => simp [diffFromAt, diffFromFailsAt, baseMismatchAt, withDiffAt, withDiffFailsAt,
          Option.filter_some]
      | some x2 =>
        have fresh2 := distinct2 x2 e2 rfl rfl
        simp [diffFromAt, diffFromFailsAt, baseMismatchAt, withDiffAt, withDiffFailsAt,
          Option.filter_some, Ne.symm fresh2]
    · simp [diffFromAt, diffFromFailsAt, baseMismatchAt, withDiffAt, withDiffFailsAt,
        Option.filter_some]
    · simp [diffFromAt, diffFromFailsAt, baseMismatchAt, withDiffFailsAt]

theorem withDiffAt_diffFromAt
    (addedRemoved : ∀ x y, add1 = some x → remove2 = some y →
      x.blockDAAScore = y.blockDAAScore → x = y)
    (removedAdded : ∀ e f, remove1 = some e → add2 = some f →
      e.blockDAAScore = f.blockDAAScore → e = f)
    (wf1 : WellFormedAt add1 remove1) (wf2 : WellFormedAt add2 remove2)
    (first : applyAt entry add1 remove1 = some mid) (second : applyAt mid add2 remove2 = some result) :
    diffFromFailsAt add1 remove1 (withDiffAt add1 remove1 add2 remove2).1
        (withDiffAt add1 remove1 add2 remove2).2 = false ∧
      baseMismatchAt add1 remove1 (withDiffAt add1 remove1 add2 remove2).1
        (withDiffAt add1 remove1 add2 remove2).2 = false ∧
      diffFromAt add1 remove1 (withDiffAt add1 remove1 add2 remove2).1
        (withDiffAt add1 remove1 add2 remove2).2 = (add2, remove2) := by
  have distinct1 : ∀ x e, add1 = some x → remove1 = some e → x.blockDAAScore ≠ e.blockDAAScore := by
    intro x e added removed same
    simpa [removed, same] using wf1 x added
  have distinct2 : ∀ x e, add2 = some x → remove2 = some e → x.blockDAAScore ≠ e.blockDAAScore := by
    intro x e added removed same
    simpa [removed, same] using wf2 x added
  rcases applyAt_eq_some.1 first with ⟨e1, rfl, found1, rfl⟩ | ⟨x1, rfl, rfl, rfl, rfl⟩ |
    ⟨rfl, rfl, rfl⟩
  · -- `this` removes `e1`, so `other` sees what `this` adds
    rcases applyAt_eq_some.1 second with ⟨e2, rfl, found2, -⟩ | ⟨x2, rfl, rfl, rfl, -⟩ |
      ⟨rfl, rfl, -⟩
    · obtain ⟨x1, rfl⟩ : ∃ x1, add1 = some x1 := Option.isSome_iff_exists.mp (by
        cases add1 <;> simp_all)
      obtain rfl := addedRemoved x1 e2 rfl rfl (by simpa using found2)
      have fresh1 := distinct1 x1 e1 rfl rfl
      cases add2 with
      | none =>
        simp [diffFromAt, diffFromFailsAt, baseMismatchAt, withDiffAt, Option.filter_some,
          Ne.symm fresh1]
      | some f2 =>
        have fresh2 := distinct2 f2 x1 rfl rfl
        by_cases restored : e1.blockDAAScore = f2.blockDAAScore
        · obtain rfl := removedAdded e1 f2 rfl rfl restored
          simp [diffFromAt, diffFromFailsAt, baseMismatchAt, withDiffAt, Option.filter_some]
        · simp [diffFromAt, diffFromFailsAt, baseMismatchAt, withDiffAt, Option.filter_some,
            Ne.symm fresh1, fresh2, Ne.symm fresh2, restored, Ne.symm restored]
    · by_cases restored : e1.blockDAAScore = x2.blockDAAScore
      · obtain rfl := removedAdded e1 x2 rfl rfl restored
        simp [diffFromAt, diffFromFailsAt, baseMismatchAt, withDiffAt, Option.filter_some]
      · simp [diffFromAt, diffFromFailsAt, baseMismatchAt, withDiffAt, Option.filter_some,
          restored, Ne.symm restored]
    · cases add1 with
      | none => simp [diffFromAt, diffFromFailsAt, baseMismatchAt, Option.filter_some]
      | some x1 =>
        have fresh1 := distinct1 x1 e1 rfl rfl
        simp [diffFromAt, diffFromFailsAt, baseMismatchAt, Option.filter_some, fresh1, Ne.symm fresh1]
  · -- `this` adds `x1` where there was nothing
    rcases applyAt_eq_some.1 second with ⟨e2, rfl, found2, -⟩ | ⟨x2, rfl, rfl, ⟨⟩, -⟩ |
      ⟨rfl, rfl, -⟩
    · obtain rfl := addedRemoved x1 e2 rfl rfl (by simpa using found2)
      cases add2 with
      | none => simp [diffFromAt, diffFromFailsAt, baseMismatchAt, withDiffAt, Option.filter_some]
      | some f2 =>
        have fresh2 := distinct2 f2 x1 rfl rfl
        simp [diffFromAt, diffFromFailsAt, baseMismatchAt, withDiffAt, Option.filter_some,
          fresh2, Ne.symm fresh2]
    · simp [diffFromAt, diffFromFailsAt, baseMismatchAt, Option.filter_some]
  · -- `this` leaves the outpoint alone
    rcases applyAt_eq_some.1 second with ⟨e2, rfl, found2, -⟩ | ⟨x2, rfl, rfl, -, -⟩ |
      ⟨rfl, rfl, -⟩
    · cases add2 with
      | none => simp [diffFromAt, diffFromFailsAt, baseMismatchAt, withDiffAt, Option.filter_some]
      | some f2 =>
        have fresh2 := distinct2 f2 e2 rfl rfl
        simp [diffFromAt, diffFromFailsAt, baseMismatchAt, withDiffAt, Option.filter_some,
          Ne.symm fresh2]
    · simp [diffFromAt, diffFromFailsAt, baseMismatchAt, withDiffAt, Option.filter_some]
    · simp [diffFromAt, diffFromFailsAt, baseMismatchAt]

end

/-! ## Whole sets -/

section
variable {set result : UTXOSet} {diff : MutableUTXODiff}

theorem lookup_removed (set : UTXOSet) (diff : MutableUTXODiff) (o : DomainOutpoint) :
    (diff.toRemove.entries.foldl (fun s e => s.erase e.1) set).lookup o =
      if (diff.toRemove.lookup o).isSome then none else set.lookup o := by
  rw [lookup_foldl_erase]
  simp [AList.lookup, List.dlookup_isSome]

theorem applyDiff_eq_some_iff :
    applyDiff set diff = some result ↔
      ∀ o, applyAt (set.lookup o) (diff.toAdd.lookup o) (diff.toRemove.lookup o) =
        some (result.lookup o) := by
  simp only [applyAt_eq_some_iff, forall_and]
  let removed := diff.toRemove.entries.foldl (fun s e => s.erase e.1) set
  have vacated : ∀ o, o ∉ removed ↔ (diff.toRemove.lookup o).isSome ∨ set.lookup o = none := by
    intro o
    rw [← Finmap.lookup_eq_none, lookup_removed]
    by_cases found : (diff.toRemove.lookup o).isSome <;> simp [found]
  have inserted : ∀ o, (diff.toAdd.entries.foldl (fun s e => s.insert e.1 e.2) removed).lookup o =
      (diff.toAdd.lookup o).or (if (diff.toRemove.lookup o).isSome then none else set.lookup o) := by
    intro o
    rw [lookup_foldl_insert diff.toAdd.nodupKeys, lookup_removed]
    rfl
  have checkRemove := all_entries_iff diff.toRemove
    (fun o e => hasDAAScore (set.lookup o) e.blockDAAScore)
  have checkAdd : (diff.toAdd.entries.all fun e => decide (e.1 ∉ removed)) = true ↔
      ∀ o f, diff.toAdd.lookup o = some f → (diff.toRemove.lookup o).isSome ∨ set.lookup o = none := by
    rw [all_entries_iff diff.toAdd (fun o _ => decide (o ∉ removed))]
    simp only [decide_eq_true_eq, vacated]
  constructor
  · intro applied
    unfold applyDiff at applied
    dsimp only at applied
    split_ifs at applied with removable addable
    obtain rfl := Option.some.inj applied
    exact ⟨checkRemove.mp removable, checkAdd.mp addable, fun o => (inserted o).symm⟩
  · rintro ⟨removable, addable, agrees⟩
    unfold applyDiff
    dsimp only
    rw [if_pos (checkRemove.mpr removable), if_pos (checkAdd.mpr addable)]
    exact congrArg some (Finmap.ext_lookup fun o => (inserted o).trans (agrees o))

end

@[simp] theorem applyDiff_empty (set : UTXOSet) : applyDiff set ⟨∅, ∅⟩ = some set := by
  rw [applyDiff_eq_some_iff]
  intro o
  rfl

theorem lookup_of_applyDiff_added {set result : UTXOSet} {diff : MutableUTXODiff}
    {o : DomainOutpoint} {f : UTXOEntry} (applied : applyDiff set diff = some result)
    (added : diff.toAdd.lookup o = some f) : result.lookup o = some f := by
  obtain ⟨-, -, composed⟩ := applyAt_eq_some_iff.1 (applyDiff_eq_some_iff.1 applied o)
  rw [← composed, added]
  rfl

/-! ## Reversal -/

theorem applyAt_reversed {entry add remove mid : Option UTXOEntry}
    (applied : applyAt entry add remove = some mid)
    (coherent : ∀ x y, entry = some x → remove = some y → x.blockDAAScore = y.blockDAAScore →
      x = y) :
    applyAt mid remove add = some entry := by
  rcases applyAt_eq_some.1 applied with ⟨x, rfl, found, rfl⟩ | ⟨f, rfl, rfl, rfl, rfl⟩ |
    ⟨rfl, rfl, rfl⟩
  · obtain ⟨y, rfl⟩ : ∃ y, entry = some y := Option.isSome_iff_exists.1 (by
      cases entry <;> simp_all)
    obtain rfl := coherent y x rfl rfl (by simpa using found)
    cases add with
    | none => rfl
    | some f => simp [applyAt]
  · simp [applyAt]
  · cases entry <;> rfl

theorem applyDiff_reversed {set result : UTXOSet} {diff : MutableUTXODiff}
    (applied : applyDiff set diff = some result)
    (coherent : Coherent [set, diff.toRemove.toFinmap]) :
    applyDiff result diff.reversed = some set := by
  have appliedAt := applyDiff_eq_some_iff.1 applied
  refine applyDiff_eq_some_iff.2 fun o => applyAt_reversed (appliedAt o) fun x y held removed =>
    coherent o set (by simp) diff.toRemove.toFinmap (by simp) x y held
      (by rwa [Finmap.lookup_toFinmap])

theorem MutableUTXODiff.wellFormed_reversed {diff : MutableUTXODiff} (wf : diff.WellFormed) :
    diff.reversed.WellFormed := by
  intro o f removed
  change diff.toRemove.lookup o = some f at removed
  change hasDAAScore (diff.toAdd.lookup o) f.blockDAAScore = false
  cases added : diff.toAdd.lookup o with
  | none => rfl
  | some x =>
    have differ := wf o x added
    rw [removed] at differ
    simp only [hasDAAScore_some, beq_eq_false_iff_ne, ne_eq] at differ ⊢
    exact fun same => differ same.symm

/-! ## Composition -/

section
variable {set mid result : UTXOSet} {d1 d2 : MutableUTXODiff}

/-- Applying `d1` and then `d2` is applying `withDiff d1 d2`, which succeeds, is again
    well formed, and is what `withDiffInPlace` leaves in `d1`. Entries are matched by DAA
    score, so an entry `d2` adds where the set already holds one of that score must be it. -/
theorem withDiff_applyDiff (coherent : Coherent [set, d2.toAdd.toFinmap])
    (wf1 : d1.WellFormed) (wf2 : d2.WellFormed)
    (first : applyDiff set d1 = some mid) (second : applyDiff mid d2 = some result) :
    ∃ d, withDiff d1 d2 = .ok d ∧ withDiffInPlace d1 d2 = (d, none) ∧ d.WellFormed ∧
      applyDiff set d = some result := by
  have firstAt := applyDiff_eq_some_iff.1 first
  have secondAt := applyDiff_eq_some_iff.1 second
  have same : ∀ o x f, set.lookup o = some x → d2.toAdd.lookup o = some f →
      x.blockDAAScore = f.blockDAAScore → x = f := by
    intro o x f held added scores
    exact coherent o set (by simp) d2.toAdd.toFinmap (by simp) x f held
      (by rwa [Finmap.lookup_toFinmap]) scores
  have composed := fun o => withDiffAt_applyAt (same o) (wf2 o) (firstAt o) (secondAt o)
  have passes : (withDiffInPlace d1 d2).2 = none :=
    withDiffInPlace_checks.2 fun o => (composed o).1
  let d := (withDiffInPlace d1 d2).1
  have inPlace : withDiffInPlace d1 d2 = (d, none) := Prod.ext rfl passes
  have readAt := withDiffInPlace_at inPlace
  refine ⟨d, by simp [withDiff, inPlace], inPlace, ?_, ?_⟩
  · intro o
    obtain ⟨added, removed⟩ := Prod.mk.inj (readAt o)
    rw [added, removed]
    exact withDiffAt_wellFormed (wf1 o)
  · apply applyDiff_eq_some_iff.2
    intro o
    obtain ⟨added, removed⟩ := Prod.mk.inj (readAt o)
    rw [added, removed]
    exact (composed o).2

theorem withDiff_applyDiff_restores_spent :
    let o : DomainOutpoint := ⟨⟨0, by decide⟩, 0⟩
    let spent : UTXOEntry := ⟨10, ⟨[], 0⟩, 0, false⟩
    let d1 : MutableUTXODiff := ⟨∅, AList.singleton o spent⟩
    let d2 : MutableUTXODiff := ⟨AList.singleton o spent, ∅⟩
    ∃ d, withDiff d1 d2 = .ok d ∧ withDiffInPlace d1 d2 = (d, none) ∧ d.WellFormed ∧
      applyDiff (AList.singleton o spent).toFinmap d = some (AList.singleton o spent).toFinmap :=
  @withDiff_applyDiff _ ∅ _ _ _ ((coherent_map_toFinmap_iff [_, _]).mpr (by decide)) (by decide)
    (by decide) (by decide) (by decide)

/-- An entry removed and then added back with the same DAA score but other contents: the
    composition cancels the two, and the set keeps the old entry. -/
theorem withDiff_loses_readded_entry :
    let o : DomainOutpoint := ⟨⟨0, by decide⟩, 0⟩
    let spent : UTXOEntry := ⟨10, ⟨[], 0⟩, 0, false⟩
    let readded : UTXOEntry := ⟨20, ⟨[], 0⟩, 0, false⟩
    let d1 : MutableUTXODiff := ⟨∅, AList.singleton o spent⟩
    let d2 : MutableUTXODiff := ⟨AList.singleton o readded, ∅⟩
    d1.WellFormed ∧ d2.WellFormed ∧
      applyDiff (AList.singleton o spent).toFinmap d1 = some ∅ ∧
      applyDiff ∅ d2 = some (AList.singleton o readded).toFinmap ∧
      withDiff d1 d2 = .ok ⟨∅, ∅⟩ ∧
      applyDiff (AList.singleton o spent).toFinmap ⟨∅, ∅⟩ ≠
        some (AList.singleton o readded).toFinmap :=
  ⟨by decide, by decide, by decide, by decide, by decide,
    by decide⟩

end

/-! ## Inverse laws -/

section
variable {set mid result : UTXOSet} {d1 d2 : MutableUTXODiff}

theorem diffFrom_withDiff
    (coherent : Coherent ([d1.toAdd, d1.toRemove, d2.toAdd, d2.toRemove].map AList.toFinmap))
    (wf1 : d1.WellFormed) (wf2 : d2.WellFormed)
    (first : applyDiff set d1 = some mid) (second : applyDiff set d2 = some result) :
    ∃ d, diffFrom d1 d2 = .ok d ∧ ∃ d', withDiff d1 d = .ok d' ∧ d'.Equiv d2 := by
  have firstAt := applyDiff_eq_some_iff.1 first
  have secondAt := applyDiff_eq_some_iff.1 second
  have perKey := fun o => diffFromAt_withDiffAt (coherent.lookup (by simp) (by simp) o)
    (coherent.lookup (by simp) (by simp) o) (wf1 o) (wf2 o) (firstAt o) (secondAt o)
  obtain ⟨d, ok⟩ := diffFrom_ok (fun o => (perKey o).1) (fun o => (perKey o).2.1)
  have readAt := diffFrom_at ok
  have passes : (withDiffInPlace d1 d).2 = none := by
    refine withDiffInPlace_checks.2 fun o => ?_
    obtain ⟨added, removed⟩ := Prod.mk.inj (readAt o)
    simp only [at4, added, removed]
    exact (perKey o).2.2.1
  let d' := (withDiffInPlace d1 d).1
  have inPlace : withDiffInPlace d1 d = (d', none) := Prod.ext rfl passes
  refine ⟨d, ok, d', by simp [withDiff, inPlace], MutableUTXODiff.equiv_of_lookup fun o => ?_⟩
  obtain ⟨added, removed⟩ := Prod.mk.inj (readAt o)
  rw [withDiffInPlace_at inPlace o]
  simp only [at4, added, removed]
  exact (perKey o).2.2.2

theorem withDiff_diffFrom
    (coherent : Coherent ([d1.toAdd, d1.toRemove, d2.toAdd, d2.toRemove].map AList.toFinmap))
    (wf1 : d1.WellFormed) (wf2 : d2.WellFormed)
    (first : applyDiff set d1 = some mid) (second : applyDiff mid d2 = some result) :
    ∃ d, withDiff d1 d2 = .ok d ∧ ∃ d', diffFrom d1 d = .ok d' ∧ d'.Equiv d2 := by
  have firstAt := applyDiff_eq_some_iff.1 first
  have secondAt := applyDiff_eq_some_iff.1 second
  have perKey := fun o => withDiffAt_diffFromAt (coherent.lookup (by simp) (by simp) o)
    (coherent.lookup (by simp) (by simp) o) (wf1 o) (wf2 o) (firstAt o) (secondAt o)
  have passes : (withDiffInPlace d1 d2).2 = none :=
    withDiffInPlace_checks.2 fun o => withDiffFailsAt_eq_false (firstAt o) (secondAt o)
  let d := (withDiffInPlace d1 d2).1
  have inPlace : withDiffInPlace d1 d2 = (d, none) := Prod.ext rfl passes
  have readAt := withDiffInPlace_at inPlace
  have fine : ∀ o, at4 diffFromFailsAt d1 d o = false ∧ at4 baseMismatchAt d1 d o = false := by
    intro o
    obtain ⟨added, removed⟩ := Prod.mk.inj (readAt o)
    simp only [at4, added, removed]
    exact ⟨(perKey o).1, (perKey o).2.1⟩
  obtain ⟨d', ok⟩ := diffFrom_ok (fun o => (fine o).1) (fun o => (fine o).2)
  refine ⟨d, by simp [withDiff, inPlace], d', ok, MutableUTXODiff.equiv_of_lookup fun o => ?_⟩
  obtain ⟨added, removed⟩ := Prod.mk.inj (readAt o)
  rw [diffFrom_at ok o]
  simp only [at4, added, removed]
  exact (perKey o).2.2

/-- **`diffFrom` and `withDiff` are inverse** on well-formed diffs whose entries are
    coherent: on two diffs from one set, and on a diff applied after another. -/
theorem diffFrom_withDiff_inverse
    (coherent : Coherent ([d1.toAdd, d1.toRemove, d2.toAdd, d2.toRemove].map AList.toFinmap))
    (wf1 : d1.WellFormed) (wf2 : d2.WellFormed) :
    (∀ set mid result : UTXOSet, applyDiff set d1 = some mid → applyDiff set d2 = some result →
      ∃ d, diffFrom d1 d2 = .ok d ∧ ∃ d', withDiff d1 d = .ok d' ∧ d'.Equiv d2) ∧
    (∀ set mid result : UTXOSet, applyDiff set d1 = some mid → applyDiff mid d2 = some result →
      ∃ d, withDiff d1 d2 = .ok d ∧ ∃ d', diffFrom d1 d = .ok d' ∧ d'.Equiv d2) :=
  ⟨fun _ _ _ first second => diffFrom_withDiff coherent wf1 wf2 first second,
    fun _ _ _ first second => withDiff_diffFrom coherent wf1 wf2 first second⟩

theorem diffFrom_withDiff_inverse_spend :
    let o : DomainOutpoint := ⟨⟨0, by decide⟩, 0⟩
    let created : UTXOEntry := ⟨10, ⟨[], 0⟩, 0, false⟩
    let d1 : MutableUTXODiff := ⟨AList.singleton o created, ∅⟩
    let d2 : MutableUTXODiff := ⟨∅, AList.singleton o created⟩
    (∀ set mid result : UTXOSet, applyDiff set d1 = some mid → applyDiff set d2 = some result →
      ∃ d, diffFrom d1 d2 = .ok d ∧ ∃ d', withDiff d1 d = .ok d' ∧ d'.Equiv d2) ∧
    (∀ set mid result : UTXOSet, applyDiff set d1 = some mid → applyDiff mid d2 = some result →
      ∃ d, withDiff d1 d2 = .ok d ∧ ∃ d', diffFrom d1 d = .ok d' ∧ d'.Equiv d2) :=
  diffFrom_withDiff_inverse ((coherent_map_toFinmap_iff [_, _, _, _]).mpr (by decide))
    (by decide) (by decide)

/-- Three pairs of well-formed diffs. A diff that adds an entry, followed by one that removes
    the outpoint at another DAA score: `withDiff` composes them, and `diffFrom` rejects the
    composition. Two diffs that add different entries of one DAA score: `diffFrom` finds
    nothing between them. Two diffs whose bases differ at two outpoints: the base check of
    `diffFrom` passes, and `withDiff` rejects its result. -/
theorem diffFrom_withDiff_not_inverse :
    let o : DomainOutpoint := ⟨⟨0, by decide⟩, 0⟩
    let o' : DomainOutpoint := ⟨⟨0, by decide⟩, 1⟩
    let created : UTXOEntry := ⟨10, ⟨[], 0⟩, 0, false⟩
    let spent : UTXOEntry := ⟨10, ⟨[], 0⟩, 1, false⟩
    let other : UTXOEntry := ⟨20, ⟨[], 0⟩, 0, false⟩
    let y : UTXOEntry := ⟨30, ⟨[], 0⟩, 1, false⟩
    (let d1 : MutableUTXODiff := ⟨AList.singleton o created, ∅⟩
      let d2 : MutableUTXODiff := ⟨∅, AList.singleton o spent⟩
      d1.WellFormed ∧ d2.WellFormed ∧
        withDiff d1 d2 = .ok ⟨AList.singleton o created, AList.singleton o spent⟩ ∧
        diffFrom d1 ⟨AList.singleton o created, AList.singleton o spent⟩ =
          .error .fromBaseMismatch) ∧
    (let d1 : MutableUTXODiff := ⟨AList.singleton o created, ∅⟩
      let d2 : MutableUTXODiff := ⟨AList.singleton o other, ∅⟩
      d1.WellFormed ∧ d2.WellFormed ∧ diffFrom d1 d2 = .ok ⟨∅, ∅⟩ ∧
        withDiff d1 ⟨∅, ∅⟩ = .ok d1 ∧ ¬d1.Equiv d2) ∧
    (let d1 : MutableUTXODiff := ⟨(AList.singleton o spent).insert o' y, AList.singleton o other⟩
      let d2 : MutableUTXODiff := ⟨(AList.singleton o spent).insert o' y, AList.singleton o' created⟩
      d1.WellFormed ∧ d2.WellFormed ∧
        diffFrom d1 d2 = .ok ⟨AList.singleton o other, AList.singleton o' created⟩ ∧
        withDiff d1 ⟨AList.singleton o other, AList.singleton o' created⟩ =
          .error (.withAddedTwice o)) :=
  ⟨⟨by decide, by decide, by decide, by decide⟩,
    ⟨by decide, by decide, by decide, by decide, by decide⟩,
    ⟨by decide, by decide, by decide, by decide⟩⟩

end

end Utxo
