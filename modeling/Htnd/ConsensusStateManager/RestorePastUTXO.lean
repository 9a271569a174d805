import Htnd.Utxo.DiffSemantics
import Htnd.Lib.GoSemantics

/-!
The UTXO-diff store as the consensus state manager reads it, and `restorePastUTXO`
(calculate_past_utxo.go). The store holds a block's UTXO diff and the block that diff is taken
against, its diff child; a block without a diff child has its diff taken against the virtual's
UTXO set. `restorePastUTXO` follows diff children to a block without one, collecting diffs,
and composes them from the last.

Over a choice of UTXO set for every block, a store is consistent when each diff takes its
block's set from the set it is taken against. Along a `DiffPath`, the chain of diff children
that `restorePastUTXO` walks, the composed diff then takes the virtual's set to the block's.
-/
namespace ConsensusStateManager
open GoSemantics Utxo

structure UTXODiffStore where
  utxoDiff : DomainHash → Option MutableUTXODiff
  utxoDiffChild : DomainHash → Option DomainHash

inductive ConsensusStateManagerError where
  | notFound (blockHash : DomainHash)
  | diff (err : DiffError)
  | panic (p : Panic)
  deriving DecidableEq, Repr

namespace UTXODiffStore

def stage (uds : UTXODiffStore) (blockHash : DomainHash) (utxoDiff : MutableUTXODiff)
    (utxoDiffChild : DomainHash) : UTXODiffStore :=
  ⟨Function.update uds.utxoDiff blockHash (some utxoDiff),
    Function.update uds.utxoDiffChild blockHash (some utxoDiffChild)⟩

@[simp] theorem stage_utxoDiff (uds : UTXODiffStore) (b : DomainHash) (d : MutableUTXODiff)
    (c x : DomainHash) : (uds.stage b d c).utxoDiff x = if x = b then some d else uds.utxoDiff x := by
  by_cases same : x = b
  · subst same; simp [stage]
  · simp [stage, same]

@[simp] theorem stage_utxoDiffChild (uds : UTXODiffStore) (b : DomainHash) (d : MutableUTXODiff)
    (c x : DomainHash) :
    (uds.stage b d c).utxoDiffChild x = if x = b then some c else uds.utxoDiffChild x := by
  by_cases same : x = b
  · subst same; simp [stage]
  · simp [stage, same]

end UTXODiffStore

/-! ## `restorePastUTXO` -/

structure CollectLoop where
  utxoDiffs : List MutableUTXODiff
  nextBlockHash : DomainHash

def collectUTXODiffsStep (uds : UTXODiffStore) (s : CollectLoop) :
    Option (Except ConsensusStateManagerError (CollectLoop ⊕ List MutableUTXODiff)) :=
  match uds.utxoDiff s.nextBlockHash with
  | none => some (.error (.notFound s.nextBlockHash))
  | some utxoDiff =>
    let utxoDiffs := s.utxoDiffs ++ [utxoDiff]
    match uds.utxoDiffChild s.nextBlockHash with
    -- `HasUTXODiffChild` is false: the virtual is reached
    | none => some (.ok (.inr utxoDiffs))
    | some nextBlockHash => some (.ok (.inl ⟨utxoDiffs, nextBlockHash⟩))

def accumulateUTXODiffs (utxoDiffs : List MutableUTXODiff) : Except DiffError MutableUTXODiff :=
  utxoDiffs.foldr (fun utxoDiff accumulated => accumulated.bind fun accumulatedDiff =>
    match withDiffInPlace accumulatedDiff utxoDiff with
    | (_, some err) => .error err
    | (accumulatedDiff, none) => .ok accumulatedDiff) (.ok ⟨∅, ∅⟩)

def restorePastUTXO (uds : UTXODiffStore) (fuel : Nat) (blockHash : DomainHash) :
    Option (Except ConsensusStateManagerError MutableUTXODiff) :=
  match loop (collectUTXODiffsStep uds) fuel ⟨[], blockHash⟩ with
  | none => none
  | some (.error err) => some (.error err)
  | some (.ok utxoDiffs) =>
    match accumulateUTXODiffs utxoDiffs with
    | .error err => some (.error (.diff err))
    | .ok accumulatedDiff => some (.ok accumulatedDiff)

/-! ## Paths of diff children -/

inductive DiffPath (uds : UTXODiffStore) : List (DomainHash × MutableUTXODiff) → Prop
  | last {b : DomainHash} {d : MutableUTXODiff} :
      uds.utxoDiff b = some d → uds.utxoDiffChild b = none → DiffPath uds [(b, d)]
  | child {b : DomainHash} {d : MutableUTXODiff} {next : DomainHash × MutableUTXODiff}
      {rest : List (DomainHash × MutableUTXODiff)} :
      uds.utxoDiff b = some d → uds.utxoDiffChild b = some next.1 →
      DiffPath uds (next :: rest) → DiffPath uds ((b, d) :: next :: rest)

variable {uds : UTXODiffStore}

theorem DiffPath.stored {path : List (DomainHash × MutableUTXODiff)} (walked : DiffPath uds path) :
    ∀ p ∈ path, uds.utxoDiff p.1 = some p.2 := by
  induction walked with
  | last stored _ => simpa using stored
  | child stored _ _ ih => simpa [stored] using ih

theorem DiffPath.transfer {uds' : UTXODiffStore} {path : List (DomainHash × MutableUTXODiff)}
    (walked : DiffPath uds path)
    (same : ∀ q ∈ path, uds'.utxoDiff q.1 = uds.utxoDiff q.1 ∧
      uds'.utxoDiffChild q.1 = uds.utxoDiffChild q.1) :
    DiffPath uds' path := by
  induction walked with
  | @last b d stored noChild =>
    obtain ⟨sameDiff, sameChild⟩ := same (b, d) (by simp)
    exact .last (sameDiff.trans stored) (sameChild.trans noChild)
  | @child b d next rest stored linked _ ih =>
    obtain ⟨sameDiff, sameChild⟩ := same (b, d) (by simp)
    exact .child (sameDiff.trans stored) (sameChild.trans linked)
      (ih fun q mem => same q (List.mem_cons_of_mem _ mem))

theorem DiffPath.extend : ∀ (l : List DomainHash) (p : DomainHash) (dp : MutableUTXODiff)
    (rest : List (DomainHash × MutableUTXODiff)),
    (p :: l).IsChain (fun a b => uds.utxoDiffChild b = some a ∧ (uds.utxoDiff b).isSome) →
    DiffPath uds ((p, dp) :: rest) → ∀ b ∈ l, ∃ d rest', DiffPath uds ((b, d) :: rest')
  | [], _, _, _, _, _, b, mem => absurd mem List.not_mem_nil
  | c :: l, p, dp, rest, links, walked, b, mem => by
    obtain ⟨⟨linked, stored⟩, links'⟩ := List.isChain_cons_cons.1 links
    obtain ⟨dc, storedAt⟩ := Option.isSome_iff_exists.1 stored
    have walkedC : DiffPath uds ((c, dc) :: (p, dp) :: rest) := .child storedAt linked walked
    rcases List.mem_cons.1 mem with rfl | later
    · exact ⟨dc, _, walkedC⟩
    · exact DiffPath.extend l c dc _ links' walkedC b later

theorem collect_of_diffPath {path : List (DomainHash × MutableUTXODiff)}
    (walked : DiffPath uds path) :
    ∀ b d rest, path = (b, d) :: rest → ∀ fuel, path.length ≤ fuel → ∀ acc,
      loop (collectUTXODiffsStep uds) fuel ⟨acc, b⟩ = some (.ok (acc ++ path.map Prod.snd)) := by
  induction walked with
  | last stored noChild =>
    rintro b d rest ⟨⟩ (_ | fuel) enough acc
    · simp at enough
    · simp [loop, collectUTXODiffsStep, stored, noChild]
  | @child b d next rest stored linked _ ih =>
    rintro b d rest ⟨⟩ (_ | fuel) enough acc
    · simp at enough
    · have continues : collectUTXODiffsStep uds ⟨acc, b⟩ =
          some (.ok (.inl ⟨acc ++ [d], next.1⟩)) := by
        simp [collectUTXODiffsStep, stored, linked]
      rw [loop_succ_of_continue continues, ih _ _ _ rfl fuel (by simpa using enough)]
      simp

theorem diffPath_of_collect :
    ∀ fuel acc b utxoDiffs,
      loop (collectUTXODiffsStep uds) fuel ⟨acc, b⟩ = some (.ok utxoDiffs) →
      ∃ d rest, DiffPath uds ((b, d) :: rest) ∧ utxoDiffs = acc ++ ((b, d) :: rest).map Prod.snd ∧
        ((b, d) :: rest).length ≤ fuel := by
  intro fuel
  induction fuel with
  | zero => intro acc b utxoDiffs ran; cases ran
  | succ fuel ih =>
    intro acc b utxoDiffs ran
    cases stored : uds.utxoDiff b with
    | none => simp [loop, collectUTXODiffsStep, stored] at ran
    | some d =>
      cases linked : uds.utxoDiffChild b with
      | none =>
        simp only [loop, collectUTXODiffsStep, stored, linked, Option.some.injEq,
          Except.ok.injEq] at ran
        exact ⟨d, [], .last stored linked, by simp [← ran], by simp⟩
      | some c =>
        have continues : collectUTXODiffsStep uds ⟨acc, b⟩ = some (.ok (.inl ⟨acc ++ [d], c⟩)) := by
          simp [collectUTXODiffsStep, stored, linked]
        rw [loop_succ_of_continue continues] at ran
        obtain ⟨d', rest, walked, read, short⟩ := ih _ c utxoDiffs ran
        exact ⟨d, (c, d') :: rest, .child stored linked walked, by simp [read], by
          simpa using short⟩

theorem restorePastUTXO_eq_ok {fuel : Nat} {b : DomainHash} {accumulatedDiff : MutableUTXODiff}
    (restored : restorePastUTXO uds fuel b = some (.ok accumulatedDiff)) :
    ∃ utxoDiffs, loop (collectUTXODiffsStep uds) fuel ⟨[], b⟩ = some (.ok utxoDiffs) ∧
      accumulateUTXODiffs utxoDiffs = .ok accumulatedDiff := by
  unfold restorePastUTXO at restored
  split at restored
  · cases restored
  · cases restored
  · rename_i utxoDiffs collected
    refine ⟨utxoDiffs, collected, ?_⟩
    split at restored
    · cases restored
    · cases restored
      assumption

theorem diffPath_of_restorePastUTXO {fuel : Nat} {b : DomainHash} {accumulatedDiff : MutableUTXODiff}
    (restored : restorePastUTXO uds fuel b = some (.ok accumulatedDiff)) :
    ∃ d rest, DiffPath uds ((b, d) :: rest) := by
  obtain ⟨utxoDiffs, collected, -⟩ := restorePastUTXO_eq_ok restored
  obtain ⟨d, rest, walked, -, -⟩ := diffPath_of_collect fuel [] b utxoDiffs collected
  exact ⟨d, rest, walked⟩

/-! ## What a consistent store restores -/

section
variable (virtualUTXOSet : UTXOSet) (utxo : DomainHash → UTXOSet)

def UTXODiffStore.base (uds : UTXODiffStore) (b : DomainHash) : UTXOSet :=
  match uds.utxoDiffChild b with
  | some c => utxo c
  | none => virtualUTXOSet

def UTXODiffStore.Consistent (uds : UTXODiffStore) : Prop :=
  ∀ b d, uds.utxoDiff b = some d → applyDiff (uds.base virtualUTXOSet utxo b) d = some (utxo b)

def UTXODiffStore.WellFormed (uds : UTXODiffStore) : Prop :=
  ∀ b d, uds.utxoDiff b = some d → d.WellFormed

def UTXODiffStore.Holds (uds : UTXODiffStore) (o : DomainOutpoint) (x : UTXOEntry) : Prop :=
  virtualUTXOSet.lookup o = some x ∨ (∃ b, (utxo b).lookup o = some x) ∨
    ∃ b d, uds.utxoDiff b = some d ∧ (d.toAdd.lookup o = some x ∨ d.toRemove.lookup o = some x)

def UTXODiffStore.EntriesAgree (uds : UTXODiffStore) : Prop :=
  ∀ o x y, uds.Holds virtualUTXOSet utxo o x → uds.Holds virtualUTXOSet utxo o y →
    x.blockDAAScore = y.blockDAAScore → x = y

def UTXODiffStore.Composable (uds : UTXODiffStore) : Prop :=
  ∀ b d, uds.utxoDiff b = some d → d.WellFormed ∧ Coherent [virtualUTXOSet, d.toAdd.toFinmap]

def applyAll (utxoDiffs : List MutableUTXODiff) : Option UTXOSet :=
  utxoDiffs.foldr (fun d set => set.bind (applyDiff · d)) (some virtualUTXOSet)

variable {virtualUTXOSet utxo}

theorem applyAll_of_diffPath (consistent : uds.Consistent virtualUTXOSet utxo)
    {path : List (DomainHash × MutableUTXODiff)} (walked : DiffPath uds path) :
    ∀ b d rest, path = (b, d) :: rest →
      applyAll virtualUTXOSet (path.map Prod.snd) = some (utxo b) := by
  induction walked with
  | @last b d stored noChild =>
    rintro _ _ _ ⟨⟩
    have applied := consistent b d stored
    simp only [UTXODiffStore.base, noChild] at applied
    simpa [applyAll] using applied
  | @child b d next rest stored linked _ ih =>
    rintro _ _ _ ⟨⟩
    have applied := consistent b d stored
    simp only [UTXODiffStore.base, linked] at applied
    have below := ih next.1 next.2 rest rfl
    simp only [applyAll, List.map_cons, List.foldr_cons] at below ⊢
    rw [below]
    exact applied

theorem accumulateUTXODiffs_applies :
    ∀ (utxoDiffs : List MutableUTXODiff) (result : UTXOSet),
      (∀ d ∈ utxoDiffs, d.WellFormed ∧ Coherent [virtualUTXOSet, d.toAdd.toFinmap]) →
      applyAll virtualUTXOSet utxoDiffs = some result →
      ∃ accumulatedDiff, accumulateUTXODiffs utxoDiffs = .ok accumulatedDiff ∧
        accumulatedDiff.WellFormed ∧ applyDiff virtualUTXOSet accumulatedDiff = some result
  | [], result, _, applied => by
    obtain rfl := Option.some.inj applied
    exact ⟨⟨∅, ∅⟩, rfl, (fun _ _ added => by cases added), applyDiff_empty _⟩
  | d :: utxoDiffs, result, fine, applied => by
    simp only [applyAll, List.foldr_cons] at applied
    obtain ⟨mid, below, last⟩ := Option.bind_eq_some_iff.1 applied
    obtain ⟨accumulated, accumulatedOk, wfAccumulated, appliesAccumulated⟩ :=
      accumulateUTXODiffs_applies utxoDiffs mid (fun d' mem => fine d' (by simp [mem])) below
    obtain ⟨wf, coherent⟩ := fine d (by simp)
    obtain ⟨composed, -, inPlace, wfComposed, appliesComposed⟩ :=
      withDiff_applyDiff coherent wfAccumulated wf appliesAccumulated last
    refine ⟨composed, ?_, wfComposed, appliesComposed⟩
    simp only [accumulateUTXODiffs, List.foldr_cons] at accumulatedOk ⊢
    rw [accumulatedOk]
    simp [Except.bind, inPlace]

theorem UTXODiffStore.EntriesAgree.coherent (agree : uds.EntriesAgree virtualUTXOSet utxo)
    {sets : List UTXOSet}
    (within : ∀ s ∈ sets, ∀ o x, s.lookup o = some x → uds.Holds virtualUTXOSet utxo o x) :
    Coherent sets :=
  fun o s sMem t tMem x y atS atT scores =>
    agree o x y (within s sMem o x atS) (within t tMem o y atT) scores

theorem UTXODiffStore.EntriesAgree.coherent_toRemove (agree : uds.EntriesAgree virtualUTXOSet utxo)
    {a : DomainHash} {da : MutableUTXODiff} (stored : uds.utxoDiff a = some da) (c : DomainHash) :
    Coherent [utxo c, da.toRemove.toFinmap] := by
  refine agree.coherent fun s mem o x found => ?_
  simp only [List.mem_cons, List.not_mem_nil, or_false] at mem
  rcases mem with rfl | rfl
  · exact .inr (.inl ⟨c, found⟩)
  · exact .inr (.inr ⟨a, da, stored, .inr (by rwa [Finmap.lookup_toFinmap] at found)⟩)

theorem UTXODiffStore.composable_of_entriesAgree (wf : uds.WellFormed)
    (agree : uds.EntriesAgree virtualUTXOSet utxo) : uds.Composable virtualUTXOSet := by
  intro b d found
  refine ⟨wf b d found, agree.coherent fun s mem o x atS => ?_⟩
  simp only [List.mem_cons, List.not_mem_nil, or_false] at mem
  rcases mem with rfl | rfl
  · exact .inl atS
  · exact .inr (.inr ⟨b, d, found, .inl (by rwa [Finmap.lookup_toFinmap] at atS)⟩)

theorem UTXODiffStore.EntriesAgree.composable_reversed (wf : uds.WellFormed)
    (agree : uds.EntriesAgree virtualUTXOSet utxo) {a : DomainHash} {da : MutableUTXODiff}
    (stored : uds.utxoDiff a = some da) :
    da.reversed.WellFormed ∧ Coherent [virtualUTXOSet, da.reversed.toAdd.toFinmap] := by
  refine ⟨MutableUTXODiff.wellFormed_reversed (wf a da stored), agree.coherent fun s mem o x atS => ?_⟩
  simp only [List.mem_cons, List.not_mem_nil, or_false] at mem
  rcases mem with rfl | rfl
  · exact .inl atS
  · exact .inr (.inr ⟨a, da, stored, .inr (by rwa [Finmap.lookup_toFinmap] at atS)⟩)

theorem DiffPath.composable (composable : uds.Composable virtualUTXOSet)
    {path : List (DomainHash × MutableUTXODiff)} (walked : DiffPath uds path) :
    ∀ d ∈ path.map Prod.snd, d.WellFormed ∧ Coherent [virtualUTXOSet, d.toAdd.toFinmap] := by
  intro d mem
  obtain ⟨p, onPath, rfl⟩ := List.mem_map.1 mem
  exact composable p.1 p.2 (walked.stored p onPath)

theorem restorePastUTXO_applies (consistent : uds.Consistent virtualUTXOSet utxo)
    (composable : uds.Composable virtualUTXOSet) {fuel : Nat}
    {b : DomainHash} {accumulatedDiff : MutableUTXODiff}
    (restored : restorePastUTXO uds fuel b = some (.ok accumulatedDiff)) :
    applyDiff virtualUTXOSet accumulatedDiff = some (utxo b) := by
  obtain ⟨utxoDiffs, collected, accumulates⟩ := restorePastUTXO_eq_ok restored
  obtain ⟨d, rest, walked, read, -⟩ := diffPath_of_collect fuel [] b utxoDiffs collected
  rw [List.nil_append] at read
  subst read
  obtain ⟨accumulated, ok, -, applies⟩ := accumulateUTXODiffs_applies _ _
    (walked.composable composable) (applyAll_of_diffPath consistent walked b d rest rfl)
  rw [ok, Except.ok.injEq] at accumulates
  rw [← accumulates]
  exact applies

theorem restorePastUTXO_of_diffPath (consistent : uds.Consistent virtualUTXOSet utxo)
    (composable : uds.Composable virtualUTXOSet) {b : DomainHash}
    {d : MutableUTXODiff} {rest : List (DomainHash × MutableUTXODiff)}
    (walked : DiffPath uds ((b, d) :: rest)) :
    ∃ accumulatedDiff, restorePastUTXO uds (rest.length + 1) b = some (.ok accumulatedDiff) ∧
      applyDiff virtualUTXOSet accumulatedDiff = some (utxo b) := by
  have collected := collect_of_diffPath walked b d rest rfl (rest.length + 1) (by simp) []
  obtain ⟨accumulated, ok, -, applies⟩ := accumulateUTXODiffs_applies _ _
    (walked.composable composable) (applyAll_of_diffPath consistent walked b d rest rfl)
  refine ⟨accumulated, ?_, applies⟩
  rw [List.nil_append] at collected
  rw [restorePastUTXO, collected]
  simp only [ok]

end

end ConsensusStateManager
