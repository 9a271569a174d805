import Htnd.ConsensusStateManager.RestorePastUTXO
import Htnd.GhostdagManager.Ghostdag

/-!
`ReverseUTXODiffs` (reverse_utxo_diffs.go). Resolving a chain of blocks leaves each block but
the tip with its selected parent as diff child. Once the tip is resolved the chain below it is
reversed: the tip's selected parent takes the diff the reversal data carries, against the tip,
and each block further down takes the reversed old diff of the block above it, against that
block. The walk stops after the first block whose old diff child was not its selected parent.
Each write is committed at once, and reads see the commits.

`reverseAlong` is what the loop commits, as a recursion over the blocks it walks. It keeps a
store consistent with the blocks' UTXO sets, since a diff that applies is undone by its reversal
(`applyDiff_reversed`); and every block with a path of diff children before has one after, so
`restorePastUTXO` restores the same sets.
-/
namespace ConsensusStateManager
open GoSemantics Utxo Ghostdag

structure UTXODiffReversalData where
  selectedParentHash : DomainHash
  selectedParentUTXODiff : MutableUTXODiff

structure ReversalLoop where
  previousBlock : DomainHash
  previousBlockGHOSTDAGData : BlockGHOSTDAGData
  previousUTXODiff : MutableUTXODiff
  uds : UTXODiffStore

variable (ghostdagDataStore : DomainHash → Option BlockGHOSTDAGData)

def reverseUTXODiffsStep (s : ReversalLoop) :
    Option (Except (ConsensusStateManagerError × UTXODiffStore) (ReversalLoop ⊕ UTXODiffStore)) :=
  match s.previousBlockGHOSTDAGData.selectedParent with
  -- the store is read through the nil selected parent of genesis
  | none => some (.error (.panic .nilPointerDereference, s.uds))
  | some currentBlock =>
    match s.uds.utxoDiffChild currentBlock with
    | none => some (.error (.notFound currentBlock, s.uds))
    | some currentBlockUTXODiffChild =>
      match ghostdagDataStore currentBlock with
      | none => some (.error (.notFound currentBlock, s.uds))
      | some currentBlockGHOSTDAGData =>
        let currentUTXODiff := s.previousUTXODiff.reversed
        match s.uds.utxoDiff currentBlock with
        | none => some (.error (.notFound currentBlock, s.uds))
        | some previousUTXODiff =>
          let uds := s.uds.stage currentBlock currentUTXODiff s.previousBlock
          if currentBlockGHOSTDAGData.selectedParent ≠ some currentBlockUTXODiffChild then
            some (.ok (.inr uds))
          else
            some (.ok (.inl ⟨currentBlock, currentBlockGHOSTDAGData, previousUTXODiff, uds⟩))

def reverseUTXODiffs (uds : UTXODiffStore) (fuel : Nat) (tipHash : DomainHash)
    (reversalData : UTXODiffReversalData) :
    Option (Except (ConsensusStateManagerError × UTXODiffStore) UTXODiffStore) :=
  let previousBlock := reversalData.selectedParentHash
  match uds.utxoDiff previousBlock with
  | none => some (.error (.notFound previousBlock, uds))
  | some previousUTXODiff =>
    let uds := uds.stage previousBlock reversalData.selectedParentUTXODiff tipHash
    match ghostdagDataStore previousBlock with
    | none => some (.error (.notFound previousBlock, uds))
    | some previousBlockGHOSTDAGData =>
      loop (reverseUTXODiffsStep ghostdagDataStore) fuel
        ⟨previousBlock, previousBlockGHOSTDAGData, previousUTXODiff, uds⟩

/-! ## What the loop commits -/

def reverseAlong (uds : UTXODiffStore) (previous : DomainHash)
    (previousUTXODiff : MutableUTXODiff) : List DomainHash → UTXODiffStore
  | [] => uds
  | b :: rest =>
    reverseAlong (uds.stage b previousUTXODiff.reversed previous) b ((uds.utxoDiff b).getD ⟨∅, ∅⟩)
      rest

inductive ReversalChain (uds : UTXODiffStore) : List DomainHash → Prop
  | last {b : DomainHash} {g : BlockGHOSTDAGData} {c : DomainHash} :
      ghostdagDataStore b = some g → (uds.utxoDiff b).isSome → uds.utxoDiffChild b = some c →
      g.selectedParent ≠ some c → ReversalChain uds [b]
  | link {b : DomainHash} {g : BlockGHOSTDAGData} {c : DomainHash} {rest : List DomainHash} :
      ghostdagDataStore b = some g → (uds.utxoDiff b).isSome → uds.utxoDiffChild b = some c →
      g.selectedParent = some c → ReversalChain uds (c :: rest) → ReversalChain uds (b :: c :: rest)

variable {ghostdagDataStore} {uds : UTXODiffStore}

theorem unwritten_stage {U : UTXODiffStore} {b p : DomainHash} {d : MutableUTXODiff}
    {l : List DomainHash} (fresh : b ∉ l)
    (unwritten : ∀ x ∈ b :: l, U.utxoDiff x = uds.utxoDiff x ∧
      U.utxoDiffChild x = uds.utxoDiffChild x) :
    ∀ x ∈ l, (U.stage b d p).utxoDiff x = uds.utxoDiff x ∧
      (U.stage b d p).utxoDiffChild x = uds.utxoDiffChild x := by
  intro x mem
  have other : x ≠ b := fun same => fresh (same ▸ mem)
  simpa [other] using unwritten x (List.mem_cons_of_mem _ mem)

theorem loop_reverseUTXODiffsStep {l : List DomainHash}
    (chain : ReversalChain ghostdagDataStore uds l) (distinct : l.Nodup) :
    ∀ (U : UTXODiffStore) (p : DomainHash) (g : BlockGHOSTDAGData) (dd : MutableUTXODiff)
      (fuel : Nat), g.selectedParent = l.head? →
      (∀ x ∈ l, U.utxoDiff x = uds.utxoDiff x ∧ U.utxoDiffChild x = uds.utxoDiffChild x) →
      l.length ≤ fuel →
      loop (reverseUTXODiffsStep ghostdagDataStore) fuel ⟨p, g, dd, U⟩ =
        some (.ok (reverseAlong U p dd l)) := by
  induction chain with
  | @last b gb c found stored linked differs =>
    intro U p g dd fuel parent unwritten enough
    obtain ⟨db, storedAt⟩ := Option.isSome_iff_exists.1 stored
    obtain ⟨sameDiff, sameChild⟩ := unwritten b (by simp)
    obtain ⟨fuel, rfl⟩ : ∃ n, fuel = n + 1 := Nat.exists_eq_add_one.2 (by simp at enough; omega)
    simp [loop, reverseUTXODiffsStep, reverseAlong, parent, sameChild, sameDiff, storedAt,
      linked, found, differs]
  | @link b gb c rest found stored linked parentIsChild _ ih =>
    intro U p g dd fuel parent unwritten enough
    obtain ⟨db, storedAt⟩ := Option.isSome_iff_exists.1 stored
    obtain ⟨sameDiff, sameChild⟩ := unwritten b (by simp)
    obtain ⟨fuel, rfl⟩ : ∃ n, fuel = n + 1 := Nat.exists_eq_add_one.2 (by simp at enough; omega)
    have continues : reverseUTXODiffsStep ghostdagDataStore ⟨p, g, dd, U⟩ =
        some (.ok (.inl ⟨b, gb, db, U.stage b dd.reversed p⟩)) := by
      simp [reverseUTXODiffsStep, parent, sameChild, sameDiff, storedAt, linked, found,
        parentIsChild]
    rw [loop_succ_of_continue continues]
    rw [ih (List.nodup_cons.1 distinct).2 _ b gb db fuel (by simp [parentIsChild])
      (unwritten_stage (List.nodup_cons.1 distinct).1 unwritten) (by simpa using enough)]
    simp [reverseAlong, sameDiff, storedAt]

theorem reverseAlong_frame {x : DomainHash} : ∀ (l : List DomainHash) (U : UTXODiffStore)
    (p : DomainHash) (dd : MutableUTXODiff), x ∉ l →
    (reverseAlong U p dd l).utxoDiff x = U.utxoDiff x ∧
      (reverseAlong U p dd l).utxoDiffChild x = U.utxoDiffChild x
  | [], _, _, _, _ => ⟨rfl, rfl⟩
  | b :: rest, U, p, dd, absent => by
    have other : x ≠ b := fun same => absent (same ▸ List.mem_cons_self)
    obtain ⟨sameDiff, sameChild⟩ := reverseAlong_frame rest (U.stage b dd.reversed p) b
      ((U.utxoDiff b).getD ⟨∅, ∅⟩) (fun mem => absent (List.mem_cons_of_mem _ mem))
    simp only [reverseAlong, sameDiff, sameChild]
    simp [other]

theorem reverseAlong_links : ∀ (l : List DomainHash) (U : UTXODiffStore) (p : DomainHash)
    (dd : MutableUTXODiff), l.Nodup →
    (p :: l).IsChain fun a b => (reverseAlong U p dd l).utxoDiffChild b = some a ∧
      ((reverseAlong U p dd l).utxoDiff b).isSome
  | [], _, p, _, _ => List.isChain_singleton p
  | b :: rest, U, p, dd, distinct => by
    obtain ⟨sameDiff, sameChild⟩ := reverseAlong_frame rest (U.stage b dd.reversed p) b
      ((U.utxoDiff b).getD ⟨∅, ∅⟩) (List.nodup_cons.1 distinct).1
    refine List.IsChain.cons_cons ⟨?_, ?_⟩
      (reverseAlong_links rest _ b _ (List.nodup_cons.1 distinct).2)
    · simp only [reverseAlong, sameChild]
      simp
    · simp only [reverseAlong, sameDiff]
      simp

theorem reverseAlong_diff {l : List DomainHash} (chain : ReversalChain ghostdagDataStore uds l)
    (distinct : l.Nodup) :
    ∀ (U : UTXODiffStore) (p : DomainHash) (dd : MutableUTXODiff),
      (∀ x ∈ l, U.utxoDiff x = uds.utxoDiff x ∧ U.utxoDiffChild x = uds.utxoDiffChild x) →
      ∀ x d', (reverseAlong U p dd l).utxoDiff x = some d' →
        U.utxoDiff x = some d' ∨ d' = dd.reversed ∨ ∃ a da, uds.utxoDiff a = some da ∧ d' = da.reversed := by
  have written : ∀ (U : UTXODiffStore) (p b : DomainHash) (dd : MutableUTXODiff) (x : DomainHash)
      (d' : MutableUTXODiff), (U.stage b dd.reversed p).utxoDiff x = some d' →
      U.utxoDiff x = some d' ∨ d' = dd.reversed := by
    intro U p b dd x d' found
    by_cases here : x = b
    · simp only [UTXODiffStore.stage_utxoDiff, here, if_true, Option.some.injEq] at found
      exact .inr found.symm
    · simp only [UTXODiffStore.stage_utxoDiff, here, if_false] at found
      exact .inl found
  induction chain with
  | @last b gb c _ _ _ _ =>
    intro U p dd _ x d' found
    exact (written U p b dd x d' found).imp_right .inl
  | @link b gb c rest _ stored _ _ _ ih =>
    intro U p dd unwritten x d' found
    obtain ⟨db, storedAt⟩ := Option.isSome_iff_exists.1 stored
    obtain ⟨sameDiff, -⟩ := unwritten b (by simp)
    simp only [reverseAlong, sameDiff, storedAt, Option.getD_some] at found
    rcases ih (List.nodup_cons.1 distinct).2 _ b db
        (unwritten_stage (List.nodup_cons.1 distinct).1 unwritten) x d' found with
      before | rfl | older
    · exact (written U p b dd x d' before).imp_right .inl
    · exact .inr (.inr ⟨b, db, storedAt, rfl⟩)
    · exact .inr (.inr older)

section
variable {virtualUTXOSet : UTXOSet} {utxo : DomainHash → UTXOSet}

theorem reverseAlong_consistent {l : List DomainHash} (chain : ReversalChain ghostdagDataStore uds l)
    (distinct : l.Nodup) :
    l.IsChain (fun b c => ∀ db, uds.utxoDiff b = some db → Coherent [utxo c, db.toRemove.toFinmap]) →
    ∀ (U : UTXODiffStore) (p : DomainHash) (dd : MutableUTXODiff),
      U.Consistent virtualUTXOSet utxo →
      (∀ x ∈ l, U.utxoDiff x = uds.utxoDiff x ∧ U.utxoDiffChild x = uds.utxoDiffChild x) →
      (∀ c ∈ l.head?, applyDiff (utxo c) dd = some (utxo p) ∧ Coherent [utxo c, dd.toRemove.toFinmap]) →
      (reverseAlong U p dd l).Consistent virtualUTXOSet utxo := by
  -- one write keeps the store consistent: the reversed diff undoes the one it reverses
  have written : ∀ (U : UTXODiffStore) (p b : DomainHash) (dd : MutableUTXODiff),
      U.Consistent virtualUTXOSet utxo → applyDiff (utxo b) dd = some (utxo p) →
      Coherent [utxo b, dd.toRemove.toFinmap] →
      (U.stage b dd.reversed p).Consistent virtualUTXOSet utxo := by
    intro U p b dd consistent applied coherent x dx found
    by_cases here : x = b
    · subst here
      simp only [UTXODiffStore.stage_utxoDiff, if_true, Option.some.injEq] at found
      subst found
      simpa [UTXODiffStore.base] using applyDiff_reversed applied coherent
    · simp only [UTXODiffStore.stage_utxoDiff, here, if_false] at found
      simpa [UTXODiffStore.base, here] using consistent x dx found
  induction chain with
  | @last b gb c _ _ _ _ =>
    intro _ U p dd consistent _ against
    obtain ⟨applied, coherent⟩ := against b rfl
    exact written U p b dd consistent applied coherent
  | @link b gb c rest _ stored linked _ _ ih =>
    intro removals U p dd consistent unwritten against
    obtain ⟨removalsB, removalsRest⟩ := List.isChain_cons_cons.1 removals
    obtain ⟨db, storedAt⟩ := Option.isSome_iff_exists.1 stored
    obtain ⟨sameDiff, sameChild⟩ := unwritten b (by simp)
    obtain ⟨applied, coherent⟩ := against b rfl
    have appliedB : applyDiff (utxo c) db = some (utxo b) := by
      simpa [UTXODiffStore.base, sameChild, linked] using
        consistent b db (sameDiff.trans storedAt)
    have next := ih (List.nodup_cons.1 distinct).2 removalsRest (U.stage b dd.reversed p) b db
      (written U p b dd consistent applied coherent)
      (unwritten_stage (List.nodup_cons.1 distinct).1 unwritten)
      (fun c' mem => by
        obtain rfl : c = c' := Option.some.inj mem
        exact ⟨appliedB, removalsB db storedAt⟩)
    simpa only [reverseAlong, sameDiff, storedAt, Option.getD_some] using next

end

theorem diffPath_reversed {uds' : UTXODiffStore} {tip : DomainHash} {blocks : List DomainHash}
    (frame : ∀ x ∉ blocks, uds'.utxoDiff x = uds.utxoDiff x ∧
      uds'.utxoDiffChild x = uds.utxoDiffChild x)
    (links : (tip :: blocks).IsChain fun a b => uds'.utxoDiffChild b = some a ∧
      (uds'.utxoDiff b).isSome)
    {tipDiff : MutableUTXODiff} {tipRest : List (DomainHash × MutableUTXODiff)}
    (tipWalk : DiffPath uds ((tip, tipDiff) :: tipRest))
    (apart : ∀ q ∈ (tip, tipDiff) :: tipRest, q.1 ∉ blocks)
    {path : List (DomainHash × MutableUTXODiff)} (walked : DiffPath uds path) :
    ∀ x d rest, path = (x, d) :: rest → ∃ d' rest', DiffPath uds' ((x, d') :: rest') := by
  have tipWalk' : DiffPath uds' ((tip, tipDiff) :: tipRest) :=
    tipWalk.transfer fun q mem => frame q.1 (apart q mem)
  have onChain := DiffPath.extend blocks tip tipDiff tipRest links tipWalk'
  induction walked with
  | @last x d stored noChild =>
    rintro _ _ _ ⟨⟩
    by_cases mem : x ∈ blocks
    · exact onChain x mem
    · obtain ⟨sameDiff, sameChild⟩ := frame x mem
      exact ⟨d, [], .last (sameDiff.trans stored) (sameChild.trans noChild)⟩
  | @child x d next rest stored linked _ ih =>
    rintro _ _ _ ⟨⟩
    by_cases mem : x ∈ blocks
    · exact onChain x mem
    · obtain ⟨sameDiff, sameChild⟩ := frame x mem
      obtain ⟨d', rest', walked'⟩ := ih next.1 next.2 rest rfl
      exact ⟨d, _, @DiffPath.child uds' x d (next.1, d') rest' (sameDiff.trans stored)
        (sameChild.trans linked) walked'⟩

theorem reverseUTXODiffs_eq (tipHash : DomainHash) (d : MutableUTXODiff) {b1 b2 : DomainHash}
    {rest : List DomainHash} (chain : ReversalChain ghostdagDataStore uds (b1 :: b2 :: rest))
    (distinct : (b1 :: b2 :: rest).Nodup) {fuel : Nat} (enough : rest.length + 1 ≤ fuel) :
    ∃ old1, uds.utxoDiff b1 = some old1 ∧
      reverseUTXODiffs ghostdagDataStore uds fuel tipHash ⟨b1, d⟩ =
        some (.ok (reverseAlong (uds.stage b1 d tipHash) b1 old1 (b2 :: rest))) := by
  cases chain with
  | link found stored _ parentIsChild chain' =>
    obtain ⟨old1, storedAt⟩ := Option.isSome_iff_exists.1 stored
    refine ⟨old1, storedAt, ?_⟩
    simp only [reverseUTXODiffs, storedAt, found]
    exact loop_reverseUTXODiffsStep chain' (List.nodup_cons.1 distinct).2 _ b1 _ old1 fuel
      (by simp [parentIsChild]) (unwritten_stage (List.nodup_cons.1 distinct).1 fun _ _ => ⟨rfl, rfl⟩)
      (by simpa using enough)

/-! ## The store the loop leaves

What `reverseUTXODiffs_eq` returns, read against the store before: the first block takes the
reversal diff against the tip, and `reverseAlong` rewrites the rest. -/

section Reversed
variable {tipHash b1 : DomainHash} {blocks : List DomainHash} {d old1 : MutableUTXODiff}

theorem reverseAlong_stage_frame {x : DomainHash} (absent : x ∉ b1 :: blocks) :
    (reverseAlong (uds.stage b1 d tipHash) b1 old1 blocks).utxoDiff x = uds.utxoDiff x ∧
      (reverseAlong (uds.stage b1 d tipHash) b1 old1 blocks).utxoDiffChild x = uds.utxoDiffChild x := by
  have other : x ≠ b1 := fun same => absent (same ▸ List.mem_cons_self)
  obtain ⟨sameDiff, sameChild⟩ := reverseAlong_frame blocks (uds.stage b1 d tipHash) b1 old1
    (fun mem => absent (List.mem_cons_of_mem _ mem))
  simp [sameDiff, sameChild, other]

theorem reverseAlong_stage_links (distinct : (b1 :: blocks).Nodup) :
    (tipHash :: b1 :: blocks).IsChain fun a b =>
      (reverseAlong (uds.stage b1 d tipHash) b1 old1 blocks).utxoDiffChild b = some a ∧
        ((reverseAlong (uds.stage b1 d tipHash) b1 old1 blocks).utxoDiff b).isSome := by
  obtain ⟨firstDiff, firstChild⟩ := reverseAlong_frame blocks (uds.stage b1 d tipHash) b1 old1
    (List.nodup_cons.1 distinct).1
  refine List.IsChain.cons_cons ⟨?_, ?_⟩
    (reverseAlong_links blocks _ b1 old1 (List.nodup_cons.1 distinct).2)
  · simp [firstChild]
  · simp [firstDiff]

variable {virtualUTXOSet : UTXOSet} {utxo : DomainHash → UTXOSet} {b2 : DomainHash}
  {rest : List DomainHash}

/-- The store stays consistent: the first write takes the tip's set to the first block's, and
    each later one reverses a diff whose removals agree with the set it is applied to. -/
theorem reverseAlong_stage_consistent (chain : ReversalChain ghostdagDataStore uds (b1 :: b2 :: rest))
    (distinct : (b1 :: b2 :: rest).Nodup) (storedB1 : uds.utxoDiff b1 = some old1)
    (consistent : uds.Consistent virtualUTXOSet utxo)
    (reversal : applyDiff (utxo tipHash) d = some (utxo b1))
    (removals : (b1 :: b2 :: rest).IsChain fun b c =>
      ∀ db, uds.utxoDiff b = some db → Coherent [utxo c, db.toRemove.toFinmap]) :
    (reverseAlong (uds.stage b1 d tipHash) b1 old1 (b2 :: rest)).Consistent virtualUTXOSet utxo := by
  obtain ⟨linkB1, chainTail⟩ : uds.utxoDiffChild b1 = some b2 ∧
      ReversalChain ghostdagDataStore uds (b2 :: rest) := by
    cases chain with
    | link _ _ linked _ chainTail => exact ⟨linked, chainTail⟩
  obtain ⟨removalsB1, removalsTail⟩ := List.isChain_cons_cons.1 removals
  have consistent₀ : (uds.stage b1 d tipHash).Consistent virtualUTXOSet utxo := by
    intro x dx found
    by_cases here : x = b1
    · subst here
      simp only [UTXODiffStore.stage_utxoDiff, if_true, Option.some.injEq] at found
      subst found
      simpa [UTXODiffStore.base] using reversal
    · simp only [UTXODiffStore.stage_utxoDiff, here, if_false] at found
      simpa [UTXODiffStore.base, here] using consistent x dx found
  have appliedB1 : applyDiff (utxo b2) old1 = some (utxo b1) := by
    simpa [UTXODiffStore.base, linkB1] using consistent b1 old1 storedB1
  exact reverseAlong_consistent chainTail (List.nodup_cons.1 distinct).2 removalsTail _ b1 old1
    consistent₀ (unwritten_stage (List.nodup_cons.1 distinct).1 fun _ _ => ⟨rfl, rfl⟩)
    (fun c mem => by
      obtain rfl : b2 = c := Option.some.inj mem
      exact ⟨appliedB1, removalsB1 old1 storedB1⟩)

/-- Every diff of the new store composes with the virtual's set: an old one, the reversal diff,
    or a reversed old one. -/
theorem reverseAlong_stage_composable (chain : ReversalChain ghostdagDataStore uds (b1 :: b2 :: rest))
    (distinct : (b1 :: b2 :: rest).Nodup) (storedB1 : uds.utxoDiff b1 = some old1)
    (reversal : applyDiff (utxo tipHash) d = some (utxo b1)) (wf : uds.WellFormed)
    (wfReversal : d.WellFormed) (agree : uds.EntriesAgree virtualUTXOSet utxo) :
    (reverseAlong (uds.stage b1 d tipHash) b1 old1 (b2 :: rest)).Composable virtualUTXOSet := by
  have chainTail : ReversalChain ghostdagDataStore uds (b2 :: rest) := by
    cases chain with
    | link _ _ _ _ chainTail => exact chainTail
  have composable := UTXODiffStore.composable_of_entriesAgree wf agree
  intro x dx found
  rcases reverseAlong_diff chainTail (List.nodup_cons.1 distinct).2 _ b1 old1
      (unwritten_stage (List.nodup_cons.1 distinct).1 fun _ _ => ⟨rfl, rfl⟩) x dx found with
    before | rfl | ⟨a, da, storedA, rfl⟩
  · by_cases here : x = b1
    · simp only [here, UTXODiffStore.stage_utxoDiff, if_true, Option.some.injEq] at before
      subst before
      refine ⟨wfReversal, agree.coherent fun s mem o y atS => ?_⟩
      simp only [List.mem_cons, List.not_mem_nil, or_false] at mem
      rcases mem with rfl | rfl
      · exact .inl atS
      · rw [Finmap.lookup_toFinmap] at atS
        exact .inr (.inl ⟨b1, lookup_of_applyDiff_added reversal atS⟩)
    · simp only [here, UTXODiffStore.stage_utxoDiff, if_false] at before
      exact composable x dx before
  · exact agree.composable_reversed wf storedB1
  · exact agree.composable_reversed wf storedA

end Reversed

section
variable {virtualUTXOSet : UTXOSet} {utxo : DomainHash → UTXOSet}

end

end ConsensusStateManager
