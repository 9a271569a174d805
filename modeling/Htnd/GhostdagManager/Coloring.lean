import Htnd.GhostdagManager.MergeSet
import Htnd.Lib.KeyedFold

/-!
The two walks down the selected chain of the coloring, described as relations and proved to be
what the code computes. `blueAnticoneSize` answers with the entry of the first chain block
whose blue anticone sizes hold the block (`FirstKey`); `checkBlueCandidate` examines the
merge-set blues of the chain blocks above the first one that is an ancestor of the candidate,
those blues not ancestors of the candidate themselves (`ChainWalk`), and its answer is fixed by
how many they are and whether one of them has K blues in its anticone.
-/
namespace Ghostdag
open Dag Utxo GoSemantics

inductive FirstKey (dataOf : DomainHash → Option BlockGHOSTDAGData) (b : DomainHash) :
    BlockGHOSTDAGData → Nat → Prop
  | found {d : BlockGHOSTDAGData} {v : Nat} :
    d.bluesAnticoneSizes.lookup b = some v → FirstKey dataOf b d v
  | selectedChain {d spData : BlockGHOSTDAGData} {sp : DomainHash} {v : Nat} :
    d.bluesAnticoneSizes.lookup b = none → d.selectedParent = some sp → dataOf sp = some spData →
      FirstKey dataOf b spData v → FirstKey dataOf b d v

inductive ChainWalk (gm : GhostdagManager) (blueCandidate : DomainHash) :
    GhostdagManager.ChainBlockData → Nat → List DomainHash → Prop
  | ancestor {chainBlock : GhostdagManager.ChainBlockData} :
    chainBlock.hash.any (gm.isAncestorOf · blueCandidate) = true → ChainWalk gm blueCandidate chainBlock 0 []
  | next {chainBlock : GhostdagManager.ChainBlockData} {depth : Nat} {rest : List DomainHash}
      {sp : DomainHash} {spData : BlockGHOSTDAGData} :
    chainBlock.hash.any (gm.isAncestorOf · blueCandidate) = false →
      chainBlock.blockData.selectedParent = some sp → gm.dataOf sp = some spData →
      ChainWalk gm blueCandidate ⟨some sp, spData⟩ depth rest →
      ChainWalk gm blueCandidate chainBlock (depth + 1)
        (chainBlock.blockData.mergeSetBlues.filter (fun b => !gm.isAncestorOf b blueCandidate) ++ rest)

def gatheredSizes (size : DomainHash → Nat) (examined : List DomainHash) :
    AList fun _ : DomainHash => Nat :=
  examined.foldl (fun sizes b => sizes.insert b (size b)) ∅

structure Entry (gm : GhostdagManager) (blockHash : DomainHash) (data : BlockGHOSTDAGData) :
    Prop where
  blues_mem : ∀ b ∈ data.mergeSetBlues, (data.bluesAnticoneSizes.lookup b).isSome
  sizes_le : ∀ b v, data.bluesAnticoneSizes.lookup b = some v → v ≤ gm.k.toNat
  selectedParent_mem : ∀ sp, data.selectedParent = some sp → sp ∈ gm.parents blockHash
  selectedParent_isSome : data.selectedParent.isSome ↔ blockHash ≠ gm.genesisHash
  genesis_blues : blockHash = gm.genesisHash → data.mergeSetBlues = []

structure Done (gm : GhostdagManager) (done : List DomainHash) : Prop where
  acyclic : Acyclic gm.parents
  closed : ∀ x ∈ done, ∀ p ∈ gm.parents x, p ∈ done
  nodup : done.Nodup
  isAncestorOf_iff : ∀ a ∈ done, ∀ b ∈ done, a ≠ b →
    (gm.isAncestorOf a b = true ↔ PastOrSelf gm.parents a b)
  genesis_ancestor : ∀ x ∈ done, PastOrSelf gm.parents gm.genesisHash x
  genesis_mem : gm.genesisHash ∈ done
  virtualGenesis_not_mem : virtualGenesisBlockHash ∉ done
  stored : ∀ x ∈ done, ∃ d, gm.dataOf x = some d ∧ Entry gm x d

variable {gm : GhostdagManager} {done : List DomainHash}

theorem Entry.not_inBlueSet_genesis {d : BlockGHOSTDAGData} (entry : Entry gm gm.genesisHash d)
    {b : DomainHash} : ¬ InBlueSet gm.dataOf d b := by
  intro blue
  rcases inBlueSet_iff.1 blue with mem | ⟨sp, _, selected, _⟩
  · rw [entry.genesis_blues rfl] at mem
    exact List.not_mem_nil mem
  · have := entry.selectedParent_isSome.mp (by simp [selected])
    exact this rfl

theorem Done.data_eq {x : DomainHash} {d : BlockGHOSTDAGData} (done' : Done gm done) (mem : x ∈ done)
    (found : gm.dataOf x = some d) : Entry gm x d := by
  obtain ⟨d', found', entry⟩ := done'.stored x mem
  rw [found, Option.some.injEq] at found'
  exact found' ▸ entry

theorem Done.pastOrSelf_of_isAncestorOf (done' : Done gm done) {a b : DomainHash} (aMem : a ∈ done)
    (bMem : b ∈ done) (ancestor : gm.isAncestorOf a b = true) : PastOrSelf gm.parents a b := by
  by_cases same : a = b
  · rw [same]
    exact PastOrSelf.refl b
  · exact (done'.isAncestorOf_iff a aMem b bMem same).mp ancestor

theorem Done.chainWalk (done' : Done gm done) {c : DomainHash} (cMem : c ∈ done)
    (cNotGenesis : c ≠ gm.genesisHash) {x : DomainHash} (xMem : x ∈ done) {d : BlockGHOSTDAGData} (found : gm.dataOf x = some d) :
    ∃ depth examined, ChainWalk gm c ⟨some x, d⟩ depth examined ∧
      depth ≤ pastCard gm.parents done.toFinset x := by
  -- down the selected chain the past shrinks, and the walk stops at the genesis at the latest
  induction h : pastCard gm.parents done.toFinset x using Nat.strongRecOn generalizing x d with
  | ind m ih =>
    cases ancestor : gm.isAncestorOf x c
    · have entry := done'.data_eq xMem found
      have notGenesis : x ≠ gm.genesisHash := by
        rintro rfl
        have := (done'.isAncestorOf_iff _ done'.genesis_mem _ cMem cNotGenesis.symm).mpr
          (done'.genesis_ancestor c cMem)
        rw [ancestor] at this
        exact Bool.false_ne_true this
      obtain ⟨sp, selected⟩ := Option.isSome_iff_exists.mp (entry.selectedParent_isSome.mpr notGenesis)
      have spParent := entry.selectedParent_mem sp selected
      have spMem := done'.closed x xMem sp spParent
      obtain ⟨spData, spFound, _⟩ := done'.stored sp spMem
      have smaller := pastCard_lt done'.acyclic (List.mem_toFinset.mpr spMem) (past_of_mem_parents spParent)
      obtain ⟨depth, examined, walk, bounded⟩ := ih _ (h ▸ smaller) spMem spFound rfl
      exact ⟨depth + 1, _, .next (by simp [ancestor]) selected spFound walk, by omega⟩
    · exact ⟨0, [], .ancestor (by simp [ancestor]), Nat.zero_le _⟩

theorem Done.chainWalk_newBlock (done' : Done gm done) {c sp : DomainHash} (cMem : c ∈ done)
    (cNotGenesis : c ≠ gm.genesisHash) {newBlockData : BlockGHOSTDAGData} (selected : newBlockData.selectedParent = some sp)
    (spMem : sp ∈ done) :
    ∃ depth examined, ChainWalk gm c ⟨none, newBlockData⟩ depth examined ∧ depth ≤ done.length := by
  obtain ⟨spData, spFound, _⟩ := done'.stored sp spMem
  obtain ⟨depth, examined, walk, bounded⟩ := done'.chainWalk cMem cNotGenesis spMem spFound
  have := (pastCard_lt_card done'.acyclic (List.mem_toFinset.mpr spMem)).trans_le
    (List.toFinset_card_le done)
  exact ⟨depth + 1, _, .next rfl selected spFound walk, by omega⟩

theorem ChainWalk.inBlueSet {c : DomainHash} {chainBlock : GhostdagManager.ChainBlockData}
    {depth : Nat} {examined : List DomainHash} (walk : ChainWalk gm c chainBlock depth examined) :
    ∀ b ∈ examined, InBlueSet gm.dataOf chainBlock.blockData b ∧ gm.isAncestorOf b c = false := by
  induction walk with
  | ancestor => simp
  | next _ selected spFound _ ih =>
    intro b mem
    rcases List.mem_append.mp mem with mem | mem
    · obtain ⟨blue, notAncestor⟩ := List.mem_filter.mp mem
      exact ⟨.mergeSetBlue blue, by simpa using notAncestor⟩
    · obtain ⟨blue, notAncestor⟩ := ih b mem
      exact ⟨.selectedChain selected spFound blue, notAncestor⟩

theorem FirstKey.le_k (done' : Done gm done) {b : DomainHash} {d : BlockGHOSTDAGData} {v : Nat}
    (first : FirstKey gm.dataOf b d v) {x : DomainHash} (entry : Entry gm x d)
    (parentsDone : ∀ p ∈ gm.parents x, p ∈ done) : v ≤ gm.k.toNat := by
  induction first generalizing x with
  | found found => exact entry.sizes_le b _ found
  | selectedChain _ selected spFound _ ih =>
    have spMem := parentsDone _ (entry.selectedParent_mem _ selected)
    exact ih (done'.data_eq spMem spFound) (done'.closed _ spMem)

theorem lookup_coloredSizes (examined : List DomainHash) (size : DomainHash → Nat)
    (sizes : AList fun _ : DomainHash => Nat) (blueCandidate : DomainHash) (count : Nat)
    (y : DomainHash) :
    ((gatheredSizes size examined).entries.foldl
        (fun sizes blue => sizes.insert blue.1 (blue.2 + 1)) (sizes.insert blueCandidate count)).lookup y =
      if y ∈ examined then some (size y + 1)
      else if y = blueCandidate then some count else sizes.lookup y := by
  rw [KeyedFold.lookup_foldl_insert_map (· + 1) (AList.nodupKeys _)]
  change (((gatheredSizes size examined).lookup y).map _).or _ = _
  rw [gatheredSizes, KeyedFold.lookup_foldl_insert_keys]
  by_cases mem : y ∈ examined
  · simp [mem]
  · by_cases same : y = blueCandidate
    · subst same
      simp [mem]
    · simp [mem, same, AList.lookup_insert_ne same]

namespace GhostdagManager

theorem blueAnticoneSizeStep_found {block : DomainHash} {current : BlockGHOSTDAGData}
    {isTrustedData : Bool} {v : Nat} (found : current.bluesAnticoneSizes.lookup block = some v) :
    gm.blueAnticoneSizeStep block (current, isTrustedData) = pure (.inr v) := by
  simp [blueAnticoneSizeStep, found]

theorem blueAnticoneSizeStep_below {block sp : DomainHash} {current spData : BlockGHOSTDAGData}
    (missing : current.bluesAnticoneSizes.lookup block = none)
    (selected : current.selectedParent = some sp) (notGenesis : sp ≠ gm.genesisHash)
    (spFound : gm.dataOf sp = some spData)
    (notVirtual : spData.selectedParent ≠ some virtualGenesisBlockHash) :
    gm.blueAnticoneSizeStep block (current, false) = pure (.inl (spData, false)) := by
  simp [blueAnticoneSizeStep, missing, selected, notGenesis, selectedParentOf,
    getGHOSTDAGData_of_found spFound, notVirtual]

theorem blueAnticoneSize_eq (done' : Done gm done) {fuel : Nat} (enough : done.length < fuel)
    {x b : DomainHash} {d : BlockGHOSTDAGData} (entry : Entry gm x d)
    (parentsDone : ∀ p ∈ gm.parents x, p ∈ done) (blue : InBlueSet gm.dataOf d b) :
    ∃ v, gm.blueAnticoneSize fuel b d = pure v ∧ FirstKey gm.dataOf b d v := by
  -- the walk is at the data of a block whose past, among the blocks done, is below the fuel left
  let P : Nat → BlockGHOSTDAGData × Bool → Prop := fun n state =>
    state.2 = false ∧ InBlueSet gm.dataOf state.1 b ∧
      (∀ v, FirstKey gm.dataOf b state.1 v → FirstKey gm.dataOf b d v) ∧
      ∃ y, Entry gm y state.1 ∧ (∀ p ∈ gm.parents y, p ∈ done) ∧
        pastCard gm.parents done.toFinset y < n
  have start : P fuel (d, false) := by
    refine ⟨rfl, blue, fun _ first => first, x, entry, parentsDone, ?_⟩
    have := (@pastCard_le _ gm.parents done.toFinset x).trans (List.toFinset_card_le done)
    omega
  have step : ∀ n state, P (n + 1) state →
      (∃ v, (gm.blueAnticoneSizeStep b state).run = some (.ok (.inr v)) ∧ FirstKey gm.dataOf b d v) ∨
      ∃ state', (gm.blueAnticoneSizeStep b state).run = some (.ok (.inl state')) ∧ P n state' := by
    intro n ⟨current, isTrustedData⟩ ⟨trusted, blue, lift, y, entry, parentsDone, below⟩
    simp only at trusted blue lift entry
    subst trusted
    cases found : current.bluesAnticoneSizes.lookup b with
    | some v =>
      left
      refine ⟨v, ?_, lift v (.found found)⟩
      rw [blueAnticoneSizeStep_found found]
      rfl
    | none =>
      right
      have notBlue : b ∉ current.mergeSetBlues := fun mem => by
        simpa [found] using entry.blues_mem b mem
      obtain ⟨sp, spData, selected, spFound, spBlue⟩ := (inBlueSet_iff.1 blue).resolve_left notBlue
      have spParent := entry.selectedParent_mem sp selected
      have spMem : sp ∈ done := parentsDone sp spParent
      have spEntry := done'.data_eq spMem spFound
      have notGenesis : sp ≠ gm.genesisHash := by
        rintro rfl
        exact spEntry.not_inBlueSet_genesis spBlue
      have notVirtual : spData.selectedParent ≠ some virtualGenesisBlockHash := fun selected' =>
        done'.virtualGenesis_not_mem (done'.closed sp spMem _ (spEntry.selectedParent_mem _ selected'))
      refine ⟨(spData, false), ?_, rfl, spBlue,
        fun v first => lift v (.selectedChain found selected spFound first), sp, spEntry,
        done'.closed sp spMem, ?_⟩
      · rw [blueAnticoneSizeStep_below found selected notGenesis spFound notVirtual]
        rfl
      · have := pastCard_lt done'.acyclic (List.mem_toFinset.mpr spMem) (past_of_mem_parents spParent)
        omega

  obtain ⟨v, walked, first⟩ := loop_eq_ok_of_bound P (FirstKey gm.dataOf b d)
    (fun _ ⟨_, _, _, _, _, _, below⟩ => Nat.not_lt_zero _ below) step fuel (d, false) start
  refine ⟨v, ?_, first⟩
  unfold blueAnticoneSize
  rw [walked]
  rfl

section CheckBlueCandidate

variable {fuel : Nat} {newBlockData : BlockGHOSTDAGData} {blueCandidate : DomainHash}
  {size : DomainHash → Nat}

theorem checkBlueCandidateWithBlues_eq (blocks : List DomainHash)
    (sizes : ∀ b ∈ blocks, gm.isAncestorOf b blueCandidate = false →
      gm.blueAnticoneSize fuel b newBlockData = pure (size b) ∧ size b ≤ gm.k.toNat)
    (candidateBluesAnticoneSizes : AList fun _ : DomainHash => Nat) {candidateAnticoneSize : Nat}
    (withinK : candidateAnticoneSize ≤ gm.k.toNat) :
    ∃ isRed rest, gm.checkBlueCandidateWithBlues fuel newBlockData blueCandidate blocks
        candidateBluesAnticoneSizes candidateAnticoneSize = pure (isRed, rest) ∧
      (isRed = true ↔
        gm.k.toNat < candidateAnticoneSize + (blocks.filter fun b => !gm.isAncestorOf b blueCandidate).length ∨
          ∃ b ∈ blocks.filter (fun b => !gm.isAncestorOf b blueCandidate), size b = gm.k.toNat) ∧
      (isRed = false → rest =
        ((blocks.filter fun b => !gm.isAncestorOf b blueCandidate).foldl
          (fun sizes b => sizes.insert b (size b)) candidateBluesAnticoneSizes,
          candidateAnticoneSize + (blocks.filter fun b => !gm.isAncestorOf b blueCandidate).length)) := by
  induction blocks generalizing candidateBluesAnticoneSizes candidateAnticoneSize with
  | nil =>
    refine ⟨false, _, rfl, ?_, fun _ => rfl⟩
    simp only [List.filter_nil, List.length_nil, Nat.add_zero, List.not_mem_nil, false_and,
      exists_false, or_false, Bool.false_eq_true, false_iff]
    omega
  | cons b blocks ih =>
    have sizes' : ∀ b ∈ blocks, gm.isAncestorOf b blueCandidate = false →
        gm.blueAnticoneSize fuel b newBlockData = pure (size b) ∧ size b ≤ gm.k.toNat :=
      fun b' mem => sizes b' (List.mem_cons_of_mem b mem)
    unfold checkBlueCandidateWithBlues
    cases ancestor : gm.isAncestorOf b blueCandidate
    · -- examined: the size is read, entered and checked against K
      obtain ⟨read, bounded⟩ := sizes b List.mem_cons_self ancestor
      have examined : (b :: blocks).filter (fun b => !gm.isAncestorOf b blueCandidate) =
          b :: blocks.filter (fun b => !gm.isAncestorOf b blueCandidate) := by
        simp [ancestor]
      rw [examined, if_neg Bool.false_ne_true, read, pure_bind]
      simp only [List.length_cons, List.mem_cons, exists_eq_or_imp, List.foldl_cons]
      split_ifs with passed atK aboveK
      · exact ⟨true, _, rfl, by simp only [true_iff]; omega, nofun⟩
      · exact ⟨true, _, rfl, by simp [atK], nofun⟩
      · omega
      · obtain ⟨isRed, rest, checked, red, entered⟩ :=
          ih sizes' (candidateBluesAnticoneSizes.insert b (size b)) (Nat.not_lt.mp passed)
        refine ⟨isRed, rest, checked, ?_, fun notRed => ?_⟩
        · rw [red]
          constructor
          · rintro (passed | found)
            · left
              omega
            · exact Or.inr (Or.inr found)
          · rintro (passed | (atK' | found))
            · left
              omega
            · exact absurd atK' atK
            · exact Or.inr found
        · rw [entered notRed, Nat.add_assoc, Nat.add_comm 1]
    · have skipped : (b :: blocks).filter (fun b => !gm.isAncestorOf b blueCandidate) =
          blocks.filter (fun b => !gm.isAncestorOf b blueCandidate) := by
        simp [ancestor]
      rw [skipped, if_pos rfl]
      exact ih sizes' candidateBluesAnticoneSizes withinK

theorem checkBlueCandidateWithChainBlock_ancestor {chainBlock : ChainBlockData}
    {candidateBluesAnticoneSizes : AList fun _ : DomainHash => Nat} {candidateAnticoneSize : Nat}
    (ancestor : chainBlock.hash.any (gm.isAncestorOf · blueCandidate) = true) :
    gm.checkBlueCandidateWithChainBlock fuel newBlockData chainBlock blueCandidate
        candidateBluesAnticoneSizes candidateAnticoneSize =
      pure (true, false, candidateBluesAnticoneSizes, candidateAnticoneSize) := by
  unfold checkBlueCandidateWithChainBlock
  rw [if_pos ancestor]

theorem checkBlueCandidateWithChainBlock_blues {chainBlock : ChainBlockData}
    {candidateBluesAnticoneSizes : AList fun _ : DomainHash => Nat} {candidateAnticoneSize : Nat}
    {isRed : Bool} {rest : (AList fun _ : DomainHash => Nat) × Nat}
    (notAncestor : chainBlock.hash.any (gm.isAncestorOf · blueCandidate) = false)
    (checked : gm.checkBlueCandidateWithBlues fuel newBlockData blueCandidate
        chainBlock.blockData.mergeSetBlues candidateBluesAnticoneSizes candidateAnticoneSize =
      pure (isRed, rest)) :
    gm.checkBlueCandidateWithChainBlock fuel newBlockData chainBlock blueCandidate
        candidateBluesAnticoneSizes candidateAnticoneSize = pure (false, isRed, rest) := by
  unfold checkBlueCandidateWithChainBlock
  rw [if_neg (by simp [notAncestor]), checked, pure_bind]

theorem checkBlueCandidate_eq {depth : Nat} {examined : List DomainHash}
    (walk : ChainWalk gm blueCandidate ⟨none, newBlockData⟩ depth examined) (enough : depth < fuel)
    (sizes : ∀ b ∈ examined,
      gm.blueAnticoneSize fuel b newBlockData = pure (size b) ∧ size b ≤ gm.k.toNat) :
    gm.checkBlueCandidate fuel newBlockData blueCandidate =
      pure (if newBlockData.mergeSetBlues.length = gm.k.toNat + 1 ∨ gm.k.toNat < examined.length ∨
          ∃ b ∈ examined, size b = gm.k.toNat then (false, 0, ∅)
        else (true, examined.length, gatheredSizes size examined)) := by
  unfold checkBlueCandidate
  by_cases full : newBlockData.mergeSetBlues.length = gm.k.toNat + 1
  · rw [if_pos full, if_pos (Or.inl full)]
  rw [if_neg full]
  -- the blues examined so far are entered and none turned the candidate red; the rest of the
  -- walk lies ahead of the chain block
  let P : Nat → CheckBlueCandidateLoop → Prop := fun n s =>
    ∃ processed rest depth, examined = processed ++ rest ∧
      ChainWalk gm blueCandidate s.chainBlock depth rest ∧ depth < n ∧
      s.candidateAnticoneSize = processed.length ∧ processed.length ≤ gm.k.toNat ∧
      (∀ b ∈ processed, size b ≠ gm.k.toNat) ∧
      s.candidateBluesAnticoneSizes = gatheredSizes size processed
  let result := if newBlockData.mergeSetBlues.length = gm.k.toNat + 1 ∨ gm.k.toNat < examined.length ∨
      ∃ b ∈ examined, size b = gm.k.toNat then ((false, 0, ∅) : Bool × Nat × (AList fun _ : DomainHash => Nat))
    else (true, examined.length, gatheredSizes size examined)
  have step : ∀ n s, P (n + 1) s →
      (∃ r, (gm.checkBlueCandidateStep fuel newBlockData blueCandidate s).run = some (.ok (.inr r)) ∧
        r = result) ∨
      ∃ s', (gm.checkBlueCandidateStep fuel newBlockData blueCandidate s).run =
        some (.ok (.inl s')) ∧ P n s' := by
    intro n ⟨chainBlock, candidateBluesAnticoneSizes, candidateAnticoneSize⟩
      ⟨processed, rest, depth, split, walk, below, counted, withinK, notAtK, entered⟩
    simp only at walk counted entered
    subst counted entered
    cases walk with
    | ancestor ancestor =>
      left
      refine ⟨_, by simp [checkBlueCandidateStep, checkBlueCandidateWithChainBlock_ancestor ancestor]; rfl, ?_⟩
      rw [List.append_nil] at split
      have notRed : ¬ (gm.k.toNat < examined.length ∨ ∃ b ∈ examined, size b = gm.k.toNat) := by
        rw [split]
        rintro (passed | ⟨b, mem, atK⟩)
        · omega
        · exact notAtK b mem atK
      simp only [result, full, false_or]
      rw [if_neg notRed, split]
    | @next _ depth' rest' sp spData notAncestor selected spFound walk' =>
      have blueSizes : ∀ b ∈ chainBlock.blockData.mergeSetBlues,
          gm.isAncestorOf b blueCandidate = false →
          gm.blueAnticoneSize fuel b newBlockData = pure (size b) ∧ size b ≤ gm.k.toNat := by
        intro b mem ancestor
        exact sizes b (by rw [split]; simp [mem, ancestor])
      obtain ⟨isRed, blueRest, checked, red, entered⟩ :=
        checkBlueCandidateWithBlues_eq chainBlock.blockData.mergeSetBlues blueSizes
          (gatheredSizes size processed) withinK
      have chained := checkBlueCandidateWithChainBlock_blues notAncestor checked
      cases isRed
      · right
        obtain rfl := entered rfl
        refine ⟨⟨⟨some sp, spData⟩,
          (chainBlock.blockData.mergeSetBlues.filter fun b => !gm.isAncestorOf b blueCandidate).foldl
            (fun sizes b => sizes.insert b (size b)) (gatheredSizes size processed),
          processed.length +
            (chainBlock.blockData.mergeSetBlues.filter fun b => !gm.isAncestorOf b blueCandidate).length⟩,
          ?_, ?_⟩
        · simp [checkBlueCandidateStep, chained, selectedParentOf, selected,
            getGHOSTDAGData_of_found spFound]
        · have notRed := mt red.mpr Bool.false_ne_true
          refine ⟨processed ++ chainBlock.blockData.mergeSetBlues.filter
              (fun b => !gm.isAncestorOf b blueCandidate), rest', depth', by rw [split]; simp,
            walk', by omega, by simp, by simp only [List.length_append]; omega, ?_, by
              rw [gatheredSizes, gatheredSizes, List.foldl_append]⟩
          intro b mem
          rcases List.mem_append.mp mem with mem | mem
          · exact notAtK b mem
          · exact fun atK => notRed (Or.inr ⟨b, mem, atK⟩)
      · left
        refine ⟨_, by simp [checkBlueCandidateStep, chained]; rfl, ?_⟩
        have passed := red.mp rfl
        simp only [result]
        rw [if_pos]
        right
        rcases passed with passed | ⟨b, mem, atK⟩
        · left
          rw [split]
          simp only [List.length_append, List.length_append] at passed ⊢
          omega
        · right
          exact ⟨b, by rw [split]; simp [mem], atK⟩
  obtain ⟨r, looped, isResult⟩ := loop_eq_ok_of_bound P (· = result)
    (fun _ ⟨_, _, _, _, _, below, _⟩ => Nat.not_lt_zero _ below) step fuel
    ⟨⟨none, newBlockData⟩, ∅, 0⟩ ⟨[], examined, depth, rfl, walk, enough, rfl, Nat.zero_le _,
      nofun, rfl⟩
  rw [looped, isResult]
  rfl

theorem colorCandidate_eq {red : Prop} [Decidable red] {examined : List DomainHash}
    (checked : gm.checkBlueCandidate fuel newBlockData blueCandidate =
      pure (if red then (false, 0, ∅) else (true, examined.length, gatheredSizes size examined))) :
    gm.colorCandidate fuel newBlockData blueCandidate =
      pure (if red then { newBlockData with mergeSetReds := newBlockData.mergeSetReds ++ [blueCandidate] }
        else { newBlockData with
          mergeSetBlues := newBlockData.mergeSetBlues ++ [blueCandidate]
          bluesAnticoneSizes := (gatheredSizes size examined).entries.foldl
            (fun sizes blue => sizes.insert blue.1 (blue.2 + 1))
            (newBlockData.bluesAnticoneSizes.insert blueCandidate examined.length) }) := by
  unfold colorCandidate
  rw [checked, pure_bind]
  split_ifs <;> rfl

end CheckBlueCandidate

end GhostdagManager

end Ghostdag
