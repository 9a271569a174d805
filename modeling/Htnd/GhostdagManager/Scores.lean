import Mathlib
import Htnd.GhostdagManager.Coloring

/-!
GHOSTDAG run over a DAG that block validation lets through, the blocks in an order that lists
each after its parents: no call fails or runs out of fuel, and each block's data has the
selected parent that `Less` ranks highest among its parents, a merge set that is exactly the
past of the block outside the past of the selected parent, at most K + 1 merge-set blues, a
blue score that counts its blue set, and a blue work that adds the work of its merge-set blues.
-/
namespace Ghostdag
open Dag Utxo GoSemantics

def GhostdagManager.work (gm : GhostdagManager) (blockHash : DomainHash) : Nat :=
  match gm.headerStore blockHash with
  | some header => calcWork header.bits
  | none => 0

namespace GhostdagManager
variable {gm : GhostdagManager}

@[simp] theorem stage_parents (blockHash : DomainHash) (data : BlockGHOSTDAGData) :
    (gm.stage blockHash data).parents = gm.parents := rfl

@[simp] theorem stage_isAncestorOf (blockHash : DomainHash) (data : BlockGHOSTDAGData) :
    (gm.stage blockHash data).isAncestorOf = gm.isAncestorOf := rfl

@[simp] theorem stage_headerStore (blockHash : DomainHash) (data : BlockGHOSTDAGData) :
    (gm.stage blockHash data).headerStore = gm.headerStore := rfl

@[simp] theorem stage_k (blockHash : DomainHash) (data : BlockGHOSTDAGData) :
    (gm.stage blockHash data).k = gm.k := rfl

@[simp] theorem stage_genesisHash (blockHash : DomainHash) (data : BlockGHOSTDAGData) :
    (gm.stage blockHash data).genesisHash = gm.genesisHash := rfl

theorem dataOf_stage (blockHash : DomainHash) (data : BlockGHOSTDAGData) (x : DomainHash) :
    (gm.stage blockHash data).dataOf x = if x = blockHash then some data else gm.dataOf x := by
  simp [dataOf, stage]

theorem foldlM_addBlueWork (blues : List DomainHash)
    (headers : ∀ b ∈ blues, b ≠ virtualGenesisBlockHash ∧ (gm.headerStore b).isSome)
    (blueWork : Nat) : blues.foldlM gm.addBlueWork blueWork = pure (blueWork + (blues.map gm.work).sum) := by
  induction blues generalizing blueWork with
  | nil => simp
  | cons b blues ih =>
    obtain ⟨notVirtual, hasHeader⟩ := headers b List.mem_cons_self
    obtain ⟨header, found⟩ := Option.isSome_iff_exists.mp hasHeader
    have added : gm.addBlueWork blueWork b = pure (blueWork + gm.work b) := by
      simp [addBlueWork, notVirtual, found, work]
    rw [List.foldlM_cons, added, pure_bind, ih fun b' mem => headers b' (List.mem_cons_of_mem b mem)]
    simp [Nat.add_assoc]

end GhostdagManager

variable {gm : GhostdagManager} {done : List DomainHash}

theorem Done.inBlueSet_congr (done' : Done gm done)
    {dataOf' : DomainHash → Option BlockGHOSTDAGData} (agree : ∀ x ∈ done, dataOf' x = gm.dataOf x)
    {d : BlockGHOSTDAGData} (chain : ∀ sp, d.selectedParent = some sp → sp ∈ done) {y : DomainHash} :
    InBlueSet dataOf' d y ↔ InBlueSet gm.dataOf d y := by
  have spChain : ∀ sp spData, sp ∈ done → gm.dataOf sp = some spData →
      ∀ sp', spData.selectedParent = some sp' → sp' ∈ done := fun sp spData spMem spFound sp' selected =>
    done'.closed sp spMem sp' ((done'.data_eq spMem spFound).selectedParent_mem sp' selected)
  constructor
  · intro blue
    induction blue with
    | mergeSetBlue mem => exact .mergeSetBlue mem
    | @selectedChain d spData sp b selected spFound _ ih =>
      have spMem := chain sp selected
      rw [agree sp spMem] at spFound
      exact .selectedChain selected spFound (ih (spChain sp spData spMem spFound))
  · intro blue
    induction blue with
    | mergeSetBlue mem => exact .mergeSetBlue mem
    | @selectedChain d spData sp b selected spFound _ ih =>
      have spMem := chain sp selected
      have spFound' : dataOf' sp = some spData := by rw [agree sp spMem]; exact spFound
      exact .selectedChain selected spFound' (ih (spChain sp spData spMem spFound))

theorem Done.blueSet_congr (done' : Done gm done)
    {dataOf' : DomainHash → Option BlockGHOSTDAGData} (agree : ∀ x ∈ done, dataOf' x = gm.dataOf x)
    {d : BlockGHOSTDAGData} (chain : ∀ sp, d.selectedParent = some sp → sp ∈ done)
    (blocks : Finset DomainHash) : blueSet blocks dataOf' d = blueSet blocks gm.dataOf d := by
  ext y
  rw [mem_blueSet, mem_blueSet, done'.inBlueSet_congr agree chain]

theorem card_blueSet {dataOf : DomainHash → Option BlockGHOSTDAGData} {d spData : BlockGHOSTDAGData}
    {sp : DomainHash} (selected : d.selectedParent = some sp) (spFound : dataOf sp = some spData)
    (blocks : Finset DomainHash) (nodup : d.mergeSetBlues.Nodup)
    (inBlocks : ∀ b ∈ d.mergeSetBlues, b ∈ blocks)
    (apart : ∀ b ∈ d.mergeSetBlues, ¬ InBlueSet dataOf spData b) :
    (blueSet blocks dataOf d).card = d.mergeSetBlues.length + (blueSet blocks dataOf spData).card := by
  have split : blueSet blocks dataOf d = d.mergeSetBlues.toFinset ∪ blueSet blocks dataOf spData := by
    ext y
    simp only [Finset.mem_union, List.mem_toFinset, mem_blueSet, inBlueSet_iff (d := d)]
    constructor
    · rintro ⟨inBlocks', mem | ⟨sp', spData', selected', spFound', blue⟩⟩
      · exact Or.inl mem
      · rw [selected, Option.some.injEq] at selected'
        subst selected'
        rw [spFound, Option.some.injEq] at spFound'
        subst spFound'
        exact Or.inr ⟨inBlocks', blue⟩
    · rintro (mem | ⟨inBlocks', blue⟩)
      · exact ⟨inBlocks y mem, Or.inl mem⟩
      · exact ⟨inBlocks', Or.inr ⟨sp, spData, selected, spFound, blue⟩⟩
  rw [split, Finset.card_union_of_disjoint, List.toFinset_card_of_nodup nodup]
  rw [Finset.disjoint_left]
  intro b mem blue
  exact apart b (List.mem_toFinset.mp mem) (mem_blueSet.1 blue).2

structure Scored (gm : GhostdagManager) (blocks : Finset DomainHash) (blockHash : DomainHash)
    (data : BlockGHOSTDAGData) : Prop where
  inBlueSet_past : ∀ y, InBlueSet gm.dataOf data y → Past gm.parents y blockHash
  blueScore_eq_card : data.blueScore.toNat = (blueSet blocks gm.dataOf data).card

structure MergeSetScores (gm : GhostdagManager) (blockHash sp : DomainHash)
    (data spData : BlockGHOSTDAGData) : Prop where
  selectedParent_eq : data.selectedParent = some sp
  spData_eq : gm.dataOf sp = some spData
  selectedAmong : SelectedAmong gm.dataOf sp (gm.parents blockHash)
  head_eq : data.mergeSetBlues.head? = some sp
  nodup : (data.mergeSetBlues ++ data.mergeSetReds).Nodup
  mem_iff : ∀ x, x ∈ data.mergeSetBlues ++ data.mergeSetReds ↔
    x = sp ∨ Past gm.parents x blockHash ∧ ¬ PastOrSelf gm.parents x sp
  length_le : data.mergeSetBlues.length ≤ gm.k.toNat + 1
  blueScore_eq : data.blueScore.toNat = spData.blueScore.toNat + data.mergeSetBlues.length
  blueWork_eq : data.blueWork = spData.blueWork +
    ((data.mergeSetBlues.filter (· ≠ virtualGenesisBlockHash)).map gm.work).sum

structure BlockContext (gm : GhostdagManager) (done : List DomainHash) (blocks : Finset DomainHash)
    (blockHash : DomainHash) : Prop where
  fresh : blockHash ∉ done
  parents_mem : ∀ p ∈ gm.parents blockHash, p ∈ done
  parents_ne_nil : gm.parents blockHash ≠ []
  parents_nodup : (gm.parents blockHash).Nodup
  antichain : Antichain gm.parents (gm.parents blockHash)
  header : ∀ x ∈ done, (gm.headerStore x).isSome
  done_subset : ∀ x ∈ done, x ∈ blocks
  small : blocks.card < 2 ^ 64

theorem toNat_add_toUInt64 {a : UInt64} {n : Nat} (fits : a.toNat + n < 2 ^ 64) :
    (a + n.toUInt64).toNat = a.toNat + n := by
  rw [UInt64.toNat_add, Nat.toUInt64_eq, UInt64.toNat_ofNat',
    Nat.mod_eq_of_lt (show n < 2 ^ 64 by omega), Nat.mod_eq_of_lt fits]

theorem Entry.stage {x blockHash : DomainHash} {d data : BlockGHOSTDAGData} (entry : Entry gm x d) :
    Entry (gm.stage blockHash data) x d :=
  ⟨entry.blues_mem, entry.sizes_le, entry.selectedParent_mem, entry.selectedParent_isSome,
    entry.genesis_blues⟩

namespace GhostdagManager

section Coloring

variable {fuel : Nat} {blockHash sp : DomainHash}

theorem colorCandidate_entry (done' : Done gm done) (enough : done.length < fuel)
    (parentsDone : ∀ p ∈ gm.parents blockHash, p ∈ done) (spMem : sp ∈ done)
    {newBlockData : BlockGHOSTDAGData} (entry : Entry gm blockHash newBlockData)
    (selected : newBlockData.selectedParent = some sp)
    (bounded : newBlockData.mergeSetBlues.length ≤ gm.k.toNat + 1) {blueCandidate : DomainHash}
    (candidateMem : blueCandidate ∈ done) (notGenesis : blueCandidate ≠ gm.genesisHash) :
    ∃ colored, gm.colorCandidate fuel newBlockData blueCandidate = pure colored ∧
      Entry gm blockHash colored ∧ colored.selectedParent = some sp ∧
      colored.mergeSetBlues.length ≤ gm.k.toNat + 1 ∧
      ((colored.mergeSetBlues = newBlockData.mergeSetBlues ++ [blueCandidate] ∧
          colored.mergeSetReds = newBlockData.mergeSetReds) ∨
        (colored.mergeSetBlues = newBlockData.mergeSetBlues ∧
          colored.mergeSetReds = newBlockData.mergeSetReds ++ [blueCandidate])) := by
  obtain ⟨depth, examined, walk, shallow⟩ :=
    done'.chainWalk_newBlock candidateMem notGenesis selected spMem
  have exists_size : ∀ b, ∃ v, b ∈ examined →
      gm.blueAnticoneSize fuel b newBlockData = pure v ∧ v ≤ gm.k.toNat := by
    intro b
    by_cases mem : b ∈ examined
    · obtain ⟨v, read, first⟩ :=
        blueAnticoneSize_eq done' enough entry parentsDone (walk.inBlueSet b mem).1
      exact ⟨v, fun _ => ⟨read, first.le_k done' entry parentsDone⟩⟩
    · exact ⟨0, fun mem' => absurd mem' mem⟩
  choose size sizes using exists_size
  have colored := colorCandidate_eq (checkBlueCandidate_eq walk (by omega) sizes)
  refine ⟨_, colored, ?_⟩
  split_ifs with red
  · exact ⟨⟨entry.blues_mem, entry.sizes_le, entry.selectedParent_mem, entry.selectedParent_isSome,
      entry.genesis_blues⟩, selected, bounded, Or.inr ⟨rfl, rfl⟩⟩
  · simp only [not_or, not_exists, not_and] at red
    obtain ⟨notFull, fewEnough, noneAtK⟩ := red
    have notGenesis : blockHash ≠ gm.genesisHash :=
      entry.selectedParent_isSome.mp (by simp [selected])
    refine ⟨⟨?_, ?_, entry.selectedParent_mem, entry.selectedParent_isSome,
      fun isGenesis => absurd isGenesis notGenesis⟩, selected, ?_, Or.inl ⟨rfl, rfl⟩⟩
    · intro b mem
      simp only [lookup_coloredSizes]
      split_ifs with inExamined same
      · rfl
      · rfl
      · rcases List.mem_append.mp mem with mem | mem
        · exact entry.blues_mem b mem
        · exact absurd (List.mem_singleton.mp mem) same
    · intro b v found
      simp only [lookup_coloredSizes] at found
      split_ifs at found with inExamined same
      · obtain rfl := Option.some.inj found
        have := (sizes b inExamined).2
        have := noneAtK b inExamined
        omega
      · obtain rfl := Option.some.inj found
        omega
      · exact entry.sizes_le b v found
    · simp only [List.length_append, List.length_singleton]
      omega

theorem foldlM_colorCandidate_entry (done' : Done gm done) (enough : done.length < fuel)
    (parentsDone : ∀ p ∈ gm.parents blockHash, p ∈ done) (spMem : sp ∈ done)
    {newBlockData : BlockGHOSTDAGData} (entry : Entry gm blockHash newBlockData)
    (selected : newBlockData.selectedParent = some sp)
    (bounded : newBlockData.mergeSetBlues.length ≤ gm.k.toNat + 1) {mergeSet : List DomainHash}
    (mergeSetDone : ∀ c ∈ mergeSet, c ∈ done ∧ c ≠ gm.genesisHash) :
    ∃ colored, mergeSet.foldlM (gm.colorCandidate fuel) newBlockData = pure colored ∧
      Entry gm blockHash colored ∧ colored.selectedParent = some sp ∧
      colored.mergeSetBlues.length ≤ gm.k.toNat + 1 ∧
      ∃ blues reds, colored.mergeSetBlues = newBlockData.mergeSetBlues ++ blues ∧
        colored.mergeSetReds = newBlockData.mergeSetReds ++ reds ∧ (blues ++ reds).Perm mergeSet := by
  refine foldlM_eq_pure mergeSet (fun seen colored => Entry gm blockHash colored ∧
      colored.selectedParent = some sp ∧ colored.mergeSetBlues.length ≤ gm.k.toNat + 1 ∧
      ∃ blues reds, colored.mergeSetBlues = newBlockData.mergeSetBlues ++ blues ∧
        colored.mergeSetReds = newBlockData.mergeSetReds ++ reds ∧ (blues ++ reds).Perm seen)
    ?_ ⟨entry, selected, bounded, [], [], by simp, by simp, by simp⟩
  intro seen c rest current split ⟨entry, selected, bounded, blues, reds, bluesEq, redsEq, perm⟩
  obtain ⟨cDone, cNotGenesis⟩ := mergeSetDone c (by simp [split])
  obtain ⟨colored, turn, entry', selected', bounded', appended⟩ :=
    colorCandidate_entry done' enough parentsDone spMem entry selected bounded cDone cNotGenesis
  refine ⟨colored, turn, entry', selected', bounded', ?_⟩
  rcases appended with ⟨bluesEq', redsEq'⟩ | ⟨bluesEq', redsEq'⟩
  · refine ⟨blues ++ [c], reds, by simp [bluesEq', bluesEq], by simp [redsEq', redsEq], ?_⟩
    rw [List.append_assoc, List.singleton_append]
    exact List.perm_middle.trans ((perm.cons c).trans (List.perm_append_singleton c seen).symm)
  · exact ⟨blues, reds ++ [c], by simp [bluesEq', bluesEq], by simp [redsEq', redsEq],
      by simpa [← List.append_assoc] using perm.append_right [c]⟩

end Coloring

theorem ghostdag_genesis {fuel : Nat} {blockHash : DomainHash} (noParents : gm.parents blockHash = [])
    (positive : 0 < fuel) : gm.ghostdag fuel blockHash = pure ⟨0, 0, none, [], [], ∅⟩ := by
  obtain ⟨fuel, rfl⟩ := Nat.exists_eq_add_of_lt positive
  simp [ghostdag, noParents, mergeSetWithoutSelectedParent, loop, mergeSetSearchStep, sortMergeSet]
  rfl

theorem ghostdag_eq {fuel : Nat} {blockHash sp : DomainHash} {mergeSet : List DomainHash}
    {colored spData : BlockGHOSTDAGData} {blueWork : Nat} (hasParents : gm.parents blockHash ≠ [])
    (selectedParent : gm.findSelectedParent (gm.parents blockHash) = pure (some sp))
    (merged : gm.mergeSetWithoutSelectedParent fuel (some sp) (gm.parents blockHash) = pure mergeSet)
    (coloring : mergeSet.foldlM (gm.colorCandidate fuel)
      ⟨0, 0, some sp, [sp], [], AList.insert sp 0 ∅⟩ = pure colored)
    (coloredSelected : colored.selectedParent = some sp) (spFound : gm.dataOf sp = some spData)
    (worked : colored.mergeSetBlues.foldlM gm.addBlueWork spData.blueWork = pure blueWork) :
    gm.ghostdag fuel blockHash = pure { colored with
      blueScore := spData.blueScore + colored.mergeSetBlues.length.toUInt64, blueWork } := by
  have notGenesis : ¬ (gm.parents blockHash).length = 0 := by simpa using hasParents
  simp only [ghostdag, notGenesis, ↓reduceIte, selectedParent, pure_bind, merged, coloring,
    selectedParentOf, coloredSelected, getGHOSTDAGData_of_found spFound, worked]

theorem entry_newBlockData {blockHash sp : DomainHash} (spParent : sp ∈ gm.parents blockHash)
    (notGenesis : blockHash ≠ gm.genesisHash) :
    Entry gm blockHash ⟨0, 0, some sp, [sp], [], AList.insert sp 0 ∅⟩ where
  blues_mem b mem := by
    obtain rfl := List.mem_singleton.mp mem
    show (AList.lookup b (AList.insert b 0 ∅)).isSome = true
    rw [AList.lookup_insert]
    rfl
  sizes_le b v found := by
    by_cases same : b = sp
    · subst same
      simp only [AList.lookup_insert, Option.some.injEq] at found
      omega
    · rw [AList.lookup_insert_ne same, AList.lookup_empty] at found
      cases found
  selectedParent_mem sp' selected := by
    obtain rfl := Option.some.inj selected
    exact spParent
  selectedParent_isSome := by simp [notGenesis]
  genesis_blues isGenesis := absurd isGenesis notGenesis

theorem ghostdag_colored {fuel : Nat} {blocks : Finset DomainHash} {blockHash : DomainHash}
    (done' : Done gm done) (ctx : BlockContext gm done blocks blockHash) (enough : done.length < fuel) :
    ∃ sp spData mergeSet colored, SelectedAmong gm.dataOf sp (gm.parents blockHash) ∧
      gm.dataOf sp = some spData ∧ mergeSet.Nodup ∧
      (∀ x, x ∈ mergeSet ↔ Past gm.parents x blockHash ∧ ¬ PastOrSelf gm.parents x sp) ∧
      SortedByLess gm.dataOf mergeSet ∧
      mergeSet.foldlM (gm.colorCandidate fuel) ⟨0, 0, some sp, [sp], [], AList.insert sp 0 ∅⟩ =
        pure colored ∧
      Entry gm blockHash colored ∧ colored.selectedParent = some sp ∧
      colored.mergeSetBlues.length ≤ gm.k.toNat + 1 ∧
      (∃ blues reds, colored.mergeSetBlues = sp :: blues ∧ colored.mergeSetReds = reds ∧
        (blues ++ reds).Perm mergeSet) ∧
      (∀ b ∈ colored.mergeSetBlues, b ∈ done) ∧
      gm.ghostdag fuel blockHash = pure { colored with
        blueScore := spData.blueScore + colored.mergeSetBlues.length.toUInt64,
        blueWork := spData.blueWork + (colored.mergeSetBlues.map gm.work).sum } := by
  have found : ∀ x ∈ done, ∃ d, gm.dataOf x = some d := fun x mem =>
    (done'.stored x mem).imp fun _ stored => stored.1
  obtain ⟨sp, selectedParent, among⟩ := findSelectedParent_eq ctx.parents_nodup
    (fun p parent => found p (ctx.parents_mem p parent)) ctx.parents_ne_nil
  have spMem := ctx.parents_mem sp among.1
  obtain ⟨spData, spFound, _⟩ := done'.stored sp spMem
  have notGenesis : blockHash ≠ gm.genesisHash := fun eq => ctx.fresh (eq ▸ done'.genesis_mem)
  have search : SearchContext gm done blockHash sp := ⟨done'.closed, ctx.parents_mem,
    done'.isAncestorOf_iff, among.1, ctx.antichain, ctx.parents_nodup, done'.nodup⟩
  obtain ⟨mergeSet, merged, mergeSetNodup, mergeSetMem, sorted⟩ :=
    mergeSetWithoutSelectedParent_eq search enough found
  have mergeSetDone : ∀ c ∈ mergeSet, c ∈ done := fun c mem =>
    search.mem_of_past ((mergeSetMem c).mp mem).1
  have mergeSetOld : ∀ c ∈ mergeSet, c ∈ done ∧ c ≠ gm.genesisHash := fun c mem =>
    ⟨mergeSetDone c mem, fun eq => ((mergeSetMem c).mp mem).2 (eq ▸ done'.genesis_ancestor sp spMem)⟩
  obtain ⟨colored, coloring, entry, coloredSelected, bounded, blues, reds, bluesEq, redsEq, perm⟩ :=
    foldlM_colorCandidate_entry done' enough ctx.parents_mem spMem
      (entry_newBlockData among.1 notGenesis) rfl (by simp) mergeSetOld
  simp only [List.singleton_append, List.nil_append] at bluesEq redsEq
  have bluesDone : ∀ b ∈ colored.mergeSetBlues, b ∈ done := by
    intro b mem
    rw [bluesEq] at mem
    rcases List.mem_cons.mp mem with rfl | mem
    · exact spMem
    · exact mergeSetDone b (perm.mem_iff.mp (List.mem_append_left _ mem))
  have worked := foldlM_addBlueWork colored.mergeSetBlues
    (fun b mem => ⟨fun eq => done'.virtualGenesis_not_mem (eq ▸ bluesDone b mem),
      ctx.header b (bluesDone b mem)⟩) spData.blueWork
  exact ⟨sp, spData, mergeSet, colored, among, spFound, mergeSetNodup, mergeSetMem, sorted, coloring,
    entry, coloredSelected, bounded, ⟨blues, reds, bluesEq, redsEq, perm⟩, bluesDone,
    ghostdag_eq ctx.parents_ne_nil selectedParent merged coloring coloredSelected spFound worked⟩

theorem ghostdag_mergeSetScores {fuel : Nat} {blocks : Finset DomainHash} {blockHash : DomainHash}
    (done' : Done gm done) (ctx : BlockContext gm done blocks blockHash) (enough : done.length < fuel)
    (scored : ∀ x ∈ done, ∀ d, gm.dataOf x = some d → Scored gm blocks x d) :
    ∃ data sp spData, gm.ghostdag fuel blockHash = pure data ∧ Entry gm blockHash data ∧
      Scored gm blocks blockHash data ∧ MergeSetScores gm blockHash sp data spData := by
  obtain ⟨sp, spData, mergeSet, colored, among, spFound, mergeSetNodup, mergeSetMem, -, -, entry,
    coloredSelected, bounded, ⟨blues, reds, bluesEq, redsEq, perm⟩, bluesDone, computed⟩ :=
    ghostdag_colored done' ctx enough
  have spScored := scored sp (ctx.parents_mem sp among.1) spData spFound
  have spOutside : sp ∉ mergeSet := fun mem => ((mergeSetMem sp).mp mem).2 (PastOrSelf.refl sp)
  have split : colored.mergeSetBlues ++ colored.mergeSetReds = sp :: (blues ++ reds) := by
    rw [bluesEq, redsEq, List.cons_append]
  have members : ∀ x, x ∈ colored.mergeSetBlues ++ colored.mergeSetReds ↔ x = sp ∨ x ∈ mergeSet := by
    intro x
    rw [split, List.mem_cons, perm.mem_iff]
  have nodup : (colored.mergeSetBlues ++ colored.mergeSetReds).Nodup := by
    rw [split]
    exact List.nodup_cons.mpr ⟨fun mem => spOutside (perm.mem_iff.mp mem),
      perm.nodup_iff.mpr mergeSetNodup⟩
  have bluesPast : ∀ b ∈ colored.mergeSetBlues, Past gm.parents b blockHash := by
    intro b mem
    rcases (members b).mp (List.mem_append_left _ mem) with rfl | mem
    · exact past_of_mem_parents among.1
    · exact ((mergeSetMem b).mp mem).1
  have apart : ∀ b ∈ colored.mergeSetBlues, ¬ InBlueSet gm.dataOf spData b := by
    intro b mem blue
    have below := spScored.inBlueSet_past b blue
    rcases (members b).mp (List.mem_append_left _ mem) with rfl | mem
    · exact done'.acyclic b below
    · exact ((mergeSetMem b).mp mem).2 below.pastOrSelf
  have card := card_blueSet (d := { colored with
      blueScore := spData.blueScore + colored.mergeSetBlues.length.toUInt64,
      blueWork := spData.blueWork + (colored.mergeSetBlues.map gm.work).sum })
    coloredSelected spFound blocks (List.nodup_append.mp nodup).1
    (fun b mem => ctx.done_subset b (bluesDone b mem)) apart
  have fits : spData.blueScore.toNat + colored.mergeSetBlues.length < 2 ^ 64 := by
    have bound := card_blueSet_le blocks gm.dataOf { colored with
      blueScore := spData.blueScore + colored.mergeSetBlues.length.toUInt64,
      blueWork := spData.blueWork + (colored.mergeSetBlues.map gm.work).sum }
    have := ctx.small
    rw [spScored.blueScore_eq_card]
    dsimp only at card
    omega
  have score := toNat_add_toUInt64 fits
  refine ⟨_, sp, spData, computed, ⟨entry.blues_mem, entry.sizes_le, entry.selectedParent_mem,
    entry.selectedParent_isSome, entry.genesis_blues⟩, ?_, ?_⟩
  · constructor
    · intro y blue
      rcases inBlueSet_iff.1 blue with mem | ⟨sp', spData', selected, spFound', blue⟩
      · exact bluesPast y mem
      · obtain rfl := Option.some.inj (coloredSelected.symm.trans selected)
        obtain rfl := Option.some.inj (spFound.symm.trans spFound')
        exact (spScored.inBlueSet_past y blue).trans (past_of_mem_parents among.1)
    · dsimp only at card ⊢
      rw [card, score, spScored.blueScore_eq_card, Nat.add_comm]
  · refine ⟨coloredSelected, spFound, among, by simp [bluesEq], nodup, ?_, bounded, score, ?_⟩
    · intro x
      rw [members, mergeSetMem]
    · have noVirtual : colored.mergeSetBlues.filter (· ≠ virtualGenesisBlockHash) =
          colored.mergeSetBlues := List.filter_eq_self.mpr fun b mem =>
        decide_eq_true fun eq => done'.virtualGenesis_not_mem (eq ▸ bluesDone b mem)
      dsimp only
      rw [noVirtual]

end GhostdagManager

section Stage

variable {blocks : Finset DomainHash} {blockHash : DomainHash} {data : BlockGHOSTDAGData}

theorem dataOf_stage_of_ne {x : DomainHash} (ne : x ≠ blockHash) :
    (gm.stage blockHash data).dataOf x = gm.dataOf x := by
  rw [GhostdagManager.dataOf_stage, if_neg ne]

theorem Scored.stage (done' : Done gm done) (fresh : blockHash ∉ done) {x : DomainHash}
    {d : BlockGHOSTDAGData} (scored : Scored gm blocks x d)
    (chain : ∀ sp, d.selectedParent = some sp → sp ∈ done) :
    Scored (gm.stage blockHash data) blocks x d := by
  have agree : ∀ y ∈ done, (gm.stage blockHash data).dataOf y = gm.dataOf y := fun y mem =>
    dataOf_stage_of_ne fun eq => fresh (eq ▸ mem)
  refine ⟨fun y blue => scored.inBlueSet_past y ((done'.inBlueSet_congr agree chain).mp blue), ?_⟩
  rw [done'.blueSet_congr agree chain]
  exact scored.blueScore_eq_card

theorem MergeSetScores.stage {x sp : DomainHash} {d spData : BlockGHOSTDAGData}
    (scores : MergeSetScores gm x sp d spData) (parentsOld : ∀ p ∈ gm.parents x, p ≠ blockHash) :
    MergeSetScores (gm.stage blockHash data) x sp d spData := by
  have agree : ∀ p ∈ gm.parents x, (gm.stage blockHash data).dataOf p = gm.dataOf p :=
    fun p parent => dataOf_stage_of_ne (parentsOld p parent)
  obtain ⟨selected, spFound, ⟨spParent, above⟩, head, nodup, members, bounded, score, work⟩ := scores
  refine ⟨selected, by rw [agree sp spParent]; exact spFound, ⟨spParent, ?_⟩, head, nodup, members,
    bounded, score, work⟩
  intro p parent ne
  rw [agree p parent, agree sp spParent]
  exact above p parent ne

end Stage

/-- The invariant of a GHOSTDAG run after the blocks `done`, started from `gm₀`: the manager
    differs from `gm₀` only in its store, the blocks done are `Done`, and the data of each is
    `Scored` and, but for the genesis, has the `MergeSetScores`. -/
structure RunInvariant (gm₀ gm : GhostdagManager) (blocks : Finset DomainHash)
    (done : List DomainHash) : Prop where
  parents_eq : gm.parents = gm₀.parents
  isAncestorOf_eq : gm.isAncestorOf = gm₀.isAncestorOf
  headerStore_eq : gm.headerStore = gm₀.headerStore
  k_eq : gm.k = gm₀.k
  genesisHash_eq : gm.genesisHash = gm₀.genesisHash
  processed : Done gm done
  scored : ∀ x ∈ done, ∀ d, gm.dataOf x = some d → Scored gm blocks x d
  mergeSetScores : ∀ x ∈ done, x ≠ gm.genesisHash →
    ∃ d sp spData, gm.dataOf x = some d ∧ MergeSetScores gm x sp d spData

variable {gm₀ : GhostdagManager} {order : List DomainHash}

theorem DagInput.genesis_pastOrSelf (input : DagInput gm₀ order) :
    ∀ x ∈ order, PastOrSelf gm₀.parents gm₀.genesisHash x := by
  obtain ⟨rest, split⟩ : ∃ rest, order = gm₀.genesisHash :: rest := by
    cases order with
    | nil => exact absurd input.genesis_first (by simp)
    | cons g rest =>
      obtain rfl := Option.some.inj input.genesis_first
      exact ⟨rest, rfl⟩
  have topological := input.topological
  rw [split] at topological ⊢
  obtain ⟨_, _, topological⟩ := topological
  intro x mem
  rcases List.mem_cons.mp mem with rfl | mem
  · exact PastOrSelf.refl _
  · exact topological.pastOrSelf_root
      (fun b mem' => input.parents_ne_nil b (by rw [split]; exact List.mem_cons_of_mem _ mem'))
      List.mem_cons_self (by simp [PastOrSelf.refl]) x mem

theorem RunInvariant.blockContext (input : DagInput gm₀ order) {gm : GhostdagManager}
    {done : List DomainHash} (inv : RunInvariant gm₀ gm order.toFinset done)
    (doneOrder : ∀ x ∈ done, x ∈ order) {blockHash : DomainHash} (blockOrder : blockHash ∈ order)
    (fresh : blockHash ∉ done) (parentsDone : ∀ p ∈ gm₀.parents blockHash, p ∈ done) :
    BlockContext gm done order.toFinset blockHash := by
  have notGenesis : blockHash ≠ gm.genesisHash := fun eq => fresh (eq ▸ inv.processed.genesis_mem)
  rw [← inv.parents_eq] at parentsDone
  refine ⟨fresh, parentsDone, ?_, ?_, ?_, fun x mem => ?_,
    fun x mem => List.mem_toFinset.mpr (doneOrder x mem), (List.toFinset_card_le order).trans_lt input.small⟩
  · rw [inv.parents_eq]
    exact input.parents_ne_nil blockHash blockOrder (inv.genesisHash_eq ▸ notGenesis)
  · rw [inv.parents_eq]
    exact input.parents_nodup blockHash blockOrder
  · rw [inv.parents_eq]
    exact input.parents_antichain blockHash blockOrder
  · rw [inv.headerStore_eq]
    exact input.header x (doneOrder x mem)

theorem RunInvariant.length_lt {gm : GhostdagManager} {done : List DomainHash} {fuel : Nat}
    (inv : RunInvariant gm₀ gm order.toFinset done) (enough : order.length < fuel)
    (doneOrder : ∀ x ∈ done, x ∈ order) : done.length < fuel :=
  ((List.subperm_of_subset inv.processed.nodup doneOrder).length_le).trans_lt enough

theorem RunInvariant.ghostdag (input : DagInput gm₀ order) {fuel : Nat}
    (enough : order.length < fuel) {gm : GhostdagManager} {done : List DomainHash}
    (inv : RunInvariant gm₀ gm order.toFinset done) (doneOrder : ∀ x ∈ done, x ∈ order)
    {blockHash : DomainHash} (blockOrder : blockHash ∈ order) (fresh : blockHash ∉ done)
    (parentsDone : ∀ p ∈ gm₀.parents blockHash, p ∈ done) :
    ∃ data, gm.ghostdag fuel blockHash = pure data ∧
      RunInvariant gm₀ (gm.stage blockHash data) order.toFinset (blockHash :: done) := by
  have done' := inv.processed
  have short := inv.length_lt enough doneOrder
  have ctx := inv.blockContext input doneOrder blockOrder fresh parentsDone
  obtain ⟨data, sp, spData, computed, entry, scored, scores⟩ :=
    GhostdagManager.ghostdag_mergeSetScores done' ctx short inv.scored
  have fresh' : ∀ y ∈ done, y ≠ blockHash := fun y mem eq => fresh (eq ▸ mem)
  refine ⟨data, computed, ⟨inv.parents_eq, inv.isAncestorOf_eq, inv.headerStore_eq, inv.k_eq,
    inv.genesisHash_eq, ?_, ?_, ?_⟩⟩
  · -- the blocks done, the new block with them
    refine ⟨done'.acyclic, ?_, List.nodup_cons.mpr ⟨fresh, done'.nodup⟩, ?_, ?_,
      List.mem_cons_of_mem _ done'.genesis_mem, ?_, ?_⟩
    · intro x mem p parent
      rcases List.mem_cons.mp mem with rfl | mem
      · exact List.mem_cons_of_mem _ (ctx.parents_mem p parent)
      · exact List.mem_cons_of_mem _ (done'.closed x mem p parent)
    · intro a aMem b bMem ne
      have inOrder : ∀ y ∈ blockHash :: done, y ∈ order := by
        intro y mem
        rcases List.mem_cons.mp mem with rfl | mem
        · exact blockOrder
        · exact doneOrder y mem
      show gm.isAncestorOf a b = true ↔ PastOrSelf gm.parents a b
      rw [inv.isAncestorOf_eq, inv.parents_eq]
      exact input.isAncestorOf_iff a (inOrder a aMem) b (inOrder b bMem) ne
    · intro x mem
      show PastOrSelf gm.parents gm.genesisHash x
      rw [inv.parents_eq, inv.genesisHash_eq]
      rcases List.mem_cons.mp mem with rfl | mem
      · exact input.genesis_pastOrSelf x blockOrder
      · exact input.genesis_pastOrSelf x (doneOrder x mem)
    · intro isMem
      rcases List.mem_cons.mp isMem with eq | mem
      · exact input.virtualGenesis_not_mem (eq ▸ blockOrder)
      · exact done'.virtualGenesis_not_mem mem
    · intro x mem
      rcases List.mem_cons.mp mem with rfl | mem
      · exact ⟨data, by simp [GhostdagManager.dataOf_stage], entry.stage⟩
      · obtain ⟨d, found, entry⟩ := done'.stored x mem
        exact ⟨d, by rw [dataOf_stage_of_ne (fresh' x mem)]; exact found, entry.stage⟩
  · intro x mem d found
    rcases List.mem_cons.mp mem with rfl | mem
    · rw [GhostdagManager.dataOf_stage, if_pos rfl, Option.some.injEq] at found
      subst found
      refine scored.stage done' fresh fun sp' selected => ?_
      exact ctx.parents_mem sp' (entry.selectedParent_mem sp' selected)
    · rw [dataOf_stage_of_ne (fresh' x mem)] at found
      refine (inv.scored x mem d found).stage done' fresh fun sp' selected => ?_
      exact done'.closed x mem sp' ((done'.data_eq mem found).selectedParent_mem sp' selected)
  · intro x mem notGenesis'
    rcases List.mem_cons.mp mem with rfl | mem
    · exact ⟨data, sp, spData, by simp [GhostdagManager.dataOf_stage],
        scores.stage fun p parent eq => fresh (eq ▸ ctx.parents_mem p parent)⟩
    · obtain ⟨d, sp', spData', found, scores'⟩ := inv.mergeSetScores x mem notGenesis'
      exact ⟨d, sp', spData', by rw [dataOf_stage_of_ne (fresh' x mem)]; exact found,
        scores'.stage fun p parent eq => fresh (eq ▸ done'.closed x mem p parent)⟩

theorem ghostdagRun_of_step {fuel : Nat} (Inv : GhostdagManager → List DomainHash → Prop)
    (step : ∀ gm done blockHash, Inv gm done → (∀ p ∈ gm₀.parents blockHash, p ∈ done) →
      blockHash ∉ done → blockHash ∈ order →
      ∃ data, gm.ghostdag fuel blockHash = pure data ∧ Inv (gm.stage blockHash data) (blockHash :: done))
    (rest : List DomainHash) {gm : GhostdagManager} {done : List DomainHash}
    (topological : Topological gm₀.parents done rest) (restOrder : ∀ x ∈ rest, x ∈ order)
    (inv : Inv gm done) :
    ∃ gm', gm.ghostdagRun fuel rest = pure gm' ∧ Inv gm' (rest.reverse ++ done) := by
  induction rest generalizing gm done with
  | nil => exact ⟨gm, rfl, by simpa using inv⟩
  | cons b rest ih =>
    obtain ⟨before, fresh, topological⟩ := topological
    obtain ⟨data, computed, inv'⟩ := step gm done b inv before fresh (restOrder b List.mem_cons_self)
    obtain ⟨gm', ran, final⟩ :=
      ih topological (fun x mem => restOrder x (List.mem_cons_of_mem _ mem)) inv'
    refine ⟨gm', ?_, by simpa using final⟩
    simp only [GhostdagManager.ghostdagRun, computed, pure_bind, ran]

theorem not_inBlueSet_empty {dataOf : DomainHash → Option BlockGHOSTDAGData} {y : DomainHash} :
    ¬ InBlueSet dataOf ⟨0, 0, none, [], [], ∅⟩ y := by
  intro blue
  rcases inBlueSet_iff.1 blue with mem | ⟨_, _, selected, _⟩
  · exact List.not_mem_nil mem
  · cases selected

theorem DagInput.eq_cons (input : DagInput gm₀ order) : ∃ rest, order = gm₀.genesisHash :: rest := by
  cases order with
  | nil => exact absurd input.genesis_first (by simp)
  | cons g rest =>
    obtain rfl := Option.some.inj input.genesis_first
    exact ⟨rest, rfl⟩

theorem ghostdagRun_of_genesis (input : DagInput gm₀ order) {fuel : Nat}
    (Inv : GhostdagManager → List DomainHash → Prop)
    (genesis : ∃ data, gm₀.ghostdag fuel gm₀.genesisHash = pure data ∧
      Inv (gm₀.stage gm₀.genesisHash data) [gm₀.genesisHash])
    (step : ∀ gm done blockHash, Inv gm done → (∀ x ∈ done, x ∈ order) →
      (∀ p ∈ gm₀.parents blockHash, p ∈ done) → blockHash ∉ done → blockHash ∈ order →
      ∃ data, gm.ghostdag fuel blockHash = pure data ∧ Inv (gm.stage blockHash data) (blockHash :: done)) :
    ∃ gm', gm₀.ghostdagRun fuel order = pure gm' ∧ Inv gm' order.reverse := by
  obtain ⟨rest, split⟩ := input.eq_cons
  obtain ⟨genesisData, computed, inv⟩ := genesis
  have topological := input.topological
  rw [split] at topological
  obtain ⟨_, _, topological⟩ := topological
  have restOrder : ∀ x ∈ rest, x ∈ order := fun x mem => by
    rw [split]
    exact List.mem_cons_of_mem _ mem
  have genesisOrder : ∀ x ∈ [gm₀.genesisHash], x ∈ order := fun x mem => by
    rw [List.mem_singleton.mp mem, split]
    exact List.mem_cons_self
  obtain ⟨gm', ran, final, -⟩ := ghostdagRun_of_step
    (fun gm done => Inv gm done ∧ ∀ x ∈ done, x ∈ order)
    (fun gm done blockHash ⟨inv, doneOrder⟩ before fresh blockOrder =>
      (step gm done blockHash inv doneOrder before fresh blockOrder).imp fun _ ⟨computed, inv'⟩ =>
        ⟨computed, inv', List.forall_mem_cons.mpr ⟨blockOrder, doneOrder⟩⟩)
    rest topological restOrder ⟨inv, genesisOrder⟩
  refine ⟨gm', by rw [split]; simp only [GhostdagManager.ghostdagRun, computed, pure_bind, ran], ?_⟩
  rw [split, List.reverse_cons]
  exact final

theorem RunInvariant.genesis (input : DagInput gm₀ order) {fuel : Nat} (positive : 0 < fuel) :
    gm₀.ghostdag fuel gm₀.genesisHash = pure ⟨0, 0, none, [], [], ∅⟩ ∧
      RunInvariant gm₀ (gm₀.stage gm₀.genesisHash ⟨0, 0, none, [], [], ∅⟩) order.toFinset
        [gm₀.genesisHash] := by
  obtain ⟨rest, split⟩ := input.eq_cons
  have genesisOrder : gm₀.genesisHash ∈ order := by rw [split]; exact List.mem_cons_self
  refine ⟨GhostdagManager.ghostdag_genesis input.genesis_parents positive, rfl, rfl, rfl, rfl, rfl,
    ⟨input.acyclic, ?_, List.nodup_singleton _, ?_, ?_, List.mem_singleton_self _, ?_, ?_⟩, ?_, ?_⟩
  · intro x mem p parent
    rw [List.mem_singleton.mp mem] at parent
    simp [input.genesis_parents] at parent
  · intro a aMem b bMem ne
    rw [List.mem_singleton.mp aMem, List.mem_singleton.mp bMem] at ne
    exact absurd rfl ne
  · intro x mem
    rw [List.mem_singleton.mp mem]
    exact PastOrSelf.refl _
  · intro mem
    exact input.virtualGenesis_not_mem (List.mem_singleton.mp mem ▸ genesisOrder)
  · intro x mem
    rw [List.mem_singleton.mp mem]
    refine ⟨⟨0, 0, none, [], [], ∅⟩, by simp [GhostdagManager.dataOf_stage],
      ⟨fun _ mem => absurd mem List.not_mem_nil, ?_, (fun _ selected => by cases selected),
        by simp, fun _ => rfl⟩⟩
    intro b v found
    simp at found
  · intro x mem d found
    rw [List.mem_singleton.mp mem, GhostdagManager.dataOf_stage, if_pos rfl, Option.some.injEq] at found
    subst found
    refine ⟨fun y blue => absurd blue not_inBlueSet_empty, ?_⟩
    have empty : blueSet order.toFinset (gm₀.stage gm₀.genesisHash ⟨0, 0, none, [], [], ∅⟩).dataOf
        ⟨0, 0, none, [], [], ∅⟩ = ∅ :=
      Finset.eq_empty_of_forall_notMem fun y mem => not_inBlueSet_empty (mem_blueSet.1 mem).2
    rw [empty]
    rfl
  · intro x mem notGenesis
    exact absurd (List.mem_singleton.mp mem) notGenesis

theorem GhostdagManager.work_eq {gm gm' : GhostdagManager} (same : gm'.headerStore = gm.headerStore) :
    gm'.work = gm.work := by
  funext blockHash
  unfold GhostdagManager.work
  rw [same]

theorem RunInvariant.of_ghostdagRun (input : DagInput gm₀ order) {fuel : Nat}
    (enough : order.length < fuel) :
    ∃ gm', gm₀.ghostdagRun fuel order = pure gm' ∧
      RunInvariant gm₀ gm' order.toFinset order.reverse :=
  ghostdagRun_of_genesis input _ ⟨_, RunInvariant.genesis input (Nat.zero_lt_of_lt enough)⟩
    fun _ _ _ inv doneOrder before fresh blockOrder =>
      inv.ghostdag input enough doneOrder blockOrder fresh before

/-- **GHOSTDAG's merge sets and scores.** Run over a DAG that block validation lets through,
    in an order that inserts the genesis first and every block after its parents, with fuel
    above the number of blocks, GHOSTDAG returns on every block. The data of every block but
    the genesis has the selected parent that `Less` ranks highest among its parents, first
    among its merge-set blues; its merge-set blues and reds are distinct and make up the
    selected parent and the past of the block outside the past of the selected parent; it has
    at most K + 1 merge-set blues; its blue score is that of the selected parent plus the
    number of merge-set blues, and is the size of its blue set; its blue work is that of the
    selected parent plus the work of its merge-set blues but the virtual genesis. -/
theorem ghostdag_merge_set_and_scores {gm : GhostdagManager} (valid : ValidDAG gm order) {fuel : Nat}
    (enough : order.length < fuel) :
    ∃ gm', gm.ghostdagRun fuel order = pure gm' ∧ ∀ B ∈ order, B ≠ gm.genesisHash →
      ∃ data sp spData, gm'.dataOf B = some data ∧ data.selectedParent = some sp ∧
        gm'.dataOf sp = some spData ∧ sp ∈ gm.parents B ∧
        (∀ p ∈ gm.parents B, p ≠ sp →
          ∃ pData, gm'.dataOf p = some pData ∧ Less p pData sp spData = true) ∧
        data.mergeSetBlues.head? = some sp ∧
        (data.mergeSetBlues ++ data.mergeSetReds).Nodup ∧
        (∀ x, x ∈ data.mergeSetBlues ++ data.mergeSetReds ↔
          x = sp ∨ Past gm.parents x B ∧ ¬ PastOrSelf gm.parents x sp) ∧
        data.mergeSetBlues.length ≤ gm.k.toNat + 1 ∧
        data.blueScore.toNat = spData.blueScore.toNat + data.mergeSetBlues.length ∧
        data.blueScore.toNat = (blueSet order.toFinset gm'.dataOf data).card ∧
        data.blueWork = spData.blueWork +
          ((data.mergeSetBlues.filter (· ≠ virtualGenesisBlockHash)).map gm.work).sum := by
  obtain ⟨gm', ran, final⟩ := RunInvariant.of_ghostdagRun valid.toDagInput enough
  refine ⟨gm', ran, ?_⟩
  intro B mem notGenesis
  have bDone : B ∈ order.reverse := List.mem_reverse.mpr mem
  obtain ⟨data, sp, spData, found, scores⟩ :=
    final.mergeSetScores B bDone (final.genesisHash_eq ▸ notGenesis)
  obtain ⟨selected, spFound, ⟨spParent, above⟩, head, nodup, members, bounded, score, work⟩ := scores
  rw [final.parents_eq] at spParent above members
  rw [final.k_eq] at bounded
  rw [GhostdagManager.work_eq final.headerStore_eq] at work
  refine ⟨data, sp, spData, found, selected, spFound, spParent, ?_, head, nodup, members, bounded,
    score, (final.scored B bDone data found).blueScore_eq_card, work⟩
  intro p parent ne
  obtain ⟨pData, spData', pFound, spFound', less⟩ := above p parent ne
  rw [spFound, Option.some.injEq] at spFound'
  subst spFound'
  exact ⟨pData, pFound, less⟩

def diamondParents (h : DomainHash) : List DomainHash :=
  if h = ⟨3⟩ then [⟨1⟩, ⟨2⟩] else if h = ⟨1⟩ ∨ h = ⟨2⟩ then [⟨0⟩] else []

def diamond : GhostdagManager where
  parents := diamondParents
  isAncestorOf a b := decide (a ∈ pastOrSelfList diamondParents 3 b)
  ghostdagDataStore _ _ := none
  headerStore _ := some ⟨1, 1, 0x207fffff⟩
  k := 18
  genesisHash := ⟨0⟩

theorem diamond_valid : ValidDAG diamond [⟨0⟩, ⟨1⟩, ⟨2⟩, ⟨3⟩] := by
  have closed : ∀ b ∈ [(⟨0⟩ : DomainHash), ⟨1⟩, ⟨2⟩, ⟨3⟩], SearchClosed diamondParents 3 b := by
    decide
  have parentsClosed : ∀ b ∈ [(⟨0⟩ : DomainHash), ⟨1⟩, ⟨2⟩, ⟨3⟩], ∀ c ∈ diamondParents b,
      ∀ p ∈ diamondParents c, SearchClosed diamondParents 3 p := by decide
  have apart : ∀ b ∈ [(⟨0⟩ : DomainHash), ⟨1⟩, ⟨2⟩, ⟨3⟩], ∀ a ∈ diamondParents b,
      ∀ c ∈ diamondParents b, ∀ p ∈ diamondParents c, a ∉ pastOrSelfList diamondParents 3 p := by
    decide
  refine ⟨acyclic_of_rank (fun h => h.value.val) ?_, by decide, rfl, rfl, by decide, by decide,
    fun b mem => antichain_of_search (parentsClosed b mem) (apart b mem), ?_, by decide,
    by decide, fun _ _ => rfl, by decide⟩
  · intro b p parent
    change p ∈ diamondParents b at parent
    unfold diamondParents at parent
    split_ifs at parent with three oneOrTwo
    · subst three
      rcases List.mem_pair.mp parent with rfl | rfl <;> decide
    · rcases oneOrTwo with rfl | rfl <;> rw [List.mem_singleton.mp parent] <;> decide
    · exact absurd parent List.not_mem_nil
  · intro a _ b bMem
    exact decide_eq_true_iff.trans (mem_pastOrSelfList_iff (closed b bMem))

theorem ghostdag_merge_set_and_scores_diamond :
    ValidDAG diamond [⟨0⟩, ⟨1⟩, ⟨2⟩, ⟨3⟩] ∧ [(⟨0⟩ : DomainHash), ⟨1⟩, ⟨2⟩, ⟨3⟩].length < 5 ∧
      ∃ gm', diamond.ghostdagRun 5 [⟨0⟩, ⟨1⟩, ⟨2⟩, ⟨3⟩] = pure gm' :=
  ⟨diamond_valid, by decide,
    (ghostdag_merge_set_and_scores diamond_valid (by decide)).imp fun _ ran => ran.1⟩

end Ghostdag
