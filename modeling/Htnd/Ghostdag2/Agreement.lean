import Mathlib
import Htnd.Ghostdag2.Walks

/-!
The two GHOSTDAG implementations agree on the DAGs of the GHOSTDAG test: DAGs that block
validation lets through, whose blocks all have work, under the test's oracle, which counts no
block as its own ancestor. Run from a genesis with zero data, ghostdag2 stages the selected
parent, blue score, blue work, merge-set blues and merge-set reds that the ghostdag manager
stages, block after block; only the blue anticone sizes, which ghostdag2 leaves empty, differ.
At each block ghostdag2's blue set is the manager's, its count of a blue's anticone takes in
the blue itself, which makes its test the manager's, and the manager's check for K + 1
merge-set blues turns red only candidates that its anticone test turns red anyway.
-/
namespace Ghostdag2
open Ghostdag Dag Utxo GoSemantics

/-- The fields of GHOSTDAG data that both implementations compute. -/
structure SameData (d d' : BlockGHOSTDAGData) : Prop where
  blueScore_eq : d'.blueScore = d.blueScore
  blueWork_eq : d'.blueWork = d.blueWork
  selectedParent_eq : d'.selectedParent = d.selectedParent
  mergeSetBlues_eq : d'.mergeSetBlues = d.mergeSetBlues
  mergeSetReds_eq : d'.mergeSetReds = d.mergeSetReds

/-- ghostdag2 on the stores of a ghostdag manager, as the GHOSTDAG test builds the two. -/
def helperOf (gm : GhostdagManager) : GhostdagHelper :=
  ⟨gm.k, gm.ghostdagDataStore, gm.parents, gm.isAncestorOf, gm.headerStore⟩

/-- A helper that reads the manager's K, DAG, oracle and headers, and has staged for every block
    done data that agrees with the manager's. -/
structure Mirrors (gm : GhostdagManager) (gh : GhostdagHelper) (done : List DomainHash) :
    Prop where
  k_eq : gh.k = gm.k
  parents_eq : gh.parents = gm.parents
  isAncestorOf_eq : gh.isAncestorOf = gm.isAncestorOf
  headerStore_eq : gh.headerStore = gm.headerStore
  agree : ∀ x ∈ done, ∃ d d', gm.dataOf x = some d ∧ gh.dataOf x = some d' ∧ SameData d d'

/-- ghostdag2's colouring beside the manager's data: the same blues and reds, and the blue set
    of the data as a list without repeats. -/
structure Tracks (gm : GhostdagManager) (data : BlockGHOSTDAGData)
    (c : GhostdagHelper.Coloring) : Prop where
  blues_eq : c.blues = data.mergeSetBlues
  reds_eq : c.reds = data.mergeSetReds
  nodup : c.blueSet.Nodup
  mem_blueSet : ∀ y, y ∈ c.blueSet ↔ InBlueSet gm.dataOf data y

theorem GhostdagHelper.dataOf_stage (gh : GhostdagHelper) (blockHash : DomainHash)
    (data : BlockGHOSTDAGData) (x : DomainHash) :
    (gh.stage blockHash data).dataOf x = if x = blockHash then some data else gh.dataOf x := by
  simp [GhostdagHelper.dataOf, GhostdagHelper.stage]

section Mirror

variable {gm : GhostdagManager} {gh : GhostdagHelper} {done : List DomainHash}

theorem Mirrors.found (mirrors : Mirrors gm gh done) {x : DomainHash} (mem : x ∈ done) :
    ∃ d', gh.dataOf x = some d' := by
  obtain ⟨-, d', -, found, -⟩ := mirrors.agree x mem
  exact ⟨d', found⟩

theorem Mirrors.of_helper_found (mirrors : Mirrors gm gh done) {x : DomainHash} (mem : x ∈ done)
    {d' : BlockGHOSTDAGData} (found' : gh.dataOf x = some d') :
    ∃ d, gm.dataOf x = some d ∧ SameData d d' := by
  obtain ⟨d, d'', found, found'', same⟩ := mirrors.agree x mem
  obtain rfl := Option.some.inj (found'.symm.trans found'')
  exact ⟨d, found, same⟩

theorem Mirrors.of_manager_found (mirrors : Mirrors gm gh done) {x : DomainHash} (mem : x ∈ done)
    {d : BlockGHOSTDAGData} (found : gm.dataOf x = some d) :
    ∃ d', gh.dataOf x = some d' ∧ SameData d d' := by
  obtain ⟨d₁, d', found₁, found', same⟩ := mirrors.agree x mem
  obtain rfl := Option.some.inj (found.symm.trans found₁)
  exact ⟨d', found', same⟩

theorem Mirrors.blueWork_eq (mirrors : Mirrors gm gh done) {l : List DomainHash}
    (sub : ∀ x ∈ l, x ∈ done) :
    ∀ x ∈ l, ∃ d d', gm.dataOf x = some d ∧ gh.dataOf x = some d' ∧ d'.blueWork = d.blueWork := by
  intro x mem
  obtain ⟨d, d', found, found', same⟩ := mirrors.agree x (sub x mem)
  exact ⟨d, d', found, found', same.blueWork_eq⟩

theorem Mirrors.stage (mirrors : Mirrors gm gh done) {blockHash : DomainHash}
    {data data' : BlockGHOSTDAGData} (same : SameData data data') :
    Mirrors (gm.stage blockHash data) (gh.stage blockHash data') (blockHash :: done) := by
  refine ⟨mirrors.k_eq, mirrors.parents_eq, mirrors.isAncestorOf_eq, mirrors.headerStore_eq,
    fun x mem => ?_⟩
  rw [GhostdagManager.dataOf_stage, GhostdagHelper.dataOf_stage]
  by_cases staged : x = blockHash
  · rw [if_pos staged, if_pos staged]
    exact ⟨data, data', rfl, rfl, same⟩
  · rw [if_neg staged, if_neg staged]
    exact mirrors.agree x ((List.mem_cons.mp mem).resolve_left staged)

theorem Mirrors.inBlueSet_iff (done' : Done gm done) (mirrors : Mirrors gm gh done)
    {d : BlockGHOSTDAGData} (chain : ∀ sp, d.selectedParent = some sp → sp ∈ done)
    {y : DomainHash} : InBlueSet gh.dataOf d y ↔ InBlueSet gm.dataOf d y := by
  constructor
  · intro blue
    induction blue with
    | mergeSetBlue mem => exact .mergeSetBlue mem
    | @selectedChain d spData' sp b selected spFound' _ ih =>
      have spMem := chain sp selected
      obtain ⟨spData, spFound, same⟩ := mirrors.of_helper_found spMem spFound'
      have below : ∀ sp', spData'.selectedParent = some sp' → sp' ∈ done := by
        intro sp' selected'
        rw [same.selectedParent_eq] at selected'
        exact done'.closed sp spMem sp' ((done'.data_eq spMem spFound).selectedParent_mem sp' selected')
      exact .selectedChain selected spFound
        ((inBlueSet_congr_data same.mergeSetBlues_eq same.selectedParent_eq).mp (ih below))
  · intro blue
    induction blue with
    | mergeSetBlue mem => exact .mergeSetBlue mem
    | @selectedChain d spData sp b selected spFound _ ih =>
      have spMem := chain sp selected
      obtain ⟨spData', spFound', same⟩ := mirrors.of_manager_found spMem spFound
      have below : ∀ sp', spData.selectedParent = some sp' → sp' ∈ done := fun sp' selected' =>
        done'.closed sp spMem sp' ((done'.data_eq spMem spFound).selectedParent_mem sp' selected')
      exact .selectedChain selected spFound'
        ((inBlueSet_congr_data same.mergeSetBlues_eq same.selectedParent_eq).mpr (ih below))

theorem Mirrors.foldlM_addWork (mirrors : Mirrors gm gh done) (blues : List DomainHash)
    (headers : ∀ b ∈ blues, (gm.headerStore b).isSome) (myWork : Nat) :
    blues.foldlM gh.addWork myWork = pure (myWork + (blues.map gm.work).sum) := by
  induction blues generalizing myWork with
  | nil => simp
  | cons b blues ih =>
    obtain ⟨header, found⟩ := Option.isSome_iff_exists.mp (headers b List.mem_cons_self)
    have added : gh.addWork myWork b = pure (myWork + gm.work b) := by
      simp [GhostdagHelper.addWork, mirrors.headerStore_eq, found, GhostdagManager.work]
    rw [List.foldlM_cons, added, pure_bind,
      ih fun b' mem => headers b' (List.mem_cons_of_mem b mem)]
    simp [Nat.add_assoc]

/-! ### The colouring of a candidate -/

section Count

variable {blocks : Finset DomainHash} (done' : Done gm done) (mirrors : Mirrors gm gh done)
  (inBlocks : ∀ x ∈ done, x ∈ blocks)

include done' mirrors in
theorem isAnticone_iff {a b : DomainHash} (aMem : a ∈ done) (bMem : b ∈ done) (ne : a ≠ b) :
    gh.isAnticone a b = true ↔ InAnticone gm.parents b a := by
  have up := done'.isAncestorOf_iff a aMem b bMem ne
  have down := done'.isAncestorOf_iff b bMem a aMem (Ne.symm ne)
  rw [pastOrSelf_iff, or_iff_right ne] at up
  rw [pastOrSelf_iff, or_iff_right (Ne.symm ne)] at down
  unfold GhostdagHelper.isAnticone InAnticone
  rw [mirrors.isAncestorOf_eq]
  by_cases above : gm.isAncestorOf a b = true
  · simp [above, up.mp above]
  · simp [above, ← down, Ne.symm ne, mt up.mpr above]

include done' mirrors inBlocks in
theorem length_filter_isAnticone_eq {data : BlockGHOSTDAGData} {l : List DomainHash}
    (nodup : l.Nodup) {b : DomainHash} (bMem : b ∈ done) (absent : b ∉ l)
    (members : ∀ y, y ≠ b → (y ∈ l ↔ InBlueSet gm.dataOf data y))
    (bluesDone : ∀ y, InBlueSet gm.dataOf data y → y ∈ done) :
    (l.filter (gh.isAnticone · b)).length =
      (blueAnticone gm.parents blocks gm.dataOf data b).card := by
  have same : (l.filter (gh.isAnticone · b)).toFinset =
      blueAnticone gm.parents blocks gm.dataOf data b := by
    ext y
    rw [List.mem_toFinset, List.mem_filter, mem_blueAnticone, mem_blueSet]
    by_cases self : y = b
    · subst self
      exact iff_of_false (fun both => absent both.1) fun both => both.2.1 rfl
    · rw [members y self]
      constructor
      · rintro ⟨blue, anticone⟩
        have yDone := bluesDone y blue
        exact ⟨⟨inBlocks y yDone, blue⟩, (isAnticone_iff done' mirrors yDone bMem self).mp anticone⟩
      · rintro ⟨⟨-, blue⟩, anticone⟩
        exact ⟨blue, (isAnticone_iff done' mirrors (bluesDone y blue) bMem self).mpr anticone⟩
  rw [← same, List.toFinset_card_of_nodup (nodup.filter _)]

include done' mirrors inBlocks in
/-- Under a strict oracle ghostdag2 counts a blue in its own anticone: at most K there is fewer
    than K blues in its blue anticone. -/
theorem Tracks.count_le_iff (strict : ∀ a, gm.isAncestorOf a a = false)
    {data : BlockGHOSTDAGData} {cs : GhostdagHelper.Coloring} (tracks : Tracks gm data cs)
    (bluesDone : ∀ y, InBlueSet gm.dataOf data y → y ∈ done) {blue : DomainHash}
    (mem : blue ∈ cs.blueSet) :
    (cs.blueSet.filter (gh.isAnticone · blue)).length ≤ gm.k.toNat ↔
      (blueAnticone gm.parents blocks gm.dataOf data blue).card < gm.k.toNat := by
  have strict' : ∀ a, gh.isAncestorOf a a = false := by
    rw [mirrors.isAncestorOf_eq]
    exact strict
  rw [← mirrors.k_eq, gh.count_anticone_of_strict strict' mem, mirrors.k_eq,
    length_filter_isAnticone_eq done' mirrors inBlocks (tracks.nodup.erase blue)
      (bluesDone blue ((tracks.mem_blueSet blue).mp mem)) (tracks.nodup.not_mem_erase)
      (fun y ne => (List.mem_erase_of_ne ne).trans (tracks.mem_blueSet y)) bluesDone]

include done' mirrors inBlocks in
/-- ghostdag2 keeps a candidate blue just when the manager does: when at most K blues are in
    its anticone and none of those has K in its own. -/
theorem Tracks.kept_iff (strict : ∀ a, gm.isAncestorOf a a = false)
    {data : BlockGHOSTDAGData} {c : DomainHash} {cs : GhostdagHelper.Coloring}
    (tracks : Tracks gm data cs) (kCluster : KCluster gm blocks data) (cMem : c ∈ done)
    (bluesDone : ∀ y, InBlueSet gm.dataOf data y → y ∈ done)
    (fresh : ¬ InBlueSet gm.dataOf data c) :
    ((cs.blueSet.filter (gh.isAnticone · c)).length ≤ gh.k.toNat ∧
      ∀ blue ∈ cs.blueSet.filter (gh.isAnticone · c),
        (cs.blueSet.filter (gh.isAnticone · blue)).length ≤ gh.k.toNat) ↔
      ¬ ColorsRed.AnticoneFull gm blocks data c := by
  have absent : c ∉ cs.blueSet := fun mem => fresh ((tracks.mem_blueSet c).mp mem)
  rw [length_filter_isAnticone_eq done' mirrors inBlocks tracks.nodup cMem absent
      (fun y _ => tracks.mem_blueSet y) bluesDone, mirrors.k_eq, ColorsRed.AnticoneFull, not_or,
    not_lt, not_exists]
  refine and_congr_right fun _ => ⟨fun each b both => ?_, fun notAtK blue mem => ?_⟩
  · obtain ⟨bMem, atK⟩ := both
    obtain ⟨bBlue, anticone⟩ := mem_blueAnticone.mp bMem
    have bListed := (tracks.mem_blueSet b).mpr (Ghostdag.mem_blueSet.mp bBlue).2
    have bDone := bluesDone b (Ghostdag.mem_blueSet.mp bBlue).2
    have bAnticone := (isAnticone_iff done' mirrors bDone cMem (Ne.symm anticone.1)).mpr anticone
    have below := (tracks.count_le_iff done' mirrors inBlocks strict bluesDone bListed).mp
      (each b (List.mem_filter.mpr ⟨bListed, bAnticone⟩))
    omega
  · obtain ⟨listed, anticone⟩ := List.mem_filter.mp mem
    have blue' := (tracks.mem_blueSet blue).mp listed
    have blueDone := bluesDone blue blue'
    have ne : blue ≠ c := fun same => absent (same ▸ listed)
    have inAnticone : blue ∈ blueAnticone gm.parents blocks gm.dataOf data c :=
      mem_blueAnticone.mpr ⟨Ghostdag.mem_blueSet.mpr ⟨inBlocks blue blueDone, blue'⟩,
        (isAnticone_iff done' mirrors blueDone cMem ne).mp anticone⟩
    have atMost := kCluster.card_le blue blue'
    have notK : (blueAnticone gm.parents blocks gm.dataOf data blue).card ≠ gm.k.toNat :=
      fun atK => notAtK blue ⟨inAnticone, atK⟩
    rw [tracks.count_le_iff done' mirrors inBlocks strict bluesDone listed]
    omega

include done' mirrors inBlocks in
/-- One turn of ghostdag2's colouring is the manager's. -/
theorem Tracks.divideBlueRed (strict : ∀ a, gm.isAncestorOf a a = false)
    {data colored : BlockGHOSTDAGData} {c : DomainHash} {cs : GhostdagHelper.Coloring}
    (turn : ColorStep gm blocks done data colored c) (tracks : Tracks gm data cs) :
    Tracks gm colored (gh.divideBlueRed c cs) := by
  obtain ⟨kCluster, cMem, bluesDone, fresh, notRed, selected, decided⟩ := turn
  have kept := tracks.kept_iff done' mirrors inBlocks strict kCluster cMem bluesDone fresh
  rw [GhostdagHelper.divideBlueRed_eq]
  split_ifs with blue
  · obtain ⟨-, blues, reds⟩ := decided.resolve_left fun red => kept.mp blue red.1
    have newBlue : c ∉ cs.blues := fun mem =>
      fresh (.mergeSetBlue (by rw [← tracks.blues_eq]; exact mem))
    refine ⟨?_, ?_, appendMissing_nodup tracks.nodup, fun y => ?_⟩
    · rw [blues, appendMissing_of_not_mem newBlue, tracks.blues_eq]
    · rw [reds]
      exact tracks.reds_eq
    · rw [mem_appendMissing, inBlueSet_append_iff blues selected, tracks.mem_blueSet]
      exact or_comm
  · obtain ⟨-, blues, reds⟩ := decided.resolve_right fun notFull => blue (kept.mpr notFull.1)
    have newRed : c ∉ cs.reds := by
      rw [tracks.reds_eq]
      exact notRed
    refine ⟨tracks.blues_eq.trans blues.symm, ?_, tracks.nodup, fun y => ?_⟩
    · rw [reds, appendMissing_of_not_mem newRed, tracks.reds_eq]
    · rw [tracks.mem_blueSet, inBlueSet_congr_data blues selected]

end Count

end Mirror

/-! ### One block -/

section Block

variable {gm₀ gm : GhostdagManager} {gh : GhostdagHelper} {order done : List DomainHash}

theorem idxOf_lt_of_mem_parents (input : DagInput gm₀ order) {x p : DomainHash} (mem : x ∈ order)
    (parent : p ∈ gm₀.parents x) : order.idxOf p < order.idxOf x :=
  ((input.topological.idxOf_lt mem parent).resolve_left List.not_mem_nil).2

theorem Mirrors.selectParent (input : DagInput gm₀ order) (positive : PositiveWork gm₀ order)
    (inv : RunInvariant gm₀ gm order.toFinset done) (doneOrder : ∀ x ∈ done, x ∈ order)
    (mirrors : Mirrors gm gh done) {blockHash first : DomainHash} {rest : List DomainHash}
    (parents : gm.parents blockHash = first :: rest)
    (parentsDone : ∀ p ∈ gm.parents blockHash, p ∈ done) (nodup : (gm.parents blockHash).Nodup)
    {sp : DomainHash} (among : SelectedAmong gm.dataOf sp (gm.parents blockHash)) :
    ∃ spData spData', (first :: rest).foldlM gh.selectParent (first, 0, 0) =
        pure (sp, spData'.blueWork, spData'.blueScore) ∧ gm.dataOf sp = some spData ∧
      gh.dataOf sp = some spData' ∧ SameData spData spData' := by
  rw [parents] at parentsDone nodup among
  have noWork : ∀ p ∈ first :: rest, ∀ d', gh.dataOf p = some d' → d'.blueWork = 0 →
      d'.blueScore = 0 := by
    intro p mem d' found' zero
    obtain ⟨d, found, same⟩ := mirrors.of_helper_found (parentsDone p mem) found'
    rw [same.blueScore_eq]
    exact inv.blueScore_eq_zero input positive doneOrder (parentsDone p mem) found
      (same.blueWork_eq ▸ zero)
  obtain ⟨sp', spData', selected, spFound', among'⟩ := GhostdagHelper.foldlM_selectParent nodup
    (fun p mem => mirrors.found (parentsDone p mem)) noWork
  obtain rfl := among'.unique (among.of_blueWork (mirrors.blueWork_eq parentsDone))
  obtain ⟨spData, spFound, same⟩ := mirrors.of_helper_found (parentsDone sp' among.1) spFound'
  exact ⟨spData, spData', selected, spFound, spFound', same⟩

theorem Mirrors.findMergeSet (input : DagInput gm₀ order)
    (inv : RunInvariant gm₀ gm order.toFinset done) (doneOrder : ∀ x ∈ done, x ∈ order)
    (mirrors : Mirrors gm gh done) {fuel : Nat} (enough : 2 ^ order.length ≤ fuel)
    {blockHash sp : DomainHash} (ctx : BlockContext gm done order.toFinset blockHash)
    (blockOrder : blockHash ∈ order) (spParent : sp ∈ gm.parents blockHash) :
    ∃ allMergeSet, gh.findMergeSet fuel (gh.parents blockHash) sp = pure allMergeSet ∧
      allMergeSet.Nodup ∧ ∀ x, x ∈ allMergeSet ↔ x = sp ∨
        Past gm.parents x blockHash ∧ ¬ PastOrSelf gm.parents x sp := by
  have done' := inv.processed
  have spMem := ctx.parents_mem sp spParent
  have inOrder : ∀ x, PastOrSelf gm.parents x blockHash → x ∈ order := by
    intro x below
    rcases pastOrSelf_iff.mp below with rfl | past
    · exact blockOrder
    · exact doneOrder x (ctx.mem_of_past done' past)
  have oracle : ∀ x, Past gh.parents x blockHash → x ≠ sp →
      (gh.isAncestorOf x sp = true ↔ Past gh.parents x sp) := by
    rw [mirrors.parents_eq, mirrors.isAncestorOf_eq]
    intro x past ne
    rw [done'.isAncestorOf_iff x (ctx.mem_of_past done' past) sp spMem ne, pastOrSelf_iff,
      or_iff_right ne]
  have ranked : ∀ x, PastOrSelf gh.parents x blockHash → ∀ p ∈ gh.parents x,
      order.idxOf p < order.idxOf x := by
    rw [mirrors.parents_eq]
    intro x below p parent
    rw [inv.parents_eq] at parent
    exact idxOf_lt_of_mem_parents input (inOrder x below) parent
  have injective : ∀ x y, Past gh.parents x blockHash → Past gh.parents y blockHash →
      order.idxOf x = order.idxOf y → x = y := by
    rw [mirrors.parents_eq]
    intro x y past _ same
    exact (List.idxOf_inj (inOrder x past.pastOrSelf)).mp same
  have parentsNodup : ∀ x, Past gh.parents x blockHash → (gh.parents x).Nodup := by
    rw [mirrors.parents_eq, inv.parents_eq]
    intro x past
    exact input.parents_nodup x (inOrder x (inv.parents_eq ▸ past).pastOrSelf)
  have deep : 2 ^ order.idxOf blockHash ≤ fuel :=
    (Nat.pow_le_pow_right two_pos (List.idxOf_lt_length_iff.mpr blockOrder).le).trans enough
  obtain ⟨allMergeSet, merged, nodup, members⟩ := GhostdagHelper.findMergeSet_spec oracle ranked
    injective parentsNodup (by rw [mirrors.parents_eq]; exact spParent) deep
  rw [mirrors.parents_eq] at members
  exact ⟨allMergeSet, merged, nodup, members⟩

theorem Mirrors.sortByBlueWork (mirrors : Mirrors gm gh done) {sp : DomainHash}
    {allMergeSet mergeSet : List DomainHash} (sub : ∀ x ∈ allMergeSet, x ∈ done)
    (nodup : allMergeSet.Nodup) (mergeSetNodup : mergeSet.Nodup)
    (members : ∀ x, x ∈ mergeSet ↔ x ∈ allMergeSet ∧ x ≠ sp)
    (sorted : SortedByLess gm.dataOf mergeSet) :
    ∃ sortedArr, gh.sortByBlueWork allMergeSet = pure sortedArr ∧
      sortedArr.filter (· ≠ sp) = mergeSet := by
  obtain ⟨sortedArr, sortedEq, perm, sortedArr'⟩ :=
    GhostdagHelper.sortByBlueWork_spec nodup fun x mem => mirrors.found (sub x mem)
  have mergeSetDone : ∀ x ∈ mergeSet, x ∈ done := fun x mem => sub x ((members x).mp mem).1
  have filtered : (sortedArr.filter (· ≠ sp)).Perm mergeSet := by
    refine (List.perm_ext_iff_of_nodup ((perm.nodup_iff.mpr nodup).filter _) mergeSetNodup).mpr
      fun x => ?_
    rw [List.mem_filter, perm.mem_iff, members, decide_eq_true_iff]
  have sortedFiltered : SortedByLess gh.dataOf (sortedArr.filter (· ≠ sp)) :=
    List.Pairwise.sublist List.filter_sublist sortedArr'
  refine ⟨sortedArr, sortedEq, SortedByLess.eq_of_perm (fun x mem => ?_) sortedFiltered
    (SortedByLess.of_blueWork (mirrors.blueWork_eq mergeSetDone) sorted) filtered⟩
  exact mirrors.found (mergeSetDone x (filtered.mem_iff.mp mem))

theorem Mirrors.findBlueSet (input : DagInput gm₀ order)
    (inv : RunInvariant gm₀ gm order.toFinset done) (doneOrder : ∀ x ∈ done, x ∈ order)
    (mirrors : Mirrors gm gh done) {fuel : Nat} (enough : 2 ^ order.length ≤ fuel)
    {sp : DomainHash} {spData spData' : BlockGHOSTDAGData} (spMem : sp ∈ done)
    (spFound' : gh.dataOf sp = some spData') (same : SameData spData spData') :
    ∃ blueSet, gh.findBlueSet fuel [] sp = pure blueSet ∧ blueSet.Nodup ∧
      ∀ y, y ∈ blueSet ↔ y = sp ∨ InBlueSet gm.dataOf spData y := by
  have done' := inv.processed
  have chain : ∀ c ∈ done, ∀ dc, gh.dataOf c = some dc → ∀ c', dc.selectedParent = some c' →
      c' ∈ done ∧ c' ∈ dc.mergeSetBlues ∧ order.idxOf c' < order.idxOf c := by
    intro c cMem dc' cFound' c' selected'
    obtain ⟨dc, cFound, sameC⟩ := mirrors.of_helper_found cMem cFound'
    rw [sameC.selectedParent_eq] at selected'
    obtain ⟨parent, blue⟩ := inv.selectedParent_mem cMem cFound selected'
    refine ⟨done'.closed c cMem c' parent, by rw [sameC.mergeSetBlues_eq]; exact blue, ?_⟩
    rw [inv.parents_eq] at parent
    exact idxOf_lt_of_mem_parents input (doneOrder c cMem) parent
  have deep : order.idxOf sp + 1 < fuel := by
    have indexed := List.idxOf_lt_length_iff.mpr (doneOrder sp spMem)
    have small := Nat.lt_two_pow_self (n := order.length)
    omega
  obtain ⟨blueSet, walked, nodup, members⟩ :=
    GhostdagHelper.findBlueSet_spec chain (fun c mem => mirrors.found mem) spMem spFound' deep
  refine ⟨blueSet, walked, nodup, fun y => ?_⟩
  rw [members, mirrors.inBlueSet_iff done' fun c' selected => (chain sp spMem spData' spFound' c'
    selected).1, inBlueSet_congr_data same.mergeSetBlues_eq same.selectedParent_eq]

theorem Mirrors.ghostdag (input : DagInput gm₀ order) (positive : PositiveWork gm₀ order)
    (strict : ∀ a, gm₀.isAncestorOf a a = false) {fuel : Nat} (enough : 2 ^ order.length ≤ fuel)
    (inv : ClusterInvariant gm₀ gm order.toFinset done) (doneOrder : ∀ x ∈ done, x ∈ order)
    (mirrors : Mirrors gm gh done) {blockHash : DomainHash} (blockOrder : blockHash ∈ order)
    (fresh : blockHash ∉ done) (parentsDone : ∀ p ∈ gm₀.parents blockHash, p ∈ done) :
    ∃ data data', gm.ghostdag fuel blockHash = pure data ∧ gh.ghostdag fuel blockHash = pure data' ∧
      SameData data data' := by
  have done' := inv.run.processed
  have ctx := inv.run.blockContext input doneOrder blockOrder fresh parentsDone
  have short := inv.run.length_lt (Nat.lt_two_pow_self.trans_le enough) doneOrder
  obtain ⟨sp, spData, mergeSet, colored, among, spFound, nodup, mergeSetMem, sorted, coloring, -,
    coloredSelected, -, -, bluesDone, computed⟩ := GhostdagManager.ghostdag_colored done' ctx short
  have spMem := ctx.parents_mem sp among.1
  obtain ⟨first, rest, parentsEq⟩ := List.exists_cons_of_ne_nil ctx.parents_ne_nil
  have ghParents : gh.parents blockHash = first :: rest := by rw [mirrors.parents_eq, parentsEq]
  obtain ⟨spData₁, spData', selected, spFound₁, spFound', same⟩ := mirrors.selectParent input
    positive inv.run doneOrder parentsEq ctx.parents_mem ctx.parents_nodup among
  obtain rfl := Option.some.inj (spFound.symm.trans spFound₁)
  obtain ⟨allMergeSet, merged, allNodup, allMem⟩ :=
    mirrors.findMergeSet input inv.run doneOrder enough ctx blockOrder among.1
  have allDone : ∀ x ∈ allMergeSet, x ∈ done := by
    intro x mem
    rcases (allMem x).mp mem with rfl | ⟨past, -⟩
    · exact spMem
    · exact ctx.mem_of_past done' past
  have withoutSelected : ∀ x, x ∈ mergeSet ↔ x ∈ allMergeSet ∧ x ≠ sp := by
    intro x
    rw [mergeSetMem, allMem]
    constructor
    · rintro ⟨past, outside⟩
      exact ⟨Or.inr ⟨past, outside⟩, fun same => outside (by rw [same]; exact PastOrSelf.refl sp)⟩
    · rintro ⟨rfl | inside, ne⟩
      · exact absurd rfl ne
      · exact inside
  obtain ⟨sortedArr, sortedEq, filtered⟩ :=
    mirrors.sortByBlueWork allDone allNodup nodup withoutSelected sorted
  obtain ⟨blueSet, walked, blueNodup, blueMem⟩ :=
    mirrors.findBlueSet input inv.run doneOrder enough spMem spFound' same
  have outside : ∀ c ∈ mergeSet, c ∈ done ∧ ¬ PastOrSelf gm.parents c sp := fun c mem =>
    ⟨ctx.mem_of_past done' ((mergeSetMem c).mp mem).1, ((mergeSetMem c).mp mem).2⟩
  have notGenesis : blockHash ≠ gm.genesisHash := fun eq => ctx.fresh (eq ▸ done'.genesis_mem)
  have strict' : ∀ a, gm.isAncestorOf a a = false := by
    rw [inv.run.isAncestorOf_eq]
    exact strict
  obtain ⟨colored', coloring', -, tracks⟩ := GhostdagManager.foldlM_colorCandidate_induction done'
    short ctx.parents_mem spMem spFound ctx.done_subset inv.kCluster inv.run.chained
    (inv.run.blueWork_lt input positive doneOrder) (GhostdagManager.entry_newBlockData among.1
      notGenesis) rfl (by simp) rfl rfl
    (kCluster_newBlockData spFound (inv.kCluster sp spMem spData spFound)
      (inv.run.chained sp spMem spData spFound).2) nodup sorted outside
    (fun c mem => ctx.antichain.not_past_of_past among.1 ((mergeSetMem c).mp mem).1)
    (fun seen current =>
      Tracks gm current (seen.foldl (fun cs x => gh.divideBlueRed x cs) ⟨[sp], [], blueSet⟩))
    ⟨rfl, rfl, blueNodup, fun y => by
      show y ∈ blueSet ↔ _
      rw [blueMem, inBlueSet_iff_of_selected (d := ⟨0, 0, some sp, [sp], [], AList.insert sp 0 ∅⟩)
        rfl spFound, List.mem_singleton]⟩
    (fun seen c current colored tracks turn => by
      rw [List.foldl_append, List.foldl_cons, List.foldl_nil]
      exact tracks.divideBlueRed done' mirrors ctx.done_subset strict' turn)
  rw [coloring] at coloring'
  obtain rfl := GhostdagM.pure_inj coloring'
  have colorEq : sortedArr.foldl (gh.colorMergeSetBlock sp) ⟨[sp], [], blueSet⟩ =
      mergeSet.foldl (fun cs x => gh.divideBlueRed x cs) ⟨[sp], [], blueSet⟩ := by
    rw [GhostdagHelper.foldl_colorMergeSetBlock sortedArr (List.mem_singleton_self sp), filtered]
  have worked := mirrors.foldlM_addWork _
    (fun b mem => ctx.header b (bluesDone b (by rw [← tracks.blues_eq]; exact mem)))
    spData'.blueWork
  have computed' := GhostdagHelper.ghostdag_eq ghParents selected
    (by rw [← ghParents]; exact merged) sortedEq walked colorEq worked
  refine ⟨_, _, computed, computed', ?_, ?_, coloredSelected.symm.trans rfl, tracks.blues_eq,
    tracks.reds_eq⟩
  · rw [same.blueScore_eq, tracks.blues_eq]
  · rw [same.blueWork_eq, tracks.blues_eq]

end Block

/-! ### The run -/

section Run

variable {gm₀ : GhostdagManager} {order : List DomainHash}

theorem ghostdagRun_mirrors (input : DagInput gm₀ order) (positive : PositiveWork gm₀ order)
    (strict : ∀ a, gm₀.isAncestorOf a a = false) {fuel : Nat} (enough : 2 ^ order.length ≤ fuel)
    (rest : List DomainHash) {gm : GhostdagManager} {gh : GhostdagHelper} {done : List DomainHash}
    (topological : Topological gm₀.parents done rest) (restOrder : ∀ x ∈ rest, x ∈ order)
    (inv : ClusterInvariant gm₀ gm order.toFinset done) (doneOrder : ∀ x ∈ done, x ∈ order)
    (mirrors : Mirrors gm gh done) :
    ∃ gm' gh', gm.ghostdagRun fuel rest = pure gm' ∧ gh.ghostdagRun fuel rest = pure gh' ∧
      Mirrors gm' gh' (rest.reverse ++ done) := by
  induction rest generalizing gm gh done with
  | nil => exact ⟨gm, gh, rfl, rfl, mirrors⟩
  | cons b rest ih =>
    obtain ⟨before, fresh, topological⟩ := topological
    have bOrder := restOrder b List.mem_cons_self
    obtain ⟨data, data', computed, computed', same⟩ :=
      mirrors.ghostdag input positive strict enough inv doneOrder bOrder fresh before
    obtain ⟨data₁, computed₁, inv'⟩ := inv.ghostdag input positive
      (Nat.lt_two_pow_self.trans_le enough) doneOrder bOrder fresh before
    rw [computed] at computed₁
    obtain rfl := GhostdagM.pure_inj computed₁
    obtain ⟨gm', gh', ran, ran', final⟩ :=
      ih topological (fun x mem => restOrder x (List.mem_cons_of_mem _ mem)) inv'
        (List.forall_mem_cons.mpr ⟨bOrder, doneOrder⟩) (mirrors.stage same)
    refine ⟨gm', gh', ?_, ?_, by simpa using final⟩
    · simp only [GhostdagManager.ghostdagRun, computed, pure_bind, ran]
    · simp only [GhostdagHelper.ghostdagRun, computed', pure_bind, ran']

end Run

def testDiamond : GhostdagManager :=
  { diamond with isAncestorOf := testIsAncestorOf diamondParents 4 }

theorem testDiamond_validShape : ValidShape testDiamond [⟨0⟩, ⟨1⟩, ⟨2⟩, ⟨3⟩] :=
  ⟨diamond_valid.acyclic, diamond_valid.topological, diamond_valid.genesis_first,
    diamond_valid.genesis_parents, diamond_valid.parents_ne_nil, diamond_valid.parents_nodup,
    diamond_valid.parents_antichain, diamond_valid.header, diamond_valid.virtualGenesis_not_mem,
    diamond_valid.unstored, diamond_valid.small⟩

/-- Without parents that form an antichain the two part. On genesis ← a ← c with b on a and c,
    all blocks of the genesis's bits and K = 18, c is b's selected parent and a is in its past:
    the ghostdag manager puts every parent but the selected one in the merge set and colours a
    blue, ghostdag2 leaves a out as a block of the selected parent's past. -/
example :
    let genesis : DomainHash := ⟨0⟩
    let a : DomainHash := ⟨1⟩
    let c : DomainHash := ⟨2⟩
    let b : DomainHash := ⟨3⟩
    let parents : DomainHash → List DomainHash := fun h =>
      if h = b then [a, c] else if h = c then [a] else if h = a then [genesis] else []
    let store : DomainHash → Bool → Option BlockGHOSTDAGData := fun h isTrustedData =>
      if h = genesis ∧ isTrustedData = false then some ⟨0, 0, none, [], [], ∅⟩ else none
    let headers : DomainHash → Option BlockHeader := fun _ => some ⟨1, 1, 0x207fffff⟩
    let gm : GhostdagManager := ⟨parents, testIsAncestorOf parents 4, store, headers, 18, genesis⟩
    let gh : GhostdagHelper := ⟨18, store, parents, testIsAncestorOf parents 4, headers⟩
    Past parents a c ∧
    ∃ gm' gh' data data', gm.ghostdagRun 10 [a, c, b] = pure gm' ∧
      gh.ghostdagRun 10 [a, c, b] = pure gh' ∧
      gm'.ghostdagDataStore b false = some data ∧ gh'.dataStore b false = some data' ∧
      data.selectedParent = some c ∧ data'.selectedParent = some c ∧
      data.mergeSetBlues = [c, a] ∧ data'.mergeSetBlues = [c] ∧
      data.blueScore = 4 ∧ data'.blueScore = 3 :=
  ⟨past_of_mem_parents (by decide), _, _, _, _, rfl, rfl, rfl, rfl, rfl, rfl, rfl, rfl, rfl, rfl⟩

end Ghostdag2
