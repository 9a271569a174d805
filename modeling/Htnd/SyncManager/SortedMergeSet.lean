import Htnd.SyncManager.ChainOracles
import Htnd.GhostdagManager.KCluster

/-!
The order in which `GetSortedMergeSet` (ghostdagmanager/mergeset.go) lists a block's merge set.
GHOSTDAG colors the merge set in the order `Less` sorts it, appending each candidate to the blues
or to the reds, so the blues after the selected parent and the reds come out sorted by `Less` on
every DAG, and the merge of the two keeps that order. When every block has work, blue work grows
along the past, `Less` puts no block before one of its past, and the sorted merge set, the
selected parent first, is a topological order: the data a GHOSTDAG run leaves is `Ordered` in the
sense the anti-past walk reads it.
-/
namespace Ghostdag
open GoSemantics Utxo

structure MergeSetSorted (dataOf : DomainHash → Option BlockGHOSTDAGData) (done : List DomainHash)
    (d : BlockGHOSTDAGData) : Prop where
  blues : SortedByLess dataOf d.mergeSetBlues.tail
  reds : SortedByLess dataOf d.mergeSetReds
  mem : ∀ x ∈ d.mergeSetBlues ++ d.mergeSetReds, x ∈ done

namespace GhostdagManager
variable {gm : GhostdagManager}

section Coloring
variable {fuel : Nat}

theorem colorCandidate_appends {newBlockData colored : BlockGHOSTDAGData} {blueCandidate : DomainHash}
    (turn : gm.colorCandidate fuel newBlockData blueCandidate = pure colored) :
    (colored.mergeSetBlues = newBlockData.mergeSetBlues ++ [blueCandidate] ∧
        colored.mergeSetReds = newBlockData.mergeSetReds) ∨
      (colored.mergeSetBlues = newBlockData.mergeSetBlues ∧
        colored.mergeSetReds = newBlockData.mergeSetReds ++ [blueCandidate]) := by
  obtain ⟨⟨isBlue, _, _⟩, -, colorTurn⟩ := bind_eq_pure turn
  cases isBlue with
  | false =>
    obtain rfl := GhostdagM.pure_inj colorTurn
    exact .inr ⟨rfl, rfl⟩
  | true =>
    obtain rfl := GhostdagM.pure_inj colorTurn
    exact .inl ⟨rfl, rfl⟩

theorem foldlM_colorCandidate_sublist {mergeSet : List DomainHash} :
    ∀ {newBlockData colored : BlockGHOSTDAGData},
      mergeSet.foldlM (gm.colorCandidate fuel) newBlockData = pure colored →
      ∃ blues reds, colored.mergeSetBlues = newBlockData.mergeSetBlues ++ blues ∧
        colored.mergeSetReds = newBlockData.mergeSetReds ++ reds ∧
        blues.Sublist mergeSet ∧ reds.Sublist mergeSet := by
  induction mergeSet with
  | nil =>
    intro newBlockData colored coloring
    obtain rfl := GhostdagM.pure_inj coloring
    exact ⟨[], [], by simp, by simp, List.nil_sublist _, List.nil_sublist _⟩
  | cons c rest ih =>
    intro newBlockData colored coloring
    rw [List.foldlM_cons] at coloring
    obtain ⟨current, turn, coloring⟩ := bind_eq_pure coloring
    obtain ⟨blues, reds, bluesEq, redsEq, bluesSub, redsSub⟩ := ih coloring
    rcases colorCandidate_appends turn with ⟨bluesTurn, redsTurn⟩ | ⟨bluesTurn, redsTurn⟩
    · exact ⟨c :: blues, reds, by simp [bluesEq, bluesTurn], by simp [redsEq, redsTurn],
        bluesSub.cons_cons c, redsSub.cons c⟩
    · exact ⟨blues, c :: reds, by simp [bluesEq, bluesTurn], by simp [redsEq, redsTurn],
        bluesSub.cons c, redsSub.cons_cons c⟩

theorem ghostdag_sorted {done : List DomainHash} {blocks : Finset DomainHash} {blockHash : DomainHash}
    (done' : Done gm done) (ctx : BlockContext gm done blocks blockHash) (enough : done.length < fuel) :
    ∃ data, gm.ghostdag fuel blockHash = pure data ∧ MergeSetSorted gm.dataOf done data := by
  obtain ⟨sp, spData, mergeSet, colored, -, -, -, mergeSetMem, sorted, coloring, -, -, -, -,
    bluesDone, computed⟩ := ghostdag_colored done' ctx enough
  obtain ⟨blues, reds, bluesEq, redsEq, bluesSub, redsSub⟩ := foldlM_colorCandidate_sublist coloring
  simp only [List.singleton_append, List.nil_append] at bluesEq redsEq
  refine ⟨_, computed, ?_, ?_, ?_⟩
  · show SortedByLess gm.dataOf colored.mergeSetBlues.tail
    rw [bluesEq, List.tail_cons]
    exact List.Pairwise.sublist bluesSub sorted
  · show SortedByLess gm.dataOf colored.mergeSetReds
    rw [redsEq]
    exact List.Pairwise.sublist redsSub sorted
  · intro x mem
    rcases List.mem_append.mp mem with blue | red
    · exact bluesDone x blue
    · rw [redsEq] at red
      exact ctx.mem_of_past done' ((mergeSetMem x).mp (redsSub.subset red)).1

end Coloring

theorem sortedByLess_stage {blockHash : DomainHash} {data : BlockGHOSTDAGData} {l : List DomainHash}
    (sorted : SortedByLess gm.dataOf l) (fresh : blockHash ∉ l) :
    SortedByLess (gm.stage blockHash data).dataOf l := by
  refine List.Pairwise.imp_of_mem (fun {x y} xMem yMem less dx dy xFound yFound => ?_) sorted
  rw [dataOf_stage_of_ne (ne_of_mem_of_not_mem xMem fresh)] at xFound
  rw [dataOf_stage_of_ne (ne_of_mem_of_not_mem yMem fresh)] at yFound
  exact less dx dy xFound yFound

end GhostdagManager

theorem MergeSetSorted.stage {gm : GhostdagManager} {done : List DomainHash} {d : BlockGHOSTDAGData}
    (sorted : MergeSetSorted gm.dataOf done d) {blockHash : DomainHash} (fresh : blockHash ∉ done)
    (data : BlockGHOSTDAGData) : MergeSetSorted (gm.stage blockHash data).dataOf (blockHash :: done) d where
  blues := GhostdagManager.sortedByLess_stage sorted.blues fun mem =>
    fresh (sorted.mem _ (List.mem_append_left _ (List.mem_of_mem_tail mem)))
  reds := GhostdagManager.sortedByLess_stage sorted.reds fun mem =>
    fresh (sorted.mem _ (List.mem_append_right _ mem))
  mem x mem := List.mem_cons_of_mem _ (sorted.mem x mem)

structure SortedInvariant (gm₀ gm : GhostdagManager) (blocks : Finset DomainHash)
    (done : List DomainHash) : Prop where
  run : RunInvariant gm₀ gm blocks done
  sorted : ∀ x ∈ done, ∀ d, gm.dataOf x = some d → MergeSetSorted gm.dataOf done d

section Run
variable {gm₀ gm : GhostdagManager} {order done : List DomainHash}

theorem SortedInvariant.ghostdag (valid : ValidDAG gm₀ order) {fuel : Nat} (enough : order.length < fuel)
    (inv : SortedInvariant gm₀ gm order.toFinset done) (doneOrder : ∀ x ∈ done, x ∈ order)
    {blockHash : DomainHash} (blockOrder : blockHash ∈ order) (fresh : blockHash ∉ done)
    (parentsDone : ∀ p ∈ gm₀.parents blockHash, p ∈ done) :
    ∃ data, gm.ghostdag fuel blockHash = pure data ∧
      SortedInvariant gm₀ (gm.stage blockHash data) order.toFinset (blockHash :: done) := by
  obtain ⟨data, computed, run'⟩ :=
    inv.run.ghostdag valid.toDagInput enough doneOrder blockOrder fresh parentsDone
  obtain ⟨data', computed', sorted⟩ := GhostdagManager.ghostdag_sorted inv.run.processed
    (inv.run.blockContext valid.toDagInput doneOrder blockOrder fresh parentsDone)
    (inv.run.length_lt enough doneOrder)
  rw [computed] at computed'
  obtain rfl := GhostdagM.pure_inj computed'
  refine ⟨data, computed, run', fun x mem d found => ?_⟩
  rcases List.mem_cons.mp mem with rfl | mem
  · rw [GhostdagManager.dataOf_stage, if_pos rfl, Option.some.injEq] at found
    subst found
    exact sorted.stage fresh _
  · have older : x ≠ blockHash := fun eq => fresh (eq ▸ mem)
    rw [dataOf_stage_of_ne older] at found
    exact (inv.sorted x mem d found).stage fresh _

theorem SortedInvariant.genesis (valid : ValidDAG gm₀ order) {fuel : Nat} (started : 0 < fuel) :
    gm₀.ghostdag fuel gm₀.genesisHash = pure ⟨0, 0, none, [], [], ∅⟩ ∧
      SortedInvariant gm₀ (gm₀.stage gm₀.genesisHash ⟨0, 0, none, [], [], ∅⟩) order.toFinset
        [gm₀.genesisHash] := by
  obtain ⟨computed, run⟩ := RunInvariant.genesis valid.toDagInput started
  refine ⟨computed, run, fun x mem d found => ?_⟩
  rw [List.mem_singleton.mp mem, GhostdagManager.dataOf_stage, if_pos rfl, Option.some.injEq] at found
  subst found
  exact ⟨List.Pairwise.nil, List.Pairwise.nil, fun _ mem => absurd mem List.not_mem_nil⟩

theorem SortedInvariant.of_ghostdagRun (valid : ValidDAG gm₀ order) {fuel : Nat}
    (enough : order.length < fuel) :
    ∃ gm', gm₀.ghostdagRun fuel order = pure gm' ∧
      SortedInvariant gm₀ gm' order.toFinset order.reverse :=
  ghostdagRun_of_genesis valid.toDagInput _ ⟨_, SortedInvariant.genesis valid (Nat.zero_lt_of_lt enough)⟩
    fun _ _ _ inv doneOrder before fresh blockOrder =>
      inv.ghostdag valid enough doneOrder blockOrder fresh before

end Run

end Ghostdag

namespace SyncManager.Manager
open Utxo Ghostdag Dag

variable {sm : Manager}

theorem ordered_of_sortedInvariant {gm₀ : GhostdagManager} {order : List DomainHash}
    (valid : ValidDAG gm₀ order) (positive : PositiveWork gm₀ order)
    (inv : SortedInvariant gm₀ sm.ghostdagManager order.toFinset order.reverse) :
    sm.Ordered order.toFinset where
  less_of_past x _ y yMem past dx dy xFound yFound := less_eq_true_iff.2 <| .inl <|
    inv.run.blueWork_lt valid.toDagInput positive (fun _ mem => List.mem_reverse.mp mem) x y
      (List.mem_reverse.mpr (List.mem_toFinset.mp yMem)) past dx dy xFound yFound
  sorted b mem d found :=
    have inOrder := inv.sorted b (List.mem_reverse.mpr (List.mem_toFinset.mp mem)) d found
    ⟨inOrder.blues, inOrder.reds⟩

end SyncManager.Manager

namespace Ghostdag
open Utxo Dag SyncManager.Manager

variable {order : List DomainHash}

/-- **The sorted merge set.** Run over a DAG that block validation lets through and whose blocks
    all have work, in an order that inserts the genesis first and every block after its parents,
    with fuel above the number of blocks, GHOSTDAG returns. `GetSortedMergeSet` then lists
    nothing for the genesis, and for every other block its selected parent and then the rest of
    its merge-set blues and reds, each once, the rest sorted by `Less`, that is by blue work and
    then by hash; and no block of the list comes before a block of its past. -/
theorem getSortedMergeSet_topological {gm : GhostdagManager} (valid : ValidDAG gm order)
    (positive : PositiveWork gm order) {fuel : Nat} (enough : order.length < fuel) :
    ∃ gm', gm.ghostdagRun fuel order = pure gm' ∧
      gm'.getSortedMergeSet fuel gm.genesisHash = pure [] ∧
      ∀ B ∈ order, B ≠ gm.genesisHash → ∃ data sp merged, gm'.dataOf B = some data ∧
        data.selectedParent = some sp ∧ gm'.getSortedMergeSet fuel B = pure (sp :: merged) ∧
        (sp :: merged).Perm (data.mergeSetBlues ++ data.mergeSetReds) ∧ (sp :: merged).Nodup ∧
        SortedByLess gm'.dataOf merged ∧
        (sp :: merged).Pairwise fun x y => ¬ Past gm.parents y x := by
  obtain ⟨gm', ran, inv⟩ := SortedInvariant.of_ghostdagRun valid enough
  have done' := inv.run.processed
  refine ⟨gm', ran, ?_, fun B mem notGenesis => ?_⟩
  · obtain ⟨d, found, entry⟩ := done'.stored _ done'.genesis_mem
    have noBlues := entry.genesis_blues rfl
    rw [inv.run.genesisHash_eq] at found
    simp only [GhostdagManager.getSortedMergeSet, GhostdagManager.getGHOSTDAGData_of_found found,
      pure_bind, noBlues]
  have bDone : B ∈ order.reverse := List.mem_reverse.mpr mem
  obtain ⟨data, sp, spData, found, scores⟩ :=
    inv.run.mergeSetScores B bDone (by rwa [inv.run.genesisHash_eq])
  obtain ⟨blues, bluesEq⟩ := List.head?_eq_some_iff.mp scores.head_eq
  have inOrder := inv.sorted B bDone data found
  have haveData : ∀ x ∈ data.mergeSetBlues ++ data.mergeSetReds, (gm'.dataOf x).isSome := by
    intro x mem
    obtain ⟨d, found, -⟩ := done'.stored x (inOrder.mem x mem)
    simp [found]
  have short : (data.mergeSetBlues ++ data.mergeSetReds).length ≤ fuel := by
    have within := (List.subperm_of_subset scores.nodup inOrder.mem).length_le
    rw [List.length_reverse] at within
    omega
  obtain ⟨merged, sorted, perm, mergedSorted⟩ :=
    GhostdagManager.getSortedMergeSet_eq found bluesEq haveData scores.nodup short
  have bluesSorted : SortedByLess gm'.dataOf blues := by
    simpa only [bluesEq, List.tail_cons] using inOrder.blues
  have mergedSorted := mergedSorted bluesSorted inOrder.reds
  refine ⟨data, sp, merged, found, scores.selectedParent_eq, sorted, perm,
    perm.nodup_iff.2 scores.nodup, mergedSorted, ?_⟩
  have consistent := consistent_chainOracles_of_runInvariant valid inv.run enough.le 0
  have ordered : (chainOracles gm' fuel 0).Ordered order.toFinset :=
    ordered_of_sortedInvariant valid positive inv
  have topological := consistent.topological_sorted ordered (List.mem_toFinset.mpr mem)
    (chainLink_of_mergeSetScores scores done'.acyclic) rfl perm mergedSorted
  rw [← inv.run.parents_eq]
  exact topological

theorem getSortedMergeSet_topological_diamond :
    ValidDAG diamond [⟨0⟩, ⟨1⟩, ⟨2⟩, ⟨3⟩] ∧ PositiveWork diamond [⟨0⟩, ⟨1⟩, ⟨2⟩, ⟨3⟩] ∧
      [(⟨0⟩ : DomainHash), ⟨1⟩, ⟨2⟩, ⟨3⟩].length < 5 ∧
      ∃ gm', diamond.ghostdagRun 5 [⟨0⟩, ⟨1⟩, ⟨2⟩, ⟨3⟩] = pure gm' :=
  ⟨diamond_valid, diamond_positiveWork, by decide,
    (getSortedMergeSet_topological diamond_valid diamond_positiveWork (by decide)).imp
      fun _ ran => ran.1⟩

def parentInPastParents (h : DomainHash) : List DomainHash :=
  if h = ⟨2⟩ then [⟨0⟩, ⟨1⟩] else if h = ⟨1⟩ then [⟨0⟩] else []

/-- A DAG that `checkParentsIncest` turns away: block `⟨2⟩` has the genesis `⟨0⟩` and `⟨1⟩` as
    parents, and the genesis is in the past of `⟨1⟩`. Every header has work. -/
def parentInPast : GhostdagManager where
  parents := parentInPastParents
  isAncestorOf a b := decide (a ∈ pastOrSelfList parentInPastParents 2 b)
  ghostdagDataStore _ _ := none
  headerStore _ := some ⟨1, 1, 0x207fffff⟩
  k := 18
  genesisHash := ⟨0⟩

theorem parentInPast_positiveWork : PositiveWork parentInPast [⟨0⟩, ⟨1⟩, ⟨2⟩] := by
  intro b _ header found
  obtain rfl := Option.some.inj found
  decide

theorem parentInPast_not_antichain : ¬ Antichain parentInPast.parents (parentInPast.parents ⟨2⟩) :=
  fun antichain => antichain ⟨0⟩ (by decide) ⟨1⟩ (by decide) (past_of_mem_parents (by decide))

/-- Without the antichain of parents the order is not topological: every header has work, yet
    the sorted merge set of `⟨2⟩` lists its selected parent `⟨1⟩` before the genesis, which is in
    the past of `⟨1⟩`. -/
theorem getSortedMergeSet_puts_parent_before_its_past :
    PositiveWork parentInPast [⟨0⟩, ⟨1⟩, ⟨2⟩] ∧
      ¬ Antichain parentInPast.parents (parentInPast.parents ⟨2⟩) ∧
      ∃ gm', parentInPast.ghostdagRun 10 [⟨0⟩, ⟨1⟩, ⟨2⟩] = pure gm' ∧
        gm'.getSortedMergeSet 10 ⟨2⟩ = pure [⟨1⟩, ⟨0⟩] ∧ Past parentInPast.parents ⟨0⟩ ⟨1⟩ := by
  obtain ⟨gm', run, observed⟩ :=
    GoSemantics.exists_ok_of_check (x := (parentInPast.ghostdagRun 10 [⟨0⟩, ⟨1⟩, ⟨2⟩]).run)
      (p := fun gm' => decide ((gm'.getSortedMergeSet 10 ⟨2⟩).run.bind Except.toOption = some [⟨1⟩, ⟨0⟩]))
      (by decide)
  have read := GoSemantics.eq_some_ok_of_bind_toOption (of_decide_eq_true observed)
  exact ⟨parentInPast_positiveWork, parentInPast_not_antichain, gm', run, read,
    past_of_mem_parents (by decide)⟩

end Ghostdag
