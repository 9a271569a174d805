import Htnd.SyncManager.AntiPast
import Htnd.GhostdagManager.MergeSet

/-!
What `antiPastHashesBetween` returns on a DAG whose GHOSTDAG data is consistent. The merge sets
of the blocks of a selected chain telescope: the merge set of a chain block is its past outside
the past of its selected parent, so those of the blocks above `c` add up to the past of the top
block outside the past of `c`. Taking them, less the past of the low block, and the high block
lists once each block of the high block's past and the block itself that is outside the low
block's past and the low block. Each merge set comes sorted by `Less`, with the selected parent
first: the list is in topological order when `Less` orders every block after its past, as it
does when blue work grows along the DAG, and not otherwise.
-/
namespace Ghostdag.GhostdagManager
open GoSemantics Utxo

variable {gm : GhostdagManager}

theorem sortedMergeSetStep_cons_cons {sorted blues reds : List DomainHash} {blue red : DomainHash}
    {blueData redData : Ghostdag.BlockGHOSTDAGData} (blueFound : gm.dataOf blue = some blueData)
    (redFound : gm.dataOf red = some redData) :
    gm.sortedMergeSetStep ⟨sorted, blue :: blues, red :: reds⟩ =
      pure (if Less blue blueData red redData then .inl ⟨sorted ++ [blue], blues, red :: reds⟩
        else .inl ⟨sorted ++ [red], blue :: blues, reds⟩) := by
  simp only [sortedMergeSetStep, getGHOSTDAGData_of_found blueFound,
    getGHOSTDAGData_of_found redFound, pure_bind]
  split <;> rfl

theorem sortedMergeSetStep_done {s : SortedMergeSetLoop}
    (done : s.blueMergeSet = [] ∨ s.redMergeSet = []) :
    gm.sortedMergeSetStep s =
      pure (.inr (s.sortedMergeSet ++ s.blueMergeSet ++ s.redMergeSet)) := by
  obtain ⟨sorted, blues, reds⟩ := s
  rcases done with done | done <;> subst done
  · rfl
  · cases blues <;> rfl

def MergeState (gm : GhostdagManager) (pre all : List DomainHash) (sortedInputs : Prop)
    (s : SortedMergeSetLoop) : Prop :=
  (∀ x ∈ s.blueMergeSet ++ s.redMergeSet, (gm.dataOf x).isSome) ∧
  ∃ merged, s.sortedMergeSet = pre ++ merged ∧
    (merged ++ (s.blueMergeSet ++ s.redMergeSet)).Perm all ∧
    (sortedInputs → SortedByLess gm.dataOf (merged ++ s.blueMergeSet) ∧
      SortedByLess gm.dataOf (merged ++ s.redMergeSet))

theorem sortedByLess_take {merged front back : List DomainHash} {x y : DomainHash}
    {dx dy : Ghostdag.BlockGHOSTDAGData} (xFound : gm.dataOf x = some dx) (yFound : gm.dataOf y = some dy)
    (less : Less x dx y dy = true) (withX : SortedByLess gm.dataOf (merged ++ x :: front))
    (withY : SortedByLess gm.dataOf (merged ++ y :: back)) :
    SortedByLess gm.dataOf ((merged ++ [x]) ++ y :: back) := by
  unfold SortedByLess at *
  have prefixX : (merged ++ [x]).Sublist (merged ++ x :: front) := by
    simp
  rw [List.pairwise_append] at withY ⊢
  refine ⟨withX.sublist prefixX, withY.2.1, fun a aMem b bMem => ?_⟩
  rcases List.mem_append.mp aMem with aMem | aEq
  · exact withY.2.2 a aMem b bMem
  · obtain rfl := List.mem_singleton.mp aEq
    intro da db aFound bFound
    obtain rfl := Option.some.inj (aFound.symm.trans xFound)
    rcases List.mem_cons.mp bMem with rfl | bMem
    · obtain rfl := Option.some.inj (bFound.symm.trans yFound)
      exact less
    · exact less_trans less (List.rel_of_pairwise_cons withY.2.1 bMem dy db yFound bFound)

theorem mergeState_step {pre all : List DomainHash} {sortedInputs : Prop} (nodup : all.Nodup)
    {s : SortedMergeSetLoop} (state : MergeState gm pre all sortedInputs s) :
    (∃ l, (gm.sortedMergeSetStep s).run = some (.ok (.inr l)) ∧ ∃ merged, l = pre ++ merged ∧
      merged.Perm all ∧ (sortedInputs → SortedByLess gm.dataOf merged)) ∨
    ∃ s', (gm.sortedMergeSetStep s).run = some (.ok (.inl s')) ∧
      MergeState gm pre all sortedInputs s' ∧
      s'.blueMergeSet.length + s'.redMergeSet.length + 1 =
        s.blueMergeSet.length + s.redMergeSet.length := by
  obtain ⟨found, merged, sorted, perm, ordered⟩ := state
  obtain ⟨sortedMergeSet, blues, reds⟩ := s
  dsimp only at found sorted perm ordered ⊢
  match blues, reds with
  | blue :: blues, red :: reds =>
    right
    obtain ⟨blueData, blueFound⟩ := Option.isSome_iff_exists.mp (found blue (by simp))
    obtain ⟨redData, redFound⟩ := Option.isSome_iff_exists.mp (found red (by simp))
    have apart : blue ≠ red := by
      have left := (List.nodup_cons.mp ((perm.nodup_iff.mpr nodup).of_append_right)).1
      exact fun same => left (by simp [same])
    rw [sortedMergeSetStep_cons_cons blueFound redFound]
    by_cases less : Less blue blueData red redData = true
    · refine ⟨_, by rw [if_pos less]; rfl, ⟨?_, merged ++ [blue], ?_, ?_, ?_⟩, by dsimp only; simp only [List.length_cons]; omega⟩
      · intro x mem
        exact found x (by simp at mem ⊢; tauto)
      · simp [sorted]
      · simpa using perm
      · intro inputs
        obtain ⟨withBlue, withRed⟩ := ordered inputs
        exact ⟨by simpa using withBlue, sortedByLess_take blueFound redFound less withBlue withRed⟩
    · have redFirst := less_of_not_less apart (Bool.eq_false_iff.mpr less)
      refine ⟨_, by rw [if_neg less]; rfl, ⟨?_, merged ++ [red], ?_, ?_, ?_⟩, by dsimp only; simp only [List.length_cons]; omega⟩
      · intro x mem
        exact found x (by simp at mem ⊢; tauto)
      · simp [sorted]
      · refine List.Perm.trans ?_ perm
        simp only [List.append_assoc, List.singleton_append]
        exact List.Perm.append_left merged (List.perm_middle.symm)
      · intro inputs
        obtain ⟨withBlue, withRed⟩ := ordered inputs
        exact ⟨sortedByLess_take redFound blueFound redFirst withRed withBlue, by simpa using withRed⟩
  | [], reds =>
    left
    refine ⟨_, by rw [sortedMergeSetStep_done (.inl rfl)]; rfl, merged ++ reds, by simp [sorted],
      by simpa using perm, fun inputs => (ordered inputs).2⟩
  | blues, [] =>
    left
    refine ⟨_, by rw [sortedMergeSetStep_done (.inr rfl)]; rfl, merged ++ blues, by simp [sorted],
      by simpa using perm, fun inputs => (ordered inputs).1⟩

theorem sortedMergeSet_loop {pre all : List DomainHash} {sortedInputs : Prop} (nodup : all.Nodup)
    (fuel : Nat) (s : SortedMergeSetLoop) (state : MergeState gm pre all sortedInputs s)
    (enough : s.blueMergeSet.length + s.redMergeSet.length < fuel) :
    ∃ l, loop (fun s => (gm.sortedMergeSetStep s).run) fuel s = some (.ok l) ∧
      ∃ merged, l = pre ++ merged ∧ merged.Perm all ∧
        (sortedInputs → SortedByLess gm.dataOf merged) := by
  refine loop_eq_ok_of_bound (fun n s => MergeState gm pre all sortedInputs s ∧
      s.blueMergeSet.length + s.redMergeSet.length < n) _ (fun s holds => Nat.not_lt_zero _ holds.2)
    ?_ fuel s ⟨state, enough⟩
  intro n s ⟨state, bound⟩
  rcases mergeState_step nodup state with ⟨l, ended, result⟩ | ⟨s', turned, state', shorter⟩
  · exact .inl ⟨l, ended, result⟩
  · exact .inr ⟨s', turned, state', by omega⟩

theorem getSortedMergeSet_eq {fuel : Nat} {b selectedParent : DomainHash}
    {blues : List DomainHash} {d : Ghostdag.BlockGHOSTDAGData} (found : gm.dataOf b = some d)
    (bluesEq : d.mergeSetBlues = selectedParent :: blues)
    (haveData : ∀ x ∈ d.mergeSetBlues ++ d.mergeSetReds, (gm.dataOf x).isSome)
    (nodup : (d.mergeSetBlues ++ d.mergeSetReds).Nodup)
    (enough : (d.mergeSetBlues ++ d.mergeSetReds).length ≤ fuel) :
    ∃ merged, gm.getSortedMergeSet fuel b = pure (selectedParent :: merged) ∧
      (selectedParent :: merged).Perm (d.mergeSetBlues ++ d.mergeSetReds) ∧
      (SortedByLess gm.dataOf blues → SortedByLess gm.dataOf d.mergeSetReds →
        SortedByLess gm.dataOf merged) := by
  rw [bluesEq] at haveData nodup enough
  have start : MergeState gm [selectedParent] (blues ++ d.mergeSetReds)
      (SortedByLess gm.dataOf blues ∧ SortedByLess gm.dataOf d.mergeSetReds)
      ⟨[selectedParent], blues, d.mergeSetReds⟩ :=
    ⟨fun x mem => haveData x (by simp at mem ⊢; tauto), [], rfl, List.Perm.refl _,
      fun inputs => by simpa using inputs⟩
  obtain ⟨l, looped, merged, rfl, perm, ordered⟩ := sortedMergeSet_loop
    (List.nodup_cons.mp nodup).2 fuel _ start (by simp at enough ⊢; omega)
  refine ⟨merged, ?_, by rw [bluesEq]; exact perm.cons selectedParent,
    fun sortedBlues sortedReds => ordered ⟨sortedBlues, sortedReds⟩⟩
  simp only [getSortedMergeSet, getGHOSTDAGData_of_found found, pure_bind, bluesEq]
  rw [looped]
  rfl

end Ghostdag.GhostdagManager

namespace SyncManager
open GoSemantics Utxo Ghostdag Dag

namespace Manager
variable (sm : Manager)

def selectedParentOf (b : DomainHash) : Option DomainHash :=
  (sm.ghostdagManager.dataOf b).bind (·.selectedParent)

def OnChain : DomainHash → DomainHash → Prop :=
  Relation.ReflTransGen fun a b => sm.selectedParentOf b = some a

structure ChainLink (b : DomainHash) (d : Ghostdag.BlockGHOSTDAGData) (sp : DomainHash) : Prop where
  parent : sp ∈ sm.ghostdagManager.parents b
  firstBlue : ∃ blues, d.mergeSetBlues = sp :: blues
  nodup : (d.mergeSetBlues ++ d.mergeSetReds).Nodup
  mem_mergeSet_iff : ∀ x, x ∈ d.mergeSetBlues ++ d.mergeSetReds ↔
    Past sm.ghostdagManager.parents x b ∧ ¬ Past sm.ghostdagManager.parents x sp
  blueScore_le : ∀ spData, sm.ghostdagManager.dataOf sp = some spData → spData.blueScore ≤ d.blueScore

structure DataConsistent (blocks : Finset DomainHash) : Prop where
  acyclic : Acyclic sm.ghostdagManager.parents
  closed : ∀ b ∈ blocks, ∀ p ∈ sm.ghostdagManager.parents b, p ∈ blocks
  found : ∀ b ∈ blocks, (sm.ghostdagManager.dataOf b).isSome
  genesis : ∀ b ∈ blocks, ∀ d, sm.ghostdagManager.dataOf b = some d → d.selectedParent = none →
    b = sm.ghostdagManager.genesisHash
  link : ∀ b ∈ blocks, ∀ d sp, sm.ghostdagManager.dataOf b = some d → d.selectedParent = some sp →
    sm.ChainLink b d sp

/-- The chain queries answer as the selected chains do. `FindNextAncestor` does not check that
    its ancestor is one, so its answer is fixed only for a block on the chain. -/
structure Consistent (blocks : Finset DomainHash) : Prop extends sm.DataConsistent blocks where
  isAncestorOf_iff : ∀ a ∈ blocks, ∀ b ∈ blocks,
    sm.ghostdagManager.isAncestorOf a b = true ↔ PastOrSelf sm.ghostdagManager.parents a b
  isInSelectedParentChainOf_iff : ∀ a ∈ blocks, ∀ b ∈ blocks,
    sm.isInSelectedParentChainOf a b = true ↔ sm.OnChain a b
  findNextAncestor_iff : ∀ h ∈ blocks, ∀ c ∈ blocks, sm.OnChain c h → ∀ c',
    sm.findNextAncestor h c = some c' ↔ sm.OnChain c' h ∧ sm.selectedParentOf c' = some c

structure Ordered (blocks : Finset DomainHash) : Prop where
  less_of_past : ∀ x ∈ blocks, ∀ y ∈ blocks, Past sm.ghostdagManager.parents x y → ∀ dx dy,
    sm.ghostdagManager.dataOf x = some dx → sm.ghostdagManager.dataOf y = some dy →
      Less x dx y dy = true
  sorted : ∀ b ∈ blocks, ∀ d, sm.ghostdagManager.dataOf b = some d →
    SortedByLess sm.ghostdagManager.dataOf d.mergeSetBlues.tail ∧
      SortedByLess sm.ghostdagManager.dataOf d.mergeSetReds

variable {sm} {blocks : Finset DomainHash}

theorem selectedParentOf_eq {b sp : DomainHash} {d : Ghostdag.BlockGHOSTDAGData}
    (found : sm.ghostdagManager.dataOf b = some d) (selected : d.selectedParent = some sp) :
    sm.selectedParentOf b = some sp := by
  simp [selectedParentOf, found, selected]

theorem DataConsistent.data (consistent : sm.DataConsistent blocks) {b : DomainHash} (mem : b ∈ blocks) :
    ∃ d, sm.ghostdagManager.dataOf b = some d :=
  Option.isSome_iff_exists.mp (consistent.found b mem)

theorem DataConsistent.link_of_selectedParentOf (consistent : sm.DataConsistent blocks) {a b : DomainHash}
    (mem : b ∈ blocks) (selected : sm.selectedParentOf b = some a) :
    ∃ d, sm.ghostdagManager.dataOf b = some d ∧ d.selectedParent = some a ∧ sm.ChainLink b d a := by
  obtain ⟨d, found⟩ := consistent.data mem
  have selected' : d.selectedParent = some a := by simpa [selectedParentOf, found] using selected
  exact ⟨d, found, selected', consistent.link b mem d a found selected'⟩

theorem DataConsistent.onChain_pastOrSelf (consistent : sm.DataConsistent blocks) {a b : DomainHash}
    (mem : b ∈ blocks) (chain : sm.OnChain a b) :
    PastOrSelf sm.ghostdagManager.parents a b ∧ a ∈ blocks := by
  induction chain with
  | refl => exact ⟨PastOrSelf.refl _, mem⟩
  | tail _ step ih =>
    obtain ⟨_, _, _, link⟩ := consistent.link_of_selectedParentOf mem step
    obtain ⟨below, aMem⟩ := ih (consistent.closed _ mem _ link.parent)
    exact ⟨below.trans (Relation.ReflTransGen.single link.parent), aMem⟩

theorem DataConsistent.onChain_genesis (consistent : sm.DataConsistent blocks) {b : DomainHash}
    (mem : b ∈ blocks) : sm.OnChain sm.ghostdagManager.genesisHash b := by
  induction h : pastCard sm.ghostdagManager.parents blocks b using Nat.strong_induction_on
    generalizing b with
  | _ n ih =>
    obtain ⟨d, found⟩ := consistent.data mem
    cases selected : d.selectedParent with
    | none =>
      rw [consistent.genesis b mem d found selected]
      exact Relation.ReflTransGen.refl
    | some sp =>
      have link := consistent.link b mem d sp found selected
      have spMem := consistent.closed b mem sp link.parent
      have below := pastCard_lt consistent.acyclic spMem (past_of_mem_parents link.parent)
      exact (ih _ (h ▸ below) spMem rfl).tail (selectedParentOf_eq found selected)

theorem DataConsistent.blueScore_le (consistent : sm.DataConsistent blocks) {a b : DomainHash}
    (mem : b ∈ blocks) (chain : sm.OnChain a b) {da db : Ghostdag.BlockGHOSTDAGData}
    (aFound : sm.ghostdagManager.dataOf a = some da) (bFound : sm.ghostdagManager.dataOf b = some db) :
    da.blueScore ≤ db.blueScore := by
  induction chain generalizing db with
  | refl =>
    obtain rfl := Option.some.inj (aFound.symm.trans bFound)
    exact UInt64.le_refl _
  | tail _ step ih =>
    obtain ⟨d, found, _, link⟩ := consistent.link_of_selectedParentOf mem step
    obtain rfl := Option.some.inj (found.symm.trans bFound)
    have cMem := consistent.closed _ mem _ link.parent
    obtain ⟨dc, cFound⟩ := consistent.data cMem
    exact UInt64.le_trans (ih cMem cFound) (link.blueScore_le dc cFound)

theorem Consistent.findNextAncestor_of_onChain (consistent : sm.Consistent blocks)
    {c h : DomainHash} (mem : h ∈ blocks) (chain : sm.OnChain c h) (ne : c ≠ h) :
    ∃ c', sm.findNextAncestor h c = some c' ∧ sm.OnChain c' h ∧ sm.selectedParentOf c' = some c := by
  rcases Relation.ReflTransGen.cases_head chain with same | ⟨c', step, rest⟩
  · exact absurd same ne
  · have cMem := (consistent.onChain_pastOrSelf mem chain).2
    exact ⟨c', (consistent.findNextAncestor_iff h mem c cMem chain c').mpr ⟨rest, step⟩, rest, step⟩

theorem findLowHashStep_of_onChain {highHash lowHash : DomainHash}
    (onChain : sm.isInSelectedParentChainOf lowHash highHash = true) :
    (sm.findLowHashStep highHash lowHash).run = some (.ok (.inr lowHash)) := by
  simp [findLowHashStep, onChain]

theorem findLowHashStep_of_selectedParent {highHash lowHash sp : DomainHash} {d : Ghostdag.BlockGHOSTDAGData}
    (off : sm.isInSelectedParentChainOf lowHash highHash = false)
    (found : sm.ghostdagManager.dataOf lowHash = some d) (selected : d.selectedParent = some sp) :
    (sm.findLowHashStep highHash lowHash).run = some (.ok (.inl sp)) := by
  simp [findLowHashStep, off, getGHOSTDAGData, GhostdagManager.getGHOSTDAGData_of_found found,
    GhostdagManager.selectedParentOf, selected]

theorem Consistent.findLowHash (consistent : sm.Consistent blocks) {fuel : Nat}
    {lowHash highHash : DomainHash} (lowMem : lowHash ∈ blocks) (highMem : highHash ∈ blocks)
    (enough : blocks.card < fuel) :
    ∃ c, (sm.findLowHashInHighHashSelectedParentChain fuel lowHash highHash).run = some (.ok c) ∧
      sm.OnChain c lowHash ∧ sm.OnChain c highHash := by
  refine loop_eq_ok_of_bound (fun n low => low ∈ blocks ∧ sm.OnChain low lowHash ∧
      pastCard sm.ghostdagManager.parents blocks low < n) _ (fun _ holds => Nat.not_lt_zero _ holds.2.2)
    ?_ fuel lowHash ⟨lowMem, Relation.ReflTransGen.refl,
      (pastCard_lt_card consistent.acyclic lowMem).trans enough⟩
  intro n low ⟨mem, chain, bound⟩
  cases onChain : sm.isInSelectedParentChainOf low highHash with
  | true =>
    exact .inl ⟨low, findLowHashStep_of_onChain onChain, chain,
      (consistent.isInSelectedParentChainOf_iff low mem highHash highMem).mp onChain⟩
  | false =>
    obtain ⟨d, found⟩ := consistent.data mem
    cases selected : d.selectedParent with
    | none =>
      -- the genesis is on every selected chain, so the walk stops there at the latest
      have genesisChain := consistent.onChain_genesis highMem
      rw [← consistent.genesis low mem d found selected,
        ← consistent.isInSelectedParentChainOf_iff low mem highHash highMem, onChain] at genesisChain
      cases genesisChain
    | some sp =>
      have link := consistent.link low mem d sp found selected
      have spMem := consistent.closed low mem sp link.parent
      refine .inr ⟨sp, findLowHashStep_of_selectedParent onChain found selected, spMem,
        Relation.ReflTransGen.head (selectedParentOf_eq found selected) chain, ?_⟩
      exact lt_of_lt_of_le (pastCard_lt consistent.acyclic spMem (past_of_mem_parents link.parent))
        (Nat.le_of_lt_succ bound)

def Collected (c0 lowHash c : DomainHash) (hashes : List DomainHash) : Prop :=
  hashes.Nodup ∧ ∀ x, x ∈ hashes ↔ Past sm.ghostdagManager.parents x c ∧
    ¬ Past sm.ghostdagManager.parents x c0 ∧ ¬ PastOrSelf sm.ghostdagManager.parents x lowHash

def Topological (hashes : List DomainHash) : Prop :=
  hashes.Pairwise fun x y => ¬ Past sm.ghostdagManager.parents y x

structure Walking (blocks : Finset DomainHash) (c0 lowHash highHash : DomainHash)
    (maxBlocks : UInt64) (s : AntiPastLoop) : Prop where
  mem : s.current ∈ blocks
  above : sm.OnChain c0 s.current
  below : sm.OnChain s.current highHash
  highHash_eq : s.highHash = s.current ∨ s.highHash = highHash
  collected : sm.Collected c0 lowHash s.current s.blockHashes
  topological : sm.Ordered blocks → sm.Topological s.blockHashes
  bounded : maxBlocks ≠ 0 → s.blockHashes.length ≤ maxBlocks.toNat

def WalkResult (blocks : Finset DomainHash) (c0 lowHash highHash : DomainHash) (maxBlocks : UInt64)
    (result : List DomainHash × DomainHash) : Prop :=
  sm.OnChain result.2 highHash ∧ (maxBlocks ≠ 0 → result.1.length ≤ maxBlocks.toNat) ∧
    (maxBlocks = 0 → result.2 = highHash ∧ sm.Collected c0 lowHash highHash result.1 ∧
      (sm.Ordered blocks → sm.Topological result.1))

theorem antiPastStep_of_none {fuel : Nat} {lowHash highHash : DomainHash} {maxBlocks : UInt64}
    {s : AntiPastLoop} (next : sm.findNextAncestor highHash s.current = none) :
    (sm.antiPastStep fuel lowHash highHash maxBlocks s).run =
      some (.ok (.inr (s.blockHashes, s.highHash))) := by
  simp [antiPastStep, next]

theorem antiPastStep_of_some {fuel : Nat} {lowHash highHash current : DomainHash}
    {maxBlocks : UInt64} {s : AntiPastLoop} {sortedMergeSet : List DomainHash}
    (next : sm.findNextAncestor highHash s.current = some current)
    (sorted : sm.ghostdagManager.getSortedMergeSet fuel current = pure sortedMergeSet) :
    (sm.antiPastStep fuel lowHash highHash maxBlocks s).run =
      some (.ok (if maxBlocks ≠ 0 ∧
          (s.blockHashes.length + sortedMergeSet.length).toUInt64 > maxBlocks then
        .inr (s.blockHashes, s.highHash)
      else .inl ⟨current, current, s.blockHashes ++ sortedMergeSet.filter fun blockHash =>
        !sm.ghostdagManager.isAncestorOf blockHash lowHash⟩)) := by
  simp only [antiPastStep, next, sorted, liftGhostdag_pure, pure_bind]
  split <;> rfl

theorem DataConsistent.mem_of_past (consistent : sm.DataConsistent blocks) {a b : DomainHash}
    (mem : b ∈ blocks) (past : Past sm.ghostdagManager.parents a b) : a ∈ blocks :=
  mem_of_pastOrSelf (S := {x | x ∈ blocks}) consistent.closed mem past.pastOrSelf

section Step
variable {c0 lowHash current next : DomainHash} {d : Ghostdag.BlockGHOSTDAGData}
  {old sorted : List DomainHash}

theorem ChainLink.mem_sorted_iff (link : sm.ChainLink next d current)
    (perm : sorted.Perm (d.mergeSetBlues ++ d.mergeSetReds)) (x : DomainHash) :
    x ∈ sorted ↔ Past sm.ghostdagManager.parents x next ∧ ¬ Past sm.ghostdagManager.parents x current :=
  perm.mem_iff.trans (link.mem_mergeSet_iff x)

theorem length_le_card {l : List DomainHash} (nodup : l.Nodup) (inside : ∀ x ∈ l, x ∈ blocks) :
    l.length ≤ blocks.card :=
  (nodup.subperm fun x mem => Finset.mem_toList.mpr (inside x mem)).length_le.trans_eq
    (Finset.length_toList blocks)

theorem Consistent.length_append_le (consistent : sm.Consistent blocks) (nextMem : next ∈ blocks) (link : sm.ChainLink next d current)
    (perm : sorted.Perm (d.mergeSetBlues ++ d.mergeSetReds))
    (collected : sm.Collected c0 lowHash current old) :
    old.length + sorted.length ≤ blocks.card := by
  have apart : ∀ x ∈ old, x ∉ sorted := fun x oldMem sortedMem =>
    ((link.mem_sorted_iff perm x).mp sortedMem).2 ((collected.2 x).mp oldMem).1
  have nodup : (old ++ sorted).Nodup :=
    List.nodup_append.mpr ⟨collected.1, perm.nodup_iff.mpr link.nodup,
      fun x oldMem y sortedMem same => apart x oldMem (same ▸ sortedMem)⟩
  have inside : ∀ x ∈ old ++ sorted, x ∈ blocks := by
    intro x mem
    rcases List.mem_append.mp mem with oldMem | sortedMem
    · have past := ((collected.2 x).mp oldMem).1
      exact consistent.mem_of_past (consistent.mem_of_past nextMem
        (past_of_mem_parents link.parent)) past
    · exact consistent.mem_of_past nextMem ((link.mem_sorted_iff perm x).mp sortedMem).1
  rw [← List.length_append]
  exact length_le_card nodup inside

theorem Consistent.collected_step (consistent : sm.Consistent blocks) (lowMem : lowHash ∈ blocks) (nextMem : next ∈ blocks)
    (currentMem : current ∈ blocks) (above : sm.OnChain c0 current) (link : sm.ChainLink next d current)
    (perm : sorted.Perm (d.mergeSetBlues ++ d.mergeSetReds))
    (collected : sm.Collected c0 lowHash current old) :
    sm.Collected c0 lowHash next (old ++ sorted.filter fun blockHash =>
      !sm.ghostdagManager.isAncestorOf blockHash lowHash) := by
  obtain ⟨nodup, mem_iff⟩ := collected
  have c0Below := (consistent.onChain_pastOrSelf currentMem above).1
  have currentPast : Past sm.ghostdagManager.parents current next := past_of_mem_parents link.parent
  have taken_iff : ∀ x, (x ∈ sorted.filter fun blockHash =>
      !sm.ghostdagManager.isAncestorOf blockHash lowHash) ↔
        (Past sm.ghostdagManager.parents x next ∧ ¬ Past sm.ghostdagManager.parents x current) ∧
          ¬ PastOrSelf sm.ghostdagManager.parents x lowHash := by
    intro x
    rw [List.mem_filter, link.mem_sorted_iff perm, Bool.not_eq_true',
      Bool.eq_false_iff]
    constructor
    · rintro ⟨inMergeSet, notAncestor⟩
      exact ⟨inMergeSet, fun below => notAncestor ((consistent.isAncestorOf_iff x
        (consistent.mem_of_past nextMem inMergeSet.1) lowHash lowMem).mpr below)⟩
    · rintro ⟨inMergeSet, notBelow⟩
      exact ⟨inMergeSet, fun ancestor => notBelow ((consistent.isAncestorOf_iff x
        (consistent.mem_of_past nextMem inMergeSet.1) lowHash lowMem).mp ancestor)⟩
  refine ⟨List.nodup_append.mpr ⟨nodup, ((perm.nodup_iff.mpr link.nodup).filter _), ?_⟩, ?_⟩
  · intro x oldMem y takenMem same
    subst same
    exact ((taken_iff x).mp takenMem).1.2 ((mem_iff x).mp oldMem).1
  · intro x
    rw [List.mem_append, mem_iff, taken_iff]
    constructor
    · rintro (⟨past, notC0, notLow⟩ | ⟨⟨past, notCurrent⟩, notLow⟩)
      · exact ⟨past.trans currentPast, notC0, notLow⟩
      · exact ⟨past, fun belowC0 => notCurrent (belowC0.trans_pastOrSelf c0Below), notLow⟩
    · rintro ⟨past, notC0, notLow⟩
      by_cases belowCurrent : Past sm.ghostdagManager.parents x current
      · exact .inl ⟨belowCurrent, notC0, notLow⟩
      · exact .inr ⟨⟨past, belowCurrent⟩, notLow⟩

theorem Consistent.topological_sorted (consistent : sm.Consistent blocks) (ordered : sm.Ordered blocks)
    (nextMem : next ∈ blocks) (link : sm.ChainLink next d current) {merged : List DomainHash}
    (sortedEq : sorted = current :: merged) (perm : sorted.Perm (d.mergeSetBlues ++ d.mergeSetReds))
    (mergedSorted : SortedByLess sm.ghostdagManager.dataOf merged) : sm.Topological sorted := by
  have inBlocks : ∀ x ∈ merged, x ∈ blocks := fun x mem => consistent.mem_of_past nextMem
    ((link.mem_sorted_iff perm x).mp (sortedEq ▸ List.mem_cons_of_mem _ mem)).1
  rw [Topological, sortedEq, List.pairwise_cons]
  refine ⟨fun y mem => ((link.mem_sorted_iff perm y).mp (sortedEq ▸ List.mem_cons_of_mem _ mem)).2, ?_⟩
  refine List.Pairwise.imp_of_mem (fun {a b} aMem bMem less past => ?_) mergedSorted
  obtain ⟨da, aFound⟩ := consistent.data (inBlocks a aMem)
  obtain ⟨db, bFound⟩ := consistent.data (inBlocks b bMem)
  have backwards := ordered.less_of_past b (inBlocks b bMem) a (inBlocks a aMem) past db da bFound aFound
  have looped := less_trans (less da db aFound bFound) backwards
  rw [less_self] at looped
  cases looped

theorem topological_step (link : sm.ChainLink next d current)
    (perm : sorted.Perm (d.mergeSetBlues ++ d.mergeSetReds))
    (collected : sm.Collected c0 lowHash current old) (oldTopological : sm.Topological old)
    (sortedTopological : sm.Topological sorted) :
    sm.Topological (old ++ sorted.filter fun blockHash =>
      !sm.ghostdagManager.isAncestorOf blockHash lowHash) := by
  refine List.pairwise_append.mpr ⟨oldTopological, List.Pairwise.filter _ sortedTopological,
    fun x xMem y yMem past => ?_⟩
  exact ((link.mem_sorted_iff perm y).mp (List.mem_filter.mp yMem).1).2
    (past.trans ((collected.2 x).mp xMem).1)

end Step

section Walk
variable {c0 lowHash highHash : DomainHash} {maxBlocks : UInt64}

theorem Consistent.walking_start (consistent : sm.Consistent blocks) (highMem : highHash ∈ blocks)
    (start : sm.OnChain c0 highHash) :
    sm.Walking blocks c0 lowHash highHash maxBlocks ⟨c0, highHash, []⟩ where
  mem := (consistent.onChain_pastOrSelf highMem start).2
  above := Relation.ReflTransGen.refl
  below := start
  highHash_eq := .inr rfl
  collected := ⟨List.nodup_nil, fun _ => iff_of_false List.not_mem_nil fun ⟨past, notPast, _⟩ =>
    notPast past⟩
  topological _ := List.Pairwise.nil
  bounded _ := Nat.zero_le _

theorem Walking.onChain_highHash {s : AntiPastLoop}
    (walking : sm.Walking blocks c0 lowHash highHash maxBlocks s) : sm.OnChain s.highHash highHash := by
  rcases walking.highHash_eq with same | same
  · exact same ▸ walking.below
  · exact same ▸ Relation.ReflTransGen.refl

theorem Consistent.walking_step (consistent : sm.Consistent blocks) {fuel : Nat}
    (enough : blocks.card ≤ fuel) (small : blocks.card < 2 ^ 64) (lowMem : lowHash ∈ blocks)
    (highMem : highHash ∈ blocks) {s : AntiPastLoop}
    (walking : sm.Walking blocks c0 lowHash highHash maxBlocks s) :
    (∃ r, (sm.antiPastStep fuel lowHash highHash maxBlocks s).run = some (.ok (.inr r)) ∧
      sm.WalkResult blocks c0 lowHash highHash maxBlocks r) ∨
    ∃ s', (sm.antiPastStep fuel lowHash highHash maxBlocks s).run = some (.ok (.inl s')) ∧
      sm.Walking blocks c0 lowHash highHash maxBlocks s' ∧
      pastCard sm.ghostdagManager.parents blocks s.current <
        pastCard sm.ghostdagManager.parents blocks s'.current ∧
      pastCard sm.ghostdagManager.parents blocks s'.current ≤
        pastCard sm.ghostdagManager.parents blocks highHash := by
  cases next : sm.findNextAncestor highHash s.current with
  | none =>
    have atTop : s.current = highHash := by
      by_contra ne
      obtain ⟨c', found, -⟩ := consistent.findNextAncestor_of_onChain highMem walking.below ne
      rw [next] at found
      cases found
    have highEq : s.highHash = highHash := walking.highHash_eq.elim (·.trans atTop) id
    exact .inl ⟨_, antiPastStep_of_none next, walking.onChain_highHash, walking.bounded,
      fun _ => ⟨highEq, atTop ▸ walking.collected, walking.topological⟩⟩
  | some c' =>
    obtain ⟨chain', selected⟩ :=
      (consistent.findNextAncestor_iff highHash highMem s.current walking.mem walking.below c').mp next
    have c'Below := consistent.onChain_pastOrSelf highMem chain'
    obtain ⟨d, found, -, link⟩ := consistent.link_of_selectedParentOf c'Below.2 selected
    obtain ⟨blues, bluesEq⟩ := link.firstBlue
    have inside : ∀ x ∈ d.mergeSetBlues ++ d.mergeSetReds, x ∈ blocks := fun x mem =>
      consistent.mem_of_past c'Below.2 ((link.mem_mergeSet_iff x).mp mem).1
    obtain ⟨merged, sortedEq, perm, ordered⟩ := GhostdagManager.getSortedMergeSet_eq found bluesEq
      (fun x mem => consistent.found x (inside x mem)) link.nodup
      ((length_le_card link.nodup inside).trans enough)
    have total := consistent.length_append_le c'Below.2 link perm walking.collected
    rw [antiPastStep_of_some next sortedEq]
    split
    · next stop =>
      exact .inl ⟨_, rfl, walking.onChain_highHash, walking.bounded, fun zero => absurd zero stop.1⟩
    · next goOn =>
      refine .inr ⟨_, rfl, ⟨c'Below.2, walking.above.tail selected, chain', .inl rfl,
        consistent.collected_step lowMem c'Below.2 walking.mem walking.above link perm
          walking.collected, fun ord => ?_, fun nonzero => ?_⟩,
        pastCard_lt consistent.acyclic walking.mem (past_of_mem_parents link.parent),
        pastCard_le_of_pastOrSelf consistent.acyclic c'Below.2 c'Below.1⟩
      · have sortedBlues : SortedByLess sm.ghostdagManager.dataOf blues := by
          simpa only [bluesEq, List.tail_cons] using (ord.sorted c' c'Below.2 d found).1
        exact topological_step link perm walking.collected (walking.topological ord)
          (consistent.topological_sorted ord c'Below.2 link rfl perm
            (ordered sortedBlues (ord.sorted c' c'Below.2 d found).2))
      · -- the merge set fits: the count, below the number of blocks, does not wrap
        have fits := not_and.mp goOn nonzero
        have noWrap : (s.blockHashes.length + (s.current :: merged).length).toUInt64.toNat =
            s.blockHashes.length + (s.current :: merged).length := by
          simp only [Nat.toUInt64_eq, UInt64.toNat_ofNat']
          omega
        rw [gt_iff_lt, UInt64.not_lt, UInt64.le_iff_toNat_le, noWrap] at fits
        have filtered := List.length_filter_le (fun blockHash =>
          !sm.ghostdagManager.isAncestorOf blockHash lowHash) (s.current :: merged)
        rw [List.length_append]
        omega

theorem Consistent.walk (consistent : sm.Consistent blocks) {fuel : Nat}
    (enough : blocks.card < fuel) (small : blocks.card < 2 ^ 64) (lowMem : lowHash ∈ blocks)
    (highMem : highHash ∈ blocks) (start : sm.OnChain c0 highHash) :
    ∃ r, loop (fun s => (sm.antiPastStep fuel lowHash highHash maxBlocks s).run) fuel
        ⟨c0, highHash, []⟩ = some (.ok r) ∧ sm.WalkResult blocks c0 lowHash highHash maxBlocks r := by
  have topBound := pastCard_lt_card consistent.acyclic highMem
  refine loop_eq_ok_of_bound (fun n s => sm.Walking blocks c0 lowHash highHash maxBlocks s ∧
      pastCard sm.ghostdagManager.parents blocks highHash -
        pastCard sm.ghostdagManager.parents blocks s.current < n) _
    (fun _ holds => Nat.not_lt_zero _ holds.2) ?_ fuel _
    ⟨consistent.walking_start highMem start, by omega⟩
  intro n s ⟨walking, bound⟩
  rcases consistent.walking_step enough.le small lowMem highMem walking with
    ⟨r, ended, result⟩ | ⟨s', turned, walking', up, top⟩
  · exact .inl ⟨r, ended, result⟩
  · exact .inr ⟨s', turned, walking', by omega⟩

end Walk

theorem getGHOSTDAGData_of_found {b : DomainHash} {d : Ghostdag.BlockGHOSTDAGData}
    (found : sm.ghostdagManager.dataOf b = some d) : sm.getGHOSTDAGData b = pure d := by
  simp [getGHOSTDAGData, GhostdagManager.getGHOSTDAGData_of_found found]

theorem Consistent.antiPastHashesBetween_eq (consistent : sm.Consistent blocks) {fuel : Nat}
    (enough : blocks.card < fuel) (small : blocks.card < 2 ^ 64) {lowHash highHash : DomainHash}
    (lowMem : lowHash ∈ blocks) (highMem : highHash ∈ blocks) {maxBlocks : UInt64}
    (allowed : ¬ (maxBlocks ≠ 0 ∧ maxBlocks < sm.mergeSetSizeLimit + 1)) :
    ∃ c r, sm.OnChain c lowHash ∧ sm.OnChain c highHash ∧
      sm.WalkResult blocks c lowHash highHash maxBlocks r ∧
      sm.antiPastHashesBetween fuel lowHash highHash maxBlocks =
        pure (if c ≠ r.2 then r.1 ++ [r.2] else r.1, r.2) := by
  obtain ⟨c, found, cLow, cHigh⟩ := consistent.findLowHash lowMem highMem enough
  have cMem := (consistent.onChain_pastOrSelf highMem cHigh).2
  obtain ⟨dc, cFound⟩ := consistent.data cMem
  obtain ⟨dh, hFound⟩ := consistent.data highMem
  have scores : ¬ dc.blueScore > dh.blueScore :=
    UInt64.not_lt.mpr (consistent.blueScore_le highMem cHigh cFound hFound)
  have onChain := (consistent.isInSelectedParentChainOf_iff c cMem highHash highMem).mpr cHigh
  obtain ⟨r, walked, result⟩ := consistent.walk enough small lowMem highMem cHigh
  refine ⟨c, r, cLow, cHigh, result, ?_⟩
  have foundEq : sm.findLowHashInHighHashSelectedParentChain fuel lowHash highHash = pure c := found
  have walkedEq : (ExceptT.mk (loop (fun s => (sm.antiPastStep fuel lowHash highHash maxBlocks s).run)
      fuel ⟨c, highHash, []⟩) : AntiPastM _) = pure r := walked
  simp only [antiPastHashesBetween, if_neg allowed, foundEq, getGHOSTDAGData_of_found cFound,
    getGHOSTDAGData_of_found hFound, if_neg scores, onChain, walkedEq, pure_bind]
  rfl

end Manager

end SyncManager
