import Htnd.SyncManager.AntiPastSpec
import Htnd.GhostdagManager.Scores

/-!
The reachability tree answers `IsInSelectedParentChainOf` and `FindNextAncestor` for the selected
chains (reachabilitymanager, dagtraversalmanager/selected_child_iterator.go). On a DAG given as
data the same answers come from following selected parents down, and they are exact there once
the walk has as many turns as there are blocks. The data GHOSTDAG stages over a valid DAG is
consistent in the sense `antiPastHashesBetween` reads it, so a GHOSTDAG run with these oracles is
a manager of which the anti-past results hold.
-/
namespace Ghostdag.GhostdagManager
open Utxo

def selectedChain (gm : GhostdagManager) : Nat → DomainHash → List DomainHash
  | 0, b => [b]
  | fuel + 1, b => b :: match (gm.dataOf b).bind (·.selectedParent) with
    | none => []
    | some sp => gm.selectedChain fuel sp

def selectedChild (gm : GhostdagManager) : Nat → DomainHash → DomainHash → Option DomainHash
  | 0, _, _ => none
  | fuel + 1, h, c => match (gm.dataOf h).bind (·.selectedParent) with
    | none => none
    | some sp => if sp = c then some h else gm.selectedChild fuel sp c

def BlueScoresGrow (gm : GhostdagManager) (blocks : Finset DomainHash) : Prop :=
  ∀ b ∈ blocks, ∀ d sp spData, gm.dataOf b = some d → d.selectedParent = some sp →
    gm.dataOf sp = some spData → spData.blueScore < d.blueScore

theorem blueScoresGrow_of_runInvariant {gm₀ gm : GhostdagManager} {order : List DomainHash}
    (inv : RunInvariant gm₀ gm order.toFinset order.reverse) : gm.BlueScoresGrow order.toFinset := by
  intro b mem d sp spData found selected spFound
  have bDone := List.mem_reverse.mpr (List.mem_toFinset.mp mem)
  have notGenesis : b ≠ gm.genesisHash :=
    (inv.processed.data_eq bDone found).selectedParent_isSome.mp (by simp [selected])
  obtain ⟨d', sp', spData', found', scores⟩ := inv.mergeSetScores b bDone notGenesis
  obtain rfl := Option.some.inj (found.symm.trans found')
  obtain rfl := Option.some.inj (selected.symm.trans scores.selectedParent_eq)
  obtain rfl := Option.some.inj (spFound.symm.trans scores.spData_eq)
  obtain ⟨blues, bluesEq⟩ := List.head?_eq_some_iff.mp scores.head_eq
  have counted := scores.blueScore_eq
  rw [bluesEq, List.length_cons] at counted
  exact UInt64.lt_iff_toNat_lt.2 (by omega)

end Ghostdag.GhostdagManager

namespace SyncManager.Manager
open GoSemantics Utxo Ghostdag Dag

def chainOracles (gm : GhostdagManager) (fuel : Nat) (mergeSetSizeLimit : UInt64) : Manager where
  ghostdagManager := gm
  isInSelectedParentChainOf a b := decide (a ∈ gm.selectedChain fuel b)
  findNextAncestor h c := gm.selectedChild fuel h c
  mergeSetSizeLimit := mergeSetSizeLimit

variable {sm : Manager} {blocks : Finset DomainHash}

theorem onChain_iff {a b : DomainHash} :
    sm.OnChain a b ↔ a = b ∨ ∃ sp, sm.selectedParentOf b = some sp ∧ sm.OnChain a sp := by
  rw [OnChain, Relation.ReflTransGen.cases_tail_iff, eq_comm (a := b)]
  exact or_congr_right ⟨fun ⟨c, chain, step⟩ => ⟨c, step, chain⟩,
    fun ⟨c, step, chain⟩ => ⟨c, chain, step⟩⟩

theorem onChain_of_selectedParentOf_none {a b : DomainHash}
    (none : sm.selectedParentOf b = none) (chain : sm.OnChain a b) : a = b := by
  rcases onChain_iff.1 chain with same | ⟨sp, selected, _⟩
  · exact same
  · rw [none] at selected
    cases selected

theorem onChain_total {a b c : DomainHash} (ab : sm.OnChain a b) (cb : sm.OnChain c b) :
    sm.OnChain a c ∨ sm.OnChain c a := by
  have unique : Relator.RightUnique (Function.swap fun a b => sm.selectedParentOf b = some a) :=
    fun _ _ _ first second => Option.some.inj (first.symm.trans second)
  rcases Relation.ReflTransGen.total_of_right_unique unique ab.swap cb.swap with ac | ca
  · exact .inr ac.swap
  · exact .inl ca.swap

theorem onChain_or_above {a b c next : DomainHash} (ab : sm.OnChain a b)
    (nextChain : sm.OnChain next b) (selected : sm.selectedParentOf next = some c) :
    sm.OnChain a c ∨ sm.OnChain next a := by
  rcases onChain_total ab nextChain with below | above
  · rcases Relation.ReflTransGen.cases_tail below with same | ⟨c', chain, step⟩
    · rw [same]
      exact .inr Relation.ReflTransGen.refl
    · obtain rfl := Option.some.inj (step.symm.trans selected)
      exact .inl chain
  · exact .inr above

theorem DataConsistent.selectedParentOf_ne (consistent : sm.DataConsistent blocks) {c c' : DomainHash}
    (mem : c ∈ blocks) (chain : sm.OnChain c' c) : sm.selectedParentOf c' ≠ some c := by
  intro selected
  obtain ⟨below, c'Mem⟩ := consistent.onChain_pastOrSelf mem chain
  obtain ⟨_, _, _, link⟩ := consistent.link_of_selectedParentOf c'Mem selected
  exact consistent.acyclic c ((past_of_mem_parents link.parent).trans_pastOrSelf below)

theorem DataConsistent.mem_selectedChain_iff (consistent : sm.DataConsistent blocks) {fuel : Nat}
    {b : DomainHash} (mem : b ∈ blocks)
    (enough : pastCard sm.ghostdagManager.parents blocks b < fuel) (a : DomainHash) :
    a ∈ sm.ghostdagManager.selectedChain fuel b ↔ sm.OnChain a b := by
  induction fuel generalizing b with
  | zero => exact absurd enough (Nat.not_lt_zero _)
  | succ fuel ih =>
    rw [onChain_iff]
    cases selected : sm.selectedParentOf b with
    | none =>
      have stops : (sm.ghostdagManager.dataOf b).bind (·.selectedParent) = none := selected
      simp [GhostdagManager.selectedChain, stops]
    | some sp =>
      have steps : (sm.ghostdagManager.dataOf b).bind (·.selectedParent) = some sp := selected
      obtain ⟨_, _, _, link⟩ := consistent.link_of_selectedParentOf mem selected
      have spMem := consistent.closed b mem sp link.parent
      have below := pastCard_lt consistent.acyclic spMem (past_of_mem_parents link.parent)
      simp only [GhostdagManager.selectedChain, steps, List.mem_cons, Option.some.injEq,
        exists_eq_left', ih spMem (by omega)]

theorem DataConsistent.selectedChild_iff (consistent : sm.DataConsistent blocks) {fuel : Nat}
    {h : DomainHash} (mem : h ∈ blocks)
    (enough : pastCard sm.ghostdagManager.parents blocks h < fuel) (c c' : DomainHash) :
    sm.ghostdagManager.selectedChild fuel h c = some c' ↔
      sm.OnChain c' h ∧ sm.selectedParentOf c' = some c := by
  induction fuel generalizing h with
  | zero => exact absurd enough (Nat.not_lt_zero _)
  | succ fuel ih =>
    cases selected : sm.selectedParentOf h with
    | none =>
      have stops : (sm.ghostdagManager.dataOf h).bind (·.selectedParent) = none := selected
      simp only [GhostdagManager.selectedChild, stops, reduceCtorEq, false_iff, not_and]
      intro chain
      rw [onChain_of_selectedParentOf_none selected chain, selected]
      intro stuck
      cases stuck
    | some sp =>
      have steps : (sm.ghostdagManager.dataOf h).bind (·.selectedParent) = some sp := selected
      obtain ⟨_, _, _, link⟩ := consistent.link_of_selectedParentOf mem selected
      have spMem := consistent.closed h mem sp link.parent
      have below := pastCard_lt consistent.acyclic spMem (past_of_mem_parents link.parent)
      simp only [GhostdagManager.selectedChild, steps]
      split
      · next parent =>
        subst parent
        refine ⟨fun found => ?_, fun ⟨chain, selected'⟩ => ?_⟩
        · obtain rfl := Option.some.inj found
          exact ⟨Relation.ReflTransGen.refl, selected⟩
        · rcases onChain_iff.1 chain with same | ⟨sp', step, chain'⟩
          · rw [same]
          · obtain rfl := Option.some.inj (step.symm.trans selected)
            exact absurd selected' (consistent.selectedParentOf_ne spMem chain')
      · next apart =>
        rw [ih spMem (by omega)]
        refine ⟨fun ⟨chain, selected'⟩ => ⟨chain.tail selected, selected'⟩,
          fun ⟨chain, selected'⟩ => ⟨?_, selected'⟩⟩
        rcases onChain_iff.1 chain with same | ⟨sp', step, chain'⟩
        · rw [same, selected] at selected'
          exact absurd (Option.some.inj selected') apart
        · obtain rfl := Option.some.inj (step.symm.trans selected)
          exact chain'

theorem DataConsistent.chainOracles {gm : GhostdagManager} {fuel : Nat} {limit : UInt64}
    (consistent : (chainOracles gm fuel limit).DataConsistent blocks)
    (enough : blocks.card ≤ fuel)
    (isAncestorOf_iff : ∀ a ∈ blocks, ∀ b ∈ blocks,
      gm.isAncestorOf a b = true ↔ PastOrSelf gm.parents a b) :
    (chainOracles gm fuel limit).Consistent blocks where
  toDataConsistent := consistent
  isAncestorOf_iff := isAncestorOf_iff
  isInSelectedParentChainOf_iff a _ _ bMem := decide_eq_true_iff.trans
    (consistent.mem_selectedChain_iff bMem
      ((pastCard_lt_card consistent.acyclic bMem).trans_le enough) a)
  findNextAncestor_iff _ hMem c _ _ c' := consistent.selectedChild_iff hMem
    ((pastCard_lt_card consistent.acyclic hMem).trans_le enough) c c'

theorem chainLink_of_mergeSetScores {b sp : DomainHash} {d spData : Ghostdag.BlockGHOSTDAGData}
    (scores : MergeSetScores sm.ghostdagManager b sp d spData)
    (acyclic : Acyclic sm.ghostdagManager.parents) : sm.ChainLink b d sp where
  parent := scores.selectedAmong.1
  firstBlue := List.head?_eq_some_iff.mp scores.head_eq
  nodup := scores.nodup
  mem_mergeSet_iff x := by
    rw [scores.mem_iff x]
    constructor
    · rintro (rfl | ⟨past, notBelow⟩)
      · exact ⟨past_of_mem_parents scores.selectedAmong.1, acyclic x⟩
      · exact ⟨past, fun below => notBelow below.pastOrSelf⟩
    · rintro ⟨past, notBelow⟩
      by_cases same : x = sp
      · exact .inl same
      · exact .inr ⟨past, fun below => (pastOrSelf_iff.1 below).elim same notBelow⟩
  blueScore_le spData' found := by
    obtain rfl := Option.some.inj (found.symm.trans scores.spData_eq)
    rw [UInt64.le_iff_toNat_le, scores.blueScore_eq]
    exact Nat.le_add_right _ _

theorem dataConsistent_of_runInvariant {gm₀ : GhostdagManager} {order : List DomainHash}
    (inv : RunInvariant gm₀ sm.ghostdagManager order.toFinset order.reverse) :
    sm.DataConsistent order.toFinset := by
  have done := inv.processed
  have inDone : ∀ {b}, b ∈ order.toFinset → b ∈ order.reverse := fun mem =>
    List.mem_reverse.mpr (List.mem_toFinset.mp mem)
  refine ⟨done.acyclic, ?_, ?_, ?_, ?_⟩
  · intro b mem p parent
    exact List.mem_toFinset.mpr (List.mem_reverse.mp (done.closed b (inDone mem) p parent))
  · intro b mem
    obtain ⟨d, found, _⟩ := done.stored b (inDone mem)
    simp [found]
  · intro b mem d found none
    obtain ⟨d', found', entry⟩ := done.stored b (inDone mem)
    obtain rfl := Option.some.inj (found.symm.trans found')
    by_contra notGenesis
    have selected := entry.selectedParent_isSome.mpr notGenesis
    rw [none] at selected
    cases selected
  · intro b mem d sp found selected
    obtain ⟨d', found', entry⟩ := done.stored b (inDone mem)
    obtain rfl := Option.some.inj (found.symm.trans found')
    have notGenesis : b ≠ sm.ghostdagManager.genesisHash :=
      entry.selectedParent_isSome.mp (by simp [selected])
    obtain ⟨d', sp', spData, found', scores⟩ := inv.mergeSetScores b (inDone mem) notGenesis
    obtain rfl := Option.some.inj (found.symm.trans found')
    obtain rfl := Option.some.inj (selected.symm.trans scores.selectedParent_eq)
    exact chainLink_of_mergeSetScores scores done.acyclic

theorem consistent_chainOracles_of_runInvariant {gm₀ gm : GhostdagManager} {order : List DomainHash}
    (valid : ValidDAG gm₀ order) (inv : RunInvariant gm₀ gm order.toFinset order.reverse) {fuel : Nat}
    (enough : order.length ≤ fuel) (limit : UInt64) :
    (chainOracles gm fuel limit).Consistent order.toFinset :=
  DataConsistent.chainOracles (dataConsistent_of_runInvariant inv) ((List.toFinset_card_le order).trans enough)
    fun a aMem b bMem => by
      rw [inv.isAncestorOf_eq, inv.parents_eq]
      exact valid.isAncestorOf_iff a (List.mem_toFinset.mp aMem) b (List.mem_toFinset.mp bMem)

theorem DataConsistent.onChain_antisymm (consistent : sm.DataConsistent blocks) {a b : DomainHash}
    (mem : b ∈ blocks) (ab : sm.OnChain a b) (ba : sm.OnChain b a) : a = b := by
  have aMem := (consistent.onChain_pastOrSelf mem ab).2
  exact PastOrSelf.antisymm consistent.acyclic (consistent.onChain_pastOrSelf mem ab).1
    (consistent.onChain_pastOrSelf aMem ba).1

theorem DataConsistent.blueScore_lt_of_onChain (consistent : sm.DataConsistent blocks)
    (grow : sm.ghostdagManager.BlueScoresGrow blocks) {a b : DomainHash} (mem : b ∈ blocks)
    (chain : sm.OnChain a b) (ne : a ≠ b) {da db : Ghostdag.BlockGHOSTDAGData}
    (aFound : sm.ghostdagManager.dataOf a = some da) (bFound : sm.ghostdagManager.dataOf b = some db) :
    da.blueScore < db.blueScore := by
  induction chain generalizing db with
  | refl => exact absurd rfl ne
  | @tail mid top chain step ih =>
    obtain ⟨d, found, selected, link⟩ := consistent.link_of_selectedParentOf mem step
    obtain rfl := Option.some.inj (found.symm.trans bFound)
    have cMem := consistent.closed _ mem _ link.parent
    obtain ⟨dc, cFound⟩ := consistent.data cMem
    have above := grow _ mem d _ dc found selected cFound
    by_cases same : a = mid
    · subst same
      obtain rfl := Option.some.inj (aFound.symm.trans cFound)
      exact above
    · exact UInt64.lt_trans (ih cMem same cFound) above

end SyncManager.Manager
