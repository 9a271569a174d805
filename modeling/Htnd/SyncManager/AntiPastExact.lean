import Mathlib
import Htnd.SyncManager.SortedMergeSet

/-!
What IBD receives from `antiPastHashesBetween` (syncmanager/antipast.go) on consistent data:
with no `maxBlocks`, the blocks of the high block's past and the block itself that are outside
the low block's past and the low block, once each, the high block last; with a `maxBlocks`
allowed, at most one more hash than it, up to a block of the high block's chain. The order is
topological when `Less` orders each block after its past, as it does on the data of a GHOSTDAG
run over blocks that all have work.
-/
namespace SyncManager.Manager
open GoSemantics Utxo Ghostdag Dag

variable {sm : Manager} {blocks : Finset DomainHash}

theorem DataConsistent.collected_append_high (consistent : sm.DataConsistent blocks)
    {c lowHash highHash : DomainHash} {hashes : List DomainHash} (lowMem : lowHash ∈ blocks)
    (cLow : sm.OnChain c lowHash)
    (notBelow : ¬ PastOrSelf sm.ghostdagManager.parents highHash lowHash)
    (collected : sm.Collected c lowHash highHash hashes) :
    (hashes ++ [highHash]).Nodup ∧ ∀ x, x ∈ hashes ++ [highHash] ↔
      PastOrSelf sm.ghostdagManager.parents x highHash ∧
        ¬ PastOrSelf sm.ghostdagManager.parents x lowHash := by
  have cBelow := (consistent.onChain_pastOrSelf lowMem cLow).1
  have mem_iff : ∀ x, x ∈ hashes ↔ Past sm.ghostdagManager.parents x highHash ∧
      ¬ PastOrSelf sm.ghostdagManager.parents x lowHash := fun x =>
    (collected.2 x).trans ⟨fun ⟨past, _, notLow⟩ => ⟨past, notLow⟩, fun ⟨past, notLow⟩ =>
      ⟨past, fun belowC => notLow (belowC.trans_pastOrSelf cBelow).pastOrSelf, notLow⟩⟩
  refine ⟨List.nodup_append.mpr ⟨collected.1, List.nodup_singleton _, ?_⟩, fun x => ?_⟩
  · intro x mem y same
    rw [List.mem_singleton.mp same]
    rintro rfl
    exact consistent.acyclic x ((mem_iff x).mp mem).1
  · rw [List.mem_append, mem_iff, List.mem_singleton]
    constructor
    · rintro (⟨past, notLow⟩ | rfl)
      · exact ⟨past.pastOrSelf, notLow⟩
      · exact ⟨PastOrSelf.refl x, notBelow⟩
    · rintro ⟨below, notLow⟩
      rcases pastOrSelf_iff.1 below with same | past
      · exact .inr same
      · exact .inl ⟨past, notLow⟩

theorem topological_append_high (acyclic : Acyclic sm.ghostdagManager.parents)
    {hashes : List DomainHash} {highHash : DomainHash} (topological : sm.Topological hashes)
    (below : ∀ x ∈ hashes, Past sm.ghostdagManager.parents x highHash) :
    sm.Topological (hashes ++ [highHash]) := by
  refine List.pairwise_append.mpr ⟨topological, List.pairwise_singleton _ _, ?_⟩
  intro x mem y same past
  rw [List.mem_singleton.mp same] at past
  exact acyclic highHash (past.trans (below x mem))

theorem anti_past_hashes_between_exact (consistent : sm.Consistent blocks) {fuel : Nat}
    (enough : blocks.card < fuel) (small : blocks.card < 2 ^ 64) {lowHash highHash : DomainHash}
    (lowMem : lowHash ∈ blocks) (highMem : highHash ∈ blocks)
    (notBelow : ¬ PastOrSelf sm.ghostdagManager.parents highHash lowHash) :
    (∃ hashes, sm.antiPastHashesBetween fuel lowHash highHash 0 = pure (hashes, highHash) ∧
      hashes.Nodup ∧
      (∀ x, x ∈ hashes ↔ PastOrSelf sm.ghostdagManager.parents x highHash ∧
        ¬ PastOrSelf sm.ghostdagManager.parents x lowHash) ∧
      hashes.getLast? = some highHash ∧
      (sm.Ordered blocks → sm.Topological hashes)) ∧
    ∀ maxBlocks : UInt64, sm.mergeSetSizeLimit.toNat + 1 ≤ maxBlocks.toNat →
      ∃ hashes actualHighHash, sm.antiPastHashesBetween fuel lowHash highHash maxBlocks =
        pure (hashes, actualHighHash) ∧ hashes.length ≤ maxBlocks.toNat + 1 ∧
        sm.OnChain actualHighHash highHash := by
  refine ⟨?_, fun maxBlocks atLeast => ?_⟩
  · obtain ⟨c, r, cLow, -, ⟨-, -, unlimited⟩, returned⟩ := consistent.antiPastHashesBetween_eq
      enough small lowMem highMem fun ⟨nonzero, _⟩ => nonzero rfl
    obtain ⟨highEq, collected, topological⟩ := unlimited rfl
    have moved : c ≠ r.2 := fun same =>
      notBelow (highEq ▸ same ▸ (consistent.onChain_pastOrSelf lowMem cLow).1)
    rw [if_pos moved, highEq] at returned
    obtain ⟨nodup, mem_iff⟩ := consistent.collected_append_high lowMem cLow notBelow collected
    exact ⟨r.1 ++ [highHash], returned, nodup, mem_iff, List.getLast?_concat, fun ordered =>
      topological_append_high consistent.acyclic (topological ordered) fun x mem =>
        ((collected.2 x).mp mem).1⟩
  · have allowed : ¬ (maxBlocks ≠ 0 ∧ maxBlocks < sm.mergeSetSizeLimit + 1) := by
      rintro ⟨-, below⟩
      rw [UInt64.lt_iff_toNat_lt, UInt64.toNat_add] at below
      simp only [UInt64.toNat_one] at below
      omega
    have nonzero : maxBlocks ≠ 0 := by
      rintro rfl
      rw [UInt64.toNat_zero] at atLeast
      omega
    obtain ⟨c, r, -, -, ⟨onChain, bounded, -⟩, returned⟩ :=
      consistent.antiPastHashesBetween_eq enough small lowMem highMem allowed
    refine ⟨_, r.2, returned, ?_, onChain⟩
    have fits := bounded nonzero
    split
    · rw [List.length_append, List.length_singleton]
      omega
    · omega

/-- **IBD anti-past enumeration.** GHOSTDAG is run over a DAG that block validation lets through
    and whose blocks all have work, with more fuel than blocks; the manager reads the data the
    run leaves, with exact ancestry, chain and selected-child oracles. For blocks `L`, `H` with
    `H` outside the past of `L` and `H ≠ L`, `antiPastHashesBetween(L, H, 0)` returns `H` and
    the blocks of the past of `H` and `H` outside the past of `L` and `L`, once each, `H` last
    and no block before a block of its past; with a `maxBlocks` above the merge-set size limit
    it returns at most one hash more, up to a block of the chain of `H`. -/
theorem anti_past_hashes_between_of_ghostdag {gm₀ : GhostdagManager} {order : List DomainHash}
    (valid : ValidDAG gm₀ order) (positive : PositiveWork gm₀ order) {fuel : Nat}
    (enough : order.length < fuel) (limit : UInt64) :
    ∃ gm, gm₀.ghostdagRun fuel order = pure gm ∧
      (chainOracles gm fuel limit).Consistent order.toFinset ∧
      ∀ lowHash ∈ order, ∀ highHash ∈ order, ¬ PastOrSelf gm₀.parents highHash lowHash →
        (∃ hashes, (chainOracles gm fuel limit).antiPastHashesBetween fuel lowHash highHash 0 =
            pure (hashes, highHash) ∧ hashes.Nodup ∧
          (∀ x, x ∈ hashes ↔ PastOrSelf gm₀.parents x highHash ∧ ¬ PastOrSelf gm₀.parents x lowHash) ∧
          hashes.getLast? = some highHash ∧ hashes.Pairwise fun x y => ¬ Past gm₀.parents y x) ∧
        ∀ maxBlocks : UInt64, limit.toNat + 1 ≤ maxBlocks.toNat →
          ∃ hashes actualHighHash,
            (chainOracles gm fuel limit).antiPastHashesBetween fuel lowHash highHash maxBlocks =
              pure (hashes, actualHighHash) ∧ hashes.length ≤ maxBlocks.toNat + 1 ∧
            (chainOracles gm fuel limit).OnChain actualHighHash highHash := by
  obtain ⟨gm, ran, inv⟩ := SortedInvariant.of_ghostdagRun valid enough
  have consistent := consistent_chainOracles_of_runInvariant valid inv.run enough.le limit
  have ordered : (chainOracles gm fuel limit).Ordered order.toFinset :=
    ordered_of_sortedInvariant valid positive inv
  have parentsEq : (chainOracles gm fuel limit).ghostdagManager.parents = gm₀.parents :=
    inv.run.parents_eq
  have fits : order.toFinset.card < fuel := (List.toFinset_card_le order).trans_lt enough
  have small : order.toFinset.card < 2 ^ 64 := (List.toFinset_card_le order).trans_lt valid.small
  refine ⟨gm, ran, consistent, fun lowHash lowMem highHash highMem notBelow => ?_⟩
  rw [← parentsEq] at notBelow ⊢
  obtain ⟨⟨hashes, returned, nodup, mem_iff, last, topological⟩, limited⟩ :=
    anti_past_hashes_between_exact consistent fits small (List.mem_toFinset.mpr lowMem)
      (List.mem_toFinset.mpr highMem) notBelow
  exact ⟨⟨hashes, returned, nodup, mem_iff, last, topological ordered⟩, limited⟩

theorem anti_past_hashes_between_of_ghostdag_diamond :
    ValidDAG diamond [⟨0⟩, ⟨1⟩, ⟨2⟩, ⟨3⟩] ∧ PositiveWork diamond [⟨0⟩, ⟨1⟩, ⟨2⟩, ⟨3⟩] ∧
      [(⟨0⟩ : DomainHash), ⟨1⟩, ⟨2⟩, ⟨3⟩].length < 5 ∧
      ∃ gm, diamond.ghostdagRun 5 [⟨0⟩, ⟨1⟩, ⟨2⟩, ⟨3⟩] = pure gm ∧
        (chainOracles gm 5 180).Consistent [⟨0⟩, ⟨1⟩, ⟨2⟩, ⟨3⟩].toFinset :=
  ⟨diamond_valid, diamond_positiveWork, by decide,
    (anti_past_hashes_between_of_ghostdag diamond_valid diamond_positiveWork (by decide) 180).imp
      fun _ ran => ⟨ran.1, ran.2.1⟩⟩

end SyncManager.Manager
