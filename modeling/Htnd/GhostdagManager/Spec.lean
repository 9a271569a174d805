import Mathlib
import Htnd.GhostdagManager.Ghostdag
import Htnd.Lib.Dag

/-!
What GHOSTDAG data stands for. The blue set of a block is the union of the merge-set blues of
the block and of every block of its selected-parent chain; the blue anticone of a block `b`
within it is the part of it that is neither in the past nor in the future of `b`. A DAG that
block validation lets through lists its blocks after their parents, has no parent of a block
in the past of another (`checkParentsIncest`), and a header for every block. The proofs take
such a DAG with any oracle that answers as the past on two distinct blocks (`DagInput`).
-/
namespace Ghostdag
open Dag Utxo GoSemantics

def GhostdagManager.dataOf (gm : GhostdagManager) (blockHash : DomainHash) :
    Option BlockGHOSTDAGData :=
  gm.ghostdagDataStore blockHash false

inductive InBlueSet (dataOf : DomainHash → Option BlockGHOSTDAGData) :
    BlockGHOSTDAGData → DomainHash → Prop
  | mergeSetBlue {d : BlockGHOSTDAGData} {b : DomainHash} :
    b ∈ d.mergeSetBlues → InBlueSet dataOf d b
  | selectedChain {d spData : BlockGHOSTDAGData} {sp b : DomainHash} :
    d.selectedParent = some sp → dataOf sp = some spData → InBlueSet dataOf spData b →
      InBlueSet dataOf d b

theorem inBlueSet_iff {dataOf : DomainHash → Option BlockGHOSTDAGData} {d : BlockGHOSTDAGData}
    {b : DomainHash} :
    InBlueSet dataOf d b ↔ b ∈ d.mergeSetBlues ∨
      ∃ sp spData, d.selectedParent = some sp ∧ dataOf sp = some spData ∧
        InBlueSet dataOf spData b := by
  constructor
  · intro blue
    cases blue with
    | mergeSetBlue mem => exact Or.inl mem
    | selectedChain selected found blue => exact Or.inr ⟨_, _, selected, found, blue⟩
  · rintro (mem | ⟨sp, spData, selected, found, blue⟩)
    · exact .mergeSetBlue mem
    · exact .selectedChain selected found blue

open Classical in
noncomputable def blueSet (blocks : Finset DomainHash)
    (dataOf : DomainHash → Option BlockGHOSTDAGData) (d : BlockGHOSTDAGData) :
    Finset DomainHash :=
  blocks.filter (InBlueSet dataOf d)

open Classical in
noncomputable def blueAnticone (parents : DomainHash → List DomainHash)
    (blocks : Finset DomainHash) (dataOf : DomainHash → Option BlockGHOSTDAGData)
    (d : BlockGHOSTDAGData) (b : DomainHash) : Finset DomainHash :=
  (blueSet blocks dataOf d).filter (InAnticone parents b)

theorem mem_blueSet {blocks : Finset DomainHash} {dataOf : DomainHash → Option BlockGHOSTDAGData}
    {d : BlockGHOSTDAGData} {x : DomainHash} :
    x ∈ blueSet blocks dataOf d ↔ x ∈ blocks ∧ InBlueSet dataOf d x := by
  classical
  unfold blueSet
  exact Finset.mem_filter

theorem card_blueSet_le (blocks : Finset DomainHash)
    (dataOf : DomainHash → Option BlockGHOSTDAGData) (d : BlockGHOSTDAGData) :
    (blueSet blocks dataOf d).card ≤ blocks.card := by
  classical
  unfold blueSet
  exact Finset.card_filter_le _ _

theorem mem_blueAnticone {parents : DomainHash → List DomainHash} {blocks : Finset DomainHash}
    {dataOf : DomainHash → Option BlockGHOSTDAGData} {d : BlockGHOSTDAGData} {b x : DomainHash} :
    x ∈ blueAnticone parents blocks dataOf d b ↔
      x ∈ blueSet blocks dataOf d ∧ InAnticone parents b x := by
  classical
  unfold blueAnticone
  exact Finset.mem_filter

structure ValidDAG (gm : GhostdagManager) (order : List DomainHash) : Prop where
  acyclic : Acyclic gm.parents
  topological : Topological gm.parents [] order
  genesis_first : order.head? = some gm.genesisHash
  genesis_parents : gm.parents gm.genesisHash = []
  parents_ne_nil : ∀ b ∈ order, b ≠ gm.genesisHash → gm.parents b ≠ []
  parents_nodup : ∀ b ∈ order, (gm.parents b).Nodup
  parents_antichain : ∀ b ∈ order, Antichain gm.parents (gm.parents b)
  isAncestorOf_iff : ∀ a ∈ order, ∀ b ∈ order,
    gm.isAncestorOf a b = true ↔ PastOrSelf gm.parents a b
  header : ∀ b ∈ order, (gm.headerStore b).isSome
  virtualGenesis_not_mem : virtualGenesisBlockHash ∉ order
  unstored : ∀ b ∈ order, gm.dataOf b = none
  small : order.length < 2 ^ 64

/-- What `ValidDAG` asks of the blocks and their order, without the ancestor oracle. -/
structure ValidShape (gm : GhostdagManager) (order : List DomainHash) : Prop where
  acyclic : Acyclic gm.parents
  topological : Topological gm.parents [] order
  genesis_first : order.head? = some gm.genesisHash
  genesis_parents : gm.parents gm.genesisHash = []
  parents_ne_nil : ∀ b ∈ order, b ≠ gm.genesisHash → gm.parents b ≠ []
  parents_nodup : ∀ b ∈ order, (gm.parents b).Nodup
  parents_antichain : ∀ b ∈ order, Antichain gm.parents (gm.parents b)
  header : ∀ b ∈ order, (gm.headerStore b).isSome
  virtualGenesis_not_mem : virtualGenesisBlockHash ∉ order
  unstored : ∀ b ∈ order, gm.dataOf b = none
  small : order.length < 2 ^ 64

/-- The input GHOSTDAG is proved correct on: the ancestor oracle answers as the past does on two
    distinct blocks, and may or may not count a block as its own ancestor. The reachability
    oracle of a node does; the DAG topology of the GHOSTDAG test does not. -/
structure DagInput (gm : GhostdagManager) (order : List DomainHash) : Prop
    extends ValidShape gm order where
  isAncestorOf_iff : ∀ a ∈ order, ∀ b ∈ order, a ≠ b →
    (gm.isAncestorOf a b = true ↔ PastOrSelf gm.parents a b)

theorem ValidDAG.toDagInput {gm : GhostdagManager} {order : List DomainHash}
    (valid : ValidDAG gm order) : DagInput gm order :=
  ⟨⟨valid.acyclic, valid.topological, valid.genesis_first, valid.genesis_parents,
    valid.parents_ne_nil, valid.parents_nodup, valid.parents_antichain, valid.header,
    valid.virtualGenesis_not_mem, valid.unstored, valid.small⟩,
    fun a aMem b bMem _ => valid.isAncestorOf_iff a aMem b bMem⟩

def PositiveWork (gm : GhostdagManager) (order : List DomainHash) : Prop :=
  ∀ b ∈ order, ∀ header, gm.headerStore b = some header → 0 < calcWork header.bits

/-- On the DAG where `b` has the genesis and `a` as parents and `a` has the genesis as parent,
    GHOSTDAG takes `a` as the selected parent of `b` and still puts the genesis, which is in the
    past of `a`, in the merge set of `b`; the blue score of `b` is 3 while its blue set holds 2
    blocks. -/
theorem ghostdag_merges_past_of_selected_parent :
    let genesis : DomainHash := ⟨0⟩
    let a : DomainHash := ⟨1⟩
    let b : DomainHash := ⟨2⟩
    let gm : GhostdagManager :=
      ⟨fun h => if h = b then [genesis, a] else if h = a then [genesis] else [],
        fun x y => x = y || x = genesis || (x = a && y = b),
        fun _ _ => none, fun _ => some ⟨1, 1, 0x207fffff⟩, 18, genesis⟩
    ∃ gm', gm.ghostdagRun 10 [genesis, a, b] = pure gm' ∧ ∃ data, gm'.dataOf b = some data ∧
      data.selectedParent = some a ∧ genesis ∈ data.mergeSetBlues ∧ Past gm.parents genesis a ∧
      data.blueScore = 3 ∧ (blueSet {genesis, a, b} gm'.dataOf data).card = 2 := by
  intro genesis a b gm
  obtain ⟨gm', run, observed⟩ := exists_ok_of_check (x := (gm.ghostdagRun 10 [genesis, a, b]).run)
    (p := fun gm' => (gm'.dataOf b).any fun (data : BlockGHOSTDAGData) =>
      (gm'.dataOf a).any fun (aData : BlockGHOSTDAGData) =>
      (gm'.dataOf genesis).any fun (genesisData : BlockGHOSTDAGData) =>
        decide (data.selectedParent = some a ∧ data.mergeSetBlues = [a, genesis] ∧
          data.blueScore = 3 ∧ aData.selectedParent = some genesis ∧
          aData.mergeSetBlues = [genesis] ∧ genesisData.selectedParent = none ∧
          genesisData.mergeSetBlues = [])) (by decide)
  obtain ⟨data, found, observed⟩ := (Option.any_eq_true _ _).1 observed
  obtain ⟨aData, aFound, observed⟩ := (Option.any_eq_true _ _).1 observed
  obtain ⟨genesisData, genesisFound, observed⟩ := (Option.any_eq_true _ _).1 observed
  obtain ⟨selected, blues, score, aSelected, aBlues, genesisSelected, genesisBlues⟩ :=
    of_decide_eq_true observed
  have genesisBlue : ∀ x, ¬ InBlueSet gm'.dataOf genesisData x := by
    intro x blue
    rcases inBlueSet_iff.1 blue with mem | ⟨sp, _, selectedParent, _⟩
    · simp [genesisBlues] at mem
    · simp [genesisSelected] at selectedParent
  have aBlue : ∀ x, InBlueSet gm'.dataOf aData x ↔ x = genesis := by
    intro x
    rw [inBlueSet_iff, aBlues]
    constructor
    · rintro (mem | ⟨sp, spData, selectedParent, spFound, blue⟩)
      · simpa using mem
      · simp only [aSelected, Option.some.injEq] at selectedParent
        subst selectedParent
        rw [genesisFound, Option.some.injEq] at spFound
        subst spFound
        exact absurd blue (genesisBlue x)
    · rintro rfl
      exact Or.inl (List.mem_singleton_self _)
  have blue : ∀ x, InBlueSet gm'.dataOf data x ↔ x = a ∨ x = genesis := by
    intro x
    rw [inBlueSet_iff, blues]
    constructor
    · rintro (mem | ⟨sp, spData, selectedParent, spFound, blue⟩)
      · simpa using mem
      · simp only [selected, Option.some.injEq] at selectedParent
        subst selectedParent
        rw [aFound, Option.some.injEq] at spFound
        subst spFound
        exact Or.inr ((aBlue x).mp blue)
    · rintro (rfl | rfl) <;> simp
  refine ⟨gm', run, data, found, selected, by simp [blues], past_of_mem_parents (by decide),
    score, ?_⟩
  have blueSetEq : blueSet {genesis, a, b} gm'.dataOf data = {genesis, a} := by
    ext x
    simp only [mem_blueSet, Finset.mem_insert, Finset.mem_singleton, blue]
    constructor
    · rintro ⟨_, rfl | rfl⟩ <;> simp
    · rintro (rfl | rfl) <;> simp
  rw [blueSetEq]
  decide

end Ghostdag
