import Mathlib.Algebra.Order.BigOperators.Group.List
import Mathlib.Algebra.Order.Group.Nat
import Htnd.GhostdagManager.Scores

/-!
GHOSTDAG keeps every blue set a k-cluster and stores the sizes of blue anticones exactly, on a
DAG that block validation lets through and whose blocks all have work. There the blue work grows
along every parent link, so the merge set, sorted by `Less`, lists a block after the blocks in
its past: no blue before a candidate is in its future. The walk of `checkBlueCandidate` then
examines exactly the blues in the anticone of the candidate, and `blueAnticoneSize` reads for
each the size of its blue anticone.
-/
namespace Ghostdag
open Dag Utxo GoSemantics

section BlueAnticone

variable {parents : DomainHash → List DomainHash} {blocks : Finset DomainHash}
  {dataOf : DomainHash → Option BlockGHOSTDAGData} {d d' spData : BlockGHOSTDAGData}
  {sp c : DomainHash}

theorem inBlueSet_iff_of_selected (selected : d.selectedParent = some sp)
    (spFound : dataOf sp = some spData) {y : DomainHash} :
    InBlueSet dataOf d y ↔ y ∈ d.mergeSetBlues ∨ InBlueSet dataOf spData y := by
  rw [inBlueSet_iff]
  constructor
  · rintro (mem | ⟨sp', spData', selected', spFound', blue⟩)
    · exact Or.inl mem
    · obtain rfl := Option.some.inj (selected.symm.trans selected')
      obtain rfl := Option.some.inj (spFound.symm.trans spFound')
      exact Or.inr blue
  · rintro (mem | blue)
    · exact Or.inl mem
    · exact Or.inr ⟨sp, spData, selected, spFound, blue⟩

theorem inBlueSet_append_iff (blues : d'.mergeSetBlues = d.mergeSetBlues ++ [c])
    (selected : d'.selectedParent = d.selectedParent) {y : DomainHash} :
    InBlueSet dataOf d' y ↔ InBlueSet dataOf d y ∨ y = c := by
  rw [inBlueSet_iff, inBlueSet_iff, blues, selected, List.mem_append, List.mem_singleton]
  exact or_right_comm

theorem inBlueSet_congr_data (blues : d'.mergeSetBlues = d.mergeSetBlues)
    (selected : d'.selectedParent = d.selectedParent) {y : DomainHash} :
    InBlueSet dataOf d' y ↔ InBlueSet dataOf d y := by
  rw [inBlueSet_iff, inBlueSet_iff, blues, selected]

theorem blueAnticone_congr_data (blues : d'.mergeSetBlues = d.mergeSetBlues)
    (selected : d'.selectedParent = d.selectedParent) (b : DomainHash) :
    blueAnticone parents blocks dataOf d' b = blueAnticone parents blocks dataOf d b := by
  ext y
  rw [mem_blueAnticone, mem_blueAnticone, mem_blueSet, mem_blueSet, inBlueSet_congr_data blues selected]

theorem blueAnticone_selectedChain (selected : d.selectedParent = some sp)
    (spFound : dataOf sp = some spData) {b : DomainHash}
    (away : ∀ y ∈ d.mergeSetBlues, ¬ InAnticone parents b y) :
    blueAnticone parents blocks dataOf d b = blueAnticone parents blocks dataOf spData b := by
  ext y
  rw [mem_blueAnticone, mem_blueAnticone, mem_blueSet, mem_blueSet,
    inBlueSet_iff_of_selected selected spFound]
  constructor
  · rintro ⟨⟨inBlocks, mem | blue⟩, anticone⟩
    · exact absurd anticone (away y mem)
    · exact ⟨⟨inBlocks, blue⟩, anticone⟩
  · rintro ⟨⟨inBlocks, blue⟩, anticone⟩
    exact ⟨⟨inBlocks, Or.inr blue⟩, anticone⟩

theorem card_blueAnticone_eq_length {examined : List DomainHash} (nodup : examined.Nodup)
    (members : ∀ y, y ∈ examined ↔ InBlueSet dataOf d y ∧ InAnticone parents c y)
    (inBlocks : ∀ y ∈ examined, y ∈ blocks) :
    (blueAnticone parents blocks dataOf d c).card = examined.length := by
  have same : blueAnticone parents blocks dataOf d c = examined.toFinset := by
    ext y
    rw [mem_blueAnticone, mem_blueSet, List.mem_toFinset]
    constructor
    · rintro ⟨⟨_, blue⟩, anticone⟩
      exact (members y).mpr ⟨blue, anticone⟩
    · intro mem
      obtain ⟨blue, anticone⟩ := (members y).mp mem
      exact ⟨⟨inBlocks y mem, blue⟩, anticone⟩
  rw [same, List.toFinset_card_of_nodup nodup]

section Append

variable (extend : ∀ y, InBlueSet dataOf d' y ↔ InBlueSet dataOf d y ∨ y = c)
include extend

theorem card_blueAnticone_append_of_anticone (cMem : c ∈ blocks) (fresh : ¬ InBlueSet dataOf d c)
    {b : DomainHash} (anticone : InAnticone parents b c) :
    (blueAnticone parents blocks dataOf d' b).card = (blueAnticone parents blocks dataOf d b).card + 1 := by
  have split : blueAnticone parents blocks dataOf d' b =
      insert c (blueAnticone parents blocks dataOf d b) := by
    ext y
    rw [Finset.mem_insert, mem_blueAnticone, mem_blueAnticone, mem_blueSet, mem_blueSet, extend]
    constructor
    · rintro ⟨⟨inBlocks, blue | rfl⟩, anticone'⟩
      · exact Or.inr ⟨⟨inBlocks, blue⟩, anticone'⟩
      · exact Or.inl rfl
    · rintro (rfl | ⟨⟨inBlocks, blue⟩, anticone'⟩)
      · exact ⟨⟨cMem, Or.inr rfl⟩, anticone⟩
      · exact ⟨⟨inBlocks, Or.inl blue⟩, anticone'⟩
  rw [split, Finset.card_insert_of_notMem]
  intro mem
  exact fresh (mem_blueSet.1 (mem_blueAnticone.1 mem).1).2

theorem blueAnticone_append_of_not_anticone {b : DomainHash} (away : ¬ InAnticone parents b c) :
    blueAnticone parents blocks dataOf d' b = blueAnticone parents blocks dataOf d b := by
  ext y
  rw [mem_blueAnticone, mem_blueAnticone, mem_blueSet, mem_blueSet, extend]
  constructor
  · rintro ⟨⟨inBlocks, blue | rfl⟩, anticone⟩
    · exact ⟨⟨inBlocks, blue⟩, anticone⟩
    · exact absurd anticone away
  · rintro ⟨⟨inBlocks, blue⟩, anticone⟩
    exact ⟨⟨inBlocks, Or.inl blue⟩, anticone⟩

end Append

end BlueAnticone

structure KCluster (gm : GhostdagManager) (blocks : Finset DomainHash) (data : BlockGHOSTDAGData) :
    Prop where
  sizes_eq : ∀ b v, data.bluesAnticoneSizes.lookup b = some v →
    InBlueSet gm.dataOf data b ∧ v = (blueAnticone gm.parents blocks gm.dataOf data b).card
  card_le : ∀ b, InBlueSet gm.dataOf data b →
    (blueAnticone gm.parents blocks gm.dataOf data b).card ≤ gm.k.toNat
  unsized : ∀ b, InBlueSet gm.dataOf data b → data.bluesAnticoneSizes.lookup b = none →
    ∀ y ∈ data.mergeSetBlues, ¬ InAnticone gm.parents b y

structure Chained (gm : GhostdagManager) (data : BlockGHOSTDAGData) : Prop where
  nodup : data.mergeSetBlues.Nodup
  apart : ∀ sp spData, data.selectedParent = some sp → gm.dataOf sp = some spData →
    ∀ b ∈ data.mergeSetBlues, ¬ InBlueSet gm.dataOf spData b

/-- When GHOSTDAG colours a candidate red: its merge-set blues are K + 1 already, or more than K
    blues are in the anticone of the candidate, or one of those has K blues in its own. -/
def ColorsRed (gm : GhostdagManager) (blocks : Finset DomainHash) (data : BlockGHOSTDAGData)
    (c : DomainHash) : Prop :=
  data.mergeSetBlues.length = gm.k.toNat + 1 ∨ AnticoneFull gm blocks data c
where
  AnticoneFull (gm : GhostdagManager) (blocks : Finset DomainHash) (data : BlockGHOSTDAGData)
      (c : DomainHash) : Prop :=
    gm.k.toNat < (blueAnticone gm.parents blocks gm.dataOf data c).card ∨
      ∃ b ∈ blueAnticone gm.parents blocks gm.dataOf data c,
        (blueAnticone gm.parents blocks gm.dataOf data b).card = gm.k.toNat

/-- The data after a candidate is coloured: appended to the merge-set reds when `red` holds, to
    the merge-set blues otherwise. -/
def ColoredAs (red : Prop) (data colored : BlockGHOSTDAGData) (c : DomainHash) : Prop :=
  colored.selectedParent = data.selectedParent ∧
    (red ∧ colored.mergeSetBlues = data.mergeSetBlues ∧
        colored.mergeSetReds = data.mergeSetReds ++ [c] ∨
      ¬ red ∧ colored.mergeSetBlues = data.mergeSetBlues ++ [c] ∧
        colored.mergeSetReds = data.mergeSetReds)

theorem ColoredAs.congr {red red' : Prop} {data colored : BlockGHOSTDAGData} {c : DomainHash}
    (same : red ↔ red') (coloredAs : ColoredAs red data colored c) : ColoredAs red' data colored c :=
  ⟨coloredAs.1, coloredAs.2.imp (fun ⟨isRed, blues, reds⟩ => ⟨same.mp isRed, blues, reds⟩)
    fun ⟨notRed, blues, reds⟩ => ⟨mt same.mpr notRed, blues, reds⟩⟩

/-- One turn of the colouring of a merge set, seen from outside: the data before it is a
    k-cluster of blocks done that leaves out the candidate, and the candidate is coloured red
    exactly when more than K blues are in its anticone or one of those has K in its own. -/
structure ColorStep (gm : GhostdagManager) (blocks : Finset DomainHash) (done : List DomainHash)
    (data colored : BlockGHOSTDAGData) (c : DomainHash) : Prop where
  kCluster : KCluster gm blocks data
  candidate_mem : c ∈ done
  blues_mem : ∀ y, InBlueSet gm.dataOf data y → y ∈ done
  fresh : ¬ InBlueSet gm.dataOf data c
  not_red : c ∉ data.mergeSetReds
  coloredAs : ColoredAs (ColorsRed.AnticoneFull gm blocks data c) data colored c

variable {gm : GhostdagManager} {done : List DomainHash} {blocks : Finset DomainHash}

/-- K + 1 merge-set blues leave the selected parent, which is in the anticone of the candidate,
    K blues in its own anticone: the check on their number turns no candidate red that the
    anticone test lets in. -/
theorem KCluster.colorsRed_iff {data : BlockGHOSTDAGData} {c sp : DomainHash}
    {blues : List DomainHash} (kCluster : KCluster gm blocks data)
    (bluesEq : data.mergeSetBlues = sp :: blues) (nodup : blues.Nodup)
    (spBlue : InBlueSet gm.dataOf data sp)
    (spAnticone : sp ∈ blueAnticone gm.parents blocks gm.dataOf data c)
    (covered : ∀ y ∈ blues, y ∈ blueAnticone gm.parents blocks gm.dataOf data sp) :
    ColorsRed gm blocks data c ↔ ColorsRed.AnticoneFull gm blocks data c := by
  refine ⟨fun red => red.elim (fun full => Or.inr ⟨sp, spAnticone, ?_⟩) id, Or.inr⟩
  have atLeast : blues.length ≤ (blueAnticone gm.parents blocks gm.dataOf data sp).card := by
    rw [← List.toFinset_card_of_nodup nodup]
    exact Finset.card_le_card fun y mem => covered y (List.mem_toFinset.mp mem)
  have atMost := kCluster.card_le sp spBlue
  rw [bluesEq, List.length_cons] at full
  omega

theorem KCluster.of_same_blues {d d' : BlockGHOSTDAGData} (kCluster : KCluster gm blocks d)
    (blues : d'.mergeSetBlues = d.mergeSetBlues) (selected : d'.selectedParent = d.selectedParent)
    (sizes : d'.bluesAnticoneSizes = d.bluesAnticoneSizes) : KCluster gm blocks d' := by
  have same : ∀ y, InBlueSet gm.dataOf d' y ↔ InBlueSet gm.dataOf d y := fun _ =>
    inBlueSet_congr_data blues selected
  refine ⟨fun b v found => ?_, fun b blue => ?_, fun b blue missing => ?_⟩
  · rw [sizes] at found
    rw [same, blueAnticone_congr_data blues selected]
    exact kCluster.sizes_eq b v found
  · rw [blueAnticone_congr_data blues selected]
    exact kCluster.card_le b ((same b).mp blue)
  · rw [blues]
    rw [sizes] at missing
    exact kCluster.unsized b ((same b).mp blue) missing

theorem KCluster.colorBlue {d d' : BlockGHOSTDAGData} {c : DomainHash} {examined : List DomainHash}
    {size : DomainHash → Nat} (kCluster : KCluster gm blocks d)
    (blues : d'.mergeSetBlues = d.mergeSetBlues ++ [c]) (selected : d'.selectedParent = d.selectedParent)
    (sizes : ∀ y, d'.bluesAnticoneSizes.lookup y =
      if y ∈ examined then some (size y + 1)
      else if y = c then some examined.length else d.bluesAnticoneSizes.lookup y)
    (nodup : examined.Nodup)
    (members : ∀ y, y ∈ examined ↔ InBlueSet gm.dataOf d y ∧ InAnticone gm.parents c y)
    (counted : ∀ y ∈ examined, size y = (blueAnticone gm.parents blocks gm.dataOf d y).card)
    (withinK : ∀ y ∈ examined, size y ≤ gm.k.toNat) (notAtK : ∀ y ∈ examined, size y ≠ gm.k.toNat)
    (fewEnough : examined.length ≤ gm.k.toNat) (inBlocks : ∀ y, InBlueSet gm.dataOf d y → y ∈ blocks)
    (cMem : c ∈ blocks) (fresh : ¬ InBlueSet gm.dataOf d c) : KCluster gm blocks d' := by
  have extend : ∀ y, InBlueSet gm.dataOf d' y ↔ InBlueSet gm.dataOf d y ∨ y = c := fun _ =>
    inBlueSet_append_iff blues selected
  -- the candidate's blue anticone is the examined blues; theirs gain the candidate; others stay
  have candidateCount : (blueAnticone gm.parents blocks gm.dataOf d' c).card = examined.length := by
    rw [blueAnticone_append_of_not_anticone extend fun anticone => anticone.1 rfl]
    exact card_blueAnticone_eq_length nodup members fun y mem => inBlocks y ((members y).mp mem).1
  have examinedCount : ∀ y ∈ examined,
      (blueAnticone gm.parents blocks gm.dataOf d' y).card = size y + 1 := by
    intro y mem
    rw [card_blueAnticone_append_of_anticone extend cMem fresh ((members y).mp mem).2.symm,
      counted y mem]
  have otherCount : ∀ y, y ∉ examined → InBlueSet gm.dataOf d y →
      blueAnticone gm.parents blocks gm.dataOf d' y = blueAnticone gm.parents blocks gm.dataOf d y :=
    fun y notExamined blue => blueAnticone_append_of_not_anticone extend fun anticone =>
      notExamined ((members y).mpr ⟨blue, anticone.symm⟩)
  refine ⟨fun b v found => ?_, fun b blue => ?_, fun b blue missing => ?_⟩
  · rw [sizes] at found
    split_ifs at found with inExamined same
    · obtain rfl := Option.some.inj found
      exact ⟨(extend b).mpr (Or.inl ((members b).mp inExamined).1), (examinedCount b inExamined).symm⟩
    · obtain rfl := Option.some.inj found
      subst same
      exact ⟨(extend b).mpr (Or.inr rfl), candidateCount.symm⟩
    · obtain ⟨blue, count⟩ := kCluster.sizes_eq b v found
      exact ⟨(extend b).mpr (Or.inl blue), by rw [otherCount b inExamined blue]; exact count⟩
  · rcases (extend b).mp blue with blue | rfl
    · by_cases inExamined : b ∈ examined
      · rw [examinedCount b inExamined]
        have := withinK b inExamined
        have := notAtK b inExamined
        omega
      · rw [otherCount b inExamined blue]
        exact kCluster.card_le b blue
    · rw [candidateCount]
      exact fewEnough
  · rw [sizes] at missing
    split_ifs at missing with inExamined same
    rcases (extend b).mp blue with blue | rfl
    · intro y mem
      rw [blues] at mem
      rcases List.mem_append.mp mem with mem | mem
      · exact kCluster.unsized b blue missing y mem
      · rw [List.mem_singleton.mp mem]
        exact fun anticone => inExamined ((members b).mpr ⟨blue, anticone.symm⟩)
    · exact absurd rfl same

theorem FirstKey.eq_card (done' : Done gm done)
    (clustered : ∀ x ∈ done, ∀ d, gm.dataOf x = some d → KCluster gm blocks d)
    {b : DomainHash} {d : BlockGHOSTDAGData} {v : Nat} (first : FirstKey gm.dataOf b d v)
    {x : DomainHash} (entry : Entry gm x d) (parentsDone : ∀ p ∈ gm.parents x, p ∈ done)
    (kCluster : KCluster gm blocks d) (blue : InBlueSet gm.dataOf d b) :
    v = (blueAnticone gm.parents blocks gm.dataOf d b).card := by
  induction first generalizing x with
  | found found => exact (kCluster.sizes_eq b _ found).2
  | @selectedChain d spData sp v missing selected spFound _ ih =>
    have spMem := parentsDone sp (entry.selectedParent_mem sp selected)
    have notBlue : b ∉ d.mergeSetBlues := fun mem => by simpa [missing] using entry.blues_mem b mem
    have spBlue := ((inBlueSet_iff_of_selected selected spFound).mp blue).resolve_left notBlue
    rw [ih (done'.data_eq spMem spFound) (done'.closed sp spMem) (clustered sp spMem spData spFound)
      spBlue, blueAnticone_selectedChain selected spFound (kCluster.unsized b blue missing)]

theorem ChainWalk.examined_iff (done' : Done gm done) {c : DomainHash} (cMem : c ∈ done)
    (chainedDone : ∀ x ∈ done, ∀ d, gm.dataOf x = some d →
      Chained gm d ∧ ∀ y, InBlueSet gm.dataOf d y → Past gm.parents y x)
    {chainBlock : GhostdagManager.ChainBlockData} {depth : Nat} {examined : List DomainHash}
    (walk : ChainWalk gm c chainBlock depth examined)
    (stored : ∀ h, chainBlock.hash = some h → h ∈ done ∧ gm.dataOf h = some chainBlock.blockData)
    (chained : Chained gm chainBlock.blockData)
    (spDone : ∀ sp, chainBlock.blockData.selectedParent = some sp → sp ∈ done)
    (bluesDone : ∀ y, InBlueSet gm.dataOf chainBlock.blockData y → y ∈ done)
    (notPast : ∀ y, InBlueSet gm.dataOf chainBlock.blockData y → ¬ Past gm.parents c y)
    (fresh : ¬ InBlueSet gm.dataOf chainBlock.blockData c) :
    examined.Nodup ∧ ∀ y, y ∈ examined ↔
      InBlueSet gm.dataOf chainBlock.blockData y ∧ InAnticone gm.parents c y := by
  induction walk with
  | @ancestor chainBlock ancestor =>
    cases isHash : chainBlock.hash with
    | none => simp [isHash] at ancestor
    | some h =>
      rw [isHash] at ancestor
      obtain ⟨hMem, found⟩ := stored h isHash
      have path := done'.pastOrSelf_of_isAncestorOf hMem cMem (by simpa using ancestor)
      refine ⟨List.nodup_nil, fun y => ⟨fun mem => absurd mem List.not_mem_nil, ?_⟩⟩
      rintro ⟨blue, anticone⟩
      exact (anticone.2.2 (((chainedDone h hMem _ found).2 y blue).trans_pastOrSelf path)).elim
  | @next chainBlock depth rest sp spData notAncestor selected spFound _ ih =>
    have spMem := spDone sp selected
    obtain ⟨spChained, -⟩ := chainedDone sp spMem spData spFound
    have lower : ∀ y, InBlueSet gm.dataOf spData y → InBlueSet gm.dataOf chainBlock.blockData y :=
      fun y blue => .selectedChain selected spFound blue
    obtain ⟨restNodup, restMem⟩ := ih
      (fun h isHash => by obtain rfl := Option.some.inj isHash; exact ⟨spMem, spFound⟩) spChained
      (fun sp' selected' => done'.closed sp spMem sp'
        ((done'.data_eq spMem spFound).selectedParent_mem sp' selected'))
      (fun y blue => bluesDone y (lower y blue)) (fun y blue => notPast y (lower y blue))
      (fun blue => fresh (lower c blue))
    have examinedBlue : ∀ y ∈ chainBlock.blockData.mergeSetBlues,
        (!gm.isAncestorOf y c) = true ↔ InAnticone gm.parents c y := by
      intro y mem
      have iff := done'.isAncestorOf_iff y (bluesDone y (.mergeSetBlue mem)) c cMem
        fun same => fresh (same ▸ .mergeSetBlue mem)
      have notPast' := notPast y (.mergeSetBlue mem)
      cases ancestor : gm.isAncestorOf y c
      · have notPath : ¬ PastOrSelf gm.parents y c := fun path =>
          Bool.false_ne_true (ancestor ▸ iff.mpr path)
        simp only [Bool.not_false, true_iff]
        exact ⟨fun eq => notPath (by rw [eq]; exact PastOrSelf.refl _), notPast',
          fun past => notPath past.pastOrSelf⟩
      · simp only [Bool.not_true, Bool.false_eq_true, false_iff]
        rintro ⟨ne, -, notPast''⟩
        rcases pastOrSelf_iff.1 (iff.mp ancestor) with eq | past
        · exact ne eq.symm
        · exact notPast'' past
    refine ⟨List.nodup_append.mpr ⟨chained.nodup.filter _, restNodup, ?_⟩, fun y => ?_⟩
    · intro a mem b mem' same
      subst same
      exact chained.apart sp spData selected spFound a (List.mem_filter.mp mem).1 ((restMem a).mp mem').1
    · rw [List.mem_append, List.mem_filter, restMem, inBlueSet_iff_of_selected selected spFound]
      constructor
      · rintro (⟨mem, notAncestor⟩ | ⟨blue, anticone⟩)
        · exact ⟨Or.inl mem, (examinedBlue y mem).mp notAncestor⟩
        · exact ⟨Or.inr blue, anticone⟩
      · rintro ⟨mem | blue, anticone⟩
        · exact Or.inl ⟨mem, (examinedBlue y mem).mpr anticone⟩
        · exact Or.inr ⟨blue, anticone⟩

theorem GhostdagM.pure_inj {α : Type} {a b : α} (same : (pure a : GhostdagM α) = pure b) : a = b := by
  have := congrArg ExceptT.run same
  simpa using this

theorem BlockContext.mem_of_past (done' : Done gm done) {blockHash : DomainHash}
    (ctx : BlockContext gm done blocks blockHash) {x : DomainHash} (past : Past gm.parents x blockHash) :
    x ∈ done := by
  obtain ⟨p, parent, path⟩ := past_iff_exists_parent.1 past
  exact mem_of_pastOrSelf (S := {x | x ∈ done}) done'.closed (ctx.parents_mem p parent) path

theorem kCluster_newBlockData {sp : DomainHash} {spData : BlockGHOSTDAGData}
    (spFound : gm.dataOf sp = some spData) (spCluster : KCluster gm blocks spData)
    (spPast : ∀ y, InBlueSet gm.dataOf spData y → Past gm.parents y sp) :
    KCluster gm blocks ⟨0, 0, some sp, [sp], [], AList.insert sp 0 ∅⟩ := by
  have inBlue : ∀ y, InBlueSet gm.dataOf ⟨0, 0, some sp, [sp], [], AList.insert sp 0 ∅⟩ y ↔
      y = sp ∨ InBlueSet gm.dataOf spData y := by
    intro y
    rw [inBlueSet_iff_of_selected rfl spFound, List.mem_singleton]
  have away : ∀ b, InBlueSet gm.dataOf spData b → ∀ y ∈ [sp], ¬ InAnticone gm.parents b y := by
    intro b blue y mem anticone
    rw [List.mem_singleton.mp mem] at anticone
    exact anticone.2.1 (spPast b blue)
  have spAlone : blueAnticone gm.parents blocks gm.dataOf
      ⟨0, 0, some sp, [sp], [], AList.insert sp 0 ∅⟩ sp = ∅ := by
    apply Finset.eq_empty_of_forall_notMem
    intro y mem
    obtain ⟨blue, anticone⟩ := mem_blueAnticone.1 mem
    rcases (inBlue y).mp (mem_blueSet.1 blue).2 with rfl | blue
    · exact anticone.1 rfl
    · exact anticone.2.2 (spPast y blue)
  refine ⟨fun b v found => ?_, fun b blue => ?_, fun b blue missing => ?_⟩
  · change (AList.insert sp 0 (∅ : AList fun _ : DomainHash => Nat)).lookup b = some v at found
    by_cases same : b = sp
    · subst same
      rw [AList.lookup_insert, Option.some.injEq] at found
      subst found
      exact ⟨(inBlue b).mpr (Or.inl rfl), by rw [spAlone]; rfl⟩
    · rw [AList.lookup_insert_ne same, AList.lookup_empty] at found
      cases found
  · rcases (inBlue b).mp blue with rfl | blue
    · rw [spAlone]
      exact Nat.zero_le _
    · rw [blueAnticone_selectedChain rfl spFound (away b blue)]
      exact spCluster.card_le b blue
  · rcases (inBlue b).mp blue with rfl | blue
    · change (AList.insert b 0 (∅ : AList fun _ : DomainHash => Nat)).lookup b = none at missing
      rw [AList.lookup_insert] at missing
      cases missing
    · exact away b blue

theorem kCluster_empty : KCluster gm blocks ⟨0, 0, none, [], [], ∅⟩ :=
  ⟨fun _ _ found => by simp at found, fun _ blue => absurd blue not_inBlueSet_empty,
    fun _ blue => absurd blue not_inBlueSet_empty⟩

theorem KCluster.stage (done' : Done gm done) {blockHash : DomainHash} (fresh : blockHash ∉ done)
    {d data : BlockGHOSTDAGData} (kCluster : KCluster gm blocks d)
    (chain : ∀ sp, d.selectedParent = some sp → sp ∈ done) :
    KCluster (gm.stage blockHash data) blocks d := by
  have agree : ∀ y ∈ done, (gm.stage blockHash data).dataOf y = gm.dataOf y := fun y mem =>
    dataOf_stage_of_ne fun eq => fresh (eq ▸ mem)
  have same : ∀ y, InBlueSet (gm.stage blockHash data).dataOf d y ↔ InBlueSet gm.dataOf d y :=
    fun _ => done'.inBlueSet_congr agree chain
  have anticone : ∀ b, blueAnticone gm.parents blocks (gm.stage blockHash data).dataOf d b =
      blueAnticone gm.parents blocks gm.dataOf d b := by
    intro b
    unfold blueAnticone
    rw [done'.blueSet_congr agree chain]
  refine ⟨fun b v found => ?_, fun b blue => ?_, fun b blue missing => ?_⟩
  · rw [same, GhostdagManager.stage_parents, anticone]
    exact kCluster.sizes_eq b v found
  · rw [GhostdagManager.stage_parents, anticone, GhostdagManager.stage_k]
    exact kCluster.card_le b ((same b).mp blue)
  · exact kCluster.unsized b ((same b).mp blue) missing

namespace GhostdagManager

section Coloring

variable {fuel : Nat} {blockHash sp : DomainHash}

theorem colorCandidate_kCluster (done' : Done gm done) (enough : done.length < fuel)
    (parentsDone : ∀ p ∈ gm.parents blockHash, p ∈ done) (spMem : sp ∈ done)
    (inBlocks : ∀ x ∈ done, x ∈ blocks)
    (clustered : ∀ x ∈ done, ∀ d, gm.dataOf x = some d → KCluster gm blocks d)
    (chainedDone : ∀ x ∈ done, ∀ d, gm.dataOf x = some d →
      Chained gm d ∧ ∀ y, InBlueSet gm.dataOf d y → Past gm.parents y x)
    {newBlockData : BlockGHOSTDAGData} (entry : Entry gm blockHash newBlockData)
    (selected : newBlockData.selectedParent = some sp) (kCluster : KCluster gm blocks newBlockData)
    (chained : Chained gm newBlockData)
    (bluesDone : ∀ y, InBlueSet gm.dataOf newBlockData y → y ∈ done)
    {blueCandidate : DomainHash} (candidateMem : blueCandidate ∈ done)
    (notGenesis : blueCandidate ≠ gm.genesisHash)
    (notPast : ∀ y, InBlueSet gm.dataOf newBlockData y → ¬ Past gm.parents blueCandidate y)
    (fresh : ¬ InBlueSet gm.dataOf newBlockData blueCandidate) :
    ∃ colored, gm.colorCandidate fuel newBlockData blueCandidate = pure colored ∧
      KCluster gm blocks colored ∧
      ColoredAs (ColorsRed gm blocks newBlockData blueCandidate) newBlockData colored blueCandidate := by
  obtain ⟨depth, examined, walk, shallow⟩ :=
    done'.chainWalk_newBlock candidateMem notGenesis selected spMem
  obtain ⟨nodup, members⟩ := walk.examined_iff done' candidateMem chainedDone
    (fun _ isHash => by cases isHash) chained
    (fun sp' selected' => by
      obtain rfl := Option.some.inj (selected.symm.trans selected')
      exact spMem)
    bluesDone notPast fresh
  have exists_size : ∀ b, ∃ v, b ∈ examined →
      gm.blueAnticoneSize fuel b newBlockData = pure v ∧ v ≤ gm.k.toNat ∧
        v = (blueAnticone gm.parents blocks gm.dataOf newBlockData b).card := by
    intro b
    by_cases mem : b ∈ examined
    · have blue := ((members b).mp mem).1
      obtain ⟨v, read, first⟩ := blueAnticoneSize_eq done' enough entry parentsDone blue
      exact ⟨v, fun _ => ⟨read, first.le_k done' entry parentsDone,
        first.eq_card done' clustered entry parentsDone kCluster blue⟩⟩
    · exact ⟨0, fun mem' => absurd mem' mem⟩
  choose size sizes using exists_size
  have colored := colorCandidate_eq (checkBlueCandidate_eq walk (by omega)
    fun b mem => ⟨(sizes b mem).1, (sizes b mem).2.1⟩)
  have examinedMem : ∀ y, y ∈ examined ↔
      y ∈ blueAnticone gm.parents blocks gm.dataOf newBlockData blueCandidate := by
    intro y
    rw [members, mem_blueAnticone, mem_blueSet]
    exact ⟨fun ⟨blue, anticone⟩ => ⟨⟨inBlocks y (bluesDone y blue), blue⟩, anticone⟩,
      fun ⟨⟨_, blue⟩, anticone⟩ => ⟨blue, anticone⟩⟩
  have red_iff : (newBlockData.mergeSetBlues.length = gm.k.toNat + 1 ∨
      gm.k.toNat < examined.length ∨ ∃ b ∈ examined, size b = gm.k.toNat) ↔
      ColorsRed gm blocks newBlockData blueCandidate := by
    rw [ColorsRed, ColorsRed.AnticoneFull, ← card_blueAnticone_eq_length nodup members
      fun y mem => inBlocks y (bluesDone y ((members y).mp mem).1)]
    refine or_congr_right (or_congr_right ⟨fun ⟨b, mem, atK⟩ => ?_, fun ⟨b, mem, atK⟩ => ?_⟩)
    · exact ⟨b, (examinedMem b).mp mem, (sizes b mem).2.2 ▸ atK⟩
    · have mem' := (examinedMem b).mpr mem
      exact ⟨b, mem', (sizes b mem').2.2 ▸ atK⟩
  refine ⟨_, colored, ?_⟩
  split_ifs with red
  · exact ⟨kCluster.of_same_blues rfl rfl rfl, rfl, Or.inl ⟨red_iff.mp red, rfl, rfl⟩⟩
  · refine ⟨?_, rfl, Or.inr ⟨mt red_iff.mpr red, rfl, rfl⟩⟩
    simp only [not_or, not_exists, not_and] at red
    obtain ⟨-, fewEnough, notAtK⟩ := red
    exact kCluster.colorBlue rfl rfl (lookup_coloredSizes examined size _ blueCandidate _) nodup
      members (fun y mem => (sizes y mem).2.2) (fun y mem => (sizes y mem).2.1) notAtK (by omega)
      (fun y blue => inBlocks y (bluesDone y blue)) (inBlocks _ candidateMem) fresh

/-- Induction along the colouring of a merge set sorted by `Less`: what each `ColorStep` keeps
    holds of the data the colouring ends with, and that data is a k-cluster. -/
theorem foldlM_colorCandidate_induction (done' : Done gm done) (enough : done.length < fuel)
    (parentsDone : ∀ p ∈ gm.parents blockHash, p ∈ done) (spMem : sp ∈ done)
    {spData : BlockGHOSTDAGData} (spFound : gm.dataOf sp = some spData)
    (inBlocks : ∀ x ∈ done, x ∈ blocks)
    (clustered : ∀ x ∈ done, ∀ d, gm.dataOf x = some d → KCluster gm blocks d)
    (chainedDone : ∀ x ∈ done, ∀ d, gm.dataOf x = some d →
      Chained gm d ∧ ∀ y, InBlueSet gm.dataOf d y → Past gm.parents y x)
    (workGrows : ∀ a b, b ∈ done → Past gm.parents a b → ∀ da db,
      gm.dataOf a = some da → gm.dataOf b = some db → da.blueWork < db.blueWork)
    {newBlockData : BlockGHOSTDAGData} (entry : Entry gm blockHash newBlockData)
    (selected : newBlockData.selectedParent = some sp)
    (bounded : newBlockData.mergeSetBlues.length ≤ gm.k.toNat + 1)
    (onlySelected : newBlockData.mergeSetBlues = [sp]) (noReds : newBlockData.mergeSetReds = [])
    (kCluster : KCluster gm blocks newBlockData)
    {mergeSet : List DomainHash} (nodup : mergeSet.Nodup) (sorted : SortedByLess gm.dataOf mergeSet)
    (outside : ∀ c ∈ mergeSet, c ∈ done ∧ ¬ PastOrSelf gm.parents c sp)
    (apart : ∀ c ∈ mergeSet, ¬ Past gm.parents sp c)
    (Q : List DomainHash → BlockGHOSTDAGData → Prop) (start : Q [] newBlockData)
    (step : ∀ seen c current colored, Q seen current → ColorStep gm blocks done current colored c →
      Q (seen ++ [c]) colored) :
    ∃ colored, mergeSet.foldlM (gm.colorCandidate fuel) newBlockData = pure colored ∧
      KCluster gm blocks colored ∧ Q mergeSet colored := by
  obtain ⟨-, spPast⟩ := chainedDone sp spMem spData spFound
  have spOutside : sp ∉ mergeSet := fun mem => (outside sp mem).2 (PastOrSelf.refl sp)
  -- the merge-set blues so far are the selected parent and candidates colored before
  refine (foldlM_eq_pure mergeSet (fun seen colored => Entry gm blockHash colored ∧
      colored.selectedParent = some sp ∧ colored.mergeSetBlues.length ≤ gm.k.toNat + 1 ∧
      (∃ blues, colored.mergeSetBlues = sp :: blues ∧ blues.Sublist seen) ∧
      colored.mergeSetReds.Sublist seen ∧ KCluster gm blocks colored ∧ Q seen colored) ?_
    ⟨entry, selected, bounded, ⟨[], onlySelected, List.Sublist.slnil⟩, noReds ▸ List.Sublist.slnil,
      kCluster, start⟩).imp
    fun _ ⟨coloring, _, _, _, _, _, kCluster, holds⟩ => ⟨coloring, kCluster, holds⟩
  intro seen c rest current split
    ⟨entry, selected, bounded, ⟨blues, bluesEq, sub⟩, redsSub, kCluster, holds⟩
  have cMem : c ∈ mergeSet := by
    rw [split]
    exact List.mem_append_right _ List.mem_cons_self
  obtain ⟨cDone, cOutside⟩ := outside c cMem
  have cNotGenesis : c ≠ gm.genesisHash := fun eq => cOutside (eq ▸ done'.genesis_ancestor sp spMem)
  have seenMem : ∀ y ∈ seen, y ∈ mergeSet := fun y mem => by
    rw [split]
    exact List.mem_append_left _ mem
  rw [split] at nodup sorted
  have notSeen : c ∉ seen := fun mem =>
    (List.nodup_append.mp nodup).2.2 c mem c List.mem_cons_self rfl
  have bluesNodup : blues.Nodup := (List.nodup_append.mp nodup).1.sublist sub
  have inBlue : ∀ y, InBlueSet gm.dataOf current y ↔
      y = sp ∨ y ∈ blues ∨ InBlueSet gm.dataOf spData y := by
    intro y
    rw [inBlueSet_iff_of_selected selected spFound, bluesEq, List.mem_cons, or_assoc]
  -- the blue set so far: done, without the candidate, and none with the candidate in its past
  have bluesDone : ∀ y, InBlueSet gm.dataOf current y → y ∈ done := by
    intro y blue
    rcases (inBlue y).mp blue with rfl | mem | blue
    · exact spMem
    · exact (outside y (seenMem y (sub.subset mem))).1
    · exact mem_of_pastOrSelf (S := {x | x ∈ done}) done'.closed spMem (spPast y blue).pastOrSelf
  have fresh : ¬ InBlueSet gm.dataOf current c := by
    intro blue
    rcases (inBlue c).mp blue with rfl | mem | blue
    · exact spOutside cMem
    · exact notSeen (sub.subset mem)
    · exact cOutside (spPast c blue).pastOrSelf
  have notPast : ∀ y, InBlueSet gm.dataOf current y → ¬ Past gm.parents c y := by
    intro y blue past
    rcases (inBlue y).mp blue with rfl | mem | blue
    · exact cOutside past.pastOrSelf
    · have yDone := (outside y (seenMem y (sub.subset mem))).1
      obtain ⟨dy, yFound, -⟩ := done'.stored y yDone
      obtain ⟨dc, cFound, -⟩ := done'.stored c cDone
      have before := (List.pairwise_append.mp sorted).2.2 y (sub.subset mem) c List.mem_cons_self
        dy dc yFound cFound
      have := blueWork_le_of_less before
      have := workGrows c y yDone past dc dy cFound yFound
      omega
    · exact cOutside (past.trans (spPast y blue)).pastOrSelf
  have chained : Chained gm current := by
    refine ⟨?_, fun sp' spData' selected' spFound' y mem blue => ?_⟩
    · rw [bluesEq]
      exact List.nodup_cons.mpr ⟨fun mem => spOutside (seenMem sp (sub.subset mem)), bluesNodup⟩
    · obtain rfl := Option.some.inj (selected.symm.trans selected')
      obtain rfl := Option.some.inj (spFound.symm.trans spFound')
      have below := spPast y blue
      rw [bluesEq] at mem
      rcases List.mem_cons.mp mem with rfl | mem
      · exact done'.acyclic y below
      · exact (outside y (seenMem y (sub.subset mem))).2 below.pastOrSelf
  have spAnticone : sp ∈ blueAnticone gm.parents blocks gm.dataOf current c :=
    mem_blueAnticone.2 ⟨mem_blueSet.2 ⟨inBlocks sp spMem, (inBlue sp).mpr (Or.inl rfl)⟩,
      fun same => cOutside (same ▸ PastOrSelf.refl _), fun past => cOutside past.pastOrSelf,
      apart c cMem⟩
  have covered : ∀ y ∈ blues, y ∈ blueAnticone gm.parents blocks gm.dataOf current sp := by
    intro y mem
    have yMerged := seenMem y (sub.subset mem)
    exact mem_blueAnticone.2 ⟨mem_blueSet.2 ⟨inBlocks y (outside y yMerged).1,
      (inBlue y).mpr (Or.inr (Or.inl mem))⟩, fun same => spOutside (same ▸ yMerged),
      apart y yMerged, fun past => (outside y yMerged).2 past.pastOrSelf⟩
  have red_iff := kCluster.colorsRed_iff bluesEq bluesNodup ((inBlue sp).mpr (Or.inl rfl))
    spAnticone covered
  obtain ⟨colored, turn, entry', selected', bounded', appended⟩ :=
    colorCandidate_entry done' enough parentsDone spMem entry selected bounded cDone cNotGenesis
  obtain ⟨colored', turn', kCluster', coloredAs⟩ := colorCandidate_kCluster done' enough parentsDone
    spMem inBlocks clustered chainedDone entry selected kCluster chained bluesDone cDone cNotGenesis
    notPast fresh
  rw [turn] at turn'
  obtain rfl := GhostdagM.pure_inj turn'
  have turned : ColorStep gm blocks done current colored c :=
    ⟨kCluster, cDone, bluesDone, fresh, fun mem => notSeen (redsSub.subset mem), coloredAs.congr red_iff⟩
  refine ⟨colored, turn, entry', selected', bounded', ?_, ?_, kCluster', step seen c current colored
    holds turned⟩
  · rcases appended with ⟨bluesEq', -⟩ | ⟨bluesEq', -⟩
    · exact ⟨blues ++ [c], by rw [bluesEq', bluesEq, List.cons_append],
        sub.append (List.Sublist.refl _)⟩
    · exact ⟨blues, by rw [bluesEq', bluesEq], sub.trans (List.sublist_append_left _ _)⟩
  · rcases appended with ⟨-, redsEq'⟩ | ⟨-, redsEq'⟩
    · rw [redsEq']
      exact redsSub.trans (List.sublist_append_left _ _)
    · rw [redsEq']
      exact redsSub.append (List.Sublist.refl _)

end Coloring

theorem ghostdag_kCluster {fuel : Nat} {blockHash : DomainHash} (done' : Done gm done)
    (ctx : BlockContext gm done blocks blockHash) (enough : done.length < fuel)
    (clustered : ∀ x ∈ done, ∀ d, gm.dataOf x = some d → KCluster gm blocks d)
    (chainedDone : ∀ x ∈ done, ∀ d, gm.dataOf x = some d →
      Chained gm d ∧ ∀ y, InBlueSet gm.dataOf d y → Past gm.parents y x)
    (workGrows : ∀ a b, b ∈ done → Past gm.parents a b → ∀ da db,
      gm.dataOf a = some da → gm.dataOf b = some db → da.blueWork < db.blueWork) :
    ∃ data, gm.ghostdag fuel blockHash = pure data ∧ KCluster gm blocks data := by
  obtain ⟨sp, spData, mergeSet, colored, among, spFound, nodup, mergeSetMem, sorted, coloring, -, -, -,
    -, -, computed⟩ := ghostdag_colored done' ctx enough
  have spMem := ctx.parents_mem sp among.1
  have notGenesis : blockHash ≠ gm.genesisHash := fun eq => ctx.fresh (eq ▸ done'.genesis_mem)
  have outside : ∀ c ∈ mergeSet, c ∈ done ∧ ¬ PastOrSelf gm.parents c sp := fun c mem =>
    ⟨ctx.mem_of_past done' ((mergeSetMem c).mp mem).1, ((mergeSetMem c).mp mem).2⟩
  obtain ⟨colored', coloring', kCluster, -⟩ := foldlM_colorCandidate_induction done' enough
    ctx.parents_mem spMem spFound ctx.done_subset clustered chainedDone workGrows
    (entry_newBlockData among.1 notGenesis) rfl (by simp) rfl rfl
    (kCluster_newBlockData spFound (clustered sp spMem spData spFound)
      (chainedDone sp spMem spData spFound).2) nodup sorted outside
    (fun c mem => ctx.antichain.not_past_of_past among.1 ((mergeSetMem c).mp mem).1)
    (fun _ _ => True) trivial fun _ _ _ _ _ _ => trivial
  rw [coloring] at coloring'
  obtain rfl := GhostdagM.pure_inj coloring'
  exact ⟨_, computed, kCluster.of_same_blues rfl rfl rfl⟩

end GhostdagManager

structure ClusterInvariant (gm₀ gm : GhostdagManager) (blocks : Finset DomainHash)
    (done : List DomainHash) : Prop where
  run : RunInvariant gm₀ gm blocks done
  kCluster : ∀ x ∈ done, ∀ d, gm.dataOf x = some d → KCluster gm blocks d

section Run

variable {gm₀ : GhostdagManager} {order : List DomainHash}

theorem RunInvariant.chained (inv : RunInvariant gm₀ gm blocks done) :
    ∀ x ∈ done, ∀ d, gm.dataOf x = some d →
      Chained gm d ∧ ∀ y, InBlueSet gm.dataOf d y → Past gm.parents y x := by
  intro x mem d found
  refine ⟨?_, (inv.scored x mem d found).inBlueSet_past⟩
  by_cases genesis : x = gm.genesisHash
  · have blues := (inv.processed.data_eq mem found).genesis_blues genesis
    constructor
    · rw [blues]
      exact List.nodup_nil
    · intro _ _ _ _ b mergeSetBlue
      rw [blues] at mergeSetBlue
      exact absurd mergeSetBlue List.not_mem_nil
  · obtain ⟨d', sp, spData, found', scores⟩ := inv.mergeSetScores x mem genesis
    obtain rfl := Option.some.inj (found.symm.trans found')
    constructor
    · exact (List.nodup_append.mp scores.nodup).1
    · intro sp' spData' selected spFound b mergeSetBlue blue
      obtain rfl := Option.some.inj (scores.selectedParent_eq.symm.trans selected)
      obtain rfl := Option.some.inj (scores.spData_eq.symm.trans spFound)
      have spMem := inv.processed.closed x mem sp scores.selectedAmong.1
      have below := (inv.scored sp spMem spData scores.spData_eq).inBlueSet_past b blue
      rcases (scores.mem_iff b).mp (List.mem_append_left _ mergeSetBlue) with rfl | ⟨-, outside⟩
      · exact inv.processed.acyclic b below
      · exact outside below.pastOrSelf

theorem RunInvariant.blueWork_lt (input : DagInput gm₀ order) (positive : PositiveWork gm₀ order)
    (inv : RunInvariant gm₀ gm blocks done) (doneOrder : ∀ x ∈ done, x ∈ order) :
    ∀ a b, b ∈ done → Past gm.parents a b → ∀ da db,
      gm.dataOf a = some da → gm.dataOf b = some db → da.blueWork < db.blueWork := by
  have done' := inv.processed
  have parentBelow : ∀ x ∈ done, ∀ p ∈ gm.parents x, ∀ dp dx,
      gm.dataOf p = some dp → gm.dataOf x = some dx → dp.blueWork < dx.blueWork := by
    intro x mem p parent dp dx pFound xFound
    by_cases genesis : x = gm.genesisHash
    · rw [genesis, inv.parents_eq, inv.genesisHash_eq, input.genesis_parents] at parent
      exact absurd parent List.not_mem_nil
    obtain ⟨d, sp, spData, found, scores⟩ := inv.mergeSetScores x mem genesis
    obtain rfl := Option.some.inj (xFound.symm.trans found)
    have spMem := done'.closed x mem sp scores.selectedAmong.1
    have spWork : 0 < gm.work sp := by
      obtain ⟨header, hasHeader⟩ :=
        Option.isSome_iff_exists.mp (input.header sp (doneOrder sp spMem))
      have worked := positive sp (doneOrder sp spMem) header hasHeader
      rw [← inv.headerStore_eq] at hasHeader
      simp only [GhostdagManager.work, hasHeader]
      exact worked
    have spCounted : gm.work sp ≤
        ((dx.mergeSetBlues.filter (· ≠ virtualGenesisBlockHash)).map gm.work).sum := by
      apply List.le_sum_of_mem
      apply List.mem_map_of_mem
      apply List.mem_filter.mpr
      exact ⟨List.mem_of_mem_head? scores.head_eq,
        decide_eq_true fun eq => done'.virtualGenesis_not_mem (eq ▸ spMem)⟩
    have aboveSp : spData.blueWork < dx.blueWork := by
      rw [scores.blueWork_eq]
      omega
    by_cases selected : p = sp
    · subst selected
      obtain rfl := Option.some.inj (pFound.symm.trans scores.spData_eq)
      exact aboveSp
    · obtain ⟨pData, spData', pFound', spFound', less⟩ := scores.selectedAmong.2 p parent selected
      obtain rfl := Option.some.inj (pFound.symm.trans pFound')
      obtain rfl := Option.some.inj (scores.spData_eq.symm.trans spFound')
      exact (blueWork_le_of_less less).trans_lt aboveSp
  -- along the past, by the rank that the blue work of the stored data gives
  intro a b bMem past da db aFound bFound
  have grows : ∀ x ∈ {x | x ∈ done}, ∀ p ∈ gm.parents x,
      ((gm.dataOf p).map BlockGHOSTDAGData.blueWork).getD 0 <
        ((gm.dataOf x).map BlockGHOSTDAGData.blueWork).getD 0 := by
    intro x mem p parent
    obtain ⟨dx, xFound, -⟩ := done'.stored x mem
    obtain ⟨dp, pFound, -⟩ := done'.stored p (done'.closed x mem p parent)
    rw [xFound, pFound]
    exact parentBelow x mem p parent dp dx pFound xFound
  have ranked := rank_lt_of_past (S := {x | x ∈ done}) done'.closed _ grows past bMem
  simpa [aFound, bFound] using ranked

/-- Only the genesis has no blue work, and it has no blue score. -/
theorem RunInvariant.blueScore_eq_zero (input : DagInput gm₀ order)
    (positive : PositiveWork gm₀ order) (inv : RunInvariant gm₀ gm order.toFinset done)
    (doneOrder : ∀ x ∈ done, x ∈ order) {x : DomainHash} (mem : x ∈ done) {d : BlockGHOSTDAGData}
    (found : gm.dataOf x = some d) (noWork : d.blueWork = 0) : d.blueScore = 0 := by
  have done' := inv.processed
  by_cases genesis : x = gm.genesisHash
  · subst genesis
    have empty : blueSet order.toFinset gm.dataOf d = ∅ :=
      Finset.eq_empty_of_forall_notMem fun y blue =>
        (done'.data_eq mem found).not_inBlueSet_genesis (mem_blueSet.mp blue).2
    have score := (inv.scored _ mem d found).blueScore_eq_card
    rw [empty, Finset.card_empty] at score
    exact UInt64.toNat_inj.mp score
  · have past : Past gm.parents gm.genesisHash x :=
      (pastOrSelf_iff.mp (done'.genesis_ancestor x mem)).resolve_left fun same => genesis same.symm
    obtain ⟨genesisData, genesisFound, -⟩ := done'.stored _ done'.genesis_mem
    have grows := inv.blueWork_lt input positive doneOrder _ x mem past genesisData d genesisFound
      found
    omega

/-- The selected parent in the data of a block done is a parent of the block and one of its
    merge-set blues. -/
theorem RunInvariant.selectedParent_mem (inv : RunInvariant gm₀ gm blocks done) {x : DomainHash}
    (mem : x ∈ done) {d : BlockGHOSTDAGData} (found : gm.dataOf x = some d) {sp : DomainHash}
    (selected : d.selectedParent = some sp) : sp ∈ gm.parents x ∧ sp ∈ d.mergeSetBlues := by
  have entry := inv.processed.data_eq mem found
  have notGenesis : x ≠ gm.genesisHash := entry.selectedParent_isSome.mp (by simp [selected])
  obtain ⟨d', sp', spData, found', scores⟩ := inv.mergeSetScores x mem notGenesis
  obtain rfl := Option.some.inj (found.symm.trans found')
  obtain rfl := Option.some.inj (scores.selectedParent_eq.symm.trans selected)
  exact ⟨entry.selectedParent_mem sp' selected, List.mem_of_mem_head? scores.head_eq⟩

theorem ClusterInvariant.ghostdag (input : DagInput gm₀ order) (positive : PositiveWork gm₀ order)
    {fuel : Nat} (enough : order.length < fuel) (inv : ClusterInvariant gm₀ gm order.toFinset done)
    (doneOrder : ∀ x ∈ done, x ∈ order) {blockHash : DomainHash} (blockOrder : blockHash ∈ order)
    (fresh : blockHash ∉ done) (parentsDone : ∀ p ∈ gm₀.parents blockHash, p ∈ done) :
    ∃ data, gm.ghostdag fuel blockHash = pure data ∧
      ClusterInvariant gm₀ (gm.stage blockHash data) order.toFinset (blockHash :: done) := by
  have done' := inv.run.processed
  obtain ⟨data, computed, run'⟩ :=
    inv.run.ghostdag input enough doneOrder blockOrder fresh parentsDone
  obtain ⟨data', computed', kCluster⟩ := GhostdagManager.ghostdag_kCluster done'
    (inv.run.blockContext input doneOrder blockOrder fresh parentsDone)
    (inv.run.length_lt enough doneOrder) inv.kCluster inv.run.chained
    (inv.run.blueWork_lt input positive doneOrder)
  rw [computed] at computed'
  obtain rfl := GhostdagM.pure_inj computed'
  refine ⟨data, computed, run', ?_⟩
  intro x mem d found
  have chain : ∀ sp, d.selectedParent = some sp → sp ∈ done := by
    intro sp selected
    have spParent := (run'.processed.data_eq mem found).selectedParent_mem sp selected
    rcases List.mem_cons.mp mem with rfl | mem
    · rw [GhostdagManager.stage_parents, inv.run.parents_eq] at spParent
      exact parentsDone sp spParent
    · exact done'.closed x mem sp spParent
  rcases List.mem_cons.mp mem with rfl | mem
  · rw [GhostdagManager.dataOf_stage, if_pos rfl, Option.some.injEq] at found
    subst found
    exact kCluster.stage done' fresh chain
  · have older : x ≠ blockHash := fun eq => fresh (eq ▸ mem)
    rw [dataOf_stage_of_ne older] at found
    exact (inv.kCluster x mem d found).stage done' fresh chain

theorem ClusterInvariant.genesis (input : DagInput gm₀ order) {fuel : Nat} (started : 0 < fuel) :
    gm₀.ghostdag fuel gm₀.genesisHash = pure ⟨0, 0, none, [], [], ∅⟩ ∧
      ClusterInvariant gm₀ (gm₀.stage gm₀.genesisHash ⟨0, 0, none, [], [], ∅⟩) order.toFinset
        [gm₀.genesisHash] := by
  obtain ⟨computed, run⟩ := RunInvariant.genesis input started
  refine ⟨computed, run, ?_⟩
  intro x mem d found
  rw [List.mem_singleton.mp mem, GhostdagManager.dataOf_stage, if_pos rfl, Option.some.injEq] at found
  subst found
  exact kCluster_empty

end Run

variable {order : List DomainHash}

theorem diamond_positiveWork : PositiveWork diamond [⟨0⟩, ⟨1⟩, ⟨2⟩, ⟨3⟩] := by
  intro b _ header found
  obtain rfl := Option.some.inj found
  decide

end Ghostdag
