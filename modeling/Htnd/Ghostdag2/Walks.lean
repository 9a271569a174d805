import Mathlib
import Htnd.GhostdagManager.KCluster
import Htnd.Ghostdag2.TestHarness

/-!
What the walks of ghostdag2 compute on a DAG. The fold of `selectParent` keeps the parent that
`Less` ranks highest. `findMergeSet` searches down from every parent and skips the blocks that
the oracle puts in the past of the selected parent; it finds the selected parent and the past of
the block outside the past of the selected parent. Its queue holds no block twice, but a block
searched before may be queued again, so the search ends only because every turn lowers the sum
of `2 ^ rank` over the queue, for a rank that grows from parent to child. `findBlueSet` walks down
the selected chain and collects the blue set of the selected parent.
-/
namespace Ghostdag2
open Ghostdag Dag Utxo GoSemantics

theorem mem_appendMissing {item y : DomainHash} {items : List DomainHash} :
    y ∈ appendMissing item items ↔ y = item ∨ y ∈ items := by
  unfold appendMissing contains
  split_ifs with found
  · simp only [List.contains_iff_mem] at found
    exact ⟨Or.inr, fun mem => mem.elim (· ▸ found) id⟩
  · simp [or_comm]

theorem appendMissing_nodup {item : DomainHash} {items : List DomainHash} (nodup : items.Nodup) :
    (appendMissing item items).Nodup := by
  unfold appendMissing contains
  split_ifs with found
  · exact nodup
  · simp only [List.contains_iff_mem] at found
    exact nodup.append (List.nodup_singleton item) (by simpa using found)

theorem appendMissing_of_not_mem {item : DomainHash} {items : List DomainHash}
    (fresh : item ∉ items) : appendMissing item items = items ++ [item] := by
  unfold appendMissing contains
  rw [if_neg (by simpa using fresh)]

section AppendAll

variable {l queue : List DomainHash}

theorem mem_foldl_appendMissing {y : DomainHash} :
    y ∈ l.foldl (fun queue parent => appendMissing parent queue) queue ↔ y ∈ queue ∨ y ∈ l := by
  induction l generalizing queue with
  | nil => simp
  | cons p l ih =>
    rw [List.foldl_cons, ih, mem_appendMissing, List.mem_cons]
    tauto

theorem foldl_appendMissing_nodup (nodup : queue.Nodup) :
    (l.foldl (fun queue parent => appendMissing parent queue) queue).Nodup := by
  induction l generalizing queue with
  | nil => exact nodup
  | cons p l ih => exact ih (appendMissing_nodup nodup)

/-- The sum of `2 ^ rank` over a queue, which each turn of the merge-set search lowers. -/
def queueWeight (rank : DomainHash → Nat) (queue : List DomainHash) : Nat :=
  (queue.map fun x => 2 ^ rank x).sum

variable {rank : DomainHash → Nat}

theorem queueWeight_cons (x : DomainHash) (queue : List DomainHash) :
    queueWeight rank (x :: queue) = 2 ^ rank x + queueWeight rank queue := by
  simp [queueWeight]

theorem queueWeight_appendMissing_le (item : DomainHash) (queue : List DomainHash) :
    queueWeight rank (appendMissing item queue) ≤ queueWeight rank queue + 2 ^ rank item := by
  unfold appendMissing
  split_ifs
  · exact Nat.le_add_right _ _
  · simp [queueWeight]

theorem queueWeight_foldl_appendMissing_le :
    queueWeight rank (l.foldl (fun queue parent => appendMissing parent queue) queue) ≤
      queueWeight rank queue + queueWeight rank l := by
  induction l generalizing queue with
  | nil => simp [queueWeight]
  | cons p l ih =>
    rw [List.foldl_cons, queueWeight_cons]
    have added : queueWeight rank (appendMissing p queue) ≤ queueWeight rank queue + 2 ^ rank p :=
      queueWeight_appendMissing_le p queue
    have rest : queueWeight rank (l.foldl (fun queue parent => appendMissing parent queue)
        (appendMissing p queue)) ≤ queueWeight rank (appendMissing p queue) + queueWeight rank l := ih
    omega

/-- Distinct ranks below `n` weigh less than `2 ^ n`. -/
theorem queueWeight_lt (nodup : l.Nodup) {n : Nat} (below : ∀ x ∈ l, rank x < n)
    (injective : ∀ x ∈ l, ∀ y ∈ l, rank x = rank y → x = y) : queueWeight rank l < 2 ^ n := by
  have ranks : (l.map rank).Nodup := nodup.map_on injective
  have sum : queueWeight rank l = ∑ k ∈ (l.map rank).toFinset, 2 ^ k := by
    rw [List.sum_toFinset _ ranks, List.map_map]
    rfl
  rw [sum]
  refine Nat.geomSum_lt le_rfl fun k mem => ?_
  obtain ⟨x, xMem, rfl⟩ := List.mem_map.mp (List.mem_toFinset.mp mem)
  exact below x xMem

end AppendAll

namespace GhostdagHelper
variable {gh : GhostdagHelper}

def dataOf (gh : GhostdagHelper) (blockHash : DomainHash) : Option BlockGHOSTDAGData :=
  gh.dataStore blockHash false

theorem get_of_found {blockHash : DomainHash} {data : BlockGHOSTDAGData}
    (found : gh.dataOf blockHash = some data) : gh.get blockHash = pure data := by
  unfold get
  rw [show gh.dataStore blockHash false = some data from found]

/-! ### The selected parent -/

theorem selectParent_eq (acc : DomainHash × Nat × UInt64) {parent : DomainHash}
    {data : BlockGHOSTDAGData} (found : gh.dataOf parent = some data) :
    gh.selectParent acc parent = pure
      (if acc.2.1 < data.blueWork ∨ data.blueWork = acc.2.1 ∧ acc.1.value < parent.value then
        (parent, data.blueWork, data.blueScore) else acc) := by
  simp only [selectParent, get_of_found found, ismoreHash, pure_bind]
  by_cases above : acc.2.1 < data.blueWork
  · simp [above]
  · simp only [above, if_false, false_or, decide_eq_true_eq]
    split_ifs <;> rfl

/-- One turn of the fold: a parent not seen before replaces the highest so far when `Less`
    ranks it higher. -/
theorem selectParent_among {seen : List DomainHash} {best p : DomainHash}
    {bestData pData : BlockGHOSTDAGData} (fresh : p ∉ seen) (bestFound : gh.dataOf best = some bestData)
    (among : SelectedAmong gh.dataOf best seen) (pFound : gh.dataOf p = some pData) :
    ∃ best' bestData', gh.selectParent (best, bestData.blueWork, bestData.blueScore) p =
        pure (best', bestData'.blueWork, bestData'.blueScore) ∧ gh.dataOf best' = some bestData' ∧
      SelectedAmong gh.dataOf best' (seen ++ [p]) := by
  have ne : best ≠ p := fun same => fresh (same ▸ among.1)
  rw [selectParent_eq _ pFound]
  by_cases higher : bestData.blueWork < pData.blueWork ∨
      pData.blueWork = bestData.blueWork ∧ best.value < p.value
  · refine ⟨p, pData, by rw [if_pos higher], pFound, List.mem_append_right _ (by simp), ?_⟩
    have less : Less best bestData p pData = true := by
      rw [less_eq_true_iff, ← Fin.lt_def]
      omega
    intro q qMem qNe
    rcases List.mem_append.mp qMem with qMem | qEq
    · by_cases isBest : q = best
      · subst isBest
        exact ⟨bestData, pData, bestFound, pFound, less⟩
      · obtain ⟨qData, bestData', qFound, bestFound', qLess⟩ := among.2 q qMem isBest
        obtain rfl := Option.some.inj (bestFound.symm.trans bestFound')
        exact ⟨qData, pData, qFound, pFound, less_trans qLess less⟩
    · exact absurd (List.mem_singleton.mp qEq) qNe
  · refine ⟨best, bestData, by rw [if_neg higher], bestFound, List.mem_append_left _ among.1,
      fun q qMem qNe => ?_⟩
    rcases List.mem_append.mp qMem with qMem | qEq
    · exact among.2 q qMem qNe
    · obtain rfl := List.mem_singleton.mp qEq
      have lower : Less q pData best bestData = true := by
        have distinct := DomainHash.value_val_ne ne
        rw [less_eq_true_iff]
        rw [Fin.lt_def] at higher
        omega
      exact ⟨pData, bestData, pFound, bestFound, lower⟩

/-- The fold keeps the parent that `Less` ranks highest. It starts from the first parent with
    no work, which only a parent whose data has no work and no blue score can leave in place
    with data not its own. -/
theorem foldlM_selectParent {first : DomainHash} {rest : List DomainHash}
    (nodup : (first :: rest).Nodup) (found : ∀ p ∈ first :: rest, ∃ d, gh.dataOf p = some d)
    (noWork : ∀ p ∈ first :: rest, ∀ d, gh.dataOf p = some d → d.blueWork = 0 → d.blueScore = 0) :
    ∃ sp spData, (first :: rest).foldlM gh.selectParent (first, 0, 0) =
        pure (sp, spData.blueWork, spData.blueScore) ∧ gh.dataOf sp = some spData ∧
      SelectedAmong gh.dataOf sp (first :: rest) := by
  obtain ⟨firstData, firstFound⟩ := found first List.mem_cons_self
  have started : gh.selectParent (first, 0, 0) first =
      pure (first, firstData.blueWork, firstData.blueScore) := by
    rw [selectParent_eq _ firstFound]
    by_cases worked : 0 < firstData.blueWork
    · rw [if_pos (Or.inl worked)]
    · have zero : firstData.blueWork = 0 := by omega
      rw [if_neg (by simp [zero]), zero, noWork first List.mem_cons_self firstData firstFound zero]
  -- the fold holds the highest of the parents seen so far, with its own data
  obtain ⟨acc, folded, best, bestData, rfl, bestFound, among⟩ : ∃ acc,
      rest.foldlM gh.selectParent (first, firstData.blueWork, firstData.blueScore) = pure acc ∧
        ∃ best bestData, acc = (best, bestData.blueWork, bestData.blueScore) ∧
          gh.dataOf best = some bestData ∧ SelectedAmong gh.dataOf best (first :: rest) :=
    foldlM_eq_pure rest
    (fun seen acc => ∃ best bestData, acc = (best, bestData.blueWork, bestData.blueScore) ∧
      gh.dataOf best = some bestData ∧ SelectedAmong gh.dataOf best (first :: seen))
    (fun seen p rest' acc split holds => by
      obtain ⟨best, bestData, accEq, bestFound, among⟩ := holds
      obtain ⟨pData, pFound⟩ := found p (by simp [split])
      have fresh : p ∉ first :: seen := by
        rw [split, ← List.cons_append] at nodup
        exact fun mem => (List.nodup_append.mp nodup).2.2 p mem p List.mem_cons_self rfl
      subst accEq
      obtain ⟨best', bestData', stepped, bestFound', among'⟩ :=
        selectParent_among fresh bestFound among pFound
      exact ⟨_, stepped, best', bestData', rfl, bestFound', by rw [← List.cons_append]; exact among'⟩)
    ⟨first, firstData, rfl, firstFound, List.mem_singleton_self first,
      fun q qMem qNe => absurd (List.mem_singleton.mp qMem) qNe⟩
  refine ⟨best, bestData, ?_, bestFound, among⟩
  rw [List.foldlM_cons, started, pure_bind, folded]

/-! ### The merge set -/

/-- What every turn of the merge-set search keeps: the queue holds distinct blocks of the past of
    the block; the merge set so far holds distinct blocks, each the selected parent or outside its
    past; and every block of the past outside the past of the selected parent, and the selected
    parent itself, is in the merge set or below a block of the queue. -/
structure MergeSetWalk (gh : GhostdagHelper) (blockHash selectedParent : DomainHash)
    (s : MergeSetSearch) : Prop where
  queue_nodup : s.blockQueue.Nodup
  queue_past : ∀ x ∈ s.blockQueue, Past gh.parents x blockHash
  nodup : s.allMergeSet.Nodup
  sound : ∀ x ∈ s.allMergeSet, x = selectedParent ∨
    Past gh.parents x blockHash ∧ ¬ PastOrSelf gh.parents x selectedParent
  selected : selectedParent ∈ s.allMergeSet ∨ selectedParent ∈ s.blockQueue
  complete : ∀ x, Past gh.parents x blockHash → ¬ PastOrSelf gh.parents x selectedParent →
    x ∈ s.allMergeSet ∨ ∃ q ∈ s.blockQueue, PastOrSelf gh.parents x q

section Pop

variable {blockHash selectedParent : DomainHash} {s : MergeSetSearch} {block : DomainHash}
  {blockQueue : List DomainHash} (walk : MergeSetWalk gh blockHash selectedParent s)
  (popped : s.blockQueue = block :: blockQueue)
include walk popped

theorem MergeSetWalk.rest_nodup : blockQueue.Nodup := by
  have nodup := walk.queue_nodup
  rw [popped] at nodup
  exact nodup.of_cons

theorem MergeSetWalk.rest_past : ∀ x ∈ blockQueue, Past gh.parents x blockHash := fun x mem =>
  walk.queue_past x (by simp [popped, mem])

theorem MergeSetWalk.block_past : Past gh.parents block blockHash :=
  walk.queue_past block (by simp [popped])

/-- A block of the past outside the selected parent's is in the merge set, below the block
    taken, or below the rest of the queue. -/
theorem MergeSetWalk.complete_pop {x : DomainHash} (past : Past gh.parents x blockHash)
    (outside : ¬ PastOrSelf gh.parents x selectedParent) :
    x ∈ s.allMergeSet ∨ PastOrSelf gh.parents x block ∨
      ∃ q ∈ blockQueue, PastOrSelf gh.parents x q := by
  rcases walk.complete x past outside with mem | ⟨q, qMem, below⟩
  · exact Or.inl mem
  · rw [popped] at qMem
    rcases List.mem_cons.mp qMem with rfl | qMem
    · exact Or.inr (Or.inl below)
    · exact Or.inr (Or.inr ⟨q, qMem, below⟩)

theorem MergeSetWalk.selected_rest (other : selectedParent ≠ block) :
    selectedParent ∈ s.allMergeSet ∨ selectedParent ∈ blockQueue := by
  rcases walk.selected with mem | mem
  · exact Or.inl mem
  · rw [popped] at mem
    exact Or.inr ((List.mem_cons.mp mem).resolve_left other)

/-- The selected parent joins the merge set, and the search does not go below it. -/
theorem MergeSetWalk.take_selected (selected : selectedParent = block) :
    MergeSetWalk gh blockHash selectedParent ⟨appendMissing block s.allMergeSet, blockQueue⟩ := by
  subst selected
  refine ⟨walk.rest_nodup popped, walk.rest_past popped, appendMissing_nodup walk.nodup,
    fun x mem => ?_, Or.inl (mem_appendMissing.mpr (Or.inl rfl)), fun x past outside => ?_⟩
  · rcases mem_appendMissing.mp mem with rfl | mem
    · exact Or.inl rfl
    · exact walk.sound x mem
  · rcases walk.complete_pop popped past outside with mem | below | later
    · exact Or.inl (mem_appendMissing.mpr (Or.inr mem))
    · exact absurd below outside
    · exact Or.inr later

/-- A block of the past of the selected parent is skipped, with its past. -/
theorem MergeSetWalk.skip (below : Past gh.parents block selectedParent)
    (other : selectedParent ≠ block) :
    MergeSetWalk gh blockHash selectedParent ⟨s.allMergeSet, blockQueue⟩ := by
  refine ⟨walk.rest_nodup popped, walk.rest_past popped, walk.nodup, walk.sound,
    walk.selected_rest popped other, fun x past outside => ?_⟩
  rcases walk.complete_pop popped past outside with mem | below' | later
  · exact Or.inl mem
  · exact absurd (below'.trans below.pastOrSelf) outside
  · exact Or.inr later

/-- A block outside the past of the selected parent joins the merge set, and its parents the
    queue. -/
theorem MergeSetWalk.merge (outside : ¬ PastOrSelf gh.parents block selectedParent) :
    MergeSetWalk gh blockHash selectedParent
      ⟨appendMissing block s.allMergeSet, gh.insertParent block blockQueue⟩ := by
  have blockPast := walk.block_past popped
  have other : selectedParent ≠ block := fun same => outside (same ▸ PastOrSelf.refl _)
  refine ⟨foldl_appendMissing_nodup (walk.rest_nodup popped), fun x mem => ?_,
    appendMissing_nodup walk.nodup, fun x mem => ?_, ?_, fun x past outside' => ?_⟩
  · rcases mem_foldl_appendMissing.mp mem with mem | parent
    · exact walk.rest_past popped x mem
    · exact (past_of_mem_parents parent).trans blockPast
  · rcases mem_appendMissing.mp mem with rfl | mem
    · exact Or.inr ⟨blockPast, outside⟩
    · exact walk.sound x mem
  · rcases walk.selected_rest popped other with mem | mem
    · exact Or.inl (mem_appendMissing.mpr (Or.inr mem))
    · exact Or.inr (mem_foldl_appendMissing.mpr (Or.inl mem))
  · rcases walk.complete_pop popped past outside' with mem | below | ⟨q, qMem, below⟩
    · exact Or.inl (mem_appendMissing.mpr (Or.inr mem))
    · rcases pastOrSelf_iff.1 below with rfl | below
      · exact Or.inl (mem_appendMissing.mpr (Or.inl rfl))
      · obtain ⟨p, parent, path⟩ := past_iff_exists_parent.1 below
        exact Or.inr ⟨p, mem_foldl_appendMissing.mpr (Or.inr parent), path⟩
    · exact Or.inr ⟨q, mem_foldl_appendMissing.mpr (Or.inl qMem), below⟩

end Pop

section MergeSet

variable {blockHash selectedParent : DomainHash} {rank : DomainHash → Nat}
  (oracle : ∀ x, Past gh.parents x blockHash → x ≠ selectedParent →
    (gh.isAncestorOf x selectedParent = true ↔ Past gh.parents x selectedParent))
  (ranked : ∀ x, PastOrSelf gh.parents x blockHash → ∀ p ∈ gh.parents x, rank p < rank x)
  (injective : ∀ x y, Past gh.parents x blockHash → Past gh.parents y blockHash →
    rank x = rank y → x = y)
  (parentsNodup : ∀ x, Past gh.parents x blockHash → (gh.parents x).Nodup)

include ranked in
theorem rank_lt_rank_of_past {x : DomainHash} (past : Past gh.parents x blockHash) :
    rank x < rank blockHash :=
  Dag.rank_lt_of_past (S := {y | PastOrSelf gh.parents y blockHash})
    (fun _ below _ parent => (Relation.ReflTransGen.single parent).trans below) rank ranked past
    (PastOrSelf.refl blockHash)

include ranked injective in
theorem queueWeight_lt_of_past {queue : List DomainHash} (nodup : queue.Nodup)
    (inPast : ∀ x ∈ queue, Past gh.parents x blockHash) :
    queueWeight rank queue < 2 ^ rank blockHash :=
  queueWeight_lt nodup (fun x mem => rank_lt_rank_of_past ranked (inPast x mem))
    fun x xMem y yMem => injective x y (inPast x xMem) (inPast y yMem)

include ranked injective parentsNodup in
/-- The parents of a block weigh less than the block: their ranks are distinct and below its. -/
theorem queueWeight_insertParent_lt {block : DomainHash} (blockPast : Past gh.parents block blockHash)
    (blockQueue : List DomainHash) :
    queueWeight rank (gh.insertParent block blockQueue) < queueWeight rank (block :: blockQueue) := by
  have parentsPast : ∀ p ∈ gh.parents block, Past gh.parents p blockHash := fun p parent =>
    (past_of_mem_parents parent).trans blockPast
  have parentsLight : queueWeight rank (gh.parents block) < 2 ^ rank block :=
    queueWeight_lt (parentsNodup block blockPast)
      (fun p parent => ranked block blockPast.pastOrSelf p parent)
      fun p pParent q qParent => injective p q (parentsPast p pParent) (parentsPast q qParent)
  have added : queueWeight rank ((gh.parents block).foldl
      (fun queue parent => appendMissing parent queue) blockQueue) ≤
      queueWeight rank blockQueue + queueWeight rank (gh.parents block) :=
    queueWeight_foldl_appendMissing_le
  rw [queueWeight_cons]
  unfold insertParent
  omega

include oracle ranked injective parentsNodup in
theorem findMergeSetStep_spec {s : MergeSetSearch}
    (walk : MergeSetWalk gh blockHash selectedParent s) {block : DomainHash}
    {blockQueue : List DomainHash} (popped : s.blockQueue = block :: blockQueue) :
    ∃ s', gh.findMergeSetStep selectedParent s = pure (.inl s') ∧
      MergeSetWalk gh blockHash selectedParent s' ∧
      queueWeight rank s'.blockQueue < queueWeight rank s.blockQueue := by
  have blockPast := walk.block_past popped
  have lighter : queueWeight rank blockQueue < queueWeight rank (block :: blockQueue) := by
    rw [queueWeight_cons]
    have := Nat.one_le_two_pow (n := rank block)
    omega
  simp only [findMergeSetStep, popped]
  by_cases isSelected : selectedParent = block
  · exact ⟨_, if_pos isSelected, walk.take_selected popped isSelected, lighter⟩
  rw [if_neg isSelected]
  have notSelected : block ≠ selectedParent := Ne.symm isSelected
  cases ancestor : gh.isAncestorOf block selectedParent
  all_goals simp only [Bool.false_eq_true, if_false, if_true]
  · have outside : ¬ PastOrSelf gh.parents block selectedParent := fun below =>
      (pastOrSelf_iff.1 below).elim notSelected fun past =>
        Bool.false_ne_true (ancestor ▸ (oracle block blockPast notSelected).mpr past)
    exact ⟨_, rfl, walk.merge popped outside,
      queueWeight_insertParent_lt ranked injective parentsNodup blockPast blockQueue⟩
  · exact ⟨_, rfl, walk.skip popped ((oracle block blockPast notSelected).mp ancestor) isSelected,
      lighter⟩

include oracle ranked injective parentsNodup in
theorem findMergeSet_spec (selectedMem : selectedParent ∈ gh.parents blockHash) {fuel : Nat}
    (enough : 2 ^ rank blockHash ≤ fuel) :
    ∃ allMergeSet, gh.findMergeSet fuel (gh.parents blockHash) selectedParent = pure allMergeSet ∧
      allMergeSet.Nodup ∧ ∀ x, x ∈ allMergeSet ↔ x = selectedParent ∨
        Past gh.parents x blockHash ∧ ¬ PastOrSelf gh.parents x selectedParent := by
  let queued := (gh.parents blockHash).foldl (fun queue parent => appendMissing parent queue) []
  have queuedPast : ∀ x ∈ queued, Past gh.parents x blockHash := fun x mem =>
    past_of_mem_parents ((mem_foldl_appendMissing.mp mem).resolve_left List.not_mem_nil)
  have start : MergeSetWalk gh blockHash selectedParent ⟨[], queued⟩ := by
    refine ⟨foldl_appendMissing_nodup List.nodup_nil, queuedPast, List.nodup_nil,
      fun _ mem => absurd mem List.not_mem_nil,
      Or.inr (mem_foldl_appendMissing.mpr (Or.inr selectedMem)), fun x past _ => ?_⟩
    obtain ⟨p, parent, path⟩ := past_iff_exists_parent.1 past
    exact Or.inr ⟨p, mem_foldl_appendMissing.mpr (Or.inr parent), path⟩
  obtain ⟨allMergeSet, looped, nodup, members⟩ : ∃ allMergeSet,
      loop (fun s => (gh.findMergeSetStep selectedParent s).run) fuel ⟨[], queued⟩ =
        some (.ok allMergeSet) ∧ allMergeSet.Nodup ∧ ∀ x, x ∈ allMergeSet ↔ x = selectedParent ∨
          Past gh.parents x blockHash ∧ ¬ PastOrSelf gh.parents x selectedParent :=
    loop_eq_ok_of_bound
    (fun n s => MergeSetWalk gh blockHash selectedParent s ∧ queueWeight rank s.blockQueue < n)
    (fun allMergeSet : List DomainHash => allMergeSet.Nodup ∧ ∀ x, x ∈ allMergeSet ↔ x = selectedParent ∨
      Past gh.parents x blockHash ∧ ¬ PastOrSelf gh.parents x selectedParent)
    (fun _ ⟨_, below⟩ => Nat.not_lt_zero _ below)
    (fun n (s : MergeSetSearch) ⟨walk, below⟩ => by
      cases popped : s.blockQueue with
      | nil =>
        left
        refine ⟨s.allMergeSet, by simp [findMergeSetStep, popped], walk.nodup, fun x => ?_⟩
        refine ⟨walk.sound x, ?_⟩
        rintro (rfl | ⟨past, outside⟩)
        · simpa [popped] using walk.selected
        · simpa [popped] using walk.complete x past outside
      | cons block blockQueue =>
        right
        obtain ⟨s', stepped, walk', lighter⟩ :=
          findMergeSetStep_spec oracle ranked injective parentsNodup walk popped
        exact ⟨s', by rw [stepped]; rfl, walk', by omega⟩)
    fuel ⟨[], queued⟩ ⟨start, (queueWeight_lt_of_past ranked injective start.queue_nodup
      queuedPast).trans_le enough⟩
  refine ⟨allMergeSet, ?_, nodup, members⟩
  unfold findMergeSet
  dsimp only
  rw [looped]
  rfl

end MergeSet

theorem sortByBlueWork_spec {arr : List DomainHash} (nodup : arr.Nodup)
    (found : ∀ x ∈ arr, ∃ d, gh.dataOf x = some d) :
    ∃ sorted, gh.sortByBlueWork arr = pure sorted ∧ sorted.Perm arr ∧
      SortedByLess gh.dataOf sorted := by
  unfold sortByBlueWork
  split_ifs with short
  · refine ⟨arr, rfl, List.Perm.refl _, ?_⟩
    match arr, short with
    | [], _ => exact List.Pairwise.nil
    | [x], _ => exact List.pairwise_singleton _ x
  · have noneMissing : arr.find? (fun hash => (gh.dataStore hash false).isNone) = none := by
      rw [List.find?_eq_none]
      intro x mem
      obtain ⟨d, xFound⟩ := found x mem
      simp [show gh.dataStore x false = some d from xFound]
    rw [noneMissing]
    exact ⟨_, rfl, List.perm_insertionSort _ arr, sortedByLess_insertionSort gh.dataOf nodup⟩

/-! ### The blue set of the selected parent -/

section BlueSet

variable {done : List DomainHash} {rank : DomainHash → Nat}
  (chain : ∀ c ∈ done, ∀ dc, gh.dataOf c = some dc → ∀ c', dc.selectedParent = some c' →
    c' ∈ done ∧ c' ∈ dc.mergeSetBlues ∧ rank c' < rank c)
  (stored : ∀ c ∈ done, ∃ dc, gh.dataOf c = some dc)

theorem findBlueSetStep_eq {blueSet : List DomainHash} {c : DomainHash} {dc : BlockGHOSTDAGData}
    (found : gh.dataOf c = some dc) :
    gh.findBlueSetStep (blueSet, some c) = pure (.inl (dc.mergeSetBlues.foldl
      (fun blueSet blue => appendMissing blue blueSet) (appendMissing c blueSet), dc.selectedParent)) := by
  simp [findBlueSetStep, get_of_found found]

/-- One turn of the walk: the chain block and its merge-set blues join the blue set, and the
    blue set of its data is that of its selected parent's and those blues. -/
theorem mem_findBlueSetStep_iff {blueSet : List DomainHash} {c : DomainHash}
    {dc : BlockGHOSTDAGData} (spBlue : ∀ c', dc.selectedParent = some c' → c' ∈ dc.mergeSetBlues)
    (y : DomainHash) :
    (y ∈ dc.mergeSetBlues.foldl (fun blueSet blue => appendMissing blue blueSet)
        (appendMissing c blueSet) ∨ ∃ c' dc', dc.selectedParent = some c' ∧ gh.dataOf c' = some dc' ∧
          (y = c' ∨ InBlueSet gh.dataOf dc' y)) ↔
      y ∈ blueSet ∨ y = c ∨ InBlueSet gh.dataOf dc y := by
  rw [mem_foldl_appendMissing, mem_appendMissing, inBlueSet_iff]
  constructor
  · rintro ((((rfl | mem) | blue)) | ⟨c', dc', selected, found, rfl | blue⟩)
    · exact Or.inr (Or.inl rfl)
    · exact Or.inl mem
    · exact Or.inr (Or.inr (Or.inl blue))
    · exact Or.inr (Or.inr (Or.inl (spBlue _ selected)))
    · exact Or.inr (Or.inr (Or.inr ⟨c', dc', selected, found, blue⟩))
  · rintro (mem | rfl | blue | ⟨c', dc', selected, found, blue⟩)
    · exact Or.inl (Or.inl (Or.inr mem))
    · exact Or.inl (Or.inl (Or.inl rfl))
    · exact Or.inl (Or.inr blue)
    · exact Or.inr ⟨c', dc', selected, found, Or.inr blue⟩

include chain stored in
theorem findBlueSet_spec {sp : DomainHash} {spData : BlockGHOSTDAGData} (spMem : sp ∈ done)
    (spFound : gh.dataOf sp = some spData) {fuel : Nat} (enough : rank sp + 1 < fuel) :
    ∃ blueSet, gh.findBlueSet fuel [] sp = pure blueSet ∧ blueSet.Nodup ∧
      ∀ y, y ∈ blueSet ↔ y = sp ∨ InBlueSet gh.dataOf spData y := by
  -- the blocks collected, with the chain block ahead and its blue set, are the blue set sought
  let P : Nat → List DomainHash × Option DomainHash → Prop := fun n s =>
    s.1.Nodup ∧ 0 < n ∧ (∀ c, s.2 = some c → c ∈ done ∧ rank c + 1 < n) ∧
      ∀ y, (y ∈ s.1 ∨ ∃ c dc, s.2 = some c ∧ gh.dataOf c = some dc ∧
        (y = c ∨ InBlueSet gh.dataOf dc y)) ↔ y = sp ∨ InBlueSet gh.dataOf spData y
  obtain ⟨blueSet, walked, nodup, members⟩ : ∃ blueSet,
      loop (fun s => (gh.findBlueSetStep s).run) fuel ([], some sp) = some (.ok blueSet) ∧
        blueSet.Nodup ∧ ∀ y, y ∈ blueSet ↔ y = sp ∨ InBlueSet gh.dataOf spData y :=
    loop_eq_ok_of_bound P (fun blueSet : List DomainHash => blueSet.Nodup ∧
        ∀ y, y ∈ blueSet ↔ y = sp ∨ InBlueSet gh.dataOf spData y)
      (fun _ ⟨_, positive, _⟩ => Nat.lt_irrefl 0 positive)
      (fun n ⟨blueSet, current⟩ ⟨nodup, _, ahead, members⟩ => by
        cases current with
        | none =>
          left
          refine ⟨blueSet, rfl, nodup, fun y => ?_⟩
          rw [← members y]
          simp
        | some c =>
          right
          obtain ⟨cMem, below⟩ := ahead c rfl
          obtain ⟨dc, cFound⟩ := stored c cMem
          have next := chain c cMem dc cFound
          refine ⟨_, by rw [findBlueSetStep_eq cFound]; rfl,
            foldl_appendMissing_nodup (appendMissing_nodup nodup), by omega, ?_, fun y => ?_⟩
          · intro c' selected
            obtain ⟨c'Mem, -, lower⟩ := next c' selected
            exact ⟨c'Mem, by omega⟩
          · rw [mem_findBlueSetStep_iff (fun c' selected => (next c' selected).2.1), ← members y]
            simp [cFound])
      fuel ([], some sp) ⟨List.nodup_nil, by omega, fun c same => by
        obtain rfl := Option.some.inj same
        exact ⟨spMem, enough⟩, fun y => by simp [spFound]⟩
  refine ⟨blueSet, ?_, nodup, members⟩
  unfold findBlueSet
  rw [walked]
  rfl

end BlueSet

/-! ### The colouring -/

theorem divideBlueRed_blues_sub (desiredBlock : DomainHash) (c : Coloring) {y : DomainHash}
    (mem : y ∈ c.blues) : y ∈ (gh.divideBlueRed desiredBlock c).blues := by
  rw [divideBlueRed_eq]
  split_ifs
  · exact mem_appendMissing.mpr (Or.inr mem)
  · exact mem

/-- The selected parent, a blue from the start, leaves the colouring as it is: the colouring of
    the merge set with it is that of the merge set without it. -/
theorem foldl_colorMergeSetBlock {sp : DomainHash} (l : List DomainHash) {c : Coloring}
    (spBlue : sp ∈ c.blues) :
    l.foldl (gh.colorMergeSetBlock sp) c =
      (l.filter (· ≠ sp)).foldl (fun c x => gh.divideBlueRed x c) c := by
  induction l generalizing c with
  | nil => rfl
  | cons x l ih =>
    by_cases selected : x = sp
    · subst selected
      have same : gh.colorMergeSetBlock x c x = c := by
        simp [colorMergeSetBlock, contains, spBlue]
      rw [List.foldl_cons, same, ih spBlue, List.filter_cons_of_neg (by simp)]
    · have turn : gh.colorMergeSetBlock sp c x = gh.divideBlueRed x c := if_neg selected
      rw [List.foldl_cons, turn, ih (divideBlueRed_blues_sub x c spBlue),
        List.filter_cons_of_pos (by simpa using selected), List.foldl_cons]

theorem ghostdag_eq {fuel : Nat} {blockHash first sp : DomainHash} {rest mergeSetArr sorted blueSet : List DomainHash}
    {spData : BlockGHOSTDAGData} {colored : Coloring} {myWork : Nat}
    (parents : gh.parents blockHash = first :: rest)
    (selected : (first :: rest).foldlM gh.selectParent (first, 0, 0) =
      pure (sp, spData.blueWork, spData.blueScore))
    (merged : gh.findMergeSet fuel (first :: rest) sp = pure mergeSetArr)
    (sortedEq : gh.sortByBlueWork mergeSetArr = pure sorted)
    (blues : gh.findBlueSet fuel [] sp = pure blueSet)
    (coloring : sorted.foldl (gh.colorMergeSetBlock sp) ⟨[sp], [], blueSet⟩ = colored)
    (worked : colored.blues.foldlM gh.addWork spData.blueWork = pure myWork) :
    gh.ghostdag fuel blockHash = pure ⟨spData.blueScore + colored.blues.length.toUInt64, myWork,
      some sp, colored.blues, colored.reds, ∅⟩ := by
  simp only [ghostdag, parents, sliceIndex_zero_cons, selected, merged, sortedEq, blues, coloring,
    worked, pure_bind]

end GhostdagHelper

end Ghostdag2
