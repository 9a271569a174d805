import Htnd.GhostdagManager.Spec

/-!
The selected parent and the merge set of a block, as GHOSTDAG finds them. `Less` orders blocks
by blue work and then by hash; the selected parent is the parent it ranks highest. The search
of `mergeSetWithoutSelectedParent` walks down from the other parents and stops at blocks in
the past of the selected parent; when the parents form an antichain it finds exactly the past
of the block outside that of the selected parent, and `sortMergeSet` then lists it in the order
of `Less`.
-/
namespace Ghostdag
open Dag Utxo GoSemantics

theorem DomainHash.value_val_ne {a b : DomainHash} (ne : a ≠ b) : a.value.val ≠ b.value.val :=
  fun eq => ne (by cases a; cases b; exact congrArg DomainHash.mk (Fin.ext eq))

section Less

variable {a b c : DomainHash} {da db dc : BlockGHOSTDAGData}

theorem less_eq_true_iff :
    Less a da b db = true ↔
      da.blueWork < db.blueWork ∨ da.blueWork = db.blueWork ∧ a.value.val < b.value.val := by
  unfold Less
  split_ifs with below above
  · simp [below]
  · simp only [false_iff]
    omega
  · simp only [decide_eq_true_eq, Fin.lt_def]
    omega

theorem less_self (a : DomainHash) (d : BlockGHOSTDAGData) : Less a d a d = false := by
  rw [← Bool.not_eq_true, less_eq_true_iff]
  omega

theorem less_trans (ab : Less a da b db = true) (bc : Less b db c dc = true) :
    Less a da c dc = true := by
  rw [less_eq_true_iff] at *
  omega

theorem less_of_not_less (ne : a ≠ b) (notLess : Less a da b db = false) :
    Less b db a da = true := by
  have distinct := DomainHash.value_val_ne ne
  rw [← Bool.not_eq_true, less_eq_true_iff] at notLess
  rw [less_eq_true_iff]
  omega

theorem blueWork_le_of_less (ab : Less a da b db = true) : da.blueWork ≤ db.blueWork := by
  rw [less_eq_true_iff] at ab
  omega

end Less

def SelectedAmong (dataOf : DomainHash → Option BlockGHOSTDAGData) (selectedParent : DomainHash)
    (hashes : List DomainHash) : Prop :=
  selectedParent ∈ hashes ∧ ∀ p ∈ hashes, p ≠ selectedParent → ∃ pData spData,
    dataOf p = some pData ∧ dataOf selectedParent = some spData ∧
      Less p pData selectedParent spData = true

def SortedByLess (dataOf : DomainHash → Option BlockGHOSTDAGData) (l : List DomainHash) : Prop :=
  l.Pairwise fun a b => ∀ da db, dataOf a = some da → dataOf b = some db → Less a da b db = true

section Order

variable {dataOf dataOf' : DomainHash → Option BlockGHOSTDAGData} {hashes : List DomainHash}

theorem less_congr {a b : DomainHash} {da db da' db' : BlockGHOSTDAGData}
    (aWork : da'.blueWork = da.blueWork) (bWork : db'.blueWork = db.blueWork) :
    Less a da' b db' = Less a da b db := by
  simp only [Less, aWork, bWork]

theorem SelectedAmong.unique {a b : DomainHash} (first : SelectedAmong dataOf a hashes)
    (second : SelectedAmong dataOf b hashes) : a = b := by
  by_contra ne
  obtain ⟨da, db, aFound, bFound, ab⟩ := second.2 a first.1 ne
  obtain ⟨db', da', bFound', aFound', ba⟩ := first.2 b second.1 (Ne.symm ne)
  obtain rfl := Option.some.inj (aFound.symm.trans aFound')
  obtain rfl := Option.some.inj (bFound.symm.trans bFound')
  have cycle := less_trans ab ba
  rw [less_self] at cycle
  exact absurd cycle Bool.false_ne_true

/-- `Less` reads only blue works, so a store with the same blue works selects the same parent. -/
theorem SelectedAmong.of_blueWork {sp : DomainHash}
    (same : ∀ x ∈ hashes, ∃ d d', dataOf x = some d ∧ dataOf' x = some d' ∧ d'.blueWork = d.blueWork)
    (among : SelectedAmong dataOf sp hashes) : SelectedAmong dataOf' sp hashes := by
  refine ⟨among.1, fun p parent ne => ?_⟩
  obtain ⟨pData, spData, pFound, spFound, less⟩ := among.2 p parent ne
  obtain ⟨pData₁, pData', pFound₁, pFound', pWork⟩ := same p parent
  obtain ⟨spData₁, spData', spFound₁, spFound', spWork⟩ := same sp among.1
  obtain rfl := Option.some.inj (pFound.symm.trans pFound₁)
  obtain rfl := Option.some.inj (spFound.symm.trans spFound₁)
  exact ⟨pData', spData', pFound', spFound', by rw [less_congr pWork spWork]; exact less⟩

theorem SortedByLess.of_blueWork {l : List DomainHash}
    (same : ∀ x ∈ l, ∃ d d', dataOf x = some d ∧ dataOf' x = some d' ∧ d'.blueWork = d.blueWork)
    (sorted : SortedByLess dataOf l) : SortedByLess dataOf' l := by
  refine sorted.imp_of_mem fun {a b} aMem bMem ordered da' db' aFound' bFound' => ?_
  obtain ⟨da, da'', aFound, aFound'', aWork⟩ := same a aMem
  obtain ⟨db, db'', bFound, bFound'', bWork⟩ := same b bMem
  obtain rfl := Option.some.inj (aFound'.symm.trans aFound'')
  obtain rfl := Option.some.inj (bFound'.symm.trans bFound'')
  rw [less_congr aWork bWork]
  exact ordered da db aFound bFound

/-- Two lists of the same blocks with data, both sorted by `Less`, are one list. -/
theorem SortedByLess.eq_of_perm {l l' : List DomainHash} (found : ∀ x ∈ l, ∃ d, dataOf x = some d)
    (sorted : SortedByLess dataOf l) (sorted' : SortedByLess dataOf l') (perm : l.Perm l') : l = l' := by
  refine perm.eq_of_pairwise (fun a b aMem bMem ab ba => ?_) sorted sorted'
  obtain ⟨da, aFound⟩ := found a aMem
  obtain ⟨db, bFound⟩ := found b (perm.mem_iff.mpr bMem)
  have cycle := less_trans (ab da db aFound bFound) (ba db da bFound aFound)
  rw [less_self] at cycle
  exact absurd cycle Bool.false_ne_true

/-- The insertion sort by blue work and then by hash that `sort.Slice` amounts to, on distinct
    blocks with data, sorts by `Less`. -/
theorem sortedByLess_insertionSort (store : DomainHash → Option BlockGHOSTDAGData)
    {l : List DomainHash} (nodup : l.Nodup) :
    SortedByLess store (l.insertionSort fun a b =>
      ((store a).map BlockGHOSTDAGData.blueWork).getD 0 <
          ((store b).map BlockGHOSTDAGData.blueWork).getD 0 ∨
        ((store a).map BlockGHOSTDAGData.blueWork).getD 0 =
          ((store b).map BlockGHOSTDAGData.blueWork).getD 0 ∧ a.value ≤ b.value) := by
  let blueWork (hash : DomainHash) : Nat := ((store hash).map BlockGHOSTDAGData.blueWork).getD 0
  let r : DomainHash → DomainHash → Prop := fun a b =>
    blueWork a < blueWork b ∨ blueWork a = blueWork b ∧ a.value ≤ b.value
  have total : Std.Total r := ⟨fun a b => by simp only [r, Fin.le_def]; omega⟩
  have trans : IsTrans DomainHash r := ⟨fun a b c => by simp only [r, Fin.le_def]; omega⟩
  have perm := List.perm_insertionSort r l
  refine ((List.pairwise_insertionSort r l).and (perm.nodup_iff.mpr nodup)).imp ?_
  intro a b ⟨ordered, ne⟩ da db aFound bFound
  have distinct := DomainHash.value_val_ne ne
  simp only [r, blueWork, aFound, bFound, Option.map_some, Option.getD_some, Fin.le_def] at ordered
  rw [less_eq_true_iff]
  omega

end Order

namespace GhostdagManager
variable {gm : GhostdagManager}

theorem getGHOSTDAGData_of_found {blockHash : DomainHash} {data : BlockGHOSTDAGData}
    (found : gm.dataOf blockHash = some data) : gm.getGHOSTDAGData blockHash false = pure data := by
  unfold getGHOSTDAGData
  rw [show gm.ghostdagDataStore blockHash false = some data from found]

theorem getGHOSTDAGData_eq_pure {blockHash : DomainHash} {data : BlockGHOSTDAGData} :
    gm.getGHOSTDAGData blockHash false = pure data ↔ gm.dataOf blockHash = some data := by
  have stored : gm.ghostdagDataStore blockHash false = gm.dataOf blockHash := rfl
  unfold getGHOSTDAGData
  rw [stored]
  cases gm.dataOf blockHash with
  | none => exact iff_of_false (fun read => by cases read) (fun found => by cases found)
  | some stored => exact ⟨fun read => by cases read; rfl, fun found => by cases found; rfl⟩

theorem selectedParentOf_eq_pure {data : BlockGHOSTDAGData} {selectedParent : DomainHash} :
    selectedParentOf data = pure selectedParent ↔ data.selectedParent = some selectedParent := by
  unfold selectedParentOf
  cases data.selectedParent with
  | none => exact iff_of_false (fun read => by cases read) (fun found => by cases found)
  | some stored => exact ⟨fun read => by cases read; rfl, fun found => by cases found; rfl⟩

theorem less_eq {a b : DomainHash} {da db : BlockGHOSTDAGData} (ne : a ≠ b)
    (aFound : gm.dataOf a = some da) (bFound : gm.dataOf b = some db) :
    gm.less a b = pure (Less a da b db) := by
  simp only [less, chooseSelectedParent, getGHOSTDAGData_of_found aFound,
    getGHOSTDAGData_of_found bFound, pure_bind, List.foldlM_cons, List.foldlM_nil, less_self,
    Bool.false_eq_true, ↓reduceIte, bind_pure]
  cases Less a da b db
  · simp [beq_eq_false_iff_ne.mpr ne]
  · simp

theorem findSelectedParent_eq {parentHashes : List DomainHash} (nodup : parentHashes.Nodup)
    (found : ∀ p ∈ parentHashes, ∃ d, gm.dataOf p = some d) (nonempty : parentHashes ≠ []) :
    ∃ selectedParent, gm.findSelectedParent parentHashes = pure (some selectedParent) ∧
      SelectedAmong gm.dataOf selectedParent parentHashes := by
  -- the fold holds the highest of the parents seen so far
  let P : List DomainHash → Option DomainHash → Prop := fun seen chosen =>
    chosen.elim (seen = []) fun selectedParent => SelectedAmong gm.dataOf selectedParent seen
  have folded : ∃ chosen, gm.findSelectedParent parentHashes = pure chosen ∧
      P parentHashes chosen := by
    unfold findSelectedParent
    refine foldlM_eq_pure parentHashes P ?_ rfl
    intro seen p rest chosen split holds
    have fresh : p ∉ seen := by
      rw [split] at nodup
      exact (List.nodup_cons.mp (List.nodup_middle.mp nodup)).1 ∘ List.mem_append_left rest
    obtain ⟨pData, pFound⟩ := found p (by simp [split])
    cases chosen with
    | none =>
      refine ⟨some p, rfl, ?_⟩
      change seen = [] at holds
      subst holds
      exact ⟨List.mem_singleton_self p, fun q mem ne => absurd (List.mem_singleton.mp mem) ne⟩
    | some selectedParent =>
      obtain ⟨mem, above⟩ := holds
      obtain ⟨spData, spFound⟩ := found selectedParent (by simp [split, mem])
      have ne : selectedParent ≠ p := fun eq => fresh (eq ▸ mem)
      refine ⟨_, by simp only [less_eq ne spFound pFound, pure_bind]; rfl, ?_⟩
      cases lessThan : Less selectedParent spData p pData
      · show SelectedAmong gm.dataOf selectedParent (seen ++ [p])
        refine ⟨List.mem_append_left _ mem, ?_⟩
        intro q qMem qNe
        rcases List.mem_append.mp qMem with qMem | qEq
        · exact above q qMem qNe
        · rw [List.mem_singleton.mp qEq]
          exact ⟨pData, spData, pFound, spFound, less_of_not_less ne lessThan⟩
      · show SelectedAmong gm.dataOf p (seen ++ [p])
        refine ⟨List.mem_append_right _ (List.mem_singleton_self p), ?_⟩
        intro q qMem qNe
        rcases List.mem_append.mp qMem with qMem | qEq
        · by_cases isSelected : q = selectedParent
          · subst isSelected
            exact ⟨spData, pData, spFound, pFound, lessThan⟩
          · obtain ⟨qData, spData', qFound, spFound', qLess⟩ := above q qMem isSelected
            rw [spFound, Option.some.injEq] at spFound'
            subst spFound'
            exact ⟨qData, pData, qFound, pFound, less_trans qLess lessThan⟩
        · exact absurd (List.mem_singleton.mp qEq) qNe
  obtain ⟨chosen, folded, holds⟩ := folded
  cases chosen with
  | none => exact absurd holds nonempty
  | some selectedParent => exact ⟨selectedParent, folded, holds⟩

structure SearchContext (gm : GhostdagManager) (blocks : List DomainHash)
    (blockHash selectedParent : DomainHash) : Prop where
  closed : ∀ x ∈ blocks, ∀ p ∈ gm.parents x, p ∈ blocks
  parents_mem : ∀ p ∈ gm.parents blockHash, p ∈ blocks
  isAncestorOf_iff : ∀ a ∈ blocks, ∀ b ∈ blocks, a ≠ b →
    (gm.isAncestorOf a b = true ↔ PastOrSelf gm.parents a b)
  selectedParent_mem : selectedParent ∈ gm.parents blockHash
  antichain : Antichain gm.parents (gm.parents blockHash)
  parents_nodup : (gm.parents blockHash).Nodup
  nodup : blocks.Nodup

/-- What every turn of the search keeps: the slice holds distinct blocks of the past of the
    block outside the past of the selected parent, and the blocks recorded as in the past of
    the selected parent are. -/
structure SearchState (gm : GhostdagManager) (blockHash selectedParent : DomainHash)
    (s : MergeSetSearch) : Prop where
  nodup : s.mergeSetSlice.Nodup
  sound : ∀ x ∈ s.mergeSetSlice,
    Past gm.parents x blockHash ∧ ¬ PastOrSelf gm.parents x selectedParent
  selectedParentPast : ∀ x ∈ s.selectedParentPast, PastOrSelf gm.parents x selectedParent

/-- The invariant of the outer loop: the slice is the blocks taken from the queue, then the
    queue; every parent of a block taken is in the slice or in the past of the selected parent,
    and so is every parent of the block. -/
structure SearchInvariant (gm : GhostdagManager) (blockHash selectedParent : DomainHash)
    (processed : List DomainHash) (s : MergeSetSearch) : Prop
    extends SearchState gm blockHash selectedParent s where
  split : s.mergeSetSlice = processed ++ s.queue
  closed : ∀ x ∈ processed, ∀ p ∈ gm.parents x,
    p ∈ s.mergeSetSlice ∨ PastOrSelf gm.parents p selectedParent
  queued : ∀ p ∈ gm.parents blockHash, p ≠ selectedParent → p ∈ s.mergeSetSlice

variable {blocks : List DomainHash} {blockHash selectedParent : DomainHash}

theorem SearchContext.mem_of_past (ctx : SearchContext gm blocks blockHash selectedParent)
    {x : DomainHash} (past : Past gm.parents x blockHash) : x ∈ blocks := by
  obtain ⟨p, parent, path⟩ := past_iff_exists_parent.1 past
  exact mem_of_pastOrSelf (S := {x | x ∈ blocks}) ctx.closed (ctx.parents_mem p parent) path

theorem visitParent_spec (ctx : SearchContext gm blocks blockHash selectedParent)
    {s : MergeSetSearch} (state : SearchState gm blockHash selectedParent s) {parent : DomainHash}
    (past : Past gm.parents parent blockHash) (ne : parent ≠ selectedParent) :
    SearchState gm blockHash selectedParent (gm.visitParent (some selectedParent) s parent) ∧
      (∃ added, (gm.visitParent (some selectedParent) s parent).mergeSetSlice =
          s.mergeSetSlice ++ added ∧
        (gm.visitParent (some selectedParent) s parent).queue = s.queue ++ added) ∧
      (parent ∈ (gm.visitParent (some selectedParent) s parent).mergeSetSlice ∨
        PastOrSelf gm.parents parent selectedParent) := by
  have ancestor : gm.isAncestorOf parent selectedParent = true ↔
      PastOrSelf gm.parents parent selectedParent :=
    ctx.isAncestorOf_iff _ (ctx.mem_of_past past) _ (ctx.parents_mem _ ctx.selectedParent_mem) ne
  unfold visitParent
  split_ifs with inSlice inPast isAncestor
  · exact ⟨state, ⟨[], by simp, by simp⟩, Or.inl inSlice⟩
  · exact ⟨state, ⟨[], by simp, by simp⟩, Or.inr (state.selectedParentPast parent inPast)⟩
  · rw [Option.any_some, ancestor] at isAncestor
    refine ⟨⟨state.nodup, state.sound, ?_⟩, ⟨[], by simp, by simp⟩, Or.inr isAncestor⟩
    intro x mem
    rcases List.mem_cons.mp mem with rfl | mem
    · exact isAncestor
    · exact state.selectedParentPast x mem
  · rw [Option.any_some, ancestor] at isAncestor
    refine ⟨⟨?_, ?_, state.selectedParentPast⟩, ⟨[parent], rfl, rfl⟩, Or.inl (by simp)⟩
    · exact state.nodup.append (List.nodup_singleton parent) (by simpa using inSlice)
    · intro x mem
      rcases List.mem_append.mp mem with mem | mem
      · exact state.sound x mem
      · rw [List.mem_singleton.mp mem]
        exact ⟨past, isAncestor⟩

theorem scanParents_spec (ctx : SearchContext gm blocks blockHash selectedParent)
    {processed queue : List DomainHash} {current : DomainHash} {s : MergeSetSearch}
    (inv : SearchInvariant gm blockHash selectedParent processed s) (popped : s.queue = current :: queue) :
    SearchInvariant gm blockHash selectedParent (processed ++ [current])
      ((gm.parents current).foldl (gm.visitParent (some selectedParent)) { s with queue }) := by
  have currentPast : Past gm.parents current blockHash :=
    (inv.sound current (by simp [inv.split, popped])).1
  have notSelected : ∀ parent ∈ gm.parents current, parent ≠ selectedParent := by
    rintro _ parent rfl
    exact ctx.antichain.not_past_of_past ctx.selectedParent_mem currentPast (past_of_mem_parents parent)
  -- the parents seen so far are in the slice or in the past of the selected parent
  let P : List DomainHash → MergeSetSearch → Prop := fun seen t =>
    SearchState gm blockHash selectedParent t ∧
      (∃ added, t.mergeSetSlice = s.mergeSetSlice ++ added ∧ t.queue = queue ++ added) ∧
      ∀ q ∈ seen, q ∈ t.mergeSetSlice ∨ PastOrSelf gm.parents q selectedParent
  have scanned : P (gm.parents current)
      ((gm.parents current).foldl (gm.visitParent (some selectedParent)) { s with queue }) :=
    foldl_invariant (gm.parents current) P (by
    intro seen parent rest t split ⟨state, ⟨added, slice, queued⟩, seenDone⟩
    have parentPast : Past gm.parents parent blockHash :=
      (past_of_mem_parents (by simp [split])).trans currentPast
    obtain ⟨state', ⟨added', slice', queued'⟩, visited⟩ :=
      visitParent_spec ctx state parentPast (notSelected parent (by simp [split]))
    refine ⟨state', ⟨added ++ added', by simp [slice', slice], by simp [queued', queued]⟩, ?_⟩
    intro q mem
    rcases List.mem_append.mp mem with mem | mem
    · rcases seenDone q mem with inSlice | ancestor
      · exact Or.inl (by simp [slice', inSlice])
      · exact Or.inr ancestor
    · rw [List.mem_singleton.mp mem]
      exact visited) ⟨⟨inv.nodup, inv.sound, inv.selectedParentPast⟩, ⟨[], by simp, by simp⟩, by simp⟩
  obtain ⟨state, ⟨added, slice, queued⟩, parentsDone⟩ := scanned
  refine ⟨state, ?_, ?_, ?_⟩
  · rw [slice, queued, inv.split, popped]
    simp
  · intro x mem p parent
    rcases List.mem_append.mp mem with mem | mem
    · rcases inv.closed x mem p parent with inSlice | ancestor
      · exact Or.inl (by rw [slice]; exact List.mem_append_left _ inSlice)
      · exact Or.inr ancestor
    · rw [List.mem_singleton.mp mem] at parent
      exact parentsDone p parent
  · intro p parent ne
    rw [slice]
    exact List.mem_append_left _ (inv.queued p parent ne)

theorem SearchInvariant.complete {s : MergeSetSearch}
    (inv : SearchInvariant gm blockHash selectedParent s.mergeSetSlice s) {y : DomainHash}
    (past : Past gm.parents y blockHash) (outside : ¬ PastOrSelf gm.parents y selectedParent) :
    y ∈ s.mergeSetSlice := by
  obtain ⟨p, parent, path⟩ := past_iff_exists_parent.1 past
  clear past
  revert outside
  induction path using Relation.ReflTransGen.head_induction_on with
  | refl =>
    intro outside
    exact inv.queued p parent fun eq => outside (eq ▸ PastOrSelf.refl _)
  | @head a c step _ ih =>
    intro outside
    have cOutside : ¬ PastOrSelf gm.parents c selectedParent := fun ancestor =>
      outside (Relation.ReflTransGen.head step ancestor)
    rcases inv.closed c (ih cOutside) a step with inSlice | ancestor
    · exact inSlice
    · exact absurd ancestor outside

theorem SearchInvariant.length_le (ctx : SearchContext gm blocks blockHash selectedParent)
    {processed : List DomainHash} {s : MergeSetSearch}
    (inv : SearchInvariant gm blockHash selectedParent processed s) :
    processed.length ≤ blocks.length := by
  have nodup : processed.Nodup := by
    have := inv.nodup
    rw [inv.split] at this
    exact this.sublist (List.sublist_append_left _ _)
  refine (List.subperm_of_subset nodup fun x mem => ?_).length_le
  exact ctx.mem_of_past (inv.sound x (by simp [inv.split, mem])).1

theorem mergeSetSearchStep_nil {selectedParent : Option DomainHash} {s : MergeSetSearch}
    (empty : s.queue = []) : gm.mergeSetSearchStep selectedParent s = pure (.inr s.mergeSetSlice) := by
  unfold mergeSetSearchStep
  rw [empty]

theorem mergeSetSearchStep_cons {selectedParent : Option DomainHash} {s : MergeSetSearch}
    {current : DomainHash} {queue : List DomainHash} (popped : s.queue = current :: queue) :
    gm.mergeSetSearchStep selectedParent s =
      pure (.inl ((gm.parents current).foldl (gm.visitParent selectedParent) { s with queue })) := by
  unfold mergeSetSearchStep
  rw [popped]

theorem mergeSetSearch_spec (ctx : SearchContext gm blocks blockHash selectedParent) {fuel : Nat}
    (enough : blocks.length < fuel) :
    ∃ mergeSetSlice, loop (fun s => (gm.mergeSetSearchStep (some selectedParent) s).run) fuel
        (let queued := (gm.parents blockHash).filter fun parent => some selectedParent != some parent
         ⟨queued, [], queued⟩) = some (.ok mergeSetSlice) ∧
      mergeSetSlice.Nodup ∧ ∀ x, x ∈ mergeSetSlice ↔
        Past gm.parents x blockHash ∧ ¬ PastOrSelf gm.parents x selectedParent := by
  let P : Nat → MergeSetSearch → Prop := fun n s =>
    ∃ processed, SearchInvariant gm blockHash selectedParent processed s ∧
      blocks.length - processed.length < n
  refine loop_eq_ok_of_bound P _ (fun s ⟨_, _, below⟩ => Nat.not_lt_zero _ below) ?_ fuel _ ?_
  · intro n s ⟨processed, inv, below⟩
    cases popped : s.queue with
    | nil =>
      left
      refine ⟨s.mergeSetSlice, by rw [mergeSetSearchStep_nil popped]; rfl, inv.nodup, ?_⟩
      have done : SearchInvariant gm blockHash selectedParent s.mergeSetSlice s := by
        have split := inv.split
        rw [popped, List.append_nil] at split
        exact split ▸ inv
      intro x
      exact ⟨inv.sound x, fun ⟨past, outside⟩ => done.complete past outside⟩
    | cons current queue =>
      right
      have inv' := scanParents_spec ctx inv popped
      refine ⟨_, by rw [mergeSetSearchStep_cons popped]; rfl, processed ++ [current], inv', ?_⟩
      have bounded := inv'.length_le ctx
      simp only [List.length_append, List.length_singleton] at bounded ⊢
      omega
  · refine ⟨[], ⟨⟨?_, ?_, by simp⟩, by simp, by simp, ?_⟩, by simpa using enough⟩
    · exact ctx.parents_nodup.filter _
    · intro x mem
      obtain ⟨parent, ne⟩ := List.mem_filter.mp mem
      have ne : selectedParent ≠ x := by simpa using ne
      refine ⟨past_of_mem_parents parent, ?_⟩
      rw [pastOrSelf_iff]
      rintro (eq | past)
      · exact ne eq.symm
      · exact ctx.antichain x parent selectedParent ctx.selectedParent_mem past
    · intro p parent ne
      exact List.mem_filter.mpr ⟨parent, by simpa using fun eq => ne eq.symm⟩

theorem sortMergeSet_eq {mergeSetSlice : List DomainHash} (nodup : mergeSetSlice.Nodup)
    (found : ∀ x ∈ mergeSetSlice, ∃ d, gm.dataOf x = some d) :
    ∃ sorted, gm.sortMergeSet mergeSetSlice = pure sorted ∧ sorted.Perm mergeSetSlice ∧
      SortedByLess gm.dataOf sorted := by
  unfold sortMergeSet
  split_ifs with short
  · refine ⟨mergeSetSlice, rfl, List.Perm.refl _, ?_⟩
    match mergeSetSlice, short with
    | [], _ => exact List.Pairwise.nil
    | [x], _ => exact List.pairwise_singleton _ x
  · have noneMissing : mergeSetSlice.find? (fun hash => (gm.ghostdagDataStore hash false).isNone) =
        none := by
      rw [List.find?_eq_none]
      intro x mem
      obtain ⟨d, xFound⟩ := found x mem
      simp [show gm.ghostdagDataStore x false = some d from xFound]
    rw [noneMissing]
    exact ⟨_, rfl, List.perm_insertionSort _ mergeSetSlice,
      sortedByLess_insertionSort gm.dataOf nodup⟩

theorem mergeSetWithoutSelectedParent_eq (ctx : SearchContext gm blocks blockHash selectedParent)
    {fuel : Nat} (enough : blocks.length < fuel)
    (found : ∀ x ∈ blocks, ∃ d, gm.dataOf x = some d) :
    ∃ mergeSet, gm.mergeSetWithoutSelectedParent fuel (some selectedParent) (gm.parents blockHash) =
        pure mergeSet ∧ mergeSet.Nodup ∧
      (∀ x, x ∈ mergeSet ↔ Past gm.parents x blockHash ∧ ¬ PastOrSelf gm.parents x selectedParent) ∧
      SortedByLess gm.dataOf mergeSet := by
  obtain ⟨mergeSetSlice, searched, nodup, members⟩ := mergeSetSearch_spec ctx enough
  obtain ⟨sorted, sortedEq, perm, ordered⟩ := sortMergeSet_eq nodup fun x mem =>
    found x (ctx.mem_of_past ((members x).mp mem).1)
  refine ⟨sorted, ?_, perm.nodup_iff.mpr nodup, fun x => perm.mem_iff.trans (members x), ordered⟩
  unfold mergeSetWithoutSelectedParent
  dsimp only at searched ⊢
  rw [searched, show (ExceptT.mk (some (.ok mergeSetSlice)) : GhostdagM _) = pure mergeSetSlice
    from rfl, pure_bind, sortedEq]

end GhostdagManager

end Ghostdag
