import Mathlib
import Htnd.ReachabilityManager.ReindexIntervals

/-!
Moving the reindex root down to one of its children (reindex_context.go). concentrateInterval packs
the other children of the reindex root against the two ends of its interval, `reindexSlack` in from
each end, each with exactly the room of its subtree, and gives the chosen child all the room
between them. When the chosen child is the final reindex root and its interval does not fit in that
room, its subtree is propagated from the middle of the room first.

tightenIntervalsBefore and tightenIntervalsAfter differ only in where the siblings' range lies in the
reindex root's interval: they are one definition with that range as a parameter.

findCommonAncestor (tree.go) walks up from a block to the lowest tree ancestor of the reindex root.
-/
namespace ReachabilityManager
open GoSemantics Utxo

variable (store : ReachabilityDataStore) (fuel : Nat) (reindexSlack : UInt64)

/-- The loop of propagateChildrenIntervals from the `i`th child: each child is staged with its part
    and propagated. Go indexes the parts by the child's place, and panics past their end. -/
def propagateChildrenIntervalsLoop (childIntervals : List ReachabilityInterval) :
    Nat → ReindexContext × ReachabilityDataStore → List DomainHash → ReindexM (ReindexContext × ReachabilityDataStore)
  | _, s, [] => pure s
  | i, s, child :: children => do
    let some childInterval := childIntervals[i]?
      | throw (.panicked (.indexOutOfRange (i : Int) childIntervals.length))
    let s ← ExceptT.mk (propagateInterval (stageInterval s.2 child childInterval) fuel s.1 child)
    propagateChildrenIntervalsLoop childIntervals (i + 1) s children

def propagateChildrenIntervals (rc : ReindexContext) (interval : ReachabilityInterval) (children : List DomainHash)
    (sizes : List UInt64) : ReindexM (ReindexContext × ReachabilityDataStore) := do
  let childIntervals ← ExceptT.mk (some ((intervalSplitExact interval sizes).mapError .split))
  propagateChildrenIntervalsLoop fuel childIntervals 0 (rc, store) children

def tightenIntervals (tight : ReachabilityInterval → UInt64 → ReachabilityInterval) (rc : ReindexContext)
    (reindexRoot : DomainHash) (siblings : List DomainHash) :
    ReindexM (UInt64 × ReindexContext × ReachabilityDataStore) := do
  let counted ← ExceptT.lift (countChildrenSubtrees store fuel rc siblings)
  let rootInterval ← liftReachability (interval store reindexRoot)
  let propagated ← propagateChildrenIntervals store fuel counted.2.2 (tight rootInterval counted.2.1) siblings
    counted.1
  pure (counted.2.1, propagated)

def tightenIntervalsBefore (rc : ReindexContext) (reindexRoot : DomainHash) (siblingsBeforeChosen : List DomainHash) :
    ReindexM (UInt64 × ReindexContext × ReachabilityDataStore) :=
  tightenIntervals store fuel (fun rootInterval sizesSum =>
    ⟨rootInterval.start + reindexSlack, rootInterval.start + reindexSlack + sizesSum - 1⟩) rc reindexRoot
    siblingsBeforeChosen

def tightenIntervalsAfter (rc : ReindexContext) (reindexRoot : DomainHash) (siblingsAfterChosen : List DomainHash) :
    ReindexM (UInt64 × ReindexContext × ReachabilityDataStore) :=
  tightenIntervals store fuel (fun rootInterval sizesSum =>
    ⟨rootInterval.end - reindexSlack - sizesSum, rootInterval.end - reindexSlack - 1⟩) rc reindexRoot
    siblingsAfterChosen

def expandIntervalToChosen (rc : ReindexContext) (reindexRoot chosenChild : DomainHash)
    (sizesSumBefore sizesSumAfter : UInt64) (isFinalReindexRoot : Bool) :
    ReindexM (ReindexContext × ReachabilityDataStore) := do
  let rootInterval ← liftReachability (interval store reindexRoot)
  let newChosenInterval : ReachabilityInterval :=
    ⟨rootInterval.start + sizesSumBefore + reindexSlack, rootInterval.end - sizesSumAfter - reindexSlack - 1⟩
  let currentChosenInterval ← liftReachability (interval store chosenChild)
  let propagated ← if isFinalReindexRoot && !intervalContains newChosenInterval currentChosenInterval then
      -- slack on both sides, so that the next move of the reindex root likely propagates nothing
      ExceptT.mk (propagateInterval (stageInterval store chosenChild
        ⟨newChosenInterval.start + reindexSlack, newChosenInterval.end - reindexSlack⟩) fuel rc chosenChild)
    else pure (rc, store)
  pure (propagated.1, stageInterval propagated.2 chosenChild newChosenInterval)

def concentrateInterval (rc : ReindexContext) (reindexRoot chosenChild : DomainHash) (isFinalReindexRoot : Bool) :
    ReindexM (ReindexContext × ReachabilityDataStore) := do
  let split ← ExceptT.mk (some (splitChildren store reindexRoot chosenChild))
  let before ← tightenIntervalsBefore store fuel reindexSlack rc reindexRoot split.1
  let after ← tightenIntervalsAfter before.2.2 fuel reindexSlack before.2.1 reindexRoot split.2
  expandIntervalToChosen after.2.2 fuel reindexSlack after.2.1 reindexRoot chosenChild before.1 after.1
    isFinalReindexRoot

/-- A turn of findCommonAncestor. Past the tree root, whose parent is nil, Go reads the interval of a
    nil hash: it panics. -/
def findCommonAncestorStep (root current : DomainHash) : ReindexM (DomainHash ⊕ DomainHash) := do
  let isAncestorOf ← liftReachability (isReachabilityTreeAncestorOf store current root)
  if isAncestorOf then pure (.inr current)
  else
    let current ← liftReachability (parent store current)
    let some current := current | throw (.panicked .nilPointerDereference)
    pure (.inl current)

def findCommonAncestor (node root : DomainHash) : ReindexM DomainHash :=
  ExceptT.mk (loop (fun current => (findCommonAncestorStep store root current).run) fuel node)

variable {store fuel reindexSlack}

/-! ### Splitting the children at the chosen one -/

theorem splitAtPivot_eq {pivot : DomainHash} (before after : List DomainHash)
    (nodup : (before ++ pivot :: after).Nodup) : splitAtPivot pivot (before ++ pivot :: after) = some (before, after) := by
  induction before with
  | nil => simp [splitAtPivot]
  | cons b before ih =>
    have other : b ≠ pivot := fun same => (List.nodup_cons.1 nodup).1 (by simp [same])
    simp [splitAtPivot, other, ih (List.nodup_cons.1 nodup).2]

theorem splitChildren_eq {node pivot : DomainHash} (stored : node ∈ store) {before after : List DomainHash}
    (split : childrenOf store node = before ++ pivot :: after) (nodup : (childrenOf store node).Nodup) :
    splitChildren store node pivot = .ok (before, after) := by
  rw [split] at nodup
  rw [splitChildren, children_eq_childrenOf stored, split]
  simp only [Except.mapError, bind, Except.bind, splitAtPivot_eq before after nodup, pure, Except.pure]

/-! ### The parts of the siblings and of the chosen child -/

variable (store) in
noncomputable def subtreeSizes (cs : List DomainHash) : List UInt64 := cs.map fun c => UInt64.ofNat (subtreeSize store c)

variable (store) in
noncomputable def subtreeSizesSum (cs : List DomainHash) : UInt64 := UInt64.ofNat (cs.map (subtreeSize store)).sum

theorem TreeLinks.subtreeSize_of_split {root x c : DomainHash} (tree : TreeLinks store root) (stored : x ∈ store)
    {before after : List DomainHash} (split : childrenOf store x = before ++ c :: after) :
    subtreeSize store x = 1 + (before.map (subtreeSize store)).sum + subtreeSize store c +
      (after.map (subtreeSize store)).sum := by
  rw [tree.subtreeSize_eq stored, split]
  simp only [List.map_append, List.map_cons, List.sum_append, List.sum_cons]
  omega

theorem toNat_add_of_lt {a b : UInt64} (small : a.toNat + b.toNat < 2 ^ 64) : (a + b).toNat = a.toNat + b.toNat := by
  rw [UInt64.toNat_add, Nat.mod_eq_of_lt small]

theorem sizesSum_subtreeSizes (cs : List DomainHash) : sizesSum (subtreeSizes store cs) = subtreeSizesSum store cs := by
  induction cs with
  | nil => rfl
  | cons c cs ih =>
    simp only [subtreeSizes, subtreeSizesSum, List.map_cons, List.sum_cons] at ih ⊢
    rw [sizesSum_cons, ih, UInt64.ofNat_add]

theorem intervalSplitExact_from (a : UInt64) (sizes : List UInt64) :
    intervalSplitExact ⟨a, a + sizesSum sizes - 1⟩ sizes = .ok (splitFrom a sizes) := by
  have size : intervalSize ⟨a, a + sizesSum sizes - 1⟩ = sizesSum sizes := by
    simp only [intervalSize]
    abel
  simp [intervalSplitExact, size]

theorem splitFrom_fits {cs : List DomainHash} (stored : ∀ c ∈ cs, c ∈ store)
    (small : ∀ c ∈ cs, subtreeSize store c < 2 ^ 64) {a : UInt64}
    (fits : a.toNat + (cs.map (subtreeSize store)).sum ≤ 2 ^ 64) :
    List.Forall₂ (fun c part => part.start ≤ part.end ∧
      subtreeSize store c ≤ part.end.toNat - part.start.toNat + 1) cs (splitFrom a (subtreeSizes store cs)) := by
  have sized := splitFrom_sized a (subtreeSizes store cs)
  have nonempty := splitFrom_nonempty a (subtreeSizes store cs)
    (by rw [subtreeSizes, natSum_map_ofNat small]; exact fits)
  unfold subtreeSizes at sized nonempty ⊢
  rw [List.forall₂_map_left_iff] at sized nonempty
  refine (forall₂_mem_left sized).mp (fun c part sizedPart ordered => ?_) nonempty
  obtain ⟨mem, isSize⟩ := sizedPart
  have sizeNat : (UInt64.ofNat (subtreeSize store c)).toNat = subtreeSize store c :=
    UInt64.toNat_ofNat_of_lt' (by unfold UInt64.size; exact small c mem)
  have positive : 1 ≤ UInt64.ofNat (subtreeSize store c) :=
    UInt64.le_iff_toNat_le.2 (by rw [sizeNat]; exact subtreeSize_pos (stored c mem))
  have le : UInt64.ofNat (subtreeSize store c) ≤ intervalSize part := by
    rw [isSize]
    exact UInt64.le_refl _
  have holds := toNat_le_of_le_intervalSize (ordered positive) le
  rw [sizeNat] at holds
  exact ⟨ordered positive, holds⟩

theorem concentrated_isChain (start stop slack : UInt64) (before after : List UInt64) :
    (splitFrom (start + slack) before ++
        (⟨start + sizesSum before + slack, stop - sizesSum after - slack - 1⟩ : ReachabilityInterval) ::
          splitFrom (stop - slack - sizesSum after) after).IsChain fun part next => next.start = part.end + 1 := by
  refine List.IsChain.append (splitFrom_consecutive _ before) ?_ fun last isLast first isFirst => ?_
  · cases after with
    | nil => exact List.isChain_singleton _
    | cons size after =>
      refine List.isChain_cons_cons.2 ⟨?_, splitFrom_consecutive (stop - slack - sizesSum (size :: after)) (size :: after)⟩
      show stop - slack - sizesSum (size :: after) = stop - sizesSum (size :: after) - slack - 1 + 1
      abel
  · cases before with
    | nil => simp [splitFrom] at isLast
    | cons size before =>
      have lastEnd := splitFrom_last_end (start + slack) (List.cons_ne_nil size before)
      rw [isLast, Option.map_some, Option.some.injEq] at lastEnd
      rw [List.head?_cons, Option.mem_def, Option.some.injEq] at isFirst
      rw [← isFirst, lastEnd]
      show start + sizesSum (size :: before) + slack = start + slack + sizesSum (size :: before) - 1 + 1
      abel

theorem toNat_sub_of_toNat_le {a b : UInt64} (le : b.toNat ≤ a.toNat) : (a - b).toNat = a.toNat - b.toNat :=
  UInt64.toNat_sub_of_le _ _ (UInt64.le_iff_toNat_le.2 le)

theorem toNat_chosen (start stop slack before after : UInt64)
    (room : start.toNat + before.toNat + after.toNat + 2 * slack.toNat < stop.toNat) :
    (start + before + slack).toNat = start.toNat + before.toNat + slack.toNat ∧
      (stop - after - slack - 1).toNat = stop.toNat - after.toNat - slack.toNat - 1 := by
  have stopLt := UInt64.toNat_lt stop
  have lessAfter : (stop - after).toNat = stop.toNat - after.toNat := toNat_sub_of_toNat_le (by omega)
  have lessSlack : (stop - after - slack).toNat = stop.toNat - after.toNat - slack.toNat := by
    rw [toNat_sub_of_toNat_le (by rw [lessAfter]; omega), lessAfter]
  constructor
  · rw [toNat_add_of_lt (by rw [toNat_add_of_lt (by omega)]; omega), toNat_add_of_lt (by omega)]
  · rw [toNat_sub_of_toNat_le (by rw [lessSlack, UInt64.toNat_one]; omega), lessSlack, UInt64.toNat_one]

theorem concentrated_inside {start stop slack : UInt64} {before after : List UInt64}
    (positive : ∀ size ∈ before ++ after, 1 ≤ size)
    (room : start.toNat + natSum before + natSum after + 2 * slack.toNat < stop.toNat) :
    ∀ part ∈ splitFrom (start + slack) before ++
        (⟨start + sizesSum before + slack, stop - sizesSum after - slack - 1⟩ : ReachabilityInterval) ::
          splitFrom (stop - slack - sizesSum after) after,
      start ≤ part.start ∧ part.end < stop := by
  have stopLt := UInt64.toNat_lt stop
  have sumBefore : (sizesSum before).toNat = natSum before := by
    rw [toNat_sizesSum, Nat.mod_eq_of_lt (by omega)]
  have sumAfter : (sizesSum after).toNat = natSum after := by
    rw [toNat_sizesSum, Nat.mod_eq_of_lt (by omega)]
  have beforeStart : (start + slack).toNat = start.toNat + slack.toNat := toNat_add_of_lt (by omega)
  have afterStart : (stop - slack - sizesSum after).toNat = stop.toNat - slack.toNat - natSum after := by
    rw [toNat_sub_of_toNat_le (by rw [toNat_sub_of_toNat_le (by omega), sumAfter]; omega),
      toNat_sub_of_toNat_le (by omega), sumAfter]
  intro part mem
  rw [UInt64.le_iff_toNat_le, UInt64.lt_iff_toNat_lt]
  rcases List.mem_append.1 mem with early | late
  · have inside := splitFrom_inside (start + slack) (fun size mem => positive size (List.mem_append_left _ mem))
      (by omega) part early
    omega
  rcases List.mem_cons.1 late with rfl | late
  · obtain ⟨first, last⟩ := toNat_chosen start stop slack (sizesSum before) (sizesSum after)
      (by rw [sumBefore, sumAfter]; exact room)
    show start.toNat ≤ (start + sizesSum before + slack).toNat ∧ (stop - sizesSum after - slack - 1).toNat < stop.toNat
    omega
  · have inside := splitFrom_inside (stop - slack - sizesSum after)
      (fun size mem => positive size (List.mem_append_right _ mem)) (by omega) part late
    omega

/-! ### Propagating the subtrees of siblings -/

variable (store) in
structure SubtreesPropagated (staged : ReachabilityDataStore) (children : List DomainHash)
    (parts : List ReachabilityInterval) : Prop where
  links : links staged = links store
  frame : ∀ y, (∀ c ∈ children, ¬ Relation.ReflTransGen (TreeParent store) c y) → staged.lookup y = store.lookup y
  assigned : List.Forall₂ (fun c part => ∃ data, staged.lookup c = some data ∧ data.interval = part) children parts
  valid : ∀ c ∈ children, ∀ y, Relation.ReflTransGen (TreeParent store) c y → validateIntervalsAt staged y = .ok ()

theorem subtreesPropagated_nil : SubtreesPropagated store store [] [] :=
  ⟨rfl, fun _ _ => rfl, List.Forall₂.nil, fun _ none => absurd none List.not_mem_nil⟩

theorem validateIntervalsAt_of_kept {store' : ReachabilityDataStore} {x : DomainHash}
    (sameX : store'.lookup x = store.lookup x)
    (sameChildren : ∀ c ∈ childrenOf store x, store'.lookup c = store.lookup c)
    (valid : validateIntervalsAt store x = .ok ()) : validateIntervalsAt store' x = .ok () := by
  rw [validateIntervalsAt_congr sameX fun c child => interval_congr (sameChildren c child)]
  exact valid

theorem TreeLinks.validateIntervalsAt_of_subtree_kept {root : DomainHash} (tree : TreeLinks store root)
    {old new : ReachabilityDataStore} (same : links old = links store) {c y : DomainHash}
    (kept : ∀ z, Relation.ReflTransGen (TreeParent store) c z → new.lookup z = old.lookup z)
    (below : Relation.ReflTransGen (TreeParent store) c y) (valid : validateIntervalsAt old y = .ok ()) :
    validateIntervalsAt new y = .ok () := by
  refine validateIntervalsAt_of_kept (kept y below) (fun z child => kept z (below.tail ((tree.linked y z).2 ?_))) valid
  rwa [childrenOf_of_links same] at child

theorem validateChildIntervals_widen {cur wide : ReachabilityInterval} (left : wide.start ≤ cur.start)
    (right : cur.end ≤ wide.end) {cs : List DomainHash} :
    ∀ {sibling : Option ReachabilityInterval}, validateChildIntervals store cur sibling cs = .ok () →
      validateChildIntervals store wide sibling cs = .ok () := by
  induction cs with
  | nil => intro _ _; rfl
  | cons child rest ih =>
    intro sibling valid
    obtain ⟨childData, found, adjacent, childLeft, childRight, restValid⟩ := validateChildIntervals_cons valid
    have notApart : ¬ (sibling.any fun s => s.end + 1 ≠ childData.interval.start) = true := by
      cases sibling with
      | none => simp
      | some s => simp [adjacent s rfl]
    have wideLeft : wide.start ≤ childData.interval.start := by
      rw [UInt64.le_iff_toNat_le] at left childLeft ⊢
      omega
    have wideRight : childData.interval.end < wide.end := by
      rw [UInt64.le_iff_toNat_le] at right
      rw [UInt64.lt_iff_toNat_lt] at childRight ⊢
      omega
    simp only [validateChildIntervals, interval, reachabilityData, found, bind, Except.bind, pure, Except.pure,
      notApart, UInt64.not_lt.2 wideLeft, UInt64.not_le.2 wideRight, Bool.false_eq_true, ↓reduceIte, ih restValid]

theorem validateIntervalsAt_widen {x : DomainHash} {data : ReachabilityData} (found : store.lookup x = some data)
    (valid : validateIntervalsAt store x = .ok ()) (notChild : x ∉ childrenOf store x) {wide : ReachabilityInterval}
    (left : wide.start ≤ data.interval.start) (right : data.interval.end ≤ wide.end) :
    validateIntervalsAt (stageInterval store x wide) x = .ok () := by
  obtain ⟨data', found', ordered, childrenValid⟩ := validateIntervalsAt_ok valid
  rw [found, Option.some.injEq] at found'
  subst found'
  have wideOrdered : wide.start ≤ wide.end := by
    rw [UInt64.le_iff_toNat_le] at left right ordered ⊢
    omega
  refine validateIntervalsAt_eq_ok (lookup_stageInterval_self found wide) wideOrdered ?_
  rw [childrenOf_eq found] at notChild
  have kept : ∀ c ∈ data.children, interval (stageInterval store x wide) c = interval store c :=
    fun c child => interval_congr (lookup_stageInterval_of_ne (fun same => by subst same; exact notChild child) wide)
  rw [validateChildIntervals_congr kept none]
  exact validateChildIntervals_widen left right childrenValid

section Siblings

variable {root : DomainHash} (tree : TreeLinks store root) {p : DomainHash} {rc : ReindexContext}
include tree

theorem SubtreesPropagated.snoc {staged : ReachabilityDataStore} {done : List DomainHash}
    {parts : List ReachabilityInterval} (inv : SubtreesPropagated store staged done parts)
    (siblings : ∀ d ∈ done, TreeParent store p d) {c : DomainHash} (step : TreeParent store p c) (fresh : c ∉ done)
    {part : ReachabilityInterval} (ordered : part.start ≤ part.end)
    (roomy : subtreeSize store c ≤ part.end.toNat - part.start.toNat + 1)
    (counted : ∀ y, Relation.ReflTransGen (TreeParent store) c y →
      rc.subTreeSizesCache y = some (UInt64.ofNat (subtreeSize store y)))
    (enough : subtreeSize store c < fuel) :
    ∃ staged', propagateInterval (stageInterval staged c part) fuel rc c = some (.ok (rc, staged')) ∧
      SubtreesPropagated store staged' (done ++ [c]) (parts ++ [part]) := by
  have cStored : c ∈ staged := (mem_of_links inv.links).2 step.stored
  have sameLinks := (links_stageInterval cStored part).trans inv.links
  have sameParent := treeParent_of_links sameLinks
  have sameSize := subtreeSize_of_links sameLinks
  obtain ⟨data, found⟩ := lookup_of_mem cStored
  have cLookup := lookup_stageInterval_self found part
  obtain ⟨staged', ran, propagated⟩ := propagateInterval_eq_ok (tree.of_links sameLinks)
    ((mem_of_links sameLinks).2 step.stored)
    (by rw [startOf_eq cLookup, endOf_eq cLookup]; exact UInt64.le_iff_toNat_le.1 ordered)
    (by rw [sameSize, startOf_eq cLookup, endOf_eq cLookup]; exact roomy)
    (by rw [sameParent, sameSize]; exact counted) (by rw [sameSize]; exact enough)
  have outside : ∀ y, ¬ Relation.ReflTransGen (TreeParent store) c y → staged'.lookup y = staged.lookup y :=
    fun y notBelow => by
      rw [propagated.frame y (by rw [sameParent]; exact fun path => notBelow path.to_reflTransGen),
        lookup_stageInterval_of_ne fun same => by subst same; exact notBelow Relation.ReflTransGen.refl]
  have apart : ∀ d ∈ done, ∀ y, Relation.ReflTransGen (TreeParent store) d y →
      ¬ Relation.ReflTransGen (TreeParent store) c y := fun d mem y below below' =>
    tree.forest.not_below_siblings (siblings d mem) step (fun same => fresh (same ▸ mem)) below below'
  refine ⟨staged', ran, ⟨propagated.links.trans sameLinks, fun y notBelow => ?_, ?_, fun c' mem y below => ?_⟩⟩
  · rw [outside y (notBelow c (by simp)), inv.frame y fun d mem => notBelow d (by simp [mem])]
  · have kept : List.Forall₂ (fun d part => ∃ data, staged'.lookup d = some data ∧ data.interval = part) done
        parts := (forall₂_mem_left inv.assigned).imp fun d part assigned => by
      rw [outside d (apart d assigned.1 d Relation.ReflTransGen.refl)]
      exact assigned.2
    have cAssigned : staged'.lookup c = some { data with interval := part } := by
      rw [propagated.frame c (by rw [sameParent]; exact tree.acyclic c), cLookup]
    exact List.rel_append kept (List.Forall₂.cons ⟨_, cAssigned, rfl⟩ List.Forall₂.nil)
  · rcases List.mem_append.1 mem with old | new
    · exact tree.validateIntervalsAt_of_subtree_kept inv.links (fun z below' => outside z (apart c' old z below'))
        below (inv.valid c' old y below)
    · rw [List.mem_singleton.1 new, ← sameParent] at below
      exact propagated.valid y below fun _ none => absurd none List.not_mem_nil

variable {children : List DomainHash} (siblings : ∀ c ∈ children, TreeParent store p c) (nodup : children.Nodup)
  (counted : ∀ c ∈ children, ∀ y, Relation.ReflTransGen (TreeParent store) c y →
    rc.subTreeSizesCache y = some (UInt64.ofNat (subtreeSize store y)))
  (enough : ∀ c ∈ children, subtreeSize store c < fuel)
include siblings nodup counted enough

theorem propagateChildrenIntervalsLoop_eq {childIntervals : List ReachabilityInterval} :
    ∀ {rest : List DomainHash} {restParts : List ReachabilityInterval},
      List.Forall₂ (fun c part => part.start ≤ part.end ∧
        subtreeSize store c ≤ part.end.toNat - part.start.toNat + 1) rest restParts →
      ∀ (done : List DomainHash) (doneParts : List ReachabilityInterval) (staged : ReachabilityDataStore),
        children = done ++ rest → childIntervals = doneParts ++ restParts →
        SubtreesPropagated store staged done doneParts →
        ∃ staged', propagateChildrenIntervalsLoop fuel childIntervals doneParts.length (rc, staged) rest =
          pure (rc, staged') ∧ SubtreesPropagated store staged' children childIntervals := by
  intro rest restParts fits
  induction fits with
  | nil =>
    intro done doneParts staged isChildren isParts inv
    rw [List.append_nil] at isChildren isParts
    subst isChildren isParts
    exact ⟨staged, rfl, inv⟩
  | @cons c part rest restParts fit _ ih =>
    intro done doneParts staged isChildren isParts inv
    have mem : c ∈ children := by simp [isChildren]
    have fresh : c ∉ done := by
      rw [isChildren] at nodup
      exact fun old => List.disjoint_of_nodup_append nodup old List.mem_cons_self
    obtain ⟨staged₁, ran, inv₁⟩ := inv.snoc tree (fun d old => siblings d (by simp [isChildren, old]))
      (siblings c mem) fresh fit.1 fit.2 (counted c mem) (enough c mem)
    have index : childIntervals[doneParts.length]? = some part := by simp [isParts]
    obtain ⟨staged', looped, inv'⟩ := ih (done ++ [c]) (doneParts ++ [part]) staged₁ (by simp [isChildren])
      (by simp [isParts]) inv₁
    refine ⟨staged', ?_, inv'⟩
    rw [List.length_append, List.length_singleton] at looped
    simp only [propagateChildrenIntervalsLoop, index, ran]
    exact looped

theorem propagateChildrenIntervals_eq {interval : ReachabilityInterval} {sizes : List UInt64}
    {parts : List ReachabilityInterval} (split : intervalSplitExact interval sizes = .ok parts)
    (fits : List.Forall₂ (fun c part => part.start ≤ part.end ∧
      subtreeSize store c ≤ part.end.toNat - part.start.toNat + 1) children parts) :
    ∃ staged, propagateChildrenIntervals store fuel rc interval children sizes = pure (rc, staged) ∧
      SubtreesPropagated store staged children parts := by
  obtain ⟨staged, looped, inv⟩ := propagateChildrenIntervalsLoop_eq tree siblings nodup counted enough fits [] []
    store rfl rfl subtreesPropagated_nil
  exact ⟨staged, by simpa [propagateChildrenIntervals, split, Except.mapError] using looped, inv⟩

end Siblings

theorem tightenIntervals_eq {root : DomainHash} (tree : TreeLinks store root) (few : subtreeSize store root ≤ 2 ^ 64)
    {p : DomainHash} {children : List DomainHash} (siblings : ∀ c ∈ children, TreeParent store p c)
    (nodup : children.Nodup) (enough : ∀ c ∈ children, subtreeSize store c < fuel) {rc : ReindexContext}
    (right : CacheRight store rc.subTreeSizesCache) (closed : CacheClosed store rc.subTreeSizesCache)
    {tight : ReachabilityInterval → UInt64 → ReachabilityInterval} {reindexRoot : DomainHash}
    {ri : ReachabilityInterval} (found : interval store reindexRoot = .ok ri) {parts : List ReachabilityInterval}
    (split : intervalSplitExact (tight ri (subtreeSizesSum store children)) (subtreeSizes store children) = .ok parts)
    (fits : List.Forall₂ (fun c part => part.start ≤ part.end ∧
      subtreeSize store c ≤ part.end.toNat - part.start.toNat + 1) children parts) :
    ∃ rc' staged, tightenIntervals store fuel tight rc reindexRoot children =
        pure (subtreeSizesSum store children, rc', staged) ∧
      CacheRight store rc'.subTreeSizesCache ∧ CacheClosed store rc'.subTreeSizesCache ∧
      SubtreesPropagated store staged children parts := by
  obtain ⟨rc', counting, right', grows, cached⟩ := countChildrenSubtreesFrom_eq tree few children [] 0 rc right closed
    fun c mem => ⟨(siblings c mem).stored, enough c mem⟩
  have counted : ∀ c ∈ children, ∀ y, Relation.ReflTransGen (TreeParent store) c y →
      rc'.subTreeSizesCache y = some (UInt64.ofNat (subtreeSize store y)) := fun c mem y below =>
    right'.counted_below grows.closed (fun p c => (tree.linked p c).1) (cached c mem) below
  obtain ⟨staged, propagated, inv⟩ := propagateChildrenIntervals_eq tree siblings nodup counted enough split fits
  refine ⟨rc', staged, ?_, right', grows.closed, inv⟩
  simp only [List.nil_append, zero_add] at counting
  simp only [subtreeSizes, subtreeSizesSum] at propagated
  simp [tightenIntervals, countChildrenSubtrees, counting, ExceptT.lift, liftReachability, found, Except.mapError,
    subtreeSizesSum, propagated]

theorem small_of_sum_lt {cs : List DomainHash} (fits : (cs.map (subtreeSize store)).sum < 2 ^ 64) :
    ∀ c ∈ cs, subtreeSize store c < 2 ^ 64 := fun c mem => by
  have := List.le_sum_of_mem (List.mem_map_of_mem (f := subtreeSize store) mem)
  omega

theorem interval_of_lookup {x : DomainHash} {data : ReachabilityData} (found : store.lookup x = some data) :
    interval store x = .ok data.interval := by
  simp [interval, reachabilityData, found, bind, Except.bind, pure, Except.pure]

variable (store) in
structure Concentrated (staged : ReachabilityDataStore) (reindexRoot chosenChild : DomainHash)
    (ri : ReachabilityInterval) (reindexSlack : UInt64) (before after : List DomainHash) : Prop where
  links : links staged = links store
  frame : ∀ y, ¬ Relation.TransGen (TreeParent store) reindexRoot y → staged.lookup y = store.lookup y
  before_parts : List.Forall₂ (fun c part => ∃ data, staged.lookup c = some data ∧ data.interval = part) before
    (splitFrom (ri.start + reindexSlack) (subtreeSizes store before))
  chosen : ∃ data, staged.lookup chosenChild = some data ∧ data.interval =
    ⟨ri.start + subtreeSizesSum store before + reindexSlack, ri.end - subtreeSizesSum store after - reindexSlack - 1⟩
  after_parts : List.Forall₂ (fun c part => ∃ data, staged.lookup c = some data ∧ data.interval = part) after
    (splitFrom (ri.end - reindexSlack - subtreeSizesSum store after) (subtreeSizes store after))
  siblings_valid : ∀ c ∈ before ++ after, ∀ y, Relation.ReflTransGen (TreeParent store) c y →
    validateIntervalsAt staged y = .ok ()
  below_chosen_valid : ∀ y, Relation.TransGen (TreeParent store) chosenChild y → validateIntervalsAt staged y = .ok ()

theorem subtreeSizes_of_links {store' : ReachabilityDataStore} (same : links store' = links store) :
    subtreeSizes store' = subtreeSizes store := by
  unfold subtreeSizes
  rw [subtreeSize_of_links same]

theorem subtreeSizesSum_of_links {store' : ReachabilityDataStore} (same : links store' = links store) :
    subtreeSizesSum store' = subtreeSizesSum store := by
  unfold subtreeSizesSum
  rw [subtreeSize_of_links same]

theorem lookup_of_interval {x : DomainHash} {ri : ReachabilityInterval} (found : interval store x = .ok ri) :
    ∃ data, store.lookup x = some data ∧ data.interval = ri := by
  obtain ⟨data, lookup⟩ := lookup_of_mem (mem_of_interval found)
  rw [interval_of_lookup lookup, Except.ok.injEq] at found
  exact ⟨data, lookup, found⟩

section Concentrate

variable {root : DomainHash} (tree : TreeLinks store root) (few : subtreeSize store root ≤ 2 ^ 64)
  {reindexRoot : DomainHash} {rc : ReindexContext} (right : CacheRight store rc.subTreeSizesCache)
  (closed : CacheClosed store rc.subTreeSizesCache) {ri : ReachabilityInterval}
  (found : interval store reindexRoot = .ok ri)
include tree few right closed found

theorem tightenIntervalsBefore_eq {before : List DomainHash} (siblings : ∀ c ∈ before, TreeParent store reindexRoot c)
    (nodup : before.Nodup) (enough : ∀ c ∈ before, subtreeSize store c < fuel)
    (fits : ri.start.toNat + reindexSlack.toNat + (before.map (subtreeSize store)).sum < 2 ^ 64) :
    ∃ rc' staged, tightenIntervalsBefore store fuel reindexSlack rc reindexRoot before =
        pure (subtreeSizesSum store before, rc', staged) ∧
      CacheRight store rc'.subTreeSizesCache ∧ CacheClosed store rc'.subTreeSizesCache ∧
      SubtreesPropagated store staged before (splitFrom (ri.start + reindexSlack) (subtreeSizes store before)) := by
  have split : intervalSplitExact ⟨ri.start + reindexSlack, ri.start + reindexSlack + subtreeSizesSum store before - 1⟩
      (subtreeSizes store before) = .ok (splitFrom (ri.start + reindexSlack) (subtreeSizes store before)) := by
    rw [← sizesSum_subtreeSizes]
    exact intervalSplitExact_from _ _
  have start : (ri.start + reindexSlack).toNat = ri.start.toNat + reindexSlack.toNat := toNat_add_of_lt (by omega)
  exact tightenIntervals_eq tree few siblings nodup enough right closed found split
    (splitFrom_fits (fun c mem => (siblings c mem).stored) (small_of_sum_lt (by omega)) (by omega))

theorem tightenIntervalsAfter_eq {after : List DomainHash} (siblings : ∀ c ∈ after, TreeParent store reindexRoot c)
    (nodup : after.Nodup) (enough : ∀ c ∈ after, subtreeSize store c < fuel)
    (fits : reindexSlack.toNat + (after.map (subtreeSize store)).sum ≤ ri.end.toNat) :
    ∃ rc' staged, tightenIntervalsAfter store fuel reindexSlack rc reindexRoot after =
        pure (subtreeSizesSum store after, rc', staged) ∧
      CacheRight store rc'.subTreeSizesCache ∧ CacheClosed store rc'.subTreeSizesCache ∧
      SubtreesPropagated store staged after
        (splitFrom (ri.end - reindexSlack - subtreeSizesSum store after) (subtreeSizes store after)) := by
  have endLt := UInt64.toNat_lt ri.end
  have sum : (subtreeSizesSum store after).toNat = (after.map (subtreeSize store)).sum :=
    UInt64.toNat_ofNat_of_lt' (by unfold UInt64.size; omega)
  have split : intervalSplitExact ⟨ri.end - reindexSlack - subtreeSizesSum store after, ri.end - reindexSlack - 1⟩
      (subtreeSizes store after) =
        .ok (splitFrom (ri.end - reindexSlack - subtreeSizesSum store after) (subtreeSizes store after)) := by
    have ends : ri.end - reindexSlack - 1 =
        ri.end - reindexSlack - subtreeSizesSum store after + sizesSum (subtreeSizes store after) - 1 := by
      rw [sizesSum_subtreeSizes]
      abel
    rw [ends]
    exact intervalSplitExact_from _ _
  have start : (ri.end - reindexSlack - subtreeSizesSum store after).toNat =
      ri.end.toNat - reindexSlack.toNat - (after.map (subtreeSize store)).sum := by
    rw [toNat_sub_of_toNat_le (by rw [toNat_sub_of_toNat_le (by omega), sum]; omega),
      toNat_sub_of_toNat_le (by omega), sum]
  exact tightenIntervals_eq tree few siblings nodup enough right closed found split
    (splitFrom_fits (fun c mem => (siblings c mem).stored) (small_of_sum_lt (by omega)) (by omega))

theorem expandIntervalToChosen_eq {chosenChild : DomainHash} (step : TreeParent store reindexRoot chosenChild)
    {sumBefore sumAfter : UInt64}
    (room : (ri.start + sumBefore + reindexSlack).toNat + 2 * reindexSlack.toNat + subtreeSize store chosenChild ≤
      (ri.end - sumAfter - reindexSlack - 1).toNat + 1)
    (enough : subtreeSize store chosenChild < fuel)
    (belowValid : ∀ y, Relation.ReflTransGen (TreeParent store) chosenChild y → validateIntervalsAt store y = .ok ())
    (isFinalReindexRoot : Bool) :
    ∃ rc' staged, expandIntervalToChosen store fuel reindexSlack rc reindexRoot chosenChild sumBefore sumAfter
        isFinalReindexRoot = pure (rc', staged) ∧
      links staged = links store ∧ CacheRight store rc'.subTreeSizesCache ∧ CacheClosed store rc'.subTreeSizesCache ∧
      (∀ y, ¬ Relation.ReflTransGen (TreeParent store) chosenChild y → staged.lookup y = store.lookup y) ∧
      interval staged chosenChild = .ok ⟨ri.start + sumBefore + reindexSlack, ri.end - sumAfter - reindexSlack - 1⟩ ∧
      (∀ y, Relation.TransGen (TreeParent store) chosenChild y → validateIntervalsAt staged y = .ok ()) ∧
      (isFinalReindexRoot = true → validateIntervalsAt staged chosenChild = .ok ()) := by
  have cStored := step.stored
  obtain ⟨data, cFound⟩ := lookup_of_mem cStored
  have notChild := tree.not_mem_childrenOf_self chosenChild
  have other : ∀ y, Relation.TransGen (TreeParent store) chosenChild y → y ≠ chosenChild :=
    fun y path same => tree.acyclic chosenChild (same ▸ path)
  have childOther : ∀ y, Relation.TransGen (TreeParent store) chosenChild y → ∀ z ∈ childrenOf store y,
      Relation.TransGen (TreeParent store) chosenChild z := fun y path z child =>
    path.tail ((tree.linked y z).2 child)
  by_cases propagates : (isFinalReindexRoot && !intervalContains ⟨ri.start + sumBefore + reindexSlack,
      ri.end - sumAfter - reindexSlack - 1⟩ data.interval) = true
  · have final : isFinalReindexRoot = true := by
      simp only [Bool.and_eq_true] at propagates
      exact propagates.1
    have endLt := UInt64.toNat_lt (ri.end - sumAfter - reindexSlack - 1)
    have sizePos := subtreeSize_pos cStored
    have innerStart : (ri.start + sumBefore + reindexSlack + reindexSlack).toNat =
        (ri.start + sumBefore + reindexSlack).toNat + reindexSlack.toNat := toNat_add_of_lt (by omega)
    have innerEnd : (ri.end - sumAfter - reindexSlack - 1 - reindexSlack).toNat =
        (ri.end - sumAfter - reindexSlack - 1).toNat - reindexSlack.toNat := toNat_sub_of_toNat_le (by omega)
    have staged := links_stageInterval cStored ⟨ri.start + sumBefore + reindexSlack + reindexSlack,
      ri.end - sumAfter - reindexSlack - 1 - reindexSlack⟩
    have innerFound := lookup_stageInterval_self cFound ⟨ri.start + sumBefore + reindexSlack + reindexSlack,
      ri.end - sumAfter - reindexSlack - 1 - reindexSlack⟩
    obtain ⟨rc', propagated, ran, inv, right', closed'⟩ := propagateInterval_eq_ok_of_cache (tree.of_links staged)
      (by rwa [subtreeSize_of_links staged]) ((mem_of_links staged).2 cStored)
      (by rw [startOf_eq innerFound, endOf_eq innerFound]; dsimp only; omega)
      (by rw [subtreeSize_of_links staged, startOf_eq innerFound, endOf_eq innerFound]; dsimp only; omega)
      ((cacheRight_of_links staged).2 right) ((cacheClosed_of_links staged).2 closed)
      (by rwa [subtreeSize_of_links staged])
    have sameParent := treeParent_of_links staged
    have propagatedLinks := inv.links.trans staged
    have kept : ∀ y, ¬ Relation.TransGen (TreeParent store) chosenChild y → propagated.lookup y =
        (stageInterval store chosenChild ⟨ri.start + sumBefore + reindexSlack + reindexSlack,
          ri.end - sumAfter - reindexSlack - 1 - reindexSlack⟩).lookup y :=
      fun y notBelow => inv.frame y (by rw [sameParent]; exact notBelow)
    have cPropagated := (kept chosenChild (tree.acyclic chosenChild)).trans innerFound
    refine ⟨rc', stageInterval propagated chosenChild ⟨ri.start + sumBefore + reindexSlack,
      ri.end - sumAfter - reindexSlack - 1⟩, ?_, ?_, (cacheRight_of_links staged).1 right',
      (cacheClosed_of_links staged).1 closed', fun y notBelow => ?_,
      interval_of_lookup (lookup_stageInterval_self cPropagated _), fun y path => ?_, fun _ => ?_⟩
    · simp only [expandIntervalToChosen, liftReachability, found, interval_of_lookup cFound, Except.mapError,
        mk_some_ok, pure_bind]
      rw [if_pos propagates]
      simp [ran]
    · exact (links_stageInterval ((mem_of_links propagatedLinks).2 cStored) _).trans propagatedLinks
    · have otherY : y ≠ chosenChild := fun same => notBelow (same ▸ Relation.ReflTransGen.refl)
      rw [lookup_stageInterval_of_ne otherY, kept y fun path => notBelow path.to_reflTransGen,
        lookup_stageInterval_of_ne otherY]
    · refine validateIntervalsAt_of_kept (lookup_stageInterval_of_ne (other y path) _) (fun z child => ?_)
        (inv.valid y (by rw [sameParent]; exact path.to_reflTransGen) fun _ none => absurd none List.not_mem_nil)
      rw [childrenOf_of_links propagatedLinks] at child
      exact lookup_stageInterval_of_ne (other z (childOther y path z child)) _
    · have valid := inv.valid chosenChild Relation.ReflTransGen.refl fun _ none => absurd none List.not_mem_nil
      refine validateIntervalsAt_widen cPropagated valid (by rwa [childrenOf_of_links propagatedLinks]) ?_ ?_
      · rw [UInt64.le_iff_toNat_le]
        dsimp only
        omega
      · rw [UInt64.le_iff_toNat_le]
        dsimp only
        omega
  · -- the staging area is kept, and only the chosen child's interval changes
    refine ⟨rc, stageInterval store chosenChild ⟨ri.start + sumBefore + reindexSlack,
      ri.end - sumAfter - reindexSlack - 1⟩, ?_, links_stageInterval cStored _, right, closed,
      fun y notBelow => lookup_stageInterval_of_ne (fun same => by subst same; exact notBelow .refl) _,
      interval_of_lookup (lookup_stageInterval_self cFound _), fun y path => ?_, fun final => ?_⟩
    · simp only [expandIntervalToChosen, liftReachability, found, interval_of_lookup cFound, Except.mapError,
        mk_some_ok, pure_bind]
      rw [if_neg propagates]
    · refine validateIntervalsAt_of_kept (lookup_stageInterval_of_ne (other y path) _)
        (fun z child => lookup_stageInterval_of_ne (other z (childOther y path z child)) _)
        (belowValid y path.to_reflTransGen)
    · simp only [final, intervalContains, Bool.true_and, Bool.not_eq_true', Bool.not_eq_false, Bool.and_eq_true,
        decide_eq_true_eq] at propagates
      exact validateIntervalsAt_widen cFound (belowValid chosenChild Relation.ReflTransGen.refl) notChild
        propagates.1 propagates.2

theorem concentrateInterval_eq {chosenChild : DomainHash} {before after : List DomainHash}
    (split : childrenOf store reindexRoot = before ++ chosenChild :: after)
    (room : subtreeSize store reindexRoot + 4 * reindexSlack.toNat ≤ ri.end.toNat - ri.start.toNat + 1)
    (enough : subtreeSize store reindexRoot < fuel)
    (outsideValid : ∀ x ∈ store, x ≠ reindexRoot → validateIntervalsAt store x = .ok ())
    (isFinalReindexRoot : Bool) :
    ∃ rc' staged, concentrateInterval store fuel reindexSlack rc reindexRoot chosenChild isFinalReindexRoot =
        pure (rc', staged) ∧ CacheRight store rc'.subTreeSizesCache ∧ CacheClosed store rc'.subTreeSizesCache ∧
      Concentrated store staged reindexRoot chosenChild ri reindexSlack before after ∧
      (isFinalReindexRoot = true → validateIntervalsAt staged chosenChild = .ok ()) := by
  have rStored := mem_of_interval found
  have nodup := tree.children_nodup reindexRoot
  rw [split] at nodup
  obtain ⟨nodupBefore, nodupRest, apartBefore⟩ := List.nodup_append.1 nodup
  obtain ⟨freshChosen, nodupAfter⟩ := List.nodup_cons.1 nodupRest
  have child : ∀ c ∈ before ++ chosenChild :: after, TreeParent store reindexRoot c := fun c mem =>
    (tree.linked reindexRoot c).2 (split ▸ mem)
  have step := child chosenChild (by simp)
  have apart : ∀ c₁ ∈ before ++ chosenChild :: after, ∀ c₂ ∈ before ++ chosenChild :: after, c₁ ≠ c₂ →
      ∀ y, Relation.ReflTransGen (TreeParent store) c₁ y → ¬ Relation.ReflTransGen (TreeParent store) c₂ y :=
    fun c₁ mem₁ c₂ mem₂ other y below₁ below₂ =>
      tree.forest.not_below_siblings (child c₁ mem₁) (child c₂ mem₂) other below₁ below₂
  have notAbove : ∀ c ∈ before ++ chosenChild :: after, ¬ Relation.ReflTransGen (TreeParent store) c reindexRoot :=
    fun c mem => tree.forest.not_below_child (child c mem)
  have sizeR := tree.subtreeSize_of_split rStored split
  have endLt := UInt64.toNat_lt ri.end
  have sizeC := subtreeSize_pos step.stored
  have enoughChild : ∀ c ∈ before ++ chosenChild :: after, subtreeSize store c < fuel := fun c mem =>
    (tree.subtreeSize_lt (child c mem)).trans enough
  obtain ⟨rc₁, store₁, ranBefore, right₁, closed₁, before₁⟩ := tightenIntervalsBefore_eq tree few right closed found
    (fun c mem => child c (by simp [mem])) nodupBefore (fun c mem => enoughChild c (by simp [mem]))
    (show ri.start.toNat + reindexSlack.toNat + _ < 2 ^ 64 by omega)
  have links₁ := before₁.links
  have keep₁ : ∀ y, (∀ c ∈ before, ¬ Relation.ReflTransGen (TreeParent store) c y) → store₁.lookup y = store.lookup y :=
    before₁.frame
  have found₁ : interval store₁ reindexRoot = .ok ri := by
    rw [interval_congr (keep₁ reindexRoot fun c mem => notAbove c (by simp [mem])), found]
  obtain ⟨rc₂, store₂, ranAfter, right₂, closed₂, after₂⟩ := tightenIntervalsAfter_eq (tree.of_links links₁)
    (by rwa [subtreeSize_of_links links₁]) ((cacheRight_of_links links₁).2 right₁)
    ((cacheClosed_of_links links₁).2 closed₁) found₁
    (fun c mem => by rw [treeParent_of_links links₁]; exact child c (by simp [mem])) nodupAfter
    (fun c mem => by rw [subtreeSize_of_links links₁]; exact enoughChild c (by simp [mem]))
    (show reindexSlack.toNat + _ ≤ ri.end.toNat by rw [subtreeSize_of_links links₁]; omega)
  rw [subtreeSizesSum_of_links links₁] at ranAfter
  rw [subtreeSizesSum_of_links links₁, subtreeSizes_of_links links₁] at after₂
  have links₂ := after₂.links.trans links₁
  have keep₂ := after₂.frame
  rw [treeParent_of_links links₁] at keep₂
  have chosenApart : ∀ c ∈ before ++ after, ∀ y, Relation.ReflTransGen (TreeParent store) chosenChild y →
      ¬ Relation.ReflTransGen (TreeParent store) c y := fun c mem y below => by
    refine apart chosenChild (by simp) c (by simp at mem ⊢; tauto) (fun same => ?_) y below
    rcases List.mem_append.1 mem with early | late
    · exact apartBefore c early chosenChild List.mem_cons_self same.symm
    · exact freshChosen (same ▸ late)
  have keptChosen : ∀ y, Relation.ReflTransGen (TreeParent store) chosenChild y → store₂.lookup y = store.lookup y :=
    fun y below => by
      rw [keep₂ y fun c mem => chosenApart c (by simp [mem]) y below,
        keep₁ y fun c mem => chosenApart c (by simp [mem]) y below]
  have found₂ : interval store₂ reindexRoot = .ok ri := by
    rw [interval_congr (keep₂ reindexRoot fun c mem => notAbove c (by simp [mem])), found₁]
  have sumBefore : (subtreeSizesSum store before).toNat = (before.map (subtreeSize store)).sum :=
    UInt64.toNat_ofNat_of_lt' (by unfold UInt64.size; omega)
  have sumAfter : (subtreeSizesSum store after).toNat = (after.map (subtreeSize store)).sum :=
    UInt64.toNat_ofNat_of_lt' (by unfold UInt64.size; omega)
  obtain ⟨chosenStart, chosenEnd⟩ := toNat_chosen ri.start ri.end reindexSlack (subtreeSizesSum store before)
    (subtreeSizesSum store after) (by omega)
  obtain ⟨rc₃, staged, ranExpand, links₃, right₃, closed₃, keep₃, chosen₃, belowValid₃, finalValid₃⟩ :=
    expandIntervalToChosen_eq (tree.of_links links₂) (by rwa [subtreeSize_of_links links₂])
      ((cacheRight_of_links links₂).2 ((cacheRight_of_links links₁).1 right₂))
      ((cacheClosed_of_links links₂).2 ((cacheClosed_of_links links₁).1 closed₂)) found₂
      (by rw [treeParent_of_links links₂]; exact step)
      (show (ri.start + subtreeSizesSum store before + reindexSlack).toNat + 2 * reindexSlack.toNat +
        subtreeSize store₂ chosenChild ≤ (ri.end - subtreeSizesSum store after - reindexSlack - 1).toNat + 1 by
        rw [subtreeSize_of_links links₂]; omega)
      (by rw [subtreeSize_of_links links₂]; exact enoughChild chosenChild (by simp))
      (fun y below => by
        rw [treeParent_of_links links₂] at below
        refine tree.validateIntervalsAt_of_subtree_kept rfl keptChosen below
          (outsideValid y (stored_of_below step.stored below) ?_)
        rintro rfl
        exact notAbove chosenChild (by simp) below)
      isFinalReindexRoot
  rw [treeParent_of_links links₂] at keep₃ belowValid₃
  have keptBefore : ∀ y, (∀ c ∈ chosenChild :: after, ¬ Relation.ReflTransGen (TreeParent store) c y) →
      staged.lookup y = store₁.lookup y := fun y outside => by
    rw [keep₃ y (outside chosenChild List.mem_cons_self),
      keep₂ y fun c mem => outside c (List.mem_cons_of_mem _ mem)]
  have beforeOutside : ∀ b ∈ before, ∀ y, Relation.ReflTransGen (TreeParent store) b y →
      ∀ c ∈ chosenChild :: after, ¬ Relation.ReflTransGen (TreeParent store) c y := fun b mem y below c mem' =>
    apart b (by simp [mem]) c (by simp at mem' ⊢; tauto) (apartBefore b mem c mem') y below
  have afterOutside : ∀ a ∈ after, ∀ y, Relation.ReflTransGen (TreeParent store) a y →
      ¬ Relation.ReflTransGen (TreeParent store) chosenChild y := fun a mem y below =>
    apart a (by simp [mem]) chosenChild (by simp) (fun same => freshChosen (same ▸ mem)) y below
  refine ⟨rc₃, staged, ?_, (cacheRight_of_links links₂).1 right₃, (cacheClosed_of_links links₂).1 closed₃,
    ⟨links₃.trans links₂, fun y notBelow => ?_, ?_, lookup_of_interval chosen₃, ?_, fun c mem y below => ?_,
      belowValid₃⟩, finalValid₃⟩
  · simp [concentrateInterval, splitChildren_eq rStored split (tree.children_nodup reindexRoot), ranBefore,
      ranAfter, ranExpand]
  · have outside : ∀ c ∈ before ++ chosenChild :: after, ¬ Relation.ReflTransGen (TreeParent store) c y :=
      fun c mem below => notBelow (Relation.TransGen.head' (child c mem) below)
    rw [keptBefore y fun c mem => outside c (by simp at mem ⊢; tauto),
      keep₁ y fun c mem => outside c (by simp [mem])]
  · refine (forall₂_mem_left before₁.assigned).imp fun b part assigned => ?_
    rw [keptBefore b (beforeOutside b assigned.1 b Relation.ReflTransGen.refl)]
    exact assigned.2
  · refine (forall₂_mem_left after₂.assigned).imp fun a part assigned => ?_
    rw [keep₃ a (afterOutside a assigned.1 a Relation.ReflTransGen.refl)]
    exact assigned.2
  · rcases List.mem_append.1 mem with early | late
    · exact tree.validateIntervalsAt_of_subtree_kept links₁
        (fun z below' => keptBefore z (beforeOutside c early z below')) below (before₁.valid c early y below)
    · exact tree.validateIntervalsAt_of_subtree_kept links₂ (fun z below' => keep₃ z (afterOutside c late z below'))
        below (after₂.valid c late y (by rw [treeParent_of_links links₁]; exact below))

end Concentrate

theorem map_interval_of_assigned {staged : ReachabilityDataStore} {cs : List DomainHash}
    {parts : List ReachabilityInterval}
    (assigned : List.Forall₂ (fun c part => ∃ data, staged.lookup c = some data ∧ data.interval = part) cs parts) :
    cs.map (interval staged) = parts.map .ok := by
  induction assigned with
  | nil => rfl
  | cons first _ ih =>
    obtain ⟨data, found, isPart⟩ := first
    rw [List.map_cons, List.map_cons, ih, interval_of_lookup found, isPart]

namespace Concentrated

variable {root : DomainHash} (tree : TreeLinks store root) {reindexRoot chosenChild : DomainHash}
  {before after : List DomainHash} (split : childrenOf store reindexRoot = before ++ chosenChild :: after)
  {ri : ReachabilityInterval} (found : interval store reindexRoot = .ok ri)
  (room : subtreeSize store reindexRoot + 4 * reindexSlack.toNat ≤ ri.end.toNat - ri.start.toNat + 1)
  {staged : ReachabilityDataStore} (conc : Concentrated store staged reindexRoot chosenChild ri reindexSlack before after)
include tree split found room conc

theorem reindexRoot_valid : validateIntervalsAt staged reindexRoot = .ok () := by
  obtain ⟨data, rFound, isRi⟩ := lookup_of_interval found
  have sameData : staged.lookup reindexRoot = some data := by
    rw [conc.frame reindexRoot (tree.acyclic reindexRoot), rFound]
  have children : data.children = before ++ chosenChild :: after := by
    rw [← childrenOf_eq rFound, split]
  have child : ∀ c ∈ before ++ after, TreeParent store reindexRoot c := fun c mem =>
    (tree.linked reindexRoot c).2 (by rw [split]; simp at mem ⊢; tauto)
  have sizeR := tree.subtreeSize_of_split (mem_of_interval found) split
  have chosenPos := subtreeSize_pos ((tree.linked reindexRoot chosenChild).2 (by rw [split]; simp)).stored
  have endLt := UInt64.toNat_lt ri.end
  have small : ∀ c ∈ before ++ after, subtreeSize store c < 2 ^ 64 := small_of_sum_lt (by simp; omega)
  have positive : ∀ size ∈ subtreeSizes store before ++ subtreeSizes store after, 1 ≤ size := by
    intro size mem
    rw [subtreeSizes, subtreeSizes, ← List.map_append, List.mem_map] at mem
    obtain ⟨c, mem, rfl⟩ := mem
    exact UInt64.le_iff_toNat_le.2 (by
      rw [UInt64.toNat_ofNat_of_lt' (by unfold UInt64.size; exact small c mem)]
      exact subtreeSize_pos (child c mem).stored)
  have natBefore : natSum (subtreeSizes store before) = (before.map (subtreeSize store)).sum :=
    natSum_map_ofNat fun c mem => small c (List.mem_append_left _ mem)
  have natAfter : natSum (subtreeSizes store after) = (after.map (subtreeSize store)).sum :=
    natSum_map_ofNat fun c mem => small c (List.mem_append_right _ mem)
  obtain ⟨chosenData, chosenFound, isChosen⟩ := conc.chosen
  rw [← sizesSum_subtreeSizes, ← sizesSum_subtreeSizes] at isChosen
  have afterParts := conc.after_parts
  rw [← sizesSum_subtreeSizes] at afterParts
  refine validateIntervalsAt_eq_ok sameData (by rw [isRi, UInt64.le_iff_toNat_le]; omega) ?_
  rw [children, isRi]
  refine validateChildIntervals_eq_ok (List.rel_append conc.before_parts
    (List.Forall₂.cons ⟨chosenData, chosenFound, isChosen⟩ afterParts))
    (concentrated_isChain _ _ _ _ _) (concentrated_inside positive (by omega)) none fun _ _ none => absurd none (by simp)

theorem valid (outsideValid : ∀ x ∈ store, x ≠ reindexRoot → validateIntervalsAt store x = .ok ()) :
    ∀ x ∈ staged, x ≠ chosenChild → validateIntervalsAt staged x = .ok () := by
  intro x stored other
  by_cases below : Relation.ReflTransGen (TreeParent store) reindexRoot x
  · by_cases isRoot : x = reindexRoot
    · rw [isRoot]
      exact reindexRoot_valid tree split found room conc
    obtain ⟨c, isChild, cBelow⟩ := tree.exists_child_of_below below isRoot
    rw [split] at isChild
    by_cases isChosen : c = chosenChild
    · rw [isChosen] at cBelow
      rcases Relation.reflTransGen_iff_eq_or_transGen.1 cBelow with same | path
      · exact absurd same other
      · exact conc.below_chosen_valid x path
    · exact conc.siblings_valid c (by simp at isChild ⊢; tauto) x cBelow
  · have xStored : x ∈ store := (mem_of_links conc.links).1 stored
    refine validateIntervalsAt_of_kept (conc.frame x fun path => below path.to_reflTransGen)
      (fun z isChild => conc.frame z fun path => ?_)
      (outsideValid x xStored fun same => by subst same; exact below Relation.ReflTransGen.refl)
    exact below (tree.forest.below_parent path.to_reflTransGen ((tree.linked x z).2 isChild)
      fun same => by subst same; exact tree.acyclic _ path)

end Concentrated

/-- **concentrateInterval restores the tree**, when the reindex root's interval holds its subtree and
    four times the slack: the siblings are packed against both ends, the chosen child gets the rest. -/
theorem concentrateInterval_restores_tree {root : DomainHash} (wf : WellFormed store root)
    (few : subtreeSize store root ≤ 2 ^ 64) {reindexRoot chosenChild : DomainHash} {before after : List DomainHash}
    (split : childrenOf store reindexRoot = before ++ chosenChild :: after) {ri : ReachabilityInterval}
    (found : interval store reindexRoot = .ok ri)
    (room : subtreeSize store reindexRoot + 4 * reindexSlack.toNat ≤ ri.end.toNat - ri.start.toNat + 1)
    (enough : subtreeSize store root < fuel) {rc : ReindexContext}
    (right : CacheRight store rc.subTreeSizesCache) (closed : CacheClosed store rc.subTreeSizesCache) :
    ∃ rc' staged, concentrateInterval store fuel reindexSlack rc reindexRoot chosenChild true = pure (rc', staged) ∧
      WellFormed staged root ∧ links staged = links store ∧
      (∀ y, ¬ Relation.TransGen (TreeParent store) reindexRoot y → staged.lookup y = store.lookup y) ∧
      before.map (interval staged) = (splitFrom (ri.start + reindexSlack) (subtreeSizes store before)).map .ok ∧
      interval staged chosenChild = .ok ⟨ri.start + subtreeSizesSum store before + reindexSlack,
        ri.end - subtreeSizesSum store after - reindexSlack - 1⟩ ∧
      after.map (interval staged) =
        (splitFrom (ri.end - reindexSlack - subtreeSizesSum store after) (subtreeSizes store after)).map .ok := by
  have tree := wf.treeLinks
  have fuelR : subtreeSize store reindexRoot < fuel :=
    lt_of_le_of_lt (subtreeSize_le (tree.below_root (mem_of_interval found))) enough
  have storedValid : ∀ x ∈ store, x ≠ reindexRoot → validateIntervalsAt store x = .ok () := by
    intro x stored _
    obtain ⟨data, xFound⟩ := lookup_of_mem stored
    exact wf.intervals _ (mem_entries_of_lookup xFound)
  obtain ⟨rc', staged, ran, -, -, conc, chosenValid⟩ :=
    concentrateInterval_eq tree few right closed found split room fuelR storedValid true
  refine ⟨rc', staged, ran, (tree.of_links conc.links).wellFormed fun x stored => ?_, conc.links, conc.frame,
    map_interval_of_assigned conc.before_parts, ?_, map_interval_of_assigned conc.after_parts⟩
  · by_cases isChosen : x = chosenChild
    · rw [isChosen]
      exact chosenValid rfl
    · exact conc.valid tree split found room storedValid x stored isChosen
  · obtain ⟨data, chosenFound, isChosen⟩ := conc.chosen
    rw [interval_of_lookup chosenFound, isChosen]

set_option maxRecDepth 2000 in
/-- A root at `[1, 100]` with children `a` at `[1, 50]`, holding two leaves, and `b` at `[51, 60]`:
    concentrating on `a` with a slack of 3 gives `a` all of `[4, 95]`. -/
theorem concentrateInterval_gives_chosen_the_room :
    let root : DomainHash := ⟨0⟩
    let a : DomainHash := ⟨1⟩
    let b : DomainHash := ⟨2⟩
    let store : ReachabilityDataStore :=
      (((((∅ : ReachabilityDataStore).insert ⟨4⟩ ⟨[], some a, ⟨11, 20⟩⟩).insert ⟨3⟩ ⟨[], some a, ⟨1, 10⟩⟩).insert
        b ⟨[], some root, ⟨51, 60⟩⟩).insert a ⟨[⟨3⟩, ⟨4⟩], some root, ⟨1, 50⟩⟩).insert root ⟨[a, b], none, ⟨1, 100⟩⟩
    ∃ rc' staged, concentrateInterval store 10 3 ⟨fun _ => none⟩ root a true = pure (rc', staged) ∧
      WellFormed staged root ∧ interval staged a = .ok ⟨4, 95⟩ ∧ interval staged b = .ok ⟨96, 96⟩ := by
  intro root a b store
  have wf : WellFormed store root := ⟨by decide, by decide, by decide, by decide, by decide⟩
  have leafSize : ∀ x ∈ [⟨3⟩, ⟨4⟩, b], subtreeSize store x = 1 := by
    intro x mem
    simp only [List.mem_cons, List.not_mem_nil, or_false] at mem
    rcases mem with rfl | rfl | rfl
    all_goals
      rw [wf.subtreeSize_eq (by decide), show childrenOf store _ = [] by decide]
      rfl
  have aSize : subtreeSize store a = 3 := by
    rw [wf.subtreeSize_eq (by decide), show childrenOf store a = [⟨3⟩, ⟨4⟩] by decide]
    simp [leafSize]
  have rootSize : subtreeSize store root = 5 := by
    rw [wf.subtreeSize_eq (by decide), show childrenOf store root = [a, b] by decide]
    simp [aSize, leafSize]
  have right : CacheRight store (ReindexContext.subTreeSizesCache ⟨fun _ => none⟩) :=
    fun _ _ found => by cases found
  have closed : CacheClosed store (ReindexContext.subTreeSizesCache ⟨fun _ => none⟩) :=
    fun _ cached => by cases cached
  obtain ⟨rc', staged, ran, restored, -, -, -, chosen, after⟩ := concentrateInterval_restores_tree wf
    (by rw [rootSize]; decide) (show childrenOf store root = [] ++ a :: [b] by decide)
    (show interval store root = .ok ⟨1, 100⟩ by decide)
    (show subtreeSize store root + 4 * (3 : UInt64).toNat ≤ (100 : UInt64).toNat - (1 : UInt64).toNat + 1 by
      rw [rootSize]; decide)
    (show subtreeSize store root < 10 by omega) right closed
  have sums : subtreeSizesSum store [] = 0 ∧ subtreeSizesSum store [b] = 1 := by
    simp [subtreeSizesSum, leafSize]
  have bSizes : subtreeSizes store [b] = [1] := by
    simp [subtreeSizes, leafSize]
  rw [sums.1, sums.2] at chosen
  rw [sums.2, bSizes, show splitFrom (100 - 3 - 1) [1] = [⟨96, 96⟩] by decide] at after
  refine ⟨rc', staged, ran, restored, chosen, ?_⟩
  simp only [List.map_cons, List.map_nil, List.cons.injEq, and_true] at after
  exact after

/-! ### The common ancestor of a block and the reindex root -/

variable (store) in
def CommonAncestorsAbove (node reindexRoot current : DomainHash) : Prop :=
  ∀ a, Relation.ReflTransGen (TreeParent store) a node → Relation.ReflTransGen (TreeParent store) a reindexRoot →
    Relation.ReflTransGen (TreeParent store) a current

section CommonAncestor

variable {root : DomainHash} (wf : WellFormed store root) {reindexRoot : DomainHash} (rootStored : reindexRoot ∈ store)
include wf rootStored

theorem findCommonAncestorStep_of_above {current : DomainHash} (stored : current ∈ store)
    (above : Relation.ReflTransGen (TreeParent store) current reindexRoot) :
    findCommonAncestorStep store reindexRoot current = pure (.inr current) := by
  obtain ⟨currentData, currentFound⟩ := lookup_of_mem stored
  obtain ⟨rootData, rootFound⟩ := lookup_of_mem rootStored
  have contains := (wf.intervalContains_iff currentFound rootFound).2 above
  simp [findCommonAncestorStep, liftReachability, isReachabilityTreeAncestorOf_of_lookup currentFound rootFound,
    contains, Except.mapError]

theorem findCommonAncestorStep_of_not_above {p current : DomainHash} (step : TreeParent store p current)
    (notAbove : ¬ Relation.ReflTransGen (TreeParent store) current reindexRoot) :
    findCommonAncestorStep store reindexRoot current = pure (.inl p) := by
  have hasParent := parent_eq step
  obtain ⟨currentData, currentFound, -⟩ := step
  obtain ⟨rootData, rootFound⟩ := lookup_of_mem rootStored
  have notContains : intervalContains currentData.interval rootData.interval = false :=
    Bool.eq_false_iff.2 (mt (wf.intervalContains_iff currentFound rootFound).1 notAbove)
  simp [findCommonAncestorStep, liftReachability, isReachabilityTreeAncestorOf_of_lookup currentFound rootFound,
    notContains, hasParent, Except.mapError]

theorem findCommonAncestorStep_walk {node current : DomainHash} (nodeStored : node ∈ store)
    (below : Relation.ReflTransGen (TreeParent store) current node)
    (lowest : CommonAncestorsAbove store node reindexRoot current) :
    (findCommonAncestorStep store reindexRoot current = pure (.inr current) ∧
      Relation.ReflTransGen (TreeParent store) current reindexRoot) ∨
    ∃ p, findCommonAncestorStep store reindexRoot current = pure (.inl p) ∧ TreeParent store p current ∧
      CommonAncestorsAbove store node reindexRoot p := by
  have tree := wf.treeLinks
  have stored := wf.laminar.mem_of_ancestor below nodeStored
  by_cases above : Relation.ReflTransGen (TreeParent store) current reindexRoot
  · exact .inl ⟨findCommonAncestorStep_of_above wf rootStored stored above, above⟩
  · obtain ⟨p, step⟩ : ∃ p, TreeParent store p current :=
      (tree.rooted current stored).resolve_left fun atRoot => above (atRoot ▸ tree.below_root rootStored)
    refine .inr ⟨p, findCommonAncestorStep_of_not_above wf rootStored step above, step, fun a aNode aRoot => ?_⟩
    exact tree.forest.below_parent (lowest a aNode aRoot) step fun same => above (same ▸ aRoot)

end CommonAncestor

/-- **findCommonAncestor finds the lowest common ancestor** of a stored block and the reindex root,
    with fuel above the number of stored blocks. -/
theorem findCommonAncestor_lowest {root : DomainHash} (wf : WellFormed store root) {node reindexRoot : DomainHash}
    (nodeStored : node ∈ store) (rootStored : reindexRoot ∈ store) (enough : store.keys.length < fuel) :
    ∃ c, findCommonAncestor store fuel node reindexRoot = pure c ∧
      Forest.IsLowestCommonAncestor (TreeParent store) node reindexRoot c := by
  have bounded : ∀ x, subtreeSize store x ≤ store.keys.length := fun x =>
    (Finset.card_le_card fun _ mem => (IntervalTree.mem_subtree.1 mem).1).trans (List.toFinset_card_le _)
  -- each turn up grows the subtree of `current`, which the store bounds
  obtain ⟨c, ran, lowest⟩ := loop_eq_ok_of_bound
    (fun n current => Relation.ReflTransGen (TreeParent store) current node ∧
      CommonAncestorsAbove store node reindexRoot current ∧ store.keys.length < n + subtreeSize store current)
    (Forest.IsLowestCommonAncestor (TreeParent store) node reindexRoot)
    (fun current ⟨_, _, short⟩ => by have := bounded current; omega)
    (fun n current ⟨below, lowest, fuelLeft⟩ => by
      rcases findCommonAncestorStep_walk wf rootStored nodeStored below lowest with
        ⟨turn, above⟩ | ⟨p, turn, step, lowest'⟩
      · exact .inl ⟨current, congrArg ExceptT.run turn, below, above, lowest⟩
      · have grows := wf.treeLinks.subtreeSize_lt step
        exact .inr ⟨p, congrArg ExceptT.run turn, .head step below, lowest', by omega⟩)
    fuel node ⟨.refl, fun _ below _ => below, by omega⟩
  exact ⟨c, congrArg ExceptT.mk ran, lowest⟩

set_option maxRecDepth 2000 in
/-- A root with two leaves: from one leaf to the other as the reindex root, the walk goes up to the
    root. -/
theorem findCommonAncestor_of_sibling_leaves :
    let root : DomainHash := ⟨0⟩
    let a : DomainHash := ⟨1⟩
    let b : DomainHash := ⟨2⟩
    let store : ReachabilityDataStore := (((∅ : ReachabilityDataStore).insert b ⟨[], some root, ⟨51, 60⟩⟩).insert
      a ⟨[], some root, ⟨1, 50⟩⟩).insert root ⟨[a, b], none, ⟨1, 100⟩⟩
    WellFormed store root ∧ findCommonAncestor store 4 a b = pure root ∧
      ∃ c, findCommonAncestor store 4 a b = pure c ∧ Forest.IsLowestCommonAncestor (TreeParent store) a b c := by
  intro root a b store
  have wf : WellFormed store root := ⟨by decide, by decide, by decide, by decide, by decide⟩
  exact ⟨wf, rfl, findCommonAncestor_lowest wf (by decide) (by decide) (by decide)⟩

end ReachabilityManager
