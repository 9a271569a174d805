import Mathlib
import Htnd.ReachabilityManager.Propagate

/-!
Reindexing when a block's parent has no interval left to allocate (reindex_context.go, tree.go).
addChild links the new block under its parent, gives it the empty interval after its last sibling,
and calls reindexIntervals. That walks up from the new block, counting subtrees in the reindex
context, to the first block whose interval holds its subtree, and propagates that block's interval
down its subtree. A block whose parent lies strictly above the reindex root instead takes slack
from the chain up to the reindex root.

The reindex context is shared by the calls of one reindex. Its cache holds right sizes, and holds
the size of a block only with the sizes of the block's children: each countSubtrees keeps both, so
that once a block is counted its whole subtree is.
-/
namespace ReachabilityManager
open GoSemantics Utxo

variable (store : ReachabilityDataStore)

/-- The loop of countChildrenSubtrees over `children`, with the sizes and the sum so far. When a
    count fails, Go returns nil and 0 and drops the error; the cache keeps what the count wrote. -/
def countChildrenSubtreesFrom (fuel : Nat) (sizes : List UInt64) (sum : UInt64) :
    ReindexContext → List DomainHash → Option (List UInt64 × UInt64 × ReindexContext)
  | rc, [] => some (sizes, sum, rc)
  | rc, node :: children =>
    match countSubtrees store fuel rc node with
    | none => none
    | some (.error (_, rc)) => some ([], 0, rc)
    | some (.ok rc) =>
      let subtreeSize := (rc.subTreeSizesCache node).getD 0
      countChildrenSubtreesFrom fuel (sizes ++ [subtreeSize]) (sum + subtreeSize) rc children

def countChildrenSubtrees (fuel : Nat) (rc : ReindexContext) (children : List DomainHash) :
    Option (List UInt64 × UInt64 × ReindexContext) :=
  countChildrenSubtreesFrom store fuel [] 0 rc children

def CacheRight (cache : DomainHash → Option UInt64) : Prop :=
  ∀ y v, cache y = some v → v = UInt64.ofNat (subtreeSize store y)

def CacheClosed (cache : DomainHash → Option UInt64) : Prop :=
  ∀ y, (cache y).isSome → ∀ c ∈ childrenOf store y, (cache c).isSome

@[mk_iff] structure CacheGrows (old cache : DomainHash → Option UInt64) : Prop where
  keeps : ∀ y, (old y).isSome → (cache y).isSome
  closed : CacheClosed store cache

variable {store}

/-! ### The cache of the reindex context -/

theorem CacheClosed.update {cache : DomainHash → Option UInt64} (closed : CacheClosed store cache)
    {y : DomainHash} (done : ∀ c ∈ childrenOf store y, (cache c).isSome) (v : UInt64) :
    CacheClosed store (Function.update cache y (some v)) := by
  intro x cached c child
  by_cases same : x = y
  · subst same
    exact isSome_update v (done c child)
  · rw [Function.update_of_ne same] at cached
    exact isSome_update v (closed x cached c child)

theorem CacheGrows.update {old cache : DomainHash → Option UInt64} (grows : CacheGrows store old cache)
    {y : DomainHash} (done : ∀ c ∈ childrenOf store y, (cache c).isSome) (v : UInt64) :
    CacheGrows store old (Function.update cache y (some v)) :=
  ⟨fun x kept => isSome_update v (grows.keeps x kept), grows.closed.update done v⟩

theorem CacheGrows.trans {old mid cache : DomainHash → Option UInt64} (first : CacheGrows store old mid)
    (second : CacheGrows store mid cache) : CacheGrows store old cache :=
  ⟨fun x kept => second.keeps x (first.keeps x kept), second.closed⟩

theorem CacheClosed.cached_below {cache : DomainHash → Option UInt64} (closed : CacheClosed store cache)
    (linked : ∀ p c, TreeParent store p c → c ∈ childrenOf store p) {x y : DomainHash}
    (cached : (cache x).isSome) (below : Relation.ReflTransGen (TreeParent store) x y) : (cache y).isSome := by
  induction below with
  | refl => exact cached
  | tail _ step ih => exact closed _ ih _ (linked _ _ step)

theorem CacheRight.counted_below {cache : DomainHash → Option UInt64} (right : CacheRight store cache)
    (closed : CacheClosed store cache) (linked : ∀ p c, TreeParent store p c → c ∈ childrenOf store p)
    {x y : DomainHash} (cached : (cache x).isSome) (below : Relation.ReflTransGen (TreeParent store) x y) :
    cache y = some (UInt64.ofNat (subtreeSize store y)) := by
  obtain ⟨v, found⟩ := Option.isSome_iff_exists.1 (closed.cached_below linked cached below)
  rw [found, right y v found]

section Links

variable {store' : ReachabilityDataStore} (same : links store' = links store)
include same

theorem cacheRight_of_links {cache : DomainHash → Option UInt64} :
    CacheRight store' cache ↔ CacheRight store cache := by
  simp only [CacheRight, subtreeSize_of_links same]

theorem cacheClosed_of_links {cache : DomainHash → Option UInt64} :
    CacheClosed store' cache ↔ CacheClosed store cache := by
  simp only [CacheClosed, childrenOf_of_links same]

theorem cacheGrows_of_links {old cache : DomainHash → Option UInt64} :
    CacheGrows store' old cache ↔ CacheGrows store old cache := by
  rw [cacheGrows_iff, cacheGrows_iff, cacheClosed_of_links same]

end Links

variable {node : DomainHash} {initial : DomainHash → Option UInt64}

theorem pushUp_eq_inl {fuel : Nat} {queue : List DomainHash} {s : PushUpLoop} {s' : CountLoop}
    (ran : pushUp store node fuel queue s = some (.ok (.inl s'))) :
    ∃ r, loop (pushUpStep store node) fuel s = some (.ok r) ∧ s' = ⟨queue, r.1, r.2⟩ := by
  unfold pushUp at ran
  cases inner : loop (pushUpStep store node) fuel s with
  | none => simp [inner] at ran
  | some result =>
    cases result with
    | error err => simp [inner] at ran
    | ok r =>
      simp only [inner, Option.some.injEq, Except.ok.injEq, Sum.inl.injEq] at ran
      exact ⟨r, rfl, ran.symm⟩

theorem pushUp_ne_inr {fuel : Nat} {queue : List DomainHash} {s : PushUpLoop}
    {cache : DomainHash → Option UInt64} : pushUp store node fuel queue s ≠ some (.ok (.inr cache)) := by
  unfold pushUp
  cases loop (pushUpStep store node) fuel s with
  | none => simp
  | some result => cases result <;> simp

theorem CountInv.parent_pending {pending : Finset DomainHash} {queue : List DomainHash}
    {count : DomainHash → UInt64} {cache : DomainHash → Option UInt64} {c : DomainHash}
    (inv : CountInv store node initial pending [c] queue count cache) (other : c ≠ node) :
    ∃ p ∈ pending, TreeParent store p c := by
  obtain ⟨-, isNode | found⟩ := inv.linked c (Or.inr (Or.inr (List.mem_singleton_self c)))
  · exact absurd isNode other
  · exact found

section Closed

variable {root : DomainHash} (wf : WellFormed store root) (nodeStored : node ∈ store)
include wf nodeStored

theorem pushUpStep_grows {queue : List DomainHash} {s : PushUpLoop}
    (inv : ∃ pending, CountInv store node initial pending [s.current] queue s.calculatedChildrenCount
      s.subTreeSizesCache) (grows : CacheGrows store initial s.subTreeSizesCache) :
    (∀ r, pushUpStep store node s = some (.ok (.inr r)) →
      CacheGrows store initial r.2 ∧ ∃ pending, CountInv store node initial pending [] queue r.1 r.2) ∧
    ∀ s', pushUpStep store node s = some (.ok (.inl s')) →
      (∃ pending, CountInv store node initial pending [s'.current] queue s'.calculatedChildrenCount
        s'.subTreeSizesCache) ∧ CacheGrows store initial s'.subTreeSizesCache := by
  obtain ⟨pending, inv⟩ := inv
  by_cases atNode : s.current = node
  · rw [pushUpStep_self atNode]
    refine ⟨fun r leaves => ?_, fun s' continues => by cases continues⟩
    cases leaves
    rw [atNode] at inv
    exact ⟨grows, pending, inv.finish wf⟩
  obtain ⟨p, pPending, step⟩ := inv.parent_pending atNode
  rw [pushUpStep_of_parent atNode step (stored_of_below nodeStored (inv.below_of_pending pPending))]
  split_ifs with notAll
  · refine ⟨fun r leaves => ?_, fun s' continues => by cases continues⟩
    cases leaves
    exact ⟨grows, pending, inv.report wf step pPending notAll⟩
  · refine ⟨fun r leaves => (by cases leaves), fun s' continues => ?_⟩
    cases continues
    have done := inv.children_done wf step pPending (not_not.1 notAll)
    exact ⟨⟨pending.erase p, inv.complete wf nodeStored step pPending (not_not.1 notAll)⟩,
      grows.update (fun c child => by rw [(done c child).2.2]; rfl) _⟩

theorem loop_pushUpStep_grows {queue : List DomainHash} :
    ∀ fuel (s : PushUpLoop), ((∃ pending, CountInv store node initial pending [s.current] queue
        s.calculatedChildrenCount s.subTreeSizesCache) ∧ CacheGrows store initial s.subTreeSizesCache) →
      ∀ r, loop (pushUpStep store node) fuel s = some (.ok r) →
        CacheGrows store initial r.2 ∧ ∃ pending, CountInv store node initial pending [] queue r.1 r.2 :=
  loop_ok_of_invariant _ _ (fun _ r ⟨inv, grows⟩ => (pushUpStep_grows wf nodeStored inv grows).1 r)
    fun _ s' ⟨inv, grows⟩ => (pushUpStep_grows wf nodeStored inv grows).2 s'

theorem countSubtreesStep_grows {fuel : Nat} {s : CountLoop}
    (inv : ∃ pending, CountInv store node initial pending [] s.queue s.calculatedChildrenCount
      s.subTreeSizesCache) (grows : CacheGrows store initial s.subTreeSizesCache) :
    (∀ cache, countSubtreesStep store node fuel s = some (.ok (.inr cache)) → CacheGrows store initial cache) ∧
    ∀ s', countSubtreesStep store node fuel s = some (.ok (.inl s')) →
      (∃ pending, CountInv store node initial pending [] s'.queue s'.calculatedChildrenCount
        s'.subTreeSizesCache) ∧ CacheGrows store initial s'.subTreeSizesCache := by
  obtain ⟨queue, count, cache⟩ := s
  obtain ⟨pending, inv⟩ := inv
  cases queue with
  | nil =>
    refine ⟨fun cache' leaves => ?_, fun s' continues => by cases continues⟩
    cases leaves
    exact grows
  | cons y queue =>
    have stored := stored_of_below nodeStored (inv.below_of_queued List.mem_cons_self)
    -- after a push-up, the invariant and the grown cache of the inner loop carry over
    have pushed : ∀ {cache'} (inv' : CountInv store node initial pending [y] queue count cache')
        (grows' : CacheGrows store initial cache') (s' : CountLoop),
        pushUp store node fuel queue ⟨y, count, cache'⟩ = some (.ok (.inl s')) →
          (∃ pending, CountInv store node initial pending [] s'.queue s'.calculatedChildrenCount
            s'.subTreeSizesCache) ∧ CacheGrows store initial s'.subTreeSizesCache := by
      intro cache' inv' grows' s' ran
      obtain ⟨r, inner, rfl⟩ := pushUp_eq_inl ran
      obtain ⟨grownAfter, invAfter⟩ :=
        loop_pushUpStep_grows wf nodeStored fuel _ ⟨⟨pending, inv'⟩, grows'⟩ r inner
      exact ⟨invAfter, grownAfter⟩
    rw [countSubtreesStep_cons stored]
    refine ⟨fun cache' leaves => ?_, fun s' continues => ?_⟩
    · split_ifs at leaves
      · exact absurd leaves pushUp_ne_inr
      · cases leaves
      · exact absurd leaves pushUp_ne_inr
    · split_ifs at continues with leaf uncached
      · exact pushed ((inv.leaf wf nodeStored (List.isEmpty_iff.1 leaf)).pop (by simp))
          (grows.update (fun c child => by simp [List.isEmpty_iff.1 leaf] at child) 1) s' continues
      · cases continues
        exact ⟨⟨insert y pending, inv.expand wf (Option.isNone_iff_eq_none.1 uncached)
          (fun none => by simp [none] at leaf)⟩, grows⟩
      · exact pushed (inv.pop (Option.isSome_iff_ne_none.2 (by simpa using uncached))) grows s' continues

theorem loop_countSubtreesStep_grows {fuel : Nat} :
    ∀ n (s : CountLoop), ((∃ pending, CountInv store node initial pending [] s.queue
        s.calculatedChildrenCount s.subTreeSizesCache) ∧ CacheGrows store initial s.subTreeSizesCache) →
      ∀ cache, loop (countSubtreesStep store node fuel) n s = some (.ok cache) → CacheGrows store initial cache :=
  loop_ok_of_invariant _ _ (fun _ cache ⟨inv, grows⟩ => (countSubtreesStep_grows wf nodeStored inv grows).1 cache)
    fun _ s' ⟨inv, grows⟩ => (countSubtreesStep_grows wf nodeStored inv grows).2 s'

theorem WellFormed.countSubtrees_fills {rc : ReindexContext} (right : CacheRight store rc.subTreeSizesCache)
    (closed : CacheClosed store rc.subTreeSizesCache) {fuel : Nat} (enough : subtreeSize store node < fuel) :
    ∃ rc', countSubtrees store fuel rc node = some (.ok rc') ∧ CacheRight store rc'.subTreeSizesCache ∧
      CacheGrows store rc.subTreeSizesCache rc'.subTreeSizesCache ∧ (rc'.subTreeSizesCache node).isSome := by
  unfold countSubtrees
  by_cases cached : (rc.subTreeSizesCache node).isSome
  · exact ⟨rc, by rw [if_pos cached], right, ⟨fun _ kept => kept, closed⟩, cached⟩
  have start : CountInv store node rc.subTreeSizesCache ∅ [] [node] (fun _ => 0) rc.subTreeSizesCache :=
    countInv_start fun y v _ found => right y v found
  obtain ⟨cache, ran, counted⟩ := loop_countSubtreesStep wf nodeStored enough fuel
    ⟨[node], fun _ => 0, rc.subTreeSizesCache⟩ ⟨∅, start, by simpa using enough⟩
  refine ⟨⟨cache⟩, by rw [if_neg cached, ran], fun y v (found : cache y = some v) => ?_,
    loop_countSubtreesStep_grows wf nodeStored fuel _ ⟨⟨∅, start⟩, ⟨fun _ kept => kept, closed⟩⟩ cache ran,
    Option.isSome_iff_exists.2 ⟨_, counted.counted⟩⟩
  by_cases below : Relation.ReflTransGen (TreeParent store) node y
  · exact counted.correct y v below found
  · exact right y v (by rwa [counted.frame y below] at found)

end Closed

theorem TreeLinks.countSubtrees_fills {root : DomainHash} (tree : TreeLinks store root)
    (few : subtreeSize store root ≤ 2 ^ 64) (nodeStored : node ∈ store) {rc : ReindexContext}
    (right : CacheRight store rc.subTreeSizesCache) (closed : CacheClosed store rc.subTreeSizesCache)
    {fuel : Nat} (enough : subtreeSize store node < fuel) :
    ∃ rc', countSubtrees store fuel rc node = some (.ok rc') ∧ CacheRight store rc'.subTreeSizesCache ∧
      CacheGrows store rc.subTreeSizesCache rc'.subTreeSizesCache ∧ (rc'.subTreeSizesCache node).isSome := by
  obtain ⟨twin, same, wf⟩ := tree.exists_wellFormed few
  obtain ⟨rc', ran, right', grows, cached⟩ := wf.countSubtrees_fills ((mem_of_links same).2 nodeStored)
    ((cacheRight_of_links same).2 right) ((cacheClosed_of_links same).2 closed)
    (by rwa [subtreeSize_of_links same])
  exact ⟨rc', by rwa [countSubtrees_of_links same] at ran, (cacheRight_of_links same).1 right',
    (cacheGrows_of_links same).1 grows, cached⟩

/-- **countSubtrees counts subtrees.** On the links of a tree of at most `2 ^ 64` blocks, from a
    cache whose entries below `node` are right, countSubtrees returns when it may run more turns
    than `node`'s subtree has blocks. It leaves the size of `node`'s subtree cached for `node`,
    every entry below `node` right, and the other entries as they were. -/
theorem countSubtrees_caches_subtree_sizes {root : DomainHash} (tree : TreeLinks store root)
    (few : subtreeSize store root ≤ 2 ^ 64) (nodeStored : node ∈ store) {rc : ReindexContext}
    (correct : ∀ y v, Relation.ReflTransGen (TreeParent store) node y →
      rc.subTreeSizesCache y = some v → v = UInt64.ofNat (subtreeSize store y))
    {fuel : Nat} (enough : subtreeSize store node < fuel) :
    ∃ rc', countSubtrees store fuel rc node = some (.ok rc') ∧
      (∀ y v, Relation.ReflTransGen (TreeParent store) node y →
        rc'.subTreeSizesCache y = some v → v = UInt64.ofNat (subtreeSize store y)) ∧
      rc'.subTreeSizesCache node = some (UInt64.ofNat (subtreeSize store node)) ∧
      ∀ y, ¬ Relation.ReflTransGen (TreeParent store) node y →
        rc'.subTreeSizesCache y = rc.subTreeSizesCache y := by
  -- countSubtrees reads only the links: count on a well-formed tree with the same ones
  obtain ⟨twin, same, wf⟩ := tree.exists_wellFormed few
  rw [← treeParent_of_links same, ← subtreeSize_of_links same] at correct ⊢
  rw [← subtreeSize_of_links same] at enough
  rw [← countSubtrees_of_links same]
  exact wf.countSubtrees_caches ((mem_of_links same).2 nodeStored) correct enough

set_option maxRecDepth 2000 in
/-- A root at `[1, 2^64 - 2]` with two leaves, counted from the root with an empty cache and four
    turns. -/
theorem countSubtrees_root_of_two_leaves :
    let root : DomainHash := ⟨0⟩
    let left : DomainHash := ⟨1⟩
    let right : DomainHash := ⟨2⟩
    let store : ReachabilityDataStore :=
      (((∅ : ReachabilityDataStore).insert right ⟨[], some root, ⟨101, 200⟩⟩).insert left
        ⟨[], some root, ⟨1, 100⟩⟩).insert root ⟨[left, right], none, ⟨1, 2 ^ 64 - 2⟩⟩
    ∃ rc', countSubtrees store 4 ⟨fun _ => none⟩ root = some (.ok rc') ∧
      rc'.subTreeSizesCache root = some 3 := by
  intro root left right store
  have wf : WellFormed store root := ⟨by decide, by decide, by decide, by decide, by decide⟩
  have leftSize : subtreeSize store left = 1 := by
    rw [wf.subtreeSize_eq (by decide), show childrenOf store left = [] by decide]
    rfl
  have rightSize : subtreeSize store right = 1 := by
    rw [wf.subtreeSize_eq (by decide), show childrenOf store right = [] by decide]
    rfl
  have rootSize : subtreeSize store root = 3 := by
    rw [wf.subtreeSize_eq (by decide), show childrenOf store root = [left, right] by decide]
    simp [leftSize, rightSize]
  obtain ⟨rc', ran, -, counted, -⟩ := countSubtrees_caches_subtree_sizes wf.treeLinks
    (by omega) (show root ∈ store by decide)
    (fun y _ _ (found : (⟨fun _ => none⟩ : ReindexContext).subTreeSizesCache y = some _) => by
      cases found)
    (show subtreeSize store root < 4 by omega)
  exact ⟨rc', ran, by rw [counted, rootSize]; rfl⟩

theorem propagateInterval_eq_ok_of_cache {root : DomainHash} (tree : TreeLinks store root)
    (few : subtreeSize store root ≤ 2 ^ 64) (nodeStored : node ∈ store)
    (ordered : startOf store node ≤ endOf store node)
    (roomy : subtreeSize store node ≤ endOf store node - startOf store node + 1) {rc : ReindexContext}
    (right : CacheRight store rc.subTreeSizesCache) (closed : CacheClosed store rc.subTreeSizesCache)
    {fuel : Nat} (enough : subtreeSize store node < fuel) :
    ∃ rc' staged, propagateInterval store fuel rc node = some (.ok (rc', staged)) ∧
      PropagateInv store node [] staged ∧ CacheRight store rc'.subTreeSizesCache ∧
      CacheClosed store rc'.subTreeSizesCache := by
  obtain ⟨rc', counting, right', grows, cached⟩ := tree.countSubtrees_fills few nodeStored right closed enough
  have counted : ∀ y, Relation.ReflTransGen (TreeParent store) node y →
      rc'.subTreeSizesCache y = some (UInt64.ofNat (subtreeSize store y)) := fun y below =>
    right'.counted_below grows.closed (fun p c => (tree.linked p c).1) cached below
  obtain ⟨staged, ran, inv⟩ := loop_propagateIntervalStep tree nodeStored counted fuel ⟨[node], store⟩
    ⟨propagateInv_start ordered roomy, by simpa using enough⟩
  exact ⟨rc', staged, by simp [propagateInterval, counting, ran], inv, right', grows.closed⟩

section Children

variable {root : DomainHash} (tree : TreeLinks store root) (few : subtreeSize store root ≤ 2 ^ 64)
include tree few

theorem countChildrenSubtreesFrom_eq {fuel : Nat} :
    ∀ (children : List DomainHash) (sizes : List UInt64) (sum : UInt64) (rc : ReindexContext),
      CacheRight store rc.subTreeSizesCache → CacheClosed store rc.subTreeSizesCache →
      (∀ c ∈ children, c ∈ store ∧ subtreeSize store c < fuel) →
      ∃ rc', countChildrenSubtreesFrom store fuel sizes sum rc children =
          some (sizes ++ children.map (fun c => UInt64.ofNat (subtreeSize store c)),
            sum + UInt64.ofNat (children.map (subtreeSize store)).sum, rc') ∧
        CacheRight store rc'.subTreeSizesCache ∧ CacheGrows store rc.subTreeSizesCache rc'.subTreeSizesCache ∧
        ∀ c ∈ children, (rc'.subTreeSizesCache c).isSome := by
  intro children
  induction children with
  | nil =>
    intro sizes sum rc right closed _
    exact ⟨rc, by simp [countChildrenSubtreesFrom], right, ⟨fun _ kept => kept, closed⟩, by simp⟩
  | cons c children ih =>
    intro sizes sum rc right closed fits
    obtain ⟨cStored, cEnough⟩ := fits c List.mem_cons_self
    obtain ⟨rc₁, counted, right₁, grows₁, cached⟩ := tree.countSubtrees_fills few cStored right closed cEnough
    have size : (rc₁.subTreeSizesCache c).getD 0 = UInt64.ofNat (subtreeSize store c) := by
      obtain ⟨v, found⟩ := Option.isSome_iff_exists.1 cached
      rw [found, right₁ c v found]
      rfl
    obtain ⟨rc', rest, right', grows', cachedRest⟩ := ih (sizes ++ [UInt64.ofNat (subtreeSize store c)])
      (sum + UInt64.ofNat (subtreeSize store c)) rc₁ right₁ grows₁.closed
      fun c' mem => fits c' (List.mem_cons_of_mem c mem)
    refine ⟨rc', ?_, right', grows₁.trans grows', ?_⟩
    · simp only [countChildrenSubtreesFrom, counted, size, rest, List.map_cons, List.sum_cons,
        UInt64.ofNat_add, List.append_assoc, List.singleton_append, UInt64.add_assoc]
    · intro c' mem
      rcases List.mem_cons.1 mem with rfl | mem
      · exact grows'.keeps _ cached
      · exact cachedRest c' mem

/-- **countChildrenSubtrees.** On a tree of at most 2^64 blocks, from a right and closed cache,
    it returns the children's subtree sizes and their sum, with every block below them cached. -/
theorem countChildrenSubtrees_counts_subtrees {rc : ReindexContext}
    (right : CacheRight store rc.subTreeSizesCache) (closed : CacheClosed store rc.subTreeSizesCache)
    {children : List DomainHash} {fuel : Nat} (fits : ∀ c ∈ children, c ∈ store ∧ subtreeSize store c < fuel) :
    ∃ rc', countChildrenSubtrees store fuel rc children =
        some (children.map (fun c => UInt64.ofNat (subtreeSize store c)),
          UInt64.ofNat (children.map (subtreeSize store)).sum, rc') ∧
      CacheRight store rc'.subTreeSizesCache ∧ CacheClosed store rc'.subTreeSizesCache ∧
      ∀ c ∈ children, ∀ y, Relation.ReflTransGen (TreeParent store) c y →
        rc'.subTreeSizesCache y = some (UInt64.ofNat (subtreeSize store y)) := by
  obtain ⟨rc', ran, right', grows, cached⟩ := countChildrenSubtreesFrom_eq tree few children [] 0 rc right closed fits
  exact ⟨rc', by simpa [countChildrenSubtrees] using ran, right', grows.closed, fun c mem y below =>
    right'.counted_below grows.closed (fun p c => (tree.linked p c).1) (cached c mem) below⟩

end Children

set_option maxRecDepth 2000 in
/-- A root's two leaves, counted in an empty context, have one block each. -/
theorem countChildrenSubtrees_two_leaves :
    let root : DomainHash := ⟨0⟩
    let left : DomainHash := ⟨1⟩
    let right : DomainHash := ⟨2⟩
    let store : ReachabilityDataStore :=
      (((∅ : ReachabilityDataStore).insert right ⟨[], some root, ⟨101, 200⟩⟩).insert left
        ⟨[], some root, ⟨1, 100⟩⟩).insert root ⟨[left, right], none, ⟨1, 2 ^ 64 - 2⟩⟩
    ∃ rc', countChildrenSubtrees store 2 ⟨fun _ => none⟩ [left, right] = some ([1, 1], 2, rc') := by
  intro root left right store
  have wf : WellFormed store root := ⟨by decide, by decide, by decide, by decide, by decide⟩
  have leftSize : subtreeSize store left = 1 := by
    rw [wf.subtreeSize_eq (by decide), show childrenOf store left = [] by decide]
    rfl
  have rightSize : subtreeSize store right = 1 := by
    rw [wf.subtreeSize_eq (by decide), show childrenOf store right = [] by decide]
    rfl
  have rootSize : subtreeSize store root = 3 := by
    rw [wf.subtreeSize_eq (by decide), show childrenOf store root = [left, right] by decide]
    simp [leftSize, rightSize]
  have fits : ∀ c ∈ [left, right], c ∈ store ∧ subtreeSize store c < 2 := by
    intro c mem
    simp only [List.mem_cons, List.not_mem_nil, or_false] at mem
    rcases mem with rfl | rfl
    · exact ⟨by decide, by omega⟩
    · exact ⟨by decide, by omega⟩
  have right : CacheRight store (ReindexContext.subTreeSizesCache ⟨fun _ => none⟩) :=
    fun _ _ found => by cases found
  have closed : CacheClosed store (ReindexContext.subTreeSizesCache ⟨fun _ => none⟩) :=
    fun _ cached => by cases cached
  obtain ⟨rc', counted, -⟩ := countChildrenSubtrees_counts_subtrees wf.treeLinks (by omega) right closed fits
  refine ⟨rc', ?_⟩
  rw [counted]
  simp [leftSize, rightSize]

end ReachabilityManager
