import Htnd.SyncManager.BlockLocator
import Htnd.SyncManager.ChainOracles

/-!
The shape of block locators (syncmanager/blocklocator.go).

The headers-selected-chain locator walks down the indices of the headers selected chain, the step
doubling each turn: every index it lists is below the one before and above the low block's, and
the low block closes the list, so the indices fall strictly from the high block's to the low
block's. The index is a uint64 and so is the step; the step would wrap to zero after 64 doublings,
but 64 turns already cover every index.

The blue-score locator walks with LowestChainBlockAboveOrEqualToBlueScore, which stays on its
block when the next blue score falls in the gap between that block's blue score and its selected
parent's. GHOSTDAG makes such gaps: a block's blue score is its selected parent's plus the number
of its merge-set blues. The locator then lists that block again.
-/
namespace SyncManager
open GoSemantics Utxo

/-! ## The headers-selected-chain locator -/

structure HeadersSelectedChainStore where
  indexByHash : DomainHash → Option UInt64
  hashByIndex : UInt64 → Option DomainHash

structure HeadersSelectedChainStore.Chain (store : HeadersSelectedChainStore) : Prop where
  inverse : ∀ hash index, store.indexByHash hash = some index ↔ store.hashByIndex index = some hash
  downward : ∀ i j, j ≤ i → (store.hashByIndex i).isSome → (store.hashByIndex j).isSome

inductive HeadersLocatorError where
  | blockNotInSelectedParentChain (lowHash : DomainHash)
  | notFound (index : UInt64)
  | highHashLowerThanLowHash
  deriving DecidableEq, Repr

def HeadersLocatorError.message (hashText : DomainHash → String) : HeadersLocatorError → String
  | .blockNotInSelectedParentChain lowHash =>
    "LowHash " ++ hashText lowHash ++ " is not in selected parent chain: " ++
      "Block is not in selected parent chain"
  | .notFound index => "couldn't find chain block with index " ++ toString index ++ ": not found"
  | .highHashLowerThanLowHash => "cannot build block locator while highHash is lower than lowHash"

structure HeadersLocatorLoop where
  currentIndex : UInt64
  step : UInt64
  locator : List DomainHash

variable (store : HeadersSelectedChainStore)

def headersLocatorStep (lowHashIndex : UInt64) (s : HeadersLocatorLoop) :
    Option (Except HeadersLocatorError (HeadersLocatorLoop ⊕ List DomainHash)) :=
  if s.currentIndex > lowHashIndex then
    match store.hashByIndex s.currentIndex with
    | none => some (.error (.notFound s.currentIndex))
    | some blockHash =>
      let locator := s.locator ++ [blockHash]
      if s.currentIndex < s.step then some (.ok (.inr locator))
      else some (.ok (.inl ⟨s.currentIndex - s.step, s.step * 2, locator⟩))
  else some (.ok (.inr s.locator))

def createHeadersSelectedChainBlockLocator (genesisBlockHash : DomainHash) (fuel : Nat)
    (lowHash highHash : DomainHash) : Option (Except HeadersLocatorError (List DomainHash)) :=
  if highHash = genesisBlockHash ∧ lowHash = genesisBlockHash then some (.ok [genesisBlockHash])
  else
    match store.indexByHash lowHash with
    | none => some (.error (.blockNotInSelectedParentChain lowHash))
    | some lowHashIndex =>
      match store.indexByHash highHash with
      | none => some (.error (.blockNotInSelectedParentChain lowHash))
      | some highHashIndex =>
        if highHashIndex < lowHashIndex then some (.error .highHashLowerThanLowHash)
        else (loop (headersLocatorStep store lowHashIndex) fuel ⟨highHashIndex, 1, []⟩).map
          (Except.map (· ++ [lowHash]))

def IndexAbove (a b : DomainHash) : Prop :=
  ∃ i j, store.indexByHash a = some i ∧ store.indexByHash b = some j ∧ j < i

structure HeadersLocatorShape (lowHash highHash : DomainHash) (lowIndex highIndex : UInt64)
    (locator : List DomainHash) : Prop where
  head : locator.head? = some highHash
  last : locator.getLast? = some lowHash
  onChain : ∀ hash ∈ locator, ∃ i, store.indexByHash hash = some i ∧ lowIndex ≤ i ∧ i ≤ highIndex
  falling : locator.Pairwise (IndexAbove store)

/-- What the loop keeps after `k` turns: it has walked down `2^k - 1` indices from the high one
with the step at `2^k` (as a uint64), and listed blocks of the chain above the current and the
low index, at falling indices, starting with the high block. -/
structure HeadersLocatorInvariant (lowIndex highIndex : UInt64) (highHash : DomainHash) (k : Nat)
    (s : HeadersLocatorLoop) : Prop where
  walked : highIndex.toNat = s.currentIndex.toNat + (2 ^ k - 1)
  doubled : s.step.toNat = 2 ^ k % 2 ^ 64
  listed : ∀ hash ∈ s.locator, ∃ i, store.indexByHash hash = some i ∧ s.currentIndex < i ∧
    lowIndex < i ∧ i ≤ highIndex
  falling : s.locator.Pairwise (IndexAbove store)
  first : (k = 0 ∧ s.locator = []) ∨ s.locator.head? = some highHash

variable {store}

namespace HeadersSelectedChainStore.Chain

theorem hashByIndex_of_le (chain : store.Chain) {highIndex i : UInt64} {highHash : DomainHash}
    (highFound : store.hashByIndex highIndex = some highHash) (le : i ≤ highIndex) :
    ∃ hash, store.hashByIndex i = some hash ∧ store.indexByHash hash = some i := by
  obtain ⟨hash, found⟩ := Option.isSome_iff_exists.1
    (chain.downward highIndex i le (by simp [highFound]))
  exact ⟨hash, found, (chain.inverse hash i).2 found⟩

end HeadersSelectedChainStore.Chain

theorem headersLocatorShape_of_listed (chain : store.Chain) {lowHash highHash : DomainHash}
    {lowIndex highIndex : UInt64} {locator : List DomainHash}
    (lowFound : store.hashByIndex lowIndex = some lowHash)
    (highFound : store.hashByIndex highIndex = some highHash)
    (listed : ∀ hash ∈ locator, ∃ i, store.indexByHash hash = some i ∧ lowIndex < i ∧
      i ≤ highIndex)
    (falling : locator.Pairwise (IndexAbove store))
    (first : (locator = [] ∧ highIndex = lowIndex) ∨ locator.head? = some highHash)
    (le : lowIndex ≤ highIndex) :
    HeadersLocatorShape store lowHash highHash lowIndex highIndex (locator ++ [lowHash]) := by
  have lowIndexed := (chain.inverse lowHash lowIndex).2 lowFound
  refine ⟨?head, by simp, ?onChain, ?falling⟩
  case head =>
    rcases first with ⟨rfl, rfl⟩ | head
    · rw [highFound] at lowFound
      simp [Option.some.inj lowFound]
    · cases locator with
      | nil => simp at head
      | cons a rest => simpa using head
  case onChain =>
    intro hash mem
    rcases List.mem_append.1 mem with mem | mem
    · obtain ⟨i, indexed, above, below⟩ := listed hash mem
      exact ⟨i, indexed, UInt64.le_of_lt above, below⟩
    · rw [List.mem_singleton.1 mem]
      exact ⟨lowIndex, lowIndexed, UInt64.le_refl _, le⟩
  case falling =>
    refine List.pairwise_append.2 ⟨falling, List.pairwise_singleton _ _, fun a mem b lowMem => ?_⟩
    rw [List.mem_singleton.1 lowMem]
    obtain ⟨i, indexed, above, _⟩ := listed a mem
    exact ⟨i, lowIndex, indexed, lowIndexed, above⟩

theorem HeadersLocatorInvariant.turns_le {lowIndex highIndex : UInt64} {highHash : DomainHash}
    {k : Nat} {s : HeadersLocatorLoop}
    (invariant : HeadersLocatorInvariant store lowIndex highIndex highHash k s) : k ≤ 64 := by
  by_contra more
  have big : 2 ^ 65 ≤ 2 ^ k := Nat.pow_le_pow_right (by decide) (by omega)
  have fits := highIndex.toNat_lt
  have walked := invariant.walked
  omega

theorem headersLocatorStep_spec (chain : store.Chain) {lowHash highHash : DomainHash}
    {lowIndex highIndex : UInt64} (lowFound : store.hashByIndex lowIndex = some lowHash)
    (highFound : store.hashByIndex highIndex = some highHash) (le : lowIndex ≤ highIndex)
    {k : Nat} {s : HeadersLocatorLoop}
    (invariant : HeadersLocatorInvariant store lowIndex highIndex highHash k s) :
    (∃ locator, headersLocatorStep store lowIndex s = some (.ok (.inr locator)) ∧
      HeadersLocatorShape store lowHash highHash lowIndex highIndex (locator ++ [lowHash])) ∨
    ∃ s', headersLocatorStep store lowIndex s = some (.ok (.inl s')) ∧
      HeadersLocatorInvariant store lowIndex highIndex highHash (k + 1) s' := by
  have walked := invariant.walked
  by_cases above : s.currentIndex > lowIndex
  · -- the current index is listed: it holds a block, below the high index
    have atMost : s.currentIndex ≤ highIndex := by
      rw [UInt64.le_iff_toNat_le]
      omega
    obtain ⟨hash, found, indexed⟩ := chain.hashByIndex_of_le highFound atMost
    have listed : ∀ h ∈ s.locator ++ [hash], ∃ i, store.indexByHash h = some i ∧
        s.currentIndex ≤ i ∧ lowIndex < i ∧ i ≤ highIndex := by
      intro h mem
      rcases List.mem_append.1 mem with mem | mem
      · obtain ⟨i, indexed, current, low, high⟩ := invariant.listed h mem
        exact ⟨i, indexed, UInt64.le_of_lt current, low, high⟩
      · rw [List.mem_singleton.1 mem]
        exact ⟨s.currentIndex, indexed, UInt64.le_refl _, above, atMost⟩
    have falling : (s.locator ++ [hash]).Pairwise (IndexAbove store) := by
      refine List.pairwise_append.2 ⟨invariant.falling, List.pairwise_singleton _ _,
        fun a mem b hashMem => ?_⟩
      rw [List.mem_singleton.1 hashMem]
      obtain ⟨i, indexed', current, _⟩ := invariant.listed a mem
      exact ⟨i, s.currentIndex, indexed', indexed, current⟩
    have first : (s.locator ++ [hash]).head? = some highHash := by
      rcases invariant.first with ⟨rfl, empty⟩ | head
      · have same : s.currentIndex = highIndex := by
          rw [← UInt64.toNat_inj]
          simpa using walked.symm
        rw [same, highFound] at found
        simp [empty, Option.some.inj found]
      · cases locator : s.locator with
        | nil => rw [locator] at head; simp at head
        | cons a rest => rw [locator] at head; simpa using head
    by_cases last : s.currentIndex < s.step
    · left
      refine ⟨s.locator ++ [hash], by simp [headersLocatorStep, above, found, last], ?_⟩
      exact headersLocatorShape_of_listed chain lowFound highFound
        (fun h mem => (listed h mem).elim fun i ⟨indexed, _, low, high⟩ => ⟨i, indexed, low, high⟩)
        falling (.inr first) le
    · right
      -- a turn that goes round has a step of 2^k below 2^64, and doubles it
      have fewer : k < 64 := by
        by_contra more
        have big : 2 ^ 64 ≤ 2 ^ k := Nat.pow_le_pow_right (by decide) (by omega)
        have fits := highIndex.toNat_lt
        rw [gt_iff_lt, UInt64.lt_iff_toNat_lt] at above
        omega
      have stepValue : s.step.toNat = 2 ^ k := by
        rw [invariant.doubled, Nat.mod_eq_of_lt (Nat.pow_lt_pow_right (by decide) fewer)]
      have stepLe : s.step ≤ s.currentIndex := UInt64.not_lt.1 last
      have positive : 0 < 2 ^ k := Nat.two_pow_pos k
      refine ⟨⟨s.currentIndex - s.step, s.step * 2, s.locator ++ [hash]⟩,
        by simp [headersLocatorStep, above, found, last], ?_⟩
      have down : (s.currentIndex - s.step).toNat = s.currentIndex.toNat - 2 ^ k := by
        rw [UInt64.toNat_sub_of_le _ _ stepLe, stepValue]
      have le' := UInt64.le_iff_toNat_le.1 stepLe
      refine ⟨?walked, ?doubled, ?listed, falling, .inr first⟩
      case walked =>
        show highIndex.toNat = (s.currentIndex - s.step).toNat + (2 ^ (k + 1) - 1)
        rw [down, Nat.pow_succ]
        omega
      case doubled =>
        show (s.step * 2).toNat = 2 ^ (k + 1) % 2 ^ 64
        rw [UInt64.toNat_mul, stepValue, Nat.pow_succ]
        rfl
      case listed =>
        intro h mem
        obtain ⟨i, indexed, current, low, high⟩ := listed h mem
        refine ⟨i, indexed, ?_, low, high⟩
        show s.currentIndex - s.step < i
        rw [UInt64.lt_iff_toNat_lt, down]
        rw [UInt64.le_iff_toNat_le] at current
        omega
  · -- the walk is at or below the low index: the list is done
    left
    refine ⟨s.locator, by simp [headersLocatorStep, above], ?_⟩
    refine headersLocatorShape_of_listed chain lowFound highFound
      (fun h mem => (invariant.listed h mem).elim fun i ⟨indexed, _, low, high⟩ =>
        ⟨i, indexed, low, high⟩) invariant.falling ?_ le
    rcases invariant.first with ⟨rfl, empty⟩ | head
    · refine .inl ⟨empty, ?_⟩
      rw [UInt64.le_iff_toNat_le] at le
      rw [← UInt64.toNat_inj]
      rw [gt_iff_lt, UInt64.lt_iff_toNat_lt] at above
      simp at walked
      omega
    · exact .inr head

theorem headersLocatorInvariant_start (lowIndex highIndex : UInt64) (highHash : DomainHash) :
    HeadersLocatorInvariant store lowIndex highIndex highHash 0 ⟨highIndex, 1, []⟩ :=
  ⟨by simp, by simp, by simp, List.Pairwise.nil, .inl ⟨rfl, rfl⟩⟩

theorem createHeadersSelectedChainBlockLocator_shape (chain : store.Chain)
    (genesisBlockHash : DomainHash) {lowHash highHash : DomainHash} {lowIndex highIndex : UInt64}
    (lowIndexed : store.indexByHash lowHash = some lowIndex)
    (highIndexed : store.indexByHash highHash = some highIndex) (le : lowIndex ≤ highIndex)
    {fuel : Nat} (enough : 64 < fuel) :
    ∃ locator, createHeadersSelectedChainBlockLocator store genesisBlockHash fuel lowHash
        highHash = some (.ok locator) ∧
      HeadersLocatorShape store lowHash highHash lowIndex highIndex locator := by
  have lowFound := (chain.inverse lowHash lowIndex).1 lowIndexed
  have highFound := (chain.inverse highHash highIndex).1 highIndexed
  by_cases genesis : highHash = genesisBlockHash ∧ lowHash = genesisBlockHash
  · obtain ⟨rfl, same⟩ := genesis
    subst same
    rw [lowIndexed, Option.some.injEq] at highIndexed
    subst highIndexed
    refine ⟨[lowHash], by simp [createHeadersSelectedChainBlockLocator], by simp, by simp, ?_,
      List.pairwise_singleton _ _⟩
    intro hash mem
    rw [List.mem_singleton.1 mem]
    exact ⟨lowIndex, lowIndexed, UInt64.le_refl _, UInt64.le_refl _⟩
  · -- the walk leaves within 65 turns, with the invariant's list
    obtain ⟨locator, ran, shape⟩ := loop_eq_ok_of_bound
      (fun n s => ∃ k, HeadersLocatorInvariant store lowIndex highIndex highHash k s ∧ 65 ≤ n + k)
      (fun locator => HeadersLocatorShape store lowHash highHash lowIndex highIndex
        (locator ++ [lowHash]))
      (fun s ⟨k, invariant, turns⟩ => by have := invariant.turns_le; omega)
      (fun n s ⟨k, invariant, turns⟩ =>
        (headersLocatorStep_spec chain lowFound highFound le invariant).imp id
          fun ⟨s', next, invariant'⟩ => ⟨s', next, k + 1, invariant', by omega⟩)
      fuel ⟨highIndex, 1, []⟩ ⟨0, headersLocatorInvariant_start lowIndex highIndex highHash, by omega⟩
    refine ⟨locator ++ [lowHash], ?_, shape⟩
    simp only [createHeadersSelectedChainBlockLocator, if_neg genesis, lowIndexed, highIndexed,
      if_neg (UInt64.not_lt.2 le), ran]
    rfl

/-- The headers selected chain of three blocks, at indices 0, 1 and 2. -/
def threeBlockChain : HeadersSelectedChainStore where
  indexByHash hash :=
    if hash = ⟨0⟩ then some 0 else if hash = ⟨1⟩ then some 1 else if hash = ⟨2⟩ then some 2 else none
  hashByIndex index :=
    if index = 0 then some ⟨0⟩ else if index = 1 then some ⟨1⟩ else if index = 2 then some ⟨2⟩
    else none

theorem threeBlockChain_isSome (index : UInt64) :
    (threeBlockChain.hashByIndex index).isSome ↔ index.toNat < 3 := by
  simp only [threeBlockChain]
  split_ifs <;> simp_all [← UInt64.toNat_inj]
  omega

theorem threeBlockChain_chain : threeBlockChain.Chain where
  inverse hash index := by
    simp only [threeBlockChain]
    split_ifs <;> grind
  downward i j le some := by
    rw [threeBlockChain_isSome] at some ⊢
    have := UInt64.le_iff_toNat_le.1 le
    omega

theorem createHeadersSelectedChainBlockLocator_three_blocks :
    ∃ locator, createHeadersSelectedChainBlockLocator threeBlockChain ⟨0⟩ 65 ⟨0⟩ ⟨2⟩ =
        some (.ok locator) ∧ HeadersLocatorShape threeBlockChain ⟨0⟩ ⟨2⟩ 0 2 locator :=
  createHeadersSelectedChainBlockLocator_shape threeBlockChain_chain ⟨0⟩ rfl rfl (by decide)
    (by decide)

example : createHeadersSelectedChainBlockLocator threeBlockChain ⟨0⟩ 65 ⟨0⟩ ⟨2⟩ =
    some (.ok [⟨2⟩, ⟨1⟩, ⟨0⟩]) := by decide

/-! ## The blue-score locator on GHOSTDAG data -/

def locatorStore (gm : Ghostdag.GhostdagManager) (blockHash : DomainHash) :
    Option BlockGHOSTDAGData :=
  (gm.dataOf blockHash).map fun data => ⟨data.blueScore, data.selectedParent.getD gm.genesisHash⟩

/-- On the diamond, GHOSTDAG gives the top block blue score 3 over its selected parent's 1. The
locator from the top block down to the genesis, with no limit and the selected chains as the
chain test, lists the top block twice: the first step asks for blue score 2, and the walk down
stays on the top block. -/
theorem createBlockLocator_repeats_block :
    (do
      let gm ← Ghostdag.diamond.ghostdagRun 5 [⟨0⟩, ⟨1⟩, ⟨2⟩, ⟨3⟩]
      pure (createBlockLocator (locatorStore gm) gm.genesisHash
        (Manager.chainOracles gm 4 0).isInSelectedParentChainOf 4 ⟨0⟩ ⟨3⟩ 0) :
        Ghostdag.GhostdagM _) =
      pure (some (.ok [⟨3⟩, ⟨3⟩, ⟨2⟩, ⟨0⟩])) := by
  rfl

end SyncManager
