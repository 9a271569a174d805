import Mathlib.Data.Fintype.Pigeonhole
import Mathlib.Data.List.Perm.Basic
import Htnd.Lib.Recency
import Htnd.Utxo.Collection

/-!
The generic LRU cache of domain/consensus/utils/lrucache: a Go map from the 64-bit hash of a key
to an entry, and a container/list of the entries, the most recently used first. An entry is a
pointer shared by the map and its list element; here it is named by the number `id`, and found
through the map by that number in the list, which is where every pointer the map holds points
(`WellFormed.mapped`). The hash is a parameter, xxhash.Sum64 of the key's bytes in the source.

The map is keyed by the hash and not by the key. When two keys collide, Add overwrites the map's
slot and leaves the older entry in the list, so the cache keeps an entry that no Get can reach.
-/
namespace Lrucache
open Utxo (DomainHash)

variable {K V : Type}

structure Entry (K V : Type) where
  id : Nat
  key : K
  value : V

structure LRUCache (K V : Type) where
  cache : UInt64 → Option Nat
  lru : List (Entry K V)
  capacity : Int
  /-- the next entry's pointer -/
  fresh : Nat

/-- New: the preallocation flag only sizes the map. -/
def New (capacity : Int) : LRUCache K V := ⟨fun _ => none, [], capacity, 0⟩

def moveToFront (id : Nat) (l : List (Entry K V)) : List (Entry K V) :=
  match l.find? (·.id = id) with
  | some e => e :: l.filter (·.id ≠ id)
  | none => l

/-- The write e.value = value through the entry's pointer. -/
def setValue (id : Nat) (value : V) (l : List (Entry K V)) : List (Entry K V) :=
  l.map fun e => if e.id = id then { e with value } else e

def LRUCache.entry (c : LRUCache K V) (h : UInt64) : Option (Entry K V) :=
  (c.cache h).bind fun id => c.lru.find? (·.id = id)

/-! ### The list: finding an entry by its pointer, moving it, writing its value -/

section Entries
variable {l : List (Entry K V)} {i : Nat} {e : Entry K V}

theorem mem_of_find?_id (found : l.find? (·.id = i) = some e) : e ∈ l ∧ e.id = i :=
  ⟨List.mem_of_find?_eq_some found, by simpa using List.find?_some found⟩

theorem find?_id_of_mem (nodup : (l.map (·.id)).Nodup) (mem : e ∈ l) : l.find? (·.id = e.id) = some e := by
  obtain ⟨x, found⟩ : ∃ x, l.find? (·.id = e.id) = some x := by
    cases result : l.find? (·.id = e.id) with
    | some x => exact ⟨x, rfl⟩
    | none => exact absurd (List.find?_eq_none.1 result e mem) (by simp)
  obtain ⟨xMem, xID⟩ := mem_of_find?_id found
  rw [found, List.inj_on_of_nodup_map nodup xMem mem xID]

theorem moveToFront_perm (nodup : (l.map (·.id)).Nodup) : List.Perm (moveToFront i l) l := by
  induction l with
  | nil => rfl
  | cons x xs ih =>
    rw [List.map_cons, List.nodup_cons] at nodup
    by_cases here : x.id = i
    · have rest : xs.filter (·.id ≠ i) = xs := by
        rw [List.filter_eq_self]
        intro y mem
        rw [decide_eq_true_iff]
        intro same
        exact nodup.1 (List.mem_map.2 ⟨y, mem, by rw [same, here]⟩)
      unfold moveToFront
      rw [List.find?_cons_of_pos (by simpa using here), List.filter_cons_of_neg (by simpa using here),
        rest]
    · have moved := ih nodup.2
      unfold moveToFront at moved ⊢
      rw [List.find?_cons_of_neg (by simpa using here)]
      cases found : xs.find? (·.id = i) with
      | none => rfl
      | some y =>
        rw [found] at moved
        rw [List.filter_cons_of_pos (by simpa using here)]
        exact (List.Perm.swap x y _).trans (List.Perm.cons x moved)

theorem map_setValue {β : Type} (f : Entry K V → β) (keep : ∀ e (v : V), f { e with value := v } = f e)
    (v : V) : (setValue i v l).map f = l.map f := by
  simp only [setValue, List.map_map]
  apply List.map_congr_left
  intro e _
  by_cases here : e.id = i
  · rw [Function.comp_apply, if_pos here, keep]
  · rw [Function.comp_apply, if_neg here]

theorem mem_setValue {v : V} {x : Entry K V} (mem : x ∈ setValue i v l) :
    ∃ y ∈ l, y.id = x.id ∧ y.key = x.key := by
  obtain ⟨y, yMem, rfl⟩ := List.mem_map.1 mem
  refine ⟨y, yMem, ?_⟩
  by_cases here : y.id = i
  · rw [if_pos here]
    exact ⟨rfl, rfl⟩
  · rw [if_neg here]
    exact ⟨rfl, rfl⟩

theorem filter_setValue (v : V) : (setValue i v l).filter (·.id ≠ i) = l.filter (·.id ≠ i) := by
  induction l with
  | nil => rfl
  | cons x xs ih =>
    simp only [setValue] at ih ⊢
    by_cases here : x.id = i
    · rw [List.map_cons, if_pos here, List.filter_cons_of_neg (by simp [here]),
        List.filter_cons_of_neg (by simp [here])]
      exact ih
    · rw [List.map_cons, if_neg here, List.filter_cons_of_pos (by simp [here]),
        List.filter_cons_of_pos (by simp [here]), ih]

theorem find?_setValue (v : V) (found : l.find? (·.id = i) = some e) :
    (setValue i v l).find? (·.id = i) = some { e with value := v } := by
  induction l with
  | nil => cases found
  | cons x xs ih =>
    by_cases here : x.id = i
    · rw [List.find?_cons_of_pos (by simpa using here)] at found
      cases found
      simp [setValue, here]
    · rw [List.find?_cons_of_neg (by simpa using here)] at found
      simp only [setValue, List.map_cons, if_neg here]
      rw [List.find?_cons_of_neg (by simpa using here)]
      exact ih found

theorem map_moveToFront {β : Type} (f : Entry K V → β) (found : l.find? (·.id = i) = some e) :
    (moveToFront i l).map f = f e :: (l.filter (·.id ≠ i)).map f := by
  rw [moveToFront, found, List.map_cons]

end Entries

variable [DecidableEq K] (hash : K → UInt64)

def LRUCache.evict (c : LRUCache K V) : LRUCache K V :=
  if c.lru.length = 0 then c
  else
    match c.lru.getLast? with
    | none => c
    | some e => { c with lru := c.lru.dropLast, cache := Function.update c.cache (hash e.key) none }

/-- lru.PushFront of a new entry, and the map's slot pointed at it. -/
def LRUCache.push (c : LRUCache K V) (key : K) (value : V) : LRUCache K V :=
  { c with
    lru := ⟨c.fresh, key, value⟩ :: c.lru
    cache := Function.update c.cache (hash key) (some c.fresh)
    fresh := c.fresh + 1 }

def LRUCache.pushFront (c : LRUCache K V) (key : K) (value : V) : LRUCache K V :=
  let pushed := c.push hash key value
  if (pushed.lru.length : Int) > pushed.capacity then pushed.evict hash else pushed

def LRUCache.Add (c : LRUCache K V) (key : K) (value : V) : LRUCache K V :=
  match c.entry (hash key) with
  | some e =>
    if e.key = key then { c with lru := moveToFront e.id (setValue e.id value c.lru) }
    -- a collision: treated as new, the old entry stays until evicted
    else c.pushFront hash key value
  | none => c.pushFront hash key value

def LRUCache.Get (c : LRUCache K V) (key : K) : Option V × LRUCache K V :=
  match c.entry (hash key) with
  | none => (none, c)
  | some e =>
    if e.key ≠ key then (none, c)
    else (some e.value, { c with lru := moveToFront e.id c.lru })

def LRUCache.Has (c : LRUCache K V) (key : K) : Bool :=
  match c.entry (hash key) with
  | some e => e.key = key
  | none => false

def LRUCache.Remove (c : LRUCache K V) (key : K) : LRUCache K V :=
  match c.entry (hash key) with
  | some e =>
    if e.key ≠ key then c
    else { c with lru := c.lru.filter (·.id ≠ e.id), cache := Function.update c.cache (hash key) none }
  | none => c

def LRUCache.Clear (c : LRUCache K V) : LRUCache K V :=
  { c with cache := fun _ => none, lru := [] }

inductive Call (K V : Type) where
  | add (key : K) (value : V)
  | get (key : K)
  | has (key : K)
  | remove (key : K)
  | clear

def LRUCache.call (c : LRUCache K V) : Call K V → LRUCache K V
  | .add key value => c.Add hash key value
  | .get key => (c.Get hash key).2
  | .has _ => c
  | .remove key => c.Remove hash key
  | .clear => c.Clear

def LRUCache.run (c : LRUCache K V) (calls : List (Call K V)) : LRUCache K V :=
  calls.foldl (LRUCache.call hash) c

/-- The keys the map reaches: those of the entries its slots point to. -/
def LRUCache.MapReaches (c : LRUCache K V) (key : K) : Prop :=
  ∃ h e, c.entry h = some e ∧ e.key = key

/-! ### Well-formedness: pointers are fresh and distinct, and the map points into the list -/

/-- The list's entries and the map agree on pointers: each slot the map fills points to an
    element of the list whose key hashes to that slot. -/
structure LRUCache.Consistent (c : LRUCache K V) : Prop where
  fresh : ∀ e ∈ c.lru, e.id < c.fresh
  nodup : (c.lru.map (·.id)).Nodup
  mapped : ∀ h id, c.cache h = some id → (id, h) ∈ c.lru.map fun e => (e.id, hash e.key)

structure LRUCache.WellFormed (c : LRUCache K V) : Prop extends c.Consistent hash where
  bounded : c.lru.length ≤ c.capacity.toNat

variable {hash}
variable {c : LRUCache K V}

omit [DecidableEq K] in
theorem entry_eq_some (consistent : c.Consistent hash) {h : UInt64} {e : Entry K V}
    (found : c.entry h = some e) : e ∈ c.lru ∧ c.cache h = some e.id ∧ hash e.key = h := by
  obtain ⟨id, slot, inList⟩ := Option.bind_eq_some_iff.1 found
  obtain ⟨mem, rfl⟩ := mem_of_find?_id inList
  obtain ⟨x, xMem, same⟩ := List.mem_map.1 (consistent.mapped h e.id slot)
  obtain ⟨xID, xHash⟩ := Prod.mk.inj same
  rw [← List.inj_on_of_nodup_map consistent.nodup xMem mem xID]
  exact ⟨xMem, by rw [slot, xID], xHash⟩

omit [DecidableEq K] in
theorem LRUCache.Consistent.evict (consistent : c.Consistent hash) : (c.evict hash).Consistent hash := by
  unfold LRUCache.evict
  split
  · exact consistent
  split
  · exact consistent
  rename_i e last
  have split : c.lru = c.lru.dropLast ++ [e] := (List.dropLast_append_getLast? e last).symm
  refine ⟨fun x mem => consistent.fresh x (List.dropLast_subset _ mem), ?_, ?_⟩
  · rw [List.map_dropLast]
    exact consistent.nodup.sublist (List.dropLast_sublist _)
  · intro h id slot
    have other : h ≠ hash e.key := by
      intro same
      simp [same] at slot
    dsimp only at slot ⊢
    rw [Function.update_of_ne other] at slot
    have mem := consistent.mapped h id slot
    rw [split, List.map_append, List.mem_append] at mem
    rcases mem with kept | dropped
    · exact kept
    · simp only [List.map_cons, List.map_nil, List.mem_singleton, Prod.mk.injEq] at dropped
      exact absurd dropped.2 other

omit [DecidableEq K] in
@[simp] theorem capacity_evict (c : LRUCache K V) : (c.evict hash).capacity = c.capacity := by
  unfold LRUCache.evict
  split
  · rfl
  split <;> rfl

omit [DecidableEq K] in
theorem length_evict (c : LRUCache K V) : (c.evict hash).lru.length = c.lru.length - 1 := by
  unfold LRUCache.evict
  split
  · omega
  split
  · rename_i nonempty _ none
    exact absurd (List.getLast?_eq_none_iff.1 none) (by simpa using nonempty)
  · simp

omit [DecidableEq K] in
theorem LRUCache.Consistent.push (consistent : c.Consistent hash) (key : K) (value : V) :
    (c.push hash key value).Consistent hash := by
  refine ⟨?_, ?_, ?_⟩
  · intro e mem
    rcases List.mem_cons.1 mem with rfl | old
    · exact Nat.lt_succ_self _
    · exact Nat.lt_succ_of_lt (consistent.fresh e old)
  · rw [LRUCache.push, List.map_cons, List.nodup_cons]
    refine ⟨fun mem => ?_, consistent.nodup⟩
    obtain ⟨e, eMem, same⟩ := List.mem_map.1 mem
    exact absurd (consistent.fresh e eMem) (by simp [same])
  · intro h id slot
    by_cases here : h = hash key
    · subst here
      simp only [LRUCache.push, Function.update_self, Option.some.injEq] at slot
      simp [LRUCache.push, slot]
    · simp only [LRUCache.push] at slot ⊢
      rw [Function.update_of_ne here] at slot
      exact List.mem_cons_of_mem _ (consistent.mapped h id slot)

omit [DecidableEq K] in
theorem LRUCache.WellFormed.pushFront (wf : c.WellFormed hash) (key : K) (value : V) :
    (c.pushFront hash key value).WellFormed hash := by
  have consistent := wf.toConsistent.push key value
  have bound := wf.bounded
  unfold LRUCache.pushFront
  dsimp only
  split
  · rename_i overflow
    refine ⟨consistent.evict, ?_⟩
    rw [length_evict, capacity_evict]
    simp only [LRUCache.push, List.length_cons] at overflow ⊢
    omega
  · rename_i within
    refine ⟨consistent, ?_⟩
    simp only [LRUCache.push, List.length_cons, gt_iff_lt, not_lt] at within ⊢
    omega

omit [DecidableEq K] in
theorem LRUCache.Consistent.reorder (consistent : c.Consistent hash) {l : List (Entry K V)}
    (perm : List.Perm (l.map fun e => (e.id, hash e.key)) (c.lru.map fun e => (e.id, hash e.key))) :
    LRUCache.Consistent hash { c with lru := l } := by
  have ids : List.Perm (l.map (·.id)) (c.lru.map (·.id)) := by
    have firsts := perm.map Prod.fst
    simp only [List.map_map] at firsts
    exact firsts
  refine ⟨?_, ids.nodup_iff.2 consistent.nodup, ?_⟩
  · intro e mem
    obtain ⟨x, xMem, same⟩ := List.mem_map.1 (ids.subset (List.mem_map_of_mem mem))
    rw [← same]
    exact consistent.fresh x xMem
  · intro h id slot
    exact perm.symm.subset (consistent.mapped h id slot)

omit [DecidableEq K] in
theorem LRUCache.WellFormed.moveToFront (wf : c.WellFormed hash) (i : Nat) :
    LRUCache.WellFormed hash { c with lru := Lrucache.moveToFront i c.lru } := by
  have perm := moveToFront_perm (i := i) wf.nodup
  exact ⟨wf.reorder (perm.map _), perm.length_eq ▸ wf.bounded⟩

omit [DecidableEq K] in
theorem LRUCache.WellFormed.setValue (wf : c.WellFormed hash) (i : Nat) (v : V) :
    LRUCache.WellFormed hash { c with lru := Lrucache.setValue i v c.lru } := by
  refine ⟨wf.reorder ?_, ?_⟩
  · rw [map_setValue _ (fun _ _ => rfl) v]
  · rw [Lrucache.setValue, List.length_map]
    exact wf.bounded

theorem LRUCache.WellFormed.Add (wf : c.WellFormed hash) (key : K) (value : V) :
    (c.Add hash key value).WellFormed hash := by
  unfold LRUCache.Add
  split
  · split
    · exact (wf.setValue _ value).moveToFront _
    · exact wf.pushFront key value
  · exact wf.pushFront key value

theorem LRUCache.WellFormed.Get (wf : c.WellFormed hash) (key : K) :
    (c.Get hash key).2.WellFormed hash := by
  unfold LRUCache.Get
  split
  · exact wf
  split
  · exact wf
  · exact wf.moveToFront _

theorem LRUCache.WellFormed.Remove (wf : c.WellFormed hash) (key : K) :
    (c.Remove hash key).WellFormed hash := by
  unfold LRUCache.Remove
  split
  · split
    · exact wf
    rename_i e found _
    obtain ⟨mem, -, slotHash⟩ := entry_eq_some wf.toConsistent found
    refine ⟨⟨fun x xMem => wf.fresh x (List.mem_of_mem_filter xMem), ?_, ?_⟩, ?_⟩
    · exact wf.nodup.sublist (List.filter_sublist.map _)
    · intro h id slot
      dsimp only at slot ⊢
      by_cases here : h = hash key
      · simp [here] at slot
      rw [Function.update_of_ne here] at slot
      obtain ⟨x, xMem, same⟩ := List.mem_map.1 (wf.mapped h id slot)
      obtain ⟨rfl, xHash⟩ := Prod.mk.inj same
      refine List.mem_map.2 ⟨x, List.mem_filter.2 ⟨xMem, ?_⟩, by rw [xHash]⟩
      rw [decide_eq_true_iff]
      intro sameID
      rw [List.inj_on_of_nodup_map wf.nodup xMem mem sameID, slotHash] at xHash
      exact here xHash.symm
    · exact le_trans (List.length_filter_le _ _) wf.bounded
  · exact wf

omit [DecidableEq K] in
theorem LRUCache.WellFormed.Clear (c : LRUCache K V) : c.Clear.WellFormed hash :=
  ⟨⟨by simp [LRUCache.Clear], by simp [LRUCache.Clear], by simp [LRUCache.Clear]⟩,
    by simp [LRUCache.Clear]⟩

omit [DecidableEq K] in
theorem wellFormed_New (capacity : Int) : (New capacity : LRUCache K V).WellFormed hash :=
  ⟨⟨by simp [New], by simp [New], by simp [New]⟩, by simp [New]⟩

theorem LRUCache.WellFormed.call (wf : c.WellFormed hash) (call : Call K V) :
    (c.call hash call).WellFormed hash := by
  cases call with
  | add key value => exact wf.Add key value
  | get key => exact wf.Get key
  | has key => exact wf
  | remove key => exact wf.Remove key
  | clear => exact LRUCache.WellFormed.Clear c

theorem LRUCache.WellFormed.run (wf : c.WellFormed hash) (calls : List (Call K V)) :
    (c.run hash calls).WellFormed hash := by
  induction calls generalizing c with
  | nil => exact wf
  | cons call calls ih => exact ih (wf.call call)

/-! ### What each branch of Add does -/

omit [DecidableEq K] in
theorem pushFront_of_room {c : LRUCache K V} (key : K) (value : V)
    (room : (c.lru.length : Int) + 1 ≤ c.capacity) :
    c.pushFront hash key value = c.push hash key value := by
  unfold LRUCache.pushFront
  dsimp only
  rw [if_neg (by simp only [LRUCache.push, List.length_cons]; omega)]

theorem Add_of_entry_none {c : LRUCache K V} {key : K} (value : V) (empty : c.entry (hash key) = none) :
    c.Add hash key value = c.pushFront hash key value := by
  rw [LRUCache.Add, empty]

theorem Add_of_entry_ne {c : LRUCache K V} {key : K} (value : V) {e : Entry K V}
    (found : c.entry (hash key) = some e) (other : e.key ≠ key) :
    c.Add hash key value = c.pushFront hash key value := by
  rw [LRUCache.Add, found]
  exact if_neg other

theorem Add_of_entry_eq {c : LRUCache K V} {key : K} (value : V) {e : Entry K V}
    (found : c.entry (hash key) = some e) (same : e.key = key) :
    c.Add hash key value = { c with lru := moveToFront e.id (setValue e.id value c.lru) } := by
  rw [LRUCache.Add, found]
  exact if_pos same

/-! ### Without colliding keys, the cache is a recency list -/

def LRUCache.view (c : LRUCache K V) : List (K × V) := c.lru.map fun e => (e.key, e.value)

omit [DecidableEq K] in
@[simp] theorem view_mk (cache : UInt64 → Option Nat) (lru : List (Entry K V)) (capacity : Int)
    (fresh : Nat) : LRUCache.view ⟨cache, lru, capacity, fresh⟩ = lru.map fun e => (e.key, e.value) := rfl

theorem lookup_map {l : List (Entry K V)} (key : K) :
    (l.map fun e => (e.key, e.value)).lookup key = (l.find? (·.key = key)).map (·.value) := by
  induction l with
  | nil => rfl
  | cons x xs ih =>
    by_cases here : x.key = key
    · rw [List.map_cons, List.find?_cons_of_pos (by simpa using here), here]
      simp
    · rw [List.map_cons, List.find?_cons_of_neg (by simpa using here),
        Recency.lookup_cons_of_ne _ (Ne.symm here), ih]

def recencyCall (capacity : Int) : Call K V → List (K × V) → List (K × V)
  | .add key value, l => Recency.put capacity.toNat key value l
  | .get key, l => (Recency.get key l).2
  | .has _, l => l
  | .remove key, l => Recency.erase key l
  | .clear, _ => []

def Call.key? : Call K V → Option K
  | .add key _ => some key
  | .get key => some key
  | .has key => some key
  | .remove key => some key
  | .clear => none

omit [DecidableEq K] in
@[simp] theorem capacity_pushFront (c : LRUCache K V) (key : K) (value : V) :
    (c.pushFront hash key value).capacity = c.capacity := by
  unfold LRUCache.pushFront
  dsimp only
  split
  · rw [capacity_evict]
    rfl
  · rfl

theorem capacity_Add (c : LRUCache K V) (key : K) (value : V) :
    (c.Add hash key value).capacity = c.capacity := by
  unfold LRUCache.Add
  split
  · split
    · rfl
    · exact capacity_pushFront c key value
  · exact capacity_pushFront c key value

theorem capacity_Get (c : LRUCache K V) (key : K) : (c.Get hash key).2.capacity = c.capacity := by
  unfold LRUCache.Get
  split
  · rfl
  · split <;> rfl

theorem capacity_Remove (c : LRUCache K V) (key : K) : (c.Remove hash key).capacity = c.capacity := by
  unfold LRUCache.Remove
  split
  · split <;> rfl
  · rfl

theorem capacity_call (c : LRUCache K V) (call : Call K V) : (c.call hash call).capacity = c.capacity := by
  cases call with
  | add key value => exact capacity_Add c key value
  | get key => exact capacity_Get c key
  | has key => rfl
  | remove key => exact capacity_Remove c key
  | clear => rfl

theorem capacity_run (c : LRUCache K V) (calls : List (Call K V)) :
    (c.run hash calls).capacity = c.capacity := by
  induction calls generalizing c with
  | nil => rfl
  | cons call calls ih => exact (ih (c.call hash call)).trans (capacity_call c call)

section Agreement
variable {S : Set K}

variable (hash) in
structure LRUCache.Agree (S : Set K) (c : LRUCache K V) : Prop extends c.WellFormed hash where
  slot : ∀ e ∈ c.lru, c.cache (hash e.key) = some e.id
  keys : ∀ e ∈ c.lru, e.key ∈ S

omit [DecidableEq K] in
theorem LRUCache.Agree.id_eq_iff (agree : c.Agree hash S) {x e : Entry K V} (xMem : x ∈ c.lru)
    (eMem : e ∈ c.lru) : x.id = e.id ↔ x.key = e.key := by
  constructor
  · intro same
    rw [List.inj_on_of_nodup_map agree.nodup xMem eMem same]
  · intro same
    have slots := agree.slot x xMem
    rw [same, agree.slot e eMem, Option.some.injEq] at slots
    exact slots.symm

theorem LRUCache.Agree.view_filter (agree : c.Agree hash S) {e : Entry K V} (eMem : e ∈ c.lru) :
    (c.lru.filter (·.id ≠ e.id)).map (fun x => (x.key, x.value)) = Recency.erase e.key c.view := by
  rw [LRUCache.view, Recency.erase, List.filter_map]
  congr 1
  apply List.filter_congr
  intro x xMem
  simp [agree.id_eq_iff xMem eMem]

omit [DecidableEq K] in
theorem evict_of_getLast? {c : LRUCache K V} {e : Entry K V} (last : c.lru.getLast? = some e) :
    c.evict hash = { c with lru := c.lru.dropLast, cache := Function.update c.cache (hash e.key) none } := by
  have nonempty : c.lru.length ≠ 0 := by
    intro empty
    rw [List.length_eq_zero_iff.1 empty] at last
    cases last
  rw [LRUCache.evict, if_neg nonempty, last]

omit [DecidableEq K] in
theorem evict_of_getLast?_eq_none {c : LRUCache K V} (last : c.lru.getLast? = none) : c.evict hash = c := by
  rw [LRUCache.evict, if_pos (by simp [List.getLast?_eq_none_iff.1 last])]

omit [DecidableEq K] in
theorem view_evict (c : LRUCache K V) : (c.evict hash).view = c.view.dropLast := by
  cases last : c.lru.getLast? with
  | none => simp [evict_of_getLast?_eq_none last, LRUCache.view, List.getLast?_eq_none_iff.1 last]
  | some e => simp only [evict_of_getLast? last, LRUCache.view, List.map_dropLast]

omit [DecidableEq K] in
theorem mem_of_mem_evict {c : LRUCache K V} {e : Entry K V} (mem : e ∈ (c.evict hash).lru) : e ∈ c.lru := by
  cases last : c.lru.getLast? with
  | none => rwa [evict_of_getLast?_eq_none last] at mem
  | some l =>
    rw [evict_of_getLast? last] at mem
    exact List.dropLast_subset _ mem

variable (inj : Set.InjOn hash S)
include inj

omit [DecidableEq K] in
theorem slot_evict (consistent : c.Consistent hash) (slot : ∀ e ∈ c.lru, c.cache (hash e.key) = some e.id)
    (keys : ∀ e ∈ c.lru, e.key ∈ S) :
    ∀ e ∈ (c.evict hash).lru, (c.evict hash).cache (hash e.key) = some e.id := by
  cases last : c.lru.getLast? with
  | none =>
    rw [evict_of_getLast?_eq_none last]
    exact slot
  | some l =>
    rw [evict_of_getLast? last]
    intro x mem
    have lMem : l ∈ c.lru := List.mem_of_getLast? last
    have xMem : x ∈ c.lru := List.dropLast_subset _ mem
    have distinct : x.id ≠ l.id := by
      have nodup := consistent.nodup
      rw [← List.dropLast_append_getLast? l last, List.map_append, List.nodup_append] at nodup
      exact nodup.2.2 x.id (List.mem_map_of_mem mem) l.id (by simp)
    have keyNe : x.key ≠ l.key := by
      intro same
      have slots := slot x xMem
      rw [same, slot l lMem, Option.some.injEq] at slots
      exact distinct slots.symm
    have hashNe : hash x.key ≠ hash l.key := fun same => keyNe (inj (keys x xMem) (keys l lMem) same)
    simp only
    rw [Function.update_of_ne hashNe]
    exact slot x xMem

theorem LRUCache.Agree.entry_eq (agree : c.Agree hash S) {key : K} (keyIn : key ∈ S) :
    c.entry (hash key) = c.lru.find? (·.key = key) := by
  cases found : c.lru.find? (·.key = key) with
  | some e =>
    have mem := List.mem_of_find?_eq_some found
    have same : e.key = key := by simpa using List.find?_some found
    rw [LRUCache.entry, ← same, agree.slot e mem, Option.bind_some, find?_id_of_mem agree.nodup mem]
  | none =>
    cases slot : c.entry (hash key) with
    | none => rfl
    | some x =>
      obtain ⟨mem, -, xHash⟩ := entry_eq_some agree.toConsistent slot
      have same := inj (agree.keys x mem) keyIn xHash
      exact absurd (List.find?_eq_none.1 found x mem) (by simp [same])

omit [DecidableEq K] inj in
theorem LRUCache.Agree.moveToFront (agree : c.Agree hash S) (i : Nat) :
    LRUCache.Agree hash S { c with lru := Lrucache.moveToFront i c.lru } := by
  have perm := moveToFront_perm (i := i) agree.nodup
  exact ⟨agree.toWellFormed.moveToFront i, fun e mem => agree.slot e (perm.subset mem),
    fun e mem => agree.keys e (perm.subset mem)⟩

omit [DecidableEq K] inj in
theorem LRUCache.Agree.setValue (agree : c.Agree hash S) (i : Nat) (v : V) :
    LRUCache.Agree hash S { c with lru := Lrucache.setValue i v c.lru } := by
  refine ⟨agree.toWellFormed.setValue i v, ?_, ?_⟩
  · intro x mem
    obtain ⟨y, yMem, sameID, sameKey⟩ := mem_setValue mem
    rw [← sameKey, ← sameID]
    exact agree.slot y yMem
  · intro x mem
    obtain ⟨y, yMem, -, sameKey⟩ := mem_setValue mem
    rw [← sameKey]
    exact agree.keys y yMem

theorem LRUCache.Agree.Get (agree : c.Agree hash S) {key : K} (keyIn : key ∈ S) :
    (c.Get hash key).1 = c.view.lookup key ∧ (c.Get hash key).2.view = (Recency.get key c.view).2 ∧
      (c.Get hash key).2.Agree hash S := by
  rw [LRUCache.Get, agree.entry_eq inj keyIn]
  cases found : c.lru.find? (·.key = key) with
  | none =>
    have absent : c.view.lookup key = none := by
      rw [LRUCache.view, lookup_map, found]
      rfl
    refine ⟨absent.symm, ?_, agree⟩
    simp [Recency.get, absent]
  | some e =>
    have mem := List.mem_of_find?_eq_some found
    have same : e.key = key := by simpa using List.find?_some found
    have present : c.view.lookup key = some e.value := by
      rw [LRUCache.view, lookup_map, found]
      rfl
    simp only [same, ne_eq, not_true_eq_false, if_false]
    refine ⟨present.symm, ?_, agree.moveToFront e.id⟩
    show (Lrucache.moveToFront e.id c.lru).map (fun x => (x.key, x.value)) = (Recency.get key c.view).2
    rw [map_moveToFront _ (find?_id_of_mem agree.nodup mem), agree.view_filter mem, same]
    simp only [Recency.get, present]

theorem LRUCache.Agree.push (agree : c.Agree hash S) {key : K} (keyIn : key ∈ S)
    (absent : c.lru.find? (·.key = key) = none) (value : V) :
    (∀ e ∈ (c.push hash key value).lru, (c.push hash key value).cache (hash e.key) = some e.id) ∧
      ∀ e ∈ (c.push hash key value).lru, e.key ∈ S := by
  constructor
  · intro x mem
    rcases List.mem_cons.1 mem with rfl | old
    · simp [LRUCache.push]
    · have keyNe : x.key ≠ key := by simpa using List.find?_eq_none.1 absent x old
      have hashNe : hash x.key ≠ hash key := fun same => keyNe (inj (agree.keys x old) keyIn same)
      simp only [LRUCache.push]
      rw [Function.update_of_ne hashNe]
      exact agree.slot x old
  · intro x mem
    rcases List.mem_cons.1 mem with rfl | old
    · exact keyIn
    · exact agree.keys x old

theorem LRUCache.Agree.pushFront (agree : c.Agree hash S) {key : K} (keyIn : key ∈ S)
    (absent : c.lru.find? (·.key = key) = none) (value : V) :
    (c.pushFront hash key value).view = ((key, value) :: c.view).take c.capacity.toNat ∧
      (c.pushFront hash key value).Agree hash S := by
  have wf := agree.toWellFormed.pushFront key value
  have consistent := agree.toConsistent.push key value
  obtain ⟨slot, keys⟩ := agree.push inj keyIn absent value
  have bound := agree.bounded
  have pushedView : (c.push hash key value).view = (key, value) :: c.view := rfl
  have length : c.view.length = c.lru.length := List.length_map _
  by_cases overflow : ((c.push hash key value).lru.length : Int) > (c.push hash key value).capacity
  · have evicted : c.pushFront hash key value = (c.push hash key value).evict hash := if_pos overflow
    rw [evicted] at wf ⊢
    refine ⟨?_, ⟨wf, slot_evict inj consistent slot keys, fun e mem => keys e (mem_of_mem_evict mem)⟩⟩
    simp only [LRUCache.push, List.length_cons] at overflow
    rw [view_evict, pushedView, List.dropLast_eq_take, List.length_cons]
    congr 1
    omega
  · have kept : c.pushFront hash key value = c.push hash key value := if_neg overflow
    rw [kept] at wf ⊢
    refine ⟨?_, ⟨wf, slot, keys⟩⟩
    simp only [LRUCache.push, List.length_cons] at overflow
    rw [pushedView, List.take_of_length_le (by simp only [List.length_cons]; omega)]

theorem LRUCache.Agree.Add (agree : c.Agree hash S) {key : K} (keyIn : key ∈ S) (value : V) :
    (c.Add hash key value).view = Recency.put c.capacity.toNat key value c.view ∧
      (c.Add hash key value).Agree hash S := by
  cases found : c.lru.find? (·.key = key) with
  | none =>
    have empty : c.entry (hash key) = none := by rw [agree.entry_eq inj keyIn, found]
    have absent : c.view.lookup key = none := by
      rw [LRUCache.view, lookup_map, found]
      rfl
    rw [Add_of_entry_none value empty, Recency.put, Recency.erase_of_lookup_eq_none absent]
    exact agree.pushFront inj keyIn found value
  | some e =>
    have mem := List.mem_of_find?_eq_some found
    have same : e.key = key := by simpa using List.find?_some found
    have slot : c.entry (hash key) = some e := by rw [agree.entry_eq inj keyIn, found]
    have shorter : (c.lru.filter (·.id ≠ e.id)).length < c.lru.length :=
      List.length_filter_lt_length_iff_exists.2 ⟨e, mem, by simp⟩
    have bound := agree.bounded
    rw [Add_of_entry_eq value slot same]
    refine ⟨?_, (agree.setValue e.id value).moveToFront e.id⟩
    show (Lrucache.moveToFront e.id (Lrucache.setValue e.id value c.lru)).map
      (fun x => (x.key, x.value)) = _
    rw [map_moveToFront _ (find?_setValue value (find?_id_of_mem agree.nodup mem)), filter_setValue,
      agree.view_filter mem, same, Recency.put, List.take_of_length_le]
    rw [List.length_cons, ← same, ← agree.view_filter mem, List.length_map]
    omega

theorem LRUCache.Agree.Remove (agree : c.Agree hash S) {key : K} (keyIn : key ∈ S) :
    (c.Remove hash key).view = Recency.erase key c.view ∧ (c.Remove hash key).Agree hash S := by
  have wf := agree.toWellFormed.Remove key
  cases found : c.lru.find? (·.key = key) with
  | none =>
    have absent : c.view.lookup key = none := by
      rw [LRUCache.view, lookup_map, found]
      rfl
    have unchanged : c.Remove hash key = c := by
      rw [LRUCache.Remove, agree.entry_eq inj keyIn, found]
    rw [unchanged, Recency.erase_of_lookup_eq_none absent]
    exact ⟨rfl, agree⟩
  | some e =>
    have mem := List.mem_of_find?_eq_some found
    have same : e.key = key := by simpa using List.find?_some found
    have removed : c.Remove hash key =
        { c with lru := c.lru.filter (·.id ≠ e.id), cache := Function.update c.cache (hash key) none } := by
      rw [LRUCache.Remove, agree.entry_eq inj keyIn, found]
      exact if_neg (not_not.2 same)
    rw [removed] at wf ⊢
    refine ⟨by rw [← same]; exact agree.view_filter mem, wf, ?_, ?_⟩
    · intro x xMem
      obtain ⟨old, other⟩ := List.mem_filter.1 xMem
      have keyNe : x.key ≠ key := by
        rw [← same, ne_eq, ← agree.id_eq_iff old mem]
        simpa using other
      have hashNe : hash x.key ≠ hash key := fun equal => keyNe (inj (agree.keys x old) keyIn equal)
      simp only
      rw [Function.update_of_ne hashNe]
      exact agree.slot x old
    · intro x xMem
      exact agree.keys x (List.mem_of_mem_filter xMem)

theorem LRUCache.Agree.Has (agree : c.Agree hash S) {key : K} (keyIn : key ∈ S) :
    c.Has hash key = (c.view.lookup key).isSome := by
  rw [LRUCache.Has, agree.entry_eq inj keyIn, LRUCache.view, lookup_map]
  cases found : c.lru.find? (·.key = key) with
  | none => rfl
  | some e => simpa using List.find?_some found

omit [DecidableEq K] inj in
theorem LRUCache.Agree.Clear (c : LRUCache K V) : c.Clear.Agree hash S :=
  ⟨LRUCache.WellFormed.Clear c, by simp [LRUCache.Clear], by simp [LRUCache.Clear]⟩

theorem LRUCache.Agree.call (agree : c.Agree hash S) (call : Call K V)
    (keyIn : ∀ key ∈ call.key?, key ∈ S) :
    (c.call hash call).view = recencyCall c.capacity call c.view ∧ (c.call hash call).Agree hash S := by
  cases call with
  | add key value => exact agree.Add inj (keyIn key rfl) value
  | get key =>
    obtain ⟨-, view, agreed⟩ := agree.Get inj (keyIn key rfl)
    exact ⟨view, agreed⟩
  | has key => exact ⟨rfl, agree⟩
  | remove key => exact agree.Remove inj (keyIn key rfl)
  | clear => exact ⟨rfl, LRUCache.Agree.Clear c⟩

theorem LRUCache.Agree.run (agree : c.Agree hash S) (calls : List (Call K V))
    (keysIn : ∀ call ∈ calls, ∀ key ∈ call.key?, key ∈ S) :
    (c.run hash calls).view = calls.foldl (fun l call => recencyCall c.capacity call l) c.view ∧
      (c.run hash calls).Agree hash S := by
  induction calls generalizing c with
  | nil => exact ⟨rfl, agree⟩
  | cons call calls ih =>
    obtain ⟨view, agreed⟩ := agree.call inj call (keysIn call List.mem_cons_self)
    obtain ⟨viewRun, agreedRun⟩ := ih agreed (fun other mem => keysIn other (List.mem_cons_of_mem _ mem))
    rw [capacity_call, view] at viewRun
    exact ⟨viewRun, agreedRun⟩

omit [DecidableEq K] inj in
theorem LRUCache.Agree.mapReaches_iff (agree : c.Agree hash S) (key : K) :
    c.MapReaches key ↔ key ∈ c.lru.map (·.key) := by
  constructor
  · rintro ⟨h, e, found, rfl⟩
    exact List.mem_map_of_mem (entry_eq_some agree.toConsistent found).1
  · intro mem
    obtain ⟨e, eMem, rfl⟩ := List.mem_map.1 mem
    refine ⟨hash e.key, e, ?_, rfl⟩
    rw [LRUCache.entry, agree.slot e eMem, Option.bind_some, find?_id_of_mem agree.nodup eMem]

end Agreement

omit [DecidableEq K] in
theorem agree_New (S : Set K) (capacity : Int) : (New capacity : LRUCache K V).Agree hash S :=
  ⟨wellFormed_New capacity, by simp [New], by simp [New]⟩

theorem lru_cache_without_collisions {S : Set K} (inj : Set.InjOn hash S) (capacity : Int)
    (calls : List (Call K V)) (keysIn : ∀ call ∈ calls, ∀ key ∈ call.key?, key ∈ S) :
    let c := (New capacity).run hash calls
    c.view = calls.foldl (fun l call => recencyCall capacity call l) [] ∧
      c.lru.length ≤ capacity.toNat ∧
      (∀ key, c.MapReaches key ↔ key ∈ c.lru.map (·.key)) ∧
      ∀ key ∈ S, (c.Get hash key).1 = c.view.lookup key := by
  intro c
  obtain ⟨view, agree⟩ := (agree_New S capacity).run inj calls keysIn
  have bounded := agree.bounded
  rw [capacity_run] at bounded
  exact ⟨view, bounded, agree.mapReaches_iff, fun key keyIn => (agree.Get inj keyIn).1⟩

theorem lru_cache_keeps_recency (capacity : Int) (calls : List (Call K V)) :
    let c := (New capacity).run hash calls
    c.lru.length ≤ capacity.toNat ∧
      ∀ S : Set K, Set.InjOn hash S → (∀ call ∈ calls, ∀ key ∈ call.key?, key ∈ S) →
        c.view = calls.foldl (fun l call => recencyCall capacity call l) [] ∧
          (∀ key, c.MapReaches key ↔ key ∈ c.lru.map (·.key)) ∧
          ∀ key ∈ S, (c.Get hash key).1 = c.view.lookup key := by
  intro c
  have bounded : c.lru.length ≤ ((New capacity : LRUCache K V).run hash calls).capacity.toNat :=
    LRUCache.WellFormed.bounded
      (LRUCache.WellFormed.run (wellFormed_New capacity : (New capacity : LRUCache K V).WellFormed hash) calls)
  rw [capacity_run] at bounded
  refine ⟨bounded, fun S inj keysIn => ?_⟩
  obtain ⟨view, -, reaches, get⟩ := lru_cache_without_collisions inj capacity calls keysIn
  exact ⟨view, reaches, get⟩

/-! ### Colliding keys -/

section Collision
variable {k₁ k₂ : K} (distinct : k₁ ≠ k₂) (collide : hash k₁ = hash k₂) {capacity : Int}
  (room : 2 ≤ capacity) (v₁ v₂ : V)
include distinct collide room

theorem Add_Add_of_collision :
    ((New capacity).Add hash k₁ v₁).Add hash k₂ v₂ =
      ⟨Function.update (Function.update (fun _ => none) (hash k₁) (some 0)) (hash k₂) (some 1),
        [⟨1, k₂, v₂⟩, ⟨0, k₁, v₁⟩], capacity, 2⟩ := by
  have first : (New capacity).Add hash k₁ v₁ =
      ⟨Function.update (fun _ => none) (hash k₁) (some 0), [⟨0, k₁, v₁⟩], capacity, 1⟩ := by
    rw [Add_of_entry_none v₁ rfl, pushFront_of_room k₁ v₁ (by simp [New]; omega)]
    rfl
  have found : LRUCache.entry ⟨Function.update (fun _ => none) (hash k₁) (some 0), [⟨0, k₁, v₁⟩],
      capacity, 1⟩ (hash k₂) = some ⟨0, k₁, v₁⟩ := by
    simp [LRUCache.entry, ← collide]
  rw [first, Add_of_entry_ne v₂ found distinct, pushFront_of_room k₂ v₂ (by simp; omega)]
  rfl

theorem collision_hides_first :
    let c := ((New capacity).Add hash k₁ v₁).Add hash k₂ v₂
    k₁ ∈ c.lru.map (·.key) ∧ ¬ c.MapReaches k₁ ∧ (c.Get hash k₁).1 = none := by
  intro c
  have state : c = ⟨Function.update (Function.update (fun _ => none) (hash k₁) (some 0)) (hash k₂)
      (some 1), [⟨1, k₂, v₂⟩, ⟨0, k₁, v₁⟩], capacity, 2⟩ := Add_Add_of_collision distinct collide room v₁ v₂
  have entry : ∀ h, c.entry h = if h = hash k₂ then some ⟨1, k₂, v₂⟩ else none := by
    intro h
    rw [state]
    by_cases here : h = hash k₂
    · simp [LRUCache.entry, here]
    · simp [LRUCache.entry, here, collide]
  refine ⟨by simp [state], ?_, ?_⟩
  · rintro ⟨h, e, found, key⟩
    rw [entry h] at found
    split at found
    · cases found
      exact distinct key.symm
    · cases found
  · simp only [LRUCache.Get, entry, if_pos collide, ne_eq, Ne.symm distinct, not_false_eq_true,
      if_true]

end Collision

theorem exists_collision (hash : DomainHash → UInt64) : ∃ k₁ k₂ : DomainHash, k₁ ≠ k₂ ∧ hash k₁ = hash k₂ := by
  have fewer : Fintype.card (Fin UInt64.size) < Fintype.card (Fin (2 ^ 256)) := by
    rw [Fintype.card_fin, Fintype.card_fin, UInt64.size]
    exact Nat.pow_lt_pow_right (by decide : 1 < 2) (by decide : 64 < 256)
  obtain ⟨a, b, distinct, same⟩ :=
    Fintype.exists_ne_map_eq_of_card_lt (fun n : Fin (2 ^ 256) => (hash ⟨n⟩).toFin) fewer
  exact ⟨⟨a⟩, ⟨b⟩, fun equal => distinct (congrArg DomainHash.value equal), UInt64.toFin_inj.1 same⟩

theorem lru_cache_hides_entry_for_every_hash (hash : DomainHash → UInt64) (v₁ v₂ : V) :
    ∃ k₁ k₂ : DomainHash, k₁ ≠ k₂ ∧
      let c := ((New 2).Add hash k₁ v₁).Add hash k₂ v₂
      k₁ ∈ c.lru.map (·.key) ∧ ¬ c.MapReaches k₁ ∧ (c.Get hash k₁).1 = none := by
  obtain ⟨k₁, k₂, distinct, collide⟩ := exists_collision hash
  exact ⟨k₁, k₂, distinct, collision_hides_first distinct collide le_rfl v₁ v₂⟩

/-- The hashes `0` and `2 ^ 64` agree in their low 64 bits. -/
def lowBits (key : DomainHash) : UInt64 := UInt64.ofNat key.value.val

theorem lru_cache_collision_hides_entry :
    let c := ((New 2 : LRUCache DomainHash Nat).Add lowBits ⟨0⟩ 1).Add lowBits ⟨2 ^ 64⟩ 2
    (⟨0⟩ : DomainHash) ≠ ⟨2 ^ 64⟩ ∧ ⟨0⟩ ∈ c.lru.map (·.key) ∧ ¬ c.MapReaches ⟨0⟩ ∧
      (c.Get lowBits ⟨0⟩).1 = none :=
  ⟨by decide, collision_hides_first (by decide) (by decide) le_rfl 1 2⟩

end Lrucache
