import Mathlib.Logic.Relation
import Mathlib.Data.Finset.Card

/-!
Directed acyclic graphs given by the list of parents of each vertex: the past of a vertex and
its anticone, antichains, an order that lists every vertex after its parents, and the size of
a vertex's past within a finite set of vertices, which falls along every parent link.
-/
namespace Dag

variable {α : Type*} (parents : α → List α)

def Past : α → α → Prop := Relation.TransGen fun a b => a ∈ parents b

def PastOrSelf : α → α → Prop := Relation.ReflTransGen fun a b => a ∈ parents b

def Acyclic : Prop := ∀ a, ¬ Past parents a a

def InAnticone (a b : α) : Prop := a ≠ b ∧ ¬ Past parents a b ∧ ¬ Past parents b a

def Antichain (l : List α) : Prop := ∀ a ∈ l, ∀ b ∈ l, ¬ Past parents a b

def Topological : List α → List α → Prop
  | _, [] => True
  | done, b :: rest => (∀ p ∈ parents b, p ∈ done) ∧ b ∉ done ∧ Topological (b :: done) rest

variable {parents}

theorem past_of_mem_parents {a b : α} (mem : a ∈ parents b) : Past parents a b :=
  Relation.TransGen.single mem

theorem Past.trans {a b c : α} (ab : Past parents a b) (bc : Past parents b c) :
    Past parents a c :=
  Relation.TransGen.trans ab bc

theorem Past.pastOrSelf {a b : α} (ab : Past parents a b) : PastOrSelf parents a b :=
  Relation.TransGen.to_reflTransGen ab

theorem PastOrSelf.refl (a : α) : PastOrSelf parents a a := Relation.ReflTransGen.refl

theorem pastOrSelf_iff {a b : α} : PastOrSelf parents a b ↔ a = b ∨ Past parents a b := by
  unfold PastOrSelf Past
  rw [Relation.reflTransGen_iff_eq_or_transGen, eq_comm]

theorem past_iff_exists_parent {a b : α} :
    Past parents a b ↔ ∃ p ∈ parents b, PastOrSelf parents a p := by
  unfold Past PastOrSelf
  rw [Relation.TransGen.tail'_iff]
  exact ⟨fun ⟨p, path, mem⟩ => ⟨p, mem, path⟩, fun ⟨p, mem, path⟩ => ⟨p, path, mem⟩⟩

theorem Past.trans_pastOrSelf {a b c : α} (ab : Past parents a b) (bc : PastOrSelf parents b c) :
    Past parents a c :=
  Relation.TransGen.trans_left ab bc

theorem PastOrSelf.trans {a b c : α} (ab : PastOrSelf parents a b) (bc : PastOrSelf parents b c) :
    PastOrSelf parents a c :=
  Relation.ReflTransGen.trans ab bc

theorem Past.ne (acyclic : Acyclic parents) {a b : α} (ab : Past parents a b) : a ≠ b := by
  rintro rfl
  exact acyclic a ab

theorem PastOrSelf.antisymm (acyclic : Acyclic parents) {a b : α} (ab : PastOrSelf parents a b)
    (ba : PastOrSelf parents b a) : a = b := by
  rcases pastOrSelf_iff.1 ab with same | past
  · exact same
  · exact absurd (past.trans_pastOrSelf ba) (acyclic a)

theorem InAnticone.symm {a b : α} (anticone : InAnticone parents a b) : InAnticone parents b a :=
  ⟨anticone.1.symm, anticone.2.2, anticone.2.1⟩

/-- A parent of `b`, when the parents of `b` form an antichain, is in the past of no block of the
    past of `b`. -/
theorem Antichain.not_past_of_past {a b c : α} (antichain : Antichain parents (parents b))
    (parent : a ∈ parents b) (below : Past parents c b) : ¬ Past parents a c := by
  intro past
  obtain ⟨p, pParent, path⟩ := past_iff_exists_parent.1 below
  exact antichain a parent p pParent (past.trans_pastOrSelf path)

theorem mem_of_pastOrSelf {S : Set α} (closed : ∀ x ∈ S, ∀ p ∈ parents x, p ∈ S) {a b : α}
    (mem : b ∈ S) (ab : PastOrSelf parents a b) : a ∈ S := by
  induction ab using Relation.ReflTransGen.head_induction_on with
  | refl => exact mem
  | head parent _ ih => exact closed _ ih _ parent

theorem acyclic_of_rank (rank : α → ℕ) (grows : ∀ b, ∀ p ∈ parents b, rank p < rank b) :
    Acyclic parents := by
  have below : ∀ a b, Past parents a b → rank a < rank b := by
    intro a b ab
    induction ab with
    | single mem => exact grows _ _ mem
    | tail _ mem ih => exact lt_trans ih (grows _ _ mem)
  intro a cycle
  exact lt_irrefl _ (below a a cycle)

theorem rank_lt_of_past {S : Set α} (closed : ∀ x ∈ S, ∀ p ∈ parents x, p ∈ S) (rank : α → ℕ)
    (grows : ∀ b ∈ S, ∀ p ∈ parents b, rank p < rank b) {a b : α} (ab : Past parents a b)
    (mem : b ∈ S) : rank a < rank b := by
  induction ab with
  | single parent => exact grows _ mem _ parent
  | tail _ parent ih => exact lt_trans (ih (closed _ mem _ parent)) (grows _ mem _ parent)

section Topological

instance decidableTopological [DecidableEq α] :
    (done order : List α) → Decidable (Topological parents done order)
  | _, [] => inferInstanceAs (Decidable True)
  | done, b :: rest =>
    have := decidableTopological (b :: done) rest
    inferInstanceAs
      (Decidable ((∀ p ∈ parents b, p ∈ done) ∧ b ∉ done ∧ Topological parents (b :: done) rest))

theorem Topological.closed {done order : List α} (topological : Topological parents done order)
    (closed : ∀ x ∈ done, ∀ p ∈ parents x, p ∈ done) :
    ∀ x ∈ order ++ done, ∀ p ∈ parents x, p ∈ order ++ done := by
  induction order generalizing done with
  | nil => simpa using closed
  | cons b rest ih =>
    obtain ⟨before, _, topological⟩ := topological
    have closed' : ∀ x ∈ b :: done, ∀ p ∈ parents x, p ∈ b :: done := by
      intro x mem p parent
      rcases List.mem_cons.mp mem with rfl | mem
      · exact List.mem_cons_of_mem _ (before p parent)
      · exact List.mem_cons_of_mem _ (closed x mem p parent)
    have reorder : ∀ y, y ∈ rest ++ b :: done ↔ y ∈ (b :: rest) ++ done := by
      intro y
      simp only [List.mem_append, List.mem_cons]
      tauto
    intro x mem p parent
    exact (reorder p).mp (ih topological closed' x ((reorder x).mpr mem) p parent)

theorem Topological.nodup {done order : List α} (topological : Topological parents done order) :
    order.Nodup ∧ ∀ x ∈ order, x ∉ done := by
  induction order generalizing done with
  | nil => simp
  | cons b rest ih =>
    obtain ⟨_, fresh, topological⟩ := topological
    obtain ⟨nodup, outside⟩ := ih topological
    refine ⟨List.nodup_cons.mpr ⟨fun mem => outside b mem (List.mem_cons_self), nodup⟩, ?_⟩
    intro x mem
    rcases List.mem_cons.mp mem with rfl | mem
    · exact fresh
    · exact fun done' => outside x mem (List.mem_cons_of_mem _ done')

/-- In an order that lists every vertex after its parents, a parent of a vertex listed is done
    already or listed before it. -/
theorem Topological.idxOf_lt [DecidableEq α] {done order : List α}
    (topological : Topological parents done order) {x p : α} (mem : x ∈ order)
    (parent : p ∈ parents x) : p ∈ done ∨ p ∈ order ∧ order.idxOf p < order.idxOf x := by
  induction order generalizing done with
  | nil => cases mem
  | cons b rest ih =>
    obtain ⟨before, _, topological⟩ := topological
    by_cases first : x = b
    · subst first
      exact Or.inl (before p parent)
    have later : (b :: rest).idxOf x = rest.idxOf x + 1 := List.idxOf_cons_ne _ (Ne.symm first)
    rcases ih topological ((List.mem_cons.mp mem).resolve_left first) with pDone | ⟨pMem, lower⟩
    · rcases List.mem_cons.mp pDone with rfl | pDone
      · exact Or.inr ⟨List.mem_cons_self, by rw [List.idxOf_cons_self, later]; omega⟩
      · exact Or.inl pDone
    · by_cases pFirst : p = b
      · subst pFirst
        exact Or.inr ⟨List.mem_cons_self, by rw [List.idxOf_cons_self, later]; omega⟩
      · exact Or.inr ⟨List.mem_cons_of_mem _ pMem, by
          rw [List.idxOf_cons_ne _ (Ne.symm pFirst), later]; omega⟩

theorem Topological.pastOrSelf_root {root : α} {done order : List α}
    (topological : Topological parents done order) (rooted : ∀ b ∈ order, b ≠ root → parents b ≠ [])
    (rootDone : root ∈ done) (below : ∀ x ∈ done, PastOrSelf parents root x) :
    ∀ x ∈ order, PastOrSelf parents root x := by
  induction order generalizing done with
  | nil => simp
  | cons b rest ih =>
    obtain ⟨before, fresh, topological⟩ := topological
    have bBelow : PastOrSelf parents root b := by
      have notRoot : b ≠ root := fun eq => fresh (eq ▸ rootDone)
      obtain ⟨p, parent⟩ := List.exists_mem_of_ne_nil _ (rooted b List.mem_cons_self notRoot)
      exact (below p (before p parent)).trans (Relation.ReflTransGen.single parent)
    intro x mem
    rcases List.mem_cons.mp mem with rfl | mem
    · exact bBelow
    · refine ih topological (fun b' mem' => rooted b' (List.mem_cons_of_mem _ mem'))
        (List.mem_cons_of_mem _ rootDone) ?_ x mem
      intro y yMem
      rcases List.mem_cons.mp yMem with rfl | yMem
      · exact bBelow
      · exact below y yMem

end Topological

section Search

def pastOrSelfList (parents : α → List α) : Nat → α → List α
  | 0, b => [b]
  | fuel + 1, b => b :: (parents b).flatMap (pastOrSelfList parents fuel)

def SearchClosed (parents : α → List α) (fuel : Nat) (b : α) : Prop :=
  ∀ x ∈ pastOrSelfList parents fuel b, ∀ p ∈ parents x, p ∈ pastOrSelfList parents fuel b

instance [DecidableEq α] (fuel : Nat) (b : α) : Decidable (SearchClosed parents fuel b) :=
  inferInstanceAs (Decidable (∀ x ∈ pastOrSelfList parents fuel b, ∀ p ∈ parents x,
    p ∈ pastOrSelfList parents fuel b))

theorem pastOrSelf_of_mem_pastOrSelfList {fuel : Nat} {a b : α}
    (mem : a ∈ pastOrSelfList parents fuel b) : PastOrSelf parents a b := by
  induction fuel generalizing b with
  | zero =>
    rw [pastOrSelfList, List.mem_singleton] at mem
    rw [mem]
    exact PastOrSelf.refl b
  | succ fuel ih =>
    rcases List.mem_cons.mp mem with rfl | mem
    · exact PastOrSelf.refl a
    · obtain ⟨p, parent, mem⟩ := List.mem_flatMap.mp mem
      exact (ih mem).trans (Relation.ReflTransGen.single parent)

theorem mem_pastOrSelfList_iff {fuel : Nat} {b : α} (closed : SearchClosed parents fuel b) {a : α} : a ∈ pastOrSelfList parents fuel b ↔ PastOrSelf parents a b := by
  refine ⟨pastOrSelf_of_mem_pastOrSelfList, fun path => ?_⟩
  have self : b ∈ pastOrSelfList parents fuel b := by
    cases fuel <;> simp [pastOrSelfList]
  exact mem_of_pastOrSelf (S := {x | x ∈ pastOrSelfList parents fuel b}) closed self path

theorem antichain_of_search {l : List α} {fuel : Nat}
    (closed : ∀ c ∈ l, ∀ p ∈ parents c, SearchClosed parents fuel p)
    (apart : ∀ a ∈ l, ∀ c ∈ l, ∀ p ∈ parents c, a ∉ pastOrSelfList parents fuel p) :
    Antichain parents l := by
  intro a aMem c cMem past
  obtain ⟨p, parent, path⟩ := past_iff_exists_parent.1 past
  exact apart a aMem c cMem p parent ((mem_pastOrSelfList_iff (closed c cMem p parent)).mpr path)

end Search

section Rank

open Classical in
noncomputable def pastCard (parents : α → List α) (blocks : Finset α) (b : α) : ℕ :=
  (blocks.filter fun a => Past parents a b).card

open Classical in
theorem pastCard_lt (acyclic : Acyclic parents) {blocks : Finset α} {a b : α} (mem : a ∈ blocks)
    (ab : Past parents a b) : pastCard parents blocks a < pastCard parents blocks b := by
  unfold pastCard
  apply Finset.card_lt_card
  refine Finset.ssubset_iff_of_subset ?_ |>.mpr ⟨a, ?_, ?_⟩
  · intro x xMem
    simp only [Finset.mem_filter] at xMem ⊢
    exact ⟨xMem.1, xMem.2.trans ab⟩
  · simp [mem, ab]
  · simp [acyclic a]

open Classical in
theorem pastCard_le (blocks : Finset α) (b : α) : pastCard parents blocks b ≤ blocks.card :=
  Finset.card_filter_le _ _

theorem pastCard_le_of_pastOrSelf (acyclic : Acyclic parents) {blocks : Finset α} {a b : α}
    (mem : a ∈ blocks) (ab : PastOrSelf parents a b) :
    pastCard parents blocks a ≤ pastCard parents blocks b := by
  rcases pastOrSelf_iff.1 ab with rfl | past
  · exact le_rfl
  · exact (pastCard_lt acyclic mem past).le

open Classical in
theorem pastCard_lt_card (acyclic : Acyclic parents) {blocks : Finset α} {b : α} (mem : b ∈ blocks) :
    pastCard parents blocks b < blocks.card := by
  unfold pastCard
  apply Finset.card_lt_card
  refine Finset.ssubset_iff_of_subset (Finset.filter_subset _ _) |>.mpr ⟨b, mem, ?_⟩
  simp [acyclic b]

end Rank

end Dag
