import Htnd.Ghostdag2.GhostdagImpl
import Htnd.Lib.Dag

/-!
The GHOSTDAG test (ghostdag_test.go) runs the ghostdag manager and ghostdag2 on the same DAGs,
from a genesis with zero GHOSTDAG data, and compares what they stage. Its DAG topology answers
`IsAncestorOf` by a search through the parents, so that no block is its own ancestor there.
ghostdag2's test on a suspect blue then counts the blue itself, which makes it the ghostdag
manager's test; under a reflexive oracle it lets one more blue into the suspect's anticone.
-/
namespace Ghostdag2
open Ghostdag Dag Utxo

/-- `IsAncestorOf` of the test's DAG topology: `blockHashA` is a parent of `blockHashB` or an
    ancestor of one of its parents. Go's recursion has no bound; this one goes `depth` levels
    down, enough on a DAG whose paths are shorter. -/
def testIsAncestorOf (parentsMap : DomainHash → List DomainHash) :
    Nat → DomainHash → DomainHash → Bool
  | 0, _, _ => false
  | depth + 1, blockHashA, blockHashB =>
    (parentsMap blockHashB).contains blockHashA ||
      (parentsMap blockHashB).any (testIsAncestorOf parentsMap depth blockHashA)

theorem past_of_testIsAncestorOf {parentsMap : DomainHash → List DomainHash} {depth : Nat}
    {a b : DomainHash} (found : testIsAncestorOf parentsMap depth a b = true) :
    Past parentsMap a b := by
  induction depth generalizing b with
  | zero => cases found
  | succ depth ih =>
    simp only [testIsAncestorOf, Bool.or_eq_true, List.contains_iff_mem, List.any_eq_true] at found
    rcases found with parent | ⟨p, mem, below⟩
    · exact past_of_mem_parents parent
    · exact (ih below).trans (past_of_mem_parents mem)

theorem testIsAncestorOf_self {parentsMap : DomainHash → List DomainHash}
    (acyclic : Acyclic parentsMap) (depth : Nat) (a : DomainHash) :
    testIsAncestorOf parentsMap depth a a = false :=
  Bool.eq_false_iff.mpr fun found => acyclic a (past_of_testIsAncestorOf found)

/-- Deep enough, the test's oracle answers as the past does: a block `depth` levels down the
    order has every path to it shorter than `depth`. -/
theorem testIsAncestorOf_iff {parentsMap : DomainHash → List DomainHash} {order : List DomainHash}
    (topological : Topological parentsMap [] order) {depth : Nat} {a b : DomainHash}
    (bMem : b ∈ order) (deep : order.idxOf b < depth) :
    testIsAncestorOf parentsMap depth a b = true ↔ Past parentsMap a b := by
  refine ⟨past_of_testIsAncestorOf, fun past => ?_⟩
  induction depth generalizing b with
  | zero => omega
  | succ depth ih =>
    obtain ⟨p, parent, path⟩ := past_iff_exists_parent.1 past
    have pMem : p ∈ order := by
      simpa using topological.closed (by simp) b (by simpa using bMem) p parent
    have lower := (topological.idxOf_lt bMem parent).resolve_left List.not_mem_nil
    simp only [testIsAncestorOf, Bool.or_eq_true, List.contains_iff_mem, List.any_eq_true]
    rcases pastOrSelf_iff.1 path with rfl | below
    · exact Or.inl parent
    · exact Or.inr ⟨p, parent, ih pMem (by omega) below⟩

namespace GhostdagHelper
variable (gh : GhostdagHelper)

theorem length_filter_isAnticone {blueSet : List DomainHash} {blue : DomainHash}
    (mem : blue ∈ blueSet) :
    (blueSet.filter (gh.isAnticone · blue)).length =
      ((blueSet.erase blue).filter (gh.isAnticone · blue)).length +
        if gh.isAnticone blue blue then 1 else 0 := by
  rw [((List.perm_cons_erase mem).filter _).length_eq, List.filter_cons]
  split <;> simp [Nat.add_comm]

theorem count_anticone_of_strict (strict : ∀ a, gh.isAncestorOf a a = false)
    {blueSet : List DomainHash} {blue : DomainHash} (mem : blue ∈ blueSet) :
    (blueSet.filter (gh.isAnticone · blue)).length ≤ gh.k.toNat ↔
      ((blueSet.erase blue).filter (gh.isAnticone · blue)).length < gh.k.toNat := by
  have self : gh.isAnticone blue blue = true := by simp [isAnticone, strict]
  rw [gh.length_filter_isAnticone mem, if_pos self]
  omega

theorem count_anticone_of_reflexive (reflexive : ∀ a, gh.isAncestorOf a a = true)
    {blueSet : List DomainHash} {blue : DomainHash} (mem : blue ∈ blueSet) :
    (blueSet.filter (gh.isAnticone · blue)).length ≤ gh.k.toNat ↔
      ((blueSet.erase blue).filter (gh.isAnticone · blue)).length ≤ gh.k.toNat := by
  have self : gh.isAnticone blue blue = false := by simp [isAnticone, reflexive]
  rw [gh.length_filter_isAnticone mem, self]
  rfl

end GhostdagHelper

end Ghostdag2
