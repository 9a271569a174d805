import Mathlib.Data.List.Basic

/-!
A recency list: pairs of a key and a value, the most recently used first. Putting a key brings it
to the front with its value, and what falls past the capacity is dropped from the back; getting a
key brings it to the front; erasing a key drops it. What a key is bound to is read with
List.lookup.
-/
namespace Recency

variable {K V : Type} [DecidableEq K]

def erase (k : K) (l : List (K × V)) : List (K × V) := l.filter (·.1 ≠ k)

def put (cap : Nat) (k : K) (v : V) (l : List (K × V)) : List (K × V) :=
  ((k, v) :: erase k l).take cap

def get (k : K) (l : List (K × V)) : Option V × List (K × V) :=
  match l.lookup k with
  | some v => (some v, (k, v) :: erase k l)
  | none => (none, l)

variable {k k' : K} {l : List (K × V)}

@[simp] theorem lookup_cons_self (v : V) : ((k, v) :: l).lookup k = some v := by
  simp

theorem lookup_cons_of_ne (v : V) (other : k' ≠ k) : ((k, v) :: l).lookup k' = l.lookup k' := by
  simp [List.lookup_cons, beq_eq_false_iff_ne.2 other]

@[simp] theorem lookup_erase_self : (erase k l).lookup k = none := by
  induction l with
  | nil => rfl
  | cons p l ih =>
    obtain ⟨j, v⟩ := p
    by_cases here : j = k
    · rwa [erase, List.filter_cons_of_neg (by simpa using here)]
    · rw [erase, List.filter_cons_of_pos (by simpa using here), lookup_cons_of_ne _ (Ne.symm here)]
      exact ih

theorem erase_of_lookup_eq_none (absent : l.lookup k = none) : erase k l = l := by
  rw [erase, List.filter_eq_self]
  intro p mem
  have differs := List.lookup_eq_none_iff.1 absent p mem
  rw [decide_eq_true_iff]
  intro same
  rw [same] at differs
  simp at differs

end Recency
