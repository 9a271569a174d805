import Mathlib

/-!
Matching a list into a longer one in order, greedily: each element of the first list takes the
first element of the second, after the last one taken, that it is related to. The greedy match
succeeds exactly when the first list is related pointwise to a sublist of the second: taking the
first related element never loses a match that a later choice would find.
-/
namespace GreedyMatch
variable {α β : Type} (R : α → β → Bool)

def greedyMatch : List α → List β → Bool
  | [], _ => true
  | _ :: _, [] => false
  | x :: xs, y :: ys => if R x y then greedyMatch xs ys else greedyMatch (x :: xs) ys

@[simp] theorem greedyMatch_nil (ys : List β) : greedyMatch R [] ys = true := by
  cases ys <;> rfl

@[simp] theorem greedyMatch_cons_nil (x : α) (xs : List α) :
    greedyMatch R (x :: xs) [] = false := rfl

theorem greedyMatch_cons_cons (x : α) (xs : List α) (y : β) (ys : List β) :
    greedyMatch R (x :: xs) (y :: ys) =
      if R x y then greedyMatch R xs ys else greedyMatch R (x :: xs) ys := rfl

variable {R}

theorem sublistForall₂_tail {x : α} {xs : List α} {ys : List β}
    (matched : List.SublistForall₂ (fun a b => R a b = true) (x :: xs) ys) :
    List.SublistForall₂ (fun a b => R a b = true) xs ys := by
  obtain ⟨l, pointwise, sub⟩ := List.sublistForall₂_iff.1 matched
  cases pointwise with
  | cons _ rest => exact List.sublistForall₂_iff.2 ⟨_, rest, (List.sublist_cons_self _ _).trans sub⟩

theorem length_le_of_sublistForall₂ {xs : List α} {ys : List β}
    (matched : List.SublistForall₂ (fun a b => R a b = true) xs ys) : xs.length ≤ ys.length := by
  obtain ⟨l, pointwise, sub⟩ := List.sublistForall₂_iff.1 matched
  rw [pointwise.length_eq]
  exact sub.length_le

theorem greedyMatch_iff (xs : List α) (ys : List β) :
    greedyMatch R xs ys = true ↔ List.SublistForall₂ (fun a b => R a b = true) xs ys := by
  induction ys generalizing xs with
  | nil =>
    cases xs with
    | nil => exact ⟨fun _ => .nil, fun _ => rfl⟩
    | cons x xs =>
      constructor
      · intro failed
        cases failed
      · intro matched
        cases matched
  | cons y ys ih =>
    cases xs with
    | nil => exact ⟨fun _ => .nil, fun _ => greedyMatch_nil R _⟩
    | cons x xs =>
      rw [greedyMatch_cons_cons]
      constructor
      · intro matched
        by_cases related : R x y = true
        · rw [if_pos related] at matched
          exact .cons related ((ih xs).1 matched)
        · rw [if_neg related] at matched
          exact .cons_right ((ih (x :: xs)).1 matched)
      · intro matched
        by_cases related : R x y = true
        · rw [if_pos related]
          cases matched with
          | cons _ rest => exact (ih xs).2 rest
          | cons_right rest => exact (ih xs).2 (sublistForall₂_tail rest)
        · rw [if_neg related]
          cases matched with
          | cons relatedXY _ => exact absurd relatedXY related
          | cons_right rest => exact (ih (x :: xs)).2 rest

theorem greedyMatch_of_length_lt {xs : List α} {ys : List β} (longer : ys.length < xs.length) :
    greedyMatch R xs ys = false := by
  by_contra matched
  have := length_le_of_sublistForall₂ ((greedyMatch_iff xs ys).1 (by simpa using matched))
  omega

theorem sublistForall₂_iff_exists_strictMono {R : α → β → Prop} {xs : List α} {ys : List β} :
    List.SublistForall₂ R xs ys ↔
      ∃ f : Fin xs.length → Fin ys.length, StrictMono f ∧ ∀ i, R (xs.get i) (ys.get (f i)) := by
  rw [List.sublistForall₂_iff]
  constructor
  · rintro ⟨l, pointwise, sub⟩
    obtain ⟨f, same⟩ := List.sublist_iff_exists_fin_orderEmbedding_get_eq.1 sub
    have length := pointwise.length_eq
    refine ⟨fun i => f (Fin.cast length i), fun i j lt => f.strictMono lt, fun i => ?_⟩
    rw [← same]
    exact (List.forall₂_iff_get.1 pointwise).2 i i.2 (length ▸ i.2)
  · rintro ⟨f, mono, related⟩
    refine ⟨List.ofFn fun i => ys.get (f i),
      List.forall₂_iff_get.2 ⟨by simp, fun i h₁ h₂ => by simpa using related ⟨i, h₁⟩⟩, ?_⟩
    exact List.sublist_iff_exists_fin_orderEmbedding_get_eq.2
      ⟨OrderEmbedding.ofStrictMono (fun i => f (Fin.cast (by simp) i)) (fun i j lt => mono lt),
        fun i => by simp [Fin.cast]⟩

end GreedyMatch
