import Mathlib.Data.List.Basic

/-!
Codes read from the front of a stream. A code determines a key of the values it encodes when
the encoding of one value followed by anything can equal the encoding of another followed by
anything only if the two values have the same key and what follows is the same: a reader can
tell where the encoding ends and what it says. A serialization written as fields one after the
other is then read back field by field, and equal streams give equal keys for every field.

Fixed-width codes of maps that are injective up to the key determine it; a length that a code
determines followed by that many raw items determines the items; and a list of a known number of
items of a code determines the list of their keys.
-/
namespace PrefixCode
variable {α β γ δ : Type}

def Determines (valid : α → Prop) (enc : α → List β) (key : α → γ) : Prop :=
  ∀ ⦃a b⦄, valid a → valid b → ∀ ⦃rest rest' : List β⦄, enc a ++ rest = enc b ++ rest' →
    key a = key b ∧ rest = rest'

theorem determines_of_length_eq {valid : α → Prop} {enc : α → List β} {key : α → γ}
    (width : ∀ ⦃a b⦄, valid a → valid b → (enc a).length = (enc b).length)
    (inj : ∀ ⦃a b⦄, valid a → valid b → enc a = enc b → key a = key b) :
    Determines valid enc key := by
  intro a b valid_a valid_b rest rest' same
  obtain ⟨encs, rests⟩ := List.append_inj same (width valid_a valid_b)
  exact ⟨inj valid_a valid_b encs, rests⟩

theorem determines_singleton : Determines (fun _ : β => True) (fun b => [b]) id := by
  intro a b _ _ rest rest' same
  simpa using same

theorem determines_lengthPrefixed {small : Nat → Prop} {header : Nat → List β}
    (count : Determines small header id) :
    Determines (fun xs : List β => small xs.length) (fun xs => header xs.length ++ xs) id := by
  intro xs ys small_xs small_ys rest rest' same
  rw [List.append_assoc, List.append_assoc] at same
  obtain ⟨lengths, items⟩ := count small_xs small_ys same
  exact List.append_inj items lengths

namespace Determines
variable {valid : α → Prop} {enc : α → List β} {key : α → γ}

theorem map (code : Determines valid enc key) (f : γ → δ) : Determines valid enc (f ∘ key) := by
  intro a b valid_a valid_b rest rest' same
  obtain ⟨keys, rests⟩ := code valid_a valid_b same
  exact ⟨congrArg f keys, rests⟩

theorem flatMap (code : Determines valid enc key) :
    ∀ {xs ys : List α}, xs.length = ys.length → (∀ x ∈ xs, valid x) → (∀ y ∈ ys, valid y) →
      ∀ {rest rest' : List β}, xs.flatMap enc ++ rest = ys.flatMap enc ++ rest' →
        xs.map key = ys.map key ∧ rest = rest'
  | [], [], _, _, _, _, _, same => ⟨rfl, by simpa using same⟩
  | x :: xs, y :: ys, lengths, valid_xs, valid_ys, _, _, same => by
    simp only [List.flatMap_cons, List.append_assoc] at same
    obtain ⟨heads, same⟩ := code (valid_xs x (by simp)) (valid_ys y (by simp)) same
    obtain ⟨tails, rests⟩ := flatMap code (by simpa using lengths)
      (fun x' mem => valid_xs x' (by simp [mem])) (fun y' mem => valid_ys y' (by simp [mem])) same
    exact ⟨by rw [List.map_cons, List.map_cons, heads, tails], rests⟩

end Determines

end PrefixCode
