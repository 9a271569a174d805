import Mathlib.Data.Nat.Digits.Lemmas

/-!
Numerals written most significant digit first in which leading zero digits count: a conversion
from one base to another keeps the number of leading zeros and writes the value in the fewest
digits. Converting to a base and back gives the numeral back.
-/
namespace Numeral

def value (b : Nat) (L : List Nat) : Nat := Nat.ofDigits b L.reverse

def minimal (b n : Nat) : List Nat := (Nat.digits b n).reverse

def leadingZeros (L : List Nat) : Nat := (L.takeWhile (· = 0)).length

def convert (b₁ b₂ : Nat) (L : List Nat) : List Nat :=
  List.replicate (leadingZeros L) 0 ++ minimal b₂ (value b₁ L)

variable {b : Nat} {L : List Nat}

theorem value_replicate_append (z : Nat) (L : List Nat) : value b (List.replicate z 0 ++ L) = value b L := by
  rw [value, value, List.reverse_append, List.reverse_replicate, Nat.ofDigits_append_replicate_zero]

theorem value_append_singleton (b : Nat) (L : List Nat) (d : Nat) :
    value b (L ++ [d]) = value b L * b + d := by
  rw [value, value, List.reverse_append, List.reverse_singleton, List.singleton_append,
    Nat.ofDigits_cons, Nat.mul_comm, Nat.add_comm]

theorem value_minimal (b n : Nat) : value b (minimal b n) = n := by
  rw [value, minimal, List.reverse_reverse, Nat.ofDigits_digits]

theorem head?_minimal (b n : Nat) : (minimal b n).head? ≠ some 0 := by
  by_cases zero : n = 0
  · simp [minimal, zero]
  · rw [minimal, List.head?_reverse, List.getLast?_eq_some_getLast (Nat.digits_ne_nil_iff_ne_zero.2 zero)]
    simpa using Nat.getLast_digit_ne_zero b zero

theorem lt_of_mem_minimal (base : 1 < b) {n d : Nat} (mem : d ∈ minimal b n) : d < b :=
  Nat.digits_lt_base base (List.mem_reverse.1 mem)

theorem minimal_value (base : 1 < b) (small : ∀ d ∈ L, d < b) (lead : L.head? ≠ some 0) :
    minimal b (value b L) = L := by
  have last : ∀ (nonempty : L.reverse ≠ []), L.reverse.getLast nonempty ≠ 0 := by
    intro nonempty
    rw [List.getLast_reverse]
    intro zero
    apply lead
    rw [List.head?_eq_some_head (List.reverse_ne_nil_iff.1 nonempty), zero]
  rw [minimal, value, Nat.digits_ofDigits b base L.reverse (by simpa using small) last,
    List.reverse_reverse]

theorem leadingZeros_replicate_append (z : Nat) (lead : L.head? ≠ some 0) :
    leadingZeros (List.replicate z 0 ++ L) = z := by
  have rest : L.takeWhile (· = 0) = [] := by
    cases L with
    | nil => rfl
    | cons d L =>
      have nonzero : d ≠ 0 := fun zero => lead (by rw [zero]; rfl)
      simp [nonzero]
  rw [leadingZeros, List.takeWhile_append, List.takeWhile_replicate]
  simp [rest]

theorem replicate_append_dropWhile (L : List Nat) :
    List.replicate (leadingZeros L) 0 ++ L.dropWhile (· = 0) = L ∧ (L.dropWhile (· = 0)).head? ≠ some 0 := by
  have zeros : L.takeWhile (· = 0) = List.replicate (leadingZeros L) 0 := by
    rw [leadingZeros, List.eq_replicate_iff]
    refine ⟨rfl, fun d mem => ?_⟩
    simpa using List.all_eq_true.1 List.all_takeWhile d mem
  refine ⟨by rw [← zeros, List.takeWhile_append_dropWhile], ?_⟩
  intro first
  have nonempty : L.dropWhile (· = 0) ≠ [] := fun empty => by simp [empty] at first
  have stops := List.head_dropWhile_not (fun d => decide (d = 0)) nonempty
  rw [List.head?_eq_some_head nonempty, Option.some.injEq] at first
  simp [first] at stops

theorem lt_of_mem_convert (base : 1 < b) {b₁ d : Nat} (mem : d ∈ convert b₁ b L) : d < b := by
  rcases List.mem_append.1 mem with zero | digit
  · rw [(List.mem_replicate.1 zero).2]
    omega
  · exact lt_of_mem_minimal base digit

theorem convert_convert {b₁ b₂ : Nat} (base₁ : 1 < b₁) (small : ∀ d ∈ L, d < b₁) :
    convert b₂ b₁ (convert b₁ b₂ L) = L := by
  obtain ⟨split, lead⟩ := replicate_append_dropWhile L
  have restSmall : ∀ d ∈ L.dropWhile (· = 0), d < b₁ :=
    fun d mem => small d (List.dropWhile_subset _ mem)
  have zeros : leadingZeros (convert b₁ b₂ L) = leadingZeros L :=
    leadingZeros_replicate_append _ (head?_minimal b₂ _)
  have converted : value b₂ (convert b₁ b₂ L) = value b₁ (L.dropWhile (· = 0)) := by
    rw [convert, value_replicate_append, value_minimal]
    conv => lhs; rw [← split]
    rw [value_replicate_append]
  rw [convert, zeros, converted, minimal_value base₁ restSmall lead, split]

end Numeral
