import Htnd.Txscript.Stack
import Htnd.Lib.GoSemantics
import Mathlib.Data.FinEnum

/-!
The encoding of script numbers (txscript/scriptnum.go: scriptNum.Bytes), against its reading
back by checkMinimalDataEncoding and makeScriptNum.

Bytes writes the magnitude of an int64 least significant byte first and puts the sign in the
high bit of the last byte, or in a byte of its own when the magnitude uses that bit. It takes the
magnitude as -n in int64, which wraps for the most negative int64: the loop then writes no byte,
and reading the last one panics. Every other int64 is written minimally, in at most eight bytes,
and makeScriptNum reads it back; and every minimal encoding of at most eight bytes is what Bytes
writes for the number makeScriptNum reads from it.
-/
namespace Txscript
open GoSemantics (Panic sliceIndex)

def ScriptNum.bytes (n : Int64) : Except Panic (List UInt8) :=
  if n = 0 then .ok []
  else
    let isNegative := n < 0
    let magnitude := if isNegative then -n else n
    -- the loop while the magnitude is positive: an int64 has at most eight bytes, and a magnitude
    -- that wrapped to a negative value takes no turn
    let result := LittleEndian.trimmedBytes 8 magnitude.toInt.toNat
    do
      let top ← sliceIndex result (result.length - 1)
      if top &&& 0x80 ≠ 0 then pure (result ++ [if isNegative then 0x80 else 0x00])
      else if isNegative then pure (result.set (result.length - 1) (top ||| 0x80))
      else pure result

theorem bytes_minValue_panics : ScriptNum.bytes Int64.minValue = .error (.indexOutOfRange (-1) 0) := by
  decide

/-! The sign bit of a byte and the seven bits below it, over all bytes. -/

section SignBit

set_option maxRecDepth 20000

theorem signBit_eq_zero_iff : ∀ b : UInt8, b &&& 0x80 = 0 ↔ b.toNat < 128 := by decide

theorem low_eq_self : ∀ b : UInt8, b &&& 0x80 = 0 → b &&& 0x7f = b := by decide

theorem low_or_signBit : ∀ b : UInt8, b &&& 0x80 = 0 → (b ||| 0x80) &&& 0x7f = b := by decide

theorem signBit_or : ∀ b : UInt8, (b ||| 0x80) &&& 0x80 ≠ 0 := by decide

theorem signBit_low : ∀ b : UInt8, (b &&& 0x7f) &&& 0x80 = 0 := by decide

theorem low_or_of_signBit : ∀ b : UInt8, b &&& 0x80 ≠ 0 → (b &&& 0x7f) ||| 0x80 = b := by decide

theorem eq_of_low_eq_zero : ∀ b : UInt8, b &&& 0x7f = 0 → b = 0 ∨ b = 0x80 := by decide

end SignBit

/-! Reading an encoding back: its last byte carries the sign. -/

theorem checkMinimalDataEncoding_append_singleton (init : List UInt8) (t : UInt8) :
    checkMinimalDataEncoding (init ++ [t]) = .ok () ↔
      t &&& 0x7f ≠ 0 ∨ ∃ p, init.getLast? = some p ∧ p &&& 0x80 ≠ 0 := by
  have below : init.getLast? = init.reverse.head? := List.head?_reverse.symm
  simp only [checkMinimalDataEncoding, List.reverse_append, List.reverse_singleton,
    List.singleton_append]
  split_ifs with low
  · cases reversed : init.reverse with
    | nil => simp [reversed, low] at below ⊢; simp [below]
    | cons next rest =>
      simp only [reversed, List.head?_cons] at below
      dsimp only
      split_ifs with nextLow <;> simp [low, below, nextLow]
  · simp [low]

theorem makeScriptNum_append_singleton {init : List UInt8} {t : UInt8} {L : Nat}
    (short : (init ++ [t]).length ≤ L) (atMost : L ≤ 8)
    (minimal : checkMinimalDataEncoding (init ++ [t]) = .ok ()) :
    makeScriptNum (init ++ [t]) L = .ok (if t &&& 0x80 ≠ 0
      then -(LittleEndian.value (init ++ [t &&& 0x7f]) : Int)
      else LittleEndian.value (init ++ [t])) := by
  unfold makeScriptNum
  rw [if_neg (by omega), if_neg (by omega), minimal]
  simp only [List.reverse_append, List.reverse_singleton, List.singleton_append,
    List.reverse_reverse]
  split_ifs <;> rfl

/-! Writing a number: the magnitude, its bytes, and the sign. -/

theorem natAbs_lt_of_ne_minValue {n : Int64} (notMin : n ≠ Int64.minValue) :
    n.toInt.natAbs < 2 ^ 63 := by
  have above : n.toInt ≠ -2 ^ 63 := fun same =>
    notMin (Int64.toInt_inj.1 (same.trans Int64.toInt_minValue.symm))
  have := n.le_toInt
  have := n.toInt_lt
  omega

theorem magnitude_toNat {n : Int64} (notMin : n ≠ Int64.minValue) :
    (if n < 0 then -n else n).toInt.toNat = n.toInt.natAbs := by
  have small := natAbs_lt_of_ne_minValue notMin
  split_ifs with negative
  · rw [Int64.lt_iff_toInt_lt, Int64.toInt_zero] at negative
    rw [Int64.toInt_neg, Int.bmod_eq_of_le (by omega) (by omega)]
    omega
  · rw [Int64.lt_iff_toInt_lt, Int64.toInt_zero] at negative
    omega

theorem bytes_of_trimmedBytes {n : Int64} (nonzero : n ≠ 0) (notMin : n ≠ Int64.minValue)
    {init : List UInt8} {top : UInt8}
    (written : LittleEndian.trimmedBytes 8 n.toInt.natAbs = init ++ [top]) :
    ScriptNum.bytes n = .ok (if top &&& 0x80 ≠ 0 then init ++ [top, if n < 0 then 0x80 else 0]
      else if n < 0 then init ++ [top ||| 0x80] else init ++ [top]) := by
  unfold ScriptNum.bytes
  simp only [if_neg nonzero, magnitude_toNat notMin, written]
  rw [GoSemantics.sliceIndex_last_append]
  simp only [bind, Except.bind, pure, Except.pure]
  split_ifs <;> simp [List.set_append_right]

theorem makeScriptNum_of_sign {init : List UInt8} {t : UInt8} {n : Int64}
    (short : (init ++ [t]).length ≤ 8) (minimal : checkMinimalDataEncoding (init ++ [t]) = .ok ())
    (magnitude : LittleEndian.value (init ++ [t &&& 0x7f]) = n.toInt.natAbs)
    (sign : t &&& 0x80 ≠ 0 ↔ n < 0) : makeScriptNum (init ++ [t]) 8 = .ok n.toInt := by
  rw [makeScriptNum_append_singleton short le_rfl minimal]
  rw [Int64.lt_iff_toInt_lt, Int64.toInt_zero] at sign
  split_ifs with high
  · have negative := sign.1 high
    rw [magnitude]
    congr 1
    omega
  · have nonnegative := mt sign.2 high
    rw [← low_eq_self t (not_not.1 high), magnitude]
    congr 1
    omega

theorem trimmedBytes_magnitude {m : Nat} (positive : 0 < m) (small : m < 2 ^ 63) :
    ∃ init top, LittleEndian.trimmedBytes 8 m = init ++ [top] ∧ top ≠ 0 ∧
      LittleEndian.value (init ++ [top]) = m ∧ init.length < 8 := by
  have fits : m < 256 ^ 8 := lt_trans small (by decide)
  have readBack := LittleEndian.value_trimmedBytes fits
  have short := LittleEndian.length_trimmedBytes_le 8 m
  have trimmed := LittleEndian.getLast?_trimmedBytes fits
  rcases List.eq_nil_or_concat (LittleEndian.trimmedBytes 8 m) with empty | ⟨init, top, written⟩
  · rw [empty] at readBack
    exact absurd readBack.symm (Nat.pos_iff_ne_zero.1 positive)
  · rw [List.concat_eq_append] at written
    rw [written] at readBack short trimmed
    refine ⟨init, top, written, fun zero => trimmed (by simp [zero]), readBack, ?_⟩
    simp only [List.length_append, List.length_singleton] at short
    omega

theorem value_lt_of_signBit {init : List UInt8} {t : UInt8} (short : init.length < 8)
    (low : t.toNat < 128) : LittleEndian.value (init ++ [t]) < 2 ^ 63 := by
  have below := LittleEndian.value_lt init
  have power : 256 ^ init.length ≤ 256 ^ 7 := Nat.pow_le_pow_right (by decide) (by omega)
  rw [LittleEndian.value_append_singleton]
  calc LittleEndian.value init + 256 ^ init.length * t.toNat
      < 256 ^ init.length * (t.toNat + 1) := by rw [Nat.mul_succ]; omega
    _ ≤ 256 ^ 7 * 128 := Nat.mul_le_mul power low
    _ = 2 ^ 63 := by decide

theorem length_lt_seven_of_signBit {init : List UInt8} {t : UInt8} (high : 128 ≤ t.toNat)
    (small : LittleEndian.value (init ++ [t]) < 2 ^ 63) : init.length < 7 := by
  rw [LittleEndian.value_append_singleton] at small
  have atLeast : 256 ^ init.length * 128 ≤ 256 ^ init.length * t.toNat := Nat.mul_le_mul_left _ high
  have power : 256 ^ init.length < 256 ^ 7 := by
    have : 256 ^ init.length * 128 < 256 ^ 7 * 128 := by
      calc 256 ^ init.length * 128 < 2 ^ 63 := by omega
        _ = 256 ^ 7 * 128 := by decide
    exact Nat.lt_of_mul_lt_mul_right this
  exact (Nat.pow_lt_pow_iff_right (by decide)).1 power

theorem natAbs_pos_of_ne_zero {n : Int64} (nonzero : n ≠ 0) : 0 < n.toInt.natAbs := by
  have : n.toInt ≠ 0 := fun zero => nonzero (Int64.toInt_inj.1 (zero.trans Int64.toInt_zero.symm))
  omega

theorem bytes_readBack {n : Int64} (notMin : n ≠ Int64.minValue) :
    ∃ v, ScriptNum.bytes n = .ok v ∧ checkMinimalDataEncoding v = .ok () ∧ v.length ≤ 8 ∧
      makeScriptNum v 8 = .ok n.toInt := by
  by_cases zero : n = 0
  · subst zero
    exact ⟨[], rfl, rfl, by simp, rfl⟩
  obtain ⟨init, top, written, nonzero, readBack, short⟩ :=
    trimmedBytes_magnitude (natAbs_pos_of_ne_zero zero) (natAbs_lt_of_ne_minValue notMin)
  rw [bytes_of_trimmedBytes zero notMin written]
  by_cases high : top &&& 0x80 ≠ 0
  · -- the magnitude uses the sign bit: the sign takes a byte of its own
    have sevenBytes : init.length < 7 := by
      have topHigh : 128 ≤ top.toNat := Nat.not_lt.1 (mt (signBit_eq_zero_iff top).2 high)
      exact length_lt_seven_of_signBit topHigh (readBack ▸ natAbs_lt_of_ne_minValue notMin)
    have signLow : (if n < 0 then (0x80 : UInt8) else 0) &&& 0x7f = 0 := by split_ifs <;> decide
    have signHigh : (if n < 0 then (0x80 : UInt8) else 0) &&& 0x80 ≠ 0 ↔ n < 0 := by
      split_ifs with negative <;> simp [negative]
    rw [if_pos high]
    generalize (if n < 0 then (0x80 : UInt8) else 0) = sign at signLow signHigh ⊢
    have shape : init ++ [top, sign] = (init ++ [top]) ++ [sign] := by simp
    have minimal := (checkMinimalDataEncoding_append_singleton (init ++ [top]) sign).2
      (.inr ⟨top, by simp, high⟩)
    refine ⟨_, by rw [shape], minimal, by simp; omega, ?_⟩
    apply makeScriptNum_of_sign (by simp; omega) minimal _ signHigh
    rw [signLow, LittleEndian.value_append_singleton, readBack]
    simp
  · have low := not_not.1 high
    have topLow : top &&& 0x7f ≠ 0 := by rwa [low_eq_self top low]
    by_cases negative : n < 0
    · have minimal := (checkMinimalDataEncoding_append_singleton init (top ||| 0x80)).2
        (.inl (by rwa [low_or_signBit top low, ← low_eq_self top low]))
      refine ⟨_, by rw [if_neg high, if_pos negative], minimal, by simp; omega, ?_⟩
      apply makeScriptNum_of_sign (by simp; omega) minimal
      · rw [low_or_signBit top low, readBack]
      · exact iff_of_true (signBit_or top) negative
    · have minimal := (checkMinimalDataEncoding_append_singleton init top).2 (.inl topLow)
      refine ⟨_, by rw [if_neg high, if_neg negative], minimal, by simp; omega, ?_⟩
      apply makeScriptNum_of_sign (by simp; omega) minimal
      · rw [low_eq_self top low, readBack]
      · exact iff_of_false high negative

theorem toInt_ofInt_signed {m : Nat} (small : m < 2 ^ 63) (negative : Prop) [Decidable negative] :
    (Int64.ofInt (if negative then -(m : Int) else m)).toInt = if negative then -(m : Int) else m := by
  apply Int64.toInt_ofInt_of_le <;> split_ifs <;> omega

theorem value_pos_of_minimal {init : List UInt8} {t : UInt8}
    (minimal : checkMinimalDataEncoding (init ++ [t]) = .ok ()) :
    0 < LittleEndian.value (init ++ [t &&& 0x7f]) := by
  rcases (checkMinimalDataEncoding_append_singleton init t).1 minimal with lowSet | ⟨p, last, pHigh⟩
  · exact LittleEndian.value_pos_of_getLast? (by simp) lowSet
  · have pNonzero : p ≠ 0 := fun zero => pHigh (by rw [zero]; decide)
    have below := LittleEndian.value_pos_of_getLast? last pNonzero
    rw [LittleEndian.value_append_singleton]
    omega

theorem bytes_makeScriptNum {v : List UInt8} {L : Nat} (short : v.length ≤ L) (atMost : L ≤ 8)
    (minimal : checkMinimalDataEncoding v = .ok ()) :
    ∃ k, makeScriptNum v L = .ok k ∧ ScriptNum.bytes (Int64.ofInt k) = .ok v := by
  rcases List.eq_nil_or_concat v with rfl | ⟨init, t, rfl⟩
  · exact ⟨0, by simp [makeScriptNum, checkMinimalDataEncoding], rfl⟩
  rw [List.concat_eq_append] at short minimal ⊢
  have initShort : init.length < 8 := by
    simp only [List.length_append, List.length_singleton] at short
    omega
  have small : LittleEndian.value (init ++ [t &&& 0x7f]) < 2 ^ 63 :=
    value_lt_of_signBit initShort ((signBit_eq_zero_iff _).1 (signBit_low t))
  have positive := value_pos_of_minimal minimal
  have decoded : makeScriptNum (init ++ [t]) L = .ok (if t &&& 0x80 ≠ 0
      then -(LittleEndian.value (init ++ [t &&& 0x7f]) : Int)
      else LittleEndian.value (init ++ [t &&& 0x7f])) := by
    rw [makeScriptNum_append_singleton short atMost minimal]
    split_ifs with high
    · rfl
    · rw [low_eq_self t (not_not.1 high)]
  refine ⟨_, decoded, ?_⟩
  have value := toInt_ofInt_signed small (t &&& 0x80 ≠ 0)
  generalize Int64.ofInt _ = n at value ⊢
  have natAbs : n.toInt.natAbs = LittleEndian.value (init ++ [t &&& 0x7f]) := by
    rw [value]
    split_ifs <;> omega
  have sign : n < 0 ↔ t &&& 0x80 ≠ 0 := by
    rw [Int64.lt_iff_toInt_lt, Int64.toInt_zero, value]
    split_ifs with high
    · exact iff_of_true (by omega) high
    · exact iff_of_false (by omega) high
  have nonzero : n ≠ 0 := fun zero => by simp [zero] at natAbs; omega
  have notMin : n ≠ Int64.minValue := fun isMin => by
    rw [isMin, Int64.toInt_minValue] at natAbs
    omega
  by_cases lowSet : t &&& 0x7f ≠ 0
  · have written : LittleEndian.trimmedBytes 8 n.toInt.natAbs = init ++ [t &&& 0x7f] := by
      rw [natAbs, LittleEndian.trimmedBytes_value (by simp; omega) (by simpa using lowSet)]
    rw [bytes_of_trimmedBytes nonzero notMin written, if_neg (not_not.2 (signBit_low t))]
    by_cases high : t &&& 0x80 ≠ 0
    · rw [if_pos (sign.2 high), low_or_of_signBit t high]
    · rw [if_neg (mt sign.1 high), low_eq_self t (not_not.1 high)]
  · -- the last byte holds only the sign, so the magnitude ends at the byte before it
    obtain ⟨p, last, pHigh⟩ :=
      ((checkMinimalDataEncoding_append_singleton init t).1 minimal).resolve_left lowSet
    obtain ⟨magnitudeInit, rfl⟩ := List.getLast?_eq_some_iff.1 last
    have pNonzero : p ≠ 0 := fun zero => pHigh (by rw [zero]; decide)
    have written : LittleEndian.trimmedBytes 8 n.toInt.natAbs = magnitudeInit ++ [p] := by
      rw [natAbs, not_not.1 lowSet, LittleEndian.value_append_singleton, UInt8.toNat_zero,
        Nat.mul_zero, Nat.add_zero,
        LittleEndian.trimmedBytes_value (by simp at initShort ⊢; omega) (by simpa using pNonzero)]
    rw [bytes_of_trimmedBytes nonzero notMin written, if_pos pHigh, List.append_assoc]
    rcases eq_of_low_eq_zero t (not_not.1 lowSet) with rfl | rfl
    · rw [if_neg (mt sign.1 (by decide))]
      rfl
    · rw [if_pos (sign.2 (by decide))]
      rfl

theorem scriptNum_roundTrip :
    (∀ n : Int64, n ≠ Int64.minValue → ∃ v, ScriptNum.bytes n = .ok v ∧
      checkMinimalDataEncoding v = .ok () ∧ v.length ≤ 8 ∧ makeScriptNum v 8 = .ok n.toInt) ∧
    (∀ (v : List UInt8) (L : Nat), v.length ≤ L → L ≤ 8 → checkMinimalDataEncoding v = .ok () →
      ∃ k, makeScriptNum v L = .ok k ∧ ScriptNum.bytes (Int64.ofInt k) = .ok v) :=
  ⟨fun _ notMin => bytes_readBack notMin,
    fun _ _ short atMost minimal => bytes_makeScriptNum short atMost minimal⟩

theorem scriptNum_roundTrip_minus_255 :
    (∃ v, ScriptNum.bytes (-255) = .ok v ∧ checkMinimalDataEncoding v = .ok () ∧ v.length ≤ 8 ∧
      makeScriptNum v 8 = .ok (-255 : Int64).toInt) ∧
    (∃ k, makeScriptNum [0xff, 0x80] 2 = .ok k ∧ ScriptNum.bytes (Int64.ofInt k) = .ok [0xff, 0x80]) :=
  ⟨scriptNum_roundTrip.1 (-255) (by decide),
    scriptNum_roundTrip.2 [0xff, 0x80] 2 (by decide) (by decide) (by decide)⟩

end Txscript
