import Mathlib.Tactic.Ring
import Htnd.Lib.Numeral
import Htnd.Util.Bech32

/-!
Modified base58 (cmd/htnwallet/libhtnwallet/bip32/base58): a byte string is read as a big-endian
number and written in base 58 with the alphabet below, each leading zero byte as a leading '1';
decoding reads the characters back through the table b58, which marks bytes outside the
alphabet with 255. The big.Int arithmetic is arithmetic on Nat, and Bytes and SetBytes are the
big-endian digits in base 256.

Both are Numeral.convert between bases 256 and 58 with the characters of the alphabet for the
digits, so each undoes the other: on every byte string, and on every string over the alphabet.
-/
namespace Base58
open Bech32 (asciiBytes)

def alphabet : List UInt8 := asciiBytes "123456789ABCDEFGHJKLMNPQRSTUVWXYZabcdefghijkmnopqrstuvwxyz"

def alphabetIdx0 : UInt8 := '1'.toNat.toUInt8

def b58 : List UInt8 := [
  255, 255, 255, 255, 255, 255, 255, 255,
  255, 255, 255, 255, 255, 255, 255, 255,
  255, 255, 255, 255, 255, 255, 255, 255,
  255, 255, 255, 255, 255, 255, 255, 255,
  255, 255, 255, 255, 255, 255, 255, 255,
  255, 255, 255, 255, 255, 255, 255, 255,
  255, 0, 1, 2, 3, 4, 5, 6,
  7, 8, 255, 255, 255, 255, 255, 255,
  255, 9, 10, 11, 12, 13, 14, 15,
  16, 255, 17, 18, 19, 20, 21, 255,
  22, 23, 24, 25, 26, 27, 28, 29,
  30, 31, 32, 255, 255, 255, 255, 255,
  255, 33, 34, 35, 36, 37, 38, 39,
  40, 41, 42, 43, 255, 44, 45, 46,
  47, 48, 49, 50, 51, 52, 53, 54,
  55, 56, 57, 255, 255, 255, 255, 255,
  255, 255, 255, 255, 255, 255, 255, 255,
  255, 255, 255, 255, 255, 255, 255, 255,
  255, 255, 255, 255, 255, 255, 255, 255,
  255, 255, 255, 255, 255, 255, 255, 255,
  255, 255, 255, 255, 255, 255, 255, 255,
  255, 255, 255, 255, 255, 255, 255, 255,
  255, 255, 255, 255, 255, 255, 255, 255,
  255, 255, 255, 255, 255, 255, 255, 255,
  255, 255, 255, 255, 255, 255, 255, 255,
  255, 255, 255, 255, 255, 255, 255, 255,
  255, 255, 255, 255, 255, 255, 255, 255,
  255, 255, 255, 255, 255, 255, 255, 255,
  255, 255, 255, 255, 255, 255, 255, 255,
  255, 255, 255, 255, 255, 255, 255, 255,
  255, 255, 255, 255, 255, 255, 255, 255,
  255, 255, 255, 255, 255, 255, 255, 255]

def digitOf (c : UInt8) : UInt8 := b58.getD c.toNat 255

def charOf (d : Nat) : UInt8 := alphabet.getD d 0

def bigBytes (n : Nat) : List UInt8 := (Numeral.minimal 256 n).map UInt8.ofNat

def setBytes (b : List UInt8) : Nat := Numeral.value 256 (b.map UInt8.toNat)

def decodeLoop : List UInt8 → Nat → Nat → Option Nat
  | [], answer, _ => some answer
  | c :: rest, answer, j =>
    let tmp := digitOf c
    if tmp = 255 then none else decodeLoop rest (answer + tmp.toNat * j) (j * 58)

def Decode (b : List UInt8) : List UInt8 :=
  match decodeLoop b.reverse 0 1 with
  | none => []
  | some answer =>
    let tmpval := bigBytes answer
    let numZeros := (b.takeWhile (· = alphabetIdx0)).length
    List.replicate numZeros 0 ++ tmpval

def encodeLoop (x : Nat) : List UInt8 :=
  if x > 0 then charOf (x % 58) :: encodeLoop (x / 58) else []
termination_by x
decreasing_by omega

def Encode (b : List UInt8) : List UInt8 :=
  let x := setBytes b
  -- a '1' for each leading zero byte, then the whole reversed
  let answer := encodeLoop x ++ List.replicate (b.takeWhile (· = 0)).length alphabetIdx0
  answer.reverse

/-! ### The table b58 inverts the alphabet -/

section Alphabet
variable {c : UInt8} {d : Nat}

theorem digitOf_of_mem (mem : c ∈ alphabet) :
    (digitOf c).toNat < 58 ∧ charOf (digitOf c).toNat = c ∧ (digitOf c = 0 ↔ c = alphabetIdx0) := by
  have checked : alphabet.all (fun c => decide ((digitOf c).toNat < 58) && charOf (digitOf c).toNat == c &&
      ((digitOf c == 0) == (c == alphabetIdx0))) = true := by decide
  have this := List.all_eq_true.1 checked c mem
  simp only [Bool.and_eq_true, decide_eq_true_eq, beq_iff_eq] at this
  obtain ⟨⟨lt, inverse⟩, zero⟩ := this
  refine ⟨lt, inverse, ?_⟩
  simpa using zero

theorem charOf_of_lt (small : d < 58) : (digitOf (charOf d)).toNat = d ∧ charOf d ∈ alphabet := by
  have checked : (List.range 58).all (fun d => (digitOf (charOf d)).toNat == d && alphabet.contains (charOf d)) =
      true := by decide
  have this := List.all_eq_true.1 checked d (List.mem_range.2 small)
  simp only [Bool.and_eq_true, beq_iff_eq, List.contains_iff_mem] at this
  exact this

theorem charOf_zero : charOf 0 = alphabetIdx0 := rfl

end Alphabet

/-! ### The loops are the numerals of Numeral -/

theorem decodeLoop_of_mem {cs : List UInt8} (valid : ∀ c ∈ cs, c ∈ alphabet) (answer j : Nat) :
    decodeLoop cs answer j = some (answer + j * Nat.ofDigits 58 (cs.map fun c => (digitOf c).toNat)) := by
  induction cs generalizing answer j with
  | nil => simp [decodeLoop]
  | cons c cs ih =>
    obtain ⟨lt, -, -⟩ := digitOf_of_mem (valid c List.mem_cons_self)
    have known : digitOf c ≠ 255 := by
      intro unknown
      rw [unknown] at lt
      exact absurd lt (by decide)
    rw [decodeLoop, if_neg known, ih (fun c mem => valid c (List.mem_cons_of_mem _ mem)),
      List.map_cons, Nat.ofDigits_cons]
    congr 1
    ring

theorem encodeLoop_eq (x : Nat) : encodeLoop x = (Nat.digits 58 x).map charOf := by
  induction x using Nat.strong_induction_on with
  | _ x ih =>
    rw [encodeLoop]
    by_cases positive : x > 0
    · rw [if_pos positive, Nat.digits_def' (by decide) positive, List.map_cons, ih (x / 58) (by omega)]
    · rw [if_neg positive, show x = 0 by omega]
      rfl

theorem length_takeWhile_zero (b : List UInt8) :
    (b.takeWhile (· = 0)).length = Numeral.leadingZeros (b.map UInt8.toNat) := by
  induction b with
  | nil => rfl
  | cons x b ih =>
    by_cases zero : x = 0
    · simp [Numeral.leadingZeros, zero] at ih ⊢
      exact ih
    · have nonzero : x.toNat ≠ 0 := fun same => zero (UInt8.toNat_inj.1 same)
      simp [Numeral.leadingZeros, zero, nonzero]

theorem length_takeWhile_idx0 {s : List UInt8} (valid : ∀ c ∈ s, c ∈ alphabet) :
    (s.takeWhile (· = alphabetIdx0)).length = Numeral.leadingZeros (s.map fun c => (digitOf c).toNat) := by
  induction s with
  | nil => rfl
  | cons c s ih =>
    obtain ⟨-, -, zero⟩ := digitOf_of_mem (valid c List.mem_cons_self)
    have rest := ih (fun c mem => valid c (List.mem_cons_of_mem _ mem))
    by_cases first : c = alphabetIdx0
    · have digit : (digitOf c).toNat = 0 := by rw [zero.2 first]; rfl
      rw [List.takeWhile_cons_of_pos (by simp [first]), List.length_cons, rest, Numeral.leadingZeros,
        Numeral.leadingZeros, List.map_cons, List.takeWhile_cons_of_pos (by simp [digit]), List.length_cons]
    · have digit : (digitOf c).toNat ≠ 0 := fun same => first (zero.1 (UInt8.toNat_inj.1 same))
      simp [Numeral.leadingZeros, first, digit]

theorem Encode_eq (b : List UInt8) : Encode b = (Numeral.convert 256 58 (b.map UInt8.toNat)).map charOf := by
  rw [Encode, encodeLoop_eq, length_takeWhile_zero, Numeral.convert, List.reverse_append,
    List.reverse_replicate, setBytes, List.map_append, List.map_replicate, charOf_zero, Numeral.minimal,
    List.map_reverse]

theorem Decode_eq {s : List UInt8} (valid : ∀ c ∈ s, c ∈ alphabet) :
    Decode s = (Numeral.convert 58 256 (s.map fun c => (digitOf c).toNat)).map UInt8.ofNat := by
  have answer : decodeLoop s.reverse 0 1 = some (Numeral.value 58 (s.map fun c => (digitOf c).toNat)) := by
    rw [decodeLoop_of_mem (fun c mem => valid c (List.mem_reverse.1 mem)), Numeral.value, List.map_reverse]
    simp
  rw [Decode, answer]
  simp only
  rw [length_takeWhile_idx0 valid, Numeral.convert, List.map_append, List.map_replicate, bigBytes]
  rfl

theorem mem_alphabet_Encode (b : List UInt8) : ∀ c ∈ Encode b, c ∈ alphabet := by
  intro c mem
  rw [Encode_eq] at mem
  obtain ⟨d, digit, rfl⟩ := List.mem_map.1 mem
  exact (charOf_of_lt (Numeral.lt_of_mem_convert (by decide) digit)).2

theorem Decode_Encode_eq_self (b : List UInt8) : Decode (Encode b) = b := by
  have digits : ((Numeral.convert 256 58 (b.map UInt8.toNat)).map charOf).map (fun c => (digitOf c).toNat) =
      Numeral.convert 256 58 (b.map UInt8.toNat) := by
    rw [List.map_map]
    conv => rhs; rw [← List.map_id (Numeral.convert 256 58 (b.map UInt8.toNat))]
    apply List.map_congr_left
    intro d mem
    exact (charOf_of_lt (Numeral.lt_of_mem_convert (by decide) mem)).1
  have small : ∀ d ∈ b.map UInt8.toNat, d < 256 := by
    intro d mem
    obtain ⟨x, -, rfl⟩ := List.mem_map.1 mem
    exact x.toNat_lt
  rw [Decode_eq (mem_alphabet_Encode b), Encode_eq, digits, Numeral.convert_convert (by decide) small,
    List.map_map]
  conv => rhs; rw [← List.map_id b]
  apply List.map_congr_left
  intro x _
  simp

theorem Encode_Decode_eq_self {s : List UInt8} (valid : ∀ c ∈ s, c ∈ alphabet) : Encode (Decode s) = s := by
  have bytes : ((Numeral.convert 58 256 (s.map fun c => (digitOf c).toNat)).map UInt8.ofNat).map UInt8.toNat =
      Numeral.convert 58 256 (s.map fun c => (digitOf c).toNat) := by
    rw [List.map_map]
    conv => rhs; rw [← List.map_id (Numeral.convert 58 256 _)]
    apply List.map_congr_left
    intro d mem
    have small := Numeral.lt_of_mem_convert (by decide) mem
    simp only [Function.comp_apply, UInt8.toNat_ofNat', id]
    omega
  have small : ∀ d ∈ s.map fun c => (digitOf c).toNat, d < 58 := by
    intro d mem
    obtain ⟨c, cMem, rfl⟩ := List.mem_map.1 mem
    exact (digitOf_of_mem (valid c cMem)).1
  rw [Decode_eq valid, Encode_eq, bytes, Numeral.convert_convert (by decide) small, List.map_map]
  conv => rhs; rw [← List.map_id s]
  apply List.map_congr_left
  intro c mem
  exact (digitOf_of_mem (valid c mem)).2.1

set_option maxRecDepth 4000 in
/-- "11Ab": two leading ones, the zero digit, and digits of both cases. -/
theorem Encode_Decode_eq_self_leading_one :
    Encode (Decode [0x31, 0x31, 0x41, 0x62]) = [0x31, 0x31, 0x41, 0x62] :=
  Encode_Decode_eq_self (by decide)

/-! ### Base58Check (base58check.go)

The checksum is the first four bytes of sha256 applied twice; sha256.Sum256, with its [32]byte
result, is the parameter `sum256`, and the results hold whatever it computes. -/

inductive CheckError where
  /-- ErrChecksum: "checksum error" -/
  | checksum
  /-- ErrInvalidFormat: "invalid format: version and/or checksum bytes missing" -/
  | invalidFormat
  deriving DecidableEq, Repr

section Check
variable (sum256 : List UInt8 → Vector UInt8 32)

def checksum (input : List UInt8) : List UInt8 :=
  (sum256 (sum256 input).toList).toList.take 4

def CheckEncode (input : List UInt8) (version : UInt8) : List UInt8 :=
  let b := version :: input
  Encode (b ++ checksum sum256 b)

def CheckDecode (input : List UInt8) : Except CheckError (List UInt8 × UInt8) :=
  let decoded := Decode input
  if decoded.length < 5 then .error .invalidFormat
  else
    let version := decoded.headD 0
    let cksum := decoded.drop (decoded.length - 4)
    if checksum sum256 (decoded.take (decoded.length - 4)) ≠ cksum then .error .checksum
    else .ok ((decoded.drop 1).take (decoded.length - 5), version)

@[simp] theorem length_checksum (input : List UInt8) : (checksum sum256 input).length = 4 := by
  simp [checksum]

theorem CheckDecode_CheckEncode (input : List UInt8) (version : UInt8) :
    CheckDecode sum256 (CheckEncode sum256 input version) = .ok (input, version) := by
  have length : ((version :: input) ++ checksum sum256 (version :: input)).length = input.length + 5 := by
    simp
  have body : ((version :: input) ++ checksum sum256 (version :: input)).take (input.length + 1) =
      version :: input := List.take_left' (by simp)
  have sum : ((version :: input) ++ checksum sum256 (version :: input)).drop (input.length + 1) =
      checksum sum256 (version :: input) := List.drop_left' (by simp)
  rw [CheckDecode, CheckEncode, Decode_Encode_eq_self]
  simp only [length, show input.length + 5 - 4 = input.length + 1 by omega, body, sum, ne_eq,
    not_true_eq_false, if_false, show ¬ input.length + 5 < 5 by omega]
  simp

end Check

end Base58
