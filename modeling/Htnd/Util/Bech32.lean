import Htnd.Lib.GoSemantics
import Htnd.Lib.Positional

/-!
Bech32 (util/bech32: bech32.go), the encoding of addresses: a prefix, the separator `:`, and the
payload with its version byte regrouped from bytes into groups of 5 bits, each written as a
character of the charset, followed by an 8-character BCH checksum over the prefix and the data.

Go strings are byte strings: the model reads them as lists of bytes. `strings.ToLower` and
`strings.ToUpper` are read on ASCII, which is all that reaches them after the range check.
-/
namespace Bech32
open GoSemantics

def asciiBytes (text : String) : List UInt8 := text.toList.map fun c => c.toNat.toUInt8

def charset : List UInt8 := asciiBytes "qpzry9x8gf2tvdw0s3jn54khce6mua7l"

def checksumLength : Nat := 8

structure ConversionType where
  fromBits : UInt8
  toBits : UInt8
  pad : Bool

def fiveToEightBits : ConversionType := ⟨5, 8, false⟩

def eightToFiveBits : ConversionType := ⟨8, 5, true⟩

def generator : List Nat := [0x98f2bc8e61, 0x79b76d99e2, 0xf33e5fb3c4, 0xae2eabe2a8, 0x1e4f43e470]

inductive Bech32Error where
  /-- "invalid bech32 string length %d" -/
  | invalidLength (length : Nat)
  /-- "invalid character in string: '%c'" -/
  | invalidCharacter (char : UInt8)
  /-- "string not all lowercase or all uppercase" -/
  | mixedCase
  /-- "invalid index of ':'" -/
  | invalidColonIndex
  /-- "failed converting data to bytes: invalid character not part of charset: %c" -/
  | notInCharset (char : UInt8)
  /-- "checksum failed. Expected %s, got %s" -/
  | checksumFailed (expected got : List UInt8)
  deriving DecidableEq, Repr

/-! ### Regrouping bits -/

structure Regrouping where
  regrouped : List UInt8
  nextByte : UInt8
  filledBits : UInt8
  deriving DecidableEq, Repr

def extractBits (conversionType : ConversionType) : Nat → UInt8 → UInt8 → Regrouping → Regrouping
  | 0, _, _, r => r
  | fuel + 1, b, remainingFromBits, r =>
    if remainingFromBits > 0 then
      let remainingToBits := conversionType.toBits - r.filledBits
      let toExtract := if remainingToBits < remainingFromBits then remainingToBits else remainingFromBits
      let nextByte := shiftLeftUInt8 r.nextByte toExtract ||| shiftRightUInt8 b (8 - toExtract)
      let filledBits := r.filledBits + toExtract
      if filledBits = conversionType.toBits then
        extractBits conversionType fuel (shiftLeftUInt8 b toExtract) (remainingFromBits - toExtract)
          ⟨r.regrouped ++ [nextByte], 0, 0⟩
      else
        extractBits conversionType fuel (shiftLeftUInt8 b toExtract) (remainingFromBits - toExtract)
          ⟨r.regrouped, nextByte, filledBits⟩
    else r

def regroupByte (conversionType : ConversionType) (r : Regrouping) (b : UInt8) : Regrouping :=
  extractBits conversionType conversionType.fromBits.toNat
    (shiftLeftUInt8 b (8 - conversionType.fromBits)) conversionType.fromBits r

def convertBits (data : List UInt8) (conversionType : ConversionType) : List UInt8 :=
  let r := data.foldl (regroupByte conversionType) ⟨[], 0, 0⟩
  if conversionType.pad && r.filledBits > 0 then
    r.regrouped ++ [shiftLeftUInt8 r.nextByte (conversionType.toBits - r.filledBits)]
  else r.regrouped

theorem convertBits_of_not_pad {data : List UInt8} {conversionType : ConversionType}
    (noPad : conversionType.pad = false) :
    convertBits data conversionType =
      (data.foldl (regroupByte conversionType) ⟨[], 0, 0⟩).regrouped := by
  simp [convertBits, noPad]

/-! ### The checksum -/

def polyModStep (checksum value : Nat) : Nat :=
  let topBits := checksum >>> 35
  generator.zipIdx.foldl
    (fun checksum (g, i) => if (topBits >>> i) &&& 1 = 1 then checksum ^^^ g else checksum)
    (((checksum &&& 0x07ffffffff) <<< 5) ^^^ value)

def polyMod (values : List Nat) : Nat :=
  values.foldl polyModStep 1 ^^^ 1

def prefixToUint5Array (pfx : List UInt8) : List Nat :=
  pfx.map fun char => (char &&& 31).toNat

def ints (payload : List UInt8) : List Nat :=
  payload.map UInt8.toNat

def calculateChecksum (pfx payload : List UInt8) : List UInt8 :=
  let polyModResult :=
    polyMod (prefixToUint5Array pfx ++ [0] ++ ints payload ++ List.replicate 8 0)
  (List.range checksumLength).map fun i =>
    ((polyModResult >>> (5 * (checksumLength - 1 - i))) &&& 31).toUInt8

def verifyChecksum (pfx payload : List UInt8) : Bool :=
  polyMod (prefixToUint5Array pfx ++ [0] ++ ints payload) == 0

/-! ### The characters -/

def encodeToBase32 (data : List UInt8) : List UInt8 :=
  (data.mapM fun b => charset[b.toNat]?).getD []

def decodeFromBase32 (base32String : List UInt8) : Except Bech32Error (List UInt8) :=
  base32String.mapM fun c =>
    match charset.idxOf? c with
    | none => .error (.notInCharset c)
    | some index => .ok index.toUInt8

def toLowerByte (c : UInt8) : UInt8 := if 65 ≤ c ∧ c ≤ 90 then c + 32 else c

def toUpperByte (c : UInt8) : UInt8 := if 97 ≤ c ∧ c ≤ 122 then c - 32 else c

def toLower (s : List UInt8) : List UInt8 := s.map toLowerByte

def toUpper (s : List UInt8) : List UInt8 := s.map toUpperByte

def lastIndexFrom (c : UInt8) : List UInt8 → Nat → Int → Int
  | [], _, found => found
  | x :: rest, i, found => lastIndexFrom c rest (i + 1) (if x = c then i else found)

def lastIndexByte (s : List UInt8) (c : UInt8) : Int :=
  lastIndexFrom c s 0 (-1)

/-! ### Encoding and decoding -/

def encode (pfx data : List UInt8) : List UInt8 :=
  let checksum := calculateChecksum pfx data
  pfx ++ asciiBytes ":" ++ encodeToBase32 (data ++ checksum)

def Encode (pfx payload : List UInt8) (version : UInt8) : List UInt8 :=
  encode pfx (convertBits (version :: payload) eightToFiveBits)

def decode (encoded : List UInt8) : Except Bech32Error (List UInt8 × List UInt8) :=
  if encoded.length < checksumLength + 2 then .error (.invalidLength encoded.length)
  else
    match encoded.find? fun c => c < 33 || c > 126 with
    | some c => .error (.invalidCharacter c)
    | none =>
      if encoded ≠ toLower encoded ∧ encoded ≠ toUpper encoded then .error .mixedCase
      else
        let encoded := toLower encoded
        let colonIndex := lastIndexByte encoded 58
        if colonIndex < 1 ∨ colonIndex + checksumLength + 1 > encoded.length then
          .error .invalidColonIndex
        else do
          let pfx := encoded.take colonIndex.toNat
          let decoded ← decodeFromBase32 (encoded.drop (colonIndex.toNat + 1))
          if !verifyChecksum pfx decoded then
            .error (.checksumFailed
              (encodeToBase32 (calculateChecksum pfx (decoded.take (decoded.length - checksumLength))))
              (encoded.drop (encoded.length - checksumLength)))
          else pure (pfx, decoded.take (decoded.length - checksumLength))

/-- `Decode`: the prefix, the payload and the version byte; it reads the version byte as
    `converted[0]`, which panics when the data regroups into no byte. -/
def Decode (encoded : List UInt8) : Except Panic (Except Bech32Error (List UInt8 × List UInt8 × UInt8)) :=
  match decode encoded with
  | .error e => pure (.error e)
  | .ok (pfx, decoded) => do
    let converted := convertBits decoded fiveToEightBits
    let version ← sliceIndex converted 0
    let payload ← sliceFrom converted 1
    pure (.ok (pfx, payload, version))

/-! ### `convertBits` regroups bits -/

open Positional

namespace Regrouping

structure Holds (toBits : Nat) (r : Regrouping) (bits : List Bool) : Prop where
  groups_lt : ∀ g ∈ r.regrouped, g.toNat < 2 ^ toBits
  filled_lt : r.filledBits.toNat < toBits
  nextByte_lt : r.nextByte.toNat < 2 ^ r.filledBits.toNat
  bits_eq : r.regrouped.flatMap (fun g => bitsOf toBits g.toNat) ++
    bitsOf r.filledBits.toNat r.nextByte.toNat = bits

variable {toBits : Nat} {r : Regrouping} {bits : List Bool}

theorem holds_empty (positive : 0 < toBits) : Holds toBits ⟨[], 0, 0⟩ [] :=
  ⟨by simp, positive, by simp, rfl⟩

theorem nextByte_mul_add_lt {f t nb hi : Nat} (nbSmall : nb < 2 ^ f) (hiSmall : hi < 2 ^ t) :
    nb * 2 ^ t + hi < 2 ^ (f + t) := by
  have room : (nb + 1) * 2 ^ t ≤ 2 ^ f * 2 ^ t := Nat.mul_le_mul_right _ nbSmall
  rw [Nat.pow_add]
  rw [Nat.add_mul, Nat.one_mul] at room
  omega

section Fill

variable (holds : Holds toBits r bits) {t hi : Nat} (hiSmall : hi < 2 ^ t) {nextByte : UInt8}
  (next : nextByte.toNat = r.nextByte.toNat * 2 ^ t + hi)
include holds hiSmall next

theorem Holds.fill_full (full : r.filledBits.toNat + t = toBits) :
    Holds toBits ⟨r.regrouped ++ [nextByte], 0, 0⟩ (bits ++ bitsOf t hi) where
  groups_lt g mem := by
    rcases List.mem_append.1 mem with old | new
    · exact holds.groups_lt g old
    · rw [List.mem_singleton.1 new, next, ← full]
      exact nextByte_mul_add_lt holds.nextByte_lt hiSmall
  filled_lt := Nat.lt_of_le_of_lt (Nat.zero_le _) holds.filled_lt
  nextByte_lt := by simp
  bits_eq := by
    rw [← holds.bits_eq, List.flatMap_append, List.flatMap_singleton, next, ← full,
      bitsOf_mul_add hiSmall]
    simp [bitsOf]

theorem Holds.fill_partial (room : r.filledBits.toNat + t < toBits) {filled : UInt8}
    (filledEq : filled.toNat = r.filledBits.toNat + t) :
    Holds toBits ⟨r.regrouped, nextByte, filled⟩ (bits ++ bitsOf t hi) where
  groups_lt := holds.groups_lt
  filled_lt := filledEq ▸ room
  nextByte_lt := by
    rw [next, filledEq]
    exact nextByte_mul_add_lt holds.nextByte_lt hiSmall
  bits_eq := by
    rw [← holds.bits_eq, next, filledEq, bitsOf_mul_add hiSmall, List.append_assoc]

end Fill

end Regrouping

theorem mul_two_pow_mod {k : Nat} (le : k ≤ 8) (v : Nat) :
    v * 2 ^ (8 - k) % 2 ^ 8 = v % 2 ^ k * 2 ^ (8 - k) := by
  rw [show 2 ^ 8 = 2 ^ k * 2 ^ (8 - k) by rw [← Nat.pow_add, Nat.add_sub_cancel' le],
    Nat.mul_mod_mul_right]

theorem mul_two_pow_div {rem t : Nat} (le : t ≤ rem) (le8 : rem ≤ 8) (v : Nat) :
    v * 2 ^ (8 - rem) / 2 ^ (8 - t) = v / 2 ^ (rem - t) := by
  rw [show 2 ^ (8 - t) = 2 ^ (rem - t) * 2 ^ (8 - rem) by rw [← Nat.pow_add]; congr 1; omega,
    Nat.mul_div_mul_right _ _ (Nat.two_pow_pos _)]

theorem extractBits_turn {b nextByte t remaining : UInt8} {v : Nat} (tPos : 0 < t.toNat)
    (tLt : t.toNat < 8) (tLe : t.toNat ≤ remaining.toNat) (le8 : remaining.toNat ≤ 8)
    (vSmall : v < 2 ^ remaining.toNat) (bEq : b.toNat = v * 2 ^ (8 - remaining.toNat))
    (shifted : nextByte.toNat * 2 ^ t.toNat < 256) :
    v / 2 ^ (remaining.toNat - t.toNat) < 2 ^ t.toNat ∧
      (shiftLeftUInt8 nextByte t ||| shiftRightUInt8 b (8 - t)).toNat =
        nextByte.toNat * 2 ^ t.toNat + v / 2 ^ (remaining.toNat - t.toNat) ∧
      (shiftLeftUInt8 b t).toNat =
        v % 2 ^ (remaining.toNat - t.toNat) * 2 ^ (8 - (remaining.toNat - t.toNat)) := by
  have hiEq : (shiftRightUInt8 b (8 - t)).toNat = v / 2 ^ (remaining.toNat - t.toNat) := by
    have eight : (8 - t).toNat = 8 - t.toNat :=
      UInt8.toNat_sub_of_le _ _ (UInt8.le_iff_toNat_le.2 (Nat.le_of_lt tLt))
    rw [toNat_shiftRightUInt8 (by omega), eight, bEq, mul_two_pow_div tLe le8]
  have hiSmall : v / 2 ^ (remaining.toNat - t.toNat) < 2 ^ t.toNat := by
    rw [Nat.div_lt_iff_lt_mul (Nat.two_pow_pos _), ← Nat.pow_add]
    exact lt_of_lt_of_le vSmall (Nat.pow_le_pow_right (by decide) (by omega))
  refine ⟨hiSmall, ?_, ?_⟩
  · rw [UInt8.toNat_or, toNat_shiftLeftUInt8 tLt, Nat.mod_eq_of_lt shifted, hiEq, Nat.mul_comm,
      Nat.two_pow_add_eq_or_of_lt hiSmall]
  · rw [toNat_shiftLeftUInt8 tLt, bEq, Nat.mul_assoc, ← Nat.pow_add,
      show 8 - remaining.toNat + t.toNat = 8 - (remaining.toNat - t.toNat) by omega]
    exact mul_two_pow_mod (by omega) v

theorem extractBits_holds {ct : ConversionType} (toSmall : ct.toBits.toNat ≤ 8) :
    ∀ (fuel : Nat) {b remaining : UInt8} {r : Regrouping} {bits : List Bool} {v : Nat},
      Regrouping.Holds ct.toBits.toNat r bits → remaining.toNat ≤ fuel → remaining.toNat ≤ 8 →
      (remaining.toNat < 8 ∨ ct.toBits.toNat < 8) → v < 2 ^ remaining.toNat →
      b.toNat = v * 2 ^ (8 - remaining.toNat) →
      Regrouping.Holds ct.toBits.toNat (extractBits ct fuel b remaining r)
        (bits ++ bitsOf remaining.toNat v)
  | 0, b, remaining, r, bits, v, holds, enough, _, _, _, _ => by
    rw [Nat.le_zero.1 enough, bitsOf_zero_width, List.append_nil]
    exact holds
  | fuel + 1, b, remaining, r, bits, v, holds, enough, le8, narrow, vSmall, bEq => by
    by_cases zero : remaining.toNat = 0
    · have idle : extractBits ct (fuel + 1) b remaining r = r := by
        simp [extractBits, UInt8.lt_iff_toNat_lt, zero]
      rw [idle, zero, bitsOf_zero_width, List.append_nil]
      exact holds
    have fLt := holds.filled_lt
    have gap : (ct.toBits - r.filledBits).toNat = ct.toBits.toNat - r.filledBits.toNat :=
      UInt8.toNat_sub_of_le _ _ (UInt8.le_iff_toNat_le.2 fLt.le)
    generalize tEq : (if ct.toBits - r.filledBits < remaining then ct.toBits - r.filledBits
      else remaining) = t
    have tVal : t.toNat = min (ct.toBits.toNat - r.filledBits.toNat) remaining.toNat := by
      rw [← tEq]
      split <;> rename_i lt <;> simp only [UInt8.lt_iff_toNat_lt, gap] at lt ⊢ <;> omega
    have turn : extractBits ct (fuel + 1) b remaining r =
        if r.filledBits + t = ct.toBits then
          extractBits ct fuel (shiftLeftUInt8 b t) (remaining - t)
            ⟨r.regrouped ++ [shiftLeftUInt8 r.nextByte t ||| shiftRightUInt8 b (8 - t)], 0, 0⟩
        else
          extractBits ct fuel (shiftLeftUInt8 b t) (remaining - t)
            ⟨r.regrouped, shiftLeftUInt8 r.nextByte t ||| shiftRightUInt8 b (8 - t),
              r.filledBits + t⟩ := by
      have positive : remaining > 0 := UInt8.lt_iff_toNat_lt.2 (Nat.pos_of_ne_zero zero)
      rw [← tEq]
      simp only [extractBits, if_pos positive]
    have tLt : t.toNat < 8 := by omega
    have shifted : r.nextByte.toNat * 2 ^ t.toNat < 256 := by
      have below := Regrouping.nextByte_mul_add_lt holds.nextByte_lt (Nat.two_pow_pos t.toNat)
      rw [Nat.add_zero] at below
      exact lt_of_lt_of_le below
        (le_trans (Nat.pow_le_pow_right (by decide) (by omega)) (by decide : 2 ^ 8 ≤ 256))
    obtain ⟨hiSmall, nextEq, restEq⟩ :=
      extractBits_turn (by omega) tLt (by omega) le8 vSmall bEq shifted
    have filledEq : (r.filledBits + t).toNat = r.filledBits.toNat + t.toNat := by
      rw [UInt8.toNat_add, Nat.mod_eq_of_lt (by omega)]
    have remainingEq : (remaining - t).toNat = remaining.toNat - t.toNat :=
      UInt8.toNat_sub_of_le _ _ (UInt8.le_iff_toNat_le.2 (by omega))
    have split : bits ++ bitsOf remaining.toNat v =
        bits ++ bitsOf t.toNat (v / 2 ^ (remaining.toNat - t.toNat)) ++
          bitsOf (remaining.toNat - t.toNat) (v % 2 ^ (remaining.toNat - t.toNat)) := by
      rw [bitsOf_mod, List.append_assoc, ← bitsOf_add, Nat.add_sub_cancel' (by omega)]
    obtain ⟨next, turnEq, filled⟩ : ∃ next, extractBits ct (fuel + 1) b remaining r =
        extractBits ct fuel (shiftLeftUInt8 b t) (remaining - t) next ∧
        Regrouping.Holds ct.toBits.toNat next
          (bits ++ bitsOf t.toNat (v / 2 ^ (remaining.toNat - t.toNat))) := by
      rw [turn]
      split
      · rename_i full
        have fullNat : r.filledBits.toNat + t.toNat = ct.toBits.toNat := by
          rw [← filledEq, UInt8.toNat_inj.2 full]
        exact ⟨_, rfl, holds.fill_full hiSmall nextEq fullNat⟩
      · rename_i notFull
        have room : r.filledBits.toNat + t.toNat < ct.toBits.toNat := by
          have ne : r.filledBits.toNat + t.toNat ≠ ct.toBits.toNat := fun same =>
            notFull (UInt8.toNat_inj.1 (filledEq.trans same))
          omega
        exact ⟨_, rfl, holds.fill_partial hiSmall nextEq room filledEq⟩
    rw [turnEq, split]
    have step := @extractBits_holds ct toSmall fuel (shiftLeftUInt8 b t) (remaining - t) _ _
      (v % 2 ^ (remaining.toNat - t.toNat)) filled
    rw [remainingEq] at step
    exact step (by omega) (by omega) (by omega) (Nat.mod_lt _ (Nat.two_pow_pos _)) restEq

section Conversion

variable {ct : ConversionType} (toSmall : ct.toBits.toNat ≤ 8) (fromSmall : ct.fromBits.toNat ≤ 8)
  (narrow : ct.fromBits.toNat < 8 ∨ ct.toBits.toNat < 8)
include toSmall fromSmall narrow

theorem regroupByte_holds {r : Regrouping} {bits : List Bool}
    (holds : Regrouping.Holds ct.toBits.toNat r bits) (b : UInt8) :
    Regrouping.Holds ct.toBits.toNat (regroupByte ct r b) (bits ++ bitsOf ct.fromBits.toNat b.toNat) := by
  have shifted : (shiftLeftUInt8 b (8 - ct.fromBits)).toNat =
      b.toNat % 2 ^ ct.fromBits.toNat * 2 ^ (8 - ct.fromBits.toNat) := by
    have eight : (8 - ct.fromBits).toNat = 8 - ct.fromBits.toNat :=
      UInt8.toNat_sub_of_le _ _ (UInt8.le_iff_toNat_le.2 fromSmall)
    by_cases none : ct.fromBits.toNat = 0
    · have out : ¬ (8 - ct.fromBits < 8) := by
        rw [UInt8.lt_iff_toNat_lt, eight, none]
        decide
      simp [shiftLeftUInt8, out, none, Nat.mod_one]
    · rw [toNat_shiftLeftUInt8 (by omega), eight]
      exact mul_two_pow_mod fromSmall _
  rw [← bitsOf_mod]
  exact extractBits_holds toSmall _ holds (le_refl _) fromSmall narrow
    (Nat.mod_lt _ (Nat.two_pow_pos _)) shifted

theorem foldl_regroupByte_holds :
    ∀ (data : List UInt8) {r : Regrouping} {bits : List Bool},
      Regrouping.Holds ct.toBits.toNat r bits →
      Regrouping.Holds ct.toBits.toNat (data.foldl (regroupByte ct) r)
        (bits ++ data.flatMap fun b => bitsOf ct.fromBits.toNat b.toNat)
  | [], _, _, holds => by simpa using holds
  | b :: rest, _, _, holds => by
    rw [List.foldl_cons, List.flatMap_cons, ← List.append_assoc]
    exact foldl_regroupByte_holds rest (regroupByte_holds toSmall fromSmall narrow holds b)

end Conversion

theorem eightToFive_bits (data : List UInt8) :
    (∀ g ∈ convertBits data eightToFiveBits, g.toNat < 2 ^ 5) ∧
      ∃ pad < 5, (convertBits data eightToFiveBits).flatMap (fun g => bitsOf 5 g.toNat) =
        data.flatMap (fun b => bitsOf 8 b.toNat) ++ List.replicate pad false := by
  have holds := @foldl_regroupByte_holds eightToFiveBits (by decide) (by decide)
    (by decide) data _ _ (Regrouping.holds_empty (by decide))
  simp only [convertBits]
  generalize data.foldl (regroupByte eightToFiveBits) ⟨[], 0, 0⟩ = r at holds ⊢
  rw [List.nil_append] at holds
  rw [show eightToFiveBits.toBits.toNat = 5 from rfl,
    show eightToFiveBits.fromBits.toNat = 8 from rfl] at holds
  have fLt : r.filledBits.toNat < 5 := holds.filled_lt
  have nbLt := holds.nextByte_lt
  by_cases empty : r.filledBits.toNat = 0
  · have none : ¬ (eightToFiveBits.pad && r.filledBits > 0) := by
      simp [UInt8.lt_iff_toNat_lt, empty]
    simp only [if_neg none]
    refine ⟨holds.groups_lt, 0, by decide, ?_⟩
    rw [← holds.bits_eq, empty, bitsOf_zero_width, List.replicate_zero, List.append_nil,
      List.append_nil]
  have some : eightToFiveBits.pad && r.filledBits > 0 := by
    simp [eightToFiveBits, UInt8.lt_iff_toNat_lt, Nat.pos_of_ne_zero empty]
  have gap : (eightToFiveBits.toBits - r.filledBits).toNat = 5 - r.filledBits.toNat :=
    UInt8.toNat_sub_of_le _ _ (UInt8.le_iff_toNat_le.2 fLt.le)
  have lastLt : r.nextByte.toNat * 2 ^ (5 - r.filledBits.toNat) + 0 < 2 ^ 5 := by
    have below := Regrouping.nextByte_mul_add_lt nbLt (Nat.two_pow_pos (5 - r.filledBits.toNat))
    rwa [Nat.add_sub_cancel' fLt.le] at below
  have lastEq : (shiftLeftUInt8 r.nextByte (eightToFiveBits.toBits - r.filledBits)).toNat =
      r.nextByte.toNat * 2 ^ (5 - r.filledBits.toNat) + 0 := by
    rw [toNat_shiftLeftUInt8 (by omega), gap, Nat.mod_eq_of_lt (by omega), Nat.add_zero]
  simp only [if_pos some]
  refine ⟨?_, 5 - r.filledBits.toNat, by omega, ?_⟩
  · intro g mem
    rcases List.mem_append.1 mem with old | new
    · exact holds.groups_lt g old
    · rw [List.mem_singleton.1 new, lastEq]
      exact lastLt
  · have bitsLast := bitsOf_mul_add (Nat.two_pow_pos (5 - r.filledBits.toNat))
      r.filledBits.toNat r.nextByte.toNat
    rw [Nat.add_sub_cancel' fLt.le] at bitsLast
    rw [← holds.bits_eq, List.flatMap_append, List.flatMap_singleton, lastEq, bitsLast,
      bitsOf_zero, List.append_assoc]

theorem convertBits_roundTrip (data : List UInt8) :
    convertBits (convertBits data eightToFiveBits) fiveToEightBits = data := by
  obtain ⟨small, pad, padLt, groups⟩ := eightToFive_bits data
  have holds := @foldl_regroupByte_holds fiveToEightBits (by decide) (by decide)
    (by decide) (convertBits data eightToFiveBits) _ _ (Regrouping.holds_empty (by decide))
  rw [convertBits_of_not_pad rfl]
  generalize (convertBits data eightToFiveBits).foldl (regroupByte fiveToEightBits) ⟨[], 0, 0⟩ = r
    at holds ⊢
  have spelled := holds.bits_eq
  rw [List.nil_append] at spelled
  change r.regrouped.flatMap (fun g => bitsOf 8 g.toNat) ++ bitsOf r.filledBits.toNat r.nextByte.toNat
    = (convertBits data eightToFiveBits).flatMap (fun g => bitsOf 5 g.toNat) at spelled
  rw [groups] at spelled
  have fLt : r.filledBits.toNat < 8 := holds.filled_lt
  have sameLength : (r.regrouped.flatMap fun g => bitsOf 8 g.toNat).length =
      (data.flatMap fun b => bitsOf 8 b.toNat).length := by
    have total := congrArg List.length spelled
    simp only [List.length_append, length_bitsOf, List.length_replicate,
      length_flatMap_bitsOf] at total ⊢
    omega
  have bytes := (List.append_inj spelled sameLength).1
  rw [← List.flatMap_map UInt8.toNat (bitsOf 8), ← List.flatMap_map UInt8.toNat (bitsOf 8)] at bytes
  have groupsLt : ∀ x ∈ r.regrouped.map UInt8.toNat, x < 2 ^ 8 := by
    simp only [List.mem_map]
    rintro _ ⟨g, mem, rfl⟩
    exact holds.groups_lt g mem
  have dataLt : ∀ x ∈ data.map UInt8.toNat, x < 2 ^ 8 := by
    simp only [List.mem_map]
    rintro _ ⟨b, -, rfl⟩
    exact UInt8.toNat_lt b
  have nats := eq_of_flatMap_bitsOf_eq (by decide : 0 < 8) groupsLt dataLt bytes
  exact List.map_injective_iff.2 (fun a b same => UInt8.toNat_inj.1 same) nats

/-! ### The checksum is linear in exclusive or -/

def foldGenerator (topBits acc : Nat) (terms : List (Nat × Nat)) : Nat :=
  terms.foldl (fun checksum (g, i) => if (topBits >>> i) &&& 1 = 1 then checksum ^^^ g else checksum)
    acc

theorem polyModStep_eq (checksum value : Nat) :
    polyModStep checksum value =
      foldGenerator (checksum >>> 35) (((checksum &&& 0x07ffffffff) <<< 5) ^^^ value)
        generator.zipIdx := rfl

theorem foldGenerator_cons (topBits acc g i : Nat) (terms : List (Nat × Nat)) :
    foldGenerator topBits acc ((g, i) :: terms) =
      foldGenerator topBits (if (topBits >>> i) &&& 1 = 1 then acc ^^^ g else acc) terms := rfl

theorem tests_iff_testBit (x i : Nat) : (x >>> i) &&& 1 = 1 ↔ x.testBit i = true := by
  simp [Nat.and_one_is_mod, Nat.shiftRight_eq_div_pow, Nat.testBit_eq_decide_div_mod_eq]

theorem foldGenerator_acc (topBits : Nat) :
    ∀ (terms : List (Nat × Nat)) (a b : Nat),
      foldGenerator topBits (a ^^^ b) terms = a ^^^ foldGenerator topBits b terms
  | [], _, _ => rfl
  | (g, i) :: terms, a, b => by
    rw [foldGenerator_cons, foldGenerator_cons]
    by_cases tested : (topBits >>> i) &&& 1 = 1
    · rw [if_pos tested, if_pos tested, Nat.xor_assoc]
      exact foldGenerator_acc topBits terms a (b ^^^ g)
    · rw [if_neg tested, if_neg tested]
      exact foldGenerator_acc topBits terms a b

theorem foldGenerator_eq (topBits acc : Nat) (terms : List (Nat × Nat)) :
    foldGenerator topBits acc terms = acc ^^^ foldGenerator topBits 0 terms := by
  rw [← foldGenerator_acc, Nat.xor_zero]

theorem foldGenerator_xor (t u : Nat) :
    ∀ terms : List (Nat × Nat),
      foldGenerator (t ^^^ u) 0 terms = foldGenerator t 0 terms ^^^ foldGenerator u 0 terms
  | [] => by simp [foldGenerator]
  | (g, i) :: terms => by
    have first : ∀ x, foldGenerator x 0 ((g, i) :: terms) =
        (if x.testBit i then g else 0) ^^^ foldGenerator x 0 terms := by
      intro x
      rw [← foldGenerator_acc]
      simp only [foldGenerator, List.foldl_cons, tests_iff_testBit]
      split <;> simp
    rw [first, first, first, foldGenerator_xor t u terms, Nat.testBit_xor]
    cases t.testBit i <;> cases u.testBit i
    case true.true =>
      simp only [Bool.xor_self, if_true, Bool.false_eq_true, if_false, Nat.zero_xor]
      have cancel : ∀ a b : Nat, g ^^^ a ^^^ (g ^^^ b) = (g ^^^ g) ^^^ (a ^^^ b) := by
        intro a b
        ac_rfl
      rw [cancel, Nat.xor_self, Nat.zero_xor]
    all_goals simp only [Bool.xor_false, Bool.false_xor, if_true, Bool.false_eq_true, if_false,
      Nat.zero_xor]
    all_goals ac_rfl

theorem foldGenerator_zero (acc : Nat) (terms : List (Nat × Nat)) :
    foldGenerator 0 acc terms = acc := by
  induction terms generalizing acc with
  | nil => rfl
  | cons term terms ih =>
    simp only [foldGenerator, List.foldl_cons, Nat.zero_shiftRight, Nat.zero_and] at ih ⊢
    exact ih acc

theorem polyModStep_xor (c d v w : Nat) :
    polyModStep (c ^^^ d) (v ^^^ w) = polyModStep c v ^^^ polyModStep d w := by
  rw [polyModStep_eq, polyModStep_eq, polyModStep_eq, foldGenerator_eq ((c ^^^ d) >>> 35),
    foldGenerator_eq (c >>> 35), foldGenerator_eq (d >>> 35), Nat.shiftRight_xor_distrib, foldGenerator_xor, Nat.and_xor_distrib_right,
    Nat.shiftLeft_xor_distrib]
  ac_rfl

theorem foldl_polyModStep_xor :
    ∀ (vs ws : List Nat) (c d : Nat), vs.length = ws.length →
      (List.zipWith (· ^^^ ·) vs ws).foldl polyModStep (c ^^^ d) =
        vs.foldl polyModStep c ^^^ ws.foldl polyModStep d
  | [], [], _, _, _ => rfl
  | v :: vs, w :: ws, c, d, same => by
    rw [List.zipWith_cons_cons, List.foldl_cons, polyModStep_xor, List.foldl_cons,
      List.foldl_cons]
    exact foldl_polyModStep_xor vs ws _ _ (Nat.succ.inj same)

theorem zipWith_replicate_zero_xor (ws : List Nat) :
    List.zipWith (· ^^^ ·) (List.replicate ws.length 0) ws = ws := by
  induction ws with
  | nil => rfl
  | cons w ws ih => simp [List.replicate_succ, ih]

theorem foldl_polyModStep_split (c : Nat) (ws : List Nat) :
    ws.foldl polyModStep c =
      (List.replicate ws.length 0).foldl polyModStep c ^^^ ws.foldl polyModStep 0 := by
  have split := foldl_polyModStep_xor (List.replicate ws.length 0) ws c 0 (by simp)
  rwa [zipWith_replicate_zero_xor, Nat.xor_zero] at split

/-! ### The checksum reads back -/

theorem polyModStep_of_lt {s v : Nat} (small : s < 2 ^ 35) (vSmall : v < 2 ^ 5) :
    polyModStep s v = s * 2 ^ 5 + v := by
  have top : s >>> 35 = 0 := by
    rw [Nat.shiftRight_eq_div_pow, Nat.div_eq_of_lt small]
  have low : s &&& 0x07ffffffff = s := by
    rw [show (0x07ffffffff : Nat) = 2 ^ 35 - 1 from rfl, Nat.and_two_pow_sub_one_eq_mod,
      Nat.mod_eq_of_lt small]
  rw [polyModStep_eq, top, foldGenerator_zero, low, Nat.shiftLeft_eq, mul_two_pow_xor_eq_add vSmall]

theorem foldl_polyModStep_digitsOf (x : Nat) :
    ∀ k, k ≤ 8 → (digitsOf 5 k x).foldl polyModStep 0 = x % 2 ^ (5 * k)
  | 0, _ => by simp [digitsOf, Nat.mod_one]
  | k + 1, le => by
    have high := foldl_polyModStep_digitsOf (x >>> 5) k (by omega)
    have highSmall : (x >>> 5) % 2 ^ (5 * k) < 2 ^ 35 :=
      lt_of_lt_of_le (Nat.mod_lt _ (Nat.two_pow_pos _)) (Nat.pow_le_pow_right (by decide) (by omega))
    have lowSmall : x &&& (2 ^ 5 - 1) < 2 ^ 5 := by
      rw [Nat.and_two_pow_sub_one_eq_mod]
      exact Nat.mod_lt _ (Nat.two_pow_pos _)
    rw [digitsOf, List.foldl_append, high, List.foldl_cons, List.foldl_nil,
      polyModStep_of_lt highSmall lowSmall, Nat.and_two_pow_sub_one_eq_mod, Nat.shiftRight_eq_div_pow,
      Nat.mul_succ, Nat.pow_add, Nat.mul_comm (2 ^ (5 * k)), Nat.mod_mul, Nat.add_comm,
      Nat.mul_comm (x / 2 ^ 5 % 2 ^ (5 * k))]

theorem foldGenerator_lt {n : Nat} (topBits : Nat) :
    ∀ (terms : List (Nat × Nat)) {acc : Nat}, (∀ p ∈ terms, p.1 < 2 ^ n) → acc < 2 ^ n →
      foldGenerator topBits acc terms < 2 ^ n
  | [], _, _, small => small
  | (g, i) :: terms, acc, termsSmall, small => by
    rw [foldGenerator_cons]
    apply foldGenerator_lt topBits terms (fun p mem => termsSmall p (List.mem_cons_of_mem _ mem))
    split
    · exact Nat.xor_lt_two_pow small (termsSmall (g, i) List.mem_cons_self)
    · exact small

theorem polyModStep_lt (c : Nat) {v : Nat} (small : v < 2 ^ 40) : polyModStep c v < 2 ^ 40 := by
  have masked : c &&& 0x07ffffffff < 2 ^ 35 :=
    Nat.lt_of_le_of_lt Nat.and_le_right (by decide)
  have shifted : (c &&& 0x07ffffffff) <<< 5 < 2 ^ 40 := by
    rw [Nat.shiftLeft_eq]
    omega
  rw [polyModStep_eq]
  exact foldGenerator_lt _ _ (by decide) (Nat.xor_lt_two_pow shifted small)

theorem foldl_polyModStep_lt :
    ∀ (values : List Nat) {c : Nat}, (∀ v ∈ values, v < 2 ^ 40) → c < 2 ^ 40 →
      values.foldl polyModStep c < 2 ^ 40
  | [], _, _, small => small
  | v :: values, c, valuesSmall, _ =>
    foldl_polyModStep_lt values (fun w mem => valuesSmall w (List.mem_cons_of_mem _ mem))
      (polyModStep_lt c (valuesSmall v List.mem_cons_self))

theorem polyMod_lt {values : List Nat} (small : ∀ v ∈ values, v < 2 ^ 40) : polyMod values < 2 ^ 40 :=
  Nat.xor_lt_two_pow (foldl_polyModStep_lt values small (by decide)) (by decide)

theorem ints_calculateChecksum (pfx payload : List UInt8) :
    ints (calculateChecksum pfx payload) =
      digitsOf 5 8 (polyMod (prefixToUint5Array pfx ++ [0] ++ ints payload ++ List.replicate 8 0)) := by
  rw [digitsOf_eq_map_range, ints, calculateChecksum, List.map_map]
  apply List.map_congr_left
  intro i _
  have small : (polyMod (prefixToUint5Array pfx ++ [0] ++ ints payload ++ List.replicate 8 0) >>>
      (5 * (8 - 1 - i)) &&& 31) < 2 ^ 8 :=
    Nat.lt_of_le_of_lt Nat.and_le_right (by decide)
  simp only [Function.comp, Nat.toUInt8_eq, UInt8.toNat_ofNat', checksumLength]
  rw [Nat.mod_eq_of_lt small]
  rfl

theorem verifyChecksum_calculateChecksum (pfx payload : List UInt8) :
    verifyChecksum pfx (payload ++ calculateChecksum pfx payload) = true := by
  generalize cEq : (prefixToUint5Array pfx ++ [0] ++ ints payload).foldl polyModStep 1 = c
  generalize PEq : polyMod (prefixToUint5Array pfx ++ [0] ++ ints payload ++ List.replicate 8 0) = P
  have valuesSmall : ∀ v ∈ prefixToUint5Array pfx ++ [0] ++ ints payload ++ List.replicate 8 0,
      v < 2 ^ 40 := by
    intro v mem
    simp only [prefixToUint5Array, ints, List.mem_append, List.mem_map, List.mem_singleton,
      List.mem_replicate] at mem
    rcases mem with ((⟨char, -, rfl⟩ | rfl) | ⟨b, -, rfl⟩) | ⟨-, rfl⟩
    · exact Nat.lt_trans (UInt8.toNat_lt _) (by decide)
    · decide
    · exact Nat.lt_trans (UInt8.toNat_lt _) (by decide)
    · decide
  have PLt : P < 2 ^ 40 := PEq ▸ polyMod_lt valuesSmall
  have zeros : (List.replicate 8 0).foldl polyModStep c = P ^^^ 1 := by
    rw [← PEq, polyMod, List.foldl_append, cEq, Nat.xor_assoc, Nat.xor_self, Nat.xor_zero]
  have digits : (digitsOf 5 8 P).foldl polyModStep 0 = P := by
    rw [foldl_polyModStep_digitsOf P 8 (le_refl 8), Nat.mod_eq_of_lt PLt]
  have cancel : P ^^^ 1 ^^^ P ^^^ 1 = (P ^^^ P) ^^^ (1 ^^^ 1) := by ac_rfl
  rw [verifyChecksum, ints, List.map_append, ← ints, ← ints, ints_calculateChecksum, PEq,
    ← List.append_assoc, polyMod, List.foldl_append, cEq, foldl_polyModStep_split, length_digitsOf,
    zeros, digits, cancel, Nat.xor_self, Nat.xor_self, Nat.xor_zero]
  rfl

theorem calculateChecksum_lt {pfx payload : List UInt8} :
    ∀ b ∈ calculateChecksum pfx payload, b.toNat < 32 := by
  intro b mem
  have digit : b.toNat ∈ ints (calculateChecksum pfx payload) := List.mem_map_of_mem mem
  rw [ints_calculateChecksum] at digit
  exact digitsOf_lt digit

theorem length_calculateChecksum (pfx payload : List UInt8) :
    (calculateChecksum pfx payload).length = 8 := by
  simp [calculateChecksum, checksumLength]

/-! ### The characters read back -/

def charOf (v : Nat) : UInt8 := charset.getD v 0

section Charset

variable {v : Nat} (small : v < 32)
include small

theorem getElem?_charset : charset[v]? = some (charOf v) := by
  have all : ∀ v : Fin 32, charset[v.val]? = some (charOf v) := by decide
  exact all ⟨v, small⟩

theorem idxOf?_charOf : charset.idxOf? (charOf v) = some v := by
  have all : ∀ v : Fin 32, charset.idxOf? (charOf v) = some v.val := by decide
  exact all ⟨v, small⟩

theorem charOf_printable : 33 ≤ charOf v ∧ charOf v ≤ 126 := by
  have all : ∀ v : Fin 32, 33 ≤ charOf v ∧ charOf v ≤ 126 := by decide
  exact all ⟨v, small⟩

theorem toLowerByte_charOf : toLowerByte (charOf v) = charOf v := by
  have all : ∀ v : Fin 32, toLowerByte (charOf v) = charOf v := by decide
  exact all ⟨v, small⟩

theorem charOf_ne_colon : charOf v ≠ 58 := by
  have all : ∀ v : Fin 32, charOf v ≠ 58 := by decide
  exact all ⟨v, small⟩

end Charset

theorem encodeToBase32_of_lt {data : List UInt8} (small : ∀ b ∈ data, b.toNat < 32) :
    encodeToBase32 data = data.map fun b => charOf b.toNat := by
  have written : ∀ {data : List UInt8}, (∀ b ∈ data, b.toNat < 32) →
      data.mapM (fun b => charset[b.toNat]?) = some (data.map fun b => charOf b.toNat) := by
    intro data
    induction data with
    | nil => intro _; rfl
    | cons b data ih =>
      intro small
      rw [List.mapM_cons, getElem?_charset (small b List.mem_cons_self),
        ih (fun c mem => small c (List.mem_cons_of_mem _ mem))]
      rfl
  rw [encodeToBase32, written small]
  rfl

theorem decodeFromBase32_map : ∀ {data : List UInt8}, (∀ b ∈ data, b.toNat < 32) →
    decodeFromBase32 (data.map fun b => charOf b.toNat) = .ok data
  | [], _ => rfl
  | b :: data, small => by
    have rest := decodeFromBase32_map (fun c mem => small c (List.mem_cons_of_mem _ mem))
    simp only [decodeFromBase32, List.map_cons, List.mapM_cons] at rest ⊢
    rw [idxOf?_charOf (small b List.mem_cons_self), rest]
    simp only [Nat.toUInt8_eq, UInt8.ofNat_toNat]
    rfl

/-! ### The last separator -/

theorem lastIndexFrom_append (c : UInt8) (l rest : List UInt8) (i : Nat) (found : Int) :
    lastIndexFrom c (l ++ rest) i found = lastIndexFrom c rest (i + l.length) (lastIndexFrom c l i found) := by
  induction l generalizing i found with
  | nil => rfl
  | cons x l ih =>
    rw [List.cons_append, lastIndexFrom, ih, lastIndexFrom, List.length_cons, Nat.add_assoc,
      Nat.add_comm 1]

theorem lastIndexFrom_of_not_mem {c : UInt8} {rest : List UInt8} (absent : c ∉ rest) (i : Nat)
    (found : Int) : lastIndexFrom c rest i found = found := by
  induction rest generalizing i with
  | nil => rfl
  | cons x rest ih =>
    have other : x ≠ c := fun same => absent (same ▸ List.mem_cons_self)
    rw [lastIndexFrom, if_neg other, ih (fun mem => absent (List.mem_cons_of_mem _ mem))]

theorem lastIndexByte_separator (pfx rest : List UInt8) (absent : (58 : UInt8) ∉ rest) :
    lastIndexByte (pfx ++ 58 :: rest) 58 = pfx.length := by
  rw [lastIndexByte, lastIndexFrom_append, lastIndexFrom, if_pos rfl,
    lastIndexFrom_of_not_mem absent, Nat.zero_add]

/-! ### Round trip -/

theorem append_calculateChecksum_lt {pfx data : List UInt8} (small : ∀ b ∈ data, b.toNat < 32) :
    ∀ b ∈ data ++ calculateChecksum pfx data, b.toNat < 32 := by
  intro b mem
  rcases List.mem_append.1 mem with inData | inChecksum
  · exact small b inData
  · exact calculateChecksum_lt b inChecksum

theorem encode_eq {pfx data : List UInt8} (small : ∀ b ∈ data, b.toNat < 32) :
    encode pfx data =
      pfx ++ 58 :: (data ++ calculateChecksum pfx data).map fun b => charOf b.toNat := by
  rw [encode, encodeToBase32_of_lt (append_calculateChecksum_lt small), show asciiBytes ":" = [58] by decide,
    List.append_assoc]
  rfl

theorem printable_of_all {pfx : List UInt8} (checked : pfx.all (fun c => decide (33 ≤ c ∧ c ≤ 126)) = true) :
    ∀ c ∈ pfx, 33 ≤ c ∧ c ≤ 126 := by
  simpa using checked

structure ValidPrefix (pfx : List UInt8) : Prop where
  nonempty : pfx ≠ []
  printable : ∀ c ∈ pfx, 33 ≤ c ∧ c ≤ 126
  lowercase : toLower pfx = pfx

theorem decode_encode {pfx data : List UInt8} (valid : ValidPrefix pfx)
    (small : ∀ b ∈ data, b.toNat < 32) :
    decode (encode pfx data) = .ok (pfx, data) := by
  have allSmall : ∀ b ∈ data ++ calculateChecksum pfx data, b.toNat < 32 :=
    append_calculateChecksum_lt small
  rw [encode_eq small]
  generalize charsEq : (data ++ calculateChecksum pfx data).map (fun b => charOf b.toNat) = chars
  have charsOf : ∀ c ∈ chars, ∃ v < 32, c = charOf v := by
    rw [← charsEq]
    intro c mem
    obtain ⟨b, inData, rfl⟩ := List.mem_map.1 mem
    exact ⟨b.toNat, allSmall b inData, rfl⟩
  have pfxLength : 0 < pfx.length := List.length_pos_iff.2 valid.nonempty
  have charsLength : chars.length = data.length + 8 := by
    rw [← charsEq, List.length_map, List.length_append, length_calculateChecksum]
  have long : ¬ (pfx ++ 58 :: chars).length < checksumLength + 2 := by
    simp only [List.length_append, List.length_cons, charsLength, checksumLength]
    omega
  have inRange : (pfx ++ 58 :: chars).find? (fun c => c < 33 || c > 126) = none := by
    rw [List.find?_eq_none]
    intro c mem
    simp only [Bool.or_eq_true, decide_eq_true_eq, not_or, UInt8.not_lt]
    rcases List.mem_append.1 mem with inPfx | inRest
    · exact valid.printable c inPfx
    rcases List.mem_cons.1 inRest with rfl | inChars
    · decide
    obtain ⟨v, vSmall, rfl⟩ := charsOf c inChars
    exact charOf_printable vSmall
  have lower : toLower (pfx ++ 58 :: chars) = pfx ++ 58 :: chars := by
    have charsLower : toLower chars = chars := by
      refine (List.map_congr_left ?_).trans (List.map_id chars)
      intro c mem
      obtain ⟨v, vSmall, rfl⟩ := charsOf c mem
      exact toLowerByte_charOf vSmall
    have split : toLower (pfx ++ 58 :: chars) = toLower pfx ++ toLowerByte 58 :: toLower chars := by
      simp [toLower]
    rw [split, valid.lowercase, charsLower, show toLowerByte 58 = 58 by decide]
  have colon : lastIndexByte (pfx ++ 58 :: chars) 58 = pfx.length := by
    apply lastIndexByte_separator
    intro mem
    obtain ⟨v, vSmall, same⟩ := charsOf 58 mem
    exact charOf_ne_colon vSmall same.symm
  have colonFits : ¬ ((pfx.length : Int) < 1 ∨
      (pfx.length : Int) + checksumLength + 1 > ((pfx ++ 58 :: chars).length : Int)) := by
    simp only [List.length_append, List.length_cons, charsLength, checksumLength]
    omega
  have pfxPart : (pfx ++ 58 :: chars).take (pfx.length : Int).toNat = pfx := by simp
  have dataPart : (pfx ++ 58 :: chars).drop ((pfx.length : Int).toNat + 1) = chars := by simp
  have decoded : decodeFromBase32 chars = .ok (data ++ calculateChecksum pfx data) :=
    charsEq ▸ decodeFromBase32_map allSmall
  have payloadPart : (data ++ calculateChecksum pfx data).take
      ((data ++ calculateChecksum pfx data).length - checksumLength) = data := by
    simp [length_calculateChecksum, checksumLength]
  rw [decode, if_neg long, inRange]
  simp only [lower, ne_eq, not_true_eq_false, false_and, if_false, colon, if_neg colonFits,
    pfxPart, dataPart, decoded, bind, Except.bind, verifyChecksum_calculateChecksum,
    Bool.not_true, Bool.false_eq_true, payloadPart]
  rfl

theorem Decode_Encode_of_valid {pfx : List UInt8} (valid : ValidPrefix pfx)
    (payload : List UInt8) (version : UInt8) :
    Decode (Encode pfx payload version) = .ok (.ok (pfx, payload, version)) := by
  have small : ∀ b ∈ convertBits (version :: payload) eightToFiveBits, b.toNat < 32 :=
    (eightToFive_bits _).1
  rw [Decode, Encode, decode_encode valid small]
  simp only [convertBits_roundTrip, sliceIndex_zero_cons,
    sliceFrom_of_le (by simp : 1 ≤ (version :: payload).length), List.drop_succ_cons, List.drop_zero]
  rfl

theorem Decode_Encode {pfx : List UInt8} (nonempty : pfx ≠ [])
    (printable : ∀ c ∈ pfx, 33 ≤ c ∧ c ≤ 126) (lowercase : toLower pfx = pfx)
    (payload : List UInt8) (version : UInt8) :
    Decode (Encode pfx payload version) = .ok (.ok (pfx, payload, version)) :=
  Decode_Encode_of_valid ⟨nonempty, printable, lowercase⟩ payload version

theorem Decode_Encode_hoosat :
    asciiBytes "hoosat" ≠ [] ∧ (∀ c ∈ asciiBytes "hoosat", 33 ≤ c ∧ c ≤ 126) ∧
      toLower (asciiBytes "hoosat") = asciiBytes "hoosat" ∧
      Decode (Encode (asciiBytes "hoosat") [7, 0, 255] 1) =
        .ok (.ok (asciiBytes "hoosat", [7, 0, 255], 1)) :=
  ⟨by decide, printable_of_all (by decide), by decide,
    Decode_Encode (by decide) (printable_of_all (by decide)) (by decide) _ _⟩

/-- A string whose data part is a valid checksum and nothing more decodes to no data, which
    regroups into no byte: `Decode` panics reading the version byte. -/
theorem Decode_panics_on_checksum_only :
    Decode (asciiBytes "a:3x3dxu9w") = .error (.indexOutOfRange 0 0) := by
  decide

end Bech32
