import Mathlib

/-!
Numbers written as a fixed number of bytes, least significant first, as Go's
binary.LittleEndian writes and reads them. A write keeps the value modulo the power of 256 of its
width, and reads back as that; so writes of one width of values that fit are injective, and
a write followed by anything else still reads back.
-/
namespace LittleEndian

def putBytes : Nat → Nat → List UInt8
  | 0, _ => []
  | width + 1, v => UInt8.ofNat v :: putBytes width (v / 256)

def value : List UInt8 → Nat
  | [] => 0
  | b :: rest => b.toNat + 256 * value rest

@[simp] theorem length_putBytes (width v : Nat) : (putBytes width v).length = width := by
  induction width generalizing v with
  | zero => rfl
  | succ width ih => simp [putBytes, ih]

theorem value_putBytes (width v : Nat) : value (putBytes width v) = v % 256 ^ width := by
  induction width generalizing v with
  | zero => simp [putBytes, value, Nat.mod_one]
  | succ width ih =>
    rw [putBytes, value, ih, Nat.pow_succ', Nat.mod_mul]
    simp

theorem value_lt (bs : List UInt8) : value bs < 256 ^ bs.length := by
  induction bs with
  | nil => simp [value]
  | cons b rest ih =>
    have byte := b.toNat_lt
    rw [value, List.length_cons, Nat.pow_succ']
    change b.toNat < 256 at byte
    omega

theorem putBytes_value (bs : List UInt8) : putBytes bs.length (value bs) = bs := by
  induction bs with
  | nil => rfl
  | cons b rest ih =>
    have byte := b.toNat_lt
    change b.toNat < 256 at byte
    have high : (b.toNat + 256 * value rest) / 256 = value rest := by omega
    rw [List.length_cons, value, putBytes, high, ih]
    congr 1
    apply UInt8.toNat_inj.1
    simp

theorem putBytes_injective {width v v' : Nat} (fits : v < 256 ^ width) (fits' : v' < 256 ^ width)
    (same : putBytes width v = putBytes width v') : v = v' := by
  have read := congrArg value same
  rwa [value_putBytes, value_putBytes, Nat.mod_eq_of_lt fits, Nat.mod_eq_of_lt fits'] at read

theorem putBytes_append_inj {width v v' : Nat} {rest rest' : List UInt8}
    (fits : v < 256 ^ width) (fits' : v' < 256 ^ width)
    (same : putBytes width v ++ rest = putBytes width v' ++ rest') : v = v' ∧ rest = rest' := by
  obtain ⟨first, second⟩ := List.append_inj same (by simp)
  exact ⟨putBytes_injective fits fits' first, second⟩

theorem value_take_putBytes_append (width v : Nat) (rest : List UInt8) :
    value ((putBytes width v ++ rest).take width) = v % 256 ^ width := by
  rw [List.take_append_of_le_length (by simp), List.take_of_length_le (by simp), value_putBytes]

/-! Writes of no fixed width: a value's bytes up to its last nonzero one. -/

def trimmedBytes : Nat → Nat → List UInt8
  | 0, _ => []
  | fuel + 1, v => if v = 0 then [] else UInt8.ofNat v :: trimmedBytes fuel (v / 256)

theorem value_append_singleton (bs : List UInt8) (b : UInt8) :
    value (bs ++ [b]) = value bs + 256 ^ bs.length * b.toNat := by
  induction bs with
  | nil => simp [value]
  | cons c rest ih =>
    rw [List.cons_append, value, ih, value, List.length_cons, Nat.pow_succ']
    rw [Nat.mul_add, Nat.mul_assoc]
    omega

theorem value_pos_of_getLast? {bs : List UInt8} {b : UInt8} (last : bs.getLast? = some b)
    (nonzero : b ≠ 0) : 0 < value bs := by
  obtain ⟨init, rfl⟩ := List.getLast?_eq_some_iff.1 last
  have positive : 0 < b.toNat := Nat.pos_of_ne_zero fun zero => nonzero (UInt8.toNat_inj.1 zero)
  rw [value_append_singleton]
  exact Nat.lt_add_left _ (Nat.mul_pos (Nat.pow_pos (by decide)) positive)

theorem trimmedBytes_zero (fuel : Nat) : trimmedBytes fuel 0 = [] := by
  cases fuel <;> rfl

theorem length_trimmedBytes_le (fuel v : Nat) : (trimmedBytes fuel v).length ≤ fuel := by
  induction fuel generalizing v with
  | zero => simp [trimmedBytes]
  | succ fuel ih =>
    unfold trimmedBytes
    split
    · simp
    · simpa using ih (v / 256)

theorem value_trimmedBytes {fuel v : Nat} (fits : v < 256 ^ fuel) :
    value (trimmedBytes fuel v) = v := by
  induction fuel generalizing v with
  | zero =>
    obtain rfl : v = 0 := by simpa using fits
    rfl
  | succ fuel ih =>
    unfold trimmedBytes
    split
    · next zero => simp [value, zero]
    · have high : v / 256 < 256 ^ fuel := by
        rw [Nat.pow_succ] at fits
        omega
      simp only [value, ih high, UInt8.toNat_ofNat', Nat.reducePow]
      omega

theorem getLast?_trimmedBytes {fuel v : Nat} (fits : v < 256 ^ fuel) :
    (trimmedBytes fuel v).getLast? ≠ some 0 := by
  induction fuel generalizing v with
  | zero => simp [trimmedBytes]
  | succ fuel ih =>
    unfold trimmedBytes
    split
    · simp
    · next nonzero =>
      have high : v / 256 < 256 ^ fuel := by
        rw [Nat.pow_succ] at fits
        omega
      rw [List.getLast?_cons]
      cases rest : trimmedBytes fuel (v / 256) with
      | nil =>
        have single : v / 256 = 0 := by
          have := value_trimmedBytes high
          rw [rest, value] at this
          exact this.symm
        simp only [List.getLast?_nil, Option.getD_none, ne_eq, Option.some.injEq]
        intro zero
        have := congrArg UInt8.toNat zero
        simp only [UInt8.toNat_ofNat', Nat.reducePow, UInt8.toNat_zero] at this
        omega
      | cons b bs =>
        have last := ih high
        rw [rest] at last
        cases lastIs : (b :: bs).getLast? with
        | none => simp at lastIs
        | some c => simpa [lastIs] using last

theorem trimmedBytes_value {bs : List UInt8} {fuel : Nat} (long : bs.length ≤ fuel)
    (trimmed : bs.getLast? ≠ some 0) : trimmedBytes fuel (value bs) = bs := by
  induction bs generalizing fuel with
  | nil => exact trimmedBytes_zero fuel
  | cons b rest ih =>
    obtain ⟨fuel, rfl⟩ : ∃ f, fuel = f + 1 := ⟨fuel - 1, by simp at long; omega⟩
    have restTrimmed : rest.getLast? ≠ some 0 := by
      cases rest with
      | nil => simp
      | cons c cs => simpa [List.getLast?_cons] using trimmed
    have positive : value (b :: rest) ≠ 0 := by
      cases lastIs : (b :: rest).getLast? with
      | none => simp at lastIs
      | some c =>
        have nonzero : c ≠ 0 := fun zero => trimmed (zero ▸ lastIs)
        exact Nat.pos_iff_ne_zero.1 (value_pos_of_getLast? lastIs nonzero)
    have byte := b.toNat_lt
    change b.toNat < 256 at byte
    have high : value (b :: rest) / 256 = value rest := by
      simp only [value]
      omega
    unfold trimmedBytes
    rw [if_neg positive, high, ih (by simpa using long) restTrimmed]
    congr 1
    apply UInt8.toNat_inj.1
    simp only [value, UInt8.toNat_ofNat', Nat.reducePow]
    omega

theorem value_append_replicate_zero (bs : List UInt8) (zeros : Nat) :
    value (bs ++ List.replicate zeros 0) = value bs := by
  induction bs with
  | nil =>
    induction zeros with
    | zero => rfl
    | succ zeros ih =>
      have zero : value (List.replicate zeros 0) = 0 := ih
      simp [List.replicate_succ, value, zero]
  | cons b rest ih => simp only [List.cons_append, value, ih]

theorem putBytes_eq_trimmedBytes_append (width v : Nat) :
    putBytes width v = trimmedBytes width v ++
      List.replicate (width - (trimmedBytes width v).length) 0 := by
  induction width generalizing v with
  | zero => rfl
  | succ width ih =>
    unfold trimmedBytes
    split
    · next zero =>
      subst zero
      simp only [List.length_nil, Nat.sub_zero, List.nil_append]
      rw [putBytes, ih]
      simp [trimmedBytes_zero, List.replicate_succ]
    · rw [putBytes, ih (v / 256)]
      simp

/-- binary.LittleEndian.PutUint16, PutUint32 and PutUint64: the bytes of the value. -/
def putUint16 (v : UInt16) : List UInt8 := putBytes 2 v.toNat

def putUint32 (v : UInt32) : List UInt8 := putBytes 4 v.toNat

def putUint64 (v : UInt64) : List UInt8 := putBytes 8 v.toNat

/-- binary.LittleEndian.Uint16, Uint32 and Uint64: the value of the first bytes of a slice. The Go
functions panic on a slice too short; every read here is behind a length check. -/
def uint16 (b : List UInt8) : UInt16 := UInt16.ofNat (value (b.take 2))

def uint32 (b : List UInt8) : UInt32 := UInt32.ofNat (value (b.take 4))

def uint64 (b : List UInt8) : UInt64 := UInt64.ofNat (value (b.take 8))

@[simp] theorem length_putUint16 (v : UInt16) : (putUint16 v).length = 2 := length_putBytes 2 _

@[simp] theorem length_putUint32 (v : UInt32) : (putUint32 v).length = 4 := length_putBytes 4 _

@[simp] theorem length_putUint64 (v : UInt64) : (putUint64 v).length = 8 := length_putBytes 8 _

@[simp] theorem uint16_putUint16_append (v : UInt16) (rest : List UInt8) :
    uint16 (putUint16 v ++ rest) = v := by
  have fits := v.toNat_lt
  rw [uint16, putUint16, value_take_putBytes_append, Nat.mod_eq_of_lt (by simpa using fits)]
  simp

@[simp] theorem uint32_putUint32_append (v : UInt32) (rest : List UInt8) :
    uint32 (putUint32 v ++ rest) = v := by
  have fits := v.toNat_lt
  rw [uint32, putUint32, value_take_putBytes_append, Nat.mod_eq_of_lt (by simpa using fits)]
  simp

@[simp] theorem uint64_putUint64_append (v : UInt64) (rest : List UInt8) :
    uint64 (putUint64 v ++ rest) = v := by
  have fits := v.toNat_lt
  rw [uint64, putUint64, value_take_putBytes_append, Nat.mod_eq_of_lt (by simpa using fits)]
  simp

theorem uint16_take (bs : List UInt8) : uint16 (bs.take 2) = uint16 bs := by
  rw [uint16, uint16, List.take_take, Nat.min_self]

theorem uint64_take (bs : List UInt8) : uint64 (bs.take 8) = uint64 bs := by
  rw [uint64, uint64, List.take_take, Nat.min_self]

theorem putBytes_value_take {width : Nat} {bs : List UInt8} (long : width ≤ bs.length) :
    putBytes width (value (bs.take width)) = bs.take width := by
  have byLength := putBytes_value (bs.take width)
  rwa [List.length_take, Nat.min_eq_left long] at byLength

theorem value_take_lt (width : Nat) (bs : List UInt8) : value (bs.take width) < 256 ^ width :=
  lt_of_lt_of_le (value_lt _) (Nat.pow_le_pow_right (by decide) (List.length_take_le width bs))

theorem putUint16_uint16 {bs : List UInt8} (long : 2 ≤ bs.length) :
    putUint16 (uint16 bs) = bs.take 2 := by
  rw [putUint16, uint16, UInt16.toNat_ofNat', Nat.mod_eq_of_lt (by simpa using value_take_lt 2 bs),
    putBytes_value_take long]

theorem putUint32_uint32 {bs : List UInt8} (long : 4 ≤ bs.length) :
    putUint32 (uint32 bs) = bs.take 4 := by
  rw [putUint32, uint32, UInt32.toNat_ofNat', Nat.mod_eq_of_lt (by simpa using value_take_lt 4 bs),
    putBytes_value_take long]

theorem putUint64_uint64 {bs : List UInt8} (long : 8 ≤ bs.length) :
    putUint64 (uint64 bs) = bs.take 8 := by
  rw [putUint64, uint64, UInt64.toNat_ofNat', Nat.mod_eq_of_lt (by simpa using value_take_lt 8 bs),
    putBytes_value_take long]

theorem putUint16_append_inj {v v' : UInt16} {rest rest' : List UInt8}
    (same : putUint16 v ++ rest = putUint16 v' ++ rest') : v = v' ∧ rest = rest' := by
  obtain ⟨values, rests⟩ := putBytes_append_inj (by simpa using v.toNat_lt)
    (by simpa using v'.toNat_lt) same
  exact ⟨UInt16.toNat_inj.1 values, rests⟩

theorem putUint32_append_inj {v v' : UInt32} {rest rest' : List UInt8}
    (same : putUint32 v ++ rest = putUint32 v' ++ rest') : v = v' ∧ rest = rest' := by
  obtain ⟨values, rests⟩ := putBytes_append_inj (by simpa using v.toNat_lt)
    (by simpa using v'.toNat_lt) same
  exact ⟨UInt32.toNat_inj.1 values, rests⟩

theorem putUint64_append_inj {v v' : UInt64} {rest rest' : List UInt8}
    (same : putUint64 v ++ rest = putUint64 v' ++ rest') : v = v' ∧ rest = rest' := by
  obtain ⟨values, rests⟩ := putBytes_append_inj (by simpa using v.toNat_lt)
    (by simpa using v'.toNat_lt) same
  exact ⟨UInt64.toNat_inj.1 values, rests⟩

end LittleEndian
