import Htnd.Lib.Numeral

/-!
Derivation paths of extended keys (path.go, extended_key.go). A path string m/0/1'/2 is split at
its slashes; the first part names the key type and each other part is a child index, hardened
when it ends with an apostrophe. The number of an index is read by strconv.Atoi, which also takes
a sign, and a negative number is then converted to uint32 by wrapping around.
-/
namespace Bip32

inductive PathError where
  /-- "%s is an invalid extended key type" -/
  | invalidKeyType (part : List Char)
  /-- strconv.Atoi's error: not a number, or one an int does not hold -/
  | atoi (s : List Char)
  /-- "max index value is %d but got %d" -/
  | maxIndex (index : Int)
  /-- an error of Child or Public -/
  | key (err : String)
  deriving DecidableEq, Repr

def hardenedIndexStart : UInt32 := 0x80000000

def isHardened (i : UInt32) : Bool := i ≥ hardenedIndexStart

def isHardenedSuffix : Char := Char.ofNat 39

def splitSign : List Char → Bool × List Char
  | '-' :: rest => (true, rest)
  | '+' :: rest => (false, rest)
  | s => (false, s)

def decimal (digits : List Char) : Nat :=
  digits.foldl (fun n ch => n * 10 + (ch.toNat - '0'.toNat)) 0

def Atoi (s : List Char) : Except PathError Int :=
  match splitSign s with
  | (negative, digits) =>
    if digits = [] ∨ digits.all Char.isDigit = false then .error (.atoi s)
    else
      let n : Int := if negative then -(decimal digits : Int) else decimal digits
      if n < -2 ^ 63 ∨ 2 ^ 63 ≤ n then .error (.atoi s) else .ok n

def hasHardenedSuffix (s : List Char) : Bool := s.getLast? = some isHardenedSuffix

def trimHardenedSuffix (s : List Char) : List Char :=
  if hasHardenedSuffix s then s.dropLast else s

def parseIndex (indexString : List Char) : Except PathError UInt32 := do
  let isHardened := hasHardenedSuffix indexString
  let index ← Atoi (trimHardenedSuffix indexString)
  if index ≥ (hardenedIndexStart.toNat : Int) then throw (.maxIndex index)
  -- uint32(index) wraps a negative index around
  if isHardened then pure (UInt32.ofInt index + hardenedIndexStart) else pure (UInt32.ofInt index)

structure Path where
  isPublic : Bool
  indexes : List UInt32
  deriving DecidableEq, Repr

def keyType (part : List Char) : Except PathError Bool :=
  if part = ['m'] then .ok false
  else if part = ['M'] then .ok true
  else .error (.invalidKeyType part)

def parsePath (pathString : List Char) : Except PathError Path := do
  -- strings.Split with a separator never returns an empty slice
  let parts := pathString.splitOn '/'
  let isPublic ← keyType (parts.headD [])
  let indexes ← parts.tail.mapM parseIndex
  pure ⟨isPublic, indexes⟩

section Derive

variable {K : Type} (Child : K → UInt32 → Except String K) (Public : K → Except String K)

def path (extKey : K) (p : Path) : Except PathError K := do
  let descendantExtKey ← p.indexes.foldlM (fun key index => (Child key index).mapError .key) extKey
  if p.isPublic then (Public descendantExtKey).mapError .key else pure descendantExtKey

def DeriveFromPath (extKey : K) (pathString : List Char) : Except PathError K := do
  let p ← parsePath pathString
  path Child Public extKey p

end Derive

/-! The grammar (m|M)(/d('?))* of paths, with d a decimal numeral below 2^31. -/

def digitValues (digits : List Char) : List Nat := digits.map (·.toNat - '0'.toNat)

structure Component where
  digits : List Char
  hardened : Bool
  nonempty : digits ≠ []
  isDigit : ∀ c ∈ digits, c.isDigit
  small : Numeral.value 10 (digitValues digits) < 2 ^ 31

def Component.render (c : Component) : List Char :=
  c.digits ++ if c.hardened then [isHardenedSuffix] else []

def Component.index (c : Component) : Nat :=
  Numeral.value 10 (digitValues c.digits) + if c.hardened then 2 ^ 31 else 0

structure PathSpec where
  isPublic : Bool
  components : List Component

def PathSpec.render (spec : PathSpec) : List Char :=
  ['/'].intercalate ([if spec.isPublic then 'M' else 'm'] :: spec.components.map Component.render)

def PathSpec.path (spec : PathSpec) : Path :=
  ⟨spec.isPublic, spec.components.map fun c => UInt32.ofNat c.index⟩

theorem decimal_eq_value (digits : List Char) :
    decimal digits = Numeral.value 10 (digitValues digits) := by
  induction digits using List.reverseRecOn with
  | nil => rfl
  | append_singleton digits ch ih =>
    have shifted : decimal (digits ++ [ch]) = decimal digits * 10 + (ch.toNat - '0'.toNat) := by
      rw [decimal, List.foldl_append]
      rfl
    simp only [shifted, ih, digitValues, List.map_append, List.map_singleton,
      Numeral.value_append_singleton]

theorem splitSign_of_isDigit {ch : Char} (isDigit : ch.isDigit) (rest : List Char) :
    splitSign (ch :: rest) = (false, ch :: rest) := by
  have notMinus : ch ≠ '-' := by rintro rfl; exact absurd isDigit (by decide)
  have notPlus : ch ≠ '+' := by rintro rfl; exact absurd isDigit (by decide)
  unfold splitSign
  split <;> simp_all

theorem splitSign_fst (s : List Char) : (splitSign s).1 = (s.head? == some '-') := by
  unfold splitSign
  split
  · rfl
  · rfl
  · rename_i notMinus _
    cases s with
    | nil => rfl
    | cons ch rest => simpa using notMinus rest

theorem Atoi_of_isDigit {digits : List Char} (nonempty : digits ≠ []) (isDigit : ∀ c ∈ digits, c.isDigit)
    (small : decimal digits < 2 ^ 63) : Atoi digits = .ok (decimal digits) := by
  obtain ⟨ch, rest, rfl⟩ := List.exists_cons_of_ne_nil nonempty
  have allDigits : (ch :: rest).all Char.isDigit = true := List.all_eq_true.2 isDigit
  rw [Atoi, splitSign_of_isDigit (isDigit ch List.mem_cons_self) rest]
  simp [allDigits]
  omega

theorem Atoi_eq_ok {s : List Char} {n : Int} (read : Atoi s = .ok n) :
    n = (if (splitSign s).1 then -(decimal (splitSign s).2 : Int) else decimal (splitSign s).2) ∧
      -2 ^ 63 ≤ n ∧ n < 2 ^ 63 := by
  rcases signed : splitSign s with ⟨negative, digits⟩
  rw [Atoi, signed] at read
  simp only at read
  by_cases bad : digits = [] ∨ digits.all Char.isDigit = false
  · rw [if_pos bad] at read
    cases read
  rw [if_neg bad] at read
  generalize value : (if negative then -(decimal digits : Int) else decimal digits) = v at read
  by_cases outside : v < -2 ^ 63 ∨ 2 ^ 63 ≤ v
  · rw [if_pos outside] at read
    cases read
  · rw [if_neg outside] at read
    cases read
    exact ⟨rfl, by omega⟩

theorem Atoi_nonneg {s : List Char} {n : Int} (read : Atoi s = .ok n) (unsigned : s.head? ≠ some '-') :
    0 ≤ n := by
  have plus : (splitSign s).1 = false := by simpa [splitSign_fst] using unsigned
  rw [(Atoi_eq_ok read).1, plus]
  simp

theorem isDigit_isHardenedSuffix : isHardenedSuffix.isDigit = false := by decide

@[simp] theorem hasHardenedSuffix_append_suffix (s : List Char) :
    hasHardenedSuffix (s ++ [isHardenedSuffix]) = true := by
  simp [hasHardenedSuffix]

@[simp] theorem trimHardenedSuffix_append_suffix (s : List Char) :
    trimHardenedSuffix (s ++ [isHardenedSuffix]) = s := by
  simp [trimHardenedSuffix]

theorem hasHardenedSuffix_append_digits (pre : List Char) {digits : List Char} (nonempty : digits ≠ [])
    (isDigit : ∀ c ∈ digits, c.isDigit) : hasHardenedSuffix (pre ++ digits) = false := by
  have last := isDigit _ (List.getLast_mem nonempty)
  have differs : digits.getLast nonempty ≠ isHardenedSuffix := by
    intro same
    rw [same, isDigit_isHardenedSuffix] at last
    exact absurd last (by decide)
  simp [hasHardenedSuffix, List.getLast?_append, List.getLast?_eq_some_getLast nonempty, differs]

theorem trimHardenedSuffix_append_digits (pre : List Char) {digits : List Char} (nonempty : digits ≠ [])
    (isDigit : ∀ c ∈ digits, c.isDigit) : trimHardenedSuffix (pre ++ digits) = pre ++ digits := by
  rw [trimHardenedSuffix, hasHardenedSuffix_append_digits pre nonempty isDigit]
  rfl

@[simp] theorem toNat_hardenedIndexStart : hardenedIndexStart.toNat = 2 ^ 31 := rfl

theorem isHardened_iff (i : UInt32) : isHardened i = true ↔ 2 ^ 31 ≤ i.toNat := by
  simp [isHardened, UInt32.le_iff_toNat_le]

theorem parseIndex_eq_ok {s : List Char} {i : UInt32} :
    parseIndex s = .ok i ↔ ∃ index, Atoi (trimHardenedSuffix s) = .ok index ∧ index < 2 ^ 31 ∧
      i = if hasHardenedSuffix s then UInt32.ofInt index + hardenedIndexStart else UInt32.ofInt index := by
  unfold parseIndex
  cases read : Atoi (trimHardenedSuffix s) with
  | error e => simp [bind, Except.bind]
  | ok index =>
    by_cases big : (2147483648 : Int) ≤ index
    · simp [bind, Except.bind, big, throw, throwThe, MonadExceptOf.throw]
    · have small : index < 2147483648 := by omega
      cases hasHardenedSuffix s <;> simp [bind, Except.bind, big, small, pure, Except.pure, eq_comm]

theorem toNat_wrapIndex (index : Int) (hardened : Bool) :
    ((if hardened then UInt32.ofInt index + hardenedIndexStart else UInt32.ofInt index).toNat : Int) =
      (index + if hardened then 2 ^ 31 else 0) % 2 ^ 32 := by
  cases hardened
  · simp only [Bool.false_eq_true, if_false, UInt32.ofInt, UInt32.toNat_ofNat']
    omega
  · simp only [if_true, UInt32.toNat_add, UInt32.ofInt, UInt32.toNat_ofNat', toNat_hardenedIndexStart]
    omega

theorem toNat_parseIndex {s : List Char} {i : UInt32} (parsed : parseIndex s = .ok i) :
    ∃ index, Atoi (trimHardenedSuffix s) = .ok index ∧ index < 2 ^ 31 ∧
      (i.toNat : Int) = (index + if hasHardenedSuffix s then 2 ^ 31 else 0) % 2 ^ 32 := by
  obtain ⟨index, read, small, rfl⟩ := parseIndex_eq_ok.1 parsed
  exact ⟨index, read, small, toNat_wrapIndex index _⟩

theorem isHardened_parseIndex {s : List Char} {i : UInt32} (parsed : parseIndex s = .ok i)
    (unsigned : (trimHardenedSuffix s).head? ≠ some '-') : isHardened i = hasHardenedSuffix s := by
  obtain ⟨index, read, small, value⟩ := toNat_parseIndex parsed
  have nonneg := Atoi_nonneg read unsigned
  rw [Bool.eq_iff_iff, isHardened_iff]
  cases suffix : hasHardenedSuffix s
  · rw [suffix, if_neg Bool.false_ne_true] at value
    simp only [Bool.false_eq_true, iff_false, not_le]
    omega
  · rw [suffix, if_pos rfl] at value
    simp only [iff_true]
    omega

theorem Component.decimal_lt (c : Component) : decimal c.digits < 2 ^ 31 := by
  rw [decimal_eq_value]
  exact c.small

theorem hasHardenedSuffix_render (c : Component) : hasHardenedSuffix c.render = c.hardened := by
  cases hardened : c.hardened
  · simpa [Component.render, hardened] using hasHardenedSuffix_append_digits [] c.nonempty c.isDigit
  · simp [Component.render, hardened]

theorem trimHardenedSuffix_render (c : Component) : trimHardenedSuffix c.render = c.digits := by
  cases hardened : c.hardened
  · simpa [Component.render, hardened] using trimHardenedSuffix_append_digits [] c.nonempty c.isDigit
  · simp [Component.render, hardened]

theorem parseIndex_render (c : Component) : parseIndex c.render = .ok (UInt32.ofNat c.index) := by
  have small := c.decimal_lt
  have read := Atoi_of_isDigit c.nonempty c.isDigit (by omega)
  apply parseIndex_eq_ok.2
  refine ⟨decimal c.digits, by rw [trimHardenedSuffix_render]; exact read, by omega, ?_⟩
  have wrapped := toNat_wrapIndex (decimal c.digits) c.hardened
  rw [hasHardenedSuffix_render]
  apply UInt32.toNat_inj.1
  rw [UInt32.toNat_ofNat', Component.index, ← decimal_eq_value]
  generalize c.hardened = hardened at wrapped ⊢
  cases hardened
  · simp only [Bool.false_eq_true, if_false] at wrapped ⊢
    omega
  · simp only [if_true] at wrapped ⊢
    omega

theorem not_mem_render {ch : Char} (notDigit : ch.isDigit = false) (notSuffix : ch ≠ isHardenedSuffix)
    (c : Component) : ch ∉ c.render := by
  intro mem
  rcases List.mem_append.1 mem with digit | suffix
  · have isDigit := c.isDigit ch digit
    rw [notDigit] at isDigit
    exact absurd isDigit (by decide)
  · cases hardened : c.hardened <;> simp [hardened] at suffix
    exact notSuffix suffix

theorem splitOn_render (spec : PathSpec) :
    spec.render.splitOn '/' = [if spec.isPublic then 'M' else 'm'] :: spec.components.map Component.render := by
  apply List.splitOn_intercalate
  · intro part mem
    rcases List.mem_cons.1 mem with first | component
    · subst first
      cases spec.isPublic <;> decide
    · obtain ⟨c, -, rfl⟩ := List.mem_map.1 component
      exact not_mem_render (by decide) (by decide) c
  · exact List.cons_ne_nil _ _

theorem mapM_parseIndex_render (components : List Component) :
    (components.map Component.render).mapM parseIndex =
      .ok (components.map fun c => UInt32.ofNat c.index) := by
  induction components with
  | nil => rfl
  | cons c components ih =>
    simp [List.mapM_cons, parseIndex_render, ih, bind, Except.bind, pure, Except.pure]

theorem keyType_isPublic (isPublic : Bool) : keyType [if isPublic then 'M' else 'm'] = .ok isPublic := by
  cases isPublic <;> rfl

theorem parsePath_render (spec : PathSpec) : parsePath spec.render = .ok spec.path := by
  simp only [parsePath, splitOn_render, List.headD_cons, List.tail_cons, keyType_isPublic,
    mapM_parseIndex_render]
  rfl

theorem render_ne_of_mem {s part : List Char} {ch : Char} (mem : part ∈ (s.splitOn '/').tail)
    (inPart : ch ∈ part) (notDigit : ch.isDigit = false) (notSuffix : ch ≠ isHardenedSuffix)
    (spec : PathSpec) : spec.render ≠ s := by
  rintro rfl
  rw [splitOn_render, List.tail_cons] at mem
  obtain ⟨c, -, rfl⟩ := List.mem_map.1 mem
  exact not_mem_render notDigit notSuffix c inPart

theorem parsePath_eq_ok {s : List Char} {p : Path} :
    parsePath s = .ok p ↔ keyType ((s.splitOn '/').headD []) = .ok p.isPublic ∧
      (s.splitOn '/').tail.mapM parseIndex = .ok p.indexes := by
  dsimp only [parsePath]
  cases key : keyType ((s.splitOn '/').headD []) with
  | error e => simp only [bind, Except.bind, reduceCtorEq, false_and]
  | ok isPublic =>
    cases indexes : (s.splitOn '/').tail.mapM parseIndex with
    | error e => simp only [bind, Except.bind, reduceCtorEq, and_false]
    | ok indexes =>
      cases p
      simp [bind, Except.bind, pure, Except.pure]

theorem isHardened_mapM_parseIndex {parts : List (List Char)} {indexes : List UInt32}
    (parsed : parts.mapM parseIndex = .ok indexes)
    (unsigned : ∀ part ∈ parts, (trimHardenedSuffix part).head? ≠ some '-') :
    indexes.map isHardened = parts.map hasHardenedSuffix := by
  induction parts generalizing indexes with
  | nil =>
    cases parsed
    rfl
  | cons part parts ih =>
    rw [List.mapM_cons] at parsed
    cases first : parseIndex part with
    | error e => simp [first, bind, Except.bind] at parsed
    | ok i =>
      cases rest : parts.mapM parseIndex with
      | error e => simp [first, rest, bind, Except.bind] at parsed
      | ok is =>
        simp only [first, rest, bind, Except.bind, pure, Except.pure, Except.ok.injEq] at parsed
        subst parsed
        rw [List.map_cons, List.map_cons, isHardened_parseIndex first (unsigned part List.mem_cons_self),
          ih rest fun q mem => unsigned q (List.mem_cons_of_mem part mem)]

theorem isHardened_parsePath {s : List Char} {p : Path} (parsed : parsePath s = .ok p)
    (unsigned : ∀ part ∈ (s.splitOn '/').tail, (trimHardenedSuffix part).head? ≠ some '-') :
    p.indexes.map isHardened = (s.splitOn '/').tail.map hasHardenedSuffix :=
  isHardened_mapM_parseIndex (parsePath_eq_ok.1 parsed).2 unsigned

theorem isHardened_parsePath_hardened_then_plain :
    ∃ p, parsePath "m/1'/2".toList = .ok p ∧
      p.indexes.map isHardened = ("m/1'/2".toList.splitOn '/').tail.map hasHardenedSuffix := by
  have parsed : parsePath "m/1'/2".toList = .ok ⟨false, [0x80000001, 2]⟩ := by decide
  exact ⟨_, parsed, isHardened_parsePath parsed (by decide)⟩

section Derive

variable {K : Type} (Child : K → UInt32 → Except String K) (Public : K → Except String K)

theorem DeriveFromPath_render (extKey : K) (spec : PathSpec) :
    DeriveFromPath Child Public extKey spec.render = path Child Public extKey spec.path := by
  rw [DeriveFromPath, parsePath_render]
  rfl

theorem path_singleton (extKey : K) (i : UInt32) :
    path Child Public extKey ⟨false, [i]⟩ = (Child extKey i).mapError .key := by
  simp [path]

theorem derive_from_path_takes_minus_index (extKey : K) :
    ((∀ spec : PathSpec, spec.render ≠ "m/-1".toList) ∧
      DeriveFromPath Child Public extKey "m/-1".toList = (Child extKey 0xFFFFFFFF).mapError .key ∧
      isHardened 0xFFFFFFFF = true) ∧
    ((∀ spec : PathSpec, spec.render ≠ "m/-1".toList ++ [isHardenedSuffix]) ∧
      DeriveFromPath Child Public extKey ("m/-1".toList ++ [isHardenedSuffix]) =
        (Child extKey 0x7FFFFFFF).mapError .key ∧
      isHardened 0x7FFFFFFF = false) := by
  have parsed : parsePath "m/-1".toList = .ok ⟨false, [0xFFFFFFFF]⟩ := by decide
  have parsedSuffix : parsePath ("m/-1".toList ++ [isHardenedSuffix]) = .ok ⟨false, [0x7FFFFFFF]⟩ := by
    decide
  have outside : ∀ s part : List Char, part ∈ (s.splitOn '/').tail → '-' ∈ part →
      ∀ spec : PathSpec, spec.render ≠ s :=
    fun _ _ mem inPart => render_ne_of_mem mem inPart (by decide) (by decide)
  refine ⟨⟨outside _ ['-', '1'] (by decide) (by decide), ?_, by decide⟩,
    ⟨outside _ ['-', '1', isHardenedSuffix] (by decide) (by decide), ?_, by decide⟩⟩
  · rw [DeriveFromPath, parsed]
    exact path_singleton Child Public extKey _
  · rw [DeriveFromPath, parsedSuffix]
    exact path_singleton Child Public extKey _

end Derive

end Bip32
