import Htnd.Txscript.Push

/-!
The script builder (txscript/scriptbuilder.go: canonicalDataSize, addData, AddData, AddInt64 and
addLockTimeOrSequence with AddLockTimeNumber and AddSequenceNumber), against what the parser
reads from the scripts it writes and what the engine then pushes.

Every push the builder writes within the engine's limits is one opcode that parses back with
its data, is canonical, and passes the minimal push check where the engine makes it. For one
byte from 1 to 16 and for 0x81 the builder writes OP_1 to OP_16 and OP_1NEGATE, whose handlers
push that byte back as a number; those opcodes carry no data, and checkMinimalDataPush itself
rejects them, which the engine never asks. A lock time or sequence is written as its
little-endian bytes up to the last nonzero one; zero has none, and the loop that strips the
zero bytes then reads the byte before the first and panics.
-/
namespace Txscript
open GoSemantics (Panic sliceIndex)

def maxScriptSize : Nat := 10000

structure ScriptBuilder where
  script : List UInt8
  err : Option String
  deriving DecidableEq, Repr

def newScriptBuilder : ScriptBuilder := ⟨[], none⟩

def pushSize (dataLen : Nat) : Nat :=
  if dataLen < opPushData1.toNat then 1 + dataLen
  else if dataLen ≤ 0xff then 2 + dataLen
  else if dataLen ≤ 0xffff then 3 + dataLen
  else 5 + dataLen

def canonicalDataSize (data : List UInt8) : Nat :=
  match data with
  | [] => 1
  | [b] => if b ≤ 16 then 1 else if b = 0x81 then 1 else pushSize 1
  | data => pushSize data.length

def sizedPush (data : List UInt8) : List UInt8 :=
  let dataLen := data.length
  (if dataLen < opPushData1.toNat then [UInt8.ofNat dataLen]
  else if dataLen ≤ 0xff then [opPushData1, UInt8.ofNat dataLen]
  else if dataLen ≤ 0xffff then opPushData2 :: LittleEndian.putUint16 (UInt16.ofNat dataLen)
  else opPushData4 :: LittleEndian.putUint32 (UInt32.ofNat dataLen)) ++ data

def dataPush (data : List UInt8) : List UInt8 :=
  match data with
  | [] => [op0]
  | [b] =>
    if b = 0 then [op0]
    else if b ≤ 16 then [(op1 - 1) + b]
    else if b = 0x81 then [op1Negate]
    else sizedPush [b]
  | data => sizedPush data

def ScriptBuilder.addData (b : ScriptBuilder) (data : List UInt8) : ScriptBuilder :=
  { b with script := b.script ++ dataPush data }

def ScriptBuilder.AddData (b : ScriptBuilder) (data : List UInt8) : ScriptBuilder :=
  if b.err.isSome then b
  else
    let dataSize := canonicalDataSize data
    if b.script.length + dataSize > maxScriptSize then
      { b with err := some ("adding " ++ toString dataSize ++ " bytes of data would exceed the " ++
        "maximum allowed canonical script length of " ++ toString maxScriptSize) }
    else if data.length > maxScriptElementSize then
      { b with err := some ("adding a data element of " ++ toString data.length ++
        " bytes would exceed the maximum allowed script element size of " ++
        toString maxScriptElementSize) }
    else b.addData data

def ScriptBuilder.AddOp (b : ScriptBuilder) (opcode : UInt8) : ScriptBuilder :=
  if b.err.isSome then b
  else if b.script.length + 1 > maxScriptSize then
    { b with err := some ("adding an opcode would exceed the maximum allowed canonical script " ++
      "length of " ++ toString maxScriptSize) }
  else { b with script := b.script ++ [opcode] }

def ScriptBuilder.Script (b : ScriptBuilder) : List UInt8 × Option String := (b.script, b.err)

/-- AddInt64. The small numbers are one opcode, byte((Op1-1)+val); the others are pushed as the
number's Bytes, which panics for the most negative int64. -/
def ScriptBuilder.addInt64 (b : ScriptBuilder) (val : Int64) : Except Panic ScriptBuilder :=
  if b.err.isSome then .ok b
  else if b.script.length + 1 > maxScriptSize then
    .ok { b with err := some ("adding an integer would exceed the maximum allow canonical " ++
      "script length of " ++ toString maxScriptSize) }
  else if val = 0 then .ok { b with script := b.script ++ [op0] }
  else if val = -1 ∨ (1 ≤ val ∧ val ≤ 16) then
    .ok { b with script := b.script ++ [UInt8.ofInt ((op1 - 1).toNat + val.toInt)] }
  else do
    let bytes ← ScriptNum.bytes val
    pure (b.AddData bytes)

def unpaddedSize (bytes : List UInt8) : Nat → Except Panic Nat
  -- the condition reads bytes[-1]
  | 0 => do
    let _ ← sliceIndex bytes (-1)
    pure 0
  | size + 1 => do
    let b ← sliceIndex bytes size
    if b = 0 then unpaddedSize bytes size else pure (size + 1)

def ScriptBuilder.addLockTimeOrSequence (b : ScriptBuilder) (lockTimeOrSequence : UInt64) :
    Except Panic ScriptBuilder :=
  if b.err.isSome then .ok b
  else do
    let bytes := LittleEndian.putUint64 lockTimeOrSequence
    let size ← unpaddedSize bytes 8
    pure (b.AddData (bytes.take size))

def ScriptBuilder.addLockTimeNumber (b : ScriptBuilder) (lockTime : UInt64) :
    Except Panic ScriptBuilder :=
  b.addLockTimeOrSequence lockTime

def ScriptBuilder.addSequenceNumber (b : ScriptBuilder) (sequence : UInt64) :
    Except Panic ScriptBuilder :=
  b.addLockTimeOrSequence sequence

theorem addLockTimeNumber_zero_panics :
    newScriptBuilder.addLockTimeNumber 0 = .error (.indexOutOfRange (-1) 8) := by
  decide

/-! The opcodes addData writes, what they parse to, and what the engine does with them. -/

section Opcodes

set_option maxRecDepth 20000

theorem directOpcode : ∀ n, n < 76 → 0 < n →
    opcodeValue (UInt8.ofNat n) = UInt8.ofNat n ∧ (UInt8.ofNat n).toNat = n ∧ UInt8.ofNat n ≠ 0 ∧
      UInt8.ofNat n ≤ opPushData4 ∧ ¬ UInt8.ofNat n > op16 ∧ UInt8.ofNat n ≠ opPushData1 ∧
      UInt8.ofNat n ≠ opPushData2 ∧ UInt8.ofNat n ≠ opPushData4 := by
  decide

theorem smallIntegerOpcode : ∀ b : UInt8, b ≠ 0 → b ≤ 16 →
    opcodeLength (op1 - 1 + b) = 1 ∧ minimalPushCheck ⟨opcodeArray (op1 - 1 + b), []⟩ = .ok () ∧
      canonicalPush ⟨opcodeArray (op1 - 1 + b), []⟩ = true ∧
      pushedItem ⟨opcodeArray (op1 - 1 + b), []⟩ = .ok [b] := by
  decide

end Opcodes

theorem op0_opcode :
    opcodeLength op0 = 1 ∧ minimalPushCheck ⟨opcodeArray op0, []⟩ = .ok () ∧
      canonicalPush ⟨opcodeArray op0, []⟩ = true ∧ pushedItem ⟨opcodeArray op0, []⟩ = .ok [] := by
  decide

theorem op1Negate_opcode :
    opcodeLength op1Negate = 1 ∧ minimalPushCheck ⟨opcodeArray op1Negate, []⟩ = .ok () ∧
      canonicalPush ⟨opcodeArray op1Negate, []⟩ = true ∧
      pushedItem ⟨opcodeArray op1Negate, []⟩ = .ok [0x81] := by
  decide

theorem sizedPush_spec {data : List UInt8} (nonempty : data ≠ [])
    (notSmall : ∀ b, data = [b] → 16 < b ∧ b ≠ 0x81) (small : data.length ≤ maxScriptElementSize) :
    ∃ pop, parseScript (sizedPush data) = ([pop], none) ∧ minimalPushCheck pop = .ok () ∧
      canonicalPush pop = true ∧ pushedItem pop = .ok data ∧ pop.data = data := by
  have positive : 0 < data.length := List.length_pos_iff.2 nonempty
  have pushData1 : opPushData1.toNat = 76 := rfl
  dsimp only [sizedPush]
  split_ifs with direct one two
  · -- OP_DATA_n
    rw [pushData1] at direct
    obtain ⟨value, byte, notZero, atMost, notAbove, ne1, ne2, ne4⟩ :=
      directOpcode data.length direct positive
    have notSmallNumber : smallNumberData data = false := by
      match data, notSmall with
      | [b], notSmall => simpa [smallNumberData] using (notSmall b rfl).1
      | [], _ => rfl
      | _ :: _ :: _, _ => rfl
    refine ⟨⟨opcodeArray (UInt8.ofNat data.length), data⟩, ?_, ?_, ?_, ?_, rfl⟩
    · have parsed := parseOpcode_direct positive direct []
      rw [List.append_nil] at parsed
      exact parseScript_of_parseOpcode parsed
    · have checked : (opcodeArray (UInt8.ofNat data.length)).value ≠ 0 ∧
          (opcodeArray (UInt8.ofNat data.length)).value ≤ opPushData4 := by
        simp only [opcodeArray_value, value]
        exact ⟨notZero, atMost⟩
      have lengthOk : checkPushLength (opcodeArray (UInt8.ofNat data.length)).name
          (opcodeArray (UInt8.ofNat data.length)).value data.length = .ok () := by
        simp only [checkPushLength, opcodeArray_value, value, byte]
        rw [if_pos (by omega)]
        simp
      rw [minimalPushCheck, if_pos checked]
      match data, notSmall, lengthOk with
      | [b], notSmall, lengthOk =>
        obtain ⟨big, notNegate⟩ := notSmall b rfl
        simpa [ParsedOpcode.checkMinimalDataPush, UInt8.not_le.2 big, notNegate] using lengthOk
      | _ :: _ :: _, _, lengthOk =>
        rw [checkMinimalDataPush_of_two_le (by simp)]
        exact lengthOk
    · simp [canonicalPush, value, notAbove, notSmallNumber, ne1, ne2, ne4]
    · simp [pushedItem, value, notZero, atMost, op0]
  · -- OP_PUSHDATA1 and a one-byte length
    rw [pushData1] at direct
    have field : [opPushData1, UInt8.ofNat data.length] ++ data =
        opPushData1 :: (LittleEndian.putBytes 1 data.length ++ (data ++ [])) := by
      simp [LittleEndian.putBytes]
    have parsed := parseOpcode_pushData (show pushDataWidth (opcodeLength opPushData1) = some 1 by decide)
      (show data.length < 256 ^ 1 by omega) []
    refine ⟨⟨opcodeArray opPushData1, data⟩, ?_, ?_, ?_, ?_, rfl⟩
    · rw [field]
      exact parseScript_of_parseOpcode parsed
    · have value : opcodeValue opPushData1 = opPushData1 := by decide
      rw [minimalPushCheck, if_pos (by simp only [opcodeArray_value, value]; decide),
        checkMinimalDataPush_of_two_le (by omega)]
      simp only [checkPushLength, opcodeArray_value, value]
      rw [if_neg (by omega), if_pos one]
      simp
    · have value : opcodeValue opPushData1 = opPushData1 := by decide
      simp only [canonicalPush, opcodeArray_value, value]
      rw [if_neg (by decide), if_neg (by simp [opPushData1]), if_neg (by simp; omega),
        if_neg fun same => absurd same.1 (by decide), if_neg fun same => absurd same.1 (by decide)]
    · simp [pushedItem, opcodeValue, opPushData1, op0, opPushData4]
  · -- OP_PUSHDATA2 and a two-byte length
    rw [pushData1] at direct
    have lengthBytes : LittleEndian.putUint16 (UInt16.ofNat data.length) =
        LittleEndian.putBytes 2 data.length := by
      have fits : (UInt16.ofNat data.length).toNat = data.length := by
        simp only [UInt16.toNat_ofNat', Nat.reducePow]
        omega
      rw [LittleEndian.putUint16, fits]
    have parsed := parseOpcode_pushData (show pushDataWidth (opcodeLength opPushData2) = some 2 by decide)
      (show data.length < 256 ^ 2 by omega) []
    refine ⟨⟨opcodeArray opPushData2, data⟩, ?_, ?_, ?_, ?_, rfl⟩
    · have shape : opPushData2 :: LittleEndian.putUint16 (UInt16.ofNat data.length) ++ data =
          opPushData2 :: (LittleEndian.putBytes 2 data.length ++ (data ++ [])) := by
        rw [lengthBytes, List.append_nil, List.cons_append]
      rw [shape]
      exact parseScript_of_parseOpcode parsed
    · have value : opcodeValue opPushData2 = opPushData2 := by decide
      rw [minimalPushCheck, if_pos (by simp only [opcodeArray_value, value]; decide),
        checkMinimalDataPush_of_two_le (by omega)]
      simp only [checkPushLength, opcodeArray_value, value]
      rw [if_neg (by omega), if_neg one, if_pos two]
      simp
    · have value : opcodeValue opPushData2 = opPushData2 := by decide
      simp only [canonicalPush, opcodeArray_value, value]
      rw [if_neg (by decide), if_neg (by simp [opPushData2, opPushData1]),
        if_neg fun same => absurd same.1 (by decide), if_neg (by simp; omega),
        if_neg fun same => absurd same.1 (by decide)]
    · simp [pushedItem, opcodeValue, opPushData2, op0, opPushData4]
  · exfalso
    simp [maxScriptElementSize] at small
    omega

theorem dataPush_spec {data : List UInt8} (small : data.length ≤ maxScriptElementSize) :
    ∃ pop, parseScript (dataPush data) = ([pop], none) ∧ minimalPushCheck pop = .ok () ∧
      canonicalPush pop = true ∧
      ∀ stk, executePush pop stk = .ok ((if data = [0] then [] else data) :: stk) := by
  have noData : ([] : List UInt8).length ≤ maxScriptElementSize := by simp
  match data with
  | [] =>
    obtain ⟨one, minimal, canonical, pushed⟩ := op0_opcode
    exact ⟨_, parseScript_of_parseOpcode (parseOpcode_of_length_one one []), minimal, canonical,
      executePush_of_checks noData minimal (by simpa using pushed)⟩
  | [b] =>
    by_cases zero : b = 0
    · subst zero
      obtain ⟨one, minimal, canonical, pushed⟩ := op0_opcode
      exact ⟨_, parseScript_of_parseOpcode (parseOpcode_of_length_one one []), minimal, canonical,
        executePush_of_checks noData minimal (by simpa using pushed)⟩
    have notZero : [b] ≠ [0] := by simpa using zero
    by_cases below : b ≤ 16
    · obtain ⟨one, minimal, canonical, pushed⟩ := smallIntegerOpcode b zero below
      refine ⟨_, ?_, minimal, canonical,
        executePush_of_checks noData minimal (by rw [if_neg notZero]; exact pushed)⟩
      simp only [dataPush, if_neg zero, if_pos below]
      exact parseScript_of_parseOpcode (parseOpcode_of_length_one one [])
    by_cases negate : b = 0x81
    · subst negate
      obtain ⟨one, minimal, canonical, pushed⟩ := op1Negate_opcode
      exact ⟨_, parseScript_of_parseOpcode (parseOpcode_of_length_one one []), minimal, canonical,
        executePush_of_checks noData minimal (by simpa using pushed)⟩
    · obtain ⟨pop, parsed, minimal, canonical, pushed, popData⟩ := @sizedPush_spec [b] (by simp)
        (fun c same => by cases same; exact ⟨UInt8.not_le.1 below, negate⟩) small
      refine ⟨pop, ?_, minimal, canonical, executePush_of_checks (popData ▸ small) minimal
        (by rw [if_neg notZero]; exact pushed)⟩
      simpa only [dataPush, if_neg zero, if_neg below, if_neg negate] using parsed
  | first :: second :: rest =>
    obtain ⟨pop, parsed, minimal, canonical, pushed, popData⟩ :=
      sizedPush_spec (by simp) (fun _ same => by cases same) small
    exact ⟨pop, parsed, minimal, canonical,
      executePush_of_checks (popData ▸ small) minimal (by simpa using pushed)⟩

theorem AddData_of_room {b : ScriptBuilder} {data : List UInt8} (noErr : b.err = none)
    (room : b.script.length + canonicalDataSize data ≤ maxScriptSize)
    (small : data.length ≤ maxScriptElementSize) : b.AddData data = b.addData data := by
  simp [ScriptBuilder.AddData, noErr, Nat.not_lt.2 room, Nat.not_lt.2 small]

theorem AddOp_of_room {b : ScriptBuilder} (noErr : b.err = none)
    (room : b.script.length + 1 ≤ maxScriptSize) (opcode : UInt8) :
    b.AddOp opcode = { b with script := b.script ++ [opcode] } := by
  simp [ScriptBuilder.AddOp, noErr, Nat.not_lt.2 room]

theorem AddData_short {b : ScriptBuilder} {data : List UInt8} (noErr : b.err = none)
    (two : 2 ≤ data.length) (short : data.length < 76)
    (room : b.script.length + 1 + data.length ≤ maxScriptSize) :
    b.AddData data = { b with script := b.script ++ UInt8.ofNat data.length :: data } := by
  obtain ⟨first, second, rest, rfl⟩ : ∃ first second rest, data = first :: second :: rest := by
    match data, two with
    | first :: second :: rest, _ => exact ⟨first, second, rest, rfl⟩
  have sized : canonicalDataSize (first :: second :: rest) = 1 + (first :: second :: rest).length := by
    simp only [canonicalDataSize, pushSize, show opPushData1.toNat = 76 from rfl, if_pos short]
  rw [AddData_of_room noErr (by omega) (by simp only [maxScriptElementSize]; omega)]
  simp only [ScriptBuilder.addData, dataPush, sizedPush, show opPushData1.toNat = 76 from rfl,
    if_pos short, List.singleton_append]

theorem minusOneInt64 :
    ScriptNum.bytes (-1) = .ok [0x81] ∧ UInt8.ofInt ((op1 - 1).toNat + (-1 : Int64).toInt) = op1Negate := by
  decide

theorem smallInt64 : ∀ n : Nat, n < 17 → 0 < n →
    ScriptNum.bytes (Int64.ofInt n) = .ok [UInt8.ofNat n] ∧
      UInt8.ofInt ((op1 - 1).toNat + (Int64.ofInt n).toInt) = op1 - 1 + UInt8.ofNat n ∧
      UInt8.ofNat n ≠ 0 ∧ UInt8.ofNat n ≤ 16 := by
  decide

theorem one_le_canonicalDataSize (data : List UInt8) : 1 ≤ canonicalDataSize data := by
  unfold canonicalDataSize pushSize
  split <;> (try split_ifs) <;> omega

theorem addInt64_push {b : ScriptBuilder} (noErr : b.err = none) {v : Int64}
    (notMin : v ≠ Int64.minValue) {bytes : List UInt8} (encoded : ScriptNum.bytes v = .ok bytes)
    (room : b.script.length + canonicalDataSize bytes ≤ maxScriptSize) :
    ∃ pushed pop, b.addInt64 v = .ok { b with script := b.script ++ pushed } ∧
      parseScript pushed = ([pop], none) ∧ ∀ stk, executePush pop stk = .ok (bytes :: stk) := by
  have noData : ([] : List UInt8).length ≤ maxScriptElementSize := by simp
  have sizePos := one_le_canonicalDataSize bytes
  unfold ScriptBuilder.addInt64
  rw [if_neg (by simp [noErr]), if_neg (by omega)]
  split_ifs with zero small
  · subst zero
    obtain rfl : bytes = [] := by
      rw [show ScriptNum.bytes 0 = .ok [] by decide] at encoded
      cases encoded
      rfl
    obtain ⟨one, minimal, canonical, pushed⟩ := op0_opcode
    exact ⟨[op0], _, rfl, parseScript_of_parseOpcode (parseOpcode_of_length_one one []),
      executePush_of_checks noData minimal pushed⟩
  · rcases small with negOne | ⟨low, high⟩
    · subst negOne
      obtain ⟨bytesOf, byte⟩ := minusOneInt64
      rw [bytesOf] at encoded
      cases encoded
      obtain ⟨one, minimal, canonical, pushed⟩ := op1Negate_opcode
      rw [byte]
      exact ⟨[op1Negate], _, rfl, parseScript_of_parseOpcode (parseOpcode_of_length_one one []),
        executePush_of_checks noData minimal pushed⟩
    · -- v is the int64 of a number from 1 to 16
      rw [Int64.le_iff_toInt_le] at low high
      have one : (1 : Int64).toInt = 1 := rfl
      have sixteen : (16 : Int64).toInt = 16 := rfl
      rw [one] at low
      rw [sixteen] at high
      have recover : v = Int64.ofInt (v.toInt.toNat : Nat) := by
        rw [Int.toNat_of_nonneg (by omega), Int64.ofInt_toInt]
      obtain ⟨bytesOf, byte, notZero, below⟩ := smallInt64 v.toInt.toNat (by omega) (by omega)
      rw [← recover] at bytesOf byte
      rw [bytesOf] at encoded
      cases encoded
      obtain ⟨length, minimal, canonical, pushed⟩ := smallIntegerOpcode _ notZero below
      rw [byte]
      exact ⟨_, _, rfl, parseScript_of_parseOpcode (parseOpcode_of_length_one length []),
        executePush_of_checks noData minimal pushed⟩
  · -- any other number is pushed as the data of its Bytes
    obtain ⟨written, writtenOk, minimalEncoding, short, _⟩ := bytes_readBack notMin
    rw [encoded] at writtenOk
    cases writtenOk
    have small : bytes.length ≤ maxScriptElementSize := by
      simp only [maxScriptElementSize]
      omega
    have notZeroByte : bytes ≠ [0] := fun same => by
      rw [same] at minimalEncoding
      exact absurd minimalEncoding (by decide)
    obtain ⟨pop, parsed, minimal, canonical, executed⟩ := dataPush_spec small
    rw [encoded]
    refine ⟨dataPush bytes, pop, ?_, parsed, fun stk => by rw [executed, if_neg notZeroByte]⟩
    simp only [bind, Except.bind, pure, Except.pure, AddData_of_room noErr room small,
      ScriptBuilder.addData]

theorem builder_pushes_canonical (b : ScriptBuilder) (noErr : b.err = none) :
    (∀ data : List UInt8, data.length ≤ maxScriptElementSize →
      b.script.length + canonicalDataSize data ≤ maxScriptSize →
      ∃ pop, b.AddData data = { b with script := b.script ++ dataPush data } ∧
        parseScript (dataPush data) = ([pop], none) ∧ minimalPushCheck pop = .ok () ∧
        canonicalPush pop = true ∧
        ∀ stk, executePush pop stk = .ok ((if data = [0] then [] else data) :: stk)) ∧
    (∀ v : Int64, v ≠ Int64.minValue → ∃ bytes, ScriptNum.bytes v = .ok bytes ∧
      (b.script.length + canonicalDataSize bytes ≤ maxScriptSize →
        ∃ pushed pop, b.addInt64 v = .ok { b with script := b.script ++ pushed } ∧
          parseScript pushed = ([pop], none) ∧ ∀ stk, executePush pop stk = .ok (bytes :: stk))) := by
  refine ⟨fun data small room => ?_, fun v notMin => ?_⟩
  · obtain ⟨pop, parsed, minimal, canonical, executed⟩ := dataPush_spec small
    exact ⟨pop, AddData_of_room noErr room small, parsed, minimal, canonical, executed⟩
  · obtain ⟨bytes, encoded, _⟩ := bytes_readBack notMin
    exact ⟨bytes, encoded, fun room => addInt64_push noErr notMin encoded room⟩

theorem builder_pushes_canonical_new :
    newScriptBuilder.err = none ∧
    (∀ data : List UInt8, data.length ≤ maxScriptElementSize →
      newScriptBuilder.script.length + canonicalDataSize data ≤ maxScriptSize →
      ∃ pop, newScriptBuilder.AddData data =
          { newScriptBuilder with script := newScriptBuilder.script ++ dataPush data } ∧
        parseScript (dataPush data) = ([pop], none) ∧ minimalPushCheck pop = .ok () ∧
        canonicalPush pop = true ∧
        ∀ stk, executePush pop stk = .ok ((if data = [0] then [] else data) :: stk)) ∧
    (∀ v : Int64, v ≠ Int64.minValue → ∃ bytes, ScriptNum.bytes v = .ok bytes ∧
      (newScriptBuilder.script.length + canonicalDataSize bytes ≤ maxScriptSize →
        ∃ pushed pop, newScriptBuilder.addInt64 v =
            .ok { newScriptBuilder with script := newScriptBuilder.script ++ pushed } ∧
          parseScript pushed = ([pop], none) ∧ ∀ stk, executePush pop stk = .ok (bytes :: stk))) :=
  ⟨rfl, builder_pushes_canonical newScriptBuilder rfl⟩

/-- AddData writes OP_1 for the byte 1; checkMinimalDataPush, asked about that opcode, rejects it
as a zero length push, although the engine never asks. -/
theorem checkMinimalDataPush_rejects_op1 :
    newScriptBuilder.AddData [1] = ⟨[0x51], none⟩ ∧
      parseScript [0x51] = ([⟨opcodeArray 0x51, []⟩], none) ∧
      (⟨opcodeArray 0x51, []⟩ : ParsedOpcode).checkMinimalDataPush =
        .error (minimalDataError "zero length data push is encoded with opcode OP_1 instead of OP_0") ∧
      minimalPushCheck ⟨opcodeArray 0x51, []⟩ = .ok () := by
  decide

/-! Lock times and sequences. -/

theorem canonicalDataSize_le (data : List UInt8) : canonicalDataSize data ≤ data.length + 5 := by
  unfold canonicalDataSize pushSize
  split <;> (try split_ifs) <;> simp_all <;> omega

theorem unpaddedSize_append_zeros {t : List UInt8} (nonempty : t ≠ []) (trimmed : t.getLast? ≠ some 0)
    (zeros : Nat) : ∀ k ≤ zeros,
      unpaddedSize (t ++ List.replicate zeros 0) (t.length + k) = .ok t.length := by
  intro k
  induction k with
  | zero =>
    intro _
    obtain ⟨size, length⟩ : ∃ size, t.length = size + 1 :=
      ⟨t.length - 1, by have := List.length_pos_iff.2 nonempty; omega⟩
    obtain ⟨last, lastIs⟩ : ∃ last, t[size]? = some last := by
      cases found : t[size]? with
      | none => simp at found; omega
      | some last => exact ⟨last, rfl⟩
    have notZero : last ≠ 0 := fun zero => trimmed (by
      rw [List.getLast?_eq_getElem?, length, Nat.add_sub_cancel, lastIs, zero])
    have found : (t ++ List.replicate zeros 0)[size]? = some last := by
      rw [List.getElem?_append_left (by omega), lastIs]
    rw [Nat.add_zero, length, unpaddedSize, GoSemantics.sliceIndex_of_getElem? found]
    simp only [bind, Except.bind, notZero, if_false]
    rfl
  | succ k ih =>
    intro within
    have found : (t ++ List.replicate zeros 0)[t.length + k]? = some 0 := by
      rw [List.getElem?_append_right (by omega), List.getElem?_replicate]
      simp only [Nat.add_sub_cancel_left]
      rw [if_pos (by omega)]
    rw [← Nat.add_assoc, unpaddedSize, GoSemantics.sliceIndex_of_getElem? found]
    simp only [bind, Except.bind]
    exact ih (by omega)

theorem lockTimePush_reads_back (x : UInt64) (nonzero : x ≠ 0)
    (add : ScriptBuilder → UInt64 → Except Panic ScriptBuilder)
    (which : add = ScriptBuilder.addLockTimeNumber ∨ add = ScriptBuilder.addSequenceNumber) :
    ∃ script pop item, add newScriptBuilder x = .ok ⟨script, none⟩ ∧
      parseScript script = ([pop], none) ∧ (∀ stk, executePush pop stk = .ok (item :: stk)) ∧
      ∀ what stk, popUint64Operand what (item :: stk) = .ok (x, stk) := by
  have same : add = ScriptBuilder.addLockTimeOrSequence := by
    rcases which with rfl | rfl <;> rfl
  subst same
  have positive : 0 < x.toNat := by
    have := UInt64.toNat_inj.not.2 nonzero
    simp only [UInt64.toNat_zero] at this
    omega
  have fits : x.toNat < 256 ^ 8 := x.toNat_lt
  set t := LittleEndian.trimmedBytes 8 x.toNat with tIs
  have readBack : LittleEndian.value t = x.toNat := LittleEndian.value_trimmedBytes fits
  have trimmed : t.getLast? ≠ some 0 := LittleEndian.getLast?_trimmedBytes fits
  have short : t.length ≤ 8 := LittleEndian.length_trimmedBytes_le 8 x.toNat
  have nonempty : t ≠ [] := fun empty => by simp [empty, LittleEndian.value] at readBack; omega
  have padded : LittleEndian.putUint64 x = t ++ List.replicate (8 - t.length) 0 :=
    LittleEndian.putBytes_eq_trimmedBytes_append 8 x.toNat
  have stripped : unpaddedSize (LittleEndian.putUint64 x) 8 = .ok t.length := by
    have := unpaddedSize_append_zeros nonempty trimmed (8 - t.length) (8 - t.length) le_rfl
    rwa [Nat.add_sub_cancel' short, ← padded] at this
  have small : t.length ≤ maxScriptElementSize := by
    simp only [maxScriptElementSize]
    omega
  have room : newScriptBuilder.script.length + canonicalDataSize t ≤ maxScriptSize := by
    have := canonicalDataSize_le t
    simp only [newScriptBuilder, List.length_nil, maxScriptSize]
    omega
  have notZeroByte : t ≠ [0] := fun zero => trimmed (by rw [zero]; rfl)
  obtain ⟨pop, parsed, _, _, executed⟩ := dataPush_spec small
  refine ⟨dataPush t, pop, t, ?_, parsed, fun stk => by rw [executed, if_neg notZeroByte],
    fun what stk => ?_⟩
  · have noErr : newScriptBuilder.err = none := rfl
    simp only [ScriptBuilder.addLockTimeOrSequence, noErr, Option.isSome_none,
      Bool.false_eq_true, if_false, stripped, bind, Except.bind, pure, Except.pure]
    rw [padded, List.take_left, AddData_of_room noErr room small]
    rfl
  · rw [popUint64Operand_of_le what stk short, readBack, UInt64.ofNat_toNat]

theorem lockTimePush_reads_back_one :
    (1 : UInt64) ≠ 0 ∧ ∃ script pop item,
      ScriptBuilder.addLockTimeNumber newScriptBuilder 1 = .ok ⟨script, none⟩ ∧
      parseScript script = ([pop], none) ∧ (∀ stk, executePush pop stk = .ok (item :: stk)) ∧
      ∀ what stk, popUint64Operand what (item :: stk) = .ok (1, stk) :=
  ⟨by decide, lockTimePush_reads_back 1 (by decide) _ (.inl rfl)⟩

end Txscript
