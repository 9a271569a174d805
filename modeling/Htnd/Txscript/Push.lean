import Htnd.Txscript.Script
import Htnd.Txscript.ScriptNum

/-!
The push opcodes as the engine runs them (txscript/engine.go: executeOpcode on an executing
branch; opcode.go: checkMinimalDataPush, opcodeFalse, opcodePushData, opcode1Negate and
opcodeN; script.go: canonicalPush), and the two opcodes that read a pushed item as a uint64,
opcodeCheckLockTimeVerify and opcodeCheckSequenceVerify.
-/
namespace Txscript
open GoSemantics (Panic)

def op0 : UInt8 := 0x00
def opPushData1 : UInt8 := 0x4c
def opPushData2 : UInt8 := 0x4d
def opPushData4 : UInt8 := 0x4e
def op1Negate : UInt8 := 0x4f
def op1 : UInt8 := 0x51
def op16 : UInt8 := 0x60

def maxScriptElementSize : Nat := 520

def minimalDataError (desc : String) : ScriptError := scriptError .errMinimalData desc

def checkPushLength (name : String) (opcode : UInt8) (dataLen : Nat) : Except ScriptError Unit :=
  if dataLen ≤ 75 then
    if opcode.toNat ≠ dataLen then .error (minimalDataError ("data push of " ++ toString dataLen ++
      " bytes encoded with opcode " ++ name ++ " instead of OP_DATA_" ++ toString dataLen))
    else .ok ()
  else if dataLen ≤ 255 then
    if opcode ≠ opPushData1 then .error (minimalDataError ("data push of " ++ toString dataLen ++
      " bytes encoded with opcode " ++ name ++ " instead of OP_PUSHDATA1"))
    else .ok ()
  else if dataLen ≤ 65535 then
    if opcode ≠ opPushData2 then .error (minimalDataError ("data push of " ++ toString dataLen ++
      " bytes encoded with opcode " ++ name ++ " instead of OP_PUSHDATA2"))
    else .ok ()
  else .ok ()

def ParsedOpcode.checkMinimalDataPush (pop : ParsedOpcode) : Except ScriptError Unit :=
  let opcode := pop.opcode.value
  let name := pop.opcode.name
  match pop.data with
  | [] =>
    if opcode ≠ op0 then .error (minimalDataError
      ("zero length data push is encoded with opcode " ++ name ++ " instead of OP_0"))
    else .ok ()
  | [b] =>
    if 1 ≤ b ∧ b ≤ 16 then
      if opcode ≠ op1 + b - 1 then .error (minimalDataError ("data push of the value " ++
        toString b.toNat ++ " encoded with opcode " ++ name ++ " instead of OP_" ++ toString b.toNat))
      else .ok ()
    else if b = 0x81 then
      if opcode ≠ op1Negate then .error (minimalDataError
        ("data push of the value -1 encoded with opcode " ++ name ++ " instead of OP_1NEGATE"))
      else .ok ()
    else checkPushLength name opcode 1
  | data => checkPushLength name opcode data.length

def smallNumberData : List UInt8 → Bool
  | [b] => b ≤ 16
  | _ => false

def canonicalPush (pop : ParsedOpcode) : Bool :=
  let opcode := pop.opcode.value
  let dataLen := pop.data.length
  if opcode > op16 then true
  else if opcode < opPushData1 ∧ opcode > op0 ∧ smallNumberData pop.data then false
  else if opcode = opPushData1 ∧ dataLen < 0x4c then false
  else if opcode = opPushData2 ∧ dataLen ≤ 0xff then false
  else if opcode = opPushData4 ∧ dataLen ≤ 0xffff then false
  else true

/-- How running an opcode ends early: a script error, or a panic in its handler. -/
inductive ExecError where
  | script (e : ScriptError)
  | panic (p : Panic)
  deriving DecidableEq, Repr

def pushedItem (pop : ParsedOpcode) : Except Panic (List UInt8) :=
  if pop.opcode.value = op0 then .ok []
  else if pop.opcode.value ≤ opPushData4 then .ok pop.data
  else if pop.opcode.value = op1Negate then ScriptNum.bytes (-1)
  else ScriptNum.bytes (Int64.ofNat (pop.opcode.value - (op1 - 1)).toNat)

def minimalPushCheck (pop : ParsedOpcode) : Except ScriptError Unit :=
  if pop.opcode.value ≠ 0 ∧ pop.opcode.value ≤ opPushData4 then pop.checkMinimalDataPush
  else .ok ()

def executePush (pop : ParsedOpcode) (dstack : Stack) : Except ExecError Stack :=
  if pop.data.length > maxScriptElementSize then
    .error (.script (scriptError .errElementTooBig ("element size " ++ toString pop.data.length ++
      " exceeds max allowed size " ++ toString maxScriptElementSize)))
  else
    match minimalPushCheck pop with
    | .error e => .error (.script e)
    | .ok () =>
      match pushedItem pop with
      | .error p => .error (.panic p)
      | .ok item => .ok (item :: dstack)

/-! The lock time opcodes. -/

def lockTimeThreshold : UInt64 := 500000000000
def maxTxInSequenceNum : UInt64 := 0xffffffffffffffff
def sequenceLockTimeDisabled : UInt64 := 0x8000000000000000
def sequenceLockTimeMask : UInt64 := 0x00000000ffffffff

def verifyLockTime (txLockTime lockTime : UInt64) : Except ScriptError Unit :=
  if lockTime > txLockTime then .error (scriptError .errUnsatisfiedLockTime
    ("locktime requirement not satisfied -- locktime is greater than the transaction locktime: " ++
      toString lockTime.toNat ++ " > " ++ toString txLockTime.toNat))
  else .ok ()

def verifyLockTimeThreshold (txLockTime threshold lockTime : UInt64) : Except ScriptError Unit :=
  if ¬ ((txLockTime < threshold ∧ lockTime < threshold) ∨
      (txLockTime ≥ threshold ∧ lockTime ≥ threshold)) then
    .error (scriptError .errUnsatisfiedLockTime ("mismatched locktime types -- tx locktime " ++
      toString txLockTime.toNat ++ ", stack locktime " ++ toString lockTime.toNat))
  else .ok ()

def verifyLockTimeWithThreshold (txLockTime threshold lockTime : UInt64) :
    Except ScriptError Unit := do
  verifyLockTimeThreshold txLockTime threshold lockTime
  verifyLockTime txLockTime lockTime

/-- The operand of opcodeCheckLockTimeVerify and opcodeCheckSequenceVerify, which differ only in
what their message calls it: the top item, at most eight bytes, zero-padded to eight and read as
a little-endian uint64. -/
def popUint64Operand (what : String) (stk : Stack) : Except ScriptError (UInt64 × Stack) := do
  let (bytes, stk) ← popByteArray stk
  if bytes.length > 8 then
    .error (scriptError .errNumberTooBig
      (what ++ " value represented as " ++ hexBytes bytes ++ " is longer then 8 bytes"))
  else
    let padded := if bytes.length < 8 then GoSemantics.copySlice (List.replicate 8 0) 0 bytes
      else bytes
    pure (LittleEndian.uint64 padded, stk)

def opcodeCheckLockTimeVerify (txLockTime inputSequence : UInt64) (stk : Stack) :
    Except ScriptError Stack := do
  let (stackLockTime, stk) ← popUint64Operand "lockTime" stk
  verifyLockTimeWithThreshold txLockTime lockTimeThreshold stackLockTime
  if inputSequence = maxTxInSequenceNum then
    .error (scriptError .errUnsatisfiedLockTime "transaction input is finalized")
  else pure stk

def opcodeCheckSequenceVerify (inputSequence : UInt64) (stk : Stack) : Except ScriptError Stack := do
  let (stackSequence, stk) ← popUint64Operand "sequence" stk
  if stackSequence &&& sequenceLockTimeDisabled ≠ 0 then pure stk
  else if inputSequence &&& sequenceLockTimeDisabled ≠ 0 then
    .error (scriptError .errUnsatisfiedLockTime
      ("transaction sequence has sequence locktime disabled bit set: 0x" ++ hexNat inputSequence.toNat))
  else do
    verifyLockTime (inputSequence &&& sequenceLockTimeMask) (stackSequence &&& sequenceLockTimeMask)
    pure stk

/-! What the engine does with a push that passes its checks, and how the lock time opcodes read
the item it leaves. -/

theorem executePush_of_checks {pop : ParsedOpcode} {item : List UInt8}
    (small : pop.data.length ≤ maxScriptElementSize) (minimal : minimalPushCheck pop = .ok ())
    (pushed : pushedItem pop = .ok item) (stk : Stack) :
    executePush pop stk = .ok (item :: stk) := by
  simp [executePush, minimal, pushed, Nat.not_lt.2 small]

theorem checkMinimalDataPush_of_two_le {op : Opcode} {data : List UInt8} (long : 2 ≤ data.length) :
    (ParsedOpcode.mk op data).checkMinimalDataPush = checkPushLength op.name op.value data.length := by
  match data, long with
  | _ :: _ :: _, _ => rfl

theorem popUint64Operand_of_le (what : String) {bytes : List UInt8} (stk : Stack)
    (short : bytes.length ≤ 8) :
    popUint64Operand what (bytes :: stk) = .ok (UInt64.ofNat (LittleEndian.value bytes), stk) := by
  have padded : (if bytes.length < 8 then GoSemantics.copySlice (List.replicate 8 0) 0 bytes
      else bytes) = bytes ++ List.replicate (8 - bytes.length) 0 := by
    split_ifs with shorter
    · have zeros : List.replicate 8 (0 : UInt8) =
          [] ++ (List.replicate bytes.length 0 ++ List.replicate (8 - bytes.length) 0) := by
        rw [List.nil_append, ← List.replicate_add]
        congr 1
        omega
      rw [zeros, GoSemantics.copySlice_append [] _ _ bytes List.length_nil List.length_replicate,
        List.nil_append]
    · rw [show 8 - bytes.length = 0 by omega, List.replicate_zero, List.append_nil]
  have eight : (bytes ++ List.replicate (8 - bytes.length) 0).length = 8 := by simp; omega
  simp only [popUint64Operand, popByteArray, bind, Except.bind, pure, Except.pure,
    if_neg (Nat.not_lt.2 short)]
  rw [padded, LittleEndian.uint64, List.take_of_length_le (by omega),
    LittleEndian.value_append_replicate_zero]

end Txscript
