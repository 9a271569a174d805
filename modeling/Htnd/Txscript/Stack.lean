import Htnd.Lib.LittleEndian

/-!
The script engine's errors (txscript/error.go), its data stack (stack.go) and the numbers kept on
it (scriptnum.go), as far as the signature opcodes use them. The stack is a list with its top
item first: a pop takes the head, a push conses.
-/
namespace Txscript

inductive ErrorCode where
  | errInternal
  | errMalformedPush
  | errUnbalancedConditional
  | errMinimalIf
  | errElementTooBig
  | errUnsatisfiedLockTime
  | errInvalidStackOperation
  | errNumberTooBig
  | errMinimalData
  | errInvalidPubKeyCount
  | errTooManyOperations
  | errInvalidSignatureCount
  | errInvalidSigHashType
  | errSigLength
  | errPubKeyFormat
  | errNullFail
  deriving DecidableEq, Repr

structure ScriptError where
  errorCode : ErrorCode
  description : String
  deriving DecidableEq, Repr

def scriptError (c : ErrorCode) (desc : String) : ScriptError := ⟨c, desc⟩

def hexNat (n : Nat) : String := String.ofList (Nat.toDigits 16 n)

/-- A byte slice printed by %x: two lowercase hexadecimal digits a byte. -/
def hexBytes (v : List UInt8) : String :=
  String.join (v.map fun b => if b < 16 then "0" ++ hexNat b.toNat else hexNat b.toNat)

abbrev Stack := List (List UInt8)

def maxInt32 : Int := 2147483647
def minInt32 : Int := -2147483648
def defaultScriptNumLen : Nat := 4

def checkMinimalDataEncoding (v : List UInt8) : Except ScriptError Unit :=
  match v.reverse with
  | [] => .ok ()
  | top :: rest =>
    if top &&& 0x7f = 0 then
      -- only a sign bit in the top byte is needed when the next byte has its high bit set
      match rest with
      | [] => .error (scriptError .errMinimalData
          ("numeric value encoded as " ++ hexBytes v ++ " is not minimally encoded"))
      | next :: _ =>
        if next &&& 0x80 = 0 then .error (scriptError .errMinimalData
          ("numeric value encoded as " ++ hexBytes v ++ " is not minimally encoded"))
        else .ok ()
    else .ok ()

/-- makeScriptNum: a little-endian number of at most scriptNumLen (and 8) bytes, with the sign in
the high bit of its last byte. The Go code ors the shifted bytes together into an int64; they do
not overlap, so that is their little-endian value, and clearing the sign bit is reading the last
byte without it. -/
def makeScriptNum (v : List UInt8) (scriptNumLen : Nat) : Except ScriptError Int :=
  if v.length > scriptNumLen then
    .error (scriptError .errNumberTooBig ("numeric value encoded as " ++ hexBytes v ++ " is " ++
      toString v.length ++ " bytes which exceeds the max allowed of " ++ toString scriptNumLen))
  else if v.length > 8 then
    .error (scriptError .errNumberTooBig
      ("numeric value encoded as " ++ hexBytes v ++ " is longer than 8 bytes"))
  else
    match checkMinimalDataEncoding v with
    | .error e => .error e
    | .ok () =>
      match v.reverse with
      | [] => .ok 0
      | top :: rest =>
        if top &&& 0x80 ≠ 0 then .ok (-(LittleEndian.value (rest.reverse ++ [top &&& 0x7f]) : Int))
        else .ok (LittleEndian.value v)

def ScriptNum.int32 (n : Int) : Int :=
  if n > maxInt32 then maxInt32
  else if n < minInt32 then minInt32
  else n

def popByteArray : Stack → Except ScriptError (List UInt8 × Stack)
  | [] => .error (scriptError .errInvalidStackOperation "index 0 is invalid for stack size 0")
  | so :: stk => .ok (so, stk)

def popInt (stk : Stack) : Except ScriptError (Int × Stack) :=
  match popByteArray stk with
  | .error e => .error e
  | .ok (so, stk) =>
    match makeScriptNum so defaultScriptNumLen with
    | .error e => .error e
    | .ok n => .ok (n, stk)

def fromBool (v : Bool) : List UInt8 := if v then [1] else []

def pushBool (stk : Stack) (val : Bool) : Stack := fromBool val :: stk

@[simp] theorem popByteArray_cons (so : List UInt8) (stk : Stack) :
    popByteArray (so :: stk) = .ok (so, stk) := rfl

theorem popInt_cons {so : List UInt8} {n : Int} (decoded : makeScriptNum so defaultScriptNumLen = .ok n)
    (stk : Stack) : popInt (so :: stk) = .ok (n, stk) := by
  simp [popInt, decoded]

theorem int32_of_le {n : Int} (low : minInt32 ≤ n) (high : n ≤ maxInt32) :
    ScriptNum.int32 n = n := by
  unfold ScriptNum.int32
  rw [if_neg (by omega), if_neg (by omega)]

example : makeScriptNum [0x81] defaultScriptNumLen = .ok (-1) := by decide
example : makeScriptNum [0xff, 0x00] defaultScriptNumLen = .ok 255 := by decide
example : (makeScriptNum [0x05, 0x00] defaultScriptNumLen).toBool = false := by decide

end Txscript
