import Mathlib
import Htnd.Txscript.Stack

/-!
Script parsing (txscript/script.go: parseScriptTemplate, ParseScript and unparseScript) over the
opcode table of opcode.go, and the encoding of a parsed opcode back into script bytes
(parsedOpcode.bytes).

The table is kept as its three data columns, the handlers being the engine's. Its value column is
not every entry's own byte: the entries of OP_UNKNOWN178 to OP_UNKNOWN187 are written with
OpUnknown188 to OpUnknown197, so a script that holds one of those bytes as an opcode unparses to
another script. For the other scripts parsing and unparsing are inverse: what parses unparses
back to itself, and what fails to parse unparses, through its parsed prefix, to a proper prefix
of itself.
-/
namespace Txscript

structure Opcode where
  value : UInt8
  name : String
  length : Int
  deriving DecidableEq, Repr

def opcodeNames : List String := [
  "OP_0", "OP_DATA_1", "OP_DATA_2", "OP_DATA_3", "OP_DATA_4", "OP_DATA_5", "OP_DATA_6",
  "OP_DATA_7", "OP_DATA_8", "OP_DATA_9", "OP_DATA_10", "OP_DATA_11", "OP_DATA_12", "OP_DATA_13",
  "OP_DATA_14", "OP_DATA_15", "OP_DATA_16", "OP_DATA_17", "OP_DATA_18", "OP_DATA_19", "OP_DATA_20",
  "OP_DATA_21", "OP_DATA_22", "OP_DATA_23", "OP_DATA_24", "OP_DATA_25", "OP_DATA_26", "OP_DATA_27",
  "OP_DATA_28", "OP_DATA_29", "OP_DATA_30", "OP_DATA_31", "OP_DATA_32", "OP_DATA_33", "OP_DATA_34",
  "OP_DATA_35", "OP_DATA_36", "OP_DATA_37", "OP_DATA_38", "OP_DATA_39", "OP_DATA_40", "OP_DATA_41",
  "OP_DATA_42", "OP_DATA_43", "OP_DATA_44", "OP_DATA_45", "OP_DATA_46", "OP_DATA_47", "OP_DATA_48",
  "OP_DATA_49", "OP_DATA_50", "OP_DATA_51", "OP_DATA_52", "OP_DATA_53", "OP_DATA_54", "OP_DATA_55",
  "OP_DATA_56", "OP_DATA_57", "OP_DATA_58", "OP_DATA_59", "OP_DATA_60", "OP_DATA_61", "OP_DATA_62",
  "OP_DATA_63", "OP_DATA_64", "OP_DATA_65", "OP_DATA_66", "OP_DATA_67", "OP_DATA_68", "OP_DATA_69",
  "OP_DATA_70", "OP_DATA_71", "OP_DATA_72", "OP_DATA_73", "OP_DATA_74", "OP_DATA_75",
  "OP_PUSHDATA1", "OP_PUSHDATA2", "OP_PUSHDATA4", "OP_1NEGATE", "OP_RESERVED", "OP_1", "OP_2",
  "OP_3", "OP_4", "OP_5", "OP_6", "OP_7", "OP_8", "OP_9", "OP_10", "OP_11", "OP_12", "OP_13",
  "OP_14", "OP_15", "OP_16", "OP_NOP", "OP_VER", "OP_IF", "OP_NOTIF", "OP_VERIF", "OP_VERNOTIF",
  "OP_ELSE", "OP_ENDIF", "OP_VERIFY", "OP_RETURN", "OP_TOALTSTACK", "OP_FROMALTSTACK", "OP_2DROP",
  "OP_2DUP", "OP_3DUP", "OP_2OVER", "OP_2ROT", "OP_2SWAP", "OP_IFDUP", "OP_DEPTH", "OP_DROP",
  "OP_DUP", "OP_NIP", "OP_OVER", "OP_PICK", "OP_ROLL", "OP_ROT", "OP_SWAP", "OP_TUCK", "OP_CAT",
  "OP_SUBSTR", "OP_LEFT", "OP_RIGHT", "OP_SIZE", "OP_INVERT", "OP_AND", "OP_OR", "OP_XOR",
  "OP_EQUAL", "OP_EQUALVERIFY", "OP_RESERVED1", "OP_RESERVED2", "OP_1ADD", "OP_1SUB", "OP_2MUL",
  "OP_2DIV", "OP_NEGATE", "OP_ABS", "OP_NOT", "OP_0NOTEQUAL", "OP_ADD", "OP_SUB", "OP_MUL",
  "OP_DIV", "OP_MOD", "OP_LSHIFT", "OP_RSHIFT", "OP_BOOLAND", "OP_BOOLOR", "OP_NUMEQUAL",
  "OP_NUMEQUALVERIFY", "OP_NUMNOTEQUAL", "OP_LESSTHAN", "OP_GREATERTHAN", "OP_LESSTHANOREQUAL",
  "OP_GREATERTHANOREQUAL", "OP_MIN", "OP_MAX", "OP_WITHIN", "OP_UNKNOWN166", "OP_UNKNOWN167",
  "OP_SHA256", "OP_CHECKMULTISIGECDSA", "OP_BLAKE2B", "OP_CHECKSIGECDSA", "OP_CHECKSIG",
  "OP_CHECKSIGVERIFY", "OP_CHECKMULTISIG", "OP_CHECKMULTISIGVERIFY", "OP_CHECKLOCKTIMEVERIFY",
  "OP_CHECKSEQUENCEVERIFY", "OP_UNKNOWN178", "OP_UNKNOWN179", "OP_UNKNOWN180", "OP_UNKNOWN181",
  "OP_UNKNOWN182", "OP_UNKNOWN183", "OP_UNKNOWN184", "OP_UNKNOWN185", "OP_UNKNOWN186",
  "OP_UNKNOWN187", "OP_UNKNOWN188", "OP_UNKNOWN189", "OP_UNKNOWN190", "OP_UNKNOWN191",
  "OP_UNKNOWN192", "OP_UNKNOWN193", "OP_UNKNOWN194", "OP_UNKNOWN195", "OP_UNKNOWN196",
  "OP_UNKNOWN197", "OP_UNKNOWN198", "OP_UNKNOWN199", "OP_UNKNOWN200", "OP_UNKNOWN201",
  "OP_UNKNOWN202", "OP_UNKNOWN203", "OP_UNKNOWN204", "OP_UNKNOWN205", "OP_UNKNOWN206",
  "OP_UNKNOWN207", "OP_UNKNOWN208", "OP_UNKNOWN209", "OP_UNKNOWN210", "OP_UNKNOWN211",
  "OP_UNKNOWN212", "OP_UNKNOWN213", "OP_UNKNOWN214", "OP_UNKNOWN215", "OP_UNKNOWN216",
  "OP_UNKNOWN217", "OP_UNKNOWN218", "OP_UNKNOWN219", "OP_UNKNOWN220", "OP_UNKNOWN221",
  "OP_UNKNOWN222", "OP_UNKNOWN223", "OP_UNKNOWN224", "OP_UNKNOWN225", "OP_UNKNOWN226",
  "OP_UNKNOWN227", "OP_UNKNOWN228", "OP_UNKNOWN229", "OP_UNKNOWN230", "OP_UNKNOWN231",
  "OP_UNKNOWN232", "OP_UNKNOWN233", "OP_UNKNOWN234", "OP_UNKNOWN235", "OP_UNKNOWN236",
  "OP_UNKNOWN237", "OP_UNKNOWN238", "OP_UNKNOWN239", "OP_UNKNOWN240", "OP_UNKNOWN241",
  "OP_UNKNOWN242", "OP_UNKNOWN243", "OP_UNKNOWN244", "OP_UNKNOWN245", "OP_UNKNOWN246",
  "OP_UNKNOWN247", "OP_UNKNOWN248", "OP_UNKNOWN249", "OP_SMALLINTEGER", "OP_PUBKEYS",
  "OP_UNKNOWN252", "OP_PUBKEYHASH", "OP_PUBKEY", "OP_INVALIDOPCODE"]

def opcodeLength (b : UInt8) : Int :=
  if b = 0 then 1
  else if b ≤ 75 then b.toNat + 1
  else if b = 0x4c then -1
  else if b = 0x4d then -2
  else if b = 0x4e then -4
  else 1

def opcodeValue (b : UInt8) : UInt8 := if 0xb2 ≤ b ∧ b ≤ 0xbb then b + 10 else b

def opcodeArray (b : UInt8) : Opcode := ⟨opcodeValue b, opcodeNames.getD b.toNat "", opcodeLength b⟩

@[simp] theorem opcodeArray_value (b : UInt8) : (opcodeArray b).value = opcodeValue b := rfl

@[simp] theorem opcodeArray_length (b : UInt8) : (opcodeArray b).length = opcodeLength b := rfl

structure ParsedOpcode where
  opcode : Opcode
  data : List UInt8
  deriving DecidableEq, Repr

def pushDataWidth (length : Int) : Option Nat :=
  if length = -1 then some 1 else if length = -2 then some 2 else if length = -4 then some 4
  else none

def requiresError (name : String) (needed : Int) (remaining : Nat) : ScriptError :=
  scriptError .errMalformedPush ("opcode " ++ name ++ " requires " ++ toString needed ++
    " bytes, but script only has " ++ toString remaining ++ " remaining")

def parseOpcode (instr : UInt8) (rest : List UInt8) :
    Except ScriptError (ParsedOpcode × List UInt8) :=
  let op := opcodeArray instr
  if op.length = 1 then .ok (⟨op, []⟩, rest)
  else if op.length > 1 then
    if ((instr :: rest).length : Int) < op.length then
      .error (requiresError op.name op.length (instr :: rest).length)
    else .ok (⟨op, rest.take (op.length.toNat - 1)⟩, rest.drop (op.length.toNat - 1))
  -- no entry of the table has length 0: the rest are the OP_PUSHDATA opcodes
  else if (rest.length : Int) < -op.length then
    .error (requiresError op.name (-op.length) rest.length)
  else
    match pushDataWidth op.length with
    | none => .error (scriptError .errMalformedPush ("invalid opcode length " ++ toString op.length))
    | some width =>
      let l := LittleEndian.value (rest.take width)
      let data := rest.drop width
      if l > data.length then
        .error (scriptError .errMalformedPush ("opcode " ++ op.name ++ " pushes " ++ toString l ++
          " bytes, but script only has " ++ toString data.length ++ " remaining"))
      else .ok (⟨op, data.take l⟩, data.drop l)

def parseOpcodes : Nat → List UInt8 → List ParsedOpcode × Option ScriptError
  | 0, _ => ([], none)
  | _ + 1, [] => ([], none)
  | fuel + 1, instr :: rest =>
    match parseOpcode instr rest with
    | .error e => ([], some e)
    | .ok (pop, script) =>
      let (pops, err) := parseOpcodes fuel script
      (pop :: pops, err)

def parseScript (script : List UInt8) : List ParsedOpcode × Option ScriptError :=
  parseOpcodes script.length script

def internalError (name : String) (length expected : Int) : ScriptError :=
  scriptError .errInternal ("internal consistency error - parsed opcode " ++ name ++
    " has data length " ++ toString length ++ " when " ++ toString expected ++ " was expected")

def ParsedOpcode.bytes (pop : ParsedOpcode) : Except ScriptError (List UInt8) :=
  if pop.opcode.length = 1 then
    if pop.data.length ≠ 0 then .error (internalError pop.opcode.name pop.data.length 0)
    else .ok [pop.opcode.value]
  else
    -- the length field keeps the data's length modulo its width, and is read back for the check
    let (lengthField, nbytes) : List UInt8 × Int :=
      match pushDataWidth pop.opcode.length with
      | some width =>
        let field := LittleEndian.putBytes width pop.data.length
        (field, LittleEndian.value field + (1 + width))
      | none => ([], pop.opcode.length)
    let retbytes := pop.opcode.value :: lengthField ++ pop.data
    if (retbytes.length : Int) ≠ nbytes then
      .error (internalError pop.opcode.name retbytes.length nbytes)
    else .ok retbytes

def unparseScript : List ParsedOpcode → Except ScriptError (List UInt8)
  | [] => .ok []
  | pop :: pops => do
    let b ← pop.bytes
    let script ← unparseScript pops
    pure (b ++ script)

theorem pushDataWidth_eq_some {length : Int} {width : Nat} (w : pushDataWidth length = some width) :
    length = -(width : Int) := by
  simp only [pushDataWidth] at w
  split_ifs at w <;> cases w <;> omega

/-! The encoding of each kind of opcode, when its data has the length the opcode announces. -/

theorem bytes_of_length_one {op : Opcode} (one : op.length = 1) :
    (ParsedOpcode.mk op []).bytes = .ok [op.value] := by
  simp [ParsedOpcode.bytes, one]

theorem bytes_of_direct {op : Opcode} {data : List UInt8} (direct : op.length > 1)
    (fits : (data.length : Int) + 1 = op.length) :
    (ParsedOpcode.mk op data).bytes = .ok (op.value :: data) := by
  have noField : pushDataWidth op.length = none := by
    simp only [pushDataWidth]
    split_ifs <;> first | rfl | omega
  have notOne : op.length ≠ 1 := by omega
  have total : (([op.value] ++ data).length : Int) = op.length := by
    simp only [List.length_append, List.length_singleton]
    omega
  simp only [ParsedOpcode.bytes, notOne, noField, if_false, total, ne_eq, not_true_eq_false]
  rfl

theorem bytes_of_pushData {op : Opcode} {data : List UInt8} {width : Nat}
    (w : pushDataWidth op.length = some width) (fits : data.length < 256 ^ width) :
    (ParsedOpcode.mk op data).bytes = .ok (op.value :: LittleEndian.putBytes width data.length ++ data) := by
  have notOne : op.length ≠ 1 := by
    have := pushDataWidth_eq_some w
    omega
  have readBack : LittleEndian.value (LittleEndian.putBytes width data.length) = data.length := by
    rw [LittleEndian.value_putBytes, Nat.mod_eq_of_lt fits]
  have total : ((op.value :: LittleEndian.putBytes width data.length ++ data).length : Int) =
      data.length + (1 + width) := by
    simp only [List.length_append, List.length_cons, LittleEndian.length_putBytes]
    omega
  simp only [ParsedOpcode.bytes, notOne, w, readBack, if_false, total, ne_eq, not_true_eq_false]

theorem parseOpcode_bytes {instr : UInt8} {rest script : List UInt8} {pop : ParsedOpcode}
    (parsed : parseOpcode instr rest = .ok (pop, script)) :
    ∃ n, script = rest.drop n ∧ pop.bytes = .ok (opcodeValue instr :: rest.take n) := by
  dsimp only [parseOpcode] at parsed
  split at parsed
  next one =>
    cases parsed
    exact ⟨0, rfl, bytes_of_length_one one⟩
  next =>
    split at parsed
    next direct =>
      split at parsed
      next => cases parsed
      next long =>
        cases parsed
        refine ⟨_, rfl, bytes_of_direct direct ?_⟩
        simp only [List.length_cons] at long
        simp only [List.length_take]
        omega
    next =>
      split at parsed
      next => cases parsed
      next long =>
        split at parsed
        next => cases parsed
        next width w =>
          split at parsed
          next => cases parsed
          next inScript =>
            cases parsed
            have wide : width ≤ rest.length := by
              have := pushDataWidth_eq_some w
              omega
            have taken : ((rest.drop width).take (LittleEndian.value (rest.take width))).length =
                LittleEndian.value (rest.take width) := by
              simp only [List.length_take]
              omega
            have fieldFits : ((rest.drop width).take (LittleEndian.value (rest.take width))).length <
                256 ^ width := by
              rw [taken]
              exact LittleEndian.value_take_lt width rest
            refine ⟨width + LittleEndian.value (rest.take width), List.drop_drop, ?_⟩
            rw [bytes_of_pushData w fieldFits, taken,
              LittleEndian.putBytes_value_take wide, List.take_add]
            rfl

theorem unparseScript_cons {pop : ParsedOpcode} {pops : List ParsedOpcode} {b : List UInt8}
    (encoded : pop.bytes = .ok b) :
    unparseScript (pop :: pops) = (unparseScript pops).map (b ++ ·) := by
  simp only [unparseScript, encoded]
  cases unparseScript pops <;> rfl

theorem parseOpcodes_unparse (fuel : Nat) (script : List UInt8) (enough : script.length ≤ fuel)
    (noRemapped : ∀ b ∈ script, opcodeValue b = b) :
    ∃ consumed rest, unparseScript (parseOpcodes fuel script).1 = .ok consumed ∧
      script = consumed ++ rest ∧ ((parseOpcodes fuel script).2 = none ↔ rest = []) := by
  induction fuel generalizing script with
  | zero =>
    obtain rfl : script = [] := List.eq_nil_of_length_eq_zero (by omega)
    exact ⟨[], [], rfl, rfl, by simp [parseOpcodes]⟩
  | succ fuel ih =>
    match script with
    | [] => exact ⟨[], [], rfl, rfl, by simp [parseOpcodes]⟩
    | instr :: rest =>
      cases parsed : parseOpcode instr rest with
      | error e =>
        refine ⟨[], instr :: rest, ?_, rfl, ?_⟩ <;> simp [parseOpcodes, parsed, unparseScript]
      | ok result =>
        obtain ⟨pop, script⟩ := result
        obtain ⟨n, after, encoded⟩ := parseOpcode_bytes parsed
        have shorter : script.length ≤ fuel := by
          simp only [after, List.length_drop, List.length_cons] at enough ⊢
          omega
        have noRemapped' : ∀ b ∈ script, opcodeValue b = b := fun b mem =>
          noRemapped b (List.mem_cons_of_mem _ (List.mem_of_mem_drop (after ▸ mem)))
        obtain ⟨consumed, unparsedRest, unparsed, split, stopped⟩ := ih script shorter noRemapped'
        have own : opcodeValue instr = instr := noRemapped instr List.mem_cons_self
        refine ⟨instr :: rest.take n ++ consumed, unparsedRest, ?_, ?_, ?_⟩
        · simp only [parseOpcodes, parsed]
          rw [unparseScript_cons encoded, unparsed, own]
          rfl
        · rw [List.append_assoc, ← split, after, List.cons_append, List.take_append_drop]
        · simpa only [parseOpcodes, parsed] using stopped

theorem parseScript_unparse (script : List UInt8) (noRemapped : ∀ b ∈ script, opcodeValue b = b) :
    ∃ consumed, unparseScript (parseScript script).1 = .ok consumed ∧
      ((parseScript script).2 = none → consumed = script) ∧
      ((parseScript script).2 ≠ none → consumed <+: script ∧ consumed ≠ script) := by
  obtain ⟨consumed, rest, unparsed, split, stopped⟩ :=
    parseOpcodes_unparse script.length script le_rfl noRemapped
  refine ⟨consumed, unparsed, fun parsed => ?_, fun failed => ⟨⟨rest, split.symm⟩, ?_⟩⟩
  · rw [split, stopped.1 parsed, List.append_nil]
  · intro same
    have : rest = [] := by simpa [← same] using split
    exact failed (stopped.2 this)

theorem parseScript_unparse_push :
    let script : List UInt8 := [0x51, 0x01, 0x07]
    (∀ b ∈ script, opcodeValue b = b) ∧ ∃ consumed, unparseScript (parseScript script).1 = .ok consumed ∧
      ((parseScript script).2 = none → consumed = script) ∧
      ((parseScript script).2 ≠ none → consumed <+: script ∧ consumed ≠ script) := by
  intro script
  have noRemapped : ∀ b ∈ script, opcodeValue b = b := by simp [script, opcodeValue]
  exact ⟨noRemapped, parseScript_unparse script noRemapped⟩

theorem parseScript_unknown178_unparses_as_unknown188 :
    (parseScript [0xb2]).2 = none ∧ unparseScript (parseScript [0xb2]).1 = .ok [0xbc] := by
  decide

/-! What parses back: each kind of push, written out, is one parsed opcode. -/

theorem parseScript_of_parseOpcode {instr : UInt8} {rest : List UInt8} {pop : ParsedOpcode}
    (parsed : parseOpcode instr rest = .ok (pop, [])) : parseScript (instr :: rest) = ([pop], none) := by
  simp only [parseScript, List.length_cons, parseOpcodes, parsed]
  cases rest.length <;> rfl

theorem parseOpcode_of_length_one {b : UInt8} (one : opcodeLength b = 1) (rest : List UInt8) :
    parseOpcode b rest = .ok (⟨opcodeArray b, []⟩, rest) := by
  simp [parseOpcode, one]

theorem parseOpcode_direct {data : List UInt8} (nonempty : 0 < data.length) (short : data.length < 76)
    (rest : List UInt8) :
    parseOpcode (UInt8.ofNat data.length) (data ++ rest) =
      .ok (⟨opcodeArray (UInt8.ofNat data.length), data⟩, rest) := by
  have byte : (UInt8.ofNat data.length).toNat = data.length :=
    UInt8.toNat_ofNat_of_lt (show data.length < 256 by omega)
  have length : opcodeLength (UInt8.ofNat data.length) = data.length + 1 := by
    have notZero : UInt8.ofNat data.length ≠ 0 := fun zero => by
      have := byte
      rw [zero, UInt8.toNat_zero] at this
      omega
    have direct : UInt8.ofNat data.length ≤ 75 := by
      have seventyFive : (75 : UInt8).toNat = 75 := rfl
      rw [UInt8.le_iff_toNat_le, byte, seventyFive]
      omega
    simp [opcodeLength, notZero, direct, byte]
  have taken : (data.length + 1 : Int).toNat - 1 = data.length := by omega
  simp only [parseOpcode, opcodeArray_length, length, List.length_cons, List.length_append]
  rw [if_neg (by omega), if_pos (by omega), if_neg (by omega), taken, List.take_left, List.drop_left]

theorem parseOpcode_pushData {op : UInt8} {width : Nat} (w : pushDataWidth (opcodeLength op) = some width)
    {data : List UInt8} (fits : data.length < 256 ^ width) (rest : List UInt8) :
    parseOpcode op (LittleEndian.putBytes width data.length ++ (data ++ rest)) =
      .ok (⟨opcodeArray op, data⟩, rest) := by
  have negative := pushDataWidth_eq_some w
  have field : LittleEndian.value ((LittleEndian.putBytes width data.length ++ (data ++ rest)).take width) =
      data.length := by
    rw [LittleEndian.value_take_putBytes_append, Nat.mod_eq_of_lt fits]
  have after : (LittleEndian.putBytes width data.length ++ (data ++ rest)).drop width = data ++ rest := by
    rw [List.drop_left' (LittleEndian.length_putBytes width _)]
  simp only [parseOpcode, opcodeArray_length, w, field, after]
  rw [if_neg (by omega), if_neg (by omega), if_neg (by simp; omega), if_neg (by simp)]
  rw [List.take_left, List.drop_left]

theorem parseOpcode_opcode {instr : UInt8} {rest script : List UInt8} {pop : ParsedOpcode}
    (parsed : parseOpcode instr rest = .ok (pop, script)) : pop.opcode = opcodeArray instr := by
  dsimp only [parseOpcode] at parsed
  split at parsed
  · cases parsed
    rfl
  split at parsed
  · split at parsed
    · cases parsed
    · cases parsed
      rfl
  split at parsed
  · cases parsed
  split at parsed
  · cases parsed
  split at parsed
  · cases parsed
  · cases parsed
    rfl

theorem parseOpcodes_fuel : ∀ (fuel fuel' : Nat) (script : List UInt8), script.length ≤ fuel →
    script.length ≤ fuel' → parseOpcodes fuel script = parseOpcodes fuel' script
  | 0, fuel', script, enough, _ => by
    obtain rfl : script = [] := List.eq_nil_of_length_eq_zero (by omega)
    cases fuel' <;> rfl
  | fuel + 1, 0, script, _, enough' => by
    obtain rfl : script = [] := List.eq_nil_of_length_eq_zero (by omega)
    rfl
  | fuel + 1, fuel' + 1, [], _, _ => rfl
  | fuel + 1, fuel' + 1, instr :: rest, enough, enough' => by
    cases parsed : parseOpcode instr rest with
    | error e => simp only [parseOpcodes, parsed]
    | ok result =>
      obtain ⟨pop, script⟩ := result
      obtain ⟨n, after, -⟩ := parseOpcode_bytes parsed
      have shorter : script.length ≤ rest.length := by
        rw [after, List.length_drop]
        omega
      simp only [List.length_cons] at enough enough'
      simp only [parseOpcodes, parsed]
      rw [parseOpcodes_fuel fuel fuel' script (by omega) (by omega)]

theorem parseOpcodes_of_le (fuel : Nat) (script : List UInt8) (enough : script.length ≤ fuel) :
    parseOpcodes fuel script = parseScript script :=
  parseOpcodes_fuel fuel script.length script enough (le_refl _)

theorem parseScript_cons {instr : UInt8} {rest script : List UInt8} {pop : ParsedOpcode}
    (parsed : parseOpcode instr rest = .ok (pop, script)) :
    parseScript (instr :: rest) = (pop :: (parseScript script).1, (parseScript script).2) := by
  obtain ⟨n, after, -⟩ := parseOpcode_bytes parsed
  have shorter : script.length ≤ rest.length := by
    rw [after, List.length_drop]
    omega
  simp only [parseScript, List.length_cons, parseOpcodes, parsed,
    parseOpcodes_of_le rest.length script shorter]

theorem unparseScript_of_parseScript :
    ∀ {script : List UInt8} {pops : List ParsedOpcode}, parseScript script = (pops, none) →
      (∀ pop ∈ pops, ∀ b, opcodeValue b = pop.opcode.value → b = pop.opcode.value) →
      unparseScript pops = .ok script
  | [], pops, parsed, _ => by
    cases parsed
    rfl
  | instr :: rest, pops, parsed, own => by
    cases parsedOp : parseOpcode instr rest with
    | error e =>
      simp [parseScript, parseOpcodes, parsedOp] at parsed
    | ok result =>
      obtain ⟨pop, script⟩ := result
      rw [parseScript_cons parsedOp] at parsed
      obtain ⟨rfl, restParsed⟩ := Prod.mk.inj parsed
      obtain ⟨n, after, encoded⟩ := parseOpcode_bytes parsedOp
      have value : opcodeValue instr = pop.opcode.value := by rw [parseOpcode_opcode parsedOp]; rfl
      have byte : opcodeValue instr = instr :=
        value.trans (own pop List.mem_cons_self instr value).symm
      have shorter : script.length < (instr :: rest).length := by
        rw [after, List.length_drop, List.length_cons]
        omega
      have restParsed' : parseScript script = ((parseScript script).1, none) := by
        rw [← restParsed]
      rw [unparseScript_cons encoded, byte,
        unparseScript_of_parseScript restParsed' (fun p mem => own p (List.mem_cons_of_mem _ mem)),
        after]
      change Except.ok (instr :: (List.take n rest ++ List.drop n rest)) = _
      rw [List.take_append_drop]
termination_by script => script.length

theorem eq_of_opcodeValue_eq {b v : UInt8} (value : opcodeValue b = v) (outside : v < 0xbc ∨ 0xc5 < v) :
    b = v := by
  unfold opcodeValue at value
  split at value
  · rename_i remapped
    exfalso
    subst value
    simp only [UInt8.le_iff_toNat_le, UInt8.lt_iff_toNat_lt, UInt8.toNat_add] at remapped outside
    have : (0xb2 : UInt8).toNat = 178 := rfl
    have : (0xbb : UInt8).toNat = 187 := rfl
    have : (0xbc : UInt8).toNat = 188 := rfl
    have : (0xc5 : UInt8).toNat = 197 := rfl
    have : (10 : UInt8).toNat = 10 := rfl
    omega
  · exact value

theorem mem_parseScript {script : List UInt8} :
    ∀ pop ∈ (parseScript script).1, ∃ b, pop.opcode = opcodeArray b ∧ ∃ bytes, pop.bytes = .ok bytes := by
  suffices loop : ∀ fuel (script : List UInt8), ∀ pop ∈ (parseOpcodes fuel script).1,
      ∃ b, pop.opcode = opcodeArray b ∧ ∃ bytes, pop.bytes = .ok bytes from loop _ script
  intro fuel
  induction fuel with
  | zero => intro script pop mem; simp [parseOpcodes] at mem
  | succ fuel ih =>
    intro script pop mem
    match script, mem with
    | instr :: rest, mem =>
      cases parsed : parseOpcode instr rest with
      | error e => simp [parseOpcodes, parsed] at mem
      | ok result =>
        obtain ⟨first, after⟩ := result
        simp only [parseOpcodes, parsed, List.mem_cons] at mem
        rcases mem with rfl | later
        · obtain ⟨n, -, encoded⟩ := parseOpcode_bytes parsed
          exact ⟨instr, parseOpcode_opcode parsed, _, encoded⟩
        · exact ih after pop later

theorem unparseScript_cons_ok {pop : ParsedOpcode} {pops : List ParsedOpcode} {script : List UInt8}
    (unparsed : unparseScript (pop :: pops) = .ok script) :
    ∃ b rest, pop.bytes = .ok b ∧ unparseScript pops = .ok rest ∧ script = b ++ rest := by
  cases encoded : pop.bytes with
  | error e => simp [unparseScript, encoded, bind, Except.bind] at unparsed
  | ok b =>
    rw [unparseScript_cons encoded] at unparsed
    cases rest : unparseScript pops with
    | error e => simp [rest] at unparsed; cases unparsed
    | ok tail =>
      rw [rest] at unparsed
      exact ⟨b, tail, rfl, rfl, (Except.ok.inj unparsed).symm⟩

theorem bytes_eq_ok_of_length_one {op : Opcode} {data bytes : List UInt8} (one : op.length = 1)
    (encoded : (ParsedOpcode.mk op data).bytes = .ok bytes) : data = [] ∧ bytes = [op.value] := by
  simp only [ParsedOpcode.bytes, one, if_true] at encoded
  split at encoded
  · cases encoded
  · rename_i empty
    exact ⟨List.eq_nil_of_length_eq_zero (by simpa using empty), (Except.ok.inj encoded).symm⟩

theorem bytes_eq_ok_of_direct {op : Opcode} {data bytes : List UInt8} (direct : op.length > 1)
    (encoded : (ParsedOpcode.mk op data).bytes = .ok bytes) :
    bytes = op.value :: data ∧ (data.length : Int) + 1 = op.length := by
  have noField : pushDataWidth op.length = none := by
    simp only [pushDataWidth]
    split_ifs <;> first | rfl | omega
  simp only [ParsedOpcode.bytes, if_neg (show op.length ≠ 1 by omega), noField] at encoded
  split at encoded
  · cases encoded
  · rename_i fits
    refine ⟨(Except.ok.inj encoded).symm, ?_⟩
    simp only [List.cons_append, List.nil_append, List.length_cons, ne_eq, not_not] at fits
    omega

end Txscript
