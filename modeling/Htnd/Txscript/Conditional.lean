import Htnd.Txscript.Script
import Mathlib.Logic.Relation

/-!
The engine's conditional stack (txscript/engine.go: isBranchExecuting and the part of
executeOpcode that runs conditionals; opcode.go: opcodeIf, opcodeNotIf, opcodeElse and
opcodeEndif).

isBranchExecuting looks at the top entry only. That is exact because the stack keeps one shape
through every step of the engine, from the empty stack a script starts with: skip entries on top,
then at most one false entry, then true entries. A skip is pushed only on a non-executing branch,
so on a false or skip entry, and OP_ELSE leaves skips alone and flips only a true or false top,
which has only true entries below it.
-/
namespace Txscript

inductive CondValue where
  | opCondFalse
  | opCondTrue
  | opCondSkip
  deriving DecidableEq, Repr

structure CondEngine where
  dstack : Stack
  condStack : List CondValue
  deriving DecidableEq, Repr

def CondEngine.isBranchExecuting (vm : CondEngine) : Bool :=
  match vm.condStack with
  | [] => true
  | top :: _ => top == .opCondTrue

def popIfBool (stk : Stack) : Except ScriptError (Bool × Stack) := do
  let (so, stk) ← popByteArray stk
  if so = [1] then pure (true, stk)
  else if so = [] then pure (false, stk)
  else .error (scriptError .errMinimalIf
    ("with OP_IF or OP_NOTIF top stack item MUST be an empty byte array or 0x01, and is instead: " ++
      hexBytes so))

/-- opcodeIf and opcodeNotIf, which differ only in the boolean that makes the branch execute: on
an executing branch the boolean is popped and decides the entry, on another one a skip is
pushed. -/
def pushCondition (executeOn : Bool) (vm : CondEngine) : Except ScriptError CondEngine :=
  if vm.isBranchExecuting then do
    let (ok, dstack) ← popIfBool vm.dstack
    pure ⟨dstack, (if ok = executeOn then .opCondTrue else .opCondFalse) :: vm.condStack⟩
  else pure { vm with condStack := .opCondSkip :: vm.condStack }

def opcodeIf : CondEngine → Except ScriptError CondEngine := pushCondition true

def opcodeNotIf : CondEngine → Except ScriptError CondEngine := pushCondition false

def unbalancedConditional (op : ParsedOpcode) : ScriptError :=
  scriptError .errUnbalancedConditional ("encountered opcode " ++ op.opcode.name ++
    " with no matching opcode to begin conditional execution")

def opcodeElse (op : ParsedOpcode) (vm : CondEngine) : Except ScriptError CondEngine :=
  match vm.condStack with
  | [] => .error (unbalancedConditional op)
  | .opCondTrue :: rest => .ok { vm with condStack := .opCondFalse :: rest }
  | .opCondFalse :: rest => .ok { vm with condStack := .opCondTrue :: rest }
  -- a skip stays: the OP_IF it closes was nested in a branch that does not execute
  | .opCondSkip :: _ => .ok vm

def opcodeEndif (op : ParsedOpcode) (vm : CondEngine) : Except ScriptError CondEngine :=
  match vm.condStack with
  | [] => .error (unbalancedConditional op)
  | _ :: rest => .ok { vm with condStack := rest }

def opIf : UInt8 := 0x63
def opNotIf : UInt8 := 0x64
def opElse : UInt8 := 0x67
def opEndIf : UInt8 := 0x68

def ParsedOpcode.isConditional (pop : ParsedOpcode) : Bool :=
  pop.opcode.value = opIf || pop.opcode.value = opNotIf || pop.opcode.value = opElse ||
    pop.opcode.value = opEndIf

def executeConditional (pop : ParsedOpcode) (vm : CondEngine) : Except ScriptError CondEngine :=
  if pop.opcode.value = opIf then opcodeIf vm
  else if pop.opcode.value = opNotIf then opcodeNotIf vm
  else if pop.opcode.value = opElse then opcodeElse pop vm
  else opcodeEndif pop vm

inductive Step : CondEngine → CondEngine → Prop
  | conditional {vm vm' : CondEngine} {pop : ParsedOpcode} :
      pop.isConditional → executeConditional pop vm = .ok vm' → Step vm vm'
  | other {vm : CondEngine} (dstack : Stack) : Step vm { vm with dstack }

inductive Stopped : List CondValue → Prop
  | onFalse {cs : List CondValue} : (∀ c ∈ cs, c = .opCondTrue) → Stopped (.opCondFalse :: cs)
  | skip {cs : List CondValue} : Stopped cs → Stopped (.opCondSkip :: cs)

def CondShape (cs : List CondValue) : Prop := (∀ c ∈ cs, c = .opCondTrue) ∨ Stopped cs

/-! The shape, what it says of isBranchExecuting, and how each conditional opcode keeps it. -/

theorem Stopped.not_allTrue {cs : List CondValue} (stopped : Stopped cs) :
    ¬ ∀ c ∈ cs, c = .opCondTrue := by
  cases stopped with
  | onFalse => exact fun all => nomatch all .opCondFalse List.mem_cons_self
  | skip => exact fun all => nomatch all .opCondSkip List.mem_cons_self

theorem isBranchExecuting_iff {vm : CondEngine} (shape : CondShape vm.condStack) :
    vm.isBranchExecuting = true ↔ ∀ c ∈ vm.condStack, c = .opCondTrue := by
  obtain ⟨dstack, condStack⟩ := vm
  simp only [CondEngine.isBranchExecuting] at shape ⊢
  rcases shape with allTrue | stopped
  · refine ⟨fun _ => allTrue, fun _ => ?_⟩
    cases condStack with
    | nil => rfl
    | cons top rest => simp [allTrue top List.mem_cons_self]
  · refine iff_of_false ?_ stopped.not_allTrue
    cases stopped <;> simp

theorem CondShape.stopped {vm : CondEngine} (shape : CondShape vm.condStack)
    (notExecuting : vm.isBranchExecuting = false) : Stopped vm.condStack := by
  rcases shape with allTrue | stopped
  · have executing := (isBranchExecuting_iff (.inl allTrue)).2 allTrue
    simp [executing] at notExecuting
  · exact stopped

theorem pushCondition_condShape {executeOn : Bool} {vm vm' : CondEngine}
    (shape : CondShape vm.condStack) (pushed : pushCondition executeOn vm = .ok vm') :
    CondShape vm'.condStack := by
  unfold pushCondition at pushed
  split at pushed
  next executing =>
    have allTrue := (isBranchExecuting_iff shape).1 executing
    cases popped : popIfBool vm.dstack with
    | error e => simp [popped, bind, Except.bind] at pushed
    | ok result =>
      simp only [popped, bind, Except.bind, pure, Except.pure, Except.ok.injEq] at pushed
      subst pushed
      split
      · exact .inl (by simpa using allTrue)
      · exact .inr (.onFalse allTrue)
  next notExecuting =>
    cases pushed
    exact .inr (.skip (shape.stopped (by simpa using notExecuting)))

theorem opcodeElse_condShape {op : ParsedOpcode} {vm vm' : CondEngine}
    (shape : CondShape vm.condStack) (flipped : opcodeElse op vm = .ok vm') :
    CondShape vm'.condStack := by
  obtain ⟨dstack, condStack⟩ := vm
  simp only [opcodeElse] at flipped shape
  split at flipped
  next => cases flipped
  next rest =>
    cases flipped
    rcases shape with allTrue | stopped
    · exact .inr (.onFalse fun c mem => allTrue c (List.mem_cons_of_mem _ mem))
    · cases stopped
  next rest =>
    cases flipped
    rcases shape with allTrue | stopped
    · nomatch allTrue .opCondFalse List.mem_cons_self
    · cases stopped with
      | onFalse allTrue => exact .inl (by simpa using allTrue)
  next rest =>
    cases flipped
    exact shape

theorem opcodeEndif_condShape {op : ParsedOpcode} {vm vm' : CondEngine}
    (shape : CondShape vm.condStack) (popped : opcodeEndif op vm = .ok vm') :
    CondShape vm'.condStack := by
  obtain ⟨dstack, condStack⟩ := vm
  simp only [opcodeEndif] at popped shape
  split at popped
  next => cases popped
  next top rest =>
    cases popped
    rcases shape with allTrue | stopped
    · exact .inl fun c mem => allTrue c (List.mem_cons_of_mem _ mem)
    · cases stopped with
      | onFalse allTrue => exact .inl allTrue
      | skip stopped => exact .inr stopped

theorem executeConditional_condShape {pop : ParsedOpcode} {vm vm' : CondEngine}
    (shape : CondShape vm.condStack) (executed : executeConditional pop vm = .ok vm') :
    CondShape vm'.condStack := by
  unfold executeConditional opcodeIf opcodeNotIf at executed
  split_ifs at executed
  · exact pushCondition_condShape shape executed
  · exact pushCondition_condShape shape executed
  · exact opcodeElse_condShape shape executed
  · exact opcodeEndif_condShape shape executed

theorem Step.condShape {vm vm' : CondEngine} (step : Step vm vm') (shape : CondShape vm.condStack) :
    CondShape vm'.condStack := by
  cases step with
  | conditional _ executed => exact executeConditional_condShape shape executed
  | other dstack => exact shape

theorem condShape_of_run {vm₀ vm : CondEngine} (start : vm₀.condStack = [])
    (run : Relation.ReflTransGen Step vm₀ vm) : CondShape vm.condStack := by
  induction run with
  | refl => exact .inl (by simp [start])
  | tail _ step shape => exact step.condShape shape

theorem isBranchExecuting_exact {vm₀ vm : CondEngine} (start : vm₀.condStack = [])
    (run : Relation.ReflTransGen Step vm₀ vm) :
    CondShape vm.condStack ∧ (vm.isBranchExecuting = true ↔ ∀ c ∈ vm.condStack, c = .opCondTrue) ∧
      ∀ pop vm', pop.isConditional → executeConditional pop vm = .ok vm' →
        CondShape vm'.condStack := by
  have shape := condShape_of_run start run
  exact ⟨shape, isBranchExecuting_iff shape,
    fun _ _ _ executed => executeConditional_condShape shape executed⟩

theorem isBranchExecuting_exact_after_if :
    Relation.ReflTransGen Step ⟨[[1]], []⟩ ⟨[], [.opCondTrue]⟩ ∧
      (CondShape [.opCondTrue] ∧
        ((⟨[], [.opCondTrue]⟩ : CondEngine).isBranchExecuting = true ↔
          ∀ c ∈ [CondValue.opCondTrue], c = .opCondTrue) ∧
        ∀ pop vm', pop.isConditional → executeConditional pop ⟨[], [.opCondTrue]⟩ = .ok vm' →
          CondShape vm'.condStack) := by
  have run : Relation.ReflTransGen Step ⟨[[1]], []⟩ ⟨[], [.opCondTrue]⟩ :=
    .single (@Step.conditional _ _ ⟨opcodeArray opIf, []⟩ (by decide) (by decide))
  exact ⟨run, isBranchExecuting_exact rfl run⟩

end Txscript
