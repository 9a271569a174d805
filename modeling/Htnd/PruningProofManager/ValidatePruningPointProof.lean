import Htnd.Lib.GoSemantics
import Htnd.Utxo.Collection

/-!
The start of pruning-proof validation (pruningproofmanager.go): the checks that
`ValidatePruningPointProof` makes on the shape of a proof before it rebuilds the DAG of each
level. The rebuilding is the parameter `validateLevels`. Of a header, the start reads its
parents, through the parents manager (parentsmanager.go).
-/
namespace PruningProofManager
open GoSemantics Utxo

abbrev BlockLevelParents := List DomainHash

structure BlockHeader where
  parents : List BlockLevelParents

def BlockHeader.directParents (bh : BlockHeader) : BlockLevelParents :=
  match bh.parents with
  | [] => []
  | parents :: _ => parents

structure ParentsManager where
  genesisHash : DomainHash
  maxBlockLevel : Nat

namespace ParentsManager

def parentsAtLevel (pm : ParentsManager) (blockHeader : BlockHeader) (level : Nat) :
    BlockLevelParents :=
  let parentsAtLevel := blockHeader.parents.getD level []
  if parentsAtLevel.length = 0 ∧ blockHeader.directParents.length > 0 then [pm.genesisHash]
  else parentsAtLevel

def parents (pm : ParentsManager) (blockHeader : BlockHeader) : List BlockLevelParents :=
  (List.range (pm.maxBlockLevel + 1)).map (pm.parentsAtLevel blockHeader)

@[simp] theorem length_parents (pm : ParentsManager) (blockHeader : BlockHeader) :
    (pm.parents blockHeader).length = pm.maxBlockLevel + 1 := by
  simp [parents]

end ParentsManager

structure PruningPointProof where
  headers : List (List BlockHeader)

inductive RuleError where
  | errPruningProofEmpty (message : String)
  deriving DecidableEq, Repr

def validatePruningPointProof (pm : ParentsManager)
    (validateLevels : List (List BlockHeader) → BlockHeader → Nat → Outcome (Except RuleError Unit))
    (pruningPointProof : PruningPointProof) : Outcome (Except RuleError Unit) :=
  if pruningPointProof.headers.length = 0 then
    .returned (.error (.errPruningProofEmpty "pruning proof is empty"))
  else
    match sliceIndex pruningPointProof.headers 0 with
    | .error p => .panicked p
    | .ok level0Headers =>
      match sliceIndex level0Headers (level0Headers.length - 1) with
      | .error p => .panicked p
      | .ok pruningPointHeader =>
        let maxLevel : Int := (pm.parents pruningPointHeader).length - 1
        if maxLevel ≥ pruningPointProof.headers.length then
          .returned (.error (.errPruningProofEmpty ("proof has only " ++
            toString pruningPointProof.headers.length ++ " levels while pruning point " ++
            "has parents from " ++ toString (maxLevel + 1) ++ " levels")))
        else validateLevels pruningPointProof.headers pruningPointHeader maxLevel.toNat

section
variable (pm : ParentsManager)
  (validateLevels : List (List BlockHeader) → BlockHeader → Nat → Outcome (Except RuleError Unit))

/-- A proof of one level that holds no header, whatever the parents manager and the rest of
    the validation. -/
theorem validatePruningPointProof_panics_on_empty_level :
    validatePruningPointProof pm validateLevels ⟨[[]]⟩ = .panicked (.indexOutOfRange (-1) 0) :=
  rfl

end

end PruningProofManager
