import Htnd.GhostdagManager.Ghostdag

/-!
The block version of a node (utils/constants/constants.go) is a process global that
`SetBlockVersion` only raises. The relay flow (handle_relay_invs.go) and the start of IBD
(ibd.go) raise it to the version that a received block's DAA score implies, before the block is
validated; the block validator checks each header against the version of the header's own DAA
score (block_header_in_isolation.go); GHOSTDAG reads its K at the global's index of the K table.
A node here is that global and the stores GHOSTDAG reads; of the validation of a block, only the
version check is modelled.
-/
namespace Protocol
open GoSemantics Utxo Ghostdag

def setBlockVersion (blockVersion v : UInt16) : UInt16 :=
  if v > blockVersion then v else blockVersion

def blockVersionOfDAAScore (powScores : List UInt64) (daaScore : UInt64) : UInt16 :=
  powScores.foldl (fun blockVersion powScore =>
    if daaScore ≥ powScore then blockVersion + 1 else blockVersion) 1

def expectedBlockVersion (powScores : List UInt64) (daaScore : UInt64) : UInt16 :=
  if daaScore = 0 then 1 else blockVersionOfDAAScore powScores daaScore

structure Params where
  k : List UInt8
  powScores : List UInt64

structure Node where
  blockVersion : UInt16
  ghostdagManager : GhostdagManager

inductive NodeEvent where
  | receiveBlock (daaScore : UInt64)
  | validateAndInsertBlock (blockHash : DomainHash)

variable (params : Params) (fuel : Nat)

def receiveBlock (node : Node) (daaScore : UInt64) : Node :=
  { node with
    blockVersion := setBlockVersion node.blockVersion (blockVersionOfDAAScore params.powScores daaScore) }

/-- The validation and insertion of a block whose header is stored: a header of the wrong
    version is rejected, and so is a block on which GHOSTDAG fails; the node is then unchanged.
    The K that GHOSTDAG uses is `k[GetBlockVersion()-1]`, a slice read that panics out of
    range. -/
def validateAndInsertBlock (node : Node) (blockHash : DomainHash) : Outcome (Option Node) :=
  match node.ghostdagManager.headerStore blockHash with
  | none => .returned (some node)
  | some header =>
    if header.version ≠ expectedBlockVersion params.powScores header.daaScore then
      .returned (some node)
    else
      match sliceIndex params.k (node.blockVersion - 1).toNat with
      | .error p => .panicked p
      | .ok k =>
        match ({ node.ghostdagManager with k }).ghostdag fuel blockHash with
        | none => .returned none
        | some (.error _) => .returned (some node)
        | some (.ok data) =>
          .returned (some { node with ghostdagManager := node.ghostdagManager.stage blockHash data })

def step (node : Node) : NodeEvent → Outcome (Option Node)
  | .receiveBlock daaScore => .returned (some (receiveBlock params node daaScore))
  | .validateAndInsertBlock blockHash => validateAndInsertBlock params fuel node blockHash

def run : List NodeEvent → Node → Outcome (Option Node)
  | [], node => .returned (some node)
  | event :: events, node =>
    match step params fuel node event with
    | .returned (some node) => run events node
    | outcome => outcome

def NodeEvent.receivedVersion : NodeEvent → Option UInt16
  | .receiveBlock daaScore => some (blockVersionOfDAAScore params.powScores daaScore)
  | .validateAndInsertBlock _ => none

theorem le_setBlockVersion (blockVersion v : UInt16) :
    blockVersion ≤ setBlockVersion blockVersion v ∧ v ≤ setBlockVersion blockVersion v := by
  unfold setBlockVersion
  split
  · rename_i higher
    exact ⟨UInt16.le_of_lt higher, UInt16.le_refl v⟩
  · rename_i notHigher
    exact ⟨UInt16.le_refl blockVersion, UInt16.not_lt.mp notHigher⟩

theorem le_foldl_setBlockVersion (versions : List UInt16) (blockVersion : UInt16) :
    blockVersion ≤ versions.foldl setBlockVersion blockVersion ∧
      ∀ v ∈ versions, v ≤ versions.foldl setBlockVersion blockVersion := by
  induction versions generalizing blockVersion with
  | nil => simp
  | cons v versions ih =>
    obtain ⟨above, aboveAll⟩ := ih (setBlockVersion blockVersion v)
    obtain ⟨raised, reached⟩ := le_setBlockVersion blockVersion v
    refine ⟨UInt16.le_trans raised above, ?_⟩
    intro w mem
    rcases List.mem_cons.mp mem with rfl | mem
    · exact UInt16.le_trans reached above
    · exact aboveAll w mem

theorem validateAndInsertBlock_blockVersion {node node' : Node} {blockHash : DomainHash}
    (inserted : validateAndInsertBlock params fuel node blockHash = .returned (some node')) :
    node'.blockVersion = node.blockVersion := by
  unfold validateAndInsertBlock at inserted
  split at inserted
  · cases inserted
    rfl
  · split at inserted
    · cases inserted
      rfl
    · split at inserted
      · cases inserted
      · split at inserted <;> cases inserted <;> rfl

theorem step_blockVersion {node node' : Node} {event : NodeEvent}
    (stepped : step params fuel node event = .returned (some node')) :
    node'.blockVersion =
      ((event.receivedVersion params).toList).foldl setBlockVersion node.blockVersion := by
  cases event with
  | receiveBlock daaScore =>
    cases stepped
    rfl
  | validateAndInsertBlock blockHash =>
    exact validateAndInsertBlock_blockVersion params fuel stepped

theorem run_blockVersion {events : List NodeEvent} {node node' : Node}
    (ran : run params fuel events node = .returned (some node')) :
    node'.blockVersion =
      (events.filterMap (NodeEvent.receivedVersion params)).foldl setBlockVersion node.blockVersion := by
  induction events generalizing node with
  | nil =>
    cases ran
    rfl
  | cons event events ih =>
    unfold run at ran
    split at ran
    · rename_i next stepped
      rw [ih ran, step_blockVersion params fuel stepped]
      cases event <;> rfl
    · rename_i notNext
      cases stepped : step params fuel node event with
      | returned result =>
        cases result with
        | none => rw [stepped] at ran; cases ran
        | some next => exact absurd stepped (notNext next)
      | panicked p => rw [stepped] at ran; cases ran

/-- Two runs of a mainnet node that validate and insert the same blocks: a genesis, twenty
    blocks on it, two blocks that merge ten of them each, and `B` on those two, every header at
    DAA score 1 and of version 1. Before the second run inserts them, the node has received a
    block at DAA score 43334184, which raised the global to version 5. GHOSTDAG colors the merge
    set of `B` with K 18 in the first run and with K 40 in the second, and the merge-set blues
    of `B` differ. -/
theorem ghostdag_depends_on_received_daa_score :
    let hash (n : Nat) : DomainHash := ⟨⟨n % 2 ^ 256, Nat.mod_lt _ (Nat.two_pow_pos 256)⟩⟩
    let parents (block : DomainHash) : List DomainHash :=
      if block.value.val = 23 then [hash 21, hash 22]
      else if block.value.val = 21 then (List.range 10).map fun i => hash (i + 1)
      else if block.value.val = 22 then (List.range 10).map fun i => hash (i + 11)
      else if 1 ≤ block.value.val ∧ block.value.val ≤ 20 then [hash 0]
      else []
    let isAncestorOf (a b : DomainHash) : Bool :=
      a = b || a.value.val = 0 ||
        (1 ≤ a.value.val && a.value.val ≤ 10 && (b.value.val = 21 || b.value.val = 23)) ||
        (11 ≤ a.value.val && a.value.val ≤ 20 && (b.value.val = 22 || b.value.val = 23)) ||
        ((a.value.val = 21 || a.value.val = 22) && b.value.val = 23)
    let gm : GhostdagManager :=
      ⟨parents, isAncestorOf, fun _ _ => none, fun _ => some ⟨1, 1, 0x207fffff⟩, 0, hash 0⟩
    let mainnet : Params := ⟨[18, 18, 18, 18, 40], [17500000, 21821800, 29335426, 43334184]⟩
    let inserts := (List.range 24).map fun n => NodeEvent.validateAndInsertBlock (hash n)
    let bluesOfB : Outcome (Option Node) → Option (List DomainHash) := fun
      | .returned (some node) =>
        (node.ghostdagManager.ghostdagDataStore (hash 23) false).map (·.mergeSetBlues)
      | _ => none
    bluesOfB (run mainnet 30 inserts ⟨1, gm⟩) = some ([22, 1, 2, 3, 4, 5, 6, 7, 8, 21].map hash) ∧
      bluesOfB (run mainnet 30 (.receiveBlock 43334184 :: inserts) ⟨1, gm⟩) =
        some ([22, 1, 2, 3, 4, 5, 6, 7, 8, 9, 10, 21].map hash) :=
  ⟨by decide, by decide⟩

end Protocol
