import Mathlib.Data.List.AList
import Mathlib.Data.List.Sort
import Htnd.Utxo.Transaction
import Htnd.Lib.GoSemantics

/-!
The unsigned transactions the wallet daemon builds (cmd/htnwallet: daemon/server's
create_unsigned_transaction.go and split_transaction.go, libhtnwallet's transaction.go). A call
selects UTXOs of the wallet, pays the payee and the change, and when the transaction is too heavy
for the mempool splits its inputs over transactions that pay the change address, merged by one
more transaction that pays the payee, itself split again if it is too heavy. Amounts are Go's
`uint64` and wrap. A method that returns an error keeps the changes it made to the server before
it, so calls are `EStateM` programs on the server's fields.

The node's RPC answers, address decoding and derivation, the transaction hash and the mass of a
signed transaction are answered from outside; an address is the script `PayToAddrScript` makes
of it, and a derivation path the wallet address it is written from. Serialization is left out:
the wallet deserializes what it has just serialized.
-/
namespace Wallet
open Utxo GoSemantics

def feePerInput : UInt64 := 10000

def minChangeTarget : UInt64 := 100000000 / 5

def targetCompoundInputs : Nat := 88

def maximumStandardTransactionMass : UInt64 := 100000

def internalKeychain : UInt8 := 1

/-- `constants.UnacceptedDAAScore`, `math.MaxUint64`. -/
def unacceptedDAAScore : UInt64 := 18446744073709551615

structure WalletAddress where
  index : UInt32
  cosignerIndex : UInt32
  keyChain : UInt8
  deriving DecidableEq, Repr

structure WalletUTXO where
  outpoint : DomainOutpoint
  utxoEntry : UTXOEntry
  address : WalletAddress
  deriving DecidableEq, Repr

structure UTXO where
  outpoint : DomainOutpoint
  utxoEntry : UTXOEntry
  derivationPath : WalletAddress
  deriving DecidableEq, Repr

structure Payment where
  address : ScriptPublicKey
  amount : UInt64
  deriving DecidableEq, Repr

structure UnsignedTransaction where
  inputs : List DomainOutpoint
  outputs : List DomainTransactionOutput
  deriving DecidableEq, Repr

structure PartiallySignedInput where
  prevOutput : DomainTransactionOutput
  derivationPath : WalletAddress
  deriving DecidableEq, Repr

structure PartiallySignedTransaction where
  tx : UnsignedTransaction
  partiallySignedInputs : List PartiallySignedInput
  deriving DecidableEq, Repr

structure Environment where
  virtualDAAScore : Option UInt64
  decodeAddress : String → Option ScriptPublicKey
  address : WalletAddress → ScriptPublicKey
  transactionID : UnsignedTransaction → DomainTransactionID
  massAfterSignatures : PartiallySignedTransaction → UInt64
  usedOutpointHasExpired : Nat → Bool

/-- The fields of the Go `server` the calls read and write; the keys file is its last used
    internal index and its cosigner index. -/
structure Server where
  utxosSortedByAmount : List WalletUTXO
  usedOutpoints : AList fun _ : DomainOutpoint => Nat
  coinbaseMaturity : UInt64
  addressSet : AList fun _ : String => WalletAddress
  lastUsedInternalIndex : UInt32
  cosignerIndex : UInt32
  synced : Bool

inductive WalletError where
  | notSynced
  | invalidAddress (address : String)
  | fromAddressNotFound (address : String)
  | rpcFailed
  | insufficientFunds (required available : UInt64)
  | noFundsToSpend
  | noSpendableUTXOsForCompounding
  | notEnoughFunds (total fee : UInt64)
  | unexpectedOutputCount (count : Nat)
  | insufficientFundsForMerge
  | divideByZero
  | lenOutOfRange
  | panic (p : Panic)
  | outOfFuel
  deriving DecidableEq, Repr

abbrev WalletM := EStateM WalletError Server

structure MassCalculator where
  massPerTxByte : UInt64
  massPerScriptPubKeyByte : UInt64
  massPerSigOp : UInt64

def transactionEstimatedSerializedSize (tx : UnsignedTransaction) : UInt64 :=
  let size : UInt64 := 2 + 8
  let size := tx.inputs.foldl (fun size _ => size + ((32 + 4) + 8 + 0 + 8)) size
  let size := size + 8
  let size := tx.outputs.foldl (fun size output =>
    size + (8 + 2 + 8 + output.scriptPublicKey.script.length.toUInt64)) size
  size + 8 + 20 + 8 + 32 + 8 + 0

def MassCalculator.calculateTransactionMass (c : MassCalculator) (tx : UnsignedTransaction) :
    UInt64 :=
  let massForSize := transactionEstimatedSerializedSize tx * c.massPerTxByte
  let totalScriptPubKeySize := tx.outputs.foldl (fun total output =>
    total + 2 + output.scriptPublicKey.script.length.toUInt64) 0
  massForSize + totalScriptPubKeySize * c.massPerScriptPubKeyByte + 0 * c.massPerSigOp

def createUnsignedTransaction (payments : List Payment) (selectedUTXOs : List UTXO) :
    PartiallySignedTransaction :=
  ⟨⟨selectedUTXOs.map (·.outpoint), payments.map fun payment => ⟨payment.amount, payment.address⟩⟩,
    selectedUTXOs.map fun utxo =>
      ⟨⟨utxo.utxoEntry.amount, utxo.utxoEntry.scriptPublicKey⟩, utxo.derivationPath⟩⟩

/-! ### Selecting UTXOs -/

def Server.isUTXOSpendable (s : Server) (entry : WalletUTXO) (virtualDAAScore : UInt64) : Bool :=
  !entry.utxoEntry.isCoinbase ||
    decide (entry.utxoEntry.blockDAAScore + s.coinbaseMaturity < virtualDAAScore)

section Selection
variable (env : Environment) (s : Server)

def walletAddressesContain (addresses : List WalletAddress) (contain : WalletAddress) : Bool :=
  addresses.contains contain

/-- The checks every selection loop makes before it takes a UTXO: the from-address filter
    (`fromAddresses` is nil when no address is given), spendability, and the used outpoints, of
    which one that has expired is deleted. `none` skips the UTXO. -/
def checkUsable (virtualDAAScore : UInt64) (fromAddresses : List WalletAddress)
    (usedOutpoints : AList fun _ : DomainOutpoint => Nat) (utxo : WalletUTXO) :
    Option (AList fun _ : DomainOutpoint => Nat) :=
  if (fromAddresses ≠ [] ∧ !walletAddressesContain fromAddresses utxo.address) ∨
      !s.isUTXOSpendable utxo virtualDAAScore then none
  else
    match usedOutpoints.lookup utxo.outpoint with
    | none => some usedOutpoints
    | some broadcastTime =>
      if env.usedOutpointHasExpired broadcastTime then some (usedOutpoints.erase utxo.outpoint)
      else none

def UTXO.ofWalletUTXO (utxo : WalletUTXO) : UTXO :=
  ⟨utxo.outpoint, utxo.utxoEntry, utxo.address⟩

structure Selection where
  selectedUTXOs : List UTXO
  totalValue : UInt64
  usedOutpoints : AList fun _ : DomainOutpoint => Nat

def Selection.take (sel : Selection) (usedOutpoints : AList fun _ : DomainOutpoint => Nat)
    (utxo : WalletUTXO) : Selection :=
  ⟨sel.selectedUTXOs ++ [UTXO.ofWalletUTXO utxo], sel.totalValue + utxo.utxoEntry.amount,
    usedOutpoints⟩

def selectUTXOsLoop (virtualDAAScore spendAmount : UInt64) (isSendAll : Bool)
    (feePerInput : UInt64) (fromAddresses : List WalletAddress) :
    List WalletUTXO → Selection → Selection
  | [], sel => sel
  | utxo :: utxos, sel =>
    match checkUsable env s virtualDAAScore fromAddresses sel.usedOutpoints utxo with
    | none => selectUTXOsLoop virtualDAAScore spendAmount isSendAll feePerInput fromAddresses utxos sel
    | some usedOutpoints =>
      let sel := sel.take usedOutpoints utxo
      let fee := feePerInput * sel.selectedUTXOs.length.toUInt64
      let totalSpend := spendAmount + fee
      if !isSendAll && (sel.totalValue == totalSpend ||
          (totalSpend + minChangeTarget ≤ sel.totalValue && 1 < sel.selectedUTXOs.length)) then sel
      else selectUTXOsLoop virtualDAAScore spendAmount isSendAll feePerInput fromAddresses utxos sel

def selectUpTo (virtualDAAScore : UInt64) (fromAddresses : List WalletAddress) (limit : Nat) :
    List WalletUTXO → Selection → Selection
  | [], sel => sel
  | utxo :: utxos, sel =>
    if limit ≤ sel.selectedUTXOs.length then sel
    else
      match checkUsable env s virtualDAAScore fromAddresses sel.usedOutpoints utxo with
      | none => selectUpTo virtualDAAScore fromAddresses limit utxos sel
      | some usedOutpoints => selectUpTo virtualDAAScore fromAddresses limit utxos
        (sel.take usedOutpoints utxo)

end Selection

/-- `slices.SortStableFunc` by amount, descending. -/
def sortUTXOsByAmountDescending : WalletM Unit :=
  modify fun s => { s with
    utxosSortedByAmount := s.utxosSortedByAmount.mergeSort fun a b =>
      decide (b.utxoEntry.amount ≤ a.utxoEntry.amount) }

def sortUTXOsByAmountAscending : WalletM Unit :=
  modify fun s => { s with
    utxosSortedByAmount := s.utxosSortedByAmount.mergeSort fun a b =>
      decide (a.utxoEntry.amount ≤ b.utxoEntry.amount) }

def getVirtualDAAScore (env : Environment) : WalletM UInt64 :=
  match env.virtualDAAScore with
  | none => throw .rpcFailed
  | some virtualDAAScore => pure virtualDAAScore

def selectUTXOs (env : Environment) (spendAmount : UInt64) (isSendAll : Bool)
    (feePerInput : UInt64) (fromAddresses : List WalletAddress) :
    WalletM (List UTXO × UInt64 × UInt64) := do
  let virtualDAAScore ← getVirtualDAAScore env
  sortUTXOsByAmountDescending
  let s ← get
  let sel := selectUTXOsLoop env s virtualDAAScore spendAmount isSendAll feePerInput fromAddresses
    s.utxosSortedByAmount ⟨[], 0, s.usedOutpoints⟩
  set { s with usedOutpoints := sel.usedOutpoints }
  let fee := feePerInput * sel.selectedUTXOs.length.toUInt64
  let (totalSpend, totalReceived) :=
    if isSendAll then (sel.totalValue, sel.totalValue - fee) else (spendAmount + fee, spendAmount)
  if sel.totalValue < totalSpend then throw (.insufficientFunds totalSpend sel.totalValue)
  pure (sel.selectedUTXOs, totalReceived, sel.totalValue - totalSpend)

def selectCompoundUTXOs (env : Environment) (feePerInput : UInt64)
    (fromAddresses : List WalletAddress) : WalletM (List UTXO × UInt64 × UInt64) := do
  let virtualDAAScore ← getVirtualDAAScore env
  sortUTXOsByAmountDescending
  let s ← get
  let sel := selectUpTo env s virtualDAAScore fromAddresses 1 s.utxosSortedByAmount
    ⟨[], 0, s.usedOutpoints⟩
  set { s with usedOutpoints := sel.usedOutpoints }
  sortUTXOsByAmountAscending
  let s ← get
  let sel := selectUpTo env s virtualDAAScore fromAddresses targetCompoundInputs
    s.utxosSortedByAmount { sel with usedOutpoints := s.usedOutpoints }
  set { s with usedOutpoints := sel.usedOutpoints }
  if sel.selectedUTXOs = [] then throw .noSpendableUTXOsForCompounding
  let fee := sel.selectedUTXOs.length.toUInt64 * feePerInput
  if sel.totalValue ≤ fee then throw (.notEnoughFunds sel.totalValue fee)
  pure (sel.selectedUTXOs, sel.totalValue, sel.totalValue - fee)

def changeAddress (env : Environment) (useExisting : Bool) (fromAddresses : List WalletAddress) :
    WalletM (ScriptPublicKey × WalletAddress) := do
  let walletAddr ← match fromAddresses with
    | first :: _ => if useExisting then pure first else newAddress
    | [] => newAddress
  pure (env.address walletAddr, walletAddr)
where
  newAddress : WalletM WalletAddress := do
    if !useExisting then
      modify fun s => { s with lastUsedInternalIndex := s.lastUsedInternalIndex + 1 }
    let s ← get
    pure ⟨if useExisting then 0 else s.lastUsedInternalIndex, s.cosignerIndex, internalKeychain⟩

/-! ### Splitting a heavy transaction -/

section Split
variable (env : Environment) (calculator : MassCalculator) (s : Server)

/-- `createSplitTransaction`: the inputs from `startIndex` to `endIndex` pay the change
    address, less `feePerInput` each. The indices are Go's `int`; a capacity below zero makes
    `make` panic, and a negative index the slice expression. -/
def createSplitTransaction (transaction : PartiallySignedTransaction)
    (changeAddress : ScriptPublicKey) (startIndex endIndex : Int) :
    Except WalletError PartiallySignedTransaction := do
  if endIndex - startIndex < 0 then throw .lenOutOfRange
  let indices := (List.range (min endIndex transaction.partiallySignedInputs.length - startIndex).toNat).map
    (startIndex + ·)
  let selectedUTXOs ← indices.mapM fun i => do
    let partiallySignedInput ← (sliceIndex transaction.partiallySignedInputs i).mapError .panic
    let outpoint ← (sliceIndex transaction.tx.inputs i).mapError .panic
    pure (⟨outpoint, ⟨partiallySignedInput.prevOutput.value,
      partiallySignedInput.prevOutput.scriptPublicKey, unacceptedDAAScore, false⟩,
      partiallySignedInput.derivationPath⟩ : UTXO)
  let totalSompi := selectedUTXOs.foldl (fun total utxo =>
    total + utxo.utxoEntry.amount - feePerInput) 0
  pure (createUnsignedTransaction [⟨changeAddress, totalSompi⟩] selectedUTXOs)

/-- Go's `int(u)` of a `uint64`. -/
def toGoInt (u : UInt64) : Int :=
  if u.toNat < 2 ^ 63 then u.toNat else u.toNat - 2 ^ 64

/-- `splitAndInputPerSplitCounts`; Go's integer division by zero panics. -/
def splitAndInputPerSplitCounts (transaction : PartiallySignedTransaction)
    (transactionMass : UInt64) (changeAddress : ScriptPublicKey) :
    Except WalletError (Int × Int) := do
  let massWithoutInputs := calculator.calculateTransactionMass { transaction.tx with inputs := [] }
  let massOfAllInputs := transactionMass - massWithoutInputs
  let inputCount := transaction.tx.inputs.length.toUInt64
  if inputCount = 0 then throw .divideByZero
  let massPerInput := massOfAllInputs / inputCount +
    if massOfAllInputs % inputCount > 0 then 1 else 0
  let splitTransactionWithoutInputs ← createSplitTransaction transaction changeAddress 0 0
  let massForInputsInSplitTransaction := maximumStandardTransactionMass -
    calculator.calculateTransactionMass splitTransactionWithoutInputs.tx
  if massPerInput = 0 then throw .divideByZero
  let inputsPerSplitCount := toGoInt (massForInputsInSplitTransaction / massPerInput)
  if inputsPerSplitCount = 0 then throw .divideByZero
  let inputCount : Int := transaction.tx.inputs.length
  let splitCount := inputCount.tdiv inputsPerSplitCount +
    if inputCount.tmod inputsPerSplitCount > 0 then 1 else 0
  pure (splitCount, inputsPerSplitCount)

def moreUTXOsForMergeTransaction (alreadySelectedUTXOs : List UTXO) (requiredAmount : UInt64) :
    Except WalletError (List UTXO × UInt64) := do
  let virtualDAAScore ← match env.virtualDAAScore with
    | none => throw .rpcFailed
    | some virtualDAAScore => pure virtualDAAScore
  let alreadySelected := alreadySelectedUTXOs.map (·.outpoint)
  let rec scan : List WalletUTXO → List UTXO → UInt64 → List UTXO × UInt64
    | [], additionalUTXOs, totalValueAdded => (additionalUTXOs, totalValueAdded)
    | utxo :: utxos, additionalUTXOs, totalValueAdded =>
      if utxo.outpoint ∈ alreadySelected ∨ !s.isUTXOSpendable utxo virtualDAAScore then
        scan utxos additionalUTXOs totalValueAdded
      else
        let additionalUTXOs := additionalUTXOs ++ [UTXO.ofWalletUTXO utxo]
        let totalValueAdded := totalValueAdded + (utxo.utxoEntry.amount - feePerInput)
        if requiredAmount ≤ totalValueAdded then (additionalUTXOs, totalValueAdded)
        else scan utxos additionalUTXOs totalValueAdded
  let (additionalUTXOs, totalValueAdded) := scan s.utxosSortedByAmount [] 0
  if totalValueAdded < requiredAmount then throw .insufficientFundsForMerge
  pure (additionalUTXOs, totalValueAdded)

def mergeTransaction (splitTransactions : List PartiallySignedTransaction)
    (originalTransaction : PartiallySignedTransaction) (toAddress changeAddress : ScriptPublicKey)
    (changeWalletAddress : WalletAddress) : Except WalletError PartiallySignedTransaction := do
  let numOutputs := originalTransaction.tx.outputs.length
  if numOutputs > 2 ∨ numOutputs = 0 then throw (.unexpectedOutputCount numOutputs)
  let sentValue ← ((sliceIndex originalTransaction.tx.outputs 0).mapError .panic).map (·.value)
  let utxos ← splitTransactions.mapM fun splitTransaction => do
    let output ← (sliceIndex splitTransaction.tx.outputs 0).mapError .panic
    pure (⟨⟨env.transactionID splitTransaction.tx, 0⟩,
      ⟨output.value, output.scriptPublicKey, unacceptedDAAScore, false⟩, changeWalletAddress⟩ : UTXO)
  let totalValue := utxos.foldl (fun total utxo => total + utxo.utxoEntry.amount - feePerInput) 0
  let (utxos, totalValue) ←
    if totalValue < sentValue then do
      let (additionalUTXOs, totalValueAdded) ←
        moreUTXOsForMergeTransaction env s utxos (sentValue - totalValue)
      pure (utxos ++ additionalUTXOs, totalValue + totalValueAdded)
    else pure (utxos, totalValue)
  let payments := [⟨toAddress, sentValue⟩] ++
    if totalValue > sentValue then [⟨changeAddress, totalValue - sentValue⟩] else []
  pure (createUnsignedTransaction payments utxos)

/-- `maybeSplitAndMergeTransaction`. Go's recursion has no bound; this one has `fuel`. -/
def maybeSplitAndMergeTransaction (toAddress changeAddress : ScriptPublicKey)
    (changeWalletAddress : WalletAddress) :
    Nat → PartiallySignedTransaction → Except WalletError (List PartiallySignedTransaction)
  | 0, _ => throw .outOfFuel
  | fuel + 1, transaction => do
    let transactionMass := env.massAfterSignatures transaction
    if transactionMass < maximumStandardTransactionMass then return [transaction]
    let (splitCount, inputCountPerSplit) ←
      splitAndInputPerSplitCounts calculator transaction transactionMass changeAddress
    if splitCount < 0 then throw .lenOutOfRange
    let splitTransactions ← (List.range splitCount.toNat).mapM fun i =>
      let startIndex := i * inputCountPerSplit
      createSplitTransaction transaction changeAddress startIndex (startIndex + inputCountPerSplit)
    if splitTransactions.length > 1 then
      let merged ← mergeTransaction env s splitTransactions transaction toAddress changeAddress
        changeWalletAddress
      let splitMergeTransaction ← maybeSplitAndMergeTransaction toAddress changeAddress
        changeWalletAddress fuel merged
      pure (splitTransactions ++ splitMergeTransaction)
    else pure splitTransactions

end Split

/-! ### The two calls -/

/-- The fuel of the split recursion, which Go's comment puts at two or three levels. -/
def splitDepth : Nat := 8

def liftExcept {α : Type} : Except WalletError α → WalletM α
  | .error err => throw err
  | .ok a => pure a

def lookupFromAddresses (fromAddressesString : List String) : WalletM (List WalletAddress) :=
  fromAddressesString.mapM fun from_ => do
    match (← get).addressSet.lookup from_ with
    | none => throw (.fromAddressNotFound from_)
    | some fromAddress => pure fromAddress

def maybeAutoCompoundTransaction (env : Environment) (calculator : MassCalculator)
    (transaction : PartiallySignedTransaction) (toAddress changeAddress : ScriptPublicKey)
    (changeWalletAddress : WalletAddress) : WalletM (List PartiallySignedTransaction) := do
  let s ← get
  liftExcept (maybeSplitAndMergeTransaction env calculator s toAddress changeAddress
    changeWalletAddress splitDepth transaction)

def createUnsignedTransactions (env : Environment) (calculator : MassCalculator)
    (address : String) (amount : UInt64) (isSendAll : Bool) (fromAddressesString : List String)
    (useExistingChangeAddress : Bool) : WalletM (List PartiallySignedTransaction) := do
  if !(← get).synced then throw .notSynced
  let toAddress ← match env.decodeAddress address with
    | none => throw (.invalidAddress address)
    | some toAddress => pure toAddress
  let fromAddresses ← lookupFromAddresses fromAddressesString
  let (selectedUTXOs, spendValue, changeSompi) ←
    selectUTXOs env amount isSendAll feePerInput fromAddresses
  if selectedUTXOs = [] then throw .noFundsToSpend
  let (changeAddr, changeWalletAddress) ← changeAddress env useExistingChangeAddress fromAddresses
  let payments := [⟨toAddress, spendValue⟩] ++
    if changeSompi > 0 then [⟨changeAddr, changeSompi⟩] else []
  maybeAutoCompoundTransaction env calculator (createUnsignedTransaction payments selectedUTXOs)
    toAddress changeAddr changeWalletAddress

def createUnsignedCompoundTransaction (env : Environment) (calculator : MassCalculator)
    (address : String) (fromAddressesString : List String) (useExistingChangeAddress : Bool) :
    WalletM (List PartiallySignedTransaction) := do
  if !(← get).synced then throw .notSynced
  let toAddress ← match env.decodeAddress address with
    | none => throw (.invalidAddress address)
    | some toAddress => pure toAddress
  let fromAddresses ← lookupFromAddresses fromAddressesString
  let (selectedUTXOs, _, changeSompi) ← selectCompoundUTXOs env feePerInput fromAddresses
  if selectedUTXOs = [] then throw .noFundsToSpend
  let (changeAddr, changeWalletAddress) ← changeAddress env useExistingChangeAddress fromAddresses
  maybeAutoCompoundTransaction env calculator
    (createUnsignedTransaction [⟨toAddress, changeSompi⟩] selectedUTXOs) toAddress changeAddr
    changeWalletAddress

end Wallet
