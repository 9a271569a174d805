import Mathlib
import Htnd.Wallet.Transactions
import Htnd.Lib.StateInvariant

/-!
What the wallet's selection loops take, and the batches the two calls build from it. A loop takes
usable UTXOs of the wallet in the order it scans them, each at most once, so the UTXOs
`selectUTXOs` returns spend no outpoint twice. `selectCompoundUTXOs` runs two loops over the
wallet's UTXOs into one selection, and the second does not skip what the first took: on a wallet
with one UTXO a compound call spends it twice and pays out nearly twice its value. A send-all call
subtracts the fee of its inputs from their total without a check, and on a UTXO worth less than
its fee pays out nearly 2^64 sompi.
-/
namespace Wallet
open Utxo StateInvariant

def Usable (s : Server) (virtualDAAScore : UInt64) (fromAddresses : List WalletAddress)
    (utxo : WalletUTXO) : Prop :=
  (fromAddresses = [] ∨ utxo.address ∈ fromAddresses) ∧ s.isUTXOSpendable utxo virtualDAAScore = true

def Extends (s : Server) (virtualDAAScore : UInt64) (fromAddresses : List WalletAddress)
    (utxos : List WalletUTXO) (sel sel' : Selection) : Prop :=
  ∃ taken : List WalletUTXO, taken.Sublist utxos ∧
    (∀ utxo ∈ taken, Usable s virtualDAAScore fromAddresses utxo) ∧
    sel'.selectedUTXOs = sel.selectedUTXOs ++ taken.map UTXO.ofWalletUTXO ∧
    sel'.totalValue = sel.totalValue + (taken.map (·.utxoEntry.amount)).sum

section Selection
variable {env : Environment} {s : Server} {v : UInt64} {fromAddresses : List WalletAddress}
  {utxos : List WalletUTXO} {sel sel' : Selection}

theorem usable_of_checkUsable {used used' : AList fun _ : DomainOutpoint => Nat} {utxo : WalletUTXO}
    (taken : checkUsable env s v fromAddresses used utxo = some used') :
    Usable s v fromAddresses utxo := by
  unfold checkUsable at taken
  split at taken
  · cases taken
  · rename_i passes
    obtain ⟨filtered, spendable⟩ : (fromAddresses ≠ [] → utxo.address ∈ fromAddresses) ∧
        s.isUTXOSpendable utxo v = true := by
      simpa [walletAddressesContain] using passes
    refine ⟨?_, spendable⟩
    by_cases unfiltered : fromAddresses = []
    · exact .inl unfiltered
    · exact .inr (filtered unfiltered)

theorem Extends.refl (sel : Selection) : Extends s v fromAddresses utxos sel sel :=
  ⟨[], List.nil_sublist _, by simp, by simp, by simp⟩

theorem Extends.skip (utxo : WalletUTXO) (rest : Extends s v fromAddresses utxos sel sel') :
    Extends s v fromAddresses (utxo :: utxos) sel sel' := by
  obtain ⟨taken, sub, usable, selected, total⟩ := rest
  exact ⟨taken, sub.cons utxo, usable, selected, total⟩

theorem Extends.take {utxo : WalletUTXO} {used : AList fun _ : DomainOutpoint => Nat}
    (usable : Usable s v fromAddresses utxo)
    (rest : Extends s v fromAddresses utxos (sel.take used utxo) sel') :
    Extends s v fromAddresses (utxo :: utxos) sel sel' := by
  obtain ⟨taken, sub, usable', selected, total⟩ := rest
  refine ⟨utxo :: taken, sub.cons_cons utxo, ?_, ?_, ?_⟩
  · intro u mem
    rcases List.mem_cons.mp mem with rfl | mem
    exacts [usable, usable' u mem]
  · simp [selected, Selection.take]
  · simp [total, Selection.take, UInt64.add_assoc]

theorem selectUTXOsLoop_extends (env : Environment) (s : Server) (v : UInt64)
    (fromAddresses : List WalletAddress) (spendAmount : UInt64) (isSendAll : Bool) (fee : UInt64)
    (utxos : List WalletUTXO) (sel : Selection) :
    Extends s v fromAddresses utxos sel
      (selectUTXOsLoop env s v spendAmount isSendAll fee fromAddresses utxos sel) := by
  induction utxos generalizing sel with
  | nil => exact .refl sel
  | cons utxo utxos ih =>
    rw [selectUTXOsLoop]
    cases taken : checkUsable env s v fromAddresses sel.usedOutpoints utxo with
    | none => exact (ih sel).skip utxo
    | some used =>
      have usable := usable_of_checkUsable taken
      dsimp only
      split
      · exact .take usable (.refl _)
      · exact .take usable (ih _)

theorem selectUpTo_extends (env : Environment) (s : Server) (v : UInt64)
    (fromAddresses : List WalletAddress) (limit : Nat) (utxos : List WalletUTXO) (sel : Selection) :
    Extends s v fromAddresses utxos sel (selectUpTo env s v fromAddresses limit utxos sel) := by
  induction utxos generalizing sel with
  | nil => exact .refl sel
  | cons utxo utxos ih =>
    rw [selectUpTo]
    split
    · exact .refl sel
    · cases taken : checkUsable env s v fromAddresses sel.usedOutpoints utxo with
      | none => exact (ih sel).skip utxo
      | some used => exact .take (usable_of_checkUsable taken) (ih _)

theorem getVirtualDAAScore_run (daa : env.virtualDAAScore = some v) (s : Server) :
    (getVirtualDAAScore env).run s = .ok v s := by
  simp [getVirtualDAAScore, daa]

theorem selectUTXOs_takes {spendAmount : UInt64} {isSendAll : Bool} {fee : UInt64}
    {s' : Server} {r : List UTXO × UInt64 × UInt64}
    (returned : (selectUTXOs env spendAmount isSendAll fee fromAddresses).run s = .ok r s') :
    ∃ v, env.virtualDAAScore = some v ∧ ∃ taken : List WalletUTXO,
      taken.Subperm s.utxosSortedByAmount ∧ (∀ utxo ∈ taken, Usable s v fromAddresses utxo) ∧
      r.1 = taken.map UTXO.ofWalletUTXO := by
  cases daa : env.virtualDAAScore with
  | none =>
    obtain ⟨_, _, got, -⟩ := run_bind_eq_ok.1 returned
    simp only [getVirtualDAAScore, daa] at got
    cases got
  | some v =>
    refine ⟨v, rfl, ?_⟩
    obtain ⟨_, _, got, returned⟩ := run_bind_eq_ok.1 returned
    rw [getVirtualDAAScore_run daa] at got
    cases got
    obtain ⟨_, _, sorted, returned⟩ := run_bind_eq_ok.1 returned
    cases sorted
    obtain ⟨_, _, got, returned⟩ := run_bind_eq_ok.1 returned
    cases got
    obtain ⟨_, _, set, returned⟩ := run_bind_eq_ok.1 returned
    cases set
    let sorted := s.utxosSortedByAmount.mergeSort fun a b =>
      decide (b.utxoEntry.amount ≤ a.utxoEntry.amount)
    obtain ⟨taken, sub, usable, selected, -⟩ := selectUTXOsLoop_extends env
      { s with utxosSortedByAmount := sorted } v fromAddresses spendAmount isSendAll fee sorted
      ⟨[], 0, s.usedOutpoints⟩
    refine ⟨taken, sub.subperm.trans (List.mergeSort_perm _ _).subperm, usable, ?_⟩
    split at returned <;> dsimp only at returned <;> split at returned
    all_goals first
      | obtain ⟨_, _, thrown, -⟩ := run_bind_eq_ok.1 returned; cases thrown
      | cases returned; exact selected

theorem selectUTXOs_spends_usable_once {spendAmount : UInt64} {isSendAll : Bool} {fee : UInt64}
    {s' : Server} {r : List UTXO × UInt64 × UInt64}
    (distinct : (s.utxosSortedByAmount.map (·.outpoint)).Nodup)
    (returned : (selectUTXOs env spendAmount isSendAll fee fromAddresses).run s = .ok r s') :
    (r.1.map (·.outpoint)).Nodup ∧ ∃ v, env.virtualDAAScore = some v ∧
      ∀ utxo ∈ r.1, ∃ walletUTXO ∈ s.utxosSortedByAmount, UTXO.ofWalletUTXO walletUTXO = utxo ∧
        Usable s v fromAddresses walletUTXO := by
  obtain ⟨v, daa, taken, ⟨ordered, perm, sub⟩, usable, selected⟩ := selectUTXOs_takes returned
  have outpoints : r.1.map (·.outpoint) = taken.map (·.outpoint) := by
    rw [selected, List.map_map]
    rfl
  refine ⟨outpoints ▸ (perm.map _).nodup_iff.mp (distinct.sublist (sub.map _)), v, daa,
    fun utxo mem => ?_⟩
  rw [selected] at mem
  obtain ⟨walletUTXO, taken_mem, rfl⟩ := List.mem_map.mp mem
  exact ⟨walletUTXO, sub.subset (perm.symm.subset taken_mem), rfl, usable walletUTXO taken_mem⟩

end Selection

section OneUTXO
variable {env : Environment} {s : Server} {u : WalletUTXO} {v : UInt64}

theorem sortUTXOsByAmountDescending_single (only : s.utxosSortedByAmount = [u]) :
    sortUTXOsByAmountDescending.run s = .ok () s := by
  have same : { s with utxosSortedByAmount := [u] } = s := by rw [← only]
  simp [sortUTXOsByAmountDescending, only, same]

theorem sortUTXOsByAmountAscending_single (only : s.utxosSortedByAmount = [u]) :
    sortUTXOsByAmountAscending.run s = .ok () s := by
  have same : { s with utxosSortedByAmount := [u] } = s := by rw [← only]
  simp [sortUTXOsByAmountAscending, only, same]

theorem checkUsable_of_unused (env : Environment) {fromAddresses : List WalletAddress}
    {used : AList fun _ : DomainOutpoint => Nat} (usable : Usable s v fromAddresses u)
    (unused : used.lookup u.outpoint = none) :
    checkUsable env s v fromAddresses used u = some used := by
  obtain ⟨allowed, spendable⟩ := usable
  simp [checkUsable, walletAddressesContain, spendable, unused]
  exact allowed.resolve_left

theorem selectUpTo_take {fromAddresses : List WalletAddress} {limit : Nat} {utxos : List WalletUTXO}
    {sel : Selection} {used : AList fun _ : DomainOutpoint => Nat}
    (below : sel.selectedUTXOs.length < limit)
    (taken : checkUsable env s v fromAddresses sel.usedOutpoints u = some used) :
    selectUpTo env s v fromAddresses limit (u :: utxos) sel =
      selectUpTo env s v fromAddresses limit utxos (sel.take used u) := by
  rw [selectUpTo, if_neg (Nat.not_le.mpr below), taken]

theorem selectCompoundUTXOs_only (daa : env.virtualDAAScore = some v)
    (only : s.utxosSortedByAmount = [u]) (usable : Usable s v [] u)
    (unused : s.usedOutpoints.lookup u.outpoint = none)
    (funded : 2 * feePerInput < u.utxoEntry.amount + u.utxoEntry.amount) :
    ∃ s', (selectCompoundUTXOs env feePerInput []).run s =
      .ok ([UTXO.ofWalletUTXO u, UTXO.ofWalletUTXO u], u.utxoEntry.amount + u.utxoEntry.amount,
        u.utxoEntry.amount + u.utxoEntry.amount - 2 * feePerInput) s' := by
  have taken := checkUsable_of_unused env usable unused
  have first : selectUpTo env s v [] 1 s.utxosSortedByAmount ⟨[], 0, s.usedOutpoints⟩ =
      ⟨[UTXO.ofWalletUTXO u], u.utxoEntry.amount, s.usedOutpoints⟩ := by
    rw [only, selectUpTo_take (Nat.zero_lt_one) taken]
    simp [selectUpTo, Selection.take]
  have second : selectUpTo env s v [] targetCompoundInputs s.utxosSortedByAmount
      ⟨[UTXO.ofWalletUTXO u], u.utxoEntry.amount, s.usedOutpoints⟩ =
      ⟨[UTXO.ofWalletUTXO u, UTXO.ofWalletUTXO u], u.utxoEntry.amount + u.utxoEntry.amount,
        s.usedOutpoints⟩ := by
    rw [only, selectUpTo_take (by simp [targetCompoundInputs]) taken]
    simp [selectUpTo, Selection.take]
  simp only [selectCompoundUTXOs, EStateM.run_bind, getVirtualDAAScore_run daa,
    sortUTXOsByAmountDescending_single only, sortUTXOsByAmountAscending_single only, EStateM.run_get,
    EStateM.run_set, first, second]
  have enough : ¬ u.utxoEntry.amount + u.utxoEntry.amount ≤ 2 * feePerInput :=
    UInt64.not_le.mpr funded
  simp [enough]
theorem changeAddress_ok (env : Environment) (useExisting : Bool) (fromAddresses : List WalletAddress) (s : Server) :
    ∃ r s', (changeAddress env useExisting fromAddresses).run s = .ok r s' := by
  cases fromAddresses <;> cases useExisting <;> exact ⟨_, _, rfl⟩

theorem maybeAutoCompoundTransaction_light (calculator : MassCalculator)
    {transaction : PartiallySignedTransaction} {toAddress changeAddress : ScriptPublicKey}
    {changeWalletAddress : WalletAddress}
    (light : env.massAfterSignatures transaction < maximumStandardTransactionMass) :
    (maybeAutoCompoundTransaction env calculator transaction toAddress changeAddress
      changeWalletAddress).run s = .ok [transaction] s := by
  simp [maybeAutoCompoundTransaction, maybeSplitAndMergeTransaction, splitDepth, light, liftExcept]
  rfl

theorem createUnsignedCompoundTransaction_spends_only_utxo_twice (env : Environment)
    (calculator : MassCalculator) (s : Server) (address : String) (toAddress : ScriptPublicKey)
    (useExisting : Bool)
    (synced : s.synced = true) (decoded : env.decodeAddress address = some toAddress)
    (daa : env.virtualDAAScore = some v) (only : s.utxosSortedByAmount = [u])
    (usable : Usable s v [] u) (unused : s.usedOutpoints.lookup u.outpoint = none)
    (funded : 2 * feePerInput < u.utxoEntry.amount + u.utxoEntry.amount)
    (light : env.massAfterSignatures (createUnsignedTransaction
      [⟨toAddress, u.utxoEntry.amount + u.utxoEntry.amount - 2 * feePerInput⟩]
      [UTXO.ofWalletUTXO u, UTXO.ofWalletUTXO u]) < maximumStandardTransactionMass) :
    ∃ s', (createUnsignedCompoundTransaction env calculator address [] useExisting).run s =
      .ok [createUnsignedTransaction
        [⟨toAddress, u.utxoEntry.amount + u.utxoEntry.amount - 2 * feePerInput⟩]
        [UTXO.ofWalletUTXO u, UTXO.ofWalletUTXO u]] s' := by
  obtain ⟨s₁, selected⟩ := selectCompoundUTXOs_only daa only usable unused funded
  obtain ⟨r, s₂, changed⟩ := changeAddress_ok env useExisting [] s₁
  refine ⟨s₂, ?_⟩
  simp [createUnsignedCompoundTransaction, synced, decoded, lookupFromAddresses, selected, changed,
    maybeAutoCompoundTransaction_light calculator light]

theorem selectUTXOsLoop_take_sendAll {spendAmount fee : UInt64}
    {fromAddresses : List WalletAddress} {utxos : List WalletUTXO} {sel : Selection}
    {used : AList fun _ : DomainOutpoint => Nat}
    (taken : checkUsable env s v fromAddresses sel.usedOutpoints u = some used) :
    selectUTXOsLoop env s v spendAmount true fee fromAddresses (u :: utxos) sel =
      selectUTXOsLoop env s v spendAmount true fee fromAddresses utxos (sel.take used u) := by
  simp [selectUTXOsLoop, taken]

theorem selectUTXOs_sendAll_only (spendAmount : UInt64) (daa : env.virtualDAAScore = some v)
    (only : s.utxosSortedByAmount = [u]) (usable : Usable s v [] u)
    (unused : s.usedOutpoints.lookup u.outpoint = none) :
    (selectUTXOs env spendAmount true feePerInput []).run s =
      .ok ([UTXO.ofWalletUTXO u], u.utxoEntry.amount - feePerInput, 0) s := by
  have taken := checkUsable_of_unused env usable unused
  have all : selectUTXOsLoop env s v spendAmount true feePerInput [] s.utxosSortedByAmount
      ⟨[], 0, s.usedOutpoints⟩ = ⟨[UTXO.ofWalletUTXO u], u.utxoEntry.amount, s.usedOutpoints⟩ := by
    rw [only, selectUTXOsLoop_take_sendAll taken]
    simp [selectUTXOsLoop, Selection.take]
  simp only [selectUTXOs, ↓reduceIte, Nat.toUInt64_eq, UInt64.lt_irrefl, UInt64.sub_self,
    bind_pure_comp, EStateM.run_bind, getVirtualDAAScore_run daa,
    sortUTXOsByAmountDescending_single only, EStateM.run_get, all, List.length_cons,
    List.length_nil, zero_add, UInt64.ofNat_one, UInt64.mul_one]
  rfl

theorem createUnsignedTransactions_sendAll_only (env : Environment) (calculator : MassCalculator)
    (s : Server) (address : String) (toAddress : ScriptPublicKey) (amount : UInt64)
    (useExisting : Bool)
    (synced : s.synced = true) (decoded : env.decodeAddress address = some toAddress)
    (daa : env.virtualDAAScore = some v) (only : s.utxosSortedByAmount = [u])
    (usable : Usable s v [] u) (unused : s.usedOutpoints.lookup u.outpoint = none)
    (light : env.massAfterSignatures (createUnsignedTransaction
      [⟨toAddress, u.utxoEntry.amount - feePerInput⟩] [UTXO.ofWalletUTXO u]) <
        maximumStandardTransactionMass) :
    ∃ s', (createUnsignedTransactions env calculator address amount true [] useExisting).run s =
      .ok [createUnsignedTransaction [⟨toAddress, u.utxoEntry.amount - feePerInput⟩]
        [UTXO.ofWalletUTXO u]] s' := by
  obtain ⟨r, s₂, changed⟩ := changeAddress_ok env useExisting [] s
  refine ⟨s₂, ?_⟩
  simp [createUnsignedTransactions, synced, decoded, lookupFromAddresses,
    selectUTXOs_sendAll_only amount daa only usable unused, changed,
    maybeAutoCompoundTransaction_light calculator light]

end OneUTXO

/-! ### A wallet of one UTXO -/

def schnorrMassAfterSignatures (calculator : MassCalculator)
    (transaction : PartiallySignedTransaction) : UInt64 :=
  calculator.calculateTransactionMass transaction.tx +
    transaction.tx.inputs.length.toUInt64 * (66 * calculator.massPerTxByte + calculator.massPerSigOp)

/-- The mass prices of consensus_defaults.go. -/
def defaultMassCalculator : MassCalculator := ⟨1, 10, 1000⟩

def payeeScript : ScriptPublicKey := ⟨0x20 :: List.replicate 32 0x11 ++ [0xac], 0⟩

def oneUTXOEnvironment : Environment where
  virtualDAAScore := some 1000
  decodeAddress address := if address = "payee" then some payeeScript else none
  address _ := payeeScript
  transactionID _ := ⟨0⟩
  massAfterSignatures := schnorrMassAfterSignatures defaultMassCalculator
  usedOutpointHasExpired _ := false

def walletCoin (amount : UInt64) : WalletUTXO :=
  ⟨⟨⟨7⟩, 0⟩, ⟨amount, payeeScript, 10, false⟩, ⟨0, 0, 0⟩⟩

def walletOf (utxo : WalletUTXO) : Server :=
  ⟨[utxo], ∅, 100, ∅, 0, 0, true⟩

/-- A send-all selection from a wallet of one UTXO. -/
theorem selectUTXOs_spends_usable_once_one :
    (([UTXO.ofWalletUTXO (walletCoin 5000)] : List UTXO).map (·.outpoint)).Nodup ∧
      ∃ v, oneUTXOEnvironment.virtualDAAScore = some v ∧
        ∀ utxo ∈ [UTXO.ofWalletUTXO (walletCoin 5000)], ∃ walletUTXO ∈
          (walletOf (walletCoin 5000)).utxosSortedByAmount, UTXO.ofWalletUTXO walletUTXO = utxo ∧
            Usable (walletOf (walletCoin 5000)) v [] walletUTXO := by
  have returned : (selectUTXOs oneUTXOEnvironment 0 true feePerInput []).run
      (walletOf (walletCoin 5000)) = .ok ([UTXO.ofWalletUTXO (walletCoin 5000)],
        (walletCoin 5000).utxoEntry.amount - feePerInput, 0) (walletOf (walletCoin 5000)) :=
    selectUTXOs_sendAll_only 0 rfl rfl ⟨.inl rfl, rfl⟩ rfl
  exact selectUTXOs_spends_usable_once (by simp [walletOf]) returned

theorem wallet_batches_spend_twice_and_overpay :
    (∃ transaction s', (createUnsignedCompoundTransaction oneUTXOEnvironment defaultMassCalculator
        "payee" [] false).run (walletOf (walletCoin 100000000)) = .ok [transaction] s' ∧
      transaction.tx.inputs = [(walletCoin 100000000).outpoint, (walletCoin 100000000).outpoint] ∧
      transaction.tx.outputs.map (·.value) = [199980000]) ∧
    (∃ transaction s', (createUnsignedTransactions oneUTXOEnvironment defaultMassCalculator
        "payee" 0 true [] false).run (walletOf (walletCoin 5000)) = .ok [transaction] s' ∧
      transaction.tx.inputs = [(walletCoin 5000).outpoint] ∧
      transaction.tx.outputs.map (·.value) = [18446744073709546616]) := by
  obtain ⟨s₁, compound⟩ := createUnsignedCompoundTransaction_spends_only_utxo_twice
    oneUTXOEnvironment defaultMassCalculator (walletOf (walletCoin 100000000)) "payee" payeeScript
    false rfl rfl rfl rfl ⟨.inl rfl, rfl⟩ rfl (by decide) (by decide)
  obtain ⟨s₂, sendAll⟩ := createUnsignedTransactions_sendAll_only oneUTXOEnvironment
    defaultMassCalculator (walletOf (walletCoin 5000)) "payee" payeeScript 0 false rfl rfl rfl rfl
    ⟨.inl rfl, rfl⟩ rfl (by decide)
  exact ⟨⟨_, s₁, compound, rfl, rfl⟩, ⟨_, s₂, sendAll, rfl, rfl⟩⟩

end Wallet
