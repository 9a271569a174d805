import Mathlib
import Htnd.TransactionValidator.InContext

/- The amount checks. checkTransactionAmountRanges (transaction_in_isolation.go) bounds every
   output and every running total of the outputs by MaxSompi, so the output sum of the
   in-context check, which does not test for overflow, is exact. The input sum is tested at each
   step, for overflow and for MaxSompi at once: it fails exactly when the integer sum of the
   entries passes MaxSompi, and the fee is then the integer difference of the two sums. An
   entry's amount is not bounded by either check, so the input addition itself can wrap; the
   wrap is caught, and it cannot happen where every entry is at most MaxSompi. -/
namespace TransactionValidation
open Utxo GoSemantics

inductive AmountRangeError where
  | txOutValueZero
  | outputTooHigh (sompi : UInt64)
  | totalOverflow
  | totalTooHigh (totalSompi : UInt64)
  deriving DecidableEq, Repr

def amountRangesStep (totalSompi : UInt64) (txOut : DomainTransactionOutput) :
    Except AmountRangeError UInt64 :=
  let sompi := txOut.value
  if sompi = 0 then .error .txOutValueZero
  else if sompi > maxSompi then .error (.outputTooHigh sompi)
  else
    let newTotalSompi := totalSompi + sompi
    if newTotalSompi < totalSompi then .error .totalOverflow
    else if newTotalSompi > maxSompi then .error (.totalTooHigh newTotalSompi)
    else .ok newTotalSompi

def checkTransactionAmountRanges (tx : DomainTransaction) : Except AmountRangeError Unit := do
  let _ ← tx.outputs.foldlM amountRangesStep 0
  pure ()

def totalSompiInOf (inputs : List DomainTransactionInput) : Nat :=
  (inputs.map fun input => (input.utxoEntry.map (·.amount.toNat)).getD 0).sum

def totalSompiOutOf (outputs : List DomainTransactionOutput) : Nat :=
  (outputs.map (·.value.toNat)).sum

def RuleError.isAmountError : RuleError → Bool
  | .badTxOutValue _ => true
  | .spendTooHigh _ _ => true
  | _ => false

@[simp] theorem totalSompiInOf_nil : totalSompiInOf [] = 0 := rfl

@[simp] theorem totalSompiInOf_cons (input : DomainTransactionInput)
    (inputs : List DomainTransactionInput) :
    totalSompiInOf (input :: inputs) =
      (input.utxoEntry.map (·.amount.toNat)).getD 0 + totalSompiInOf inputs := by
  simp [totalSompiInOf]

@[simp] theorem totalSompiInOf_append (done rest : List DomainTransactionInput) :
    totalSompiInOf (done ++ rest) = totalSompiInOf done + totalSompiInOf rest := by
  simp [totalSompiInOf]

@[simp] theorem totalSompiOutOf_nil : totalSompiOutOf [] = 0 := rfl

@[simp] theorem totalSompiOutOf_cons (output : DomainTransactionOutput)
    (outputs : List DomainTransactionOutput) :
    totalSompiOutOf (output :: outputs) = output.value.toNat + totalSompiOutOf outputs := by
  simp [totalSompiOutOf]

@[simp] theorem totalSompiOutOf_append (done rest : List DomainTransactionOutput) :
    totalSompiOutOf (done ++ rest) = totalSompiOutOf done + totalSompiOutOf rest := by
  simp [totalSompiOutOf]

theorem maxSompi_toNat : maxSompi.toNat = 1710000000000000000 := rfl

/-! ## The outputs -/

theorem amountRangesStep_eq_ok {totalSompi newTotalSompi : UInt64}
    {txOut : DomainTransactionOutput} (passed : amountRangesStep totalSompi txOut = .ok newTotalSompi) :
    newTotalSompi.toNat = totalSompi.toNat + txOut.value.toNat ∧
      newTotalSompi.toNat ≤ maxSompi.toNat := by
  unfold amountRangesStep at passed
  simp only at passed
  split_ifs at passed with zero tooHigh overflow totalTooHigh
  cases passed
  have added := UInt64.toNat_add totalSompi txOut.value
  simp only [UInt64.lt_iff_toNat_lt, gt_iff_lt, not_lt] at overflow totalTooHigh
  have noWrap : totalSompi.toNat + txOut.value.toNat < 2 ^ 64 := by
    by_contra wrapped
    have := UInt64.toNat_lt txOut.value
    omega
  exact ⟨by omega, totalTooHigh⟩

theorem foldlM_amountRangesStep_ok (outputs : List DomainTransactionOutput) :
    ∀ {totalSompi final : UInt64}, totalSompi.toNat ≤ maxSompi.toNat →
      outputs.foldlM amountRangesStep totalSompi = .ok final →
      totalSompi.toNat + totalSompiOutOf outputs ≤ maxSompi.toNat ∧
        final.toNat = totalSompi.toNat + totalSompiOutOf outputs := by
  induction outputs with
  | nil =>
    intro totalSompi final bounded passed
    cases passed
    simpa using bounded
  | cons txOut outputs ih =>
    intro totalSompi final _ passed
    rw [List.foldlM_cons] at passed
    cases step : amountRangesStep totalSompi txOut with
    | error err =>
      rw [step] at passed
      cases passed
    | ok newTotalSompi =>
      rw [step] at passed
      obtain ⟨added, newBounded⟩ := amountRangesStep_eq_ok step
      obtain ⟨rest, final_eq⟩ := ih newBounded passed
      simp only [totalSompiOutOf_cons]
      omega

theorem toNat_foldl_add_value (outputs : List DomainTransactionOutput) :
    ∀ totalSompi : UInt64, totalSompi.toNat + totalSompiOutOf outputs < 2 ^ 64 →
      (outputs.foldl (fun total output => total + output.value) totalSompi).toNat =
        totalSompi.toNat + totalSompiOutOf outputs := by
  induction outputs with
  | nil => intro totalSompi _; simp
  | cons output outputs ih =>
    intro totalSompi fits
    simp only [totalSompiOutOf_cons] at fits
    have added : (totalSompi + output.value).toNat = totalSompi.toNat + output.value.toNat := by
      rw [UInt64.toNat_add]
      exact Nat.mod_eq_of_lt (by omega)
    rw [List.foldl_cons, ih _ (by omega), added, totalSompiOutOf_cons]
    omega

/-! ## The inputs -/

theorem checkEntryAmounts_le {entry : UTXOEntry} {totalSompiInBefore totalSompiInAfter : UInt64}
    (passed : checkEntryAmounts entry totalSompiInBefore = .ok totalSompiInAfter) :
    totalSompiInAfter.toNat ≤ maxSompi.toNat := by
  unfold checkEntryAmounts at passed
  simp only at passed
  split_ifs at passed with failed
  cases passed
  simp only [not_or, gt_iff_lt, UInt64.lt_iff_toNat_lt] at failed
  exact Nat.le_of_not_lt failed.2

theorem checkEntryAmounts_of_le (entry : UTXOEntry) {totalSompiInBefore : UInt64}
    (bounded : totalSompiInBefore.toNat ≤ maxSompi.toNat) :
    checkEntryAmounts entry totalSompiInBefore =
      if totalSompiInBefore.toNat + entry.amount.toNat ≤ maxSompi.toNat then
        .ok (totalSompiInBefore + entry.amount)
      else .error (.badTxOutValue totalSompiInBefore) := by
  have added := UInt64.toNat_add totalSompiInBefore entry.amount
  have amountBelow := UInt64.toNat_lt entry.amount
  rw [maxSompi_toNat] at bounded ⊢
  unfold checkEntryAmounts
  simp only [UInt64.lt_iff_toNat_lt, gt_iff_lt, maxSompi_toNat, added]
  by_cases fits : totalSompiInBefore.toNat + entry.amount.toNat ≤ 1710000000000000000
  · rw [if_neg (by omega), if_pos fits]
  · rw [if_pos (by omega), if_neg fits]

theorem toNat_add_of_le_maxSompi {a b : UInt64} (aBounded : a.toNat ≤ maxSompi.toNat)
    (bBounded : b.toNat ≤ maxSompi.toNat) : (a + b).toNat = a.toNat + b.toNat := by
  rw [maxSompi_toNat] at aBounded bBounded
  rw [UInt64.toNat_add]
  exact Nat.mod_eq_of_lt (by omega)

theorem foldlM_inputAmountsStep_le (inputs : List DomainTransactionInput) :
    ∀ {acc result : UInt64 × List DomainOutpoint}, acc.1.toNat ≤ maxSompi.toNat →
      inputs.foldlM inputAmountsStep acc = .ok result → result.1.toNat ≤ maxSompi.toNat := by
  induction inputs with
  | nil =>
    intro acc result bounded summed
    cases summed
    exact bounded
  | cons input inputs ih =>
    intro acc result bounded summed
    rw [List.foldlM_cons] at summed
    cases found : input.utxoEntry with
    | none =>
      simp only [inputAmountsStep, found] at summed
      exact @ih (acc.1, acc.2 ++ [input.previousOutpoint]) result bounded summed
    | some utxoEntry =>
      cases checked : checkEntryAmounts utxoEntry acc.1 with
      | error err =>
        simp only [inputAmountsStep, found, checked] at summed
        cases summed
      | ok total =>
        simp only [inputAmountsStep, found, checked] at summed
        exact ih (checkEntryAmounts_le checked) summed

theorem foldlM_inputAmountsStep_of_entries (inputs : List DomainTransactionInput)
    (entries : ∀ input ∈ inputs, input.utxoEntry.isSome) :
    ∀ {totalSompiIn : UInt64}, totalSompiIn.toNat ≤ maxSompi.toNat →
      (totalSompiIn.toNat + totalSompiInOf inputs ≤ maxSompi.toNat →
        ∃ total, inputs.foldlM inputAmountsStep (totalSompiIn, []) = .ok (total, []) ∧
          total.toNat = totalSompiIn.toNat + totalSompiInOf inputs) ∧
      (maxSompi.toNat < totalSompiIn.toNat + totalSompiInOf inputs →
        ∃ totalSompiInBefore,
          inputs.foldlM inputAmountsStep (totalSompiIn, []) = .error (.badTxOutValue totalSompiInBefore)) := by
  induction inputs with
  | nil =>
    intro totalSompiIn bounded
    simp only [totalSompiInOf_nil, Nat.add_zero]
    exact ⟨fun _ => ⟨totalSompiIn, rfl, rfl⟩, fun exceeds => absurd bounded (Nat.not_le.2 exceeds)⟩
  | cons input inputs ih =>
    intro totalSompiIn bounded
    obtain ⟨entry, found⟩ := Option.isSome_iff_exists.1 (entries input List.mem_cons_self)
    have rest := @ih (fun input mem => entries input (List.mem_cons_of_mem _ mem))
    simp only [totalSompiInOf_cons, found, Option.map_some, Option.getD_some]
    rw [List.foldlM_cons]
    by_cases fits : totalSompiIn.toNat + entry.amount.toNat ≤ maxSompi.toNat
    · -- the entry is added exactly, and the rest of the loop runs from the new total
      have added : (totalSompiIn + entry.amount).toNat = totalSompiIn.toNat + entry.amount.toNat :=
        toNat_add_of_le_maxSompi bounded (by omega)
      have step : inputAmountsStep (totalSompiIn, []) input = .ok (totalSompiIn + entry.amount, []) := by
        simp only [inputAmountsStep, found, checkEntryAmounts_of_le entry bounded, if_pos fits]
        rfl
      obtain ⟨fitting, exceeds⟩ := @rest (totalSompiIn + entry.amount) (by omega)
      rw [step]
      refine ⟨fun sumFits => ?_, fun sumOver => exceeds (by omega)⟩
      obtain ⟨total, run, exact⟩ := fitting (by omega)
      exact ⟨total, run, by omega⟩
    · have step : inputAmountsStep (totalSompiIn, []) input = .error (.badTxOutValue totalSompiIn) := by
        simp only [inputAmountsStep, found, checkEntryAmounts_of_le entry bounded, if_neg fits]
        rfl
      rw [step]
      exact ⟨fun sumFits => absurd (by omega) fits, fun _ => ⟨totalSompiIn, rfl⟩⟩

theorem checkTransactionInputAmounts_of_entries (tx : DomainTransaction)
    (entries : ∀ input ∈ tx.inputs, input.utxoEntry.isSome) :
    (totalSompiInOf tx.inputs ≤ maxSompi.toNat →
      ∃ totalSompiIn, checkTransactionInputAmounts tx = .ok totalSompiIn ∧
        totalSompiIn.toNat = totalSompiInOf tx.inputs) ∧
    (maxSompi.toNat < totalSompiInOf tx.inputs →
      ∃ totalSompiInBefore,
        checkTransactionInputAmounts tx = .error (.badTxOutValue totalSompiInBefore)) := by
  obtain ⟨fitting, exceeds⟩ := @foldlM_inputAmountsStep_of_entries tx.inputs entries 0 (by decide)
  refine ⟨fun fits => ?_, fun tooMuch => ?_⟩
  · obtain ⟨totalSompiIn, summed, exact⟩ := fitting (by simpa using fits)
    refine ⟨totalSompiIn, ?_, by simpa using exact⟩
    simp only [checkTransactionInputAmounts, summed]
    rfl
  · obtain ⟨totalSompiInBefore, summed⟩ := exceeds (by simpa using tooMuch)
    refine ⟨totalSompiInBefore, ?_⟩
    simp only [checkTransactionInputAmounts, summed]
    rfl

theorem inputAmounts_add_exact {tx : DomainTransaction}
    (bounded : ∀ input ∈ tx.inputs, ∀ entry, input.utxoEntry = some entry → entry.amount ≤ maxSompi)
    {done rest : List DomainTransactionInput} {input : DomainTransactionInput} {entry : UTXOEntry}
    {totalSompiInBefore : UInt64} {missingOutpoints : List DomainOutpoint}
    (split : tx.inputs = done ++ input :: rest) (found : input.utxoEntry = some entry)
    (summed : done.foldlM inputAmountsStep (0, []) = .ok (totalSompiInBefore, missingOutpoints)) :
    (totalSompiInBefore + entry.amount).toNat = totalSompiInBefore.toNat + entry.amount.toNat := by
  have before := foldlM_inputAmountsStep_le done (by decide) summed
  have amount := bounded input (by simp [split]) entry found
  exact toNat_add_of_le_maxSompi before (UInt64.le_iff_toNat_le.1 amount)

/-! ## The outputs in context -/

theorem totalSompiOutOf_le_of_ranges {tx : DomainTransaction}
    (ranges : checkTransactionAmountRanges tx = .ok ()) :
    totalSompiOutOf tx.outputs ≤ maxSompi.toNat := by
  unfold checkTransactionAmountRanges at ranges
  cases passed : tx.outputs.foldlM amountRangesStep 0 with
  | error err =>
    rw [passed] at ranges
    cases ranges
  | ok final =>
    simpa using (foldlM_amountRangesStep_ok tx.outputs (by decide) passed).1

theorem outputAmounts_add_exact {tx : DomainTransaction}
    (ranges : checkTransactionAmountRanges tx = .ok ())
    {done rest : List DomainTransactionOutput} {output : DomainTransactionOutput}
    (split : tx.outputs = done ++ output :: rest) :
    (done.foldl (fun (total : UInt64) (output : DomainTransactionOutput) => total + output.value) 0 +
        output.value).toNat =
      (done.foldl (fun (total : UInt64) (output : DomainTransactionOutput) => total + output.value)
        0).toNat + output.value.toNat := by
  have within := totalSompiOutOf_le_of_ranges ranges
  rw [split, totalSompiOutOf_append, totalSompiOutOf_cons, maxSompi_toNat] at within
  have doneExact := toNat_foldl_add_value done 0 (by simp; omega)
  rw [UInt64.toNat_add, doneExact]
  exact Nat.mod_eq_of_lt (by simp; omega)

theorem checkTransactionOutputAmounts_of_ranges {tx : DomainTransaction}
    (ranges : checkTransactionAmountRanges tx = .ok ()) (totalSompiIn : UInt64) :
    (totalSompiIn.toNat < totalSompiOutOf tx.outputs → ∃ totalSompiOut,
      checkTransactionOutputAmounts tx totalSompiIn = .error (.spendTooHigh totalSompiIn totalSompiOut)) ∧
    (totalSompiOutOf tx.outputs ≤ totalSompiIn.toNat → ∃ totalSompiOut,
      checkTransactionOutputAmounts tx totalSompiIn = .ok totalSompiOut ∧
        totalSompiOut.toNat = totalSompiOutOf tx.outputs) := by
  have within := totalSompiOutOf_le_of_ranges ranges
  rw [maxSompi_toNat] at within
  have exact := toNat_foldl_add_value tx.outputs 0 (by simp; omega)
  simp only [UInt64.toNat_zero, Nat.zero_add] at exact
  unfold checkTransactionOutputAmounts
  simp only [UInt64.lt_iff_toNat_lt, exact]
  refine ⟨fun tooHigh => ⟨_, if_pos tooHigh⟩, fun spendable => ⟨_, if_neg (by omega), exact⟩⟩

/-! ## The later checks -/

variable (v : TransactionValidator)

theorem coinbaseMaturityLoop_not_amountError (povDAAScore : UInt64)
    (inputs : List DomainTransactionInput) :
    ∀ missingOutpoints err, coinbaseMaturityLoop v povDAAScore inputs missingOutpoints = some err →
      err.isAmountError = false := by
  induction inputs with
  | nil =>
    intro missingOutpoints err failed
    unfold coinbaseMaturityLoop at failed
    split_ifs at failed
    cases failed
    rfl
  | cons input inputs ih =>
    intro missingOutpoints err failed
    unfold coinbaseMaturityLoop at failed
    split at failed
    · exact ih _ err failed
    · split_ifs at failed
      · cases failed
        rfl
      · exact ih _ err failed

theorem sigOpCountsLoop_not_amountError (inputs : List DomainTransactionInput) :
    ∀ i err, sigOpCountsLoop v inputs i = some err → err.isAmountError = false := by
  induction inputs with
  | nil => intro i err failed; cases failed
  | cons input inputs ih =>
    intro i err failed
    unfold sigOpCountsLoop at failed
    split at failed
    · exact ih _ err failed
    · dsimp only at failed
      split_ifs at failed
      · cases failed
        rfl
      · exact ih _ err failed

theorem scriptsLoop_not_amountError (tx : DomainTransaction) (inputs : List DomainTransactionInput) :
    ∀ i missingOutpoints err, scriptsLoop v tx inputs i missingOutpoints = some err →
      err.isAmountError = false := by
  induction inputs with
  | nil =>
    intro i missingOutpoints err failed
    unfold scriptsLoop at failed
    split_ifs at failed
    cases failed
    rfl
  | cons input inputs ih =>
    intro i missingOutpoints err failed
    unfold scriptsLoop at failed
    split at failed
    · exact ih _ _ err failed
    · split_ifs at failed
      · cases failed
        rfl
      · cases failed
        rfl
      · exact ih _ _ err failed

theorem calcTxSequenceLock_not_amountError {tx : DomainTransaction} {err : RuleError}
    (failed : calcTxSequenceLockFromReferencedUTXOEntries tx = .error err) :
    err.isAmountError = false := by
  unfold calcTxSequenceLockFromReferencedUTXOEntries at failed
  by_cases coinbase : isCoinBase tx
  · rw [if_pos coinbase] at failed
    cases failed
  · rw [if_neg coinbase] at failed
    generalize tx.inputs.foldl sequenceLockStep (-1, []) = result at failed
    obtain ⟨blockDAAScore, missingOutpoints⟩ := result
    dsimp only at failed
    by_cases empty : missingOutpoints.isEmpty
    · rw [if_pos empty] at failed
      cases failed
    · rw [if_neg empty] at failed
      cases failed
      rfl

theorem checkTransactionSequenceLock_not_amountError (tx : DomainTransaction)
    (povDAAScore : UInt64) {err : RuleError}
    (failed : checkTransactionSequenceLock tx povDAAScore = some err) :
    err.isAmountError = false := by
  unfold checkTransactionSequenceLock at failed
  split at failed
  · rename_i calculated
    cases failed
    exact calcTxSequenceLock_not_amountError calculated
  · split_ifs at failed
    cases failed
    rfl

theorem checkResult_not_amountError (tx : DomainTransaction) (povDAAScore : UInt64) (i : Fin 4)
    {err : RuleError} (failed : checkResult v tx povDAAScore i = some err) :
    err.isAmountError = false :=
  match i, failed with
  | 0, failed => coinbaseMaturityLoop_not_amountError v povDAAScore tx.inputs [] err failed
  | 1, failed => checkTransactionSequenceLock_not_amountError tx povDAAScore failed
  | 2, failed => sigOpCountsLoop_not_amountError v tx.inputs 0 err failed
  | 3, failed => scriptsLoop_not_amountError v tx tx.inputs 0 [] err failed

theorem firstError_not_amountError (schedule : List (Fin 4)) (tx : DomainTransaction)
    (povDAAScore : UInt64) {err : RuleError}
    (failed : firstError (schedule.map (checkResult v tx povDAAScore)) = some err) :
    err.isAmountError = false := by
  obtain ⟨i, -, sent⟩ := List.mem_map.1 (mem_of_firstError failed)
  exact checkResult_not_amountError v tx povDAAScore i sent

/-! ## The fee -/

section
variable {v} {tx : DomainTransaction}

theorem validateTransactionInContextAndPopulateFee_of_inputs_over (schedule : List (Fin 4))
    (povDAAScore : UInt64) (entries : ∀ input ∈ tx.inputs, input.utxoEntry.isSome)
    (exceeds : maxSompi.toNat < totalSompiInOf tx.inputs) :
    ∃ totalSompiInBefore, validateTransactionInContextAndPopulateFee v schedule tx povDAAScore =
      (tx, some (.badTxOutValue totalSompiInBefore)) := by
  obtain ⟨totalSompiInBefore, failed⟩ := (checkTransactionInputAmounts_of_entries tx entries).2 exceeds
  exact ⟨totalSompiInBefore, by simp only [validateTransactionInContextAndPopulateFee, failed]⟩

theorem validateTransactionInContextAndPopulateFee_of_spendTooHigh (schedule : List (Fin 4))
    (povDAAScore : UInt64) (ranges : checkTransactionAmountRanges tx = .ok ())
    (entries : ∀ input ∈ tx.inputs, input.utxoEntry.isSome)
    (within : totalSompiInOf tx.inputs ≤ maxSompi.toNat)
    (tooHigh : totalSompiInOf tx.inputs < totalSompiOutOf tx.outputs) :
    ∃ totalSompiIn totalSompiOut, validateTransactionInContextAndPopulateFee v schedule tx povDAAScore =
      (tx, some (.spendTooHigh totalSompiIn totalSompiOut)) := by
  obtain ⟨totalSompiIn, summed, exact⟩ := (checkTransactionInputAmounts_of_entries tx entries).1 within
  obtain ⟨totalSompiOut, failed⟩ :=
    (checkTransactionOutputAmounts_of_ranges ranges totalSompiIn).1 (by omega)
  exact ⟨totalSompiIn, totalSompiOut,
    by simp only [validateTransactionInContextAndPopulateFee, summed, failed]⟩

theorem validateTransactionInContextAndPopulateFee_of_spendable (schedule : List (Fin 4))
    (povDAAScore : UInt64) (ranges : checkTransactionAmountRanges tx = .ok ())
    (entries : ∀ input ∈ tx.inputs, input.utxoEntry.isSome)
    (within : totalSompiInOf tx.inputs ≤ maxSompi.toNat)
    (spendable : totalSompiOutOf tx.outputs ≤ totalSompiInOf tx.inputs) :
    ∃ fee : UInt64, fee.toNat = totalSompiInOf tx.inputs - totalSompiOutOf tx.outputs ∧
      validateTransactionInContextAndPopulateFee v schedule tx povDAAScore =
        ({ tx with fee }, firstError (schedule.map (checkResult v { tx with fee } povDAAScore))) := by
  obtain ⟨totalSompiIn, summed, inExact⟩ :=
    (checkTransactionInputAmounts_of_entries tx entries).1 within
  obtain ⟨totalSompiOut, passed, outExact⟩ :=
    (checkTransactionOutputAmounts_of_ranges ranges totalSompiIn).2 (by omega)
  have subtracted : (totalSompiIn - totalSompiOut).toNat = totalSompiIn.toNat - totalSompiOut.toNat :=
    UInt64.toNat_sub_of_le _ _ (UInt64.le_iff_toNat_le.2 (by omega))
  refine ⟨totalSompiIn - totalSompiOut, by omega, ?_⟩
  simp only [validateTransactionInContextAndPopulateFee, summed, passed]

theorem validateTransactionInContextAndPopulateFee_cases (schedule : List (Fin 4))
    (povDAAScore : UInt64) (ranges : checkTransactionAmountRanges tx = .ok ())
    (entries : ∀ input ∈ tx.inputs, input.utxoEntry.isSome) :
    (maxSompi.toNat < totalSompiInOf tx.inputs ∧ ∃ totalSompiInBefore,
        validateTransactionInContextAndPopulateFee v schedule tx povDAAScore =
          (tx, some (.badTxOutValue totalSompiInBefore))) ∨
      (totalSompiInOf tx.inputs ≤ maxSompi.toNat ∧
        totalSompiInOf tx.inputs < totalSompiOutOf tx.outputs ∧ ∃ totalSompiIn totalSompiOut,
          validateTransactionInContextAndPopulateFee v schedule tx povDAAScore =
            (tx, some (.spendTooHigh totalSompiIn totalSompiOut))) ∨
      (totalSompiInOf tx.inputs ≤ maxSompi.toNat ∧
        totalSompiOutOf tx.outputs ≤ totalSompiInOf tx.inputs ∧
        ∃ fee : UInt64, fee.toNat = totalSompiInOf tx.inputs - totalSompiOutOf tx.outputs ∧
          validateTransactionInContextAndPopulateFee v schedule tx povDAAScore =
            ({ tx with fee }, firstError (schedule.map (checkResult v { tx with fee } povDAAScore)))) := by
  by_cases within : totalSompiInOf tx.inputs ≤ maxSompi.toNat
  · by_cases spendable : totalSompiOutOf tx.outputs ≤ totalSompiInOf tx.inputs
    · exact .inr (.inr ⟨within, spendable, validateTransactionInContextAndPopulateFee_of_spendable
        schedule povDAAScore ranges entries within spendable⟩)
    · exact .inr (.inl ⟨within, by omega, validateTransactionInContextAndPopulateFee_of_spendTooHigh
        schedule povDAAScore ranges entries within (by omega)⟩)
  · exact .inl ⟨by omega, validateTransactionInContextAndPopulateFee_of_inputs_over schedule
      povDAAScore entries (by omega)⟩

theorem validateTransactionInContextAndPopulateFee_amounts (schedule : List (Fin 4))
    (povDAAScore : UInt64) (ranges : checkTransactionAmountRanges tx = .ok ())
    (entries : ∀ input ∈ tx.inputs, input.utxoEntry.isSome) :
    ((∃ totalSompiInBefore, (validateTransactionInContextAndPopulateFee v schedule tx povDAAScore).2 =
        some (.badTxOutValue totalSompiInBefore)) ↔ maxSompi.toNat < totalSompiInOf tx.inputs) ∧
      ((∃ totalSompiIn totalSompiOut,
          (validateTransactionInContextAndPopulateFee v schedule tx povDAAScore).2 =
            some (.spendTooHigh totalSompiIn totalSompiOut)) ↔
        totalSompiInOf tx.inputs ≤ maxSompi.toNat ∧
          totalSompiInOf tx.inputs < totalSompiOutOf tx.outputs) ∧
      (totalSompiInOf tx.inputs ≤ maxSompi.toNat →
        totalSompiOutOf tx.outputs ≤ totalSompiInOf tx.inputs →
        (validateTransactionInContextAndPopulateFee v schedule tx povDAAScore).1.fee.toNat =
          totalSompiInOf tx.inputs - totalSompiOutOf tx.outputs) := by
  rcases validateTransactionInContextAndPopulateFee_cases schedule povDAAScore ranges entries with
    ⟨exceeds, totalSompiInBefore, ran⟩ | ⟨within, tooHigh, totalSompiIn, totalSompiOut, ran⟩ |
      ⟨within, spendable, fee, exact, ran⟩ <;> rw [ran]
  · refine ⟨⟨fun _ => exceeds, fun _ => ⟨totalSompiInBefore, rfl⟩⟩, ⟨?_, ?_⟩, ?_⟩
    · rintro ⟨_, _, ⟨⟩⟩
    · rintro ⟨within, -⟩; omega
    · intro within; omega
  · refine ⟨⟨?_, ?_⟩, ⟨fun _ => ⟨within, tooHigh⟩, fun _ => ⟨totalSompiIn, totalSompiOut, rfl⟩⟩, ?_⟩
    · rintro ⟨_, ⟨⟩⟩
    · intro exceeds; omega
    · intro _ spendable; omega
  · refine ⟨⟨?_, ?_⟩, ⟨?_, ?_⟩, fun _ _ => exact⟩
    · rintro ⟨totalSompiInBefore, failed⟩
      have notAmount := firstError_not_amountError v schedule _ povDAAScore failed
      simp [RuleError.isAmountError] at notAmount
    · intro exceeds; omega
    · rintro ⟨totalSompiIn, totalSompiOut, failed⟩
      have notAmount := firstError_not_amountError v schedule _ povDAAScore failed
      simp [RuleError.isAmountError] at notAmount
    · rintro ⟨-, tooHigh⟩; omega

/-- **Fee.** For a transaction whose output ranges pass and whose inputs all carry an entry:
    the call fails with `badTxOutValue` exactly when the integer sum of the entries passes
    MaxSompi, with `spendTooHigh` exactly when that sum is within MaxSompi and below the integer
    sum of the outputs, and otherwise sets the fee to the integer difference. No addition of the
    output sum wraps, nor the subtraction of the fee; no addition of the input sum wraps where
    every entry is within MaxSompi. -/
theorem validateTransactionInContextAndPopulateFee_fee_exact (schedule : List (Fin 4))
    (povDAAScore : UInt64) (ranges : checkTransactionAmountRanges tx = .ok ())
    (entries : ∀ input ∈ tx.inputs, input.utxoEntry.isSome) :
    ((∃ totalSompiInBefore, (validateTransactionInContextAndPopulateFee v schedule tx povDAAScore).2 =
        some (.badTxOutValue totalSompiInBefore)) ↔ maxSompi.toNat < totalSompiInOf tx.inputs) ∧
      ((∃ totalSompiIn totalSompiOut,
          (validateTransactionInContextAndPopulateFee v schedule tx povDAAScore).2 =
            some (.spendTooHigh totalSompiIn totalSompiOut)) ↔
        totalSompiInOf tx.inputs ≤ maxSompi.toNat ∧
          totalSompiInOf tx.inputs < totalSompiOutOf tx.outputs) ∧
      (totalSompiInOf tx.inputs ≤ maxSompi.toNat →
        totalSompiOutOf tx.outputs ≤ totalSompiInOf tx.inputs →
        (validateTransactionInContextAndPopulateFee v schedule tx povDAAScore).1.fee.toNat =
          totalSompiInOf tx.inputs - totalSompiOutOf tx.outputs) ∧
      (∀ done output rest, tx.outputs = done ++ output :: rest →
        (done.foldl (fun (total : UInt64) (output : DomainTransactionOutput) => total + output.value)
            0 + output.value).toNat =
          (done.foldl (fun (total : UInt64) (output : DomainTransactionOutput) =>
            total + output.value) 0).toNat + output.value.toNat) ∧
      ((∀ input ∈ tx.inputs, ∀ entry, input.utxoEntry = some entry → entry.amount ≤ maxSompi) →
        ∀ done input rest entry totalSompiInBefore missingOutpoints,
          tx.inputs = done ++ input :: rest → input.utxoEntry = some entry →
          done.foldlM inputAmountsStep (0, []) = .ok (totalSompiInBefore, missingOutpoints) →
          (totalSompiInBefore + entry.amount).toNat =
            totalSompiInBefore.toNat + entry.amount.toNat) :=
  ⟨(validateTransactionInContextAndPopulateFee_amounts schedule povDAAScore ranges entries).1,
    (validateTransactionInContextAndPopulateFee_amounts schedule povDAAScore ranges entries).2.1,
    (validateTransactionInContextAndPopulateFee_amounts schedule povDAAScore ranges entries).2.2,
    fun _ _ _ split => outputAmounts_add_exact ranges split,
    fun bounded _ _ _ _ _ _ split found summed => inputAmounts_add_exact bounded split found summed⟩

end

def spendingTransaction : DomainTransaction where
  id := ⟨1⟩
  inputs := [⟨⟨⟨0⟩, 0⟩, [], 0, 0, some ⟨1000, ⟨[], 0⟩, 0, false⟩⟩]
  outputs := [⟨900, ⟨[], 0⟩⟩]
  subnetworkID := ⟨List.replicate 20 0⟩
  fee := 0
  mass := 0

theorem validateTransactionInContextAndPopulateFee_fee_exact_spend :
    checkTransactionAmountRanges spendingTransaction = .ok () ∧
      (∀ input ∈ spendingTransaction.inputs, input.utxoEntry.isSome) ∧
      (validateTransactionInContextAndPopulateFee acceptingValidator [0, 1, 2, 3]
        spendingTransaction 0).1.fee.toNat = 100 :=
  have ranges : checkTransactionAmountRanges spendingTransaction = .ok () := rfl
  have entries : ∀ input ∈ spendingTransaction.inputs, input.utxoEntry.isSome := by decide
  ⟨ranges, entries, ((validateTransactionInContextAndPopulateFee_fee_exact [0, 1, 2, 3] 0 ranges
    entries).2.2.1 (by decide) (by decide)).trans (by decide)⟩

def wrappingTransaction : DomainTransaction where
  id := ⟨1⟩
  inputs := [⟨⟨⟨0⟩, 0⟩, [], 0, 0, some ⟨1, ⟨[], 0⟩, 0, false⟩⟩,
    ⟨⟨⟨0⟩, 1⟩, [], 0, 0, some ⟨18446744073709551615, ⟨[], 0⟩, 0, false⟩⟩]
  outputs := [⟨1, ⟨[], 0⟩⟩]
  subnetworkID := ⟨List.replicate 20 0⟩
  fee := 0
  mass := 0

/-- The ranges pass and every input has an entry, yet the second addition of the input sum,
    1 + (2^64 - 1), wraps to 0. The check catches it, as a total below the one before, and
    fails with `badTxOutValue`. -/
theorem checkEntryAmounts_wraps :
    checkTransactionAmountRanges wrappingTransaction = .ok () ∧
      (∀ input ∈ wrappingTransaction.inputs, input.utxoEntry.isSome) ∧
      (∃ done input rest entry totalSompiInBefore missingOutpoints,
        wrappingTransaction.inputs = done ++ input :: rest ∧ input.utxoEntry = some entry ∧
        done.foldlM inputAmountsStep (0, []) = .ok (totalSompiInBefore, missingOutpoints) ∧
        (totalSompiInBefore + entry.amount).toNat ≠
          totalSompiInBefore.toNat + entry.amount.toNat) ∧
      checkTransactionInputAmounts wrappingTransaction = .error (.badTxOutValue 1) :=
  ⟨rfl, by decide, ⟨[wrappingTransaction.inputs[0]], wrappingTransaction.inputs[1], [],
    ⟨18446744073709551615, ⟨[], 0⟩, 0, false⟩, 1, [], rfl, rfl, rfl, by decide⟩, rfl⟩

end TransactionValidation
